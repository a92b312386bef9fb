import Ruduo.Proofs.EventLoop.LoopSelection
import Ruduo.Proofs.Server.Directory
import Ruduo.Spec.Server

/-!
# `Ruduo.Proofs.Server.ServerSteps`: what a step of a server does

`Stepped` lists it, one constructor for each kind of step (`step_cases`). A message through a
notifier is a step of its worker (`notify_step`). A server that was made and started with success
has started (`started_of_start`), and the accept loop makes one step for each stream that it accepts
(`acceptLoop_run`).
-/

set_option autoImplicit false

namespace Ruduo

open Lib (Run Slab LawfulSlab)

variable {S : Type → Type} [Slab S] {M : Type} {poolSize : Nat}

/-! ### Messages -/

namespace Pool
variable {p : Pool S M poolSize} {n : Nat} {msg : Message (TcpConnMessage M)}

/-- No loop has this number. -/
theorem notify_of_le (h : poolSize ≤ n) : p.notify n msg = p := dif_neg (Nat.not_lt.mpr h)

/-- A notification goes to the worker with its number. -/
theorem notify_workers (seq : Fin poolSize) : (p.notify n msg).workers seq =
    if n = seq.val then (p.workers seq).push msg else p.workers seq := by
  unfold notify
  split
  · rename_i h
    by_cases heq : n = seq.val
    · subst heq
      rw [if_pos rfl]
      exact Function.update_self ..
    · rw [if_neg heq]
      exact Function.update_of_ne (fun hseq => heq (congrArg Fin.val hseq.symm)) ..
  · rename_i h
    rw [if_neg]
    rintro rfl
    exact h seq.isLt

/-- A message through a notifier is a step of the worker. -/
theorem notify_step [DecidableEq M] (h : n < poolSize) :
    p.Step (⟨n, h⟩, .enqueue msg) (p.notify n msg) := by
  unfold notify
  rw [dif_pos h]
  rfl

end Pool

/-! ### One step -/

namespace Server
variable [DecidableEq M] {s s' : Server S M poolSize} {l : ServerLabel M poolSize}

/-- What a step of the server does. -/
inductive Stepped (s : Server S M poolSize) :
    ServerLabel M poolSize → Server S M poolSize → Prop where
  /-- A stream is handed to the worker whose turn it is. -/
  | accept (a : Arrival) (threads : EventLoopThreadPool M) (n : Nat)
    (hnext : s.threads.nextLoop = .ok (threads, n)) (hlistening : s.listening = true) :
    Stepped s (.accept a.stream a.peerAddr a.connectionInitCallback)
      { s with threads := threads.notify n a.msg, pool := s.pool.notify n (.any a.msg) }
  /-- A step of one worker. The lock of `Shared` is not free during a shutdown. -/
  | worker (seq : Fin poolSize) (k : WorkerLabel M) (pool : Pool S M poolSize)
    (hpool : s.pool.Step (seq, k) pool) (hlock : k = .lock → s.letters = none) :
    Stepped s (.worker seq k) { s with pool }
  /-- The shutdown takes the lock of `Shared`, and will tell the loops in this order. -/
  | shutdown (values : List Nat) (hvalues : values.Perm s.pool.shared.values)
    (hlistening : s.listening = true) :
    Stepped s (.shutdown values) { s with listening := false, letters := some values }
  /-- The next loop is told to stop. -/
  | letter (n : Nat) (letters : List Nat) (hletters : s.letters = some (n :: letters)) :
    Stepped s .letter { s with pool := s.pool.notify n .stop, letters := some letters }
  /-- All loops are told, and the lock is given back. -/
  | endShutdown (hletters : s.letters = some []) :
    Stepped s .endShutdown { s with letters := none }

/-- Every step does one of these things. -/
theorem step_cases (hstep : s.Step l s') : Stepped s l s' := by
  unfold Step exec at hstep
  cases l with
  | accept stream peerAddr cb =>
    obtain ⟨⟨hlistening, -⟩, hs'⟩ := Option.ite_none_right_eq_some.mp hstep
    cases haccept : s.accept stream peerAddr cb with
    | error f =>
      rw [haccept] at hs'
      cases hs'
    | ok t =>
      rw [haccept] at hs'
      cases hs'
      obtain ⟨⟨threads, n⟩, hnext, haccept⟩ := bind_eq_ok.mp haccept
      cases haccept
      exact .accept ⟨stream, peerAddr, cb⟩ threads n hnext hlistening
  | worker seq k =>
    obtain ⟨hlock, hs'⟩ := Option.ite_none_left_eq_some.mp hstep
    obtain ⟨r, hr, hs'⟩ := Option.map_eq_some_iff.mp hs'
    cases r with
    | error f => cases hs'
    | ok pool =>
      cases hs'
      refine .worker seq k pool hr ?_
      rintro rfl
      simpa [WorkerLabel.takesLock] using hlock
  | shutdown values =>
    obtain ⟨⟨-, hvalues⟩, hs'⟩ := Option.ite_none_right_eq_some.mp hstep
    split at hs'
    · rename_i hlistening
      cases hs'
      exact .shutdown values hvalues hlistening
    · cases hs'
  | letter =>
    dsimp only at hstep
    split at hstep
    · rename_i n letters hletters
      cases hstep
      exact .letter n letters hletters
    · cases hstep
  | endShutdown =>
    obtain ⟨hletters, hs'⟩ := Option.ite_none_right_eq_some.mp hstep
    cases hs'
    exact .endShutdown hletters

end Server

/-! ### The start -/

namespace EventLoopThreadPool
variable {H : Type} {p : EventLoopThreadPool M}

/-- A start that succeeds has made the handle of every thread. -/
theorem made_of_start {f : Nat → Nat → Except Fault H} {envs : Nat → SpawnEnv} (is : List Nat) :
    ∀ {p : EventLoopThreadPool M}, (startLoop f envs is p).2 = .ok (.ok ()) →
      ∀ i ∈ is, ∃ noti handle, f i noti = .ok handle := by
  induction is with
  | nil => exact fun {p} _ i hi => absurd hi (by simp)
  | cons j is ih =>
    intro p h i hi
    rw [startLoop] at h
    cases hspawn : EventLoopThread.spawn (M := M) j p.pool.length f (envs j) with
    | error fault =>
      rw [hspawn] at h
      cases h
    | ok r =>
      rw [hspawn] at h
      cases r with
      | error e => cases h
      | ok thr =>
        rcases List.mem_cons.mp hi with rfl | hi
        · unfold EventLoopThread.spawn at hspawn
          split at hspawn
          · cases hspawn
          · obtain ⟨handle, hhandle, -⟩ := bind_eq_ok.mp hspawn
            exact ⟨_, handle, hhandle⟩
        · exact ih h i hi

end EventLoopThreadPool

/-- A server that is made and started with success has started. -/
theorem Listener.started_of_start {addr : String} {parsed : Option SocketAddr}
    {bound : Except IoError Unit} {poolSize cap : Nat} {listener : Listener M}
    (hnew : Listener.new addr parsed bound poolSize cap = .ok (.ok listener))
    {timers : Nat → Timer S M} {envs : Nat → SpawnEnv}
    {s : Server S M listener.config.poolSize}
    (hstart : listener.start S timers envs = .ok (.ok s)) :
    listener.config.poolSize = poolSize ∧ s.Started cap := by
  -- The pool is new, and has the size that was asked for.
  unfold Listener.new Listener.withConfig at hnew
  split at hnew
  · cases hnew
  dsimp only at hnew
  split at hnew
  · cases hnew
  obtain ⟨pool, hpool, hnew⟩ := bind_eq_ok.mp hnew
  cases hnew
  unfold EventLoopThreadPool.new at hpool
  split at hpool
  · cases hpool
  rename_i hpos
  cases hpool
  -- All threads were spawned.
  unfold Listener.start at hstart
  dsimp only at hstart
  split at hstart
  · cases hstart
  · cases hstart
  rename_i threads hthreads
  cases hstart
  have hstarted := EventLoopThreadPool.started_of_start rfl (Nat.pos_of_ne_zero hpos)
    (congrArg Prod.snd hthreads)
  rw [hthreads] at hstarted
  have hthreads' := congrArg Prod.fst hthreads
  rw [EventLoopThreadPool.start, EventLoopThreadPool.startLoop_fst] at hthreads'
  refine ⟨rfl, hstarted, ?_, ?_, ⟨rfl, fun seq => ⟨seq * cap, timers seq, ?_, rfl⟩⟩, rfl, rfl⟩
  · exact (congrArg EventLoopThreadPool.size hthreads').symm
  · exact (congrArg EventLoopThreadPool.next hthreads').symm
  · -- No offset overflows, since the dispatchers were made.
    obtain ⟨noti, d, hd⟩ := EventLoopThreadPool.made_of_start _ (congrArg Prod.snd hthreads) seq
      (List.mem_range.mpr seq.isLt)
    obtain ⟨offset, hoffset, -⟩ := bind_eq_ok.mp hd
    rw [hoffset, (u64Mul_eq_ok.mp hoffset).2]

/-! ### The accept loop -/

namespace Server
variable [DecidableEq M] {s : Server S M poolSize}

/-- The accept loop accepts a stream. -/
theorem accept_step {threads : EventLoopThreadPool M} {n : Nat} {a : Arrival}
    (hlistening : s.listening = true) (hletters : s.letters = none)
    (hnext : s.threads.nextLoop = .ok (threads, n)) :
    s.Step (.accept a.stream a.peerAddr a.connectionInitCallback)
      { s with threads := threads.notify n a.msg, pool := s.pool.notify n (.any a.msg) } := by
  have hready : s.listening = true ∧ s.letters.isNone = true := by simp [hlistening, hletters]
  unfold Step exec
  dsimp only
  rw [if_pos hready, accept, hnext]
  rfl

/-- The accept loop of the service, up to the outcomes that it looks at, makes one step for each
stream that it accepts, and passes the stream on in the same way. -/
theorem acceptLoop_run {P A : Type} {cb : Closure}
    (outcomes : List (Except IoError (TcpStream × SocketAddr))) :
    ∀ {s : Server S M poolSize} {t t' : TcpServer P A M}, s.listening = true → s.letters = none →
      s.threads = t.pool → TcpServer.acceptLoop cb outcomes t = .ok t' →
      ∃ ls s' used, Run Step s ls s' ∧ s'.threads = t'.pool ∧ used <+: outcomes ∧
        ls.flatMap ServerLabel.accepted =
          (acceptedStreams used).map fun a => ⟨a.1, a.2, cb⟩ := by
  induction outcomes with
  | nil =>
    intro s t t' _ _ _ h
    cases h
  | cons outcome outcomes ih =>
    intro s t t' hlistening hletters hthreads h
    cases outcome with
    | ok accepted =>
      obtain ⟨stream, peerAddr⟩ := accepted
      obtain ⟨⟨threads, n⟩, hnext, h⟩ := bind_eq_ok.mp h
      rw [← hthreads] at hnext
      have hstep := accept_step (a := ⟨stream, peerAddr, cb⟩) hlistening hletters hnext
      obtain ⟨ls, s', used, hrun, hthreads', hused, haccepted⟩ := ih (s := { s with
        threads := threads.notify n _, pool := _ }) hlistening hletters rfl h
      refine ⟨_, s', .ok (stream, peerAddr) :: used, .cons hstep hrun, hthreads',
        List.prefix_cons_inj _ |>.mpr hused, ?_⟩
      rw [List.flatMap_cons, haccepted]
      rfl
    | error e =>
      unfold TcpServer.acceptLoop at h
      split at h
      · cases h
        exact ⟨[], s, [], .nil s, hthreads, List.nil_prefix, rfl⟩
      · obtain ⟨ls, s', used, hrun, hthreads', hused, haccepted⟩ :=
          ih (t := { t with loop := t.loop.deadLetter }) hlistening hletters hthreads h
        exact ⟨ls, s', .error e :: used, hrun, hthreads', List.prefix_cons_inj _ |>.mpr hused,
          haccepted⟩

end Server

section Example

/-- A server with two workers that has just started. -/
def newServer : Server Lib.FreeListSlab String 2 where
  threads := { pool := [[], []], size := 2, next := 0 }
  pool := twoWorkers
  listening := true
  letters := none

/-- It has just started. -/
theorem newServer_started : newServer.Started 4 where
  threads := ⟨by decide, rfl⟩
  size := rfl
  next := rfl
  pool := ⟨rfl, fun seq => ⟨seq.val * 4, emptyTimer, by
    rw [u64Mul_eq_ok]
    exact ⟨by have := seq.isLt; unfold u64Max; omega, rfl⟩, rfl⟩⟩
  listening := rfl
  letters := rfl

end Example

end Ruduo
