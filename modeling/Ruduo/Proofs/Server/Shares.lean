import Ruduo.Proofs.Server.ConnectionRun
import Ruduo.Proofs.Server.ServerSteps

/-!
# `Ruduo.Proofs.Server.Shares`: every accepted stream gets its own connection

A worker makes a connection for each stream that it is handed, in order (`Serving.step`). The accept
loop deals the streams out in turns (`Dealt.accept`). Together: every worker serves exactly its
share of the accepted streams (`shares_served`), and the shares are balanced (`shares_balanced`).
-/

set_option autoImplicit false

namespace Ruduo

open Lib (Emits Run Slab LawfulSlab share)

variable {S : Type → Type} [Slab S] {M : Type}

/-- What hands over no stream is no arrival. -/
theorem Queued.arrival?_eq_none {msg : TcpConnMessage M} (h : ¬ msg.Arrives)
    (target : Option Nat) : ({ msg := .any msg, target } : Queued M).arrival? = none := by
  cases msg <;> first | rfl | exact absurd trivial h

/-- What hands over a stream is its arrival. -/
@[simp] theorem Queued.arrival?_msg (a : Arrival) (target : Option Nat) :
    ({ msg := .any a.msg, target } : Queued M).arrival? = some a := rfl

/-- The socket that a connection is made on: the accepted one, shut down when there is no room. -/
theorem Dispatcher.rejectIfFull_stream {d : Dispatcher S M} {stream stream' : TcpStream} {p : Panic}
    {env : Env M} (h : d.rejectIfFull stream p env = .ok stream') :
    stream' = stream ∨ stream.shutdown .both (.ok ()) = .ok stream' := by
  unfold Dispatcher.rejectIfFull at h
  split at h
  · -- The operating system has carried the shutdown out.
    cases hshutdown : env.shutdown with
    | ok =>
      rw [hshutdown] at h
      cases h
      exact Or.inr rfl
    | error e =>
      rw [hshutdown] at h
      cases h
  · cases h
    exact Or.inl rfl

/-- The connection that is made for a stream. -/
theorem Dispatcher.addConnection_serves {d : Dispatcher S M} {env : Env M} {a : Arrival}
    {r : Dispatcher S M × List (TcpConnMessage M) × Locked}
    (h : d.addConnection a.stream a.peerAddr a.connectionInitCallback env = .ok r) :
    ∃ c : TcpConnection, c.id = d.made ∧ c.Serves M a ∧
      r.1 = { d with localConnections := Slab.insert d.localConnections c
                     made := d.made + 1 } := by
  obtain ⟨stream', hstream, h⟩ := bind_eq_ok.mp h
  obtain ⟨t, -, h⟩ := bind_eq_ok.mp h
  obtain ⟨c, hc, h⟩ := bind_eq_ok.mp h
  obtain ⟨s, hs, h⟩ := bind_eq_ok.mp h
  cases h
  have hcalled : c.Called (.established a.connectionInitCallback env.msgs env.acts) s.conn :=
    ⟨{ conn := c, sent := [] }, s, rfl, hs, rfl⟩
  -- The `id` is given by `make`, and stays.
  have hmade : c.id = d.made := by
    obtain ⟨input, -, hc⟩ := bind_eq_ok.mp hc
    obtain ⟨output, -, hc⟩ := bind_eq_ok.mp hc
    cases hc
    rfl
  have hid : s.conn.id = d.made :=
    ((stable_identity fun id _ => id = d.made).call (s := { conn := c, sent := [] })
      (l := .established a.connectionInitCallback env.msgs env.acts) (fun _ _ => trivial)
      hmade).of_ok hs
  exact ⟨s.conn, hid, ⟨t, stream', c, _, _, [], Dispatcher.rejectIfFull_stream hstream, hid ▸ hc,
    hcalled.single⟩, rfl⟩

namespace Worker
variable [LawfulSlab S] [DecidableEq M] {w w' : Worker S M} {l : WorkerLabel M}
  {streams : List Arrival}

omit [LawfulSlab S] in
/-- What a step does to the queue. -/
theorem step_queue_cases (hstep : w.Step l w') :
    (∃ msg, l = .enqueue msg ∧ w' = w.push msg) ∨
    (∃ msg outbox, l = .flush ∧ w.outbox = msg :: outbox ∧
      w' = { w.push (.any msg) with outbox }) ∨
    (∃ env q queue, l = .receive env ∧ w.queue = q :: queue ∧ w'.queue = queue) ∨
    (∀ msg, ¬ w.Receives l msg) ∧ w'.queue = w.queue := by
  cases l with
  | enqueue msg =>
    cases hstep
    exact Or.inl ⟨msg, rfl, rfl⟩
  | flush =>
    unfold Step exec at hstep
    dsimp only at hstep
    split at hstep
    · rename_i msg outbox houtbox
      cases hstep
      exact Or.inr (Or.inl ⟨msg, outbox, rfl, houtbox, rfl⟩)
    · cases hstep
  | lock =>
    unfold Step exec at hstep
    dsimp only at hstep
    split at hstep
    · cases hstep
      exact Or.inr (Or.inr (Or.inr ⟨fun _ => id, rfl⟩))
    · cases hstep
  | event =>
    obtain ⟨d, sent, -, rfl⟩ := step_event hstep
    exact Or.inr (Or.inr (Or.inr ⟨fun _ => id, rfl⟩))
  | timer =>
    obtain ⟨h, -, rfl⟩ := step_timer hstep
    exact Or.inr (Or.inr (Or.inr ⟨fun _ => id, rfl⟩))
  | receive env =>
    obtain ⟨q, queue, h, hqueue, -, rfl⟩ := step_receive hstep
    exact Or.inr (Or.inr (Or.inl ⟨env, q, queue, rfl, hqueue, rfl⟩))

/-- A step that hands no connection over makes none, and keeps the `id`s of those that stay. -/
theorem step_same_ids (hstep : w.Step l w') (hnot : ∀ msg, w.Receives l msg → ¬ msg.Arrives) :
    w'.dispatcher.made = w.dispatcher.made ∧ ∀ token c', w'.dispatcher.connAt token = some c' →
      ∃ c, w.dispatcher.connAt token = some c ∧ c.id = c'.id := by
  cases step_conns hstep with
  | kept hlive hdead _ hmade _ =>
    refine ⟨hmade, fun token c' hc' => ?_⟩
    cases hc : w.dispatcher.connAt token with
    | none => cases (hdead token hc).symm.trans hc'
    | some c =>
      obtain ⟨c'', hc'', hid⟩ := hlive token c hc
      obtain rfl := Option.some.inj (hc''.symm.trans hc')
      exact ⟨c, rfl, hid.symm⟩
  | added token new _ _ _ hmade _ hremoved =>
    -- Only a message that hands a connection over adds one.
    by_cases hmoves : w.Moves l
    · obtain ⟨env, msg, target, queue, r, rfl, hqueue, hmsg, -, -⟩ := step_moves hmoves hstep
      have hrecv : w.Receives (.receive env) msg := ⟨target, queue, hqueue⟩
      have hmsg' := hnot msg hrecv
      cases msg <;>
        first
          | exact hmsg.elim
          | exact absurd trivial hmsg'
          | exact absurd hrecv (hremoved _)
    · have hsame := (step_kept hstep hmoves).2.2
      omega
  | removed token gone _ _ _ hconns hmade =>
    refine ⟨hmade, fun t c' hc' => ?_⟩
    rw [hconns] at hc'
    split at hc'
    · cases hc'
    · exact ⟨c', hc', rfl⟩

omit [LawfulSlab S] [DecidableEq M] in
/-- A worker is handed one more stream. -/
theorem Serving.push (h : w.Serving streams) (a : Arrival) :
    (w.push (.any a.msg)).Serving (streams ++ [a]) where
  made := by
    rw [List.length_append]
    exact Nat.le_add_right_of_le h.made
  queue := by
    have hdrop : (streams ++ [a]).drop w.dispatcher.made = streams.drop w.dispatcher.made ++ [a] :=
      List.drop_append_of_le_length h.made
    simp [Worker.push, h.queue, hdrop]
  live token c hc := by
    obtain ⟨a', ha', hserves⟩ := h.live token c hc
    obtain ⟨hlt, -⟩ := List.getElem?_eq_some_iff.mp ha'
    exact ⟨a', by rw [List.getElem?_append_left hlt, ha'], hserves⟩

/-- A step that hands no connection over. -/
theorem Serving.same (h : w.Serving streams) (hstep : w.Step l w')
    (hnot : ∀ msg, w.Receives l msg → ¬ msg.Arrives)
    (hqueue : w'.queue.filterMap Queued.arrival? = w.queue.filterMap Queued.arrival?) :
    w'.Serving streams := by
  obtain ⟨hmade, hids⟩ := step_same_ids hstep hnot
  refine ⟨hmade ▸ h.made, by rw [hqueue, h.queue, hmade], fun token c' hc' => ?_⟩
  obtain ⟨c, hc, hid⟩ := hids token c' hc'
  obtain ⟨a, ha, t, stream, c₀, msgs, as, ks, hstream, hmake, hks⟩ := h.live token c hc
  exact ⟨a, hid ▸ ha, t, stream, c₀, msgs, as, _, hstream, hid ▸ hmake,
    hks.append (step_called hstep hc hc')⟩

/-- The next stream is handled: it gets the next connection. -/
theorem Serving.next (h : w.Serving streams) {a : Arrival} {env : Env M} {target : Option Nat}
    {queue : List (Queued M)} (hqueue : w.queue = { msg := .any a.msg, target } :: queue)
    (hstep : w.Step (.receive env) w') : w'.Serving streams := by
  obtain ⟨q, queue', handled, hqueue', hok, rfl⟩ := step_receive hstep
  obtain ⟨rfl, rfl⟩ := List.cons.inj (hqueue.symm.trans hqueue')
  obtain ⟨r, hr, hok⟩ := bind_eq_ok.mp hok
  cases hok
  obtain ⟨c, hid, hserves, hd⟩ := Dispatcher.addConnection_serves hr
  -- The stream is the first one without a connection.
  have hdrop : a :: queue.filterMap Queued.arrival? = streams.drop w.dispatcher.made := by
    rw [← h.queue, hqueue, List.filterMap_cons, Queued.arrival?_msg]
  have hfirst : streams[w.dispatcher.made]? = some a := by
    rw [← List.head?_drop, ← hdrop, List.head?_cons]
  have hlt : w.dispatcher.made < streams.length := (List.getElem?_eq_some_iff.mp hfirst).1
  refine ⟨?_, ?_, fun token c' hc' => ?_⟩
  · rw [after_dispatcher, hd]
    exact hlt
  · show queue.filterMap Queued.arrival? = streams.drop r.1.made
    rw [hd, ← List.drop_drop, ← hdrop]
    rfl
  · rw [after_dispatcher, Dispatcher.connAt_insert (d := w.dispatcher) (by rw [hd]) (by rw [hd])]
      at hc'
    split at hc'
    · cases hc'
      exact ⟨a, hid ▸ hfirst, hserves⟩
    · exact h.live token c' hc'

/-- Every step of a worker, when its queue has no connecting streams. -/
theorem Serving.step (h : w.Serving streams) (hmix : w.Unmixed l)
    (hplain : ∀ stream addr cb, ¬ w.Receives l (.connecting stream addr cb))
    (hstep : w.Step l w') : w'.Serving streams := by
  rcases step_queue_cases hstep with ⟨msg, rfl, rfl⟩ | ⟨msg, outbox, rfl, houtbox, rfl⟩ |
    ⟨env, ⟨msg, target⟩, queue, rfl, hqueue, hqueue'⟩ | ⟨hnot, hqueue⟩
  · refine h.same hstep (fun _ => False.elim) ?_
    have hnone : ({ msg, target := w.target msg } : Queued M).arrival? = none := by
      cases msg with
      | stop => rfl
      | any msg => exact Queued.arrival?_eq_none hmix _
    simp [Worker.push, hnone]
  · refine h.same hstep (fun _ => False.elim) ?_
    have hnone := Queued.arrival?_eq_none (hmix msg (by simp [houtbox])) (w.target (.any msg))
    simp [Worker.push, hnone]
  · by_cases harrives : ∃ stream peerAddr cb, msg = .any (.established stream peerAddr cb)
    · obtain ⟨stream, peerAddr, cb, rfl⟩ := harrives
      exact h.next (a := ⟨stream, peerAddr, cb⟩) hqueue hstep
    · have hnot : ∀ msg', w.Receives (.receive env) msg' → ¬ msg'.Arrives := by
        rintro msg' ⟨target', queue'', hqueue''⟩ hmsg'
        obtain ⟨hq, -⟩ := List.cons.inj (hqueue.symm.trans hqueue'')
        obtain ⟨rfl, rfl⟩ := Queued.mk.inj hq
        cases msg' with
        | established stream peerAddr cb => exact harrives ⟨stream, peerAddr, cb, rfl⟩
        | connecting stream addr cb => exact hplain stream addr cb ⟨target, queue, hqueue⟩
        | _ => exact hmsg'
      refine h.same hstep hnot ?_
      have hnone : ({ msg, target } : Queued M).arrival? = none := by
        cases msg with
        | stop => rfl
        | any msg => exact Queued.arrival?_eq_none (hnot msg ⟨target, queue, hqueue⟩) target
      rw [hqueue', hqueue, List.filterMap_cons, hnone]
  · exact h.same hstep (fun msg hrecv => absurd hrecv (hnot msg)) (by rw [hqueue])

omit [Slab S] [LawfulSlab S] [DecidableEq M] in
/-- No connecting stream is in the queue. -/
def NoConnecting (w : Worker S M) : Prop :=
  ∀ q ∈ w.queue, ∀ stream addr cb, q.msg ≠ .any (.connecting stream addr cb)

omit [LawfulSlab S] in
/-- A worker that is sent no connecting stream has none in its queue. -/
theorem NoConnecting.step (h : w.NoConnecting) (hmix : w.Unmixed l) (hstep : w.Step l w') :
    w'.NoConnecting := by
  have hpush : ∀ msg, (∀ stream addr cb, msg ≠ .any (.connecting stream addr cb)) →
      (w.push msg).NoConnecting := by
    intro msg hmsg q hq
    rcases List.mem_append.mp hq with hold | hnew
    · exact h q hold
    · obtain rfl := List.mem_singleton.mp hnew
      exact hmsg
  rcases step_queue_cases hstep with ⟨msg, rfl, rfl⟩ | ⟨msg, outbox, rfl, houtbox, rfl⟩ |
    ⟨env, q, queue, rfl, hqueue, hqueue'⟩ | ⟨-, hqueue⟩
  · refine hpush msg ?_
    rintro stream addr cb rfl
    exact hmix trivial
  · refine hpush (.any msg) ?_
    intro stream addr cb heq
    cases heq
    exact hmix (.connecting stream addr cb) (by simp [houtbox]) trivial
  · intro q' hq'
    rw [hqueue'] at hq'
    exact h q' (hqueue ▸ List.mem_cons_of_mem q hq')
  · intro q hq
    exact h q (hqueue ▸ hq)

omit [Slab S] [LawfulSlab S] [DecidableEq M] in
/-- A worker that gets no connecting stream receives none. -/
theorem NoConnecting.not_receives (h : w.NoConnecting) (stream : TcpStream) (addr : SocketAddr)
    (cb : Closure) : ¬ w.Receives l (.connecting stream addr cb) := by
  intro hrecv
  cases l with
  | receive env =>
    obtain ⟨target, queue, hqueue⟩ := hrecv
    exact h _ (hqueue ▸ List.mem_cons_self) stream addr cb rfl
  | _ => exact hrecv

omit [DecidableEq M] in
/-- A new worker serves nothing. -/
theorem new_serving (cap offset noti : Nat) (timer : Timer S M) :
    (new cap offset noti timer).Serving [] := by
  refine ⟨Nat.le_refl 0, rfl, fun token c hc => ?_⟩
  obtain ⟨key, -, hget⟩ := Dispatcher.connAt_eq_some.mp hc
  cases (LawfulSlab.get_withCapacity cap key).symm.trans hget

end Worker

/-! ### The server -/

namespace Server
variable [LawfulSlab S] [DecidableEq M] {poolSize cap : Nat} {s₀ s s' : Server S M poolSize}
  {l : ServerLabel M poolSize} {ls : List (ServerLabel M poolSize)} {streams : List Arrival}

/-- The streams were dealt out in turns. -/
structure Dealt (s : Server S M poolSize) (streams : List Arrival) : Prop where
  threads : s.threads.Started
  size : s.threads.size = poolSize
  /-- The counter wraps around at `2 ^ 64`. -/
  next : s.threads.next = streams.length % 2 ^ 64
  /-- Each worker serves its share of the streams. -/
  serving : ∀ seq : Fin poolSize,
    (s.pool.workers seq).Serving (workerShare poolSize seq streams)
  plain : ∀ seq, (s.pool.workers seq).NoConnecting

omit [DecidableEq M] in
/-- At the start nothing was dealt out. -/
theorem Started.dealt (h : s.Started cap) : s.Dealt [] := by
  refine ⟨h.threads, h.size, h.next, fun seq => ?_, fun seq => ?_⟩
  · obtain ⟨offset, timer, -, hw⟩ := h.pool.worker seq
    rw [hw]
    exact Worker.new_serving cap offset seq timer
  · obtain ⟨offset, timer, -, hw⟩ := h.pool.worker seq
    rw [hw]
    exact fun q hq => absurd hq List.not_mem_nil

omit [LawfulSlab S] [DecidableEq M] in
/-- The next stream goes to the worker whose turn it is. -/
theorem Dealt.accept (h : s.Dealt streams) {a : Arrival} {threads : EventLoopThreadPool M} {n : Nat}
    (hnext : s.threads.nextLoop = .ok (threads, n)) :
    Dealt { s with threads := threads.notify n a.msg, pool := s.pool.notify n (.any a.msg) }
      (streams ++ [a]) := by
  rw [h.threads.nextLoop] at hnext
  obtain ⟨rfl, rfl⟩ := Prod.mk.inj (Except.ok.inj hnext)
  have hturn : s.threads.next % s.threads.size = streams.length % 2 ^ 64 % poolSize := by
    rw [h.next, h.size]
  refine ⟨⟨h.threads.pos, ?_⟩, h.size, ?_, fun seq => ?_, fun seq => ?_⟩
  · rw [EventLoopThreadPool.notify, List.length_modify]
    exact h.threads.length
  · show (s.threads.next + 1) % 2 ^ 64 = (streams ++ [a]).length % 2 ^ 64
    rw [h.next, List.length_append, List.length_singleton, Nat.mod_add_mod]
  · dsimp only
    rw [Pool.notify_workers, workerShare, Lib.share_concat, hturn]
    by_cases heq : streams.length % 2 ^ 64 % poolSize = seq.val
    · rw [if_pos heq, if_pos (show Lib.HasTurn _ _ _ _ from heq)]
      exact (h.serving seq).push a
    · rw [if_neg heq, if_neg (show ¬ Lib.HasTurn _ _ _ _ from heq), List.append_nil]
      exact h.serving seq
  · dsimp only
    rw [Pool.notify_workers]
    split
    · intro q hq
      rcases List.mem_append.mp hq with hold | hnew
      · exact h.plain seq q hold
      · obtain rfl := List.mem_singleton.mp hnew
        simp [Arrival.msg]
    · exact h.plain seq

/-- One worker makes a step. -/
theorem Dealt.worker (h : s.Dealt streams) {seq : Fin poolSize} {k : WorkerLabel M}
    {pool : Pool S M poolSize} (hpool : s.pool.Step (seq, k) pool)
    (hmix : (s.pool.workers seq).Unmixed k) : Dealt { s with pool } streams := by
  obtain ⟨w, hw, hworkers, -⟩ := Pool.step_cases hpool
  refine ⟨h.threads, h.size, h.next, fun seq' => ?_, fun seq' => ?_⟩
  · by_cases heq : seq' = seq
    · subst heq
      rw [hworkers, Function.update_self]
      exact (h.serving seq').step hmix (fun stream addr cb =>
        (h.plain seq').not_receives stream addr cb) hw
    · rw [hworkers, Function.update_of_ne heq]
      exact h.serving seq'
  · by_cases heq : seq' = seq
    · subst heq
      rw [hworkers, Function.update_self]
      exact (h.plain seq').step hmix hw
    · rw [hworkers, Function.update_of_ne heq]
      exact h.plain seq'

/-- Every step deals the accepted streams out in turns. -/
theorem Dealt.step (h : s.Dealt streams) (hstep : s.UnmixedStep l s') :
    s'.Dealt (streams ++ l.accepted) := by
  obtain ⟨hstep, hmix⟩ := hstep
  cases step_cases hstep with
  | accept a threads n hnext _ => exact h.accept hnext
  | worker seq k pool hpool _ =>
    show Dealt _ (streams ++ [])
    rw [List.append_nil]
    exact h.worker hpool (hmix seq k rfl)
  | shutdown | endShutdown =>
    show Dealt _ (streams ++ [])
    rw [List.append_nil]
    exact ⟨h.threads, h.size, h.next, h.serving, h.plain⟩
  | letter n letters _ =>
    have hpool : Dealt { s with pool := s.pool.notify n .stop } streams := by
      by_cases hn : n < poolSize
      · exact h.worker (Pool.notify_step hn) trivial
      · rw [Pool.notify_of_le (Nat.le_of_not_lt hn)]
        exact h
    show Dealt _ (streams ++ [])
    rw [List.append_nil]
    exact ⟨h.threads, h.size, h.next, hpool.serving, hpool.plain⟩

/-- The run rule. -/
theorem run_dealt (h₀ : s₀.Started cap)
    (hrun : Emits UnmixedStep (fun _ l => l.accepted) s₀ ls streams s) : s.Dealt streams :=
  hrun.invariant (P := fun streams s => s.Dealt streams) (fun _ _ _ _ h hstep => h.step hstep)
    h₀.dealt

/-- **The load is balanced.** In every state of a run of a server from its start, in which nobody
but the service hands connections over, the connections that two workers have made, together with
the streams in their queues, differ in number by at most one, and by one more for each time that the
counter of the pool has wrapped around. -/
theorem shares_balanced (h₀ : s₀.Started cap)
    (hrun : Emits UnmixedStep (fun _ l => l.accepted) s₀ ls streams s) (seq seq' : Fin poolSize) :
    (s.pool.workers seq).dispatcher.made
        + ((s.pool.workers seq).queue.filterMap Queued.arrival?).length ≤
      (s.pool.workers seq').dispatcher.made
        + ((s.pool.workers seq').queue.filterMap Queued.arrival?).length
        + streams.length / 2 ^ 64 + 1 := by
  have hload : ∀ seq : Fin poolSize, (s.pool.workers seq).dispatcher.made
      + ((s.pool.workers seq).queue.filterMap Queued.arrival?).length
      = (workerShare poolSize seq streams).length := by
    intro seq
    have hserving := (run_dealt h₀ hrun).serving seq
    rw [hserving.queue, List.length_drop]
    exact Nat.add_sub_cancel' hserving.made
  rw [hload, hload]
  exact Lib.length_share_le seq.isLt seq'.isLt (by decide) streams

end Server

section Example

/-- Three streams are accepted, and the first worker handles one of them. -/
def threeStreams : List (ServerLabel String 2) :=
  [.accept .fresh 7 0, .accept .fresh 8 1, .accept .fresh 9 2,
    .worker ⟨0, Nat.zero_lt_two⟩ (.receive quietEnv), .worker ⟨0, Nat.zero_lt_two⟩ .lock]

set_option maxRecDepth 8000 in
/-- The three streams are accepted one after the other. -/
theorem threeStreams_run : ∃ s, Emits Server.UnmixedStep (fun _ l => l.accepted) newServer
    threeStreams [⟨.fresh, 7, 0⟩, ⟨.fresh, 8, 1⟩, ⟨.fresh, 9, 2⟩] s := by
  refine ⟨_, .cons ⟨rfl, ?_⟩ (.cons ⟨rfl, ?_⟩ (.cons ⟨rfl, ?_⟩ (.cons ⟨rfl, ?_⟩
    (.cons ⟨rfl, ?_⟩ (.nil _)))))⟩
  all_goals
    intro seq k hl
    cases hl <;> exact trivial

/-- It has been given one stream more than the other one. -/
theorem shares_balanced_three : ∃ s,
    Emits Server.UnmixedStep (fun _ l => l.accepted) newServer threeStreams
      [⟨.fresh, 7, 0⟩, ⟨.fresh, 8, 1⟩, ⟨.fresh, 9, 2⟩] s ∧
    (s.pool.workers 0).dispatcher.made
        + ((s.pool.workers 0).queue.filterMap Queued.arrival?).length ≤
      (s.pool.workers 1).dispatcher.made
        + ((s.pool.workers 1).queue.filterMap Queued.arrival?).length + 1 := by
  obtain ⟨s, hrun⟩ := threeStreams_run
  exact ⟨s, hrun, Server.shares_balanced newServer_started hrun 0 1⟩

end Example

end Ruduo
