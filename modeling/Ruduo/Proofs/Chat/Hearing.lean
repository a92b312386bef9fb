import Ruduo.Proofs.Chat.Users
import Ruduo.Proofs.Server.ByteStreams

/-!
# `Ruduo.Proofs.Chat.Hearing`: a user hears what the others say

* `step_calls`: of a run of the chat server, what concerns one worker is a run of this worker.
* `step_awaiting`: what a connection is given to send in a step, followed by what it has still to
  hear, is what it had to hear before, followed by what the others say in the step.
* `heard_of_run`: so over a run the outgoing stream of a user is what the others have said.
-/

set_option autoImplicit false

namespace Ruduo

open Lib (Emits Run Slab LawfulSlab)

variable {S : Type → Type} [Slab S] {display : SocketAddr → List Char} {poolSize : Nat}

/-! ### One broadcast -/

/-- A broadcast writes once to each of its users but the speaker. -/
theorem Speech.dataFor_writes {s : Speech} (hnodup : (s.users.map Sigma.fst).Nodup) {token : Token}
    {n : Nat} (hmem : (⟨token, n⟩ : Sigma fun _ : Token => Nat) ∈ s.users) :
    dataFor token (s.writes n) = (s.heardBy token).toList := by
  have hone : s.users.filter (fun user => user = ⟨token, n⟩) = [⟨token, n⟩] := by
    rw [List.filter_eq, List.count_eq_one_of_mem hnodup.of_map hmem]
    rfl
  unfold dataFor writes heardBy
  rw [List.filter_map, List.filter_filter]
  by_cases htoken : s.token = token
  · rw [if_pos htoken, List.filter_eq_nil_iff.mpr]
    · rfl
    · rintro ⟨t, m⟩ - h
      obtain ⟨rfl, hne, -⟩ : t = token ∧ ¬ t = s.token ∧ m = n := by simpa using h
      exact hne htoken.symm
  · rw [if_neg htoken]
    have hsame : ∀ user ∈ s.users, (decide (user.1 = token) &&
        decide (user.1 ≠ s.token ∧ user.2 = n)) = decide (user = ⟨token, n⟩) := by
      rintro ⟨t, m⟩ -
      by_cases ht : t = token
      · subst ht
        simp [Ne.symm htoken]
      · simp [ht]
    simp only [Function.comp_apply]
    rw [List.filter_congr hsame, hone]
    rfl

/-! ### One call -/

/-- A callback of the chat server sends nothing by itself. -/
private theorem actSends_of_modest {acts : List (Act TimeoutQuit)} (h : ∀ a ∈ acts, a.IsModest) :
    actSends acts = [] := by
  refine List.filterMap_eq_nil_iff.mpr fun a ha => ?_
  have hmodest := h a ha
  cases a with
  | send => exact hmodest.elim
  | _ => rfl

section
variable {env : Env TimeoutQuit} {k : ConnCall TimeoutQuit}

omit [Slab S] in
/-- What is called for a readable event sends only what the acts of its callback send. -/
theorem Dispatcher.readableCall_sends {d : Dispatcher S TimeoutQuit} {token : Token}
    (h : d.readableCall token env = some k) (henv : actSends env.acts = []) : k.sends = [] := by
  rcases readableCall_cases h with ⟨-, rfl⟩ | ⟨cb, addr, -, -, rfl⟩
  · rw [ConnCall.sends, henv, ite_self]
  · exact henv

/-- What is called for a timer is its closure. -/
theorem Dispatcher.timerCall_eq {d : Dispatcher S TimeoutQuit} {timer : Timer S TimeoutQuit}
    {nowTick : Nat} {token : Token} (h : d.timerCall timer nowTick env = some (token, k)) :
    ∃ f, k = .timer f env.acts := by
  unfold timerCall at h
  split at h
  · split at h
    · split at h
      · obtain ⟨t, -, ht⟩ := Option.map_eq_some_iff.mp h
        cases ht
        exact ⟨_, rfl⟩
      · cases h
    · obtain ⟨t, -, ht⟩ := Option.map_eq_some_iff.mp h
      cases ht
      exact ⟨_, rfl⟩
  · cases h

end

/-- What holds of the call that a handler makes and of the later ones holds of all. -/
theorem Worker.forall_callsOn {w : Worker S TimeoutQuit} {l : WorkerLabel TimeoutQuit}
    {token : Token} {P : ConnCall TimeoutQuit → Prop}
    (hcall : ∀ k, w.callOf l = some (token, k) → P k) (hlater : ∀ k ∈ w.laterCalls token l, P k) :
    ∀ k ∈ w.callsOn token l, P k := by
  intro k hk
  rcases List.mem_append.mp hk with hk | hk
  · cases hcallOf : w.callOf l with
    | none => simp [hcallOf] at hk
    | some call =>
      obtain ⟨t, k'⟩ := call
      rw [hcallOf] at hk
      by_cases ht : t = token
      · subst ht
        rw [callsAt_self, List.mem_singleton] at hk
        exact hcall k (hk ▸ hcallOf)
      · rw [callsAt_ne ht] at hk
        cases hk
  · exact hlater k hk

/-- What a handler call gives a connection to send is the data of its `Write` message. -/
theorem Worker.sends_withActs {w w' : Worker S TimeoutQuit} {k : WorkerLabel TimeoutQuit}
    {acts : List (Act TimeoutQuit)} (hacts : ∀ a ∈ acts, a.IsModest) (hk : k.isCall = true)
    (hstep : w.Step (k.withActs acts) w') (token : Token) :
    ((w.callsOn token (k.withActs acts)).flatMap ConnCall.sends).map SendCall.data =
      dataFor token (w.headWrite k) := by
  have hnone := actSends_of_modest hacts
  cases k with
  | event t readable writable env =>
    rw [List.flatMap_eq_nil_iff.mpr (Worker.forall_callsOn ?_ ?_)]
    · rfl
    · intro k hcall
      unfold callOf at hcall
      obtain ⟨-, hcall⟩ := Option.ite_none_right_eq_some.mp hcall
      cases readable with
      | false => cases hcall
      | true =>
        obtain ⟨k', hk', hcall⟩ := Option.map_eq_some_iff.mp hcall
        cases hcall
        exact Dispatcher.readableCall_sends hk' hnone
    · intro k hmem
      cases writable with
      | false => cases hmem
      | true =>
        obtain ⟨-, hmem⟩ := List.mem_ite_nil_right.mp hmem
        rw [List.mem_singleton.mp hmem]
        rfl
  | receive env =>
    have hidle := idle_of_exec (l := .receive { env with acts, msgs := [] }) id hstep
    obtain ⟨⟨msg, target⟩, queue, r, hqueue, -, -⟩ := step_receive hstep
    simp only [callsOn, WorkerLabel.withActs, callOf, laterCalls, headWrite, hqueue, if_pos hidle]
    cases msg with
    | stop => rfl
    | any msg =>
      cases msg with
      | write t data =>
        by_cases ht : t = token <;>
          simp [TcpConnMessage.call, callsAt, ht, dataFor, Queued.written, TcpConnMessage.written,
            ConnCall.sends]
      | writeComplete t | enable t mode | disable t mode | shutdown t how | setContext t f =>
        by_cases ht : t = token <;>
          simp [TcpConnMessage.call, callsAt, ht, dataFor, Queued.written, TcpConnMessage.written,
            ConnCall.sends, hnone]
      | _ => rfl
  | timer nowTick env =>
    rw [List.flatMap_eq_nil_iff.mpr (Worker.forall_callsOn ?_ ?_)]
    · rfl
    · intro k hcall
      unfold callOf at hcall
      obtain ⟨-, hcall⟩ := Option.ite_none_right_eq_some.mp hcall
      obtain ⟨f, rfl⟩ := Dispatcher.timerCall_eq hcall
      exact hnone
    · intro k hmem
      cases hmem
  | _ => cases hk

/-! ### The run of a worker -/

/-- A message that is enqueued to a loop is a step of its worker. -/
theorem Pool.notify_emits (p : Pool S TimeoutQuit poolSize) (n : Nat)
    (msg : Message (TcpConnMessage TimeoutQuit)) (seq : Fin poolSize) (token : Token) :
    ∃ ms, Emits Worker.Step (Worker.callsOn token) (p.workers seq) ms []
      ((p.notify n msg).workers seq) := by
  rw [notify_workers]
  split
  · have hpush : (p.workers seq).Step (.enqueue msg) ((p.workers seq).push msg) := rfl
    have hcalls : (p.workers seq).callsOn token (.enqueue msg) = [] := by
      simp [Worker.callsOn, Worker.callOf, Worker.laterCalls]
    exact ⟨[.enqueue msg], hcalls ▸ .single hpush⟩
  · exact ⟨[], .nil _⟩

section
variable [LawfulSlab S] {w t w' : Worker S TimeoutQuit} {ms ns : List (WorkerLabel TimeoutQuit)}

/-- A run of a worker keeps the traces of its connections. -/
theorem Worker.traced_of_run (h : w.Traced) (hrun : Run Step w ms t) : t.Traced :=
  hrun.invariant (fun _ _ _ h hstep => step_traced h hstep) h

/-- A connection that is live at both ends of a run is live in between. -/
theorem Worker.live_between (h : w.Traced) (hfirst : Run Step w ms t) (hrest : Run Step t ns w')
    {token : Token} {c c' : TcpConnection} (hc : w.dispatcher.connAt token = some c)
    (hc' : w'.dispatcher.connAt token = some c') (hid : c'.id = c.id) :
    ∃ c₁, t.dispatcher.connAt token = some c₁ ∧ c₁.id = c.id := by
  induction hfirst generalizing c with
  | nil => exact ⟨c, hc, rfl⟩
  | cons hstep hfirst ih =>
    obtain ⟨c₁, hc₁, hid₁⟩ := live_after h hstep (hfirst.append hrest) hc hc' hid
    obtain ⟨c₂, hc₂, hid₂⟩ := ih (step_traced h hstep) hrest hc₁ (hid.trans hid₁.symm)
    exact ⟨c₂, hc₂, hid₂.trans hid₁⟩

end

namespace Chat
variable {s s' : Chat S poolSize} {l : ChatLabel poolSize} {seq : Fin poolSize} {token : Token}

variable (seq token) in
/-- The step of a worker, as one of its own. -/
private theorem worker_emits {caller : Fin poolSize} {k : WorkerLabel TimeoutQuit}
    {server : Server S TimeoutQuit poolSize} (hserver : s.server.Step (.worker caller k) server) :
    ∃ ms, Emits Worker.Step (Worker.callsOn token) (s.server.pool.workers seq) ms
      (if caller = seq then (s.server.pool.workers seq).callsOn token k else [])
      (server.pool.workers seq) := by
  obtain ⟨hw, hrest⟩ := Server.step_worker hserver
  by_cases hseq : caller = seq
  · subst hseq
    rw [if_pos rfl]
    exact ⟨[k], .single hw⟩
  · rw [if_neg hseq, hrest seq (Ne.symm hseq)]
    exact ⟨[], .nil _⟩

/-- A worker that goes on with its handler call calls nothing. -/
private theorem passive_emits {caller : Fin poolSize} {k : WorkerLabel TimeoutQuit}
    {server : Server S TimeoutQuit poolSize} (hserver : s.server.Step (.worker caller k) server)
    (hk : (s.server.pool.workers seq).callsOn token k = []) :
    ∃ ms, Emits Worker.Step (Worker.callsOn token) (s.server.pool.workers seq) ms []
      (server.pool.workers seq) := by
  have hemits := worker_emits seq token hserver
  rwa [hk, ite_self] at hemits

/-- The calls of a handler call are those of the worker that makes it. -/
theorem callsOn_call {caller : Fin poolSize} {k : WorkerLabel TimeoutQuit} {r : Reaction}
    (users : List (Sigma fun _ : Token => Nat))
    (hreaction : UserConnection.reaction display (s.server.pool.workers caller) k = .ok r) :
    s.callsOn display seq token (.call caller k users) =
      if caller = seq then (s.server.pool.workers seq).callsOn token (k.withActs r.acts)
      else [] := by
  by_cases hseq : caller = seq
  · subst hseq
    simp only [callsOn, hreaction]
  · simp only [callsOn, if_neg hseq]

variable (seq token) in
/-- What concerns one worker in a step is a run of this worker. -/
theorem step_calls (hstep : s.Step display l s') : ∃ ms,
    Emits Worker.Step (Worker.callsOn token) (s.server.pool.workers seq) ms
      (s.callsOn display seq token l) (s'.server.pool.workers seq) := by
  cases step_cases hstep with
  | service k server hl hserver =>
    cases Server.step_cases hserver with
    | worker => cases hl
    | accept a threads n => exact Pool.notify_emits _ n _ seq token
    | letter n => exact Pool.notify_emits _ n _ seq token
    | shutdown | endShutdown => exact ⟨[], .nil _⟩
  | call caller k users r server hl hmail hreaction hr hnone hserver =>
    rw [callsOn_call users hreaction]
    exact worker_emits seq token hserver
  | broadcast caller k r speech server hl hmail hreaction hr hholder husers hserver =>
    rw [callsOn_call _ hreaction]
    exact worker_emits seq token hserver
  | notify caller peer msg mail hmail => exact Pool.notify_emits _ peer _ seq token
  | unlock | insert => exact ⟨[], .nil _⟩
  | flush caller server hserver =>
    exact passive_emits hserver (by simp [Worker.callsOn, Worker.callOf, Worker.laterCalls])
  | lock caller server hserver =>
    exact passive_emits hserver (by simp [Worker.callsOn, Worker.callOf, Worker.laterCalls])

/-- What a step gives a connection to send is the data of the `Write` message to it. -/
theorem step_sends (hstep : s.Step display l s') :
    ((s.callsOn display seq token l).flatMap ConnCall.sends).map SendCall.data =
      dataFor token (s.handledWrites seq l) := by
  have hcall : ∀ {caller k users r server}, k.isCall = true →
      UserConnection.reaction display (s.server.pool.workers caller) k = .ok r →
      Reacts display (s.server.pool.workers caller) k r →
      s.server.Step (.worker caller (k.withActs r.acts)) server →
      ((s.callsOn display seq token (.call caller k users)).flatMap ConnCall.sends).map
        SendCall.data = dataFor token (s.handledWrites seq (.call caller k users)) := by
    intro caller k users r server hk hreaction hr hserver
    rw [callsOn_call users hreaction, handledWrites_call]
    by_cases hseq : caller = seq
    · subst hseq
      rw [if_pos rfl, if_pos rfl]
      exact Worker.sends_withActs hr.modest hk (Server.step_worker hserver).1 token
    · rw [if_neg hseq, if_neg hseq]
      rfl
  cases step_cases hstep with
  | call caller k users r server hl hmail hreaction hr hnone hserver =>
    exact hcall hl hreaction hr hserver
  | broadcast caller k r speech server hl hmail hreaction hr hholder husers hserver =>
    exact hcall hl hreaction hr hserver
  | _ => rfl

omit [Slab S] in
/-- The data for a token, of two lists in sequence. -/
theorem dataFor_append (xs ys : List (Token × List UInt8)) :
    dataFor token (xs ++ ys) = dataFor token xs ++ dataFor token ys := by
  simp [dataFor]

/-- What a user is given to send in a step and what it has still to hear is what it had to hear
before, and what is said in the step. -/
theorem step_awaiting [LawfulSlab S] {cap : Nat} (h : s.Tidy cap) (hstep : s.RoomyStep display l s')
    (htoken : (s.server.pool.workers seq).HasToken token) (huser : token ∈ s.users) :
    ∃ new, s'.said = s.said ++ new ∧
      ((s.callsOn display seq token l).flatMap ConnCall.sends).map SendCall.data
          ++ s'.awaiting seq token =
        s.awaiting seq token ++ new.filterMap (Speech.heardBy token) := by
  obtain ⟨new, hsaid, hunder⟩ := step_underway h.dealing.1 hstep.1
  refine ⟨new, hsaid, ?_⟩
  have hnew : dataFor token (new.flatMap (Speech.writes seq)) =
      new.filterMap (Speech.heardBy token) := by
    obtain ⟨-, hsame | ⟨speech, hspeech, hperm, -⟩⟩ := step_users hstep.1
    · obtain rfl := List.self_eq_append_right.mp (hsame.symm.trans hsaid)
      rfl
    · obtain rfl := List.append_cancel_left (hspeech.symm.trans hsaid)
      obtain ⟨noti, hmem⟩ := (mem_of_perm hperm token).mpr huser
      obtain rfl := h.loop_eq htoken (h.ranged.users _ (hperm.mem_iff.mp hmem))
      have hkeys : (s.users.entries.map Sigma.fst).Nodup := s.users.nodupKeys
      have hone := Speech.dataFor_writes ((hperm.map Sigma.fst).nodup_iff.mpr hkeys) hmem
      rw [List.flatMap_singleton, hone]
      cases hheard : speech.heardBy token <;> simp [hheard]
  rw [step_sends hstep.1, awaiting, awaiting, ← dataFor_append, hunder seq, dataFor_append, hnew]

/-! ### Runs -/

variable {s₀ : Chat S poolSize} {ls₀ ls : List (ChatLabel poolSize)} {cap : Nat}
  {ks : List (ConnCall TimeoutQuit)} {c c' : TcpConnection}

/-- What concerns one worker in a run is a run of this worker. -/
theorem run_calls (hrun : Emits (Step display) (callsOn display seq token) s ls ks s') :
    ∃ ms, Emits Worker.Step (Worker.callsOn token) (s.server.pool.workers seq) ms ks
      (s'.server.pool.workers seq) := by
  obtain ⟨ms, w, hms, rfl⟩ := hrun.simulate
    (R := fun (s : Chat S poolSize) w => s.server.pool.workers seq = w)
    (fun s w l t hw hstep => by
      subst hw
      obtain ⟨ms, hms⟩ := step_calls seq token hstep
      exact ⟨ms, _, hms, rfl⟩) rfl
  exact ⟨ms, hms⟩

/-- Right after its start, a worker of the chat server is a new one. -/
theorem Started.worker (h₀ : s₀.Started cap) (hrun : Run (Step display) s₀ ls₀ s)
    (seq : Fin poolSize) : ∃ offset timer ms,
      Run Worker.Step (Worker.new cap offset seq timer) ms (s.server.pool.workers seq) := by
  obtain ⟨offset, timer, -, hw⟩ := h₀.server.pool.worker seq
  have hemits : ∃ ks, Emits (Step display) (callsOn display seq 0) s₀ ls₀ ks s := hrun.emits
  obtain ⟨ks, hks⟩ := hemits
  obtain ⟨ms, hms⟩ := run_calls hks
  exact ⟨offset, timer, ms, hw ▸ hms.run⟩

variable [LawfulSlab S]

/-- The invariant rule, by induction on the run. The connection stays alive in between. -/
theorem run_awaiting (hrun : Emits (RoomyStep display) (callsOn display seq token) s ls ks s')
    (h : s.Tidy cap) (htraced : (s.server.pool.workers seq).Traced)
    (hc : (s.server.pool.workers seq).dispatcher.connAt token = some c)
    (hc' : (s'.server.pool.workers seq).dispatcher.connAt token = some c') (hid : c'.id = c.id)
    (huser : token ∈ s.users) : ∃ new, s'.said = s.said ++ new ∧
      (ks.flatMap ConnCall.sends).map SendCall.data ++ s'.awaiting seq token =
        s.awaiting seq token ++ new.filterMap (Speech.heardBy token) := by
  induction hrun generalizing c with
  | nil s => exact ⟨[], (List.append_nil _).symm, by simp⟩
  | @cons s t u l ls os hstep hrest ih =>
    obtain ⟨ms, hms⟩ := step_calls seq token hstep.1
    obtain ⟨ns, hns⟩ := run_calls (hrest.mono fun _ _ _ h => h.1)
    obtain ⟨c₁, hc₁, hid₁⟩ := Worker.live_between htraced hms.run hns.run hc hc' hid
    obtain ⟨new, hsaid, hnew⟩ := step_awaiting h hstep ⟨c, hc⟩ huser
    obtain ⟨more, hsaid', hmore⟩ := ih (step_tidy h hstep) (Worker.traced_of_run htraced hms.run)
      hc₁ hc' (hid.trans hid₁.symm) ((step_users hstep.1).1 token huser)
    refine ⟨new ++ more, by rw [hsaid', hsaid, List.append_assoc], ?_⟩
    rw [List.flatMap_append, List.map_append, List.append_assoc, hmore, ← List.append_assoc, hnew,
      List.filterMap_append, List.append_assoc]

/-- **A user hears what the others say, in the order in which they say it.** Take any run of a chat
server from a reachable state, in which no connection arrives at a full slab, and a user whose
connection is live at both ends. In the run the connection is given data to send, piece by piece.
These pieces, followed by what the user has still to hear, are what it had to hear before, followed
by what the others say in the run: the users may come and go on all workers, and nothing is lost,
doubled or out of order. What the socket has accepted and what waits in the output buffer grows by
just these pieces, as long as the socket never fails after it has accepted a part of one. -/
theorem heard_of_run (h₀ : s₀.Started cap) (hrun₀ : Run (RoomyStep display) s₀ ls₀ s)
    (hrun : Emits (RoomyStep display) (callsOn display seq token) s ls ks s')
    (hc : (s.server.pool.workers seq).dispatcher.connAt token = some c)
    (hc' : (s'.server.pool.workers seq).dispatcher.connAt token = some c') (hid : c'.id = c.id)
    (huser : token ∈ s.users) :
    ∃ bytes bytes' added new, c.output.peek = .ok bytes ∧ c'.output.peek = .ok bytes' ∧
      c'.io.accepted ++ bytes' = c.io.accepted ++ bytes ++ added ∧
      s'.said = s.said ++ new ∧
      (ks.flatMap ConnCall.sends).map SendCall.data ++ s'.awaiting seq token =
        s.awaiting seq token ++ new.filterMap (Speech.heardBy token) ∧
      Carries (ks.flatMap ConnCall.sends) added ∧
      ((∀ x ∈ ks.flatMap ConnCall.sends, x.Clean) →
        added = ((ks.flatMap ConnCall.sends).map SendCall.data).flatten) := by
  obtain ⟨offset, timer, ms₀, hms₀⟩ := h₀.worker (hrun₀.mono fun _ _ _ h => h.1) seq
  obtain ⟨ms, hms⟩ := run_calls (hrun.mono fun _ _ _ h => h.1)
  obtain ⟨bytes, bytes', added, hbytes, hbytes', hstream, hcarries, hclean⟩ :=
    Worker.outgoing_of_run cap offset seq timer hms₀ hms hc hc' hid
  obtain ⟨new, hsaid, hheard⟩ := run_awaiting hrun (run_tidy h₀ hrun₀) (Worker.run_traced hms₀)
    hc hc' hid huser
  refine ⟨bytes, bytes', added, new, hbytes, hbytes', hstream, hsaid, hheard, hcarries,
    fun hall => ?_⟩
  rw [hclean hall, List.flatMap_def]

end Chat

section Example

/-- The first of two guests, and then the second one, whom the first one hears. -/
def firstGuest : List (ChatLabel 2) :=
  [.service (.accept .fresh 5 0), .service (.accept .fresh 6 0),
    .call ⟨0, Nat.zero_lt_two⟩ (.receive chatEnv) [], .mail ⟨0, Nat.zero_lt_two⟩,
    .mail ⟨0, Nat.zero_lt_two⟩, .mail ⟨0, Nat.zero_lt_two⟩, .lock ⟨0, Nat.zero_lt_two⟩]

/-- The second guest comes, and the first one is told. -/
def secondGuest : List (ChatLabel 2) :=
  [.call ⟨1, Nat.one_lt_two⟩ (.receive chatEnv) [⟨0, 0⟩], .mail ⟨1, Nat.one_lt_two⟩,
    .call ⟨0, Nat.zero_lt_two⟩ (.receive chatEnv) [],
    .call ⟨0, Nat.zero_lt_two⟩ (.receive chatEnv) []]

set_option maxRecDepth 8000 in
/-- The first guest hears that the second one comes. -/
theorem heard_of_run_guests : ∃ s s' : Chat Lib.FreeListSlab 2, ∃ ks, ∃ c c' : TcpConnection,
    Emits (Chat.RoomyStep fun _ => [])
      (Chat.callsOn (fun _ => []) ⟨0, Nat.zero_lt_two⟩ 0) s secondGuest ks s' ∧
    ∃ bytes bytes' added new, c.output.peek = .ok bytes ∧ c'.output.peek = .ok bytes' ∧
      c'.io.accepted ++ bytes' = c.io.accepted ++ bytes ++ added ∧ s'.said = s.said ++ new ∧
      (ks.flatMap ConnCall.sends).map SendCall.data ++ s'.awaiting ⟨0, Nat.zero_lt_two⟩ 0 =
        s.awaiting ⟨0, Nat.zero_lt_two⟩ 0 ++ new.filterMap (Speech.heardBy 0) := by
  have hsteps : ∃ s s' : Chat Lib.FreeListSlab 2, ∃ ks, ∃ c c' : TcpConnection,
      Run (Chat.RoomyStep fun _ => []) newChat firstGuest s ∧
      Emits (Chat.RoomyStep fun _ => [])
        (Chat.callsOn (fun _ => []) ⟨0, Nat.zero_lt_two⟩ 0) s secondGuest ks s' ∧
      (s.server.pool.workers ⟨0, Nat.zero_lt_two⟩).dispatcher.connAt 0 = some c ∧
      (s'.server.pool.workers ⟨0, Nat.zero_lt_two⟩).dispatcher.connAt 0 = some c' ∧
      c'.id = c.id ∧ 0 ∈ s.users := by
    refine ⟨_, _, _, _, _, .cons ⟨rfl, ?_⟩ (.cons ⟨rfl, ?_⟩ (.cons ⟨rfl, ?_⟩ (.cons ⟨rfl, ?_⟩
      (.cons ⟨rfl, ?_⟩ (.cons ⟨rfl, ?_⟩ (.cons ⟨rfl, ?_⟩ (.nil _))))))),
      .cons ⟨rfl, ?_⟩ (.cons ⟨rfl, ?_⟩ (.cons ⟨rfl, ?_⟩ (.cons ⟨rfl, ?_⟩ (.nil _)))), rfl, rfl,
      rfl, by decide⟩
    all_goals
      intro seq k users hl
      cases hl
    · exact fun _ => by decide
    · exact fun _ => by decide
    · exact False.elim
    · exact False.elim
  obtain ⟨s, s', ks, c, c', hrun₀, hrun, hc, hc', hid, huser⟩ := hsteps
  obtain ⟨bytes, bytes', added, new, hbytes, hbytes', hstream, hsaid, hheard, -, -⟩ :=
    Chat.heard_of_run newChat_started hrun₀ hrun hc hc' hid huser
  exact ⟨s, s', ks, c, c', hrun, bytes, bytes', added, new, hbytes, hbytes', hstream, hsaid, hheard⟩

end Example

end Ruduo
