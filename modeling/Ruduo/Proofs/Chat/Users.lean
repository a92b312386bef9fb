import Ruduo.Proofs.Chat.Broadcasts
import Ruduo.Proofs.Server.Letters

/-!
# `Ruduo.Proofs.Chat.Users`: who is a user

* `step_server`: a step of the chat server is at most one step of the server, and only the service
  hands connections over in it. So the invariants of a server are kept.
* `inclusive_of_run`: every live connection becomes a user, and stays one. Nobody is taken out of
  `users` ever, so a broadcast also writes to the users that have left.
* `run_tidy`: a user is listed with its own loop, as long as no connection arrives at a full slab.
-/

set_option autoImplicit false

namespace Ruduo

open Lib (Emits Run Slab LawfulSlab)

variable {S : Type → Type} [Slab S] {display : SocketAddr → List Char} {poolSize : Nat}

/-! ### The chat server is a server -/

namespace Chat
variable {s s' : Chat S poolSize} {l : ChatLabel poolSize}

/-- A step of the chat server is a step of the server, or leaves it as it is. -/
theorem step_server (h : s.Orderly) (hstep : s.Step display l s') :
    s'.server = s.server ∨ ∃ k, s.server.UnmixedStep k s'.server ∧
      ∀ seq k', k = .worker seq k' → Worker.Passive k' ∨
        ∃ call users acts, l = .call seq call users ∧ k' = call.withActs acts := by
  have hcall : ∀ {seq : Fin poolSize} {call : WorkerLabel TimeoutQuit} {users acts}
      {server : Server S TimeoutQuit poolSize}, l = .call seq call users → call.isCall = true →
      s.server.Step (.worker seq (call.withActs acts)) server →
      ∃ k, s.server.UnmixedStep k server ∧ ∀ seq k', k = .worker seq k' →
        Worker.Passive k' ∨ ∃ call users acts, l = .call seq call users ∧
          k' = call.withActs acts := by
    intro seq call users acts server hl hcall hserver
    refine ⟨_, ⟨hserver, fun seq' k' hk => ?_⟩, fun seq' k' hk => ?_⟩
    · cases hk
      cases call <;> first | exact trivial | cases hcall
    · cases hk
      exact Or.inr ⟨call, users, acts, hl, rfl⟩
  cases step_cases hstep with
  | service k server hl hserver =>
    refine Or.inr ⟨k, ⟨hserver, fun seq k' hk => ?_⟩, fun seq k' hk => ?_⟩ <;>
    · subst hk
      cases hl
  | call seq call users r server hl _ _ _ _ hserver => exact Or.inr (hcall rfl hl hserver)
  | broadcast seq call r speech server hl _ _ _ _ _ hserver => exact Or.inr (hcall rfl hl hserver)
  | notify seq peer msg mail hmail =>
    by_cases hpeer : peer < poolSize
    · refine Or.inr ⟨.worker ⟨peer, hpeer⟩ (.enqueue (.any msg)), ⟨?_, fun seq' k hk => ?_⟩,
        fun seq' k hk => ?_⟩
      · have hpool : s.server.pool.exec ⟨peer, hpeer⟩ (.enqueue (.any msg)) = _ :=
          Pool.notify_step hpeer
        unfold Server.Step Server.exec
        simp only [WorkerLabel.takesLock, Bool.false_eq_true, false_and, if_false, hpool]
        rfl
      · cases hk
        exact (h.usual seq peer msg (hmail ▸ List.mem_cons_self)).not_arrives
      · cases hk
        exact Or.inl trivial
    · left
      show ({ s.server with pool := s.server.pool.notify peer (.any msg) } :
        Server S TimeoutQuit poolSize) = s.server
      rw [Pool.notify_of_le (Nat.le_of_not_lt hpeer)]
  | unlock | insert => exact Or.inl rfl
  | flush seq server hserver =>
    refine Or.inr ⟨_, ⟨hserver, fun seq' k hk => ?_⟩, fun seq' k hk => ?_⟩
    · cases hk
      exact fun msg hmsg => (h.outbox seq msg (List.mem_of_mem_head? hmsg)).2.not_arrives
    · cases hk
      exact Or.inl trivial
  | lock seq server hserver =>
    refine Or.inr ⟨_, ⟨hserver, fun seq' k hk => ?_⟩, fun seq' k hk => ?_⟩ <;>
    · cases hk
      first | exact trivial | exact Or.inl trivial

/-- In a step in which no connection arrives at a full slab, none does in the server. -/
theorem step_roomy (h : s.Orderly) (hstep : s.RoomyStep display l s') :
    s'.server = s.server ∨
      ∃ k, s.server.UnmixedStep k s'.server ∧ s.server.RoomyStep k s'.server := by
  rcases step_server h hstep.1 with hsame | ⟨k, hunmixed, hk⟩
  · exact Or.inl hsame
  refine Or.inr ⟨k, hunmixed, hunmixed.1, fun seq k' hworker => ?_⟩
  rcases hk seq k' hworker with hpassive | ⟨call, users, acts, hl, rfl⟩
  · cases k' <;> first | exact trivial | exact hpassive.elim
  · have hroom := hstep.2 seq call users hl
    cases call <;> exact hroom

variable {s₀ : Chat S poolSize} {ls : List (ChatLabel poolSize)} {cap : Nat}

/-- Only the service hands connections over, and the streams are dealt out as in any server. -/
def Dealing (s : Chat S poolSize) : Prop := s.Orderly ∧ ∃ streams, s.server.Dealt streams

/-- The workers get no connection that is still connecting. -/
theorem Dealing.plain (h : s.Dealing) (seq : Fin poolSize) :
    (s.server.pool.workers seq).NoConnecting := by
  obtain ⟨-, streams, hdealt⟩ := h
  exact hdealt.plain seq

variable [LawfulSlab S]

/-- Every step deals the streams out as a server does. -/
theorem step_dealing (h : s.Dealing) (hstep : s.Step display l s') : s'.Dealing := by
  obtain ⟨horderly, streams, hdealt⟩ := h
  refine ⟨step_orderly horderly hstep, ?_⟩
  rcases step_server horderly hstep with hsame | ⟨k, hk, -⟩
  · exact ⟨streams, hsame ▸ hdealt⟩
  · exact ⟨_, hdealt.step hk⟩

/-- At the start nothing was dealt out. -/
theorem Started.dealing (h : s₀.Started cap) : s₀.Dealing := ⟨h.orderly, [], h.server.dealt⟩

end Chat

/-! ### New connections -/

/-- A connection becomes live when its stream is handed over. -/
theorem Worker.hasToken_step [LawfulSlab S] {M : Type} [DecidableEq M] {w w' : Worker S M}
    {l : WorkerLabel M} (h : w.NoConnecting) (hstep : w.Step l w') {token : Token}
    (htoken : w'.HasToken token) :
    w.HasToken token ∨ ∃ env a target queue, l = .receive env ∧
      w.queue = { msg := .any (Arrival.msg a), target } :: queue ∧
      token = w.dispatcher.offset + Slab.vacantKey w.dispatcher.localConnections := by
  by_cases hmoves : w.Moves l
  · obtain ⟨env, msg, target, queue, r, rfl, hqueue, hmsg, hr, hw'⟩ := step_moves hmoves hstep
    cases msg with
    | established stream peerAddr cb =>
      obtain ⟨⟨d, sent, locked⟩, hadd, hr⟩ := bind_eq_ok.mp hr
      cases hr
      obtain ⟨new, -, rfl⟩ := Dispatcher.addConnection_ok hadd
      rcases (hasToken_insert (w := w) (c := new) (by rw [hw']; rfl) (by rw [hw']; rfl) token).mp
        htoken with hold | hnew
      · exact Or.inl hold
      · exact Or.inr ⟨env, ⟨stream, peerAddr, cb⟩, target, queue, rfl, hqueue, hnew⟩
    | connecting stream addr cb =>
      exact absurd ⟨target, queue, hqueue⟩ (h.not_receives (l := .receive env) stream addr cb)
    | removed removed =>
      left
      obtain ⟨⟨d, locked⟩, hremove, hr⟩ := bind_eq_ok.mp hr
      cases hr
      obtain ⟨key, c, -, -, rfl, -⟩ := (Dispatcher.removeConnection_outcome (E := fun _ => True)
        fun _ _ => trivial).of_ok hremove
      exact ((hasToken_remove (w := w) (by rw [hw']; rfl) (by rw [hw']; rfl) token).mp htoken).1
    | _ => exact hmsg.elim
  · left
    obtain ⟨c, hc⟩ := htoken
    by_contra hnone
    have hdead : w.dispatcher.connAt token = none :=
      Option.eq_none_iff_forall_ne_some.mpr fun c hc => hnone ⟨c, hc⟩
    cases ((step_kept hstep hmoves).2.1 token hdead).symm.trans hc

/-- Right after it was handed over, the callback has still to enter it. -/
theorem Reacts.inserts {w : Worker S TimeoutQuit} {env : Env TimeoutQuit} {r : Reaction}
    (h : Reacts display w (.receive env) r) {a : Arrival} {target : Option Nat}
    {queue : List (Queued TimeoutQuit)}
    (hqueue : w.queue = { msg := .any a.msg, target } :: queue) : r.broadcast ≠ none ∧
      .insert (w.dispatcher.offset + Slab.vacantKey w.dispatcher.localConnections)
        w.dispatcher.localNotifier ∈ r.after := by
  cases h with
  | silent _ hl => exact absurd trivial (hl env _ target queue rfl hqueue)
  | established => exact ⟨by simp [UserConnection.onEstablished], List.mem_cons_self⟩
  | writeComplete _ token target' queue' hqueue' =>
    rw [hqueue] at hqueue'
    cases hqueue'
  | speaks _ _ _ _ hl => exact absurd rfl (hl env)

/-- What a callback enters is the connection that was just handed over. -/
theorem Reacts.insert_cases {w : Worker S TimeoutQuit} {l : WorkerLabel TimeoutQuit} {r : Reaction}
    (h : Reacts display w l r) {token : Token} {noti : Nat} (hmem : .insert token noti ∈ r.after) :
    (∃ env a target queue, l = .receive env ∧
      w.queue = { msg := .any (Arrival.msg a), target } :: queue) ∧
      token = w.dispatcher.offset + Slab.vacantKey w.dispatcher.localConnections ∧
      noti = w.dispatcher.localNotifier := by
  cases h with
  | silent | writeComplete => cases hmem
  | established env a target queue addr hqueue =>
    rcases List.mem_cons.mp hmem with heq | hmem
    · cases heq
      exact ⟨⟨env, a, target, queue, rfl, hqueue⟩, rfl, rfl⟩
    · cases List.mem_singleton.mp hmem
  | speaks _ _ _ _ _ _ _ hafter => simp [hafter] at hmem

/-! ### Users -/

/-- The service's thread leaves the dispatchers alone. -/
theorem Server.service_dispatcher {M : Type} [DecidableEq M] {s s' : Server S M poolSize}
    {l : ServerLabel M poolSize} (hl : l.ofService = true) (hstep : s.Step l s')
    (seq : Fin poolSize) :
    (s'.pool.workers seq).dispatcher = (s.pool.workers seq).dispatcher := by
  cases step_cases hstep with
  | worker => cases hl
  | accept | letter =>
    dsimp only
    rw [Pool.notify_workers]
    split <;> rfl
  | _ => rfl

namespace Chat
variable {s s' : Chat S poolSize} {l : ChatLabel poolSize}

/-- A worker makes a step: who is live, was live before or is new. -/
theorem hasToken_worker [LawfulSlab S] (h : ∀ seq, (s.server.pool.workers seq).NoConnecting)
    {seq : Fin poolSize} {k : WorkerLabel TimeoutQuit} {server : Server S TimeoutQuit poolSize}
    (hserver : s.server.Step (.worker seq k) server) {seq' : Fin poolSize} {token : Token}
    (htoken : (server.pool.workers seq').HasToken token) :
    (s.server.pool.workers seq').HasToken token ∨ seq' = seq ∧ ∃ env a target queue,
      k = .receive env ∧
      (s.server.pool.workers seq).queue = { msg := .any (Arrival.msg a), target } :: queue ∧
      token = (s.server.pool.workers seq).dispatcher.offset +
        Slab.vacantKey (s.server.pool.workers seq).dispatcher.localConnections := by
  obtain ⟨hw, hrest⟩ := Server.step_worker hserver
  by_cases hseq : seq' = seq
  · subst hseq
    exact (Worker.hasToken_step (h seq') hw htoken).imp_right fun hnew => ⟨rfl, hnew⟩
  · rw [hrest seq' hseq] at htoken
    exact Or.inl htoken

/-- A live connection is a user, or its `on_established` has still to enter it. -/
def Entered (s : Chat S poolSize) : Prop :=
  ∀ seq token, (s.server.pool.workers seq).HasToken token →
    token ∈ s.users ∨ ∃ noti, .insert token noti ∈ s.mail seq

/-- A live connection is a user, or will be entered, after every step. -/
theorem step_entered [LawfulSlab S] (h : s.Entered)
    (hplain : ∀ seq, (s.server.pool.workers seq).NoConnecting) (hstep : s.Step display l s') :
    s'.Entered := by
  intro seq' token htoken
  have hsame : ∀ {d : Dispatcher S TimeoutQuit},
      d = (s.server.pool.workers seq').dispatcher → (∃ c, d.connAt token = some c) →
      token ∈ s.users ∨ ∃ noti, .insert token noti ∈ s.mail seq' := by
    rintro d rfl hc
    exact h seq' token hc
  have hnotify : ∀ peer msg, ((s.server.pool.notify peer msg).workers seq').dispatcher =
      (s.server.pool.workers seq').dispatcher := by
    intro peer msg
    rw [Pool.notify_workers]
    split <;> rfl
  cases step_cases hstep with
  | service k server hl hserver => exact hsame (Server.service_dispatcher hl hserver seq') htoken
  | call seq k users r server hl hmail hreaction hr hnone hserver =>
    rcases hasToken_worker hplain hserver htoken with
      hold | ⟨rfl, env, a, target, queue, hk, hqueue, -⟩
    · exact h seq' token hold
    · -- The callback of a new connection broadcasts.
      cases k with
      | receive env => exact absurd hnone (hr.inserts hqueue).1
      | _ => cases hk
  | broadcast seq k r speech server hl hmail hreaction hr hholder husers hserver =>
    show token ∈ s.users ∨ ∃ noti, _ ∈ Function.update s.mail seq _ seq'
    rcases hasToken_worker hplain hserver htoken with
      hold | ⟨rfl, env, a, target, queue, hk, hqueue, rfl⟩
    · refine (h seq' token hold).imp_right ?_
      rintro ⟨noti, hmem⟩
      have hseq : seq' ≠ seq := by
        rintro rfl
        simp [hmail] at hmem
      rw [Function.update_of_ne hseq]
      exact ⟨noti, hmem⟩
    · -- The `insert` of a new connection comes after its broadcast.
      cases k with
      | receive env =>
        refine Or.inr ⟨(s.server.pool.workers seq').dispatcher.localNotifier, ?_⟩
        rw [Function.update_self]
        exact List.mem_append_right _ (List.mem_cons_of_mem _ (hr.inserts hqueue).2)
      | _ => cases hk
  | notify seq peer msg mail hmail =>
    refine (hsame (hnotify peer (.any msg)) htoken).imp_right ?_
    rintro ⟨noti, hmem⟩
    exact ⟨noti, mem_tail hmail hmem (by simp)⟩
  | unlock seq mail hmail =>
    refine (h seq' token htoken).imp_right ?_
    rintro ⟨noti, hmem⟩
    exact ⟨noti, mem_tail hmail hmem (by simp)⟩
  | insert seq new noti mail hmail hholder =>
    rcases h seq' token htoken with hold | ⟨noti', hmem⟩
    · exact Or.inl (AList.mem_insert _ |>.mpr (Or.inr hold))
    · by_cases hnew : token = new
      · exact Or.inl (AList.mem_insert _ |>.mpr (Or.inl hnew))
      · exact Or.inr ⟨noti', mem_tail hmail hmem (by simp [hnew])⟩
  | flush seq server hserver | lock seq server hserver =>
    rcases hasToken_worker hplain hserver htoken with hold | ⟨-, env, a, target, queue, hk, -⟩
    · exact h seq' token hold
    · cases hk

/-- Nobody is taken out of `users`, and a broadcast goes through all of them. -/
theorem step_users (hstep : s.Step display l s') : (∀ token ∈ s.users, token ∈ s'.users) ∧
    (s'.said = s.said ∨ ∃ speech, s'.said = s.said ++ [speech] ∧
      speech.users.Perm s.users.entries ∧ s'.users = s.users) := by
  cases step_cases hstep with
  | broadcast seq k r speech server hl hmail hreaction hr hholder husers hserver =>
    exact ⟨fun _ => id, Or.inr ⟨speech, rfl, husers, rfl⟩⟩
  | insert seq token noti mail hmail hholder =>
    exact ⟨fun t ht => AList.mem_insert _ |>.mpr (Or.inr ht), Or.inl rfl⟩
  | _ => exact ⟨fun _ => id, Or.inl rfl⟩

omit [Slab S] in
/-- The users of a broadcast are those of the moment. -/
theorem mem_of_perm {users : List (Sigma fun _ : Token => Nat)}
    (h : users.Perm s.users.entries) (token : Token) :
    (∃ noti, (⟨token, noti⟩ : Sigma fun _ : Token => Nat) ∈ users) ↔ token ∈ s.users := by
  rw [AList.mem_keys, AList.keys, List.mem_keys]
  exact exists_congr fun noti => h.mem_iff

/-- `Inclusive`, with what it takes to keep it. -/
structure Told (s : Chat S poolSize) : Prop where
  inclusive : s.Inclusive
  /-- Whoever was told something is a user still. -/
  known : ∀ speech ∈ s.said, ∀ user ∈ speech.users, user.1 ∈ s.users

/-- Every step keeps what is said of users and broadcasts. -/
theorem step_told [LawfulSlab S] (h : s.Told)
    (hplain : ∀ seq, (s.server.pool.workers seq).NoConnecting) (hstep : s.Step display l s') :
    s'.Told := by
  have hentered := step_entered h.inclusive.entered hplain hstep
  obtain ⟨hgrows, hsaid | ⟨speech, hsaid, hperm, husers⟩⟩ := step_users hstep
  · refine ⟨⟨?_, ?_, hentered⟩, ?_⟩
    · rw [hsaid]
      exact h.inclusive.once
    · rw [hsaid]
      exact h.inclusive.later
    · rw [hsaid]
      exact fun speech hmem user huser => hgrows _ (h.known speech hmem user huser)
  · refine ⟨⟨?_, ?_, hentered⟩, ?_⟩
    · rw [hsaid]
      intro old hold
      rcases List.mem_append.mp hold with hold | hnew
      · exact h.inclusive.once old hold
      · obtain rfl := List.mem_singleton.mp hnew
        have hkeys : (s.users.entries.map Sigma.fst).Nodup := s.users.nodupKeys
        exact (hperm.map Sigma.fst).nodup_iff.mpr hkeys
    · rw [hsaid, List.pairwise_append]
      refine ⟨h.inclusive.later, List.pairwise_singleton _ _,
        fun old hold next hnext user huser => ?_⟩
      obtain rfl := List.mem_singleton.mp hnext
      exact (mem_of_perm hperm user.1).mpr (h.known old hold user huser)
    · rw [hsaid, husers]
      intro old hold user huser
      rcases List.mem_append.mp hold with hold | hnew
      · exact h.known old hold user huser
      · obtain rfl := List.mem_singleton.mp hnew
        exact (mem_of_perm hperm user.1).mp ⟨user.2, huser⟩

/-! ### Runs -/

variable {s₀ : Chat S poolSize} {ls : List (ChatLabel poolSize)} {cap : Nat}

/-- At the start nobody is a user, and nothing was said. -/
theorem Started.told [LawfulSlab S] (h : s₀.Started cap) : s₀.Told := by
  refine ⟨⟨?_, ?_, fun seq token htoken => ?_⟩, ?_⟩
  · simp [h.said]
  · simp [h.said]
  · obtain ⟨offset, timer, -, hw⟩ := h.server.pool.worker seq
    obtain ⟨c, hc⟩ := htoken
    rw [hw] at hc
    obtain ⟨key, -, hget⟩ := Dispatcher.connAt_eq_some.mp hc
    cases (LawfulSlab.get_withCapacity cap key).symm.trans hget
  · simp [h.said]

/-- **Every broadcast goes once to every user, and nobody is forgotten.** In every run of a chat
server from its start, a live connection is among the users as soon as its `on_established` is
done, and it is among the users of every broadcast from then on, once. No user is ever taken out,
so this stays so when its connection is closed. The broadcasts are what the callbacks of the run
say, each to the users of its moment. -/
theorem inclusive_of_run [LawfulSlab S] (h₀ : s₀.Started cap)
    (hrun : Run (Step display) s₀ ls s) :
    s.Inclusive ∧ Emits (TellsStep display) (spoken display) s₀ ls s.said s := by
  have hinv : s.Told ∧ s.Dealing := by
    refine hrun.invariant (P := fun s => s.Told ∧ s.Dealing) ?_ ⟨h₀.told, h₀.dealing⟩
    rintro s l s' ⟨htold, hdealing⟩ hstep
    exact ⟨step_told htold hdealing.plain hstep, step_dealing hdealing hstep⟩
  exact ⟨hinv.1.inclusive, said_of_run h₀.said hrun⟩

/-! ### Whose users they are -/

/-- The users of a loop are in its range. -/
structure Ranged (cap : Nat) (s : Chat S poolSize) : Prop where
  users : ∀ user ∈ s.users.entries, Worker.InRange cap user.2 user.1
  mail : ∀ (seq : Fin poolSize) token (noti : Nat), .insert token noti ∈ s.mail seq →
    noti = seq ∧ Worker.InRange cap seq token
  said : ∀ speech ∈ s.said, ∀ user ∈ speech.users, Worker.InRange cap user.2 user.1

omit [Slab S] in
/-- What is left of the mail enters users in their range. -/
theorem Ranged.tail (h : s.Ranged cap) {seq : Fin poolSize} {m : Mail} {mail : List Mail}
    (hmail : s.mail seq = m :: mail) (seq' : Fin poolSize) (token : Token) (noti : Nat)
    (hmem : .insert token noti ∈ Function.update s.mail seq mail seq') :
    noti = seq' ∧ Worker.InRange cap seq' token :=
  h.mail seq' token noti (mem_of_tail hmail hmem)

/-- Every step keeps the users in the range of their loop. -/
theorem step_ranged [LawfulSlab S] (h : s.Ranged cap) (hagrees : s.server.pool.Agreement cap)
    (hstep : s.RoomyStep display l s') : s'.Ranged cap := by
  obtain ⟨hstep, hroom⟩ := hstep
  cases step_cases hstep with
  | service | call | flush | lock => exact ⟨h.users, h.mail, h.said⟩
  | notify seq peer msg mail hmail => exact ⟨h.users, h.tail hmail, h.said⟩
  | unlock seq mail hmail => exact ⟨h.users, h.tail hmail, h.said⟩
  | insert seq token noti mail hmail hholder =>
    refine ⟨fun user huser => ?_, h.tail hmail, h.said⟩
    rw [AList.entries_insert] at huser
    rcases List.mem_cons.mp huser with rfl | hold
    · obtain ⟨rfl, hrange⟩ := h.mail seq token noti (hmail ▸ List.mem_cons_self)
      exact hrange
    · exact h.users user ((List.kerase_sublist _ _).subset hold)
  | broadcast seq k r speech server hl hmail hreaction hr hholder husers hserver =>
    refine ⟨h.users, fun seq' token noti hmem => ?_, fun old hold user huser => ?_⟩
    · have hmem : .insert token noti ∈ Function.update s.mail seq _ seq' := hmem
      by_cases hseq : seq' = seq
      · subst hseq
        rw [Function.update_self] at hmem
        have hafter : .insert token noti ∈ r.after := by simpa [Speech.mail] using hmem
        obtain ⟨⟨env, a, target, queue, rfl, hqueue⟩, rfl, rfl⟩ := hr.insert_cases hafter
        have hplaced := hagrees.placed seq'
        have hlt := hroom seq' _ _ rfl
        simp only [Worker.HasRoom, hqueue] at hlt
        have hkey := LawfulSlab.vacantKey_lt _ (hlt trivial)
        rw [hplaced.capacity] at hkey
        exact ⟨hplaced.localNotifier, hplaced.key_inRange hkey⟩
      · rw [Function.update_of_ne hseq] at hmem
        exact h.mail seq' token noti hmem
    · rcases List.mem_append.mp hold with hold | hnew
      · exact h.said old hold user huser
      · obtain rfl := List.mem_singleton.mp hnew
        exact h.users user (husers.mem_iff.mp huser)

/-- At the start nobody is a user. -/
theorem Started.ranged (h : s₀.Started cap) : s₀.Ranged cap := by
  refine ⟨?_, ?_, ?_⟩
  · simp [h.users]
  · simp [h.mail]
  · simp [h.said]

/-- What holds in every state, as long as no connection arrives at a full slab. -/
structure Tidy (cap : Nat) (s : Chat S poolSize) : Prop where
  agreement : s.server.pool.Agreement cap
  ranged : s.Ranged cap
  told : s.Told
  dealing : s.Dealing

section
variable [LawfulSlab S]

/-- Every step keeps the users with their loops. -/
theorem step_tidy (h : s.Tidy cap) (hstep : s.RoomyStep display l s') : s'.Tidy cap := by
  refine ⟨?_, step_ranged h.ranged h.agreement hstep, step_told h.told h.dealing.plain hstep.1,
    step_dealing h.dealing hstep.1⟩
  rcases step_roomy h.dealing.1 hstep with hsame | ⟨k, -, hk⟩
  · exact hsame ▸ h.agreement
  · exact Server.step_agreement h.agreement hk

/-- At the start there are no users. -/
theorem Started.tidy (h : s₀.Started cap) : s₀.Tidy cap :=
  ⟨h.server.pool.agreement, h.ranged, h.told, h.dealing⟩

/-- Every run from the start keeps the users with their loops. -/
theorem run_tidy (h₀ : s₀.Started cap) (hrun : Run (RoomyStep display) s₀ ls s) : s.Tidy cap :=
  hrun.invariant (P := fun s => s.Tidy cap) (fun _ _ _ h hstep => step_tidy h hstep) h₀.tidy

omit [LawfulSlab S] in
/-- A live connection that is a user is listed with its own loop. -/
theorem Tidy.loop_eq (h : s.Tidy cap) {seq : Fin poolSize} {token : Token} {noti : Nat}
    (htoken : (s.server.pool.workers seq).HasToken token) (hnoti : Worker.InRange cap noti token) :
    noti = seq :=
  hnoti.unique ((h.agreement.placed seq).live_inRange htoken)

end

end Chat

section Example

set_option maxRecDepth 8000 in
/-- The first guest is a user, and the second one will be. -/
theorem inclusive_of_run_guests : ∃ s : Chat Lib.FreeListSlab 2, s.Inclusive ∧
    Emits (Chat.TellsStep fun _ => []) (Chat.spoken fun _ => []) newChat twoGuests s.said s := by
  have hrun : ∃ s, Run (Chat.Step fun _ => []) newChat twoGuests s :=
    ⟨_, .cons rfl (.cons rfl (.cons rfl (.cons rfl (.cons rfl (.cons rfl (.cons rfl (.cons rfl
      (.cons rfl (.nil _)))))))))⟩
  obtain ⟨s, hrun⟩ := hrun
  exact ⟨s, Chat.inclusive_of_run newChat_started hrun⟩

end Example

end Ruduo
