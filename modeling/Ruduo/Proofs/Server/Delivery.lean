import Ruduo.Proofs.Server.Steps
import Ruduo.Spec.Delivery

/-!
# `Ruduo.Proofs.Server.Delivery`: messages reach the holder of a token

`id`s are never reused, and a step changes at most one entry of the table of `id`s
(`step_ids`). So a connection keeps its key as long as it lives, and whatever gets the key
after it has a larger `id` (`Traced`, `step_traced`).
-/

set_option autoImplicit false

namespace Ruduo

open Lib (Outcome Run Slab LawfulSlab)

variable {S : Type → Type} [Slab S] {M : Type}

/-- The `id` of the live connection at a key. -/
def Dispatcher.idAt (d : Dispatcher S M) (key : Nat) : Option Nat :=
  (Slab.get d.localConnections key).map fun c => c.id

/-- This `id` was at the key of the token, or it is new there. -/
def Dispatcher.Inherits (d : Dispatcher S M) (token : Token) (id : Nat) : Prop :=
  ∀ key, token = d.offset + key → d.idAt key = some id ∨ (d.idAt key = none ∧ id = d.made)

/-- An occupied key has the number of its connection. -/
theorem Dispatcher.idAt_of_get {d : Dispatcher S M} {key : Nat} {c : TcpConnection}
    (h : Slab.get d.localConnections key = some c) : d.idAt key = some c.id := by
  rw [idAt, h]
  rfl

/-- A vacant key has no number. -/
theorem Dispatcher.idAt_eq_none {d : Dispatcher S M} {key : Nat} :
    d.idAt key = none ↔ Slab.get d.localConnections key = none := by
  rw [idAt, Option.map_eq_none_iff]

variable [LawfulSlab S] [DecidableEq M] {w w' : Worker S M} {l : WorkerLabel M}

namespace Worker

/-- After a step a connection has the `id` that was at its key, or a new one. -/
theorem step_inherits (hstep : w.Step l w') :
    w'.dispatcher.All fun _ token c => w.dispatcher.Inherits token c.id := by
  have hall : w.dispatcher.All fun _ token c => w.dispatcher.Inherits token c.id := by
    intro key c hget key' hkey
    obtain rfl := Nat.add_left_cancel hkey
    exact Or.inl (Dispatcher.idAt_of_get hget)
  have hnew : w.dispatcher.Inherits
      (w.dispatcher.offset + Slab.vacantKey w.dispatcher.localConnections) w.dispatcher.made := by
    intro key hkey
    obtain rfl := Nat.add_left_cancel hkey
    exact Or.inr ⟨Dispatcher.idAt_eq_none.mpr (LawfulSlab.get_vacantKey _), rfl⟩
  exact (step_identity (R := fun token id _ => w.dispatcher.Inherits token id) hstep hall hnew).1

/-- A step takes no key into use, or the vacant one. -/
theorem step_keys (hstep : w.Step l w') :
    w'.dispatcher.offset = w.dispatcher.offset ∧
      ((w'.dispatcher.made = w.dispatcher.made ∧
          ∀ key c, Slab.get w'.dispatcher.localConnections key = some c →
            (Slab.get w.dispatcher.localConnections key).isSome) ∨
        (w.dispatcher.made < w'.dispatcher.made ∧
          ∀ key c, Slab.get w'.dispatcher.localConnections key = some c →
            key ≠ Slab.vacantKey w.dispatcher.localConnections →
            (Slab.get w.dispatcher.localConnections key).isSome)) := by
  obtain ⟨-, ⟨-, hkept, -⟩ | ⟨-, -, hmoved⟩⟩ :=
    step_identity (R := fun _ _ _ => True) hstep (fun _ _ _ => trivial) trivial
  · refine ⟨hkept.offset, Or.inl ⟨hkept.made, fun key c hget => ?_⟩⟩
    rw [← hkept.isSome key, hget]
    rfl
  · generalize w'.locked = locked at hmoved
    cases hmoved with
    | dropped hsame =>
      refine ⟨hsame.offset, Or.inl ⟨hsame.made, fun key c hget => ?_⟩⟩
      rw [← hsame.localConnections, hget]
      rfl
    | added c hconns _ hoffset _ hmade =>
      refine ⟨hoffset, Or.inr ⟨by omega, fun key c' hget hkey => ?_⟩⟩
      rw [hconns, LawfulSlab.get_insert, if_neg hkey] at hget
      rw [hget]
      rfl
    | removed key₀ c peerAddr _ hsame =>
      refine ⟨hsame.offset, Or.inl ⟨hsame.made, fun key c' hget => ?_⟩⟩
      rw [hsame.localConnections, LawfulSlab.get_remove] at hget
      split at hget
      · cases hget
      · rw [hget]
        rfl

/-- What a step does to the `id`s: at most one key gets a new one. -/
theorem step_ids (hstep : w.Step l w') :
    w'.dispatcher.offset = w.dispatcher.offset ∧ w.dispatcher.made ≤ w'.dispatcher.made ∧
      ∃ key₀, ∀ key id, w'.dispatcher.idAt key = some id → w.dispatcher.idAt key = some id ∨
        (key = key₀ ∧ id = w.dispatcher.made ∧ w.dispatcher.made < w'.dispatcher.made) := by
  have hall := step_inherits hstep
  obtain ⟨hoffset, hkeys⟩ := step_keys hstep
  -- Wherever a connection was live before, it kept its `id`.
  have hold : ∀ key c, Slab.get w'.dispatcher.localConnections key = some c →
      (Slab.get w.dispatcher.localConnections key).isSome → w.dispatcher.idAt key = some c.id := by
    intro key c hget hsome
    rcases hall key c hget key (by rw [hoffset]) with h | ⟨h, -⟩
    · exact h
    · rw [Dispatcher.idAt_eq_none.mp h] at hsome
      cases hsome
  have hfind : ∀ key id, w'.dispatcher.idAt key = some id →
      ∃ c, Slab.get w'.dispatcher.localConnections key = some c ∧ c.id = id :=
    fun key id hid => Option.map_eq_some_iff.mp hid
  rcases hkeys with ⟨hmade, hused⟩ | ⟨hmade, hused⟩
  · refine ⟨hoffset, hmade.ge, 0, fun key id hid => ?_⟩
    obtain ⟨c, hget, rfl⟩ := hfind key id hid
    exact Or.inl (hold key c hget (hused key c hget))
  · refine ⟨hoffset, hmade.le, Slab.vacantKey w.dispatcher.localConnections, fun key id hid => ?_⟩
    obtain ⟨c, hget, rfl⟩ := hfind key id hid
    by_cases hkey : key = Slab.vacantKey w.dispatcher.localConnections
    · rcases hall key c hget key (by rw [hoffset]) with h | ⟨-, h⟩
      · exact Or.inl h
      · exact Or.inr ⟨hkey, h, hmade⟩
    · exact Or.inl (hold key c hget (hused key c hget hkey))

omit [LawfulSlab S] in
/-- A message in the queue was there before, or it was enqueued for the connection that its
token designates. -/
theorem step_queue (hstep : w.Step l w') {q : Queued M} (hq : q ∈ w'.queue) :
    q ∈ w.queue ∨ ∃ msg, q = { msg, target := w.target msg } := by
  have hpush : ∀ msg, q ∈ (w.push msg).queue →
      q ∈ w.queue ∨ ∃ msg, q = { msg, target := w.target msg } := by
    intro msg hmem
    rcases List.mem_append.mp hmem with h | h
    · exact Or.inl h
    · exact Or.inr ⟨msg, List.mem_singleton.mp h⟩
  -- Only these steps enqueue, and the other ones take from the queue at most.
  cases l with
  | enqueue msg =>
    cases hstep
    exact hpush msg hq
  | flush =>
    unfold Step exec at hstep
    dsimp only at hstep
    split at hstep
    · cases hstep
      exact hpush _ hq
    · cases hstep
  | lock =>
    unfold Step exec at hstep
    dsimp only at hstep
    split at hstep <;> cases hstep
    exact Or.inl hq
  | event token readable writable env =>
    obtain ⟨d, sent, -, rfl⟩ := step_event hstep
    exact Or.inl hq
  | receive env =>
    obtain ⟨q', queue, h, hqueue, -, rfl⟩ := step_receive hstep
    rw [hqueue]
    exact Or.inl (List.mem_cons_of_mem _ hq)
  | timer nowTick env =>
    obtain ⟨h, -, rfl⟩ := step_timer hstep
    exact Or.inl hq

/-- The `id`s of live connections are old and distinct. For a queued message, the connection it
was enqueued for is at the key of its token as long as it lives, and another one there is
younger. -/
structure Traced (w : Worker S M) : Prop where
  id_lt : ∀ key id, w.dispatcher.idAt key = some id → id < w.dispatcher.made
  id_inj : ∀ key key' id, w.dispatcher.idAt key = some id → w.dispatcher.idAt key' = some id →
    key = key'
  target_lt : ∀ q ∈ w.queue, ∀ id, q.target = some id → id < w.dispatcher.made
  target_at : ∀ q ∈ w.queue, ∀ id msg token, q.target = some id → q.msg = .any msg →
    msg.designee = some token → ∀ key id', w.dispatcher.idAt key = some id' →
      (id' = id → token = w.dispatcher.offset + key) ∧
        (token = w.dispatcher.offset + key → id ≤ id')

omit [LawfulSlab S] [DecidableEq M] in
/-- The connection that a new message designates. -/
theorem target_eq_some {msg : Message (TcpConnMessage M)} {id : Nat}
    (h : w.target msg = some id) : ∃ m key, msg = .any m ∧
      m.designee = some (w.dispatcher.offset + key) ∧ w.dispatcher.idAt key = some id := by
  cases msg with
  | stop => cases h
  | any m =>
    obtain ⟨c, hc, rfl⟩ := Option.map_eq_some_iff.mp h
    obtain ⟨token, htoken, hc⟩ := Option.bind_eq_some_iff.mp hc
    obtain ⟨key, rfl, hget⟩ := Dispatcher.connAt_eq_some.mp hc
    exact ⟨m, key, rfl, htoken, Dispatcher.idAt_of_get hget⟩

/-- Every step keeps the traces of the connections. -/
theorem step_traced (h : Traced w) (hstep : w.Step l w') : Traced w' := by
  obtain ⟨hoffset, hmade, key₀, hids⟩ := step_ids hstep
  -- What is in the queue is traced as if it had been enqueued before the step.
  have htarget : ∀ q ∈ w'.queue, ∀ id, q.target = some id → id < w.dispatcher.made ∧
      ∀ msg token, q.msg = .any msg → msg.designee = some token →
        ∀ key id', w.dispatcher.idAt key = some id' →
          (id' = id → token = w.dispatcher.offset + key) ∧
            (token = w.dispatcher.offset + key → id ≤ id') := by
    intro q hq id hid
    rcases step_queue hstep hq with hold | ⟨msg, rfl⟩
    · exact ⟨h.target_lt q hold id hid, fun msg token => h.target_at q hold id msg token hid⟩
    · obtain ⟨m, key₀, rfl, haddr, hid₀⟩ := target_eq_some hid
      refine ⟨h.id_lt key₀ id hid₀, fun m' token hm' htoken key id' hid' => ?_⟩
      cases hm'
      obtain rfl := Option.some.inj (haddr.symm.trans htoken)
      constructor
      · rintro rfl
        rw [h.id_inj key key₀ _ hid' hid₀]
      · intro hkey
        obtain rfl := Nat.add_left_cancel hkey
        exact Nat.le_of_eq (Option.some.inj (hid₀.symm.trans hid'))
  refine ⟨fun key id hid => ?_, fun key key' id hid hid' => ?_, fun q hq id hid => ?_,
    fun q hq id msg token hid hmsg htoken key id' hid' => ?_⟩
  · rcases hids key id hid with hold | ⟨-, rfl, hlt⟩
    · exact Nat.lt_of_lt_of_le (h.id_lt key id hold) hmade
    · exact hlt
  · rcases hids key id hid with hold | ⟨rfl, rfl, hlt⟩
    · rcases hids key' id hid' with hold' | ⟨-, rfl, -⟩
      · exact h.id_inj key key' id hold hold'
      · exact absurd (h.id_lt key _ hold) (Nat.lt_irrefl _)
    · rcases hids key' _ hid' with hold' | ⟨rfl, -, -⟩
      · exact absurd (h.id_lt key' _ hold') (Nat.lt_irrefl _)
      · rfl
  · exact Nat.lt_of_lt_of_le (htarget q hq id hid).1 hmade
  · obtain ⟨hlt, hat⟩ := htarget q hq id hid
    rw [hoffset]
    rcases hids key id' hid' with hold | ⟨-, rfl, -⟩
    · exact hat msg token hmsg htoken key id' hold
    · -- A new connection is none that a message was enqueued for.
      exact ⟨fun heq => absurd hlt (heq ▸ Nat.lt_irrefl _), fun _ => Nat.le_of_lt hlt⟩

/-- In every state of a run the queue is traced. -/
theorem run_traced {cap offset noti : Nat} {timer : Timer S M} {ls : List (WorkerLabel M)}
    (hrun : Run Step (new cap offset noti timer) ls w) : Traced w := by
  refine hrun.invariant (fun _ _ _ h hstep => step_traced h hstep) ?_
  have hnone : ∀ key, (new cap offset noti timer).dispatcher.idAt key = none :=
    fun key => Dispatcher.idAt_eq_none.mpr (LawfulSlab.get_withCapacity cap key)
  refine ⟨fun key id hid => ?_, fun key key' id hid => ?_, nofun, nofun⟩
  · cases (hnone key).symm.trans hid
  · cases (hnone key).symm.trans hid

omit [LawfulSlab S] [DecidableEq M] in
/-- A connection that a message was enqueued for holds the token of the message as long as it
lives. -/
theorem Traced.holds (h : Traced w) {q : Queued M} (hq : q ∈ w.queue) {id : Nat}
    (hid : q.target = some id) {msg : TcpConnMessage M} (hmsg : q.msg = .any msg) {token : Token}
    (htoken : msg.designee = some token) (hlive : w.Live id) :
    ∃ c, w.dispatcher.connAt token = some c ∧ c.id = id := by
  obtain ⟨key, c, hget, rfl⟩ := hlive
  have hat := h.target_at q hq c.id msg token hid hmsg htoken key c.id (Dispatcher.idAt_of_get hget)
  exact ⟨c, Dispatcher.connAt_eq_some.mpr ⟨key, hat.1 rfl, hget⟩, rfl⟩

omit [DecidableEq M] in
/-- `with_connection` changes the connection with the token, and no other. -/
theorem withConnection_delivers (d : Dispatcher S M) (token : Token)
    (f : Session M → Except Fault (Session M)) :
    Outcome (d.withConnection token f) (fun r =>
      (∀ t, t ≠ token → r.1.connAt t = d.connAt t) ∧
      (d.connAt token = none → r = (d, [])) ∧
      ∀ c, d.connAt token = some c → ∃ s, f { conn := c, sent := [] } = .ok s ∧
        r.1.connAt token = some s.conn ∧ r.2 = s.sent) (fun _ => True) := by
  refine Dispatcher.withConnection_outcome (fun _ _ _ => trivial) (fun hnone => ?_)
    fun key c htoken hget => Outcome.intro (fun s hs => ?_) fun _ _ => trivial
  · refine ⟨fun _ _ => rfl, fun _ => rfl, fun c hc => ?_⟩
    rw [hnone] at hc
    cases hc
  · subst htoken
    have hset := fun t => Slab.get_set_of_some d.localConnections s.conn t hget
    have hat : ∀ t, ({ d with localConnections := Slab.set d.localConnections key s.conn } :
        Dispatcher S M).connAt (d.offset + t) = if t = key then some s.conn
          else Slab.get d.localConnections t := fun t =>
      (Dispatcher.connAt_token _ t).trans (hset t)
    refine ⟨fun t hne => ?_, fun hnone => ?_, fun c' hc' => ?_⟩
    · -- A token below the offset has no connection, before and after.
      unfold Dispatcher.connAt Dispatcher.restoreKey
      cases hkey : u64Sub t d.offset with
      | error f => rfl
      | ok key' =>
        obtain rfl := Dispatcher.restoreKey_eq_ok.mp hkey
        exact (hset key').trans (if_neg fun heq => hne (by rw [heq]))
    · rw [Dispatcher.connAt_token, hget] at hnone
      cases hnone
    · rw [Dispatcher.connAt_token, hget] at hc'
      obtain rfl := Option.some.inj hc'
      exact ⟨s, hs, (hat key).trans (if_pos rfl), rfl⟩

/-- **A message reaches the connection that holds its token.** In every run, handling a message
that asks for a call on a connection does something to the connection that holds the token
then, or nothing. This is the connection that the message was enqueued for, as long as that one
lives. After it was removed it can be a connection made later, which was given the same
token. -/
theorem delivered_by_token (cap offset noti : Nat) (timer : Timer S M)
    {ls : List (WorkerLabel M)} (hrun : Run Step (new cap offset noti timer) ls w)
    {q : Queued M} {rest : List (Queued M)} (hqueue : w.queue = q :: rest)
    {msg : TcpConnMessage M} (hmsg : q.msg = .any msg) {env : Env M} {token : Token}
    {k : ConnCall M} (hcall : msg.call env = some (token, k))
    (hstep : w.Step (.receive env) w') : DeliveredByToken w w' q token k := by
  have htraced := run_traced hrun
  have haddr : msg.designee = some token := by
    cases msg <;> cases hcall <;> rfl
  have hq : q ∈ w.queue := hqueue ▸ List.mem_cons_self
  have hlive : ∀ id, q.target = some id → w.Live id →
      ∃ c, w.dispatcher.connAt token = some c ∧ c.id = id :=
    fun _ hid => htraced.holds hq hid hmsg haddr
  -- The one that holds the token now was made later when it is not the target.
  have hgone : ∀ id c, q.target = some id → w.dispatcher.connAt token = some c → c.id ≠ id →
      id < c.id ∧ ¬ w.Live id := by
    intro id c hid hc hne
    obtain ⟨key, htoken, hget⟩ := Dispatcher.connAt_eq_some.mp hc
    have hat := htraced.target_at q hq id msg token hid hmsg haddr key c.id
      (Dispatcher.idAt_of_get hget)
    refine ⟨Nat.lt_of_le_of_ne (hat.2 htoken) (Ne.symm hne), fun h => ?_⟩
    obtain ⟨c', hc', hid'⟩ := hlive id hid h
    obtain rfl := Option.some.inj (hc.symm.trans hc')
    exact hne hid'
  -- The handler makes the call of the message with `with_connection`.
  obtain ⟨q', queue, h, hqueue', hh, rfl⟩ := step_receive hstep
  obtain ⟨rfl, rfl⟩ := List.cons.inj (hqueue.symm.trans hqueue')
  rw [hmsg] at hh
  have hnotify : w.dispatcher.handleNotify w.timer msg env = .ok h := hh
  rw [Dispatcher.handleNotify_of_call hcall] at hnotify
  obtain ⟨r, hr, hh⟩ := bind_eq_ok.mp hnotify
  cases hh
  obtain ⟨hothers, hnobody, hholder⟩ := (withConnection_delivers w.dispatcher token _).of_ok hr
  refine ⟨hothers, fun hnone => ?_, hholder, hlive, hgone⟩
  obtain rfl := hnobody hnone
  exact ⟨rfl, rfl⟩

end Worker

section Example

/-- A client closes. Before its `Removed` message is handled, a thread sends to it, and another
client arrives. -/
def reuseRun : List (WorkerLabel String) :=
  [.enqueue (.any (.established .fresh 7 0)), .receive quietEnv, .lock,
    .event 0 true false { quietEnv with reads := [.ok []] }, .flush,
    .enqueue (.any (.established .fresh 8 1)), .enqueue (.any (.write 0 [1, 2])),
    .receive quietEnv, .lock, .receive quietEnv, .lock]

set_option maxRecDepth 8000 in
/-- **The other client gets the bytes.** The message was enqueued for the connection 0. It is
handled when the connection 1 holds the token, and the socket of that one accepts the bytes. -/
theorem write_reaches_next_client :
    ∃ w w' : Worker Lib.FreeListSlab String, ∃ c c',
      Run Worker.Step (Worker.new 4 0 0 emptyTimer) reuseRun w ∧
      w.queue = [{ msg := .any (.write 0 [1, 2]), target := some 0 }] ∧
      w.dispatcher.connAt 0 = some c ∧ c.id = 1 ∧ c.io.accepted = [] ∧
      w.Step (.receive { quietEnv with writes := [.ok 2] }) w' ∧
      w'.dispatcher.connAt 0 = some c' ∧ c'.id = 1 ∧ c'.io.accepted = [1, 2] := by
  have hrun : Run Worker.Step (Worker.new 4 0 0 emptyTimer) reuseRun _ :=
    .cons rfl (.cons rfl (.cons rfl (.cons rfl (.cons rfl (.cons rfl (.cons rfl (.cons rfl
      (.cons rfl (.cons rfl (.cons rfl (.nil _)))))))))))
  exact ⟨_, _, _, _, hrun, rfl, rfl, rfl, rfl, rfl, rfl, rfl, rfl⟩

set_option maxRecDepth 8000 in
/-- The same step, as the theorem describes it. -/
theorem delivered_by_token_reuse :
    ∃ w w' : Worker Lib.FreeListSlab String,
      Run Worker.Step (Worker.new 4 0 0 emptyTimer) reuseRun w ∧
      w.Step (.receive { quietEnv with writes := [.ok 2] }) w' ∧
      DeliveredByToken w w' { msg := .any (.write 0 [1, 2]), target := some 0 } 0
        (.send [1, 2] [.ok 2]) := by
  have hcall : (TcpConnMessage.write 0 [1, 2] : TcpConnMessage String).call
      { quietEnv with writes := [.ok 2] } = some (0, .send [1, 2] [.ok 2]) := rfl
  have hsteps : ∃ w w' : Worker Lib.FreeListSlab String,
      Run Worker.Step (Worker.new 4 0 0 emptyTimer) reuseRun w ∧
      w.queue = [{ msg := .any (.write 0 [1, 2]), target := some 0 }] ∧
      w.Step (.receive { quietEnv with writes := [.ok 2] }) w' :=
    ⟨_, _, .cons rfl (.cons rfl (.cons rfl (.cons rfl (.cons rfl (.cons rfl (.cons rfl (.cons rfl
      (.cons rfl (.cons rfl (.cons rfl (.nil _))))))))))), rfl, rfl⟩
  obtain ⟨w, w', hrun, hqueue, hstep⟩ := hsteps
  exact ⟨w, w', hrun, hstep,
    Worker.delivered_by_token 4 0 0 emptyTimer hrun hqueue rfl hcall hstep⟩

end Example

end Ruduo
