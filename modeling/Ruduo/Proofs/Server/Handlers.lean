import Ruduo.Proofs.Buffer.Refinement
import Ruduo.Proofs.Connection.Registration
import Ruduo.Proofs.Timer.Faults
import Ruduo.Spec.Lifecycle

/-!
# `Ruduo.Proofs.Server.Handlers`: what a handler call can do to the connections

One rule for each handler of the dispatcher that keeps the connections there are, as a
postcondition for its result and for its faults.

* `withConnection_outcome`, `call_outcome`: the call is made on the connection with the token,
  and on no other.
* `handleIoEvent_outcome`: the readable part, then the writable part.
* `processTimer_outcome`, `gracefulShutdown_outcome`.
* `readableCall_cases`, `timerCall_eq_some`: which call a readable event and a timer lead to.

`Kept` says that a dispatcher has the same keys and the same place in the pool as another one.
-/

set_option autoImplicit false

namespace Ruduo

open Lib (Outcome Slab LawfulSlab)

/-! ### Rules for the handlers -/

namespace Dispatcher
variable {S : Type → Type} [Slab S] {M : Type} [DecidableEq M]
variable {d d' d'' : Dispatcher S M} {token : Token} {key : Nat} {c c' : TcpConnection}

/-- The handler neither adds nor removes a connection. -/
structure Kept (d d' : Dispatcher S M) : Prop where
  offset : d'.offset = d.offset
  localNotifier : d'.localNotifier = d.localNotifier
  made : d'.made = d.made
  len : Slab.len d'.localConnections = Slab.len d.localConnections
  capacity : Slab.capacity d'.localConnections = Slab.capacity d.localConnections
  isSome : ∀ key, (Slab.get d'.localConnections key).isSome
    = (Slab.get d.localConnections key).isSome

omit [DecidableEq M] in
/-- What does not change is kept. -/
theorem Kept.refl (d : Dispatcher S M) : Kept d d := ⟨rfl, rfl, rfl, rfl, rfl, fun _ => rfl⟩

omit [DecidableEq M] in
/-- Two parts in sequence. -/
theorem Kept.trans (h : Kept d d') (h' : Kept d' d'') : Kept d d'' :=
  ⟨h'.offset.trans h.offset, h'.localNotifier.trans h.localNotifier, h'.made.trans h.made,
    h'.len.trans h.len, h'.capacity.trans h.capacity,
    fun key => (h'.isSome key).trans (h.isSome key)⟩

omit [Slab S] [DecidableEq M] in
/-- `restore_key` gives the key of the tokens from the offset on. -/
theorem restoreKey_eq_ok : d.restoreKey token = .ok key ↔ token = d.offset + key := by
  have harith : ∀ a b k : Nat, b ≤ a ∧ a - b = k ↔ a = b + k := by omega
  unfold restoreKey
  rw [u64Sub_eq_ok]
  exact harith token d.offset key

omit [Slab S] [DecidableEq M] in
/-- The key of a token that the dispatcher issued. -/
theorem restoreKey_token (d : Dispatcher S M) (key : Nat) :
    d.restoreKey (d.offset + key) = .ok key := restoreKey_eq_ok.mpr rfl

omit [DecidableEq M] in
/-- The live connections are those at the tokens that the dispatcher issued. -/
theorem connAt_eq_some : d.connAt token = some c ↔
    ∃ key, token = d.offset + key ∧ Slab.get d.localConnections key = some c := by
  unfold connAt
  cases hkey : d.restoreKey token with
  | error f =>
    constructor
    · intro h
      cases h
    · rintro ⟨key, rfl, -⟩
      rw [restoreKey_token] at hkey
      cases hkey
  | ok key =>
    constructor
    · intro h
      exact ⟨key, restoreKey_eq_ok.mp hkey, h⟩
    · rintro ⟨key', rfl, h⟩
      rw [restoreKey_token] at hkey
      cases hkey
      exact h

omit [DecidableEq M] in
/-- The connection of a token is the one at its key. -/
theorem connAt_token (d : Dispatcher S M) (key : Nat) :
    d.connAt (d.offset + key) = Slab.get d.localConnections key := by
  unfold connAt
  rw [restoreKey_token]

section LawfulSlab
variable [LawfulSlab S]

omit [DecidableEq M] in
/-- The connection at a live key is replaced. -/
theorem Kept.set (h : Slab.get d.localConnections key = some c) (c' : TcpConnection) :
    Kept d { d with localConnections := Slab.set d.localConnections key c' } where
  offset := rfl
  localNotifier := rfl
  made := rfl
  len := LawfulSlab.len_set _ _ _
  capacity := LawfulSlab.capacity_set _ _ _
  isSome key' := by
    show (Slab.get (Slab.set d.localConnections key c') key').isSome = _
    rw [Slab.get_set_of_some _ _ _ h]
    split
    · rename_i heq
      rw [heq, h]
      rfl
    · rfl

end LawfulSlab

section Rules
variable {Q : Dispatcher S M × List (TcpConnMessage M) → Prop} {E : Fault → Prop}

/-- The faults that are not about the registration are in `E`. -/
def Covers (E : Fault → Prop) : Prop := ∀ f : Fault, ¬ f.IsRegistration → E f

omit [Slab S] [DecidableEq M] in
/-- A token below the offset is no fault of the registration. -/
theorem restoreKey_fault {f : Fault} (h : d.restoreKey token = .error f) :
    ¬ f.IsRegistration := by
  unfold restoreKey u64Sub at h
  split at h
  · cases h
  · obtain rfl := Except.error.inj h
    exact id

omit [DecidableEq M] in
/-- `with_connection` runs `f` on the live connection, or does nothing. -/
theorem withConnection_outcome {f : Session M → Except Fault (Session M)}
    (hE : d.connAt token = none → Covers E) (hnone : d.connAt token = none → Q (d, []))
    (hsome : ∀ key c, token = d.offset + key → Slab.get d.localConnections key = some c →
      Outcome (f { conn := c, sent := [] }) (fun s =>
        Q ({ d with localConnections := Slab.set d.localConnections key s.conn }, s.sent)) E) :
    Outcome (d.withConnection token f) Q E := by
  unfold withConnection
  unfold connAt at hE hnone
  cases hkey : d.restoreKey token with
  | error e =>
    rw [hkey] at hE
    exact hE rfl _ (restoreKey_fault hkey)
  | ok key =>
    rw [hkey] at hnone
    rw [ok_bind]
    cases hget : Slab.get d.localConnections key with
    | none => exact hnone hget
    | some c => exact (hsome key c (restoreKey_eq_ok.mp hkey) hget).bind fun s hs => hs

/-- The callbacks that wait after a call. -/
def pendingsAfter (d : Dispatcher S M) (token : Token) :
    ConnCall M → AList fun _ : Token => Closure
  | .established _ _ _ => d.pendings.erase token
  | _ => d.pendings

omit [Slab S] [DecidableEq M] in
/-- The readable part of an event makes the call `readableCall`. -/
theorem handleReadable_eq (d : Dispatcher S M) (token : Token) (env : Env M) (s : Session M) :
    handleReadable d.pendings token env s = match d.readableCall token env with
      | some k => do
        let s ← s.call k
        .ok (d.pendingsAfter token k, s)
      | none => .ok (d.pendings, s) := by
  unfold handleReadable readableCall
  cases d.pendings.lookup token with
  | none => rfl
  | some f =>
    cases env.peerAddr with
    | ok addr => rfl
    | error e => rfl

omit [Slab S] [DecidableEq M] in
/-- A readable event makes its connection read when no callback waits, and sets it up when one
waits and the stream has a peer. -/
theorem readableCall_cases {env : Env M} {k : ConnCall M}
    (h : d.readableCall token env = some k) :
    (d.pendings.lookup token = none ∧ k = .handleRead env.reads env.acts env.msgs) ∨
      ∃ f addr, d.pendings.lookup token = some f ∧ env.peerAddr = .ok addr ∧
        k = .established f env.msgs env.acts := by
  unfold readableCall at h
  split at h
  · rename_i f hpend
    split at h
    · rename_i addr hpeer
      cases h
      exact Or.inr ⟨f, addr, hpend, hpeer, rfl⟩
    · cases h
  · rename_i hpend
    cases h
    exact Or.inl ⟨hpend, rfl⟩

omit [DecidableEq M] in
/-- An event for a live connection: the readable part, then the writable part. -/
theorem handleIoEvent_outcome {readable writable : Bool} {env : Env M}
    {P : (AList fun _ : Token => Closure) → TcpConnection → Prop}
    (hE : d.connAt token = none → Covers E) (hnone : d.connAt token = none → Q (d, []))
    (hskip : ∀ key c, token = d.offset + key → Slab.get d.localConnections key = some c →
      (readable = true → d.readableCall token env = none) → P d.pendings c)
    (hcall : ∀ key c k, token = d.offset + key → Slab.get d.localConnections key = some c →
      readable = true → d.readableCall token env = some k →
      Outcome (({ conn := c, sent := [] } : Session M).call k)
        (fun s => P (d.pendingsAfter token k) s.conn) E)
    (hwrite : ∀ pendings (s : Session M), P pendings s.conn →
      Outcome (s.handleWrite env.writes) (fun s => P pendings s.conn) E)
    (hdone : ∀ key c pendings (s : Session M), token = d.offset + key →
      Slab.get d.localConnections key = some c → P pendings s.conn →
      Q ({ d with localConnections := Slab.set d.localConnections key s.conn, pendings },
        s.sent)) :
    Outcome (d.handleIoEvent token readable writable env) Q E := by
  unfold handleIoEvent
  unfold connAt at hE hnone
  cases hkey : d.restoreKey token with
  | error e =>
    -- The token is below the worker's own: the subtraction underflows.
    rw [hkey] at hE
    exact hE rfl _ (restoreKey_fault hkey)
  | ok key =>
    rw [hkey] at hnone
    rw [ok_bind]
    have htoken := restoreKey_eq_ok.mp hkey
    cases hget : Slab.get d.localConnections key with
    | none => exact hnone hget -- The event is late: its connection is gone.
    | some c =>
      have hread : Outcome (if readable then handleReadable d.pendings token env
          { conn := c, sent := [] } else .ok (d.pendings, { conn := c, sent := [] }))
          (fun r => P r.1 r.2.conn) E := by
        refine Outcome.ite (fun hr => ?_) fun hr => hskip key c htoken hget fun h => absurd h hr
        rw [handleReadable_eq]
        cases hk : d.readableCall token env with
        | none => exact hskip key c htoken hget fun _ => hk
        | some k => exact (hcall key c k htoken hget hr hk).bind fun s hs => hs
      refine hread.bind fun r hr => ?_
      obtain ⟨pendings, s⟩ := r
      refine Outcome.bind (Q := fun s : Session M => P pendings s.conn)
        (Outcome.ite (fun _ => hwrite pendings s hr) fun _ => hr) fun s hs => ?_
      exact hdone key c pendings s htoken hget hs

/-- A message that asks for a call on a connection. -/
theorem handleNotify_of_call {timer : Timer S M} {msg : TcpConnMessage M} {env : Env M}
    {k : ConnCall M} (h : msg.call env = some (token, k)) :
    d.handleNotify timer msg env = (d.withConnection token fun s => s.call k) >>= fun r =>
      .ok { dispatcher := r.1, timer, sent := r.2, locked := none } := by
  cases msg <;> cases h <;> rfl

end Rules

/-! ### Handlers that keep the connections there are -/

/-- The handler does nothing to the connections. -/
structure SameTable (d d' : Dispatcher S M) : Prop where
  localConnections : d'.localConnections = d.localConnections
  pendings : d'.pendings = d.pendings
  offset : d'.offset = d.offset
  localNotifier : d'.localNotifier = d.localNotifier
  made : d'.made = d.made

omit [Slab S] [DecidableEq M] in
/-- What does not change has the same table. -/
theorem SameTable.refl (d : Dispatcher S M) : SameTable d d := ⟨rfl, rfl, rfl, rfl, rfl⟩

omit [DecidableEq M] in
/-- With the same table everything is kept. -/
theorem SameTable.kept (h : SameTable d d') : Kept d d' where
  offset := h.offset
  localNotifier := h.localNotifier
  made := h.made
  len := by rw [h.localConnections]
  capacity := by rw [h.localConnections]
  isSome key := by rw [h.localConnections]

omit [DecidableEq M] in
/-- With the same table a token has the same connection. -/
theorem SameTable.connAt (h : SameTable d d') (token : Token) :
    d'.connAt token = d.connAt token := by
  unfold Dispatcher.connAt restoreKey
  rw [h.localConnections, h.offset]

omit [Slab S] in
/-- `refresh_timeout` leaves the connections alone. -/
theorem refreshTimeout_sameTable (d : Dispatcher S M) (mark : M) (timeout : Timeout) :
    SameTable d (d.refreshTimeout mark timeout) := by
  unfold refreshTimeout
  split
  · exact ⟨rfl, rfl, rfl, rfl, rfl⟩
  · exact SameTable.refl d

omit [Slab S] in
/-- `refresh_timeout` looks for the mark among the timers that do not repeat. -/
theorem refreshTimeout_timers2 (d : Dispatcher S M) (mark : M) (timeout : Timeout) :
    (d.refreshTimeout mark timeout).timers2 = d.timers2 := by
  unfold refreshTimeout
  split <;> rfl

/-- The messages about timers leave the connections alone. -/
theorem handleNotify_timer (d : Dispatcher S M) (timer : Timer S M) {msg : TcpConnMessage M}
    (env : Env M) (hmsg : match msg with
      | .addTimer .. | .addTimer2 .. | .cancelTimer .. => True
      | _ => False) :
    Outcome (d.handleNotify timer msg env)
      (fun h => SameTable d h.dispatcher ∧ h.locked = none) BufferFault := by
  have hset : ∀ timers timers2 : AList fun _ : M => Timeout × Token × Closure,
      SameTable d { d with timers, timers2 } := fun _ _ => ⟨rfl, rfl, rfl, rfl, rfl⟩
  -- Only the tables of the closures change, and the timer itself.
  cases msg with
  | addTimer token delay mark f =>
    refine (timeoutMs_fault timer env.now delay 0 mark).bind fun r _ => ?_
    obtain ⟨timer', r⟩ := r
    cases r with
    | ok r => exact ⟨hset _ _, rfl⟩
    | error e => exact ⟨SameTable.refl d, rfl⟩
  | addTimer2 token delay interval mark f =>
    refine (timeoutMs_fault timer env.now delay interval mark).bind fun r _ => ?_
    obtain ⟨timer', r⟩ := r
    cases r with
    | ok r => exact ⟨hset _ _, rfl⟩
    | error e => exact ⟨SameTable.refl d, rfl⟩
  | cancelTimer token mark =>
    unfold handleNotify
    dsimp only
    split
    · exact (clear_fault timer _).bind fun r _ => ⟨hset _ _, rfl⟩
    · split
      · exact (clear_fault timer _).bind fun r _ => ⟨hset _ _, rfl⟩
      · exact ⟨SameTable.refl d, rfl⟩
  | _ => exact hmsg.elim

/-- `P` holds of every live connection, with its token and the callback that waits under it. -/
def All (P : Option Closure → Token → TcpConnection → Prop) (d : Dispatcher S M) : Prop :=
  ∀ key c, Slab.get d.localConnections key = some c →
    P (d.pendings.lookup (d.offset + key)) (d.offset + key) c

section All
variable {P : Option Closure → Token → TcpConnection → Prop} {E : Fault → Prop}

omit [DecidableEq M] in
/-- With the same table a property of all connections is kept. -/
theorem All.sameTable (h : d.All P) (hsame : SameTable d d') : d'.All P := by
  intro key c hget
  rw [hsame.localConnections] at hget
  rw [hsame.pendings, hsame.offset]
  exact h key c hget

variable [LawfulSlab S]

omit [DecidableEq M] in
/-- One live connection is replaced, and what waits under its token. -/
theorem All.set (h : d.All P) (hget : Slab.get d.localConnections key = some c)
    {pendings : AList fun _ : Token => Closure}
    (hpend : ∀ token, token ≠ d.offset + key → pendings.lookup token = d.pendings.lookup token)
    (hc : P (pendings.lookup (d.offset + key)) (d.offset + key) c') :
    ({ d with localConnections := Slab.set d.localConnections key c', pendings } :
      Dispatcher S M).All P := by
  intro key' c'' hget'
  rw [Slab.get_set_of_some _ _ _ hget] at hget'
  by_cases hkey : key' = key
  · rw [if_pos hkey] at hget'
    obtain rfl := Option.some.inj hget'
    subst hkey
    exact hc
  · rw [if_neg hkey] at hget'
    have hne : d.offset + key' ≠ d.offset + key := fun heq => hkey (Nat.add_left_cancel heq)
    show P (pendings.lookup _) _ _
    rw [hpend _ hne]
    exact h key' c'' hget'

omit [DecidableEq M] in
/-- A connection enters at the vacant key. -/
theorem All.insert (h : d.All P) (hconns : d'.localConnections = Slab.insert d.localConnections c)
    (hpend : ∀ token, token ≠ d.offset + Slab.vacantKey d.localConnections →
      d'.pendings.lookup token = d.pendings.lookup token)
    (hoffset : d'.offset = d.offset)
    (hc : P (d'.pendings.lookup (d.offset + Slab.vacantKey d.localConnections))
      (d.offset + Slab.vacantKey d.localConnections) c) : d'.All P := by
  intro key' c' hget
  rw [hconns, LawfulSlab.get_insert] at hget
  rw [hoffset]
  by_cases hkey : key' = Slab.vacantKey d.localConnections
  · rw [if_pos hkey] at hget
    obtain rfl := Option.some.inj hget
    subst hkey
    exact hc
  · rw [if_neg hkey] at hget
    rw [hpend _ fun heq => hkey (Nat.add_left_cancel heq)]
    exact h key' c' hget

omit [DecidableEq M] in
/-- `graceful_shutdown` calls `disable_io` on every connection. -/
theorem gracefulShutdown_outcome (h : d.All P)
    (hdisable : ∀ o token c mode, P o token c → Outcome (c.disableIo mode) (P o token) E) :
    Outcome d.gracefulShutdown (fun d' => d'.All P ∧ Kept d d') E := by
  -- By induction on the keys that are left: the loop keeps `All P`, whichever they are.
  have loop : ∀ (keys : List Nat) (d : Dispatcher S M), d.All P →
      Outcome (deregisterAll keys d) (fun d' => d'.All P ∧ Kept d d') E := by
    intro keys
    induction keys with
    | nil => intro d h; exact ⟨h, Kept.refl d⟩
    | cons key keys ih =>
      intro d h
      unfold deregisterAll
      split
      · rename_i c hget
        refine (hdisable _ _ c _ (h key c hget)).bind fun c' hc' => ?_
        have hall := h.set hget (fun _ _ => rfl) hc'
        exact (ih _ hall).mono (fun d' hd' => ⟨hd'.1, (Kept.set hget c').trans hd'.2⟩) fun _ => id
      · exact ih d h
  exact loop _ d h

omit [LawfulSlab S] [DecidableEq M] in
/-- `graceful_shutdown` changes nothing but the connections. -/
theorem gracefulShutdown_eq (h : d.gracefulShutdown = .ok d') :
    ∃ conns, d' = { d with localConnections := conns } := by
  -- By induction on the keys that are left.
  have loop : ∀ (keys : List Nat) (d : Dispatcher S M), deregisterAll keys d = .ok d' →
      ∃ conns, d' = { d with localConnections := conns } := by
    intro keys
    induction keys with
    | nil =>
      intro d h
      cases h
      exact ⟨_, rfl⟩
    | cons key keys ih =>
      intro d h
      unfold deregisterAll at h
      split at h
      · obtain ⟨conn, -, h⟩ := bind_eq_ok.mp h
        obtain ⟨conns, hd'⟩ := ih _ h
        exact ⟨conns, hd'⟩
      · exact ih d h
  exact loop _ d h

/-- What is known of the call that a handler makes, if it makes one. When no live connection
gets it, `C` holds. When one does, the call keeps `P`, and `C` holds afterwards. -/
structure CallRule (P : Option Closure → Token → TcpConnection → Prop) (E : Fault → Prop)
    (C : Prop) (d : Dispatcher S M) (call : Option (Token × ConnCall M)) : Prop where
  quiet : (∀ token k c, call = some (token, k) → d.connAt token ≠ some c) → C
  covers : C → Covers E
  made : ∀ token k key c, call = some (token, k) → token = d.offset + key →
    Slab.get d.localConnections key = some c →
    Outcome (({ conn := c, sent := [] } : Session M).call k)
      (fun s => P ((d.pendingsAfter token k).lookup token) token s.conn ∧ C) E

section CallRule
variable {C : Prop} {call : Option (Token × ConnCall M)} {k : ConnCall M} {env : Env M}

omit [LawfulSlab S] [DecidableEq M] in
/-- The rule, where no call is made. -/
theorem CallRule.of_none (h : CallRule P E C d none) : C := h.quiet nofun

omit [LawfulSlab S] [DecidableEq M] in
/-- The rule, where a call is for a connection that has gone. -/
theorem CallRule.of_dead (h : CallRule P E C d (some (token, k))) (hnone : d.connAt token = none) :
    C := by
  refine h.quiet fun token' k' c hk hc => ?_
  cases hk
  rw [hnone] at hc
  cases hc

omit [LawfulSlab S] [DecidableEq M] in
/-- The rule is about the connections only. -/
theorem CallRule.sameTable (h : CallRule P E C d call) (hsame : SameTable d d') :
    CallRule P E C d' call where
  quiet hq := by
    refine h.quiet fun token k c hk hc => hq token k c hk ?_
    rw [hsame.connAt]
    exact hc
  covers := h.covers
  made token k key c hk htoken hget := by
    rw [hsame.offset] at htoken
    rw [hsame.localConnections] at hget
    have hpend : d'.pendingsAfter token k = d.pendingsAfter token k := by
      unfold pendingsAfter
      rw [hsame.pendings]
    rw [hpend]
    exact h.made token k key c hk htoken hget

omit [DecidableEq M] in
/-- A call on the connection with a token, when one is live. -/
theorem call_outcome (h : d.All P) (hrule : CallRule P E C d (some (token, k)))
    (hpend : d.pendingsAfter token k = d.pendings) :
    Outcome (d.withConnection token fun s => s.call k)
      (fun r => r.1.All P ∧ Kept d r.1 ∧ C) E := by
  refine withConnection_outcome (fun hnone => hrule.covers (hrule.of_dead hnone))
    (fun hnone => ⟨h, Kept.refl d, hrule.of_dead hnone⟩) fun key c htoken hget => ?_
  have hmade := hrule.made token k key c rfl htoken hget
  rw [hpend] at hmade
  subst htoken
  refine hmade.mono (fun s hs => ?_) fun _ => id
  exact ⟨h.set hget (fun _ _ => rfl) hs.1, Kept.set hget s.conn, hs.2⟩

/-- `handle_timeout` calls the closure that it finds. -/
theorem handleTimeout_outcome {mark : M} (repeats : Bool) (h : d.All P)
    (hrule : CallRule P E C d (((if repeats then d.timers2 else d.timers).lookup mark).map
      fun t => (t.2.1, .timer t.2.2 env.acts))) :
    Outcome (d.handleTimeout mark repeats env) (fun r => r.1.All P ∧ Kept d r.1 ∧ C) E := by
  unfold handleTimeout
  cases repeats with
  | false =>
    simp only [Bool.false_eq_true, if_false, Bool.not_false, if_true] at hrule ⊢
    cases hlook : d.timers.lookup mark with
    | none =>
      rw [hlook] at hrule
      exact ⟨h, Kept.refl d, hrule.of_none⟩
    | some t =>
      rw [hlook] at hrule
      -- The closure is taken out of the table before it is called.
      have hsame : SameTable d { d with timers := d.timers.erase mark } :=
        ⟨rfl, rfl, rfl, rfl, rfl⟩
      refine (call_outcome (h.sameTable hsame) (hrule.sameTable hsame) rfl).mono
        (fun r hr => ⟨hr.1, hsame.kept.trans hr.2.1, hr.2.2⟩) fun _ => id
  | true =>
    simp only [if_true, Bool.not_true, Bool.false_eq_true, if_false] at hrule ⊢
    cases hlook : d.timers2.lookup mark with
    | none =>
      rw [hlook] at hrule
      exact ⟨h, Kept.refl d, hrule.of_none⟩
    | some t =>
      rw [hlook] at hrule
      have hsame : SameTable d { d with timers2 := d.timers2.erase mark } :=
        ⟨rfl, rfl, rfl, rfl, rfl⟩
      refine (call_outcome (h.sameTable hsame) (hrule.sameTable hsame) rfl).bind fun r hr => ?_
      -- Afterwards it is put back.
      have hback : SameTable r.1 { r.1 with timers2 := r.1.timers2.insert mark t } :=
        ⟨rfl, rfl, rfl, rfl, rfl⟩
      exact ⟨hr.1.sameTable hback, (hsame.kept.trans hr.2.1).trans hback.kept, hr.2.2⟩

/-- One pass of `process_timers` calls the closure of the timer on its connection. -/
theorem processTimer_outcome {timer : Timer S M} {nowTick : Nat} (h : d.All P)
    (hrule : CallRule P E C d (d.timerCall timer nowTick env)) :
    Outcome (d.processTimer timer nowTick env)
      (fun r => r.dispatcher.All P ∧ Kept d r.dispatcher ∧ C ∧ r.locked = none) E := by
  unfold processTimer
  unfold timerCall at hrule
  have htick := tickTo_fault timer nowTick
  cases hr : timer.tickTo nowTick with
  | error f =>
    rw [hr] at hrule htick
    exact hrule.covers hrule.of_none _ htick
  | ok r =>
    obtain ⟨timer', fired⟩ := r
    rw [hr] at hrule
    cases fired with
    | none => exact ⟨h, Kept.refl d, hrule.of_none, rfl⟩
    | some due =>
      obtain ⟨mark, interval⟩ := due
      by_cases hpos : interval > 0
      · -- The timer repeats: it is scheduled again before its closure runs.
        have htimeout := timeoutMs_fault timer' env.now interval 0 mark
        simp only [ok_bind, hpos, decide_true, if_true] at hrule ⊢
        cases hr₂ : timer'.timeoutMs env.now interval 0 mark with
        | error f =>
          rw [hr₂] at hrule htimeout
          exact hrule.covers hrule.of_none _ htimeout
        | ok r₂ =>
          obtain ⟨timer'', result⟩ := r₂
          rw [hr₂] at hrule
          cases result with
          | error e => exact hrule.covers hrule.of_none _ id -- The `unwrap` panics.
          | ok timeout =>
            have hsame := refreshTimeout_sameTable d mark timeout
            have hrule' := hrule.sameTable hsame
            rw [← refreshTimeout_timers2 d mark timeout] at hrule'
            refine (handleTimeout_outcome true (h.sameTable hsame) hrule').bind
              fun r hr => ?_
            exact ⟨hr.1, hsame.kept.trans hr.2.1, hr.2.2, rfl⟩
      · -- Interval 0: the closure is taken out of `timers` and runs for the last time.
        simp only [ok_bind, hpos, decide_false, Bool.false_eq_true, if_false] at hrule ⊢
        refine (handleTimeout_outcome false h hrule).bind fun r hr => ?_
        exact ⟨hr.1, hr.2.1, hr.2.2, rfl⟩

omit [DecidableEq M] in
/-- An event makes the call `readableCall` when it is readable, and goes on to `handle_write` when
it is writable. -/
theorem event_outcome {readable writable : Bool} (h : d.All P)
    (hrule : CallRule P E C d
      (if readable then (d.readableCall token env).map fun k => (token, k) else none))
    (hwrite : C → ∀ o token (s : Session M) outcomes, P o token s.conn →
      Outcome (s.handleWrite outcomes) (fun s => P o token s.conn) E) :
    Outcome (d.handleIoEvent token readable writable env)
      (fun r => r.1.All P ∧ Kept d r.1 ∧ C) E := by
  have hskip : (readable = true → d.readableCall token env = none) → C := by
    intro hnone
    cases readable with
    | false => exact hrule.of_none
    | true =>
      rw [hnone rfl] at hrule
      exact hrule.of_none
  have hvacant : d.connAt token = none → C := by
    intro hnone
    cases readable with
    | false => exact hrule.of_none
    | true =>
      cases hk : d.readableCall token env with
      | none => exact hskip fun _ => hk
      | some k =>
        rw [hk] at hrule
        exact hrule.of_dead hnone
  -- While the event is handled, only its own connection and token change.
  refine handleIoEvent_outcome
    (P := fun pendings c => P (pendings.lookup token) token c ∧ C ∧
      ∀ t, t ≠ token → pendings.lookup t = d.pendings.lookup t)
    (fun hnone => hrule.covers (hvacant hnone))
    (fun hnone => ⟨h, Kept.refl d, hvacant hnone⟩) ?_ ?_ ?_ ?_
  · rintro key c rfl hget hnone
    exact ⟨h key c hget, hskip hnone, fun _ _ => rfl⟩
  · rintro key c k htoken hget rfl hk
    rw [if_pos rfl, hk] at hrule
    refine (hrule.made token k key c rfl htoken hget).mono
      (fun s hs => ⟨hs.1, hs.2, fun t ht => ?_⟩) fun _ => id
    cases k with
    | established cb msgs as => exact AList.lookup_erase_ne ht
    | _ => rfl
  · intro pendings s hs
    exact (hwrite hs.2.1 _ _ s _ hs.1).mono (fun _ hs' => ⟨hs', hs.2⟩) fun _ => id
  · rintro key c pendings s rfl hget hs
    have hset := Kept.set hget s.conn
    exact ⟨h.set hget hs.2.2 hs.1, ⟨hset.offset, hset.localNotifier, hset.made, hset.len,
      hset.capacity, hset.isSome⟩, hs.2.1⟩

end CallRule

end All

/-- The call of a pass of `process_timers` is that of the closure which it takes from a table. -/
theorem timerCall_eq_some {timer : Timer S M} {nowTick : Nat} {env : Env M} {k : ConnCall M}
    (h : d.timerCall timer nowTick env = some (token, k)) :
    ∃ timer' mark interval timeout f, timer.tickTo nowTick = .ok (timer', some (mark, interval)) ∧
      (if 0 < interval then d.timers2.lookup mark else d.timers.lookup mark)
        = some (timeout, token, f) ∧
      k = .timer f env.acts := by
  unfold timerCall at h
  split at h
  · rename_i timer' mark interval htick
    split at h
    · rename_i hpos
      split at h
      · obtain ⟨⟨timeout, token', f⟩, hlook, heq⟩ := Option.map_eq_some_iff.mp h
        cases heq
        exact ⟨timer', mark, interval, timeout, f, htick, (if_pos hpos).trans hlook, rfl⟩
      · cases h
    · rename_i hpos
      obtain ⟨⟨timeout, token', f⟩, hlook, heq⟩ := Option.map_eq_some_iff.mp h
      cases heq
      exact ⟨timer', mark, interval, timeout, f, htick, (if_neg hpos).trans hlook, rfl⟩
  · cases h

end Dispatcher

end Ruduo
