import Ruduo.Proofs.Connection.Sessions
import Ruduo.Spec.Registration
import Mathlib.Order.BooleanAlgebra.Set

/-!
# `Ruduo.Proofs.Connection.Registration`: interests mirror the registration

`enable_io` and `disable_io` choose between `register`, `reregister` and `deregister` by the
recorded interests. As long as these are the interests of the registration, the poll refuses
nothing (`enableIo_mirrors`, `disableIo_mirrors`), so every call on the connection keeps the
two equal (`mirrors_stable`). An enable adds its kinds to the recorded interests, and a disable
takes its kinds away (`enableIo_unites`, `disableIo_subtracts`).
-/

set_option autoImplicit false

namespace Ruduo

open Lib (Outcome Run Slab LawfulSlab)

/-! ### Interests as sets -/

/-- Without an interest there are no readiness kinds. -/
theorem kinds_none : kinds none = ∅ := by
  ext k
  simp [kinds]

/-- The readiness kinds of an interest are its bits. -/
theorem mem_kinds_some {i : Interest} {k : Fin 8} :
    k ∈ kinds (some i) ↔ i.bits.getLsbD k.val = true := by
  simp [kinds]

/-- `Interest::add` is the union. -/
theorem kinds_add (i j : Interest) : kinds (some (i.add j)) = kinds (some i) ∪ kinds (some j) := by
  ext k
  simp [mem_kinds_some, Interest.add]

/-- `Interest::remove` is the difference. -/
theorem kinds_remove (i j : Interest) : kinds (i.remove j) = kinds (some i) \ kinds (some j) := by
  ext k
  have hbit : (i.bits &&& ~~~j.bits).getLsbD k.val = true
      ↔ k ∈ kinds (some i) \ kinds (some j) := by
    simp [mem_kinds_some]
  unfold Interest.remove
  split
  · rw [mem_kinds_some, hbit]
  · -- Nothing is left: no bit of the difference is set.
    rename_i hzero
    rw [ne_eq, not_not] at hzero
    rw [← hbit, hzero, kinds_none]
    simp

/-- One event more is applied last. -/
theorem interestsOf_append (log : List ConnEvent) (e : ConnEvent) :
    interestsOf (log ++ [e]) = applyEvent (interestsOf log) e := by
  simp [interestsOf]

/-! ### The operations -/

/-- `enable_io` goes through, and keeps the mirror. -/
theorem enableIo_mirrors {c : TcpConnection} (h : Mirrors c) (mode : Interest) :
    Outcome (c.enableIo mode) Mirrors (fun _ => False) := by
  have hreg := h.registered
  have hkinds := h.kinds_eq
  unfold TcpConnection.enableIo TcpConnection.record
  cases hi : c.interests with
  | none =>
    -- Without interests the stream is unknown to the poll, which accepts it.
    rw [hi] at hreg hkinds
    simp only [← hreg, Registry.register, expect, ok_bind, Outcome.ok]
    refine ⟨rfl, ?_⟩
    rw [interestsOf_append, ← hkinds, applyEvent, kinds_none, Set.empty_union]
  | some i =>
    rw [hi] at hreg hkinds
    simp only [← hreg, Registry.reregister, expect, ok_bind, Outcome.ok]
    refine ⟨rfl, ?_⟩
    rw [interestsOf_append, ← hkinds, applyEvent, kinds_add]

/-- `disable_io` goes through, and keeps the mirror. -/
theorem disableIo_mirrors {c : TcpConnection} (h : Mirrors c) (mode : Interest) :
    Outcome (c.disableIo mode) Mirrors (fun _ => False) := by
  have hreg := h.registered
  have hkinds := h.kinds_eq
  unfold TcpConnection.disableIo TcpConnection.record
  cases hi : c.interests with
  | none =>
    -- There is nothing to disable.
    rw [hi] at hreg hkinds
    refine ⟨hreg, ?_⟩
    show kinds none = interestsOf (c.log ++ [.disabled mode])
    rw [interestsOf_append, ← hkinds, applyEvent, kinds_none, Set.empty_sdiff]
  | some i =>
    rw [hi] at hreg hkinds
    have hset : kinds (i.remove mode) = interestsOf (c.log ++ [.disabled mode]) := by
      rw [interestsOf_append, ← hkinds, applyEvent, kinds_remove]
    -- The poll knows the stream, so it accepts the deregistration and the reregistration.
    cases hm : i.remove mode with
    | none =>
      rw [hm] at hset
      simp only [hm, ← hreg, Registry.deregister, expect, ok_bind, Outcome.ok]
      exact ⟨rfl, hset⟩
    | some y =>
      rw [hm] at hset
      simp only [hm, ← hreg, Registry.reregister, expect, ok_bind, Outcome.ok]
      exact ⟨rfl, hset⟩

/-- The mirror is kept by everything that happens to a connection, and nothing panics over the
registration. -/
theorem mirrors_stable :
    Stable Mirrors (fun f => ¬ f.IsRegistration)
      (fun e => ∀ mode, e ≠ .enabled mode ∧ e ≠ .disabled mode) where
  fault _ hf := hf
  enableIo c mode h := (enableIo_mirrors h mode).mono (fun _ => id) fun _ => False.elim
  disableIo c mode h := (disableIo_mirrors h mode).mono (fun _ => id) fun _ => False.elim
  record c e he h := by
    refine ⟨h.registered, ?_⟩
    show kinds c.interests = interestsOf (c.log ++ [e])
    rw [interestsOf_append, h.kinds_eq]
    -- Only enables and disables change what the log leaves.
    cases e with
    | enabled mode => exact absurd rfl (he mode).1
    | disabled mode => exact absurd rfl (he mode).2
    | _ => rfl
  input _ _ h := ⟨h.registered, h.kinds_eq⟩
  output _ _ h := ⟨h.registered, h.kinds_eq⟩
  accepted _ _ h := ⟨h.registered, h.kinds_eq⟩
  shutdowns _ _ h := ⟨h.registered, h.kinds_eq⟩

/-! ### Calls and runs -/

section
variable {P : TcpConnection → Prop} {E : Fault → Prop} {A : ConnEvent → Prop} {M : Type}

/-- What all operations keep, every call keeps. -/
theorem Stable.call (h : Stable P E A) {l : ConnCall M} (hA : ∀ e, l.Records e → A e)
    {s : Session M} (hs : P s.conn) : Outcome (s.call l) (fun s => P s.conn) E := by
  cases l with
  | enableIo mode => exact h.sessionEnableIo hs mode
  | disableIo mode => exact h.sessionDisableIo hs mode
  | send data outcomes => exact h.send hs data outcomes
  | handleRead outcomes as closing =>
    exact h.handleRead hs outcomes closing (hA _ (Or.inl rfl)) (hA _ (Or.inr (Or.inl rfl)))
      fun s hs => h.acts as _ (h.record _ _ (hA _ (Or.inr (Or.inr rfl))) hs)
  | handleWrite outcomes => exact h.handleWrite hs outcomes
  | onWriteComplete as => exact h.acts as _ (h.record _ _ (hA _ rfl) hs)
  | shutdownMessage how outcome =>
    exact Outcome.ite (fun _ => (h.shutdown hs how outcome).bind fun _ hc => hc) fun _ => hs
  | context f msgs => exact h.record _ _ (hA _ rfl) hs
  | timer f as => exact h.acts as _ (h.record _ _ (hA _ rfl) hs)
  | established cb msgs as =>
    exact h.acts as _ (h.record _ _ (hA _ (Or.inr rfl)) (h.record _ _ (hA _ (Or.inl rfl)) hs))

/-- A call records enables and disables only through `enable_io` and `disable_io`. -/
theorem ConnCall.Records.ne {l : ConnCall M} {e : ConnEvent} (h : l.Records e) (mode : Interest) :
    e ≠ .enabled mode ∧ e ≠ .disabled mode := by
  cases l with
  | handleRead outcomes as closing => rcases h with rfl | rfl | rfl <;> simp
  | established cb msgs as => rcases h with rfl | rfl <;> simp
  | onWriteComplete as | context f msgs | timer f as =>
    obtain rfl := h
    simp
  | _ => exact h.elim

/-- A call on a connection that mirrors its registration. -/
theorem call_mirrors {s : Session M} (hs : Mirrors s.conn) (l : ConnCall M) :
    Outcome (s.call l) (fun s => Mirrors s.conn) (fun f => ¬ f.IsRegistration) :=
  mirrors_stable.call (fun _ he => he.ne) hs

/-- An enable goes through, and adds its kinds to the recorded interests. -/
theorem enableIo_unites {s : Session M} (hs : Mirrors s.conn) (mode : Interest) :
    ∃ s', s.call (.enableIo mode) = .ok s' ∧
      kinds s'.conn.interests = kinds s.conn.interests ∪ kinds (some mode) := by
  have hmirrors := enableIo_mirrors hs mode
  cases hc : s.conn.enableIo mode with
  | error f => exact (hmirrors.of_error hc).elim
  | ok c =>
    refine ⟨{ s with conn := c }, by simp only [Session.call, Session.enableIo, hc, ok_bind], ?_⟩
    obtain ⟨hinterests, -⟩ := TcpConnection.enableIo_interests hc
    show kinds c.interests = _
    rw [hinterests]
    cases s.conn.interests with
    | none => rw [Option.elim_none, kinds_none, Set.empty_union]
    | some i => rw [Option.elim_some, kinds_add]

/-- A disable goes through, and takes its kinds from the recorded interests. -/
theorem disableIo_subtracts {s : Session M} (hs : Mirrors s.conn) (mode : Interest) :
    ∃ s', s.call (.disableIo mode) = .ok s' ∧
      kinds s'.conn.interests = kinds s.conn.interests \ kinds (some mode) := by
  have hmirrors := disableIo_mirrors hs mode
  cases hc : s.conn.disableIo mode with
  | error f => exact (hmirrors.of_error hc).elim
  | ok c =>
    refine ⟨{ s with conn := c }, by simp only [Session.call, Session.disableIo, hc, ok_bind], ?_⟩
    obtain ⟨hinterests, -⟩ := TcpConnection.disableIo_interests hc
    show kinds c.interests = _
    rw [hinterests]
    cases s.conn.interests with
    | none => rw [Option.bind_none, kinds_none, Set.empty_sdiff]
    | some i => rw [Option.bind_some, kinds_remove]

end

variable {S : Type → Type} [Slab S] [LawfulSlab S] {M : Type} [DecidableEq M]

omit [LawfulSlab S] [DecidableEq M] in
/-- Shutting a rejected stream down does not register it. -/
theorem rejectIfFull_registered (d : Dispatcher S M) (stream : TcpStream) {p : Panic}
    (hp : ¬ (Fault.panicked p).IsRegistration) (env : Env M) :
    Outcome (d.rejectIfFull stream p env) (fun s => s.registered = stream.registered)
      (fun f => ¬ f.IsRegistration) := by
  refine Outcome.ite (fun _ => ?_) fun _ => rfl
  cases hs : env.shutdown with
  | ok u => exact rfl
  | error e => exact hp

omit [DecidableEq M] [LawfulSlab S] in
/-- A connection made on an unregistered stream mirrors its registration. -/
theorem make_mirrors (id : Nat) (token : Token) {stream : TcpStream}
    (h : stream.registered = none) :
    Outcome (TcpConnection.make id token stream) Mirrors (fun f => ¬ f.IsRegistration) := by
  show Mirrors _
  exact ⟨h.symm, kinds_none⟩

omit [DecidableEq M] in
/-- `add_connection` does not panic over the registration, and the connection that it adds
mirrors its registration. -/
theorem addConnection_mirrors (d : Dispatcher S M) {stream : TcpStream}
    (hstream : stream.registered = none) (peerAddr : SocketAddr) (cb : Closure) (env : Env M) :
    Outcome (d.addConnection stream peerAddr cb env)
      (fun r => ∀ c, Slab.get r.1.localConnections (Slab.vacantKey d.localConnections) = some c →
        Mirrors c)
      (fun f => ¬ f.IsRegistration) := by
  refine (rejectIfFull_registered d stream id env).bind fun stream' hstream' => ?_
  refine Outcome.bind (Q := fun _ => True) ?_ fun token _ => ?_
  · unfold u64Add
    split
    · trivial
    · exact id
  refine (make_mirrors d.made token (hstream'.trans hstream)).bind fun c hc => ?_
  have hsetup : Mirrors ((c.record (.setup cb)).record .established) :=
    mirrors_stable.record _ _ (by simp) (mirrors_stable.record _ _ (by simp) hc)
  refine (mirrors_stable.acts env.acts _ hsetup).bind fun s hs => ?_
  intro c' hget
  rw [Slab.get_insert_self] at hget
  obtain rfl := Option.some.inj hget
  exact hs

omit [DecidableEq M] in
/-- **Recorded interest mirrors the poll registration.** Take a connection that
`add_connection` accepted on an unregistered stream, whatever its callbacks did, and any run of
calls on it. The recorded interests are those of the registration, and they are what the
enables and disables leave. An enable adds its kinds to them, a disable takes its kinds away,
and no call panics because the poll refuses a registration. -/
theorem interests_mirror_registration (d : Dispatcher S M) {stream : TcpStream}
    (hstream : stream.registered = none) (peerAddr : SocketAddr) (cb : Closure) (env : Env M) :
    (∀ f, d.addConnection stream peerAddr cb env = .error f → ¬ f.IsRegistration) ∧
    ∀ d' sent l c, d.addConnection stream peerAddr cb env = .ok (d', sent, l) →
      Slab.get d'.localConnections (Slab.vacantKey d.localConnections) = some c →
      ∀ ls (s : Session M), Run Session.CallStep { conn := c, sent := [] } ls s →
        s.conn.interests = s.conn.io.registered ∧
        kinds s.conn.interests = interestsOf s.conn.log ∧
        (∀ mode, ∃ s', s.call (.enableIo mode) = .ok s' ∧
          kinds s'.conn.interests = kinds s.conn.interests ∪ kinds (some mode)) ∧
        (∀ mode, ∃ s', s.call (.disableIo mode) = .ok s' ∧
          kinds s'.conn.interests = kinds s.conn.interests \ kinds (some mode)) ∧
        ∀ l f, s.call l = .error f → ¬ f.IsRegistration := by
  have hadd := addConnection_mirrors d hstream peerAddr cb env
  refine ⟨fun f hf => hadd.of_error hf, ?_⟩
  intro d' sent l c hok hget ls s hrun
  have hs : Mirrors s.conn := by
    refine hrun.invariant (P := fun s => Mirrors s.conn) ?_ (hadd.of_ok hok c hget)
    intro s l s' hs hstep
    exact (call_mirrors hs l).of_ok hstep
  exact ⟨hs.registered, hs.kinds_eq, enableIo_unites hs, disableIo_subtracts hs,
    fun l f hf => (call_mirrors hs l).of_error hf⟩

section Example

/-- Nothing happens outside during a call. -/
def quietEnv : Env String where
  now := 0
  peerAddr := .ok 7
  shutdown := .ok ()
  reads := []
  writes := []
  acts := []
  msgs := []

/-- A connection accepted with a callback that starts to receive. -/
def receivingConn : TcpConnection where
  id := 0
  token := 0
  io := { registered := some .READABLE, accepted := [], shutdowns := [] }
  input := { data := List.replicate 1032 0, readIdx := 8, writeIdx := 8 }
  output := { data := List.replicate 1032 0, readIdx := 8, writeIdx := 8 }
  interests := some .READABLE
  log := [.setup 0, .established, .enabled .READABLE]

/-- A send in two writes, and then a disable of what was enabled. -/
theorem interests_mirror_registration_in_turn :
    ∃ d' sent l, ∃ s : Session String,
      (Dispatcher.new 4 0 0 : Dispatcher Lib.FreeListSlab String).addConnection .fresh 7 0
        { quietEnv with acts := [.enableIo .READABLE] } = .ok (d', sent, l) ∧
      Run Session.CallStep { conn := receivingConn, sent := [] }
        [.send [1, 2] [.ok 1, .ok 1], .disableIo .READABLE] s ∧
      s.conn.interests = s.conn.io.registered ∧
      kinds s.conn.interests = interestsOf s.conn.log ∧
      (∀ mode, ∃ s', s.call (.enableIo mode) = .ok s' ∧
        kinds s'.conn.interests = kinds s.conn.interests ∪ kinds (some mode)) ∧
      (∀ mode, ∃ s', s.call (.disableIo mode) = .ok s' ∧
        kinds s'.conn.interests = kinds s.conn.interests \ kinds (some mode)) ∧
      ∀ l f, s.call l = .error f → ¬ f.IsRegistration := by
  have hfresh : TcpStream.fresh.registered = none := rfl
  have hadded := (interests_mirror_registration
    (Dispatcher.new 4 0 0 : Dispatcher Lib.FreeListSlab String) hfresh 7 0
    { quietEnv with acts := [.enableIo .READABLE] }).2
  have hrun : Run Session.CallStep ({ conn := receivingConn, sent := [] } : Session String)
      [.send [1, 2] [.ok 1, .ok 1], .disableIo .READABLE] _ := .cons rfl (.cons rfl (.nil _))
  exact ⟨_, _, _, _, rfl, hrun, hadded _ _ _ receivingConn rfl rfl _ _ hrun⟩

end Example

end Ruduo
