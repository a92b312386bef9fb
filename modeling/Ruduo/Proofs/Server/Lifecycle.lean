import Ruduo.Proofs.Connection.OutgoingStream
import Ruduo.Proofs.Server.Steps

/-!
# `Ruduo.Proofs.Server.Lifecycle`: which steps break the lifecycle

`add_connecting` registers the stream, and leaves the recorded interests empty. So
`enable_io` registers the stream a second time, and the poll refuses (`Dormant.enableIo`).
`Dormant.call` says for every call exactly when it comes to that, and `step_registration` for
every step of a worker.

The order of the setup callback, `on_established` and `handle_read` does not depend on the
registration (`step_life`). It does depend on `pendings` holding nothing for the token of an
established connection.
-/

set_option autoImplicit false

namespace Ruduo

open Lib (Outcome Run Slab LawfulSlab)

/-! ### Calls on a connection that arrived still connecting -/

/-- Registered with the poll, without interests, and with nothing to write. -/
structure Dormant (c : TcpConnection) : Prop where
  interests : c.interests = none
  registered : c.io.registered.isSome
  output : c.output.Holds []

namespace Dormant
variable {c : TcpConnection} {M : Type} {s : Session M}

/-- `enable_io` panics: the stream is already registered. -/
theorem enableIo (hinterests : c.interests = none) (hregistered : c.io.registered.isSome)
    (mode : Interest) : c.enableIo mode = .error (.panicked (.register c.token)) := by
  obtain ⟨i, hi⟩ := Option.isSome_iff_exists.mp hregistered
  simp only [TcpConnection.enableIo, TcpConnection.record, hinterests, Registry.register, hi,
    expect, error_bind]

/-- So does a `send` that falls back on the output buffer. -/
theorem appendEnable (h : Dormant c) (data : List UInt8) (sent : List (TcpConnMessage M)) :
    (c.appendOutput data >>= fun conn => ({ conn, sent } : Session M).enableIo .WRITABLE)
      = .error (.panicked (.register c.token)) := by
  obtain ⟨output, happ, -⟩ := Session.appendOutput_ok h.output data
  have hpanic : ({ c with output } : TcpConnection).enableIo .WRITABLE
      = .error (.panicked (.register c.token)) :=
    @enableIo { c with output } h.interests h.registered .WRITABLE
  rw [happ, ok_bind, Session.enableIo, hpanic, error_bind]

/-- The other operations keep it so. -/
theorem quiet : Quiet Dormant (fun f => ¬ f.IsRegistration) (fun _ => True) where
  fault _ hf := hf
  disableIo c mode h := by
    simp only [TcpConnection.disableIo, TcpConnection.record, h.interests, Outcome.ok]
    exact ⟨rfl, h.registered, h.output⟩
  record _ _ _ h := ⟨h.interests, h.registered, h.output⟩
  input _ _ h := ⟨h.interests, h.registered, h.output⟩
  accepted _ _ h := ⟨h.interests, h.registered, h.output⟩
  shutdowns _ _ h := ⟨h.interests, h.registered, h.output⟩

/-- The loop of `send` panics over the registration when it falls back, and only then. -/
theorem sendLoop (data : List UInt8) (outcomes : List (Except IoError Nat)) :
    ∀ {written : Nat} {s : Session M}, written ≤ data.length → Dormant s.conn →
      Outcome (Session.sendLoop data written outcomes s)
        (fun s' => Dormant s'.conn ∧ ¬ fallsBack (data.length - written) outcomes = true)
        (fun f => f.IsRegistration ↔ fallsBack (data.length - written) outcomes = true) := by
  induction outcomes with
  | nil => intro written s _ _; exact ⟨False.elim, nofun⟩
  | cons outcome outcomes ih =>
    intro written s hle hs
    have hbuf : sliceRange data written data.length = .ok (data.drop written) := by
      rw [sliceRange, if_pos ⟨hle, Nat.le_refl _⟩, List.take_of_length_le (by simp)]
    have hlen : (data.drop written).length = data.length - written := List.length_drop
    have hw := quiet.doWriteWith hs (data.drop written) outcome
    rw [Session.sendLoop, hbuf, ok_bind]
    cases outcome with
    | ok n =>
      simp only [TcpConnection.doWriteWith, TcpStream.write, hlen] at hw ⊢
      refine Outcome.ite (fun hall => ?_) fun hpart => ?_
      · refine ⟨hw, ?_⟩
        simp only [fallsBack, Bool.and_eq_true, decide_eq_true_eq]
        omega
      · have hmin : min n (data.length - written) = n := by omega
        have hn : n < data.length - written := by omega
        -- A part was written: `fallsBack` goes on with the rest.
        rw [hmin, fallsBack, decide_eq_true hn, Bool.true_and, Nat.sub_sub]
        exact ih (by omega) hw
    | error e =>
      simp only [TcpConnection.doWriteWith, TcpStream.write] at hw ⊢
      refine Outcome.ite (fun _ => ?_) fun _ => ?_
      · rw [ok_bind, appendEnable hw]
        exact ⟨fun _ => rfl, fun _ => trivial⟩
      · rw [appendEnable hw]
        exact ⟨fun _ => rfl, fun _ => trivial⟩

/-- `send` on a connection that still connects panics over the registration exactly when it has to
fall back to `enable_io`. -/
theorem send (hs : Dormant s.conn) (data : List UInt8) (outcomes : List (Except IoError Nat)) :
    Outcome (s.send data outcomes)
      (fun s' => Dormant s'.conn ∧ ¬ fallsBack data.length outcomes = true)
      (fun f => f.IsRegistration ↔ fallsBack data.length outcomes = true) := by
  have hreading : isWriting s.conn.interests = false := by
    rw [hs.interests]
    rfl
  have hempty : s.conn.output.readableBytes = .ok 0 := hs.output.readableBytes
  simp only [Session.send, hreading, hempty, Bool.not_false, if_true, ok_bind]
  exact sendLoop data outcomes (Nat.zero_le _) hs

/-- An act that does not enable interests does not panic over the registration. -/
theorem act (hs : Dormant s.conn) (a : Act M) :
    Outcome (s.act a) (fun s' => Dormant s'.conn ∧ ¬ a.enables = true)
      (fun f => f.IsRegistration ↔ a.enables = true) := by
  -- What never comes to `enable_io` only has to keep the connection dormant.
  have hno : ∀ {x : Except Fault (Session M)}, a.enables = false →
      Outcome x (fun s' => Dormant s'.conn) (fun f => ¬ f.IsRegistration) →
      Outcome x (fun s' => Dormant s'.conn ∧ ¬ a.enables = true)
        (fun f => f.IsRegistration ↔ a.enables = true) := by
    intro x ha hx
    rw [ha]
    exact hx.mono (fun _ h => ⟨h, nofun⟩) fun f h => ⟨fun h' => absurd h' h, nofun⟩
  cases a with
  | enableIo mode =>
    have hpanic := enableIo hs.interests hs.registered mode
    simp only [Session.act, Session.enableIo, hpanic, error_bind]
    exact ⟨fun _ => rfl, fun _ => trivial⟩
  | send data outcomes => exact hs.send data outcomes
  | disableIo mode => exact hno rfl (quiet.sessionDisableIo hs mode)
  | notify msg => exact hno rfl hs
  | retrieve size =>
    exact hno rfl ((retrieve_fault _ _).bind fun b _ => quiet.input s.conn b hs)
  | shutdown outcome =>
    have hshut : Outcome (s.conn.shutdown outcome) Dormant (fun f => ¬ f.IsRegistration) :=
      (quiet.shutdown hs .write outcome).bind fun _ hc => hc
    exact hno rfl (hshut.bind fun _ hc => hc)

/-- A callback panics over the registration when it gets to a call of `enable_io`. -/
theorem acts (as : List (Act M)) : ∀ s : Session M, Dormant s.conn →
    Outcome (Session.acts as s) (fun s' => Dormant s'.conn ∧ ¬ s.ActsEnable as)
      (fun f => f.IsRegistration ↔ s.ActsEnable as) := by
  induction as with
  | nil => intro s hs; exact ⟨hs, id⟩
  | cons a as ih =>
    intro s hs
    have hact := hs.act a
    unfold Session.acts Session.ActsEnable
    cases hr : s.act a with
    | error f =>
      rw [hr] at hact
      have hiff : f.IsRegistration ↔ a.enables = true := hact
      show f.IsRegistration ↔ _
      rw [hiff]
      exact ⟨Or.inl, fun h => h.resolve_right fun ⟨s', hs', _⟩ => by cases hs'⟩
    | ok s' =>
      rw [hr] at hact
      -- The act went through, so it was not `enable_io`, and it is up to the rest.
      have hrest : (a.enables = true ∨ ∃ s'', (.ok s' : Except Fault (Session M)) = .ok s'' ∧
          s''.ActsEnable as) ↔ s'.ActsEnable as := by
        constructor
        · rintro (h | ⟨s'', hs'', h⟩)
          · exact absurd h hact.2
          · cases hs''
            exact h
        · exact fun h => Or.inr ⟨s', rfl, h⟩
      rw [ok_bind, hrest]
      exact ih s' hact.1

/-- `handle_read` comes to `enable_io` through `on_read_complete` only. -/
theorem handleReadLoop (as : List (Act M)) (closing : List (TcpConnMessage M))
    (outcomes : List (Except IoError (List UInt8))) : ∀ s : Session M, Dormant s.conn →
    Outcome (Session.handleReadLoop as closing outcomes s)
      (fun s' => Dormant s'.conn ∧ ¬ s.ReadsEnable as outcomes)
      (fun f => f.IsRegistration ↔ s.ReadsEnable as outcomes) := by
  induction outcomes with
  | nil => intro s _; exact ⟨False.elim, False.elim⟩
  | cons outcome outcomes ih =>
    intro s hs
    cases outcome with
    | ok chunk =>
      have happ := append_fault s.conn.input (chunk.take K_READ_BUF_SIZE)
      simp only [Session.handleReadLoop, Session.ReadsEnable, TcpConnection.doRead]
      cases hr : s.conn.input.append (chunk.take K_READ_BUF_SIZE) with
      | error f =>
        -- `append` faults: the loop stops before it comes to `enable_io`.
        rw [hr] at happ
        refine ⟨fun h => absurd h happ, ?_⟩
        rintro ⟨-, input, hinput, -⟩
        cases hinput
      | ok input =>
        have hd : Dormant { s.conn with input } := quiet.input s.conn input hs
        have hlen : 0 < (chunk.take K_READ_BUF_SIZE).length ↔ chunk ≠ [] := by
          rw [List.length_pos_iff, ne_eq, List.take_eq_nil_iff]
          simp [K_READ_BUF_SIZE]
        rw [ok_bind, ok_bind]
        simp only [Except.ok.injEq, exists_eq_left']
        refine Outcome.ite (fun hpos => ?_) fun hzero => ?_
        · -- Bytes were read: the loop goes on.
          have hne := hlen.mp hpos
          refine (ih _ hd).mono (fun s' h => ⟨h.1, fun h' => h.2 h'.2⟩) fun f h => ?_
          rw [h]
          exact ⟨fun h' => ⟨hne, h'⟩, fun h' => h'.2⟩
        · -- The end of the stream: the connection is closed.
          have hend : ¬ chunk ≠ [] := fun h => hzero (hlen.mpr h)
          refine Outcome.bind ((quiet.sessionDisableIo hd _).mono (fun _ => id) fun f h =>
            ⟨fun h' => absurd h' h, fun h' => absurd h'.1 hend⟩) fun s' hs' => ?_
          exact ⟨quiet.record _ _ trivial hs', fun h' => hend h'.1⟩
    | error e =>
      -- `WouldBlock` ends the loop with `on_read_complete`, any other error ends it without.
      unfold Session.handleReadLoop Session.ReadsEnable TcpConnection.doRead
      rw [ok_bind]
      refine Outcome.ite (fun hblock => ?_) fun hother => ⟨hs, fun h => hother h.1⟩
      refine (acts as _ (quiet.record _ _ trivial hs)).mono
        (fun s' h => ⟨h.1, fun h' => h.2 h'.2⟩) fun f h => ?_
      rw [h]
      exact ⟨fun h' => ⟨hblock, h'⟩, fun h' => h'.2⟩

/-- Every call panics over the registration exactly when it comes to a call of `enable_io`. -/
theorem call (hs : Dormant s.conn) (k : ConnCall M) :
    Outcome (s.call k) (fun s' => Dormant s'.conn ∧ ¬ s.Enables k)
      (fun f => f.IsRegistration ↔ s.Enables k) := by
  -- What never comes to `enable_io` only has to keep the connection dormant.
  have hno : ∀ {x : Except Fault (Session M)},
      Outcome x (fun s' => Dormant s'.conn) (fun f => ¬ f.IsRegistration) →
      Outcome x (fun s' => Dormant s'.conn ∧ ¬ False) (fun f => f.IsRegistration ↔ False) :=
    fun hx => hx.mono (fun _ h => ⟨h, id⟩) fun f h => ⟨h, False.elim⟩
  cases k with
  | enableIo mode =>
    have hpanic := enableIo hs.interests hs.registered mode
    simp only [Session.call, Session.enableIo, hpanic, error_bind]
    exact ⟨fun _ => trivial, fun _ => trivial⟩
  | send data outcomes => exact hs.send data outcomes
  | handleRead outcomes as closing =>
    exact handleReadLoop as closing outcomes _ (quiet.record _ _ trivial hs)
  | onWriteComplete as => exact acts as _ (quiet.record _ _ trivial hs)
  | timer f as => exact acts as _ (quiet.record _ _ trivial hs)
  | established cb msgs as =>
    exact acts as _ (quiet.record _ _ trivial (quiet.record _ _ trivial hs))
  | disableIo mode => exact hno (quiet.sessionDisableIo hs mode)
  | handleWrite outcomes =>
    have hwriting : isWriting s.conn.interests = false := by
      rw [hs.interests]
      rfl
    simp only [Session.call, Session.handleWrite, hwriting, Bool.false_eq_true, if_false]
    exact ⟨hs, id⟩
  | shutdownMessage how outcome =>
    exact hno (Outcome.ite (fun _ => (quiet.shutdown hs how outcome).bind fun _ hc => hc)
      fun _ => hs)
  | context f msgs => exact ⟨quiet.record _ _ trivial hs, id⟩

end Dormant

/-! ### What happened to a connection -/

/-- A waiting connection goes on waiting through everything but its setup and its reads. -/
theorem waiting_stable (cb : Closure) :
    Stable (fun c => Waiting cb c.log) (fun _ => True) (fun e => e.isMilestone = false) := by
  refine stable_log (P := Waiting cb) ?_ (fun _ => rfl) fun _ => rfl
  rintro log e he ⟨events, rfl, hevents⟩
  refine ⟨events ++ [e], by rw [List.cons_append], fun e' he' => ?_⟩
  rcases List.mem_append.mp he' with h | h
  · exact hevents e' h
  · rw [List.mem_singleton.mp h]
    exact he

/-- An established connection stays established through everything but another setup. -/
theorem established_stable (cb : Closure) :
    Stable (fun c => Established cb c.log) (fun _ => True) (fun e => e.isBirth = false) := by
  refine stable_log (P := Established cb) ?_ (fun _ => rfl) fun _ => rfl
  rintro log e he ⟨before, after, rfl, hbefore, hafter⟩
  refine ⟨before, after ++ [e], by simp, hbefore, fun e' he' => ?_⟩
  rcases List.mem_append.mp he' with h | h
  · exact hafter e' h
  · rw [List.mem_singleton.mp h]
    exact he

/-- How a connection arrived does not change. -/
theorem arrivedConnecting_stable :
    Stable TcpConnection.ArrivedConnecting (fun _ => True) (fun _ => True) := by
  refine stable_log (P := fun log => ∃ cb, .connecting cb ∈ log) (A := fun _ => True) ?_
    (fun _ => trivial) fun _ => trivial
  rintro log e - ⟨cb, hmem⟩
  exact ⟨cb, List.mem_append_left _ hmem⟩

/-- Nothing turns a connection that arrived connected into one that arrived connecting. -/
theorem arrivedConnected_stable :
    Stable (fun c => ¬ c.ArrivedConnecting) (fun _ => True)
      (fun e => ∀ cb, e ≠ .connecting cb) := by
  refine stable_log (P := fun log => ¬ ∃ cb, .connecting cb ∈ log)
    (A := fun e => ∀ cb, e ≠ .connecting cb) ?_ (fun _ _ => nofun) fun _ _ => nofun
  rintro log e he hnone ⟨cb, hmem⟩
  rcases List.mem_append.mp hmem with h | h
  · exact hnone ⟨cb, h⟩
  · exact he cb (List.mem_singleton.mp h).symm

/-- A call records no arrival of a connecting stream. -/
theorem ConnCall.Records.ne_connecting {M : Type} {k : ConnCall M} {e : ConnEvent}
    (h : k.Records e) (cb : Closure) : e ≠ .connecting cb := by
  cases k with
  | handleRead outcomes as closing => rcases h with rfl | rfl | rfl <;> simp
  | established cb msgs as => rcases h with rfl | rfl <;> simp
  | onWriteComplete as | context f msgs | timer f as =>
    obtain rfl := h
    simp
  | _ => exact h.elim

/-! ### The registration -/

/-- The registration is what the recorded interests say, or what `add_connecting` left. -/
def Consistent (c : TcpConnection) : Prop :=
  (c.ArrivedConnecting ∧ Dormant c) ∨ (¬ c.ArrivedConnecting ∧ Mirrors c)

section
variable {M : Type} {s : Session M}

/-- A call faults over the registration exactly when it enables a connection that arrived
connecting. -/
theorem Consistent.call (hs : Consistent s.conn) (k : ConnCall M) {A : Prop}
    (hA : A ↔ s.conn.ArrivedConnecting ∧ s.Enables k) :
    Outcome (s.call k) (fun s' => Consistent s'.conn ∧ ¬ A) (fun f => f.IsRegistration ↔ A) := by
  rcases hs with ⟨harrived, hs⟩ | ⟨harrived, hs⟩
  · have hiff : A ↔ s.Enables k := hA.trans (and_iff_right harrived)
    rw [hiff]
    have hkept := arrivedConnecting_stable.call (fun _ _ => trivial) harrived (l := k)
    exact ((hs.call k).and hkept).mono (fun s' h => ⟨Or.inl ⟨h.2, h.1.1⟩, h.1.2⟩) fun _ h => h.1
  · have hnot : ¬ A := fun h => harrived (hA.mp h).1
    have hkept := arrivedConnected_stable.call (fun _ he => he.ne_connecting) harrived (l := k)
    exact ((call_mirrors hs k).and hkept).mono (fun s' h => ⟨Or.inr ⟨h.2, h.1⟩, hnot⟩)
      fun f h => ⟨fun h' => absurd h' h.1, fun h' => absurd h' hnot⟩

/-- `handle_write` and `disable_io` never come to a call of `enable_io`. -/
theorem Consistent.handleWrite (hs : Consistent s.conn) (outcomes : List (Except IoError Nat)) :
    Outcome (s.handleWrite outcomes) (fun s' => Consistent s'.conn)
      (fun f => ¬ f.IsRegistration) :=
  (hs.call (.handleWrite outcomes) (A := False) ⟨False.elim, fun h => h.2⟩).mono
    (fun _ h => h.1) fun _ h => h.mp

/-- `disable_io` keeps the record and the registration consistent. -/
theorem Consistent.disableIo {c : TcpConnection} (hc : Consistent c) (mode : Interest) :
    Outcome (c.disableIo mode) Consistent (fun f => ¬ f.IsRegistration) := by
  rcases hc with ⟨harrived, hc⟩ | ⟨harrived, hc⟩
  · exact ((Dormant.quiet.disableIo c mode hc).and
      (arrivedConnecting_stable.disableIo c mode harrived)).mono
      (fun _ h => Or.inl ⟨h.2, h.1⟩) fun _ h => h.1
  · exact ((mirrors_stable.disableIo c mode hc).and
      (arrivedConnected_stable.disableIo c mode harrived)).mono
      (fun _ h => Or.inr ⟨h.2, h.1⟩) fun _ h => h.1

end

section Worker
variable {S : Type → Type} [Slab S] [LawfulSlab S] {M : Type} [DecidableEq M]
variable {w w' : Worker S M} {l : WorkerLabel M}

namespace Worker

/-- A step panics over the registration exactly when it calls `enable_io` on a connection that
arrived still connecting. -/
theorem step_registration (h : w.dispatcher.All fun _ _ c => Consistent c)
    (hfresh : w.StreamsFresh l) {x : Except Fault (Worker S M)} (hx : w.exec l = some x) :
    Outcome x (fun w' => w'.dispatcher.All (fun _ _ c => Consistent c) ∧ ¬ w.Enables l)
      (fun f => f.IsRegistration ↔ w.Enables l) := by
  have hcovers : ¬ w.Enables l → Dispatcher.Covers fun f => f.IsRegistration ↔ w.Enables l :=
    fun hnot f hf => ⟨fun h => absurd h hf, fun h => absurd h hnot⟩
  by_cases hmoves : w.Moves l
  · have hnot : ¬ w.Enables l := by
      rintro ⟨token, k, c, hk, -⟩
      rw [callOf_moves hmoves] at hk
      cases hk
    obtain ⟨env, msg, target, queue, rfl, hqueue, hmsg, rfl⟩ := exec_moves hmoves hx
    have hstream : msg.StreamFresh := by
      unfold StreamsFresh at hfresh
      rw [hqueue] at hfresh
      exact hfresh
    refine (Dispatcher.handleNotify_moves (P := fun _ _ c => Consistent c) (hcovers hnot) h hmsg
      (Or.inl hstream) ?_ ?_).bind fun r hr => ⟨hr.1, hnot⟩
    · -- An established connection begins unregistered, and mirrors that.
      intro c cb registered hnone hc
      obtain rfl := hnone hstream
      have harrived : ¬ c.ArrivedConnecting := by
        rintro ⟨cb', hmem⟩
        rw [hc.log] at hmem
        cases hmem
      have hmirrors : Mirrors c := by
        refine ⟨hc.interests.trans hc.registered.symm, ?_⟩
        rw [hc.interests, hc.log, kinds_none]
        rfl
      exact Consistent.call (s := { conn := c, sent := [] }) (Or.inr ⟨harrived, hmirrors⟩) _
        ⟨fun h => absurd h hnot, fun h => absurd h.1 harrived⟩ |>.mono (fun _ h => h.1) fun _ => id
    · -- A connecting one begins registered, without interests.
      intro c cb hc
      have harrived : c.ArrivedConnecting := ⟨cb, by rw [hc.log]; exact List.mem_singleton_self _⟩
      exact Or.inl ⟨harrived, hc.interests, by rw [hc.registered]; rfl, hc.output⟩
  · refine (exec_outcome (P := fun _ _ c => Consistent c) (C := ¬ w.Enables l) hx hmoves h
      ⟨?_, hcovers, ?_⟩ ?_ ?_).mono (fun w' hw' => ⟨hw'.1, hw'.2.2.1⟩) fun _ => id
    · rintro hquiet ⟨token, k, c, hk, hc, -⟩
      exact hquiet token k c hk hc
    · rintro token k key c hk htoken hget
      refine (h key c hget).call k ⟨?_, fun ⟨harrived, henables⟩ => ?_⟩
      · rintro ⟨token', k', c', hk', hc', harrived, henables⟩
        obtain ⟨rfl, rfl⟩ := Prod.mk.inj (Option.some.inj (hk.symm.trans hk'))
        rw [htoken, Dispatcher.connAt_token, hget] at hc'
        obtain rfl := Option.some.inj hc'
        exact ⟨harrived, henables⟩
      · exact ⟨token, k, c, hk, Dispatcher.connAt_eq_some.mpr ⟨key, htoken, hget⟩, harrived,
          henables⟩
    · exact fun hnot _ _ s outcomes hs =>
        (hs.handleWrite outcomes).mono (fun _ => id) (hcovers hnot)
    · exact fun hnot _ _ c mode hc => (hc.disableIo mode).mono (fun _ => id) (hcovers hnot)

end Worker

/-! ### The order of events -/

/-- The connection waits, with its setup callback under its token, or it is established. -/
def Life (pending : Option Closure) (c : TcpConnection) : Prop :=
  (∃ cb, pending = some cb ∧ Waiting cb c.log) ∨ ∃ cb, Established cb c.log

/-- A life that is kept track of is a lifecycle. -/
theorem Life.lifecycle {pending : Option Closure} {c : TcpConnection} (h : Life pending c) :
    Lifecycle c.log := by
  rcases h with ⟨cb, -, h⟩ | ⟨cb, h⟩
  · exact ⟨cb, Or.inl h⟩
  · exact ⟨cb, Or.inr h⟩

omit [DecidableEq M] in
/-- The setup callback and `on_established` end the waiting. -/
theorem established_call {s : Session M} (cb : Closure) (msgs : List (TcpConnMessage M))
    (as : List (Act M)) (h : s.conn.log = [] ∨ Waiting cb s.conn.log) :
    Outcome (s.call (.established cb msgs as)) (fun s' => Established cb s'.conn.log)
      (fun _ => True) := by
  refine (established_stable cb).acts as _ ?_
  exact ⟨s.conn.log, [], by simp [Session.setup, Session.record, TcpConnection.record], h, nofun⟩

/-- The calls that neither read nor establish. -/
def ConnCall.IsPlain : ConnCall M → Prop
  | .handleRead _ _ _ | .established _ _ _ => False
  | _ => True

omit [DecidableEq M] in
/-- A plain call records no milestone. -/
theorem ConnCall.IsPlain.not_milestone {k : ConnCall M} (hk : k.IsPlain) {e : ConnEvent}
    (he : k.Records e) : e.isMilestone = false := by
  cases k with
  | handleRead outcomes as closing | established cb msgs as => exact hk.elim
  | onWriteComplete as | context f msgs | timer f as =>
    obtain rfl := he
    rfl
  | _ => exact he.elim

/-- What is no milestone is no birth. -/
theorem ConnEvent.isBirth_of_not_milestone {e : ConnEvent} (h : e.isMilestone = false) :
    e.isBirth = false := by
  cases e <;> simp [ConnEvent.isMilestone, ConnEvent.isBirth] at h ⊢

omit [DecidableEq M] in
/-- A plain call goes on with the same life. -/
theorem Life.call {s : Session M} {pending : Option Closure} (h : Life pending s.conn)
    {k : ConnCall M} (hk : k.IsPlain) :
    Outcome (s.call k) (fun s' => Life pending s'.conn) (fun _ => True) := by
  rcases h with ⟨cb, hpend, h⟩ | ⟨cb, h⟩
  · exact ((waiting_stable cb).call (fun _ he => hk.not_milestone he) h).mono
      (fun s' hs' => Or.inl ⟨cb, hpend, hs'⟩) fun _ => id
  · exact ((established_stable cb).call
      (fun _ he => ConnEvent.isBirth_of_not_milestone (hk.not_milestone he)) h).mono
      (fun s' hs' => Or.inr ⟨cb, hs'⟩) fun _ => id

omit [Slab S] [LawfulSlab S] [DecidableEq M] in
/-- A readable event makes an established connection read, and establishes one that waits,
unless its token has the callback of an earlier connection. -/
theorem Life.readable {d : Dispatcher S M} {token : Token} {env : Env M} {k : ConnCall M}
    {s : Session M} (h : Life (d.pendings.lookup token) s.conn)
    (hk : d.readableCall token env = some k)
    (hstale : .established ∈ s.conn.log → token ∈ d.pendings →
      ∀ addr, env.peerAddr ≠ .ok addr) :
    Outcome (s.call k) (fun s' => ∃ cb, Established cb s'.conn.log) (fun _ => True) := by
  rcases Dispatcher.readableCall_cases hk with ⟨hpend, rfl⟩ | ⟨f, addr, hpend, hpeer, rfl⟩
  · -- Nothing waits under the token: the connection is established, and reads.
    rw [hpend] at h
    rcases h with ⟨cb, hnone, -⟩ | ⟨cb, hest⟩
    · cases hnone
    · refine ((established_stable cb).call (fun e he => ?_) hest).mono
        (fun _ hs => ⟨cb, hs⟩) fun _ => id
      rcases he with rfl | rfl | rfl <;> rfl
  · -- The connection waits for this event, or the callback was left behind.
    rw [hpend] at h
    rcases h with ⟨cb, hcb, hwait⟩ | ⟨cb, before, after, hlog, -⟩
    · obtain rfl := Option.some.inj hcb
      exact (established_call f env.msgs env.acts (Or.inr hwait)).mono
        (fun _ hs => ⟨f, hs⟩) fun _ => id
    · refine absurd hpeer (hstale (by simp [hlog]) ?_ addr)
      rw [← AList.lookup_isSome, hpend]
      rfl

namespace Worker

omit [LawfulSlab S] in
/-- A call is plain, or a readable event makes it. -/
theorem callOf_cases {token : Token} {k : ConnCall M} (h : w.callOf l = some (token, k)) :
    k.IsPlain ∨ ∃ writable env, l = .event token true writable env ∧
      w.dispatcher.readableCall token env = some k := by
  obtain ⟨-, hsource⟩ := callOf_source h
  cases hsource with
  | event writable env hcall => exact Or.inr ⟨writable, env, rfl, hcall⟩
  | receive env msg target queue hqueue hcall =>
    left
    cases msg <;> cases hcall <;> exact trivial
  | timer nowTick env hcall =>
    obtain ⟨-, -, -, -, f, -, -, rfl⟩ := Dispatcher.timerCall_eq_some hcall
    exact Or.inl trivial

/-- A step that finds no callback left behind keeps every connection to its lifecycle. -/
theorem step_life (h : w.dispatcher.All fun pending _ c => Life pending c)
    (hstale : ¬ w.FindsStale l) (hstep : w.Step l w') :
    w'.dispatcher.All fun pending _ c => Life pending c := by
  have hcovers : Dispatcher.Covers fun _ => True := fun _ _ => trivial
  -- A new connection starts its life. A live one goes on with the call that the step makes, and
  -- this call is a setup only when a callback waits under its token.
  by_cases hmoves : w.Moves l
  · obtain ⟨env, msg, target, queue, r, rfl, hqueue, hmsg, hr, rfl⟩ := step_moves hmoves hstep
    refine ((Dispatcher.handleNotify_moves (P := fun pending _ c => Life pending c) hcovers h hmsg
      (Or.inr fun _ => trivial) ?_ ?_).of_ok hr).1
    · intro c cb registered _ hc
      exact (established_call cb env.msgs env.acts (Or.inl hc.log)).mono
        (fun _ hs => Or.inr ⟨cb, hs⟩) fun _ => id
    · exact fun c cb hc => Or.inl ⟨cb, rfl, [], hc.log, nofun⟩
  · refine ((exec_outcome (P := fun pending _ c => Life pending c) (C := True) hstep hmoves h
      ⟨fun _ => trivial, fun _ => hcovers, ?_⟩ ?_ ?_).of_ok rfl).1
    · rintro token k key c hk rfl hget
      have hlife := h key c hget
      rcases callOf_cases hk with hplain | ⟨writable, env, rfl, hreadable⟩
      · have hsame : w.dispatcher.pendingsAfter (w.dispatcher.offset + key) k
            = w.dispatcher.pendings := by
          cases k <;> first | exact hplain.elim | rfl
        rw [hsame]
        exact (hlife.call hplain (s := { conn := c, sent := [] })).mono (fun _ hs => ⟨hs, trivial⟩)
          fun _ => id
      · refine (hlife.readable (s := { conn := c, sent := [] }) hreadable
          fun hlog hpend addr hpeer => ?_).mono (fun _ hs => ⟨Or.inr hs, trivial⟩) fun _ => id
        exact hstale
          ⟨⟨c, Dispatcher.connAt_eq_some.mpr ⟨key, rfl, hget⟩, hlog⟩, hpend, addr, hpeer⟩
    · exact fun _ _ _ s outcomes hs => hs.call (k := .handleWrite outcomes) trivial
    · rintro - pending token c mode (⟨cb, hpend, hc⟩ | ⟨cb, hc⟩)
      · exact ((waiting_stable cb).disableIo c mode hc).mono
          (fun _ hs => Or.inl ⟨cb, hpend, hs⟩) fun _ => id
      · exact ((established_stable cb).disableIo c mode hc).mono
          (fun _ hs => Or.inr ⟨cb, hs⟩) fun _ => id

omit [LawfulSlab S] in
/-- A step that makes a call is possible. -/
theorem exec_of_callOf {token : Token} {k : ConnCall M} (h : w.callOf l = some (token, k)) :
    ∃ x, w.exec l = some x := by
  obtain ⟨hidle, hsource⟩ := callOf_source h
  cases hsource with
  | event writable env => exact ⟨_, by rw [exec, if_pos hidle]⟩
  | receive env msg target queue hqueue =>
    rw [exec, if_pos hidle, hqueue]
    exact ⟨_, rfl⟩
  | timer nowTick env => exact ⟨_, by rw [exec, if_pos hidle]⟩

/-- **From connecting to connected.** Take any run of a worker in which the streams that arrive
are not registered with the poll, and no readable event finds a callback that an earlier
connection left behind. Every live connection keeps to its lifecycle. A further step panics
over the registration exactly when it calls `enable_io` on a connection that arrived still
connecting. -/
theorem lifecycle_of_orderly (cap offset noti : Nat) (timer : Timer S M)
    {ls : List (WorkerLabel M)} (hrun : Run OrderlyStep (new cap offset noti timer) ls w) :
    w.AllConnections (fun c => Lifecycle c.log) ∧
      ∀ l, w.StreamsFresh l →
        ((∃ p, (Fault.panicked p).IsRegistration ∧ w.Panics l p) ↔ w.Enables l) := by
  -- Both invariants hold of a worker without connections, and every orderly step keeps them.
  have hinv : w.dispatcher.All (fun _ _ c => Consistent c) ∧
      w.dispatcher.All (fun pending _ c => Life pending c) := by
    refine hrun.invariant (P := fun w => w.dispatcher.All (fun _ _ c => Consistent c) ∧
      w.dispatcher.All (fun pending _ c => Life pending c)) ?_ ⟨?_, ?_⟩
    · rintro w l w' ⟨hcons, hlife⟩ ⟨hstep, hfresh, hstale⟩
      exact ⟨((step_registration hcons hfresh hstep).of_ok rfl).1,
        step_life hlife hstale hstep⟩
    all_goals
      intro key c hget
      cases (LawfulSlab.get_withCapacity cap key).symm.trans hget
  obtain ⟨hcons, hlife⟩ := hinv
  refine ⟨fun key c hget => (hlife key c hget).lifecycle, fun l hfresh => ⟨?_, fun h => ?_⟩⟩
  · rintro ⟨p, hp, hpanic⟩
    exact ((step_registration hcons hfresh hpanic).of_error rfl).mp hp
  · obtain ⟨x, hx⟩ := exec_of_callOf h.choose_spec.choose_spec.choose_spec.1
    have hstep := step_registration hcons hfresh hx
    cases x with
    | ok w' => exact absurd h (hstep.of_ok rfl).2
    | error f =>
      have hf : f.IsRegistration := (hstep.of_error rfl).mpr h
      cases f with
      | panicked p => exact ⟨p, hf, hx⟩
      | _ => exact hf.elim

end Worker

end Worker

section Example

/-- A connection arrives still connecting. -/
def connectingRun : List (WorkerLabel String) :=
  [.enqueue (.any (.connecting .fresh 7 1)),
    .receive { quietEnv with
      peerAddr := .error { kind := .notConnected, rawOsError := none } }, .lock]

/-- It is established at the first readable event, and its callback starts to write. -/
theorem lifecycle_of_orderly_connecting :
    ∃ w, Run Worker.OrderlyStep (Worker.new 4 0 0 emptyTimer)
        (connectingRun ++
          [.event 0 true false { quietEnv with acts := [.send [1, 2] [.ok 2]] }, .flush]) w ∧
      w.AllConnections (fun c => Lifecycle c.log) ∧
      ∀ l, w.StreamsFresh l →
        ((∃ p, (Fault.panicked p).IsRegistration ∧ w.Panics l p) ↔ w.Enables l) := by
  have hfirst : ∀ w : Worker Lib.FreeListSlab String,
      (∀ c, w.dispatcher.connAt 0 = some c → .established ∉ c.log) →
      ¬ w.FindsStale (.event 0 true false { quietEnv with acts := [.send [1, 2] [.ok 2]] }) :=
    fun w hw h => by
      obtain ⟨⟨c, hc, hmem⟩, -⟩ := h
      exact hw c hc hmem
  have hrun : ∃ w, Run Worker.OrderlyStep (Worker.new 4 0 0 emptyTimer) (connectingRun ++
      [.event 0 true false { quietEnv with acts := [.send [1, 2] [.ok 2]] }, .flush]) w := by
    refine ⟨_, .cons ⟨rfl, trivial, id⟩ (.cons ⟨rfl, rfl, id⟩ (.cons ⟨rfl, trivial, id⟩
      (.cons ⟨rfl, trivial, hfirst _ ?_⟩ (.cons ⟨rfl, trivial, id⟩ (.nil _)))))⟩
    intro c hc
    cases hc
    decide
  obtain ⟨w, hrun⟩ := hrun
  exact ⟨w, hrun, Worker.lifecycle_of_orderly 4 0 0 emptyTimer hrun⟩

/-- **Starting to receive panics.** The callback of a connection that arrived still connecting
calls `enable_io(READABLE)`, and the poll refuses. -/
theorem enableIo_after_connecting_panics :
    ∃ w, Run Worker.OrderlyStep (Worker.new 4 0 0 emptyTimer) connectingRun w ∧
      w.Panics (.event 0 true false { quietEnv with acts := [.enableIo .READABLE] })
        (.register 0) := by
  refine ⟨_, .cons ⟨rfl, trivial, id⟩
    (.cons ⟨rfl, rfl, id⟩ (.cons ⟨rfl, trivial, id⟩ (.nil _))), ?_⟩
  rfl

end Example

end Ruduo
