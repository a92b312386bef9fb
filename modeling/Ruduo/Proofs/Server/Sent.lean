import Ruduo.Proofs.Server.Ledger

/-!
# `Ruduo.Proofs.Server.Sent`: the messages that a handler call sends

A handler call sends `Removed` and `WriteComplete` by itself. Everything else that it sends comes
from the user's callbacks and closures. So what holds of these two and of all that the user's code
sends holds of every message (`step_outbox`).
-/

set_option autoImplicit false

namespace Ruduo

open Lib (Outcome Slab)

variable {M : Type} {P : TcpConnMessage M → Prop}

/-- `P` holds of the messages that the crate itself sends. -/
structure CrateSends (P : TcpConnMessage M → Prop) : Prop where
  removed : ∀ token, P (.removed token)
  writeComplete : ∀ token, P (.writeComplete token)

/-- `P` holds of the messages that the user's callbacks and closures send. -/
structure Env.Sends (P : TcpConnMessage M → Prop) (env : Env M) : Prop where
  msgs : ∀ msg ∈ env.msgs, P msg
  acts : ∀ msg, .notify msg ∈ env.acts → P msg

/-- `P` holds of the messages that the call's part of the user's code sends. -/
def ConnCall.Sends (P : TcpConnMessage M → Prop) : ConnCall M → Prop
  | .handleRead _ as msgs | .established _ msgs as =>
    (∀ msg ∈ msgs, P msg) ∧ ∀ msg, .notify msg ∈ as → P msg
  | .onWriteComplete as | .timer _ as => ∀ msg, .notify msg ∈ as → P msg
  | .context _ msgs => ∀ msg ∈ msgs, P msg
  | _ => True

/-! ### The calls -/

namespace Session
variable {s s' : Session M}

/-- `P` holds of all messages that were sent so far. -/
def AllSent (P : TcpConnMessage M → Prop) (s : Session M) : Prop := ∀ msg ∈ s.sent, P msg

/-- One more such message. -/
theorem AllSent.notify {msg : TcpConnMessage M} (h : s.AllSent P) (hmsg : P msg) :
    (s.notify msg).AllSent P := by
  intro m hm
  rcases List.mem_append.mp hm with hm | hm
  · exact h m hm
  · obtain rfl := List.mem_singleton.mp hm
    exact hmsg

/-- More such messages. -/
theorem AllSent.append {msgs : List (TcpConnMessage M)} (h : s.AllSent P)
    (hmsgs : ∀ msg ∈ msgs, P msg) (conn : TcpConnection) :
    ({ conn, sent := s.sent ++ msgs } : Session M).AllSent P := by
  intro m hm
  rcases List.mem_append.mp hm with hm | hm
  · exact h m hm
  · exact hmsgs m hm

/-- `disable_io` sends no message. -/
private theorem disableIo_sent {mode : Interest} (h : s.disableIo mode = .ok s') :
    s'.sent = s.sent := by
  obtain ⟨conn, -, h⟩ := bind_eq_ok.mp h
  cases h
  rfl

/-- `enable_io` sends no message. -/
private theorem enableIo_sent {mode : Interest} (h : s.enableIo mode = .ok s') :
    s'.sent = s.sent := by
  obtain ⟨conn, -, h⟩ := bind_eq_ok.mp h
  cases h
  rfl

/-- `send` and `handle_write` send only `WriteComplete`. -/
theorem sending_allSent (hP : CrateSends P) :
    Sending (fun s : Session M => s.AllSent P) (fun _ => True) where
  fault _ _ := trivial
  enableIo _ _ hs := by
    refine Outcome.intro (fun s' h => ?_) fun _ _ => trivial
    unfold AllSent
    rwa [enableIo_sent h]
  disableIo _ _ hs := by
    refine Outcome.intro (fun s' h => ?_) fun _ _ => trivial
    unfold AllSent
    rwa [disableIo_sent h]
  accepted _ _ hs := hs
  output _ _ hs := hs
  complete s hs := hs.notify (hP.writeComplete s.conn.token)

/-- A callback sends what its acts notify and what the crate sends, by induction on the acts. -/
theorem acts_allSent (hP : CrateSends P) (as : List (Act M))
    (has : ∀ msg, .notify msg ∈ as → P msg) (hs : s.AllSent P) (h : acts as s = .ok s') :
    s'.AllSent P := by
  have hsending := sending_allSent hP
  have hact : ∀ a ∈ as, ∀ t : Session M, t.AllSent P →
      Outcome (t.act a) (fun t => t.AllSent P) (fun _ => True) := by
    intro a ha t ht
    cases a with
    | enableIo mode => exact hsending.enableIo t mode ht
    | disableIo mode => exact hsending.disableIo t mode ht
    | send data outcomes => exact hsending.send ht data outcomes
    | notify msg => exact ht.notify (has msg ha)
    | retrieve size | shutdown outcome =>
      refine Outcome.intro (fun t' h => ?_) fun _ _ => trivial
      obtain ⟨_, -, h⟩ := bind_eq_ok.mp h
      cases h
      exact ht
  exact (acts_keep as hact s hs).of_ok h

/-- The loop of `handle_read`, by induction on what the socket answers. -/
private theorem handleReadLoop_allSent (hP : CrateSends P) {as : List (Act M)}
    {closing : List (TcpConnMessage M)} (hclosing : ∀ msg ∈ closing, P msg)
    (has : ∀ msg, .notify msg ∈ as → P msg) (outcomes : List (Except IoError (List UInt8))) :
    ∀ {s : Session M}, s.AllSent P → handleReadLoop as closing outcomes s = .ok s' →
      s'.AllSent P := by
  induction outcomes with
  | nil => intro s _ h; cases h
  | cons outcome outcomes ih =>
    intro s hs h
    cases outcome with
    | ok chunk =>
      cases chunk with
      | nil =>
        rw [handleReadLoop_eof] at h
        obtain ⟨input, -, h⟩ := bind_eq_ok.mp h
        obtain ⟨s₁, hdisable, h⟩ := bind_eq_ok.mp h
        cases h
        have hs₁ : s₁.AllSent P := by
          unfold AllSent
          rwa [disableIo_sent hdisable]
        have hclosed : (s₁.onClose closing).AllSent P := hs₁.append hclosing _
        exact hclosed.notify (hP.removed _)
      | cons b bs =>
        rw [handleReadLoop_bytes (by simp)] at h
        obtain ⟨input, -, h⟩ := bind_eq_ok.mp h
        exact ih (s := { s with conn := { s.conn with input } }) hs h
    | error e =>
      rw [handleReadLoop_error] at h
      split at h
      · exact acts_allSent hP as has (s := s.record .readComplete) hs h
      · cases h
        exact hs

/-- A call sends what it is given to notify and what the crate sends. -/
theorem call_allSent (hP : CrateSends P) {k : ConnCall M} (hk : k.Sends P) (hs : s.AllSent P)
    (h : s.call k = .ok s') : s'.AllSent P := by
  have hsending := sending_allSent hP
  cases k with
  | enableIo mode => exact (hsending.enableIo s mode hs).of_ok h
  | disableIo mode => exact (hsending.disableIo s mode hs).of_ok h
  | send data outcomes => exact (hsending.send hs data outcomes).of_ok h
  | handleWrite outcomes => exact (hsending.handleWrite hs outcomes).of_ok h
  | handleRead outcomes as closing =>
    exact handleReadLoop_allSent hP hk.1 hk.2 outcomes (s := s.record .reading) hs h
  | onWriteComplete as => exact acts_allSent hP as hk (s := s.record .writeComplete) hs h
  | timer f as => exact acts_allSent hP as hk (s := s.record (.timer f)) hs h
  | established cb msgs as =>
    have hsetup : ((s.setup cb msgs).record .established).AllSent P := hs.append hk.1 _
    exact acts_allSent hP as hk.2 hsetup h
  | shutdownMessage how outcome =>
    rw [call, shutdownMessage] at h
    split at h
    · obtain ⟨io, -, h⟩ := bind_eq_ok.mp h
      cases h
      exact hs
    · cases h
      exact hs
  | context f msgs =>
    cases h
    exact hs.append hk _

end Session

/-! ### The handlers -/

variable {S : Type → Type} [Slab S] [DecidableEq M]

namespace Dispatcher
variable {d : Dispatcher S M} {token : Token} {mark : M} {env : Env M} {timer : Timer S M}

omit [DecidableEq M] in
/-- The same, where the call is made on the connection of a token. -/
private theorem withConnection_sent (hP : CrateSends P) {k : ConnCall M} (hk : k.Sends P)
    {r : Dispatcher S M × List (TcpConnMessage M)}
    (h : (d.withConnection token fun s => s.call k) = .ok r) : ∀ msg ∈ r.2, P msg :=
  (withConnection_outcome (Q := fun r => ∀ msg ∈ r.2, P msg) (E := fun _ => True)
    (fun _ _ _ => trivial) (fun _ => by simp) fun _ c _ _ => Outcome.intro
      (fun s hs => Session.call_allSent hP hk (s := { conn := c, sent := [] })
        (fun _ hm => absurd hm (by simp)) hs)
      fun _ _ => trivial).of_ok h

omit [DecidableEq M] in
/-- `add_connection` sends what the callbacks notify and what the crate sends. -/
private theorem addConnection_sent (hP : CrateSends P) (henv : env.Sends P) {stream : TcpStream}
    {peerAddr : SocketAddr} {cb : Closure} {r : Dispatcher S M × List (TcpConnMessage M) × Locked}
    (h : d.addConnection stream peerAddr cb env = .ok r) : ∀ msg ∈ r.2.1, P msg := by
  obtain ⟨stream', -, h⟩ := bind_eq_ok.mp h
  obtain ⟨token, -, h⟩ := bind_eq_ok.mp h
  obtain ⟨conn, -, h⟩ := bind_eq_ok.mp h
  obtain ⟨s, hs, h⟩ := bind_eq_ok.mp h
  cases h
  exact Session.call_allSent hP (k := .established cb env.msgs env.acts)
    (s := { conn, sent := [] }) ⟨henv.msgs, henv.acts⟩ (fun _ hm => absurd hm (by simp)) hs

/-- The same, for a message. -/
private theorem handleNotify_sent (hP : CrateSends P) (henv : env.Sends P) {msg : TcpConnMessage M}
    {r : Handled S M} (h : d.handleNotify timer msg env = .ok r) : ∀ m ∈ r.sent, P m := by
  cases handleNotify_notified h with
  | called token k r hk hr =>
    have hsends : k.Sends P := by
      cases msg <;> cases hk <;> first
        | trivial
        | exact henv.msgs
        | exact henv.acts
    exact withConnection_sent hP hsends hr
  | added stream peerAddr cb r _ hr => exact addConnection_sent hP henv hr
  | _ => simp

/-- The same, for a timer that has come due. -/
private theorem handleTimeout_sent (hP : CrateSends P) (henv : env.Sends P) {repeats : Bool}
    {r : Dispatcher S M × List (TcpConnMessage M)} (h : d.handleTimeout mark repeats env = .ok r) :
    ∀ msg ∈ r.2, P msg := by
  unfold handleTimeout at h
  split at h
  · split at h
    · rename_i timeout token f _
      exact withConnection_sent hP (k := .timer f env.acts) henv.acts h
    · cases h
      simp
  · split at h
    · rename_i timeout token f _
      obtain ⟨⟨d₁, sent⟩, hr, h⟩ := bind_eq_ok.mp h
      cases h
      have hsent := withConnection_sent hP (k := .timer f env.acts) henv.acts hr
      exact hsent
    · cases h
      simp

/-- The same, for a pass of `process_timers`. -/
private theorem processTimer_sent (hP : CrateSends P) (henv : env.Sends P) {nowTick : Nat}
    {r : Handled S M} (h : d.processTimer timer nowTick env = .ok r) : ∀ msg ∈ r.sent, P msg := by
  cases processTimer_passed h with
  | idle htick =>
    rw [processTimer, htick, ok_bind] at h
    have hsent := congrArg Handled.sent (Except.ok.inj h)
    rw [← hsent]
    simp
  | once mark _ hcall => exact handleTimeout_sent hP henv hcall
  | again mark _ _ timeout _ _ _ hcall => exact handleTimeout_sent hP henv hcall

omit [DecidableEq M] in
/-- The same, for an event. -/
private theorem handleIoEvent_sent (hP : CrateSends P) (henv : env.Sends P)
    {readable writable : Bool} {r : Dispatcher S M × List (TcpConnMessage M)}
    (h : d.handleIoEvent token readable writable env = .ok r) : ∀ msg ∈ r.2, P msg := by
  obtain ⟨key, -, h⟩ := bind_eq_ok.mp h
  dsimp only at h
  split at h
  · rename_i c _
    obtain ⟨⟨pendings, s₁⟩, hread, h⟩ := bind_eq_ok.mp h
    obtain ⟨s₂, hwrite, h⟩ := bind_eq_ok.mp h
    cases h
    have hnone : ({ conn := c, sent := [] } : Session M).AllSent P :=
      fun _ hm => absurd hm (by simp)
    have hs₁ : s₁.AllSent P := by
      split at hread
      · rw [handleReadable_eq] at hread
        split at hread
        · rename_i k hk
          obtain ⟨s, hs, hread⟩ := bind_eq_ok.mp hread
          cases hread
          refine Session.call_allSent hP ?_ hnone hs
          rcases readableCall_cases hk with ⟨-, rfl⟩ | ⟨cb, addr, -, -, rfl⟩ <;>
            exact ⟨henv.msgs, henv.acts⟩
        · cases hread
          exact hnone
      · cases hread
        exact hnone
    split at hwrite
    · exact ((Session.sending_allSent hP).handleWrite hs₁ env.writes).of_ok hwrite
    · cases hwrite
      exact hs₁
  · cases h
    simp

end Dispatcher

/-! ### The steps -/

/-- `P` holds of what the user's code sends in a step. -/
def WorkerLabel.Sends (P : TcpConnMessage M → Prop) : WorkerLabel M → Prop
  | .event _ _ _ env | .receive env | .timer _ env => env.Sends P
  | _ => True

/-- A worker sends only such messages. -/
theorem Worker.step_outbox {w w' : Worker S M} {l : WorkerLabel M} (hP : CrateSends P)
    (hl : l.Sends P) (hstep : w.Step l w') (h : ∀ msg ∈ w.outbox, P msg) :
    ∀ msg ∈ w'.outbox, P msg := by
  cases l with
  | enqueue msg =>
    cases hstep
    exact h
  | flush =>
    unfold Step exec at hstep
    dsimp only at hstep
    split at hstep
    · rename_i msg outbox houtbox
      cases hstep
      intro m hm
      exact h m (houtbox ▸ List.mem_cons_of_mem msg hm)
    · cases hstep
  | lock =>
    unfold Step exec at hstep
    dsimp only at hstep
    split at hstep
    · rename_i houtbox _
      cases hstep
      exact h
    · cases hstep
  | event token readable writable env =>
    obtain ⟨d, sent, hd, rfl⟩ := step_event hstep
    exact Dispatcher.handleIoEvent_sent hP hl hd
  | receive env =>
    obtain ⟨⟨msg, target⟩, queue, r, -, hr, rfl⟩ := step_receive hstep
    cases msg with
    | stop =>
      obtain ⟨d, -, hr⟩ := bind_eq_ok.mp hr
      cases hr
      exact fun m hm => absurd hm (by simp [after])
    | any msg => exact Dispatcher.handleNotify_sent hP hl hr
  | timer nowTick env =>
    obtain ⟨r, hr, rfl⟩ := step_timer hstep
    exact Dispatcher.processTimer_sent hP hl hr

end Ruduo
