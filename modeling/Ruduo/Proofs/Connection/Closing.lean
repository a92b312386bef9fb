import Ruduo.Proofs.Connection.Announcement
import Ruduo.Proofs.Connection.Registration
import Ruduo.Spec.Closing

/-!
# `Ruduo.Proofs.Connection.Closing`: which calls close a connection

When the user's code does not send `Removed` itself, a call sends it only at the end of the stream,
once, together with `on_close` (`handleRead_closing`). Every other call neither closes nor sends it
(`call_removals`, `call_closes`).
-/

set_option autoImplicit false

namespace Ruduo

open Lib (Outcome)

/-- The call's part of the user's code does not send `Removed`. -/
def ConnCall.SendsNoRemoval {M : Type} : ConnCall M → Prop
  | .handleRead _ as closing =>
    (∀ msg ∈ closing, msg.removal = none) ∧ ∀ msg, .notify msg ∈ as → msg.removal = none
  | .onWriteComplete as | .timer _ as => ∀ msg, .notify msg ∈ as → msg.removal = none
  | .context _ msgs => ∀ msg ∈ msgs, msg.removal = none
  | .established _ msgs as =>
    (∀ msg ∈ msgs, msg.removal = none) ∧ ∀ msg, .notify msg ∈ as → msg.removal = none
  | _ => True

/-- The call is `handle_read`. -/
def ConnCall.IsRead {M : Type} : ConnCall M → Prop
  | .handleRead _ _ _ => True
  | _ => False

namespace Session
variable {M : Type} {s s' : Session M} {mode : Interest}

/-- The tokens of the `Removed` messages that were sent so far. -/
def removals (s : Session M) : List Token := s.sent.filterMap TcpConnMessage.removal

/-! ### The `Removed` messages -/

/-- `enable_io` sends no message. -/
private theorem enableIo_removals (h : s.enableIo mode = .ok s') : s'.removals = s.removals := by
  obtain ⟨conn, -, h⟩ := bind_eq_ok.mp h
  cases h
  rfl

/-- `disable_io` sends no message. -/
private theorem disableIo_removals (h : s.disableIo mode = .ok s') : s'.removals = s.removals := by
  obtain ⟨conn, -, h⟩ := bind_eq_ok.mp h
  cases h
  rfl

/-- A message that is not `Removed`. -/
private theorem notify_removals {msg : TcpConnMessage M} (hmsg : msg.removal = none) :
    (s.notify msg).removals = s.removals := by
  simp [removals, notify, List.filterMap_append, hmsg]

/-- Messages none of which is `Removed`. -/
private theorem append_removals {msgs : List (TcpConnMessage M)}
    (hmsgs : ∀ msg ∈ msgs, msg.removal = none)
    {conn : TcpConnection} :
    ({ conn, sent := s.sent ++ msgs } : Session M).removals = s.removals := by
  have hnone : msgs.filterMap TcpConnMessage.removal = [] := by
    simpa [List.filterMap_eq_nil_iff] using hmsgs
  simp [removals, List.filterMap_append, hnone]

/-- `send` and `handle_write` send no `Removed`. -/
theorem removals_sending (tokens : List Token) :
    Sending (fun s : Session M => s.removals = tokens) (fun _ => True) where
  fault _ _ := trivial
  enableIo _ _ hs :=
    Outcome.intro (fun _ h => (enableIo_removals h).trans hs) fun _ _ => trivial
  disableIo _ _ hs :=
    Outcome.intro (fun _ h => (disableIo_removals h).trans hs) fun _ _ => trivial
  accepted _ _ hs := hs
  output _ _ hs := hs
  complete _ hs := (notify_removals rfl).trans hs

/-- `send` asks for no removal. -/
theorem send_removals {data : List UInt8} {outcomes : List (Except IoError Nat)}
    (h : s.send data outcomes = .ok s') : s'.removals = s.removals :=
  ((removals_sending s.removals).send rfl data outcomes).of_ok h

/-- `handle_write` asks for no removal. -/
theorem handleWrite_removals {outcomes : List (Except IoError Nat)}
    (h : s.handleWrite outcomes = .ok s') : s'.removals = s.removals :=
  ((removals_sending s.removals).handleWrite rfl outcomes).of_ok h

/-- One act of a callback. -/
private theorem act_removals {a : Act M} (h : s.act a = .ok s')
    (ha : ∀ msg, a = .notify msg → msg.removal = none) : s'.removals = s.removals := by
  cases a with
  | enableIo mode => exact enableIo_removals h
  | disableIo mode => exact disableIo_removals h
  | send data outcomes => exact send_removals h
  | notify msg =>
    cases h
    exact notify_removals (ha msg rfl)
  | retrieve size | shutdown outcome =>
    obtain ⟨_, -, h⟩ := bind_eq_ok.mp h
    cases h
    rfl

/-- A callback asks for a removal only if it notifies one. -/
theorem acts_removals (as : List (Act M)) (h : acts as s = .ok s')
    (has : ∀ msg, .notify msg ∈ as → msg.removal = none) : s'.removals = s.removals := by
  have hact : ∀ a ∈ as, ∀ t : Session M, t.removals = s.removals →
      Outcome (t.act a) (fun t => t.removals = s.removals) (fun _ => True) := by
    intro a ha t ht
    refine Outcome.intro (fun t' h => ?_) fun _ _ => trivial
    exact (act_removals h fun msg hmsg => has msg (hmsg ▸ ha)).trans ht
  exact (acts_keep as hact s rfl).of_ok h

/-! ### The end of the stream -/

/-- The loop of `handle_read` closes once when it meets the end of the stream, and sends `Removed`
with it. -/
private theorem handleReadLoop_closing {as : List (Act M)} {closing : List (TcpConnMessage M)}
    (hclosing : ∀ msg ∈ closing, msg.removal = none)
    (has : ∀ msg, .notify msg ∈ as → msg.removal = none)
    (outcomes : List (Except IoError (List UInt8))) : ∀ {s : Session M},
    handleReadLoop as closing outcomes s = .ok s' →
      s'.removals = s.removals ++ (if meetsEof outcomes then [s.conn.token] else []) ∧
        s'.conn.closes = s.conn.closes + if meetsEof outcomes then 1 else 0 := by
  induction outcomes with
  | nil => intro s h; cases h
  | cons outcome outcomes ih =>
    intro s h
    cases outcome with
    | ok chunk =>
      cases chunk with
      | nil =>
        -- The interests are disabled, `on_close` sends `closing`, and `Removed` comes last.
        rw [handleReadLoop_eof] at h
        obtain ⟨input, -, h⟩ := bind_eq_ok.mp h
        obtain ⟨s₁, hdisable, h⟩ := bind_eq_ok.mp h
        obtain ⟨conn, hconn, hs₁⟩ := bind_eq_ok.mp hdisable
        cases hs₁
        cases h
        have htoken : conn.token = s.conn.token := (TcpConnection.disableIo_sameBytes hconn).token
        constructor
        · show ((s.sent ++ closing) ++ [TcpConnMessage.removed conn.token]).filterMap _ = _
          have hnone : closing.filterMap TcpConnMessage.removal = [] := by
            simpa [List.filterMap_eq_nil_iff] using hclosing
          simp [removals, meetsEof, hnone, htoken, TcpConnMessage.removal]
        · show (conn.log ++ [ConnEvent.closed]).count ConnEvent.closed = _
          rw [TcpConnection.disableIo_log hconn]
          simp [TcpConnection.closes, meetsEof]
      | cons b bs =>
        -- Bytes were read: the loop goes on.
        rw [handleReadLoop_bytes (by simp)] at h
        obtain ⟨input, -, h⟩ := bind_eq_ok.mp h
        exact ih (s := { s with conn := { s.conn with input } }) h
    | error e =>
      rw [handleReadLoop_error] at h
      simp only [meetsEof, Bool.false_eq_true, if_false, List.append_nil, Nat.add_zero]
      split at h
      · -- `on_read_complete` runs, and closes nothing.
        obtain ⟨events, hlog, -, hclosed⟩ := acts_log as h
        have hsent := acts_removals as h has
        refine ⟨hsent, ?_⟩
        rw [TcpConnection.closes, hlog, List.count_append, List.count_eq_zero_of_not_mem hclosed]
        simp [TcpConnection.closes, record, TcpConnection.record]
      · cases h
        exact ⟨rfl, rfl⟩

/-- `handle_read` closes and asks for the removal when it meets the end of the stream, each once. -/
theorem handleRead_closing {as : List (Act M)} {closing : List (TcpConnMessage M)}
    {outcomes : List (Except IoError (List UInt8))}
    (h : s.handleRead outcomes as closing = .ok s')
    (hcall : (ConnCall.handleRead outcomes as closing).SendsNoRemoval) :
    s'.removals = s.removals ++ (if meetsEof outcomes then [s.conn.token] else []) ∧
      s'.conn.closes = s.conn.closes + if meetsEof outcomes then 1 else 0 := by
  have hloop := handleReadLoop_closing hcall.1 hcall.2 outcomes h
  simpa [removals, record, TcpConnection.record, TcpConnection.closes] using hloop

/-! ### The other calls -/

/-- Every other call sends no `Removed`. -/
theorem call_removals {k : ConnCall M} (h : s.call k = .ok s') (hk : k.SendsNoRemoval)
    (hread : ¬ k.IsRead) : s'.removals = s.removals := by
  cases k with
  | handleRead outcomes as closing => exact absurd trivial hread
  | enableIo mode => exact enableIo_removals h
  | disableIo mode => exact disableIo_removals h
  | send data outcomes => exact send_removals h
  | handleWrite outcomes => exact handleWrite_removals h
  | onWriteComplete as | timer f as =>
    have hsent := acts_removals as h hk
    exact hsent
  | shutdownMessage how outcome =>
    rw [call, shutdownMessage] at h
    split at h
    · obtain ⟨io, -, h⟩ := bind_eq_ok.mp h
      cases h
      rfl
    · cases h
      rfl
  | context f msgs =>
    cases h
    exact append_removals hk
  | established cb msgs as =>
    rw [acts_removals as h hk.2]
    exact append_removals hk.1

/-- Every other call closes nothing. -/
theorem call_closes {k : ConnCall M} (h : s.call k = .ok s') (hread : ¬ k.IsRead) :
    s'.conn.closes = s.conn.closes := by
  have hstable : Stable (fun c => c.closes = s.conn.closes) (fun _ => True)
      (fun e => e ≠ .closed) := by
    refine stable_log (P := fun log => log.count .closed = s.conn.closes)
      (A := fun e => e ≠ .closed) ?_ (by simp) (by simp)
    intro log e he hlog
    simp [List.count_append, hlog, he]
  refine (hstable.call (l := k) ?_ rfl).of_ok h
  intro e he
  cases k with
  | handleRead outcomes as closing => exact absurd trivial hread
  | onWriteComplete as | context f msgs | timer f as =>
    obtain rfl := he
    simp
  | established cb msgs as => rcases he with rfl | rfl <;> simp
  | _ => exact he.elim

end Session

end Ruduo
