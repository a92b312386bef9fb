import Ruduo.Proofs.Connection.WriteTermination
import Ruduo.Spec.ShutdownRequest

/-!
# `Ruduo.Proofs.Connection.ShutdownRequest`: which shutdown requests are honoured

A `Shutdown` message looks at `is_writing` once. While bytes wait the connection is writing, so
the message cuts nothing off. But nothing remembers it, and `handle_write` does not shut down
when it has emptied the buffer: the request is lost.

* `shutdownContract_iff`: a run keeps the contract exactly when no `Shutdown` message finds bytes
  waiting.
-/

set_option autoImplicit false

namespace Ruduo

open Lib (Run)

/-- Bytes wait only while the connection is writing. -/
theorem Attended.isWriting {c : TcpConnection} (h : Attended c) (hp : OutputPending c) :
    isWriting c.interests = true := by
  obtain ⟨bytes, hout, hwriting⟩ := h.output
  refine hwriting fun hnil => hp ?_
  rw [hout.peek, hnil]

namespace Session
variable {M : Type} {s s' s₀ : Session M} {ls : List (ConnCall M)}

/-! ### What a request finds -/

/-- A request that finds the connection writing does nothing. -/
theorem shutdownMessage_of_isWriting (hw : isWriting s.conn.interests = true) (how : Shutdown)
    (outcome : Except IoError Unit) : s.shutdownMessage how outcome = .ok s := by
  simp [shutdownMessage, hw]

/-- The poll reports the stream writable, and the socket has room for everything. -/
theorem handleWrite_drains (h : Attended s.conn) (hp : OutputPending s.conn) :
    ∃ outcomes t, s.handleWrite outcomes = .ok t ∧ ¬ OutputPending t.conn := by
  obtain ⟨bytes, hout, -⟩ := h.output
  have hw := h.isWriting hp
  have hsome := isSome_of_isWriting hw
  -- One answer takes all bytes, and the pass that follows withdraws `WRITABLE`.
  obtain ⟨output, hout', hpass⟩ := handleWriteLoop_room hout bytes.length
  obtain ⟨t, ht⟩ := finish_ok (s := s.wrote (bytes.take bytes.length) output) hsome
    (h.registered hsome)
  have hok : s.handleWrite [.ok bytes.length] = .ok t := by
    rw [handleWrite, if_pos hw, hpass, if_pos (Nat.le_refl _)]
    exact ht
  refine ⟨_, t, hok, fun hpending => hpending ?_⟩
  rcases (h.handleWrite hw hok).2 with ⟨pre, e, post, heq, -⟩ | hdrained
  · -- There is no error among the answers.
    simp [List.cons_eq_append_iff] at heq
  · exact hdrained.peek

/-! ### Runs -/

/-- A call that only transfers never withdraws the interest in writing. -/
theorem transfers_keepsWriting {l : ConnCall M} (hl : l.Transfers) : l.KeepsWriting := by
  cases l with
  | send data outcomes | handleWrite outcomes | shutdownMessage how outcome => trivial
  | _ => exact hl.elim

/-- While it is only transferred, what waits is attended to. -/
theorem attended_of_run (h : Attended s₀.conn) (hrun : Run TransferStep s₀ ls s) :
    Attended s.conn :=
  hrun.invariant (P := fun s => Attended s.conn)
    (fun _ _ _ h hstep => h.call (transfers_keepsWriting hstep.1) hstep.2) h

/-- While bytes wait, no call shuts the stream down. -/
theorem step_shutdowns (h : Attended s.conn) {l : ConnCall M} (hstep : TransferStep s l s')
    (hp : OutputPending s.conn) : s'.conn.io.shutdowns = s.conn.io.shutdowns := by
  obtain ⟨hl, hcall⟩ := hstep
  cases l with
  | send data outcomes => exact (send_outgoing hcall).shutdowns
  | handleWrite outcomes => exact (handleWrite_outgoing hcall).shutdowns
  | shutdownMessage how outcome =>
    have hok : s.shutdownMessage how outcome = .ok s' := hcall
    rw [shutdownMessage_of_isWriting (h.isWriting hp)] at hok
    cases hok
    rfl
  | _ => exact hl.elim

/-- **When a shutdown request is honoured.** Take a connection whose bytes wait under
`WRITABLE`, and any run of sends, writes and `Shutdown` messages on it, whatever the socket
answers. The contract holds exactly when no `Shutdown` message finds bytes waiting. -/
theorem shutdownContract_iff (h : Attended s₀.conn) (ls : List (ConnCall M)) :
    ShutdownContract s₀ ls ↔ NoRequestWhilePending s₀ ls := by
  constructor
  · -- The request changes nothing, and then a write empties the buffer.
    rintro ⟨-, hhonours⟩ ls₁ l ls₂ s s' hls hrun hstep how outcome rfl hp
    have hs := attended_of_run h hrun
    obtain rfl : s = s' := by
      have hok : s.shutdownMessage how outcome = .ok s' := hstep.2
      rw [shutdownMessage_of_isWriting (hs.isWriting hp)] at hok
      exact Except.ok.inj hok
    obtain ⟨outcomes, t, hwrite, hdrained⟩ := handleWrite_drains hs hp
    have hwritten : TransferStep s (.handleWrite outcomes) t := ⟨trivial, hwrite⟩
    have hmem := hhonours ls₁ _ ls₂ s s hls hrun hstep how outcome rfl hp _ t
      (.cons hwritten (.nil t)) hdrained
    rw [step_shutdowns hs hwritten hp, List.drop_length] at hmem
    cases hmem
  · intro hnone
    refine ⟨fun ls₁ l ls₂ s s' _ hrun hstep => ?_, ?_⟩
    · exact step_shutdowns (attended_of_run h hrun) hstep
    · exact hnone.mono fun s l s' hs how outcome hl hp => absurd hp (hs how outcome hl)

section Example

/-- A request when nothing waits, and then a send. -/
theorem shutdownContract_iff_idle :
    ShutdownContract establishedSession [.shutdownMessage .write (.ok ()), .send [1] [.ok 1]] ↔
      NoRequestWhilePending establishedSession
        [.shutdownMessage .write (.ok ()), .send [1] [.ok 1]] :=
  shutdownContract_iff ⟨⟨[], establishedSession_holds, by simp⟩, fun _ => rfl⟩ _

/-- The request finds one byte waiting. The byte is written, and the stream stays open. -/
theorem shutdown_request_lost :
    ¬ ShutdownContract pendingSession [.shutdownMessage .write (.ok ()), .handleWrite [.ok 1]] := by
  rintro ⟨-, hhonours⟩
  have hmem := hhonours.head ⟨trivial, rfl⟩ .write (.ok ()) rfl (fun hnil => by cases hnil)
    [.handleWrite [.ok 1]] _ (.cons ⟨trivial, rfl⟩ (.nil _)) fun hp => hp rfl
  cases hmem

end Example

end Session

end Ruduo
