import Ruduo.Proofs.Connection.Writing
import Mathlib.Data.List.Range

/-!
# `Ruduo.Proofs.Connection.WriteTermination`: when `handle_write` returns

The loop of `handle_write` has two exits: the socket has no room, or `output` is empty. An error
other than `WouldBlock` is logged and tried again. So a socket that is dead, and answers with
the same error for ever, keeps the loop running for ever.

* `handleWrite_returns_iff`: the call returns exactly when the connection is not writing, or one
  of the answers is `WouldBlock`, or the socket gets room for all that is pending.
-/

set_option autoImplicit false

namespace Ruduo

/-! ### The answers one by one -/

section
variable {answers : Nat → Except IoError Nat} {pending size n : Nat} {e : IoError}

/-- The first answers, with the first one apart. -/
theorem map_range_succ (answers : Nat → Except IoError Nat) (n : Nat) :
    (List.range (n + 1)).map answers
      = answers 0 :: (List.range n).map fun k => answers (k + 1) := by
  simp [List.range_succ_eq_map, Function.comp_def]

/-- What is accepted is room. -/
@[simp] private theorem room_ok (outcomes : List (Except IoError Nat)) :
    room (.ok size :: outcomes) = size + room outcomes := by
  simp [room, Except.toOption]

/-- An error is no room. -/
@[simp] private theorem room_error (outcomes : List (Except IoError Nat)) :
    room (.error e :: outcomes) = room outcomes := by
  simp [room, Except.toOption]

/-- At an answer the loop ends when nothing is left. -/
private theorem endsWriting_zero_of_ok (h : answers 0 = .ok size) :
    EndsWriting pending answers 0 ↔ pending ≤ size := by
  simp only [EndsWriting, h, map_range_succ, room_ok]
  rfl

/-- At an error the loop ends when it is `WouldBlock`. -/
private theorem endsWriting_zero_of_error (h : answers 0 = .error e) :
    EndsWriting pending answers 0 ↔ e.kind = .wouldBlock := by
  simp only [EndsWriting, h]

/-- After an answer with room there is less pending. -/
private theorem endsWriting_succ_of_ok (h : answers 0 = .ok size) :
    EndsWriting pending answers (n + 1) ↔
      EndsWriting (pending - size) (fun k => answers (k + 1)) n := by
  cases hn : answers (n + 1) with
  | ok _ =>
    simp only [EndsWriting, hn, map_range_succ answers (n + 1), h, room_ok]
    omega
  | error e => simp only [EndsWriting, hn]

/-- After an error as much is pending as before. -/
private theorem endsWriting_succ_of_error (h : answers 0 = .error e) :
    EndsWriting pending answers (n + 1) ↔ EndsWriting pending (fun k => answers (k + 1)) n := by
  cases hn : answers (n + 1) with
  | ok _ => simp only [EndsWriting, hn, map_range_succ answers (n + 1), h, room_error]
  | error e => simp only [EndsWriting, hn]

end

namespace Session
variable {M : Type} {s s' : Session M} {bytes : List UInt8} {answers : Nat → Except IoError Nat}

/-- The pass that empties the buffer withdraws `WRITABLE`, which the poll does not refuse. -/
theorem finish_ok (hsome : s.conn.interests.isSome)
    (hregistered : s.conn.io.registered = s.conn.interests) :
    ∃ s', (do
      let s ← s.disableIo .WRITABLE
      .ok (s.notify (.writeComplete s.conn.token))) = (.ok s' : Except Fault (Session M)) := by
  obtain ⟨i, hi⟩ := Option.isSome_iff_exists.mp hsome
  rw [hi] at hregistered
  simp only [disableIo, TcpConnection.disableIo, TcpConnection.record, hi]
  cases i.remove .WRITABLE with
  | none => exact ⟨_, by simp [Registry.deregister, hregistered, expect]; rfl⟩
  | some y => exact ⟨_, by simp [Registry.reregister, hregistered, expect]; rfl⟩

/-- An answer that ends the loop is reached, by induction on its number. -/
theorem handleWriteLoop_returns (n : Nat) :
    ∀ {answers : Nat → Except IoError Nat} {bytes : List UInt8} {s : Session M},
      s.conn.output.Holds bytes → s.conn.interests.isSome →
      s.conn.io.registered = s.conn.interests → EndsWriting bytes.length answers n →
      ∃ k s', handleWriteLoop ((List.range k).map answers) s = .ok s' := by
  induction n with
  | zero =>
    intro answers bytes s hout hsome hregistered hends
    refine ⟨1, ?_⟩
    rw [map_range_succ]
    cases h : answers 0 with
    | ok size =>
      obtain ⟨output, hout', hpass⟩ := handleWriteLoop_room hout size
      rw [hpass, if_pos ((endsWriting_zero_of_ok h).mp hends)]
      exact finish_ok hsome hregistered
    | error e =>
      rw [handleWriteLoop_error hout, if_pos ((endsWriting_zero_of_error h).mp hends)]
      exact ⟨s, rfl⟩
  | succ n ih =>
    intro answers bytes s hout hsome hregistered hends
    cases h : answers 0 with
    | ok size =>
      obtain ⟨output, hout', hpass⟩ := handleWriteLoop_room hout size
      by_cases hall : bytes.length ≤ size
      · -- The first answer ends the loop already.
        refine ⟨1, ?_⟩
        rw [map_range_succ, h, hpass, if_pos hall]
        exact finish_ok hsome hregistered
      · -- The rest ends at the answer before, counted from here.
        rw [endsWriting_succ_of_ok h, ← List.length_drop] at hends
        obtain ⟨k, s', hk⟩ := ih (s := s.wrote (bytes.take size) output) hout' hsome hregistered
          hends
        refine ⟨k + 1, s', ?_⟩
        rw [map_range_succ, h, hpass, if_neg hall]
        exact hk
    | error e =>
      by_cases hkind : e.kind = .wouldBlock
      · refine ⟨1, s, ?_⟩
        rw [map_range_succ, h, handleWriteLoop_error hout, if_pos hkind]
      · rw [endsWriting_succ_of_error h] at hends
        obtain ⟨k, s', hk⟩ := ih hout hsome hregistered hends
        refine ⟨k + 1, s', ?_⟩
        rw [map_range_succ, h, handleWriteLoop_error hout, if_neg hkind]
        exact hk

/-- When the loop ends, one of the answers has ended it, by induction on how many it needs. -/
theorem endsWriting_of_returns (k : Nat) :
    ∀ {answers : Nat → Except IoError Nat} {bytes : List UInt8} {s : Session M},
      s.conn.output.Holds bytes →
      handleWriteLoop ((List.range k).map answers) s = .ok s' →
      ∃ n, EndsWriting bytes.length answers n := by
  induction k with
  | zero => intro answers bytes s _ hok; cases hok
  | succ k ih =>
    intro answers bytes s hout hok
    rw [map_range_succ] at hok
    cases h : answers 0 with
    | ok size =>
      obtain ⟨output, hout', hpass⟩ := handleWriteLoop_room hout size
      rw [h, hpass] at hok
      split at hok
      · rename_i hall
        exact ⟨0, (endsWriting_zero_of_ok h).mpr hall⟩
      · obtain ⟨n, hn⟩ := ih hout' hok
        rw [List.length_drop] at hn
        exact ⟨n + 1, (endsWriting_succ_of_ok h).mpr hn⟩
    | error e =>
      rw [h, handleWriteLoop_error hout] at hok
      split at hok
      · rename_i hkind
        exact ⟨0, (endsWriting_zero_of_error h).mpr hkind⟩
      · obtain ⟨n, hn⟩ := ih hout hok
        exact ⟨n + 1, (endsWriting_succ_of_error h).mpr hn⟩

/-- **When `handle_write` returns.** For every connection whose interests are those of its
registration, whatever is pending, and every endless sequence of answers, the call returns
exactly when the connection is not writing, or some answer ends the loop: `WouldBlock`, or one
with which the socket has had room for everything. -/
theorem handleWrite_returns_iff (hout : s.conn.output.Holds bytes)
    (hregistered : s.conn.interests.isSome → s.conn.io.registered = s.conn.interests)
    (answers : Nat → Except IoError Nat) :
    s.Returns answers ↔
      isWriting s.conn.interests = false ∨ ∃ n, EndsWriting bytes.length answers n := by
  unfold Returns handleWrite
  cases hw : isWriting s.conn.interests with
  | false => simp
  | true =>
    have hsome := isSome_of_isWriting hw
    simp only [if_true, Bool.true_eq_false, false_or]
    constructor
    · rintro ⟨k, s', hok⟩
      exact endsWriting_of_returns k hout hok
    · rintro ⟨n, hends⟩
      exact handleWriteLoop_returns n hout hsome (hregistered hsome) hends

section Example

/-- An established connection that is writing, with one byte pending. -/
def pendingSession : Session String where
  conn :=
    { establishedConn with
      io :=
        { registered := some (Interest.READABLE.add .WRITABLE), accepted := [], shutdowns := [] }
      output := { data := List.replicate 8 0 ++ [7], readIdx := 8, writeIdx := 9 }
      interests := some (Interest.READABLE.add .WRITABLE) }
  sent := []

/-- It has one byte to write. -/
theorem pendingSession_holds : pendingSession.conn.output.Holds [7] := ⟨rfl, by decide⟩

/-- A write that is interrupted once. -/
theorem handleWrite_returns_iff_interrupted :
    (pendingSession.Returns fun n =>
        if n = 0 then .error { kind := .interrupted, rawOsError := none } else .ok 1) ↔
      isWriting pendingSession.conn.interests = false ∨
        ∃ n, EndsWriting [(7 : UInt8)].length
          (fun n => if n = 0 then .error { kind := .interrupted, rawOsError := none } else .ok 1)
          n :=
  handleWrite_returns_iff pendingSession_holds (fun _ => rfl) _

/-- The peer is gone, and every write breaks the pipe: `handle_write` never returns. -/
theorem handleWrite_spins_on_broken_pipe :
    ¬ ∀ answers : Nat → Except IoError Nat,
      (∀ n size, answers n = .ok size → 0 < size ∧ size ≤ 1) → pendingSession.Returns answers := by
  intro h
  obtain ⟨k, s', hok⟩ := h (fun _ => .error { kind := .brokenPipe, rawOsError := none })
    (fun _ _ h => by cases h)
  have hends := endsWriting_of_returns k pendingSession_holds hok
  simp [EndsWriting] at hends

end Example

end Session

end Ruduo
