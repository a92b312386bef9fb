import Ruduo.Proofs.Buffer.Refinement
import Ruduo.Proofs.Connection.Sessions
import Ruduo.Spec.OutgoingStream
import Mathlib.Tactic.ByContra

/-!
# `Ruduo.Proofs.Connection.OutgoingStream`: which sends keep the stream intact

A direct write goes wrong in one case: the socket accepts a part of the data and then fails
for another reason than `WouldBlock`. The whole data is appended to `output` then, so the part
is sent twice. `outStep_spec` says for every call what it adds to the stream: the bytes it was
asked to send, after the part that is repeated. `streamIntegrity_iff` follows by comparing
lengths.
-/

set_option autoImplicit false

namespace Ruduo.Session

open Lib (Run)

variable {M : Type} {s s' : Session M} {bytes data : List UInt8} {l : OutCall}

/-- `output().append(data)` goes through. -/
theorem appendOutput_ok {c : TcpConnection} (h : c.output.Holds bytes) (data : List UInt8) :
    ∃ output, c.appendOutput data = .ok { c with output } ∧ output.Holds (bytes ++ data) := by
  obtain ⟨output, happ, h'⟩ := h.append data
  exact ⟨output, by simp only [TcpConnection.appendOutput, happ, ok_bind], h'⟩

/-- The bytes of a call that appends to `output` and enables writing. -/
theorem appendEnable_spec {c : TcpConnection} (h : c.output.Holds bytes) (data : List UInt8)
    {sent : List (TcpConnMessage M)}
    (hok : (do
      let conn ← c.appendOutput data
      ({ conn, sent } : Session M).enableIo .WRITABLE) = .ok s') :
    s'.conn.output.Holds (bytes ++ data) ∧ s'.conn.io.accepted = c.io.accepted ∧
      s'.sent = sent := by
  obtain ⟨output, happ, h'⟩ := appendOutput_ok h data
  rw [happ, ok_bind] at hok
  obtain ⟨conn, henable, hs'⟩ := bind_eq_ok.mp hok
  obtain rfl := Except.ok.inj hs'
  have hsame := TcpConnection.enableIo_sameBytes henable
  exact ⟨by rw [hsame.output]; exact h', hsame.accepted, rfl⟩

/-- Not more is accepted before a failure than there is. -/
private theorem acceptedBeforeFailure_le {len : Nat} (outcomes : List (Except IoError Nat)) :
    ∀ {written : Nat}, written ≤ len → acceptedBeforeFailure len written outcomes ≤ len := by
  induction outcomes with
  | nil => intro written _; exact Nat.zero_le _
  | cons outcome outcomes ih =>
    intro written hle
    cases outcome with
    | ok n =>
      rw [acceptedBeforeFailure]
      split
      · exact Nat.zero_le _
      · exact ih (by omega)
    | error e =>
      rw [acceptedBeforeFailure]
      split
      · exact Nat.zero_le _
      · exact hle

/-- What is accepted before a failure includes what was accepted at first. -/
private theorem le_acceptedBeforeFailure {len : Nat} (outcomes : List (Except IoError Nat)) :
    ∀ {written : Nat}, acceptedBeforeFailure len written outcomes = 0 ∨
      written ≤ acceptedBeforeFailure len written outcomes := by
  induction outcomes with
  | nil => intro written; exact Or.inl rfl
  | cons outcome outcomes ih =>
    intro written
    cases outcome with
    | ok n =>
      rw [acceptedBeforeFailure]
      split
      · exact Or.inl rfl
      · exact ih.imp_right (Nat.le_trans (Nat.le_add_right _ _))
    | error e =>
      rw [acceptedBeforeFailure]
      split
      · exact Or.inl rfl
      · exact Or.inr (Nat.le_refl _)

/-- What a direct write adds to the stream from `written` on, when the socket fails after
`k` bytes: the accepted rest of them, and then the whole data. -/
def directStream (data : List UInt8) (written k : Nat) : List UInt8 :=
  if k = 0 then data.drop written else (data.take k).drop written ++ data

/-- The bytes accepted in one write come first. -/
private theorem directStream_step {written n k : Nat} (hk : k = 0 ∨ written + n ≤ k) :
    (data.drop written).take n ++ directStream data (written + n) k
      = directStream data written k := by
  unfold directStream
  split
  · rw [← List.drop_drop, List.take_append_drop]
  · have hle : written + n ≤ k := hk.resolve_left ‹_›
    have hpart : (data.drop written).take n = ((data.take k).drop written).take n := by
      rw [List.drop_take, List.take_take, Nat.min_eq_left (by omega)]
    rw [hpart, ← List.append_assoc, ← List.drop_drop, List.take_append_drop]

/-- The loop of `send`, by induction on what the socket answers. -/
theorem sendLoop_spec (outcomes : List (Except IoError Nat)) :
    ∀ {written : Nat} {s : Session M}, sendLoop data written outcomes s = .ok s' →
      written ≤ data.length → s.conn.output.Holds [] →
      ∃ bytes, s'.conn.output.Holds bytes ∧
        s'.conn.io.accepted ++ bytes = s.conn.io.accepted ++
          directStream data written (acceptedBeforeFailure data.length written outcomes) ∧
        CompletesEmpty s s' := by
  induction outcomes with
  | nil => intro written s hok; cases hok
  | cons outcome outcomes ih =>
    intro written s hok hle hout
    have hbuf : sliceRange data written data.length = .ok (data.drop written) := by
      rw [sliceRange, if_pos ⟨hle, Nat.le_refl _⟩, List.take_of_length_le (by simp)]
    have hlen : (data.drop written).length = data.length - written := List.length_drop
    rw [sendLoop, hbuf, ok_bind] at hok
    cases outcome with
    | ok n =>
      simp only [TcpConnection.doWriteWith, TcpStream.write, hlen] at hok
      rw [acceptedBeforeFailure]
      by_cases hall : min n (data.length - written) = data.length - written
      · -- Everything was accepted.
        rw [if_pos hall] at hok ⊢
        obtain rfl := Except.ok.inj hok
        refine ⟨[], hout, ?_, Or.inr ⟨rfl, hout.peek⟩⟩
        show s.conn.io.accepted ++ (data.drop written).take n ++ [] = _
        rw [List.take_of_length_le (by omega), List.append_nil, directStream, if_pos rfl]
      · -- A part was accepted: the loop goes on with the rest.
        rw [if_neg hall] at hok ⊢
        have hmin : min n (data.length - written) = n := by omega
        rw [hmin] at hok ⊢
        obtain ⟨bytes, hbytes, hstream, hsent⟩ := ih hok (by omega) hout
        refine ⟨bytes, hbytes, ?_, hsent⟩
        rw [hstream, List.append_assoc, directStream_step (le_acceptedBeforeFailure _)]
    | error e =>
      simp only [TcpConnection.doWriteWith, TcpStream.write] at hok
      rw [acceptedBeforeFailure]
      by_cases hblock : e.kind = .wouldBlock
      · -- The socket is full: the rest waits in `output`.
        rw [if_pos hblock, ok_bind] at hok
        obtain ⟨hbytes, hacc, hsent⟩ := appendEnable_spec hout _ hok
        refine ⟨_, hbytes, ?_, Or.inl hsent⟩
        rw [hacc, if_pos hblock, directStream, if_pos rfl, List.nil_append]
      · -- The whole data goes to `output`, although a part of it was accepted.
        rw [if_neg hblock] at hok
        obtain ⟨hbytes, hacc, hsent⟩ := appendEnable_spec hout _ hok
        refine ⟨_, hbytes, ?_, Or.inl hsent⟩
        rw [hacc, if_neg hblock, directStream, List.nil_append]
        split
        · rename_i hzero
          rw [hzero, List.drop_zero]
        · simp

/-- The socket has accepted these bytes, and `output` holds what is left. -/
def wrote (s : Session M) (bytes : List UInt8) (output : Buffer) : Session M :=
  { s with conn :=
    { s.conn with io := { s.conn.io with accepted := s.conn.io.accepted ++ bytes }, output } }

/-- One pass of the loop of `handle_write`, when the socket has room for `n` bytes. -/
theorem handleWriteLoop_room (hout : s.conn.output.Holds bytes) (n : Nat) :
    ∃ output, output.Holds (bytes.drop n) ∧ ∀ outcomes,
      handleWriteLoop (.ok n :: outcomes) s =
        if bytes.length ≤ n then do
          let s ← (s.wrote (bytes.take n) output).disableIo .WRITABLE
          .ok (s.notify (.writeComplete s.conn.token))
        else handleWriteLoop outcomes (s.wrote (bytes.take n) output) := by
  obtain ⟨output, hret, hout'⟩ := hout.retrieve (Nat.min_le_right n bytes.length)
  have hdrop : bytes.drop (min n bytes.length) = bytes.drop n := by
    rcases Nat.le_total n bytes.length with hle | hle
    · rw [Nat.min_eq_left hle]
    · rw [Nat.min_eq_right hle, List.drop_length, List.drop_of_length_le hle]
  rw [hdrop] at hout'
  refine ⟨output, hout', fun outcomes => ?_⟩
  have hempty : (bytes.drop n).length = 0 ↔ bytes.length ≤ n := by
    rw [List.length_drop, Nat.sub_eq_zero_iff_le]
  rw [handleWriteLoop, TcpConnection.doWrite, hout.peek, ok_bind]
  simp only [TcpStream.write, ok_bind, hret, hout'.readableBytes, hempty]
  rfl

/-- One pass of the loop of `handle_write`, when the socket answers with an error: `WouldBlock`
ends the loop, and any other error is only logged. -/
theorem handleWriteLoop_error (hout : s.conn.output.Holds bytes) (e : IoError)
    (outcomes : List (Except IoError Nat)) :
    handleWriteLoop (.error e :: outcomes) s =
      if e.kind = .wouldBlock then .ok s else handleWriteLoop outcomes s := by
  rw [handleWriteLoop, TcpConnection.doWrite, hout.peek, ok_bind]
  rfl

/-- The loop of `handle_write` moves bytes from `output` to the socket. -/
theorem handleWriteLoop_spec (outcomes : List (Except IoError Nat)) :
    ∀ {bytes : List UInt8} {s : Session M}, handleWriteLoop outcomes s = .ok s' →
      s.conn.output.Holds bytes →
      ∃ bytes', s'.conn.output.Holds bytes' ∧
        s'.conn.io.accepted ++ bytes' = s.conn.io.accepted ++ bytes ∧ CompletesEmpty s s' := by
  induction outcomes with
  | nil => intro bytes s hok; cases hok
  | cons outcome outcomes ih =>
    intro bytes s hok hout
    cases outcome with
    | ok n =>
      obtain ⟨output, hout', hpass⟩ := handleWriteLoop_room hout n
      rw [hpass] at hok
      split at hok
      · -- Everything is written: stop writing.
        rename_i hall
        obtain ⟨s₁, hdisable, hok⟩ := bind_eq_ok.mp hok
        obtain ⟨conn, hconn, hs₁⟩ := bind_eq_ok.mp hdisable
        obtain rfl := Except.ok.inj hs₁
        obtain rfl := Except.ok.inj hok
        have hsame := TcpConnection.disableIo_sameBytes hconn
        rw [List.drop_of_length_le hall] at hout'
        have houtput : conn.output.Holds [] := by
          rw [hsame.output]
          exact hout'
        refine ⟨[], houtput, ?_, Or.inr ⟨?_, houtput.peek⟩⟩
        · show conn.io.accepted ++ [] = _
          rw [hsame.accepted, List.append_nil]
          show s.conn.io.accepted ++ bytes.take n = _
          rw [List.take_of_length_le hall]
        · show s.sent ++ [.writeComplete conn.token] = _
          rw [hsame.token]
          rfl
      · -- The loop goes on with the rest.
        obtain ⟨bytes', hbytes, hstream, hsent⟩ := ih hok hout'
        refine ⟨bytes', hbytes, ?_, hsent⟩
        rw [hstream]
        show s.conn.io.accepted ++ bytes.take n ++ bytes.drop n = _
        rw [List.append_assoc, List.take_append_drop]
    | error e =>
      rw [handleWriteLoop_error hout] at hok
      split at hok
      · -- The socket is full: the bytes stay where they are.
        obtain rfl := Except.ok.inj hok
        exact ⟨bytes, hout, rfl, Or.inl rfl⟩
      · -- Another error is only logged.
        exact ih hok hout

/-- `handle_write` moves bytes from `output` to the socket, and announces it when nothing is left.
-/
theorem handleWrite_spec {outcomes : List (Except IoError Nat)}
    (hout : s.conn.output.Holds bytes) (hok : s.handleWrite outcomes = .ok s') :
    ∃ bytes', s'.conn.output.Holds bytes' ∧
      s'.conn.io.accepted ++ bytes' = s.conn.io.accepted ++ bytes ∧ CompletesEmpty s s' := by
  rw [handleWrite] at hok
  split at hok
  · exact handleWriteLoop_spec outcomes hok hout
  · obtain rfl := Except.ok.inj hok
    exact ⟨bytes, hout, rfl, Or.inl rfl⟩

/-- What a call adds to the stream: the bytes it sends, after the part of them that the socket
accepted when it failed midway. -/
theorem outStep_spec (hout : s.conn.output.Holds bytes) (hstep : OutStep s l s') :
    ∃ repeated bytes', s'.conn.output.Holds bytes' ∧
      s'.conn.io.accepted ++ bytes' = s.conn.io.accepted ++ bytes ++ (repeated ++ l.data) ∧
      (repeated ≠ [] ↔ FailsMidway s l) ∧ CompletesEmpty s s' := by
  cases l with
  | handleWrite outcomes =>
    obtain ⟨bytes', hbytes, hstream, hsent⟩ := handleWrite_spec hout hstep
    exact ⟨[], bytes', hbytes, by rw [hstream]; simp [OutCall.data], by simp [FailsMidway], hsent⟩
  | send data outcomes =>
    have hsend : s.send data outcomes = .ok s' := hstep
    rw [send, hout.readableBytes, ok_bind] at hsend
    cases hw : isWriting s.conn.interests with
    | true =>
      -- The poll will report the stream writable: the data waits behind the rest.
      rw [hw] at hsend
      obtain ⟨output, happ, h'⟩ := appendOutput_ok hout data
      simp only [Bool.not_true, Bool.false_eq_true, if_false, happ, ok_bind] at hsend
      obtain rfl := Except.ok.inj hsend
      refine ⟨[], _, h', ?_, by simp [FailsMidway, hw], Or.inl rfl⟩
      simp [OutCall.data]
    | false =>
      rw [hw] at hsend
      simp only [Bool.not_false, if_true] at hsend
      by_cases hnil : bytes = []
      · -- A direct write.
        subst hnil
        rw [List.length_nil, if_pos rfl] at hsend
        obtain ⟨bytes', hbytes, hstream, hsent⟩ :=
          sendLoop_spec outcomes hsend (Nat.zero_le _) hout
        have hle : acceptedBeforeFailure data.length 0 outcomes ≤ data.length :=
          acceptedBeforeFailure_le outcomes (Nat.zero_le _)
        refine ⟨data.take (acceptedBeforeFailure data.length 0 outcomes), bytes', hbytes, ?_, ?_,
          hsent⟩
        · rw [hstream, directStream, List.append_nil]
          split
          · rename_i hzero
            simp [hzero, OutCall.data]
          · simp [OutCall.data]
        · rw [FailsMidway, Ne, ← List.length_eq_zero_iff, List.length_take]
          simp only [hw, hout.peek, true_and]
          omega
      · -- Other bytes wait: the data waits behind them.
        have hlen : bytes.length ≠ 0 := by simpa using hnil
        rw [if_neg hlen] at hsend
        obtain ⟨hbytes, hacc, hsent⟩ := appendEnable_spec hout _ hsend
        refine ⟨[], _, hbytes, ?_, ?_, Or.inl hsent⟩
        · simp [hacc, OutCall.data]
        · simp [FailsMidway, hout.peek, hnil]

/-! ### Runs -/

/-- The output buffer stays in a state that its operations can reach. -/
theorem run_holds {s₀ : Session M} {ls : List OutCall} (hout : s₀.conn.output.Holds bytes)
    (hrun : Run OutStep s₀ ls s) : ∃ bytes', s.conn.output.Holds bytes' := by
  refine hrun.invariant (P := fun s => ∃ bytes', s.conn.output.Holds bytes') ?_ ⟨bytes, hout⟩
  rintro s l s' ⟨bytes', h⟩ hstep
  obtain ⟨-, bytes'', h', -⟩ := outStep_spec h hstep
  exact ⟨bytes'', h'⟩

/-- Without a call that fails midway, a run adds to the stream what it was asked to send. -/
theorem run_stream {s₀ : Session M} {ls : List OutCall} (hrun : Run OutStep s₀ ls s) :
    ∀ {bytes : List UInt8}, s₀.conn.output.Holds bytes → NeverFailsMidway s₀ ls →
      ∃ bytes', s.conn.output.Holds bytes' ∧
        s.conn.io.accepted ++ bytes' = s₀.conn.io.accepted ++ bytes ++ payload ls := by
  induction hrun with
  | nil => intro bytes hout _; exact ⟨bytes, hout, by simp [payload]⟩
  | @cons s t u l ls hstep hrest ih =>
    intro bytes hout hsafe
    obtain ⟨repeated, bytes₁, h₁, hstream₁, hrep, -⟩ := outStep_spec hout hstep
    have hnil : repeated = [] := by
      by_contra hne
      exact hsafe [] l ls _ _ rfl (.nil _) hstep (hrep.mp hne)
    have hsafe' : NeverFailsMidway t ls := by
      intro ls₁ l' ls₂ v v' hls hrun hstep'
      exact hsafe (l :: ls₁) l' ls₂ v v' (by rw [hls, List.cons_append]) (.cons hstep hrun) hstep'
    obtain ⟨bytes', h', hstream'⟩ := ih h₁ hsafe'
    refine ⟨bytes', h', ?_⟩
    rw [hstream', hstream₁, hnil]
    simp [payload]

/-- In an intact run the stream is intact at every point, also at the start. -/
theorem StreamIntegrity.intact {s₀ : Session M} {ls₁ ls₂ : List OutCall}
    (h : StreamIntegrity s₀ (ls₁ ++ ls₂)) (hout : s₀.conn.output.Holds [])
    (hrun : Run OutStep s₀ ls₁ s) : Intact s₀ s ls₁ := by
  rcases List.eq_nil_or_concat ls₁ with rfl | ⟨ls₀, l, rfl⟩
  · cases hrun
    exact ⟨[], hout.peek, by simp [payload]⟩
  · rw [List.concat_eq_append] at hrun h ⊢
    obtain ⟨t, hrun₀, hlast⟩ := Run.split ls₀ hrun
    cases hlast with
    | cons hstep hnil =>
      cases hnil
      exact (h ls₀ l ls₂ t s (by simp) hrun₀ hstep).1

/-- **When the outgoing stream is intact.** For every run of sends and writes from an empty
output buffer, and every behaviour of the socket, the stream is intact after each call exactly
when in no call the socket fails midway, for another reason than `WouldBlock`. -/
theorem streamIntegrity_iff {s₀ : Session M} (hout : s₀.conn.output.Holds [])
    (ls : List OutCall) : StreamIntegrity s₀ ls ↔ NeverFailsMidway s₀ ls := by
  constructor
  · intro hint ls₁ l ls₂ s s' hls hrun hstep hfail
    obtain ⟨bytes, h⟩ := run_holds hout hrun
    obtain ⟨repeated, bytes', h', hstream, hrep, -⟩ := outStep_spec h hstep
    obtain ⟨b, hb, hbefore⟩ := StreamIntegrity.intact (hls ▸ hint) hout hrun
    obtain ⟨⟨b', hb', hafter⟩, -⟩ := hint ls₁ l ls₂ s s' hls hrun hstep
    obtain rfl := Except.ok.inj (h.peek.symm.trans hb)
    obtain rfl := Except.ok.inj (h'.peek.symm.trans hb')
    -- The step adds the repeated part as well, so there is none.
    have hlen := congrArg List.length (hafter.symm.trans hstream)
    rw [hbefore] at hlen
    simp only [payload, List.flatMap_append, List.flatMap_cons, List.flatMap_nil,
      List.length_append, List.append_nil] at hlen
    have hnil : repeated = [] := List.length_eq_zero_iff.mp (by omega)
    exact hrep.mpr hfail hnil
  · -- Without a failure midway `run_stream` gives the equation at every point.
    intro hsafe ls₁ l ls₂ s s' hls hrun hstep
    obtain ⟨bytes, h⟩ := run_holds hout hrun
    obtain ⟨-, -, -, -, -, hsent⟩ := outStep_spec h hstep
    have hsafe' : NeverFailsMidway s₀ (ls₁ ++ [l]) := by
      intro ms₁ m ms₂ v v' hms hrun' hstep'
      have hls' : ls = ms₁ ++ m :: (ms₂ ++ ls₂) := by
        calc ls = ls₁ ++ [l] ++ ls₂ := by rw [hls, List.append_assoc, List.singleton_append]
          _ = ms₁ ++ m :: (ms₂ ++ ls₂) := by rw [hms, List.append_assoc, List.cons_append]
      exact hsafe ms₁ m (ms₂ ++ ls₂) v v' hls' hrun' hstep'
    obtain ⟨bytes', h', hstream⟩ := run_stream (hrun.snoc hstep) hout hsafe'
    exact ⟨⟨bytes', h'.peek, by rw [hstream, List.append_nil]⟩, hsent⟩

section Example

/-- An established connection with a small output buffer. -/
def establishedConn : TcpConnection where
  id := 0
  token := 0
  io := { registered := some .READABLE, accepted := [], shutdowns := [] }
  input := { data := List.replicate 10 0, readIdx := 8, writeIdx := 8 }
  output := { data := List.replicate 10 0, readIdx := 8, writeIdx := 8 }
  interests := some .READABLE
  log := [.setup 0, .established, .enabled .READABLE]

/-- A handler call on it. -/
def establishedSession : Session String := { conn := establishedConn, sent := [] }

/-- Nothing waits to be written. -/
theorem establishedSession_holds : establishedSession.conn.output.Holds [] := ⟨rfl, by decide⟩

/-- A send whose rest waits for the poll, and then the poll's call of `handle_write`. -/
theorem streamIntegrity_iff_wouldBlock :
    StreamIntegrity establishedSession
        [.send [1, 2] [.ok 1, .error { kind := .wouldBlock, rawOsError := none }],
          .handleWrite [.ok 1]] ↔
      NeverFailsMidway establishedSession
        [.send [1, 2] [.ok 1, .error { kind := .wouldBlock, rawOsError := none }],
          .handleWrite [.ok 1]] :=
  streamIntegrity_iff establishedSession_holds _

/-- The socket accepts the first of two bytes and then is interrupted: the first byte is sent
twice. -/
theorem send_repeats_accepted_bytes :
    ¬ StreamIntegrity establishedSession
        [.send [1, 2] [.ok 1, .error { kind := .interrupted, rawOsError := none }]] := by
  intro h
  obtain ⟨⟨bytes, hpeek, hstream⟩, -⟩ := h [] _ [] _ _ rfl (.nil _) rfl
  obtain rfl : [1, 2] = bytes := Except.ok.inj hpeek
  revert hstream
  decide

end Example

end Ruduo.Session
