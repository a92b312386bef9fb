import Ruduo.Lib.Latch
import Ruduo.Proofs.Connection.Writing
import Ruduo.Proofs.Server.ByteStreams
import Ruduo.Spec.Stranding

/-!
# `Ruduo.Proofs.Connection.Stranding`: when output is left behind

`no_output_stranded` is about users who leave `WRITABLE` alone. This module is about users who
withdraw it. A call that is neither `send` nor `handle_write` leaves the output as it is, and steers
the interest (`Steers`). `send` gets everything going, and `handle_write` leaves nothing behind. So
being stranded is a latch: `Withdraws` sets it when bytes wait, and `send` resets it
(`call_stranded`).

* `run_stranded`: when a connection is stranded at the end of a run.
* `run_silent`: a stranded connection writes nothing until the next `send`.
-/

set_option autoImplicit false

namespace Ruduo

open Lib (Outcome Run SetSince)

/-! ### What steers the interest -/

/-- The output is as it was. The connection is interested in `WRITABLE` when it was before, unless
`w` holds. -/
structure Steers (c c' : TcpConnection) (w : Prop) : Prop where
  output : c'.output = c.output
  accepted : c'.io.accepted = c.io.accepted
  writing : isWriting c'.interests = true ↔ isWriting c.interests = true ∧ ¬ w

namespace Steers
variable {c c' c'' : TcpConnection} {w w' : Prop}

/-- What changes nothing in the output steers nothing. -/
theorem of_same (houtput : c'.output = c.output) (haccepted : c'.io.accepted = c.io.accepted)
    (hinterests : c'.interests = c.interests) (hw : ¬ w) : Steers c c' w :=
  ⟨houtput, haccepted, by rw [hinterests]; exact (and_iff_left hw).symm⟩

/-- Two parts in sequence. -/
theorem trans (h : Steers c c' w) (h' : Steers c' c'' w') : Steers c c'' (w ∨ w') := by
  refine ⟨h'.output.trans h.output, h'.accepted.trans h.accepted, ?_⟩
  rw [h'.writing, h.writing, and_assoc, not_or]

/-- The condition is replaced by an equivalent one. -/
theorem congr (h : Steers c c' w) (hw : w ↔ w') : Steers c c' w' :=
  ⟨h.output, h.accepted, by rw [h.writing, hw]⟩

/-- What waited still waits, stranded if it was, or if the interest is withdrawn. -/
theorem stranded_iff (h : Steers c c' w) : Stranded c' ↔ w ∧ Waits c ∨ Stranded c := by
  have hwaits : Waits c' ↔ Waits c := by
    unfold Waits
    rw [h.output]
  unfold Stranded
  rw [hwaits, ← Bool.not_eq_true, h.writing, ← Bool.not_eq_true]
  tauto

end Steers

namespace TcpConnection
variable {c c' : TcpConnection} {mode : Interest}

/-- `enable_io` for reading steers nothing. -/
private theorem enableIo_steers (h : c.enableIo mode = .ok c') (hmode : mode.isWritable = false) :
    Steers c c' False := by
  have hsame := enableIo_sameBytes h
  refine ⟨hsame.output, hsame.accepted, ?_⟩
  rw [enableIo_isWriting h, hmode]
  simp

/-- `disable_io` withdraws the interest in writing, or leaves it alone. -/
private theorem disableIo_steers (h : c.disableIo mode = .ok c') :
    Steers c c' (mode.isWritable = true) := by
  have hsame := disableIo_sameBytes h
  refine ⟨hsame.output, hsame.accepted, ?_⟩
  rw [disableIo_isWriting h]
  simp

end TcpConnection

namespace Session
variable {M : Type} {s s' : Session M}

/-- Shutting the stream down steers nothing. -/
private theorem shutdown_steers {c : TcpConnection} {how : Shutdown} {outcome : Except IoError Unit}
    {io : TcpStream} (h : expect .shutdown (c.io.shutdown how outcome) = .ok io) :
    Steers c { c with io } False := by
  cases outcome with
  | ok u =>
    cases h
    exact .of_same rfl rfl rfl id
  | error e => cases h

/-- One act, which withdraws the interest or not. -/
private theorem act_steers {a : Act M} (ha : a.Steady) (h : s.act a = .ok s') :
    Steers s.conn s'.conn a.Withdraws := by
  cases a with
  | enableIo mode =>
    obtain ⟨conn, hconn, h⟩ := bind_eq_ok.mp h
    cases h
    exact TcpConnection.enableIo_steers hconn ha
  | disableIo mode =>
    obtain ⟨conn, hconn, h⟩ := bind_eq_ok.mp h
    cases h
    exact TcpConnection.disableIo_steers hconn
  | send => exact ha.elim
  | notify msg =>
    cases h
    exact .of_same rfl rfl rfl id
  | retrieve size =>
    obtain ⟨input, -, h⟩ := bind_eq_ok.mp h
    cases h
    exact .of_same rfl rfl rfl id
  | shutdown outcome =>
    obtain ⟨conn, hconn, h⟩ := bind_eq_ok.mp h
    obtain ⟨io, hio, hconn⟩ := bind_eq_ok.mp hconn
    cases hconn
    cases h
    exact shutdown_steers hio

/-- A callback withdraws the interest when one of its acts does, by induction on the acts. -/
theorem acts_steers (as : List (Act M)) : ∀ {s : Session M}, (∀ a ∈ as, a.Steady) →
    acts as s = .ok s' → Steers s.conn s'.conn (∃ a ∈ as, a.Withdraws) := by
  induction as with
  | nil =>
    intro s _ h
    cases h
    exact .of_same rfl rfl rfl (by simp)
  | cons a as ih =>
    intro s has h
    rw [List.forall_mem_cons] at has
    obtain ⟨s₁, hs₁, h⟩ := bind_eq_ok.mp h
    exact ((act_steers has.1 hs₁).trans (ih has.2 h)).congr (by simp)

/-- The loop of `handle_read`, by induction on what the socket answers. -/
private theorem handleReadLoop_steers {as : List (Act M)} (has : ∀ a ∈ as, a.Steady)
    {closing : List (TcpConnMessage M)} (outcomes : List (Except IoError (List UInt8))) :
    ∀ {s : Session M}, handleReadLoop as closing outcomes s = .ok s' → Steers s.conn s'.conn
      (meetsEof outcomes = true ∨ announces outcomes = true ∧ ∃ a ∈ as, a.Withdraws) := by
  induction outcomes with
  | nil => intro s h; cases h
  | cons outcome outcomes ih =>
    intro s h
    cases outcome with
    | ok chunk =>
      cases chunk with
      | nil =>
        -- The end of the stream: both interests are withdrawn.
        rw [handleReadLoop_eof] at h
        obtain ⟨input, -, h⟩ := bind_eq_ok.mp h
        obtain ⟨s₁, hdisable, h⟩ := bind_eq_ok.mp h
        cases h
        obtain ⟨conn, hconn, hs₁⟩ := bind_eq_ok.mp hdisable
        cases hs₁
        have hsteers := TcpConnection.disableIo_steers hconn
        exact Steers.congr ⟨hsteers.output, hsteers.accepted, hsteers.writing⟩
          ⟨fun _ => Or.inl rfl, fun _ => by decide⟩
      | cons b bs =>
        rw [handleReadLoop_bytes (by simp)] at h
        obtain ⟨input, -, h⟩ := bind_eq_ok.mp h
        have hrest := ih h
        exact ⟨hrest.output, hrest.accepted, hrest.writing⟩
    | error e =>
      rw [handleReadLoop_error] at h
      split at h
      · rename_i hkind
        have hacts := acts_steers as (s := s.record .readComplete) has h
        exact Steers.congr ⟨hacts.output, hacts.accepted, hacts.writing⟩
          (by simp [meetsEof, announces, hkind])
      · rename_i hkind
        cases h
        exact .of_same rfl rfl rfl (by simp [meetsEof, announces, hkind])

/-- A call other than `send` and `handle_write`. -/
theorem call_steers {k : ConnCall M} (hk : k.Steady) (hsend : ¬ k.IsSend)
    (hwrite : ∀ outcomes, k ≠ .handleWrite outcomes) (h : s.call k = .ok s') :
    Steers s.conn s'.conn k.Withdraws := by
  cases k with
  | enableIo mode =>
    obtain ⟨conn, hconn, h⟩ := bind_eq_ok.mp h
    cases h
    exact TcpConnection.enableIo_steers hconn hk
  | disableIo mode =>
    obtain ⟨conn, hconn, h⟩ := bind_eq_ok.mp h
    cases h
    exact TcpConnection.disableIo_steers hconn
  | send => exact absurd trivial hsend
  | handleWrite outcomes => exact absurd rfl (hwrite outcomes)
  | handleRead outcomes as closing =>
    have hloop := handleReadLoop_steers hk outcomes (s := s.record .reading) h
    exact ⟨hloop.output, hloop.accepted, hloop.writing⟩
  | onWriteComplete as =>
    have hacts := acts_steers as (s := s.record .writeComplete) hk h
    exact ⟨hacts.output, hacts.accepted, hacts.writing⟩
  | timer f as =>
    have hacts := acts_steers as (s := s.record (.timer f)) hk h
    exact ⟨hacts.output, hacts.accepted, hacts.writing⟩
  | established cb msgs as =>
    have hacts := acts_steers as (s := (s.setup cb msgs).record .established) hk h
    exact ⟨hacts.output, hacts.accepted, hacts.writing⟩
  | shutdownMessage how outcome =>
    rw [call, shutdownMessage] at h
    split at h
    · obtain ⟨io, hio, h⟩ := bind_eq_ok.mp h
      cases h
      exact shutdown_steers hio
    · cases h
      exact .of_same rfl rfl rfl id
  | context f msgs =>
    cases h
    exact .of_same rfl rfl rfl id

end Session

/-! ### What holds of every connection -/

/-- The output buffer is in order, and the poll knows the interests. -/
structure Serviceable (c : TcpConnection) : Prop where
  output : ∃ bytes, c.output.Holds bytes
  registered : c.interests.isSome → c.io.registered = c.interests

/-- The registration follows the interests, as soon as there are any. -/
theorem registered_stable :
    Stable (fun c => c.interests.isSome → c.io.registered = c.interests) (fun _ => True)
      (fun _ => True) where
  fault _ _ := trivial
  enableIo c mode _ :=
    Outcome.intro (fun _ h _ => (TcpConnection.enableIo_interests h).2) fun _ _ => trivial
  disableIo c mode hc := by
    refine Outcome.intro (fun c' h hsome => ?_) fun _ _ => trivial
    obtain ⟨hinterests, hregistered⟩ := TcpConnection.disableIo_interests h
    cases hi : c.interests with
    | none => simp [hinterests, hi] at hsome
    | some i => simpa [hi] using hregistered
  record _ _ _ h := h
  input _ _ h := h
  output _ _ h := h
  accepted _ _ h := h
  shutdowns _ _ h := h

namespace Serviceable
variable {M : Type} {c c' : TcpConnection} {s s' : Session M}

/-- A connection is serviceable when it is made. -/
theorem of_asMade (h : c.AsMade) : Serviceable c :=
  ⟨⟨[], h.output⟩, by simp [h.interests]⟩

/-- Every call keeps a connection serviceable. -/
theorem call (h : Serviceable s.conn) {k : ConnCall M} (hok : s.call k = .ok s') :
    Serviceable s'.conn := by
  obtain ⟨bytes, hout⟩ := h.output
  obtain ⟨bytes', -, hout', -⟩ := Session.call_streams hok bytes hout
  exact ⟨⟨bytes', hout'⟩,
    (registered_stable.call (fun _ _ => trivial) h.registered).of_ok hok⟩

/-- Unless it is stranded, a connection is attended. -/
theorem attended (h : Serviceable c) (hnot : ¬ Stranded c) : Attended c := by
  obtain ⟨bytes, hout⟩ := h.output
  refine ⟨⟨bytes, hout, fun hne => ?_⟩, h.registered⟩
  by_contra hwriting
  exact hnot ⟨⟨bytes, hout.peek, hne⟩, Bool.not_eq_true _ ▸ hwriting⟩

/-- What is attended to is not left behind. -/
theorem not_stranded (h : Attended c) : ¬ Stranded c := by
  rintro ⟨⟨bytes, hpeek, hne⟩, hwriting⟩
  obtain ⟨bytes', hout, hwriting'⟩ := h.output
  obtain rfl := Except.ok.inj (hpeek.symm.trans hout.peek)
  cases hwriting.symm.trans (hwriting' hne)

/-- After a `send` the output is attended, whatever was before. -/
theorem send (h : Serviceable s.conn) {data : List UInt8} {outcomes : List (Except IoError Nat)}
    (hok : s.send data outcomes = .ok s') : Attended s'.conn := by
  by_cases hstranded : Stranded s.conn
  · obtain ⟨⟨bytes, hpeek, hne⟩, hwriting⟩ := hstranded
    obtain ⟨bytes', hout⟩ := h.output
    obtain rfl := Except.ok.inj (hpeek.symm.trans hout.peek)
    -- What is stranded waits, so the data is appended to it.
    have hlen : bytes.length ≠ 0 := fun hlen => hne (List.length_eq_zero_iff.mp hlen)
    rw [Session.send, hout.readableBytes, ok_bind] at hok
    simp only [hwriting, Bool.not_false, if_true, if_neg hlen] at hok
    exact Attended.appendEnable hout data hok
  · exact (h.attended hstranded).send hok

/-- `handle_write` leaves nothing behind, and finds nothing that was left behind. -/
theorem handleWrite (h : Serviceable s.conn) {outcomes : List (Except IoError Nat)}
    (hok : s.handleWrite outcomes = .ok s') :
    (Stranded s'.conn ↔ Stranded s.conn) ∧
      (Stranded s.conn → s'.conn.io.accepted = s.conn.io.accepted) := by
  cases hwriting : isWriting s.conn.interests with
  | true =>
    have hnot : ¬ Stranded s.conn := fun hs => by cases hs.2.symm.trans hwriting
    have hnot' := not_stranded ((h.attended hnot).handleWrite hwriting hok).1
    exact ⟨⟨fun hs => absurd hs hnot', fun hs => absurd hs hnot⟩, fun hs => absurd hs hnot⟩
  | false =>
    simp only [Session.handleWrite, hwriting, Bool.false_eq_true, if_false] at hok
    cases hok
    exact ⟨Iff.rfl, fun _ => rfl⟩

end Serviceable

/-! ### The latch -/

namespace TcpConnection
variable {M : Type} {c c' : TcpConnection} {k : ConnCall M} {ks : List (ConnCall M)}

/-- Every call of a run keeps a connection serviceable. -/
theorem Called.serviceable (h : c.Called k c') (hc : Serviceable c) : Serviceable c' := by
  obtain ⟨s, s', rfl, hok, rfl⟩ := h
  exact hc.call hok

/-- What sets and what resets. -/
theorem call_stranded (hc : Serviceable c) (hk : k.Steady) (h : c.Called k c') :
    Stranded c' ↔ k.Withdraws ∧ Waits c ∨ Stranded c ∧ ¬ k.IsSend := by
  obtain ⟨s, s', rfl, hok, rfl⟩ := h
  by_cases hsend : k.IsSend
  · cases k with
    | send data outcomes =>
      have hnot := Serviceable.not_stranded (hc.send hok)
      simp [hnot, ConnCall.Withdraws, hsend]
    | _ => exact hsend.elim
  · by_cases hwrite : ∃ outcomes, k = .handleWrite outcomes
    · obtain ⟨outcomes, rfl⟩ := hwrite
      rw [(hc.handleWrite hok).1]
      simp [ConnCall.Withdraws, hsend]
    · have hsteers := Session.call_steers hk hsend (fun o ho => hwrite ⟨o, ho⟩) hok
      rw [hsteers.stranded_iff, and_iff_left hsend]

/-- A stranded connection writes nothing. -/
theorem call_silent (hc : Serviceable c) (hk : k.Steady) (h : c.Called k c')
    (hstranded : Stranded c) (hsend : ¬ k.IsSend) : c'.io.accepted = c.io.accepted := by
  obtain ⟨s, s', rfl, hok, rfl⟩ := h
  by_cases hwrite : ∃ outcomes, k = .handleWrite outcomes
  · obtain ⟨outcomes, rfl⟩ := hwrite
    exact (hc.handleWrite hok).2 hstranded
  · exact (Session.call_steers hk hsend (fun o ho => hwrite ⟨o, ho⟩) hok).accepted

/-- A connection is stranded when the interest was withdrawn while bytes waited and nothing was sent
since, or when it was stranded before and nothing was sent. -/
theorem run_stranded (hc : Serviceable c) (hks : ∀ k ∈ ks, k.Steady) (hrun : Run Called c ks c') :
    Stranded c' ↔
      SetSince Called (fun c k => k.Withdraws ∧ Waits c) ConnCall.IsSend c ks c' ∨
        Stranded c ∧ ∀ k ∈ ks, ¬ k.IsSend :=
  hrun.latch_iff (L := ConnCall.Steady)
    (fun _ _ _ hc hk h => ⟨h.serviceable hc, call_stranded hc hk h⟩) hks hc

/-- Until the next `send` it writes nothing. -/
theorem run_silent (hc : Serviceable c) (hks : ∀ k ∈ ks, k.Steady) (hrun : Run Called c ks c')
    (hstranded : Stranded c) (hnone : ∀ k ∈ ks, ¬ k.IsSend) :
    c'.io.accepted = c.io.accepted := by
  induction hrun with
  | nil => rfl
  | cons h _ ih =>
    rw [List.forall_mem_cons] at hks hnone
    have hnext := (call_stranded hc hks.1 h).mpr (Or.inr ⟨hstranded, hnone.1⟩)
    exact (ih (h.serviceable hc) hks.2 hnext hnone.2).trans
      (call_silent hc hks.1 h hstranded hnone.1)

end TcpConnection

end Ruduo
