import Ruduo.Proofs.Connection.OutgoingStream
import Ruduo.Proofs.Connection.Registration
import Ruduo.Spec.Writing

/-!
# `Ruduo.Proofs.Connection.Writing`: no output is stranded

`Attended` couples the output buffer with the interests. `send` puts bytes into the buffer only
together with an `enable_io(WRITABLE)`, and `handle_write` withdraws `WRITABLE` only when it has
emptied the buffer, so each call keeps it (`Attended.call`). `Attended.handleWriteLoop` says how the
loop of `handle_write` ends.

* `no_output_stranded`: in a run in which the user does not disable `WRITABLE`, bytes that wait
  are registered for `WRITABLE`, and `handle_write` stops only when the socket has no room, or
  when nothing waits any more.
-/

set_option autoImplicit false

namespace Ruduo

open Lib (Outcome Run)

/-! ### What sends and writes leave alone -/

/-- Only the output, the registration and the log may differ. -/
structure Outgoing (c c' : TcpConnection) : Prop where
  input : c'.input = c.input
  shutdowns : c'.io.shutdowns = c.io.shutdowns

/-- What leaves the bytes alone leaves the input and the shutdowns alone. -/
theorem SameBytes.outgoing {c c' : TcpConnection} (h : SameBytes c c') : Outgoing c c' :=
  ⟨h.input, h.shutdowns⟩

/-- Two parts in sequence. -/
theorem Outgoing.trans {c c' c'' : TcpConnection} (h : Outgoing c c') (h' : Outgoing c' c'') :
    Outgoing c c'' :=
  ⟨h'.input.trans h.input, h'.shutdowns.trans h.shutdowns⟩

namespace Session
variable {M : Type} {s s' : Session M}

/-- `enable_io` leaves the input and the shutdowns alone. -/
theorem enableIo_outgoing {mode : Interest} (h : s.enableIo mode = .ok s') :
    Outgoing s.conn s'.conn := by
  obtain ⟨conn, hconn, h⟩ := bind_eq_ok.mp h
  cases h
  exact (TcpConnection.enableIo_sameBytes hconn).outgoing

/-- `disable_io` leaves the input and the shutdowns alone. -/
theorem disableIo_outgoing {mode : Interest} (h : s.disableIo mode = .ok s') :
    Outgoing s.conn s'.conn := by
  obtain ⟨conn, hconn, h⟩ := bind_eq_ok.mp h
  cases h
  exact (TcpConnection.disableIo_sameBytes hconn).outgoing

/-- `send` and `handle_write` leave them alone. -/
theorem outgoing_sending (c : TcpConnection) :
    Sending (fun s : Session M => Outgoing c s.conn) (fun _ => True) where
  fault _ _ := trivial
  enableIo _ _ hs :=
    Outcome.intro (fun _ h => hs.trans (enableIo_outgoing h)) fun _ _ => trivial
  disableIo _ _ hs :=
    Outcome.intro (fun _ h => hs.trans (disableIo_outgoing h)) fun _ _ => trivial
  accepted _ _ hs := ⟨hs.input, hs.shutdowns⟩
  output _ _ hs := ⟨hs.input, hs.shutdowns⟩
  complete _ hs := hs

/-- `send` leaves the input and the shutdowns alone. -/
theorem send_outgoing {data : List UInt8} {outcomes : List (Except IoError Nat)}
    (h : s.send data outcomes = .ok s') : Outgoing s.conn s'.conn :=
  ((outgoing_sending s.conn).send ⟨rfl, rfl⟩ data outcomes).of_ok h

/-- `handle_write` leaves the input and the shutdowns alone. -/
theorem handleWrite_outgoing {outcomes : List (Except IoError Nat)}
    (h : s.handleWrite outcomes = .ok s') : Outgoing s.conn s'.conn :=
  ((outgoing_sending s.conn).handleWrite ⟨rfl, rfl⟩ outcomes).of_ok h

end Session

/-! ### The operations -/

namespace Attended
variable {c c' : TcpConnection} {bytes : List UInt8}

/-- A connection as it is made. -/
theorem make {id : Nat} {token : Token} {stream : TcpStream}
    (h : TcpConnection.make id token stream = .ok c) : Attended c := by
  obtain ⟨input, -, h⟩ := bind_eq_ok.mp h
  obtain ⟨output, hout, h⟩ := bind_eq_ok.mp h
  cases h
  have hagrees := (@Buffer.build_represents _ K_INITIAL_SIZE hout).agrees
  exact ⟨⟨[], ⟨hagrees.peek, hagrees.cheapPrepend_le⟩, by simp⟩, by simp⟩

/-- `enable_io` keeps what waits attended to. -/
theorem enableIo (h : Attended c) {mode : Interest} (hok : c.enableIo mode = .ok c') :
    Attended c' := by
  obtain ⟨bytes, hout, hwriting⟩ := h.output
  refine ⟨⟨bytes, ?_, fun hne => ?_⟩, fun _ => (TcpConnection.enableIo_interests hok).2⟩
  · rw [(TcpConnection.enableIo_sameBytes hok).output]
    exact hout
  · simp [TcpConnection.enableIo_isWriting hok, hwriting hne]

/-- `disable_io` of anything but `WRITABLE`. -/
theorem disableIo (h : Attended c) {mode : Interest} (hmode : mode.isWritable = false)
    (hok : c.disableIo mode = .ok c') : Attended c' := by
  obtain ⟨bytes, hout, hwriting⟩ := h.output
  refine ⟨⟨bytes, ?_, fun hne => ?_⟩, fun hsome => ?_⟩
  · rw [(TcpConnection.disableIo_sameBytes hok).output]
    exact hout
  · simp [TcpConnection.disableIo_isWriting hok, hwriting hne, hmode]
  · obtain ⟨hinterests, hregistered⟩ := TcpConnection.disableIo_interests hok
    cases hi : c.interests with
    | none => simp [hinterests, hi] at hsome
    | some i => simp [hregistered, hi]

/-- Shutting the stream down keeps what waits attended to. -/
theorem shutdownIo (h : Attended c) {how : Shutdown} {outcome : Except IoError Unit}
    {io : TcpStream} (hok : expect .shutdown (c.io.shutdown how outcome) = .ok io) :
    Attended { c with io } := by
  cases outcome with
  | ok u =>
    cases hok
    exact ⟨h.output, h.registered⟩
  | error e => cases hok

/-- Bytes go to `output` together with an `enable_io(WRITABLE)`. -/
theorem appendEnable {M : Type} {sent : List (TcpConnMessage M)} {s' : Session M}
    (hout : c.output.Holds bytes) (data : List UInt8)
    (hok : (do
      let conn ← c.appendOutput data
      ({ conn, sent } : Session M).enableIo .WRITABLE) = .ok s') : Attended s'.conn := by
  obtain ⟨hholds, -, -⟩ := Session.appendEnable_spec hout data hok
  obtain ⟨conn, -, hok⟩ := bind_eq_ok.mp hok
  obtain ⟨conn', henable, hok⟩ := bind_eq_ok.mp hok
  cases hok
  refine ⟨⟨_, hholds, fun _ => ?_⟩, fun _ => (TcpConnection.enableIo_interests henable).2⟩
  rw [TcpConnection.enableIo_isWriting henable]
  exact Bool.or_true _

end Attended

/-! ### The calls -/

namespace Attended
variable {M : Type} {s s' : Session M}

/-- The loop of `send`, by induction on what the socket answers. -/
theorem sendLoop (data : List UInt8) (outcomes : List (Except IoError Nat)) :
    ∀ {written : Nat} {s : Session M}, Session.sendLoop data written outcomes s = .ok s' →
      s.conn.output.Holds [] → Attended s.conn → Attended s'.conn := by
  induction outcomes with
  | nil => intro written s hok; cases hok
  | cons outcome outcomes ih =>
    intro written s hok hout h
    obtain ⟨buf, -, hok⟩ := bind_eq_ok.mp hok
    cases outcome with
    | ok n =>
      simp only [TcpConnection.doWriteWith, TcpStream.write] at hok
      have hpart : Attended { s.conn with
          io := { s.conn.io with accepted := s.conn.io.accepted ++ buf.take n } } :=
        ⟨h.output, h.registered⟩
      split at hok
      · cases hok
        exact hpart
      · exact ih hok hout hpart
    | error e =>
      simp only [TcpConnection.doWriteWith, TcpStream.write] at hok
      split at hok
      · -- The rest of the data waits.
        obtain ⟨rest, -, hok⟩ := bind_eq_ok.mp hok
        exact appendEnable hout rest hok
      · -- The whole data waits.
        exact appendEnable hout data hok

/-- `send` attends to what it appends. -/
theorem send (h : Attended s.conn) {data : List UInt8} {outcomes : List (Except IoError Nat)}
    (hok : s.send data outcomes = .ok s') : Attended s'.conn := by
  obtain ⟨bytes, hout, hwriting⟩ := h.output
  rw [Session.send, hout.readableBytes, ok_bind] at hok
  cases hw : isWriting s.conn.interests with
  | true =>
    -- The data waits behind the rest, and the connection is writing already.
    obtain ⟨output, happ, hout'⟩ := Session.appendOutput_ok hout data
    simp only [hw, Bool.not_true, Bool.false_eq_true, if_false, happ, ok_bind] at hok
    cases hok
    exact ⟨⟨_, hout', fun _ => hw⟩, h.registered⟩
  | false =>
    -- Nothing waits: the data is written directly.
    have hnil : bytes = [] := by simpa [hw] using hwriting
    rw [hnil] at hout hok
    simp only [hw, Bool.not_false, if_true, List.length_nil] at hok
    exact sendLoop data outcomes hok hout h

/-- An act that keeps writing keeps what waits attended to. -/
theorem act (h : Attended s.conn) {a : Act M} (ha : a.KeepsWriting) (hok : s.act a = .ok s') :
    Attended s'.conn := by
  cases a with
  | enableIo mode =>
    obtain ⟨conn, henable, hok⟩ := bind_eq_ok.mp hok
    cases hok
    exact h.enableIo henable
  | disableIo mode =>
    obtain ⟨conn, hdisable, hok⟩ := bind_eq_ok.mp hok
    cases hok
    exact h.disableIo ha hdisable
  | send data outcomes => exact h.send hok
  | notify msg =>
    cases hok
    exact h
  | retrieve size =>
    obtain ⟨input, -, hok⟩ := bind_eq_ok.mp hok
    cases hok
    exact ⟨h.output, h.registered⟩
  | shutdown outcome =>
    obtain ⟨conn, hconn, hok⟩ := bind_eq_ok.mp hok
    obtain ⟨io, hio, hconn⟩ := bind_eq_ok.mp hconn
    cases hconn
    cases hok
    exact h.shutdownIo hio

/-- A callback that does not disable `WRITABLE`. -/
theorem acts (as : List (Act M)) (hok : Session.acts as s = .ok s')
    (has : ∀ a ∈ as, a.KeepsWriting) (h : Attended s.conn) : Attended s'.conn := by
  have hact : ∀ a ∈ as, ∀ s : Session M, Attended s.conn →
      Outcome (s.act a) (fun s => Attended s.conn) (fun _ => True) := fun a ha s hs =>
    Outcome.intro (fun s' h => hs.act (has a ha) h) fun _ _ => trivial
  exact (Session.acts_keep as hact s h).of_ok hok

/-- The loop of `handle_read` before the end of the stream. -/
theorem handleReadLoop {as : List (Act M)} (has : ∀ a ∈ as, a.KeepsWriting)
    {closing : List (TcpConnMessage M)} (outcomes : List (Except IoError (List UInt8))) :
    ∀ {s : Session M}, Session.handleReadLoop as closing outcomes s = .ok s' →
      meetsEof outcomes = false → Attended s.conn → Attended s'.conn := by
  induction outcomes with
  | nil => intro s hok; cases hok
  | cons outcome outcomes ih =>
    intro s hok heof h
    cases outcome with
    | ok chunk =>
      cases chunk with
      | nil => simp [meetsEof] at heof
      | cons b bs =>
        -- Bytes were read: the loop goes on.
        rw [Session.handleReadLoop_bytes (by simp)] at hok
        obtain ⟨input, -, hok⟩ := bind_eq_ok.mp hok
        exact ih hok heof ⟨h.output, h.registered⟩
    | error e =>
      rw [Session.handleReadLoop_error] at hok
      split at hok
      · exact acts as hok has ⟨h.output, h.registered⟩
      · cases hok
        exact h

/-- The loop of `handle_write`: it ends because the socket has no room, and nothing but bytes
moved, or it ends because nothing waits any more, and `WRITABLE` is withdrawn. -/
theorem handleWriteLoop (outcomes : List (Except IoError Nat)) : ∀ {bytes : List UInt8}
    {s : Session M}, Session.handleWriteLoop outcomes s = .ok s' → s.conn.output.Holds bytes →
      isWriting s.conn.interests = true → s.conn.io.registered = s.conn.interests →
      Attended s'.conn ∧ (s.EndsBlocked outcomes s' ∨ Drained s'.conn) := by
  induction outcomes with
  | nil => intro bytes s hok; cases hok
  | cons outcome outcomes ih =>
    intro bytes s hok hout hwriting hregistered
    cases outcome with
    | ok n =>
      obtain ⟨output, hout', hpass⟩ := Session.handleWriteLoop_room hout n
      rw [hpass] at hok
      split at hok
      · -- Everything is written.
        rename_i hall
        obtain ⟨s₁, hdisable, hok⟩ := bind_eq_ok.mp hok
        obtain ⟨conn, hconn, hs₁⟩ := bind_eq_ok.mp hdisable
        cases hs₁
        cases hok
        rw [List.drop_of_length_le hall] at hout'
        obtain ⟨hinterests, hreg⟩ := TcpConnection.disableIo_interests hconn
        have hregistered' : conn.io.registered = conn.interests :=
          hreg.trans (if_pos (isSome_of_isWriting hwriting))
        have houtput : conn.output.Holds [] := by
          rw [(TcpConnection.disableIo_sameBytes hconn).output]
          exact hout'
        have hdone : isWriting conn.interests = false := by
          rw [TcpConnection.disableIo_isWriting hconn]
          simp [Interest.isWritable, Interest.WRITABLE]
        exact ⟨⟨⟨[], houtput, by simp⟩, fun _ => hregistered'⟩,
          Or.inr ⟨houtput.peek, hdone, hregistered' ▸ hdone⟩⟩
      · -- The loop goes on with the rest.
        rename_i hpart
        obtain ⟨hattended, hends⟩ := ih hok hout' hwriting hregistered
        refine ⟨hattended, hends.imp_left ?_⟩
        rintro ⟨pre, e, post, rfl, hkind, hpre, hlast⟩
        refine ⟨.ok n :: pre, e, post, rfl, hkind, ?_, ?_⟩
        · rw [hpass, if_neg hpart, hpre]
        · rw [List.cons_append, hpass, if_neg hpart, hlast]
    | error e =>
      rw [Session.handleWriteLoop_error hout] at hok
      split at hok
      · -- The socket is full: this is the last `do_write`.
        rename_i hkind
        cases hok
        refine ⟨⟨⟨bytes, hout, fun _ => hwriting⟩, fun _ => hregistered⟩, Or.inl ?_⟩
        refine ⟨[], e, outcomes, rfl, hkind, rfl, ?_⟩
        rw [List.nil_append, Session.handleWriteLoop_error hout, if_pos hkind]
      · -- Another error is only logged.
        rename_i hkind
        obtain ⟨hattended, hends⟩ := ih hok hout hwriting hregistered
        refine ⟨hattended, hends.imp_left ?_⟩
        rintro ⟨pre, e', post, rfl, hkind', hpre, hlast⟩
        refine ⟨.error e :: pre, e', post, rfl, hkind', ?_, ?_⟩
        · rw [Session.handleWriteLoop_error hout, if_neg hkind, hpre]
        · rw [List.cons_append, Session.handleWriteLoop_error hout, if_neg hkind, hlast]

/-- `handle_write` attends to what it leaves: it ends blocked, or with nothing left. -/
theorem handleWrite (h : Attended s.conn) (hwriting : isWriting s.conn.interests = true)
    {outcomes : List (Except IoError Nat)} (hok : s.handleWrite outcomes = .ok s') :
    Attended s'.conn ∧ (s.EndsBlocked outcomes s' ∨ Drained s'.conn) := by
  obtain ⟨bytes, hout, -⟩ := h.output
  rw [Session.handleWrite, if_pos hwriting] at hok
  exact handleWriteLoop outcomes hok hout hwriting (h.registered (isSome_of_isWriting hwriting))

/-- What every call keeps, as long as the user does not disable `WRITABLE`. -/
theorem call (h : Attended s.conn) {l : ConnCall M} (hl : l.KeepsWriting)
    (hok : s.call l = .ok s') : Attended s'.conn := by
  cases l with
  | enableIo mode =>
    obtain ⟨conn, henable, hok⟩ := bind_eq_ok.mp hok
    cases hok
    exact h.enableIo henable
  | disableIo mode =>
    obtain ⟨conn, hdisable, hok⟩ := bind_eq_ok.mp hok
    cases hok
    exact h.disableIo hl hdisable
  | send data outcomes => exact h.send hok
  | handleRead outcomes as closing =>
    exact handleReadLoop hl.2 outcomes hok hl.1 ⟨h.output, h.registered⟩
  | handleWrite outcomes =>
    cases hw : isWriting s.conn.interests with
    | true => exact (h.handleWrite hw hok).1
    | false =>
      simp [Session.call, Session.handleWrite, hw] at hok
      cases hok
      exact h
  | shutdownMessage how outcome =>
    simp only [Session.call, Session.shutdownMessage] at hok
    split at hok
    · obtain ⟨io, hio, hok⟩ := bind_eq_ok.mp hok
      cases hok
      exact h.shutdownIo hio
    · cases hok
      exact h
  | context f msgs =>
    cases hok
    exact ⟨h.output, h.registered⟩
  | onWriteComplete as | timer f as | established cb msgs as =>
    exact acts as hok hl ⟨h.output, h.registered⟩

/-- Bytes that wait are registered for `WRITABLE`. -/
theorem notStranded {c : TcpConnection} (h : Attended c) : NotStranded c := by
  obtain ⟨bytes, hout, hwriting⟩ := h.output
  refine ⟨bytes, hout.peek, fun hne => ?_⟩
  rw [h.registered (isSome_of_isWriting (hwriting hne))]
  exact hwriting hne

/-- A run in which the user does not disable `WRITABLE`. -/
theorem run {s : Session M} {ls : List (ConnCall M)} (hls : ∀ l ∈ ls, l.KeepsWriting)
    (hrun : Run Session.CallStep s ls s') (h : Attended s.conn) : Attended s'.conn := by
  induction hrun with
  | nil => exact h
  | cons hstep _ ih =>
    exact ih (fun l hl => hls l (List.mem_cons_of_mem _ hl))
      (h.call (hls _ List.mem_cons_self) hstep)

end Attended

/-- **No output is stranded.** Take a connection as it is made, on any stream, and any run of
calls on it in which the user does not disable `WRITABLE` and no read meets the end of the
stream. Bytes that wait are registered for `WRITABLE`, and a `handle_write` that finds the
connection writing returns because the socket has no room, or with nothing left to write and
`WRITABLE` withdrawn. -/
theorem no_output_stranded {M : Type} {id : Nat} {token : Token} {stream : TcpStream}
    {c : TcpConnection} (hmake : TcpConnection.make id token stream = .ok c)
    (log : List ConnEvent) (sent : List (TcpConnMessage M)) {ls : List (ConnCall M)}
    (hls : ∀ l ∈ ls, l.KeepsWriting) {s : Session M}
    (hrun : Run Session.CallStep { conn := { c with log }, sent } ls s) :
    NotStranded s.conn ∧
      ∀ outcomes s', isWriting s.conn.interests = true → s.handleWrite outcomes = .ok s' →
        s.EndsBlocked outcomes s' ∨ Drained s'.conn := by
  have hmade := Attended.make hmake
  have h : Attended s.conn := Attended.run hls hrun ⟨hmade.output, hmade.registered⟩
  exact ⟨h.notStranded, fun outcomes s' hwriting hok => (h.handleWrite hwriting hok).2⟩

section Example

/-- A connection that is set up to read, and a send whose rest has to wait. -/
def waitingCalls : List (ConnCall String) :=
  [.established 0 [] [.enableIo .READABLE],
    .send [1, 2] [.ok 1, .error { kind := .wouldBlock, rawOsError := none }]]

/-- None of the calls withdraws the interest in writing. -/
theorem waitingCalls_keepsWriting : ∀ l ∈ waitingCalls, l.KeepsWriting := by
  simp [waitingCalls, ConnCall.KeepsWriting, Act.KeepsWriting]

/-- A connection as it is made. -/
def newConn : TcpConnection where
  id := 0
  token := 0
  io := .fresh
  input := { data := List.replicate 1032 0, readIdx := 8, writeIdx := 8 }
  output := { data := List.replicate 1032 0, readIdx := 8, writeIdx := 8 }
  interests := none
  log := []

set_option maxRecDepth 8000 in
/-- The rest of the data waits under `WRITABLE`. -/
theorem no_output_stranded_waiting :
    ∃ s : Session String, Run Session.CallStep { conn := newConn, sent := [] } waitingCalls s ∧
      NotStranded s.conn ∧
      ∀ outcomes s', isWriting s.conn.interests = true → s.handleWrite outcomes = .ok s' →
        s.EndsBlocked outcomes s' ∨ Drained s'.conn := by
  have hmake : TcpConnection.make 0 0 .fresh = .ok newConn := rfl
  have hrun : Run Session.CallStep ({ conn := newConn, sent := [] } : Session String)
      waitingCalls _ := .cons rfl (.cons rfl (.nil _))
  exact ⟨_, hrun, no_output_stranded hmake [] [] waitingCalls_keepsWriting hrun⟩

end Example

end Ruduo
