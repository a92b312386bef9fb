import Ruduo.Lib.Outcome
import Ruduo.Model.Connection

/-!
# `Ruduo.Proofs.Connection.Sessions`: what a handler call can do to a connection

A handler call changes its connection through a few operations: it enables and disables
interests, records an event, moves bytes through the buffers and the socket, shuts the stream
down. `Quiet P E A` says that a predicate `P` of the connection is kept by the operations other
than `enable_io` and a change of the output buffer, when only events in `A` are recorded and
every fault is in `E`. `Stable P E A` adds these two operations. `Sending P E` is about the
operations of `send` and `handle_write` alone, and about a predicate of the whole session, which
may speak of the messages that were sent.

Each function of a session then keeps `P` (`Quiet.handleRead`, `Sending.send`,
`Sending.handleWrite`, `Stable.acts`). An invariant of connections is proved once for the
operations, and never unfolds these functions.
-/

set_option autoImplicit false

namespace Ruduo

open Lib (Outcome)

/-- The panics of `enable_io`, `disable_io` and `add_connecting`: the poll refused. -/
def Fault.IsRegistration : Fault → Prop
  | .panicked (.register _) | .panicked (.reregister _) | .panicked (.deregister _)
  | .panicked (.registerConnecting _) => True
  | _ => False

/-- The connection keeps everything but its registration and its log. -/
structure SameBytes (c c' : TcpConnection) : Prop where
  id : c'.id = c.id
  token : c'.token = c.token
  input : c'.input = c.input
  output : c'.output = c.output
  accepted : c'.io.accepted = c.io.accepted
  shutdowns : c'.io.shutdowns = c.io.shutdowns

/-- `enable_io` adds to the interests, registers the stream under them, and is recorded. -/
theorem TcpConnection.enableIo_ok {c c' : TcpConnection} {mode : Interest}
    (h : c.enableIo mode = .ok c') :
    ∃ i, i = c.interests.elim mode (fun i => i.add mode) ∧
      c' = { c with
        io := { c.io with registered := some i }
        interests := some i
        log := c.log ++ [.enabled mode] } := by
  unfold enableIo record at h
  cases hi : c.interests <;> cases hr : c.io.registered <;>
    simp only [hi, hr, Registry.register, Registry.reregister, expect, ok_bind, error_bind] at h
  all_goals cases h
  all_goals exact ⟨_, rfl, rfl⟩

/-- `disable_io` takes from the interests, and is recorded. The stream is registered under what is
left. With nothing to take from, the registration stays. -/
theorem TcpConnection.disableIo_ok {c c' : TcpConnection} {mode : Interest}
    (h : c.disableIo mode = .ok c') :
    ∃ interests registered, interests = c.interests.bind (fun i => i.remove mode) ∧
      registered = (if c.interests.isSome then interests else c.io.registered) ∧
      c' = { c with
        io := { c.io with registered }
        interests
        log := c.log ++ [.disabled mode] } := by
  unfold disableIo record at h
  cases hi : c.interests with
  | none =>
    simp only [hi] at h
    cases h
    exact ⟨none, c.io.registered, rfl, rfl, rfl⟩
  | some i =>
    cases hm : i.remove mode <;> cases hr : c.io.registered <;>
      simp only [hi, hm, hr, Registry.deregister, Registry.reregister, expect, ok_bind,
        error_bind] at h
    all_goals cases h
    all_goals exact ⟨_, _, hm.symm, rfl, rfl⟩

/-- `enable_io` leaves the bytes alone. -/
theorem TcpConnection.enableIo_sameBytes {c c' : TcpConnection} {mode : Interest}
    (h : c.enableIo mode = .ok c') : SameBytes c c' := by
  obtain ⟨i, -, rfl⟩ := enableIo_ok h
  exact ⟨rfl, rfl, rfl, rfl, rfl, rfl⟩

/-- `disable_io` leaves the bytes alone. -/
theorem TcpConnection.disableIo_sameBytes {c c' : TcpConnection} {mode : Interest}
    (h : c.disableIo mode = .ok c') : SameBytes c c' := by
  obtain ⟨interests, registered, -, -, rfl⟩ := disableIo_ok h
  exact ⟨rfl, rfl, rfl, rfl, rfl, rfl⟩

/-- `enable_io` is recorded. -/
theorem TcpConnection.enableIo_log {c c' : TcpConnection} {mode : Interest}
    (h : c.enableIo mode = .ok c') : c'.log = c.log ++ [.enabled mode] := by
  obtain ⟨i, -, rfl⟩ := enableIo_ok h
  rfl

/-- `disable_io` is recorded. -/
theorem TcpConnection.disableIo_log {c c' : TcpConnection} {mode : Interest}
    (h : c.disableIo mode = .ok c') : c'.log = c.log ++ [.disabled mode] := by
  obtain ⟨interests, registered, -, -, rfl⟩ := disableIo_ok h
  rfl

/-- After `enable_io` the interests are those before with `mode`, and so is the registration. -/
theorem TcpConnection.enableIo_interests {c c' : TcpConnection} {mode : Interest}
    (h : c.enableIo mode = .ok c') :
    c'.interests = some (c.interests.elim mode fun i => i.add mode) ∧
      c'.io.registered = c'.interests := by
  obtain ⟨i, rfl, rfl⟩ := enableIo_ok h
  exact ⟨rfl, rfl⟩

/-- After `disable_io` the interests are those before without `mode`. The registration follows, if
there is an interest at all. -/
theorem TcpConnection.disableIo_interests {c c' : TcpConnection} {mode : Interest}
    (h : c.disableIo mode = .ok c') :
    c'.interests = c.interests.bind (fun i => i.remove mode) ∧
      c'.io.registered = if c.interests.isSome then c'.interests else c.io.registered := by
  obtain ⟨interests, registered, hinterests, hregistered, rfl⟩ := disableIo_ok h
  exact ⟨hinterests, hregistered⟩

/-- What `enable_io` does to `is_writing`. -/
theorem TcpConnection.enableIo_isWriting {c c' : TcpConnection} {mode : Interest}
    (h : c.enableIo mode = .ok c') :
    isWriting c'.interests = (isWriting c.interests || mode.isWritable) := by
  rw [(enableIo_interests h).1]
  cases c.interests <;> simp [isWriting]

/-- What `disable_io` does to `is_writing`. -/
theorem TcpConnection.disableIo_isWriting {c c' : TcpConnection} {mode : Interest}
    (h : c.disableIo mode = .ok c') :
    isWriting c'.interests = (isWriting c.interests && !mode.isWritable) := by
  rw [(disableIo_interests h).1]
  cases c.interests with
  | none => rfl
  | some i => exact isWriting_remove i mode

/-! ### The loop of `handle_read`, pass by pass -/

namespace Session
variable {M : Type} {as : List (Act M)} {closing : List (TcpConnMessage M)}

/-- One pass of the loop of `handle_read`, when the socket has bytes. -/
theorem handleReadLoop_bytes {chunk : List UInt8} (hne : chunk ≠ [])
    (outcomes : List (Except IoError (List UInt8))) (s : Session M) :
    handleReadLoop as closing (.ok chunk :: outcomes) s = (do
      let input ← s.conn.input.append (chunk.take K_READ_BUF_SIZE)
      handleReadLoop as closing outcomes { s with conn := { s.conn with input } }) := by
  have hpos : (chunk.take K_READ_BUF_SIZE).length > 0 := by
    have hlen := List.length_pos_iff.mpr hne
    simp only [List.length_take, K_READ_BUF_SIZE]
    omega
  rw [handleReadLoop, TcpConnection.doRead]
  cases s.conn.input.append (chunk.take K_READ_BUF_SIZE) with
  | error f => rfl
  | ok input => simp only [ok_bind, if_pos hpos]

/-- The pass of the loop of `handle_read` at the end of the stream. -/
theorem handleReadLoop_eof (outcomes : List (Except IoError (List UInt8))) (s : Session M) :
    handleReadLoop as closing (.ok [] :: outcomes) s = (do
      let input ← s.conn.input.append []
      let s ← { s with conn := { s.conn with input } }.disableIo (Interest.READABLE.add .WRITABLE)
      .ok ((s.onClose closing).notify (.removed s.conn.token))) := by
  rw [handleReadLoop, TcpConnection.doRead]
  cases h : s.conn.input.append [] with
  | error f => simp [h]
  | ok input =>
    simp [h]
    rfl

/-- The pass of the loop of `handle_read` at an error: `WouldBlock` announces what was read, and
any other error is only logged. -/
theorem handleReadLoop_error (e : IoError) (outcomes : List (Except IoError (List UInt8)))
    (s : Session M) :
    handleReadLoop as closing (.error e :: outcomes) s =
      if e.kind = .wouldBlock then s.onReadComplete as else .ok s := rfl

end Session
/-! ### What all operations keep -/

/-- `P` is kept by the operations that neither enable interests nor change the output
buffer. -/
structure Quiet (P : TcpConnection → Prop) (E : Fault → Prop) (A : ConnEvent → Prop) : Prop where
  fault : ∀ f : Fault, ¬ f.IsRegistration → E f
  disableIo : ∀ c mode, P c → Outcome (c.disableIo mode) P E
  record : ∀ c e, A e → P c → P (c.record e)
  input : ∀ (c : TcpConnection) b, P c → P { c with input := b }
  accepted : ∀ (c : TcpConnection) bytes, P c → P { c with io := { c.io with accepted := bytes } }
  shutdowns : ∀ (c : TcpConnection) l, P c → P { c with io := { c.io with shutdowns := l } }

/-- `P` is kept by all operations. -/
structure Stable (P : TcpConnection → Prop) (E : Fault → Prop) (A : ConnEvent → Prop) : Prop
    extends Quiet P E A where
  enableIo : ∀ c mode, P c → Outcome (c.enableIo mode) P E
  output : ∀ (c : TcpConnection) b, P c → P { c with output := b }

section
variable {P : List ConnEvent → Prop} {A : ConnEvent → Prop}

/-- No operation changes the `id` or the token. -/
theorem stable_identity (R : Nat → Token → Prop) :
    Stable (fun c => R c.id c.token) (fun _ => True) (fun _ => True) where
  fault _ _ := trivial
  enableIo c mode h := by
    refine Outcome.intro (fun c' hc' => ?_) fun _ _ => trivial
    have hsame := TcpConnection.enableIo_sameBytes hc'
    rw [hsame.id, hsame.token]
    exact h
  disableIo c mode h := by
    refine Outcome.intro (fun c' hc' => ?_) fun _ _ => trivial
    have hsame := TcpConnection.disableIo_sameBytes hc'
    rw [hsame.id, hsame.token]
    exact h
  record _ _ _ h := h
  input _ _ h := h
  output _ _ h := h
  accepted _ _ h := h
  shutdowns _ _ h := h

/-- A predicate of the log that the events in `A` keep, and enables and disables, is kept by
all operations. -/
theorem stable_log (hrecord : ∀ log e, A e → P log → P (log ++ [e]))
    (henabled : ∀ mode, A (.enabled mode)) (hdisabled : ∀ mode, A (.disabled mode)) :
    Stable (fun c => P c.log) (fun _ => True) A where
  fault _ _ := trivial
  enableIo c mode h := by
    refine Outcome.intro (fun c' hc' => ?_) fun _ _ => trivial
    rw [TcpConnection.enableIo_log hc']
    exact hrecord _ _ (henabled mode) h
  disableIo c mode h := by
    refine Outcome.intro (fun c' hc' => ?_) fun _ _ => trivial
    rw [TcpConnection.disableIo_log hc']
    exact hrecord _ _ (hdisabled mode) h
  record _ _ he h := hrecord _ _ he h
  input _ _ h := h
  output _ _ h := h
  accepted _ _ h := h
  shutdowns _ _ h := h

end

variable {P : TcpConnection → Prop} {E : Fault → Prop} {A : ConnEvent → Prop} {M : Type}

/-- The buffers fault only in their own ways. -/
def BufferFault (f : Fault) : Prop := ¬ f.IsRegistration

/-- A subtraction only faults as a buffer does. -/
theorem u64Sub_fault (a b : Nat) : Outcome (u64Sub a b) (fun _ => True) BufferFault := by
  unfold u64Sub
  split
  · trivial
  · exact id

/-- A slice only faults as a buffer does. -/
theorem sliceRange_fault {α : Type} (l : List α) (start stop : Nat) :
    Outcome (sliceRange l start stop) (fun _ => True) BufferFault := by
  unfold sliceRange
  split
  · trivial
  · exact id

/-- Writing over a slice only faults as a buffer does. -/
theorem splice_fault {α : Type} (l : List α) (start stop : Nat) (new : List α) :
    Outcome (splice l start stop new) (fun _ => True) BufferFault := by
  unfold splice
  split
  · trivial
  · exact id

/-- An assertion only faults as a buffer does. -/
theorem assertThat_fault (c : Bool) : Outcome (assertThat c) (fun _ => True) BufferFault := by
  unfold assertThat
  split
  · trivial
  · exact id

/-- `ensure_writable` only faults as a buffer does. -/
theorem ensureWritable_fault (b : Buffer) (len : Nat) :
    Outcome (b.ensureWritable len) (fun _ => True) BufferFault := by
  unfold Buffer.ensureWritable Buffer.writableBytes Buffer.readableBytes
  refine (u64Sub_fault _ _).bind fun _ _ => ?_
  refine Outcome.bind (Q := fun _ => True) (Outcome.ite (fun _ => Outcome.ite (fun _ => trivial)
    fun _ => ?_) fun _ => trivial) fun _ _ => ?_
  · refine (assertThat_fault _).bind fun _ _ => (u64Sub_fault _ _).bind fun _ _ => ?_
    refine Outcome.bind (Q := fun _ => True) ((sliceRange_fault _ _ _).bind fun _ _ =>
      splice_fault _ _ _ _) fun _ _ => ?_
    exact (u64Sub_fault _ _).bind fun _ _ => (assertThat_fault _).bind fun _ _ => trivial
  · exact (u64Sub_fault _ _).bind fun _ _ => (assertThat_fault _).bind fun _ _ => trivial

/-- `append` only faults as a buffer does. -/
theorem append_fault (b : Buffer) (data : List UInt8) :
    Outcome (b.append data) (fun _ => True) BufferFault :=
  (ensureWritable_fault _ _).bind fun _ _ => (splice_fault _ _ _ _).bind fun _ _ => trivial

/-- `retrieve` only faults as a buffer does. -/
theorem retrieve_fault (b : Buffer) (size : Nat) :
    Outcome (b.retrieve size) (fun _ => True) BufferFault :=
  (u64Sub_fault _ _).bind fun _ _ => (assertThat_fault _).bind fun _ _ =>
    Outcome.ite (fun _ => trivial) fun _ => trivial

/-- A fault that is not about the registration is in `E`. -/
theorem Quiet.of_fault (h : Quiet P E A) {α : Type} {x : Except Fault α} {Q : α → Prop}
    (hx : Outcome x Q BufferFault) : Outcome x Q E := hx.mono (fun _ => id) h.fault

namespace Quiet

/-- `do_read` keeps it. -/
theorem doRead (h : Quiet P E A) {c : TcpConnection} (hc : P c)
    (outcome : Except IoError (List UInt8)) : Outcome (c.doRead outcome) (fun r => P r.1) E := by
  cases outcome with
  | ok chunk => exact (h.of_fault (append_fault _ _)).bind fun b _ => h.input c b hc
  | error e => exact hc

/-- `do_write_with` keeps it. -/
theorem doWriteWith (h : Quiet P E A) {c : TcpConnection} (hc : P c) (data : List UInt8)
    (outcome : Except IoError Nat) : P (c.doWriteWith data outcome).1 := by
  cases outcome with
  | ok n => exact h.accepted c _ hc
  | error e => exact hc

/-- Shutting the stream down keeps it. -/
theorem shutdown (h : Quiet P E A) {c : TcpConnection} (hc : P c) (how : Shutdown)
    (outcome : Except IoError Unit) :
    Outcome (expect .shutdown (c.io.shutdown how outcome)) (fun io => P { c with io }) E := by
  cases outcome with
  | ok u => exact h.shutdowns c _ hc
  | error e => exact h.fault _ id

/-- `disable_io` keeps it. -/
theorem sessionDisableIo (h : Quiet P E A) {s : Session M} (hs : P s.conn) (mode : Interest) :
    Outcome (s.disableIo mode) (fun s => P s.conn) E :=
  (h.disableIo s.conn mode hs).bind fun _ hc => hc

/-- `handle_read` keeps `P` when the callback `on_read_complete` does. -/
theorem handleRead (h : Quiet P E A) {s : Session M} (hs : P s.conn)
    (outcomes : List (Except IoError (List UInt8))) {as : List (Act M)}
    (closing : List (TcpConnMessage M)) (hreading : A .reading) (hclosed : A .closed)
    (hcomplete : ∀ s : Session M, P s.conn →
      Outcome (s.onReadComplete as) (fun s => P s.conn) E) :
    Outcome (s.handleRead outcomes as closing) (fun s => P s.conn) E := by
  -- By induction on what the socket answers.
  have loop : ∀ (outcomes : List (Except IoError (List UInt8))) (s : Session M), P s.conn →
      Outcome (Session.handleReadLoop as closing outcomes s) (fun s => P s.conn) E := by
    intro outcomes
    induction outcomes with
    | nil => intro s _; exact h.fault _ id
    | cons outcome outcomes ih =>
      intro s hs
      refine (h.doRead hs outcome).bind fun r hr => ?_
      obtain ⟨conn, res⟩ := r
      cases res with
      | ok n =>
        -- Bytes were read, or the peer has closed.
        refine Outcome.ite (fun _ => ih _ hr) fun _ => ?_
        exact (h.sessionDisableIo hr _).bind fun s hs => h.record _ _ hclosed hs
      | error e => exact Outcome.ite (fun _ => hcomplete _ hr) fun _ => hr
  exact loop outcomes _ (h.record _ _ hreading hs)

end Quiet

/-! ### `send` and `handle_write` -/

/-- `P` is kept by the operations that `send` and `handle_write` are made of. -/
structure Sending (P : Session M → Prop) (E : Fault → Prop) : Prop where
  fault : ∀ f : Fault, ¬ f.IsRegistration → E f
  enableIo : ∀ s mode, P s → Outcome (s.enableIo mode) P E
  disableIo : ∀ s mode, P s → Outcome (s.disableIo mode) P E
  accepted : ∀ (s : Session M) bytes, P s →
    P { s with conn := { s.conn with io := { s.conn.io with accepted := bytes } } }
  output : ∀ (s : Session M) b, P s → P { s with conn := { s.conn with output := b } }
  complete : ∀ s, P s → P (s.notify (.writeComplete s.conn.token))

namespace Sending
variable {P : Session M → Prop} {s : Session M}

/-- A fault that is not about the registration is in `E`. -/
theorem of_fault (h : Sending P E) {α : Type} {x : Except Fault α} {Q : α → Prop}
    (hx : Outcome x Q BufferFault) : Outcome x Q E := hx.mono (fun _ => id) h.fault

/-- `do_write_with` keeps it. -/
theorem doWriteWith (h : Sending P E) (hs : P s) (data : List UInt8)
    (outcome : Except IoError Nat) :
    P { s with conn := (s.conn.doWriteWith data outcome).1 } := by
  cases outcome with
  | ok n => exact h.accepted s _ hs
  | error e => exact hs

/-- `do_write` keeps it. -/
theorem doWrite (h : Sending P E) (hs : P s) (outcome : Except IoError Nat) :
    Outcome (s.conn.doWrite outcome) (fun r => P { s with conn := r.1 }) E := by
  refine (h.of_fault (sliceRange_fault _ _ _)).bind fun buf _ => ?_
  exact h.doWriteWith hs buf outcome

/-- Appending to `output` keeps it. -/
theorem appendOutput (h : Sending P E) (hs : P s) (data : List UInt8) :
    Outcome (s.conn.appendOutput data) (fun conn => P { s with conn }) E :=
  (h.of_fault (append_fault _ _)).bind fun b _ => h.output s b hs

/-- The loop of `send`, by induction on what the socket answers. -/
theorem sendLoop (h : Sending P E) (data : List UInt8) :
    ∀ (outcomes : List (Except IoError Nat)) (written : Nat) (s : Session M), P s →
      Outcome (Session.sendLoop data written outcomes s) P E := by
  intro outcomes
  induction outcomes with
  | nil => intro written s _; exact h.fault _ id
  | cons outcome outcomes ih =>
    intro written s hs
    refine (h.of_fault (sliceRange_fault _ _ _)).bind fun buf _ => ?_
    have hw := h.doWriteWith hs buf outcome
    cases hres : (s.conn.doWriteWith buf outcome).2 with
    | ok n =>
      simp only [hres]
      exact Outcome.ite (fun _ => h.complete _ hw) fun _ => ih _ _ hw
    | error e =>
      simp only [hres]
      -- The rest waits in the output buffer, or the whole data.
      refine Outcome.ite (fun _ => ?_) fun _ => ?_
      · refine (h.of_fault (sliceRange_fault _ _ _)).bind fun rest _ => ?_
        exact (h.appendOutput hw rest).bind fun c hc => h.enableIo _ _ hc
      · exact (h.appendOutput hw data).bind fun c hc => h.enableIo _ _ hc

/-- `send` keeps it, whatever the socket answers. -/
theorem send (h : Sending P E) (hs : P s) (data : List UInt8)
    (outcomes : List (Except IoError Nat)) : Outcome (s.send data outcomes) P E := by
  refine Outcome.ite (fun _ => ?_) fun _ => ?_
  · refine (h.of_fault (u64Sub_fault _ _)).bind fun readable _ => ?_
    refine Outcome.ite (fun _ => h.sendLoop data outcomes 0 s hs) fun _ => ?_
    exact (h.appendOutput hs data).bind fun c hc => h.enableIo _ _ hc
  · exact (h.appendOutput hs data).bind fun c hc => hc

/-- `handle_write` keeps `P`. -/
theorem handleWrite (h : Sending P E) (hs : P s) (outcomes : List (Except IoError Nat)) :
    Outcome (s.handleWrite outcomes) P E := by
  -- By induction on what the socket answers.
  have loop : ∀ (outcomes : List (Except IoError Nat)) (s : Session M), P s →
      Outcome (Session.handleWriteLoop outcomes s) P E := by
    intro outcomes
    induction outcomes with
    | nil => intro s _; exact h.fault _ id
    | cons outcome outcomes ih =>
      intro s hs
      refine (h.doWrite hs outcome).bind fun r hr => ?_
      obtain ⟨conn, res⟩ := r
      cases res with
      | ok n =>
        refine (h.of_fault (retrieve_fault _ _)).bind fun output _ => ?_
        have ho := h.output _ output hr
        refine (h.of_fault (u64Sub_fault _ _)).bind fun readable _ => ?_
        refine Outcome.ite (fun _ => ?_) fun _ => ih _ ho
        exact (h.disableIo _ _ ho).bind fun s hs => h.complete s hs
      | error e => exact Outcome.ite (fun _ => hr) fun _ => ih _ hr
  exact Outcome.ite (fun _ => loop outcomes s hs) fun _ => hs

end Sending

/-- A callback keeps what each of its acts keeps. -/
theorem Session.acts_keep {P : Session M → Prop} (as : List (Act M))
    (hact : ∀ a ∈ as, ∀ s, P s → Outcome (s.act a) P E) :
    ∀ s, P s → Outcome (Session.acts as s) P E := by
  induction as with
  | nil => intro s hs; exact hs
  | cons a as ih =>
    intro s hs
    refine (hact a List.mem_cons_self s hs).bind fun s₁ hs₁ => ?_
    exact ih (fun b hb => hact b (List.mem_cons_of_mem a hb)) s₁ hs₁

namespace Stable

/-- `enable_io` keeps it. -/
theorem sessionEnableIo (h : Stable P E A) {s : Session M} (hs : P s.conn) (mode : Interest) :
    Outcome (s.enableIo mode) (fun s => P s.conn) E :=
  (h.enableIo s.conn mode hs).bind fun _ hc => hc

/-- What all operations keep, the operations of a send keep. -/
theorem sending (h : Stable P E A) : Sending (fun s : Session M => P s.conn) E where
  fault := h.fault
  enableIo _ mode hs := h.sessionEnableIo hs mode
  disableIo _ mode hs := h.sessionDisableIo hs mode
  accepted s bytes hs := h.accepted s.conn bytes hs
  output s b hs := h.output s.conn b hs
  complete _ hs := hs

/-- `send` keeps it. -/
theorem send (h : Stable P E A) {s : Session M} (hs : P s.conn) (data : List UInt8)
    (outcomes : List (Except IoError Nat)) :
    Outcome (s.send data outcomes) (fun s => P s.conn) E := h.sending.send hs data outcomes

/-- Every act keeps it. -/
theorem act (h : Stable P E A) {s : Session M} (hs : P s.conn) (a : Act M) :
    Outcome (s.act a) (fun s => P s.conn) E := by
  cases a with
  | enableIo mode => exact h.sessionEnableIo hs mode
  | disableIo mode => exact h.sessionDisableIo hs mode
  | send data outcomes => exact h.send hs data outcomes
  | notify msg => exact hs
  | retrieve size => exact (h.of_fault (retrieve_fault _ _)).bind fun b _ => h.input s.conn b hs
  | shutdown outcome =>
    have hshut : Outcome (s.conn.shutdown outcome) P E :=
      (h.shutdown hs .write outcome).bind fun _ hc => hc
    exact hshut.bind fun _ hc => hc

/-- A callback keeps `P`, whatever it does. -/
theorem acts (h : Stable P E A) (as : List (Act M)) :
    ∀ s : Session M, P s.conn → Outcome (Session.acts as s) (fun s => P s.conn) E :=
  Session.acts_keep as fun a _ _ hs => h.act hs a

/-- `handle_write` keeps `P`. -/
theorem handleWrite (h : Stable P E A) {s : Session M} (hs : P s.conn)
    (outcomes : List (Except IoError Nat)) :
    Outcome (s.handleWrite outcomes) (fun s => P s.conn) E := h.sending.handleWrite hs outcomes

end Stable

end Ruduo
