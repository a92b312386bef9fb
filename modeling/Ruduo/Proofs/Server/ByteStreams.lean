import Ruduo.Proofs.Connection.Announcement
import Ruduo.Proofs.Connection.OutgoingStream
import Ruduo.Proofs.Server.ConnectionRun
import Ruduo.Spec.ByteStreams

/-!
# `Ruduo.Proofs.Server.ByteStreams`: the byte streams of a connection in a run of its worker

`Streams` and `Reads` compose (`Streams.trans`, `Reads.trans`), and each call on a connection has
its own (`call_streams`, `call_reads`). With `connection_run` they add up over any run of the
worker:

* `outgoing_of_run`: what was accepted and what waits is what was sent.
* `incoming_of_run`: what is in `input` is what was received and not taken.
-/

set_option autoImplicit false

namespace Ruduo

open Lib (Emits Run Slab LawfulSlab)

variable {M : Type} {xs ys : List SendCall} {added added' got got' : List UInt8} {n n' : Nat}

/-! ### Composition -/

/-- What the sends of two parts carry. -/
theorem Carries.append (h : Carries xs added) (h' : Carries ys added') :
    Carries (xs ++ ys) (added ++ added') := by
  induction h with
  | nil => exact h'
  | cons x part hpart _ ih =>
    rw [List.append_assoc]
    exact .cons x part hpart ih

/-- Without failures midway, the sends carry their data. -/
theorem Carries.of_clean (h : Carries xs added) (hclean : ∀ x ∈ xs, x.Clean) :
    added = xs.flatMap SendCall.data := by
  induction h with
  | nil => rfl
  | cons x part hpart _ ih =>
    have hx : Session.acceptedBeforeFailure x.data.length 0 x.outcomes = 0 :=
      hclean x List.mem_cons_self
    rw [hx, List.take_zero, or_self] at hpart
    rw [hpart, ih fun y hy => hclean y (List.mem_cons_of_mem x hy)]
    rfl

namespace TcpConnection
variable {c c' c'' : TcpConnection}

/-- Neither the output buffer nor what was accepted changes. -/
theorem Streams.of_same (houtput : c'.output = c.output)
    (haccepted : c'.io.accepted = c.io.accepted) : c.Streams c' [] := by
  intro bytes h
  exact ⟨bytes, [], houtput ▸ h, .nil, by rw [haccepted, List.append_nil]⟩

/-- Two parts in sequence: the sends of both are carried. -/
theorem Streams.trans (h : c.Streams c' xs) (h' : c'.Streams c'' ys) :
    c.Streams c'' (xs ++ ys) := by
  intro bytes hbytes
  obtain ⟨bytes₁, added₁, hbytes₁, hcarries₁, heq₁⟩ := h bytes hbytes
  obtain ⟨bytes₂, added₂, hbytes₂, hcarries₂, heq₂⟩ := h' bytes₁ hbytes₁
  refine ⟨bytes₂, added₁ ++ added₂, hbytes₂, hcarries₁.append hcarries₂, ?_⟩
  rw [heq₂, heq₁, List.append_assoc _ added₁]

/-- The input buffer does not change. -/
theorem Reads.of_same (h : c'.input = c.input) : c.Reads c' [] 0 := by
  intro bytes hbytes
  simpa [h] using hbytes

/-- Two parts in sequence: what is received and what is taken adds up. -/
theorem Reads.trans (h : c.Reads c' got n) (h' : c'.Reads c'' got' n') :
    c.Reads c'' (got ++ got') (n + n') := by
  intro bytes hbytes
  obtain ⟨hn, hbytes₁⟩ := h bytes hbytes
  obtain ⟨hn', hbytes₂⟩ := h' _ hbytes₁
  -- What is taken later comes after what was taken before.
  have hdrop : (bytes ++ got).drop n ++ got' = (bytes ++ (got ++ got')).drop n := by
    rw [← List.append_assoc, List.drop_append_of_le_length hn]
  rw [hdrop] at hn' hbytes₂
  rw [List.drop_drop] at hbytes₂
  refine ⟨?_, hbytes₂⟩
  simp only [List.length_drop, List.length_append] at hn hn' ⊢
  omega

end TcpConnection

/-! ### One call -/

namespace Session
variable {s s' : Session M} {as : List (Act M)} {closing : List (TcpConnMessage M)} {k : ConnCall M}

/-- What `send` adds to the outgoing stream. -/
theorem send_streams {data : List UInt8} {outcomes : List (Except IoError Nat)}
    (h : s.send data outcomes = .ok s') : s.conn.Streams s'.conn [{ data, outcomes }] := by
  intro bytes hout
  -- By default nothing comes twice.
  have plain : ∀ bytes', s'.conn.output.Holds bytes' →
      s'.conn.io.accepted ++ bytes' = s.conn.io.accepted ++ bytes ++ data →
      ∃ bytes' added, s'.conn.output.Holds bytes' ∧ Carries [{ data, outcomes }] added ∧
        s'.conn.io.accepted ++ bytes' = s.conn.io.accepted ++ bytes ++ added :=
    fun bytes' hbytes heq => ⟨bytes', _, hbytes, .cons _ [] (Or.inl rfl) .nil, by simp [heq]⟩
  rw [send, hout.readableBytes, ok_bind] at h
  cases hw : isWriting s.conn.interests with
  | true =>
    rw [hw] at h
    obtain ⟨output, happ, h'⟩ := appendOutput_ok hout data
    simp only [Bool.not_true, Bool.false_eq_true, if_false, happ, ok_bind] at h
    obtain rfl := Except.ok.inj h
    exact plain _ h' (List.append_assoc _ _ _).symm
  | false =>
    rw [hw] at h
    simp only [Bool.not_false, if_true] at h
    by_cases hnil : bytes = []
    · -- A direct write: the part before a failure comes twice.
      subst hnil
      rw [List.length_nil, if_pos rfl] at h
      obtain ⟨bytes', hbytes, hstream, -⟩ := sendLoop_spec outcomes h (Nat.zero_le _) hout
      refine ⟨bytes', _, hbytes, .cons _ (data.take
        (acceptedBeforeFailure data.length 0 outcomes)) (Or.inr rfl) .nil, ?_⟩
      rw [hstream, directStream]
      split
      · rename_i hzero
        simp [hzero]
      · simp
    · have hlen : bytes.length ≠ 0 := by simpa using hnil
      rw [if_neg hlen] at h
      obtain ⟨hbytes, hacc, -⟩ := appendEnable_spec hout _ h
      exact plain _ hbytes (by rw [hacc, List.append_assoc])

/-- `enable_io` sends nothing. -/
private theorem enableIo_streams {mode : Interest} (h : s.enableIo mode = .ok s') :
    s.conn.Streams s'.conn [] := by
  obtain ⟨conn, hconn, h⟩ := bind_eq_ok.mp h
  cases h
  have hsame := TcpConnection.enableIo_sameBytes hconn
  exact .of_same hsame.output hsame.accepted

/-- `disable_io` sends nothing. -/
private theorem disableIo_streams {mode : Interest} (h : s.disableIo mode = .ok s') :
    s.conn.Streams s'.conn [] := by
  obtain ⟨conn, hconn, h⟩ := bind_eq_ok.mp h
  cases h
  have hsame := TcpConnection.disableIo_sameBytes hconn
  exact .of_same hsame.output hsame.accepted

/-- Shutting the stream down leaves the bytes alone. -/
private theorem shutdown_streams {c : TcpConnection} {how : Shutdown}
    {outcome : Except IoError Unit}
    {io : TcpStream} (h : expect .shutdown (c.io.shutdown how outcome) = .ok io) :
    c.Streams { c with io } [] := by
  cases outcome with
  | ok u =>
    cases h
    exact .of_same rfl rfl
  | error e => cases h

/-- A callback sends what its acts send. -/
theorem acts_streams (as : List (Act M)) : ∀ {s : Session M}, acts as s = .ok s' →
    s.conn.Streams s'.conn (actSends as) := by
  induction as with
  | nil =>
    intro s h
    cases h
    exact .of_same rfl rfl
  | cons a as ih =>
    intro s h
    obtain ⟨s₁, hact, h⟩ := bind_eq_ok.mp h
    have hrest := ih h
    cases a with
    | enableIo mode => exact (enableIo_streams hact).trans hrest
    | disableIo mode => exact (disableIo_streams hact).trans hrest
    | send data outcomes => exact (send_streams hact).trans hrest
    | notify msg =>
      cases hact
      exact hrest
    | retrieve size =>
      obtain ⟨input, -, hact⟩ := bind_eq_ok.mp hact
      cases hact
      exact hrest
    | shutdown outcome =>
      obtain ⟨conn, hconn, hact⟩ := bind_eq_ok.mp hact
      cases hact
      obtain ⟨io, hio, hconn⟩ := bind_eq_ok.mp hconn
      cases hconn
      exact (shutdown_streams hio).trans hrest

/-- The loop of `handle_read`: only its callback sends. -/
private theorem handleReadLoop_streams (outcomes : List (Except IoError (List UInt8))) :
    ∀ {s : Session M}, handleReadLoop as closing outcomes s = .ok s' →
      s.conn.Streams s'.conn (if announces outcomes then actSends as else []) := by
  induction outcomes with
  | nil => intro s h; cases h
  | cons outcome outcomes ih =>
    intro s h
    cases outcome with
    | ok chunk =>
      cases chunk with
      | nil =>
        rw [handleReadLoop_eof] at h
        obtain ⟨input, -, h⟩ := bind_eq_ok.mp h
        obtain ⟨s₁, hdisable, h⟩ := bind_eq_ok.mp h
        cases h
        have hdisabled := disableIo_streams hdisable
        exact hdisabled
      | cons b bs =>
        rw [handleReadLoop_bytes (by simp)] at h
        obtain ⟨input, -, h⟩ := bind_eq_ok.mp h
        have hrest := ih h
        exact hrest
    | error e =>
      rw [handleReadLoop_error] at h
      split at h
      · rename_i hkind
        have hacts := acts_streams (s := s.record .readComplete) as h
        have hannounces : announces (.error e :: outcomes) = true := by simp [announces, hkind]
        rw [hannounces, if_pos rfl]
        exact hacts
      · rename_i hkind
        cases h
        simpa [announces, hkind] using TcpConnection.Streams.of_same rfl rfl

/-- A call adds what it sends to the outgoing stream. -/
theorem call_streams (h : s.call k = .ok s') : s.conn.Streams s'.conn k.sends := by
  cases k with
  | enableIo mode => exact enableIo_streams h
  | disableIo mode => exact disableIo_streams h
  | send data outcomes => exact send_streams h
  | handleRead outcomes as closing =>
    exact handleReadLoop_streams (s := s.record .reading) outcomes h
  | handleWrite outcomes =>
    intro bytes hout
    obtain ⟨bytes', hbytes, hstream, -⟩ := handleWrite_spec hout h
    exact ⟨bytes', [], hbytes, .nil, by rw [hstream, List.append_nil]⟩
  | onWriteComplete as => exact acts_streams (s := s.record .writeComplete) as h
  | timer f as => exact acts_streams (s := s.record (.timer f)) as h
  | established cb msgs as => exact acts_streams (s := (s.setup cb msgs).record .established) as h
  | shutdownMessage how outcome =>
    have hshut : s.shutdownMessage how outcome = .ok s' := h
    unfold shutdownMessage at hshut
    split at hshut
    · obtain ⟨io, hio, hshut⟩ := bind_eq_ok.mp hshut
      cases hshut
      exact shutdown_streams hio
    · cases hshut
      exact .of_same rfl rfl
  | context f msgs =>
    cases h
    exact .of_same rfl rfl

/-- A callback takes what its acts retrieve, and it is there. -/
theorem acts_reads (as : List (Act M)) : ∀ {s : Session M}, acts as s = .ok s' →
    s.conn.Reads s'.conn [] (retrieved as) := by
  induction as with
  | nil =>
    intro s h
    cases h
    exact .of_same rfl
  | cons a as ih =>
    intro s h
    obtain ⟨s₁, hact, h⟩ := bind_eq_ok.mp h
    have hrest := ih h
    have other : Outgoing s.conn s₁.conn → s.conn.Reads s'.conn [] (retrieved as) := by
      intro hsame
      simpa using (TcpConnection.Reads.of_same hsame.input).trans hrest
    cases a with
    | enableIo mode => simpa [retrieved] using other (enableIo_outgoing hact)
    | disableIo mode => simpa [retrieved] using other (disableIo_outgoing hact)
    | send data outcomes => simpa [retrieved] using other (send_outgoing hact)
    | notify msg =>
      cases hact
      have hsame : s.conn.Reads s'.conn [] (retrieved as) := hrest
      simpa [retrieved] using hsame
    | shutdown outcome =>
      obtain ⟨conn, hconn, hact⟩ := bind_eq_ok.mp hact
      obtain ⟨io, -, hconn⟩ := bind_eq_ok.mp hconn
      cases hconn
      cases hact
      have hsame : s.conn.Reads s'.conn [] (retrieved as) := hrest
      simpa [retrieved] using hsame
    | retrieve size =>
      obtain ⟨input, hret, hact⟩ := bind_eq_ok.mp hact
      cases hact
      have hfirst : s.conn.Reads { s.conn with input } [] size := by
        intro bytes hbytes
        -- The buffer asserts that the bytes are there.
        have hsize : size ≤ bytes.length := by
          obtain ⟨readable, hreadable, hret⟩ := bind_eq_ok.mp hret
          rw [hbytes.readableBytes] at hreadable
          cases hreadable
          obtain ⟨u, hassert, -⟩ := bind_eq_ok.mp hret
          simpa [assertThat] using hassert
        obtain ⟨input', hret', hbytes'⟩ := hbytes.retrieve hsize
        rw [hret'] at hret
        cases hret
        rw [List.append_nil]
        exact ⟨hsize, hbytes'⟩
      simpa [retrieved] using hfirst.trans hrest

/-- Bytes are appended to `input`. -/
private theorem append_reads {c : TcpConnection} {data : List UInt8} {input : Buffer}
    (h : c.input.append data = .ok input) : c.Reads { c with input } data 0 := by
  intro bytes hbytes
  obtain ⟨input', happ, hbytes'⟩ := hbytes.append data
  rw [happ] at h
  cases h
  exact ⟨Nat.zero_le _, hbytes'⟩

/-- The loop of `handle_read`, by induction on what the socket answers. -/
private theorem handleReadLoop_reads (outcomes : List (Except IoError (List UInt8))) :
    ∀ {s : Session M}, handleReadLoop as closing outcomes s = .ok s' →
      s.conn.Reads s'.conn (Ruduo.received outcomes)
        (if announces outcomes then retrieved as else 0) := by
  induction outcomes with
  | nil => intro s h; cases h
  | cons outcome outcomes ih =>
    intro s h
    cases outcome with
    | ok chunk =>
      cases chunk with
      | nil =>
        -- The end of the stream.
        rw [handleReadLoop_eof] at h
        obtain ⟨input, happ, h⟩ := bind_eq_ok.mp h
        obtain ⟨s₁, hdisable, h⟩ := bind_eq_ok.mp h
        cases h
        have hdisabled : TcpConnection.Reads { s.conn with input } s₁.conn [] 0 :=
          .of_same (disableIo_outgoing hdisable).input
        exact (append_reads happ).trans hdisabled
      | cons b bs =>
        rw [handleReadLoop_bytes (by simp)] at h
        obtain ⟨input, happ, h⟩ := bind_eq_ok.mp h
        have hboth := (append_reads happ).trans (ih h)
        rw [Nat.zero_add] at hboth
        exact hboth
    | error e =>
      rw [handleReadLoop_error] at h
      split at h
      · rename_i hkind
        have hacts := acts_reads (s := s.record .readComplete) as h
        have hannounces : announces (.error e :: outcomes) = true := by simp [announces, hkind]
        rw [hannounces, if_pos rfl]
        exact hacts
      · rename_i hkind
        cases h
        have hannounces : announces (.error e :: outcomes) = false := by simp [announces, hkind]
        rw [hannounces]
        exact TcpConnection.Reads.of_same rfl

/-- A call adds what it receives to `input`, and takes what it takes from the front. -/
theorem call_reads (h : s.call k = .ok s') : s.conn.Reads s'.conn k.received k.taken := by
  cases k with
  | enableIo mode => exact .of_same (enableIo_outgoing h).input
  | disableIo mode => exact .of_same (disableIo_outgoing h).input
  | send data outcomes => exact .of_same (send_outgoing h).input
  | handleWrite outcomes => exact .of_same (handleWrite_outgoing h).input
  | handleRead outcomes as closing =>
    exact handleReadLoop_reads (s := s.record .reading) outcomes h
  | onWriteComplete as => exact acts_reads (s := s.record .writeComplete) as h
  | timer f as => exact acts_reads (s := s.record (.timer f)) as h
  | established cb msgs as => exact acts_reads (s := (s.setup cb msgs).record .established) as h
  | shutdownMessage how outcome =>
    have hshut : s.shutdownMessage how outcome = .ok s' := h
    unfold shutdownMessage at hshut
    split at hshut
    · obtain ⟨io, -, hshut⟩ := bind_eq_ok.mp hshut
      cases hshut
      exact .of_same rfl
    · cases hshut
      exact .of_same rfl
  | context f msgs =>
    cases h
    exact .of_same rfl

end Session

/-! ### Runs -/

namespace TcpConnection
variable {c c' : TcpConnection} {ks : List (ConnCall M)}

/-- A run of calls sends what its calls send. -/
theorem run_streams (h : Run Called c ks c') : c.Streams c' (ks.flatMap ConnCall.sends) := by
  induction h with
  | nil => exact .of_same rfl rfl
  | cons hcall _ ih =>
    obtain ⟨s, s', rfl, hs, rfl⟩ := hcall
    rw [List.flatMap_cons]
    exact (Session.call_streams hs).trans ih

/-- A run of calls reads what its calls read. -/
theorem run_reads (h : Run Called c ks c') :
    c.Reads c' (ks.flatMap ConnCall.received) (ks.map ConnCall.taken).sum := by
  induction h with
  | nil => exact .of_same rfl
  | cons hcall _ ih =>
    obtain ⟨s, s', rfl, hs, rfl⟩ := hcall
    rw [List.flatMap_cons, List.map_cons, List.sum_cons]
    exact (Session.call_reads hs).trans ih

end TcpConnection

namespace Worker
variable {S : Type → Type} [Slab S] [LawfulSlab S] [DecidableEq M] {w w' : Worker S M}
  {token : Token} {c c' : TcpConnection} {ls₀ ls : List (WorkerLabel M)} {ks : List (ConnCall M)}

/-- The buffers of a live connection hold bytes. -/
theorem run_buffers {cap offset noti : Nat} {timer : Timer S M}
    (hrun : Run Step (new cap offset noti timer) ls w)
    (hc : w.dispatcher.connAt token = some c) :
    (∃ bytes, c.input.Holds bytes) ∧ ∃ bytes, c.output.Holds bytes := by
  obtain ⟨c₀, ks, hmade, hks⟩ := run_born hrun hc
  obtain ⟨-, hin⟩ := TcpConnection.run_reads hks [] hmade.input
  obtain ⟨bytes, -, hout, -⟩ := TcpConnection.run_streams hks [] hmade.output
  exact ⟨⟨_, hin⟩, ⟨bytes, hout⟩⟩

/-- **The outgoing stream of a connection, over any run of its worker.** Take any run from a
reachable state, and a connection that is live at both ends. What its socket has accepted and what
waits in its output buffer has grown by exactly what was sent on this connection in the run: the
data of each send, in order. The one exception is a send whose socket fails after it has accepted a
part of the data, where this part may come once more. Where no socket fails so, nothing does. -/
theorem outgoing_of_run (cap offset noti : Nat) (timer : Timer S M)
    (hrun₀ : Run Step (new cap offset noti timer) ls₀ w)
    (hrun : Emits Step (callsOn token) w ls ks w')
    (hc : w.dispatcher.connAt token = some c) (hc' : w'.dispatcher.connAt token = some c')
    (hid : c'.id = c.id) :
    ∃ bytes bytes' added, c.output.peek = .ok bytes ∧ c'.output.peek = .ok bytes' ∧
      c'.io.accepted ++ bytes' = c.io.accepted ++ bytes ++ added ∧
      Carries (ks.flatMap ConnCall.sends) added ∧
      ((∀ x ∈ ks.flatMap ConnCall.sends, x.Clean) →
        added = (ks.flatMap ConnCall.sends).flatMap SendCall.data) := by
  obtain ⟨-, bytes, hbytes⟩ := run_buffers hrun₀ hc
  have hown := connection_run cap offset noti timer hrun₀ hrun hc hc' hid
  obtain ⟨bytes', added, hbytes', hcarries, heq⟩ := TcpConnection.run_streams hown bytes hbytes
  exact ⟨bytes, bytes', added, hbytes.peek, hbytes'.peek, heq, hcarries, hcarries.of_clean⟩

/-- **The incoming stream of a connection, over any run of its worker.** Take any run from a
reachable state, and a connection that is live at both ends. What is in its input buffer at the end
is what was there before, followed by all bytes received on this connection in the run, less as many
bytes from the front as its callbacks have taken out, and they took no more than there was. -/
theorem incoming_of_run (cap offset noti : Nat) (timer : Timer S M)
    (hrun₀ : Run Step (new cap offset noti timer) ls₀ w)
    (hrun : Emits Step (callsOn token) w ls ks w')
    (hc : w.dispatcher.connAt token = some c) (hc' : w'.dispatcher.connAt token = some c')
    (hid : c'.id = c.id) :
    ∃ bytes, c.input.peek = .ok bytes ∧
      (ks.map ConnCall.taken).sum ≤ (bytes ++ ks.flatMap ConnCall.received).length ∧
      c'.input.peek = .ok ((bytes ++ ks.flatMap ConnCall.received).drop
        (ks.map ConnCall.taken).sum) := by
  obtain ⟨⟨bytes, hbytes⟩, -⟩ := run_buffers hrun₀ hc
  have hown := connection_run cap offset noti timer hrun₀ hrun hc hc' hid
  obtain ⟨hle, hbytes'⟩ := TcpConnection.run_reads hown bytes hbytes
  exact ⟨bytes, hbytes.peek, hle, hbytes'.peek⟩

end Worker

section Example

set_option maxRecDepth 8000 in
/-- The first client is sent two bytes, one by one. -/
theorem outgoing_of_run_first :
    ∃ w w' : Worker Lib.FreeListSlab String, ∃ c c',
      Emits Worker.Step (Worker.callsOn 0) w threeWrites
        [.send [1] [.ok 1], .send [3] [.ok 1]] w' ∧
      w.dispatcher.connAt 0 = some c ∧ w'.dispatcher.connAt 0 = some c' ∧
      ∃ bytes bytes' added, c.output.peek = .ok bytes ∧ c'.output.peek = .ok bytes' ∧
        c'.io.accepted ++ bytes' = c.io.accepted ++ bytes ++ added ∧ added = [1, 3] := by
  have hsteps : ∃ w w' : Worker Lib.FreeListSlab String, ∃ c c',
      Run Worker.Step (Worker.new 4 0 0 emptyTimer) twoClients w ∧
      Emits Worker.Step (Worker.callsOn 0) w threeWrites
        [.send [1] [.ok 1], .send [3] [.ok 1]] w' ∧
      w.dispatcher.connAt 0 = some c ∧ w'.dispatcher.connAt 0 = some c' ∧ c'.id = c.id := by
    have hrun₀ : Run Worker.Step (Worker.new 4 0 0 (emptyTimer : Timer Lib.FreeListSlab String))
        twoClients _ :=
      .cons rfl (.cons rfl (.cons rfl (.cons rfl (.cons rfl (.cons rfl (.nil _))))))
    exact ⟨_, _, _, _, hrun₀, .cons rfl (.cons rfl (.cons rfl (.cons rfl (.cons rfl (.cons rfl
      (.cons rfl (.cons rfl (.nil _)))))))), rfl, rfl, rfl⟩
  obtain ⟨w, w', c, c', hrun₀, hrun, hc, hc', hid⟩ := hsteps
  obtain ⟨bytes, bytes', added, hpeek, hpeek', hstream, -, hclean⟩ :=
    Worker.outgoing_of_run 4 0 0 emptyTimer hrun₀ hrun hc hc' hid
  refine ⟨w, w', c, c', hrun, hc, hc', bytes, bytes', added, hpeek, hpeek', hstream, ?_⟩
  exact hclean fun x hx => by
    rcases List.mem_cons.mp hx with rfl | hx
    · rfl
    · obtain rfl := List.mem_singleton.mp hx
      rfl

/-- The socket has no bytes for now. -/
def wouldBlock : IoError := { kind := .wouldBlock, rawOsError := none }

/-- Three bytes come for the first client, and its callback takes two of them. -/
def threeBytes : List (WorkerLabel String) :=
  [.event 0 true false
    { quietEnv with reads := [.ok [1, 2], .ok [3], .error wouldBlock], acts := [.retrieve 2] }]

set_option maxRecDepth 8000 in
/-- The third one stays. -/
theorem incoming_of_run_first :
    ∃ w w' : Worker Lib.FreeListSlab String, ∃ c c',
      Run Worker.Step w threeBytes w' ∧
      w.dispatcher.connAt 0 = some c ∧ w'.dispatcher.connAt 0 = some c' ∧
      ∃ bytes, c.input.peek = .ok bytes ∧ c'.input.peek = .ok ((bytes ++ [1, 2, 3]).drop 2) := by
  have hsteps : ∃ w w' : Worker Lib.FreeListSlab String, ∃ c c' ks,
      Run Worker.Step (Worker.new 4 0 0 emptyTimer) twoClients w ∧
      Emits Worker.Step (Worker.callsOn 0) w threeBytes ks w' ∧
      w.dispatcher.connAt 0 = some c ∧ w'.dispatcher.connAt 0 = some c' ∧ c'.id = c.id ∧
      ks.flatMap ConnCall.received = [1, 2, 3] ∧ (ks.map ConnCall.taken).sum = 2 := by
    have hrun₀ : Run Worker.Step (Worker.new 4 0 0 (emptyTimer : Timer Lib.FreeListSlab String))
        twoClients _ :=
      .cons rfl (.cons rfl (.cons rfl (.cons rfl (.cons rfl (.cons rfl (.nil _))))))
    exact ⟨_, _, _, _, _, hrun₀, .cons rfl (.nil _), rfl, rfl, rfl, rfl, rfl⟩
  obtain ⟨w, w', c, c', ks, hrun₀, hrun, hc, hc', hid, hgot, htaken⟩ := hsteps
  obtain ⟨bytes, hpeek, -, hpeek'⟩ :=
    Worker.incoming_of_run 4 0 0 emptyTimer hrun₀ hrun hc hc' hid
  rw [hgot, htaken] at hpeek'
  exact ⟨w, w', c, c', hrun.run, hc, hc', bytes, hpeek, hpeek'⟩

end Example

end Ruduo
