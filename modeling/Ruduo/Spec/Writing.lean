import Ruduo.Spec.OutgoingStream
import Ruduo.Spec.Registration

/-!
# `Ruduo.Spec.Writing`: output that waits, and how a write ends

The poll is edge-triggered: it reports a stream writable once, after the socket had no room. So
bytes that wait in `output` are only ever written when the stream is registered for `WRITABLE`
(`NotStranded`), and when `handle_write` gave up because the socket had no room (`EndsBlocked`)
and not earlier.

The second half is about the loop of `handle_write` itself. The socket answers without end, and
`Returns` says that the call needs only finitely many of its answers.
-/

set_option autoImplicit false

namespace Ruduo

/-- The act leaves `WRITABLE` alone, unless it enables it. -/
def Act.KeepsWriting {M : Type} : Act M → Prop
  | .disableIo mode => mode.isWritable = false
  | _ => True

/-- A loop that reads until the socket has no more gets to the end of the stream. -/
def meetsEof : List (Except IoError (List UInt8)) → Bool
  | .ok [] :: _ => true
  | .ok (_ :: _) :: outcomes => meetsEof outcomes
  | _ => false

/-- The user does not disable `WRITABLE` in this call, and it is not a read at the end of the
stream. -/
def ConnCall.KeepsWriting {M : Type} : ConnCall M → Prop
  | .disableIo mode => mode.isWritable = false
  | .handleRead outcomes as _ => meetsEof outcomes = false ∧ ∀ a ∈ as, a.KeepsWriting
  | .onWriteComplete as | .timer _ as | .established _ _ as => ∀ a ∈ as, a.KeepsWriting
  | _ => True

/-- Bytes wait only while the connection is writing, and what it is interested in is what the
poll knows. -/
structure Attended (c : TcpConnection) : Prop where
  output : ∃ bytes, c.output.Holds bytes ∧ (bytes ≠ [] → isWriting c.interests = true)
  registered : c.interests.isSome → c.io.registered = c.interests

/-- Bytes that wait do so under a registration for `WRITABLE`. -/
def NotStranded (c : TcpConnection) : Prop :=
  ∃ bytes, c.output.peek = .ok bytes ∧ (bytes ≠ [] → isWriting c.io.registered = true)

/-- Nothing waits, and `WRITABLE` is withdrawn. -/
structure Drained (c : TcpConnection) : Prop where
  peek : c.output.peek = .ok []
  interests : isWriting c.interests = false
  registered : isWriting c.io.registered = false

namespace Session
variable {M : Type}

/-- The last `do_write` of the loop returned `WouldBlock`: with the outcomes before it the loop
goes on, and with it the loop ends. -/
def EndsBlocked (s : Session M) (outcomes : List (Except IoError Nat)) (s' : Session M) : Prop :=
  ∃ pre e post, outcomes = pre ++ .error e :: post ∧ e.kind = .wouldBlock ∧
    handleWriteLoop pre s = .error .unfinished ∧ handleWriteLoop (pre ++ [.error e]) s = .ok s'

/-- `handle_write` returns after finitely many of the socket's answers. -/
def Returns (s : Session M) (answers : Nat → Except IoError Nat) : Prop :=
  ∃ n s', s.handleWrite ((List.range n).map answers) = .ok s'

end Session

/-- The room that the socket has in these answers, all together. -/
def room (outcomes : List (Except IoError Nat)) : Nat :=
  (outcomes.map fun o => o.toOption.getD 0).sum

/-- The loop of `handle_write` ends at the answer number `n`, with so many bytes pending at first:
it is `WouldBlock`, or the socket has had room for all of them. -/
def EndsWriting (pending : Nat) (answers : Nat → Except IoError Nat) (n : Nat) : Prop :=
  match answers n with
  | .ok _ => pending ≤ room ((List.range (n + 1)).map answers)
  | .error e => e.kind = .wouldBlock

end Ruduo
