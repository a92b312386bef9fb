import Ruduo.Lib.Run
import Ruduo.Model.Buffer

/-!
# `Ruduo.Spec.ByteQueue`: what a buffer is for

A buffer is a sequence of bytes that grows at both ends and shrinks at the front. `ByteQueue`
is this sequence, together with the fact that nothing was prepended since it was last empty.
-/

set_option autoImplicit false

namespace Ruduo

/-- The operations on a buffer. -/
inductive BufferOp where
  | append (data : List UInt8)
  | prepend (data : List UInt8)
  | retrieve (size : Nat)
  | retrieveAll
  deriving DecidableEq, Repr

/-- The bytes of a buffer. -/
structure ByteQueue where
  bytes : List UInt8
  /-- Nothing was prepended since the creation, or since a `retrieve` or `retrieveAll` last
  emptied the buffer. -/
  pristine : Bool
  deriving DecidableEq, Repr

namespace ByteQueue

/-- The queue at first. -/
def empty : ByteQueue := { bytes := [], pristine := true }

/-- What an operation does to the bytes. -/
def apply (q : ByteQueue) : BufferOp → ByteQueue
  | .append data => { q with bytes := q.bytes ++ data }
  | .prepend data => { bytes := data ++ q.bytes, pristine := q.pristine && data.isEmpty }
  | .retrieve size =>
    { bytes := q.bytes.drop size, pristine := q.pristine || (q.bytes.drop size).isEmpty }
  | .retrieveAll => empty

end ByteQueue

namespace Buffer

open Lib (Run)

/-- One operation on a buffer. -/
def exec (b : Buffer) : BufferOp → Except Fault (Buffer × Unit)
  | .append data => do
    let b ← b.append data
    .ok (b, ())
  | .prepend data => do
    let b ← b.prepend data
    .ok (b, ())
  | .retrieve size => do
    let b ← b.retrieve size
    .ok (b, ())
  | .retrieveAll => .ok (b.retrieveAll, ())

/-- One operation that returned. -/
def Step (b : Buffer) (op : BufferOp) (b' : Buffer) : Prop := b.exec op = .ok (b', ())

/-- A buffer that some run of operations reaches from a new one. -/
def Reachable (b : Buffer) : Prop :=
  ∃ size b₀ ops, (Builder.new.size size).build = .ok b₀ ∧ Run Step b₀ ops b

/-- The caller's part: what is prepended fits in front, and what is retrieved is there. -/
def Admits (b : Buffer) (q : ByteQueue) : BufferOp → Prop
  | .append _ => True
  | .prepend data => data.length ≤ b.prependableBytes
  | .retrieve size => size ≤ q.bytes.length
  | .retrieveAll => True

/-- The buffer holds these bytes, in a state that its operations can reach. -/
structure Holds (b : Buffer) (bytes : List UInt8) : Prop where
  peek : b.peek = .ok bytes
  cheapPrepend_le : K_CHEAP_PREPEND_SIZE ≤ b.data.length

/-- The buffer holds the bytes of the queue, and its indices are in order. -/
structure Agrees (b : Buffer) (q : ByteQueue) : Prop where
  peek : b.peek = .ok q.bytes
  readableBytes : b.readableBytes = .ok q.bytes.length
  /-- The vector never loses the room at its front. -/
  cheapPrepend_le : K_CHEAP_PREPEND_SIZE ≤ b.data.length
  readIdx_le : b.readIdx ≤ b.writeIdx
  writeIdx_le : b.writeIdx ≤ b.data.length
  /-- Until the first `prepend` all of this room is free. -/
  prependable : q.pristine = true → K_CHEAP_PREPEND_SIZE ≤ b.prependableBytes

/-- The contract of one operation: it does to the buffer what `ByteQueue.apply` does to the
bytes, and the vector does not shrink. -/
def Contract (b : Buffer) (q : ByteQueue) (op : BufferOp) (_ : Unit) (b' : Buffer)
    (q' : ByteQueue) : Prop :=
  q' = q.apply op ∧ Agrees b' q' ∧ b.data.length ≤ b'.data.length

end Buffer

end Ruduo
