import Ruduo.Lib.Utf8
import Ruduo.Model.Buffer
import Ruduo.Model.Mio

/-!
# `Ruduo.Model.Text`: strings in a buffer

The functions of `src/buffer.rs` on strings, and `read_from`. A `String` is the list of its
characters. Its bytes are `utf8Encode`, and `String::from_utf8_lossy` is `fromUtf8Lossy`.
-/

set_option autoImplicit false

namespace Ruduo.Buffer

open Lib (utf8Encode fromUtf8Lossy)

/-- `read_from`. The outcome `ok chunk` says which bytes the reader has: at most a read buffer of
them is read. -/
def readFrom (b : Buffer) (outcome : Except IoError (List UInt8)) :
    Except Fault (Buffer × Except IoError Nat) :=
  match outcome with
  | .ok chunk => do
    let buf := chunk.take K_READ_BUF_SIZE
    let b ← b.append buf
    .ok (b, .ok buf.length)
  | .error e => .ok (b, .error e)

/-- The first `len` bytes as a text, without taking them out. -/
def peekAsString (b : Buffer) (len : Nat) : Except Fault (List Char) := do
  let readable ← b.readableBytes
  assertThat (len ≤ readable)
  let bytes ← b.peek
  let bytes ← sliceRange bytes 0 len
  .ok (fromUtf8Lossy bytes)

/-- A text of `len` bytes is taken out. -/
def retrieveAsString (b : Buffer) (len : Nat) : Except Fault (Buffer × List Char) := do
  let ret ← b.peekAsString len
  let b ← b.retrieve len
  .ok (b, ret)

/-- All that is readable is taken out as a text. -/
def retrieveAllAsString (b : Buffer) : Except Fault (Buffer × List Char) := do
  let bytes ← b.peek
  let ret := fromUtf8Lossy bytes
  .ok (b.retrieveAll, ret)

/-- The bytes of a text are appended. -/
def appendString (b : Buffer) (val : List Char) : Except Fault Buffer := b.append (utf8Encode val)

end Ruduo.Buffer
