import Ruduo.Lib.BigEndian
import Ruduo.Model.Fault

/-!
# `Ruduo.Model.Buffer`: the byte buffer

`src/buffer.rs`. A `Buffer` is a vector with two indices. The bytes between `readIdx` and
`writeIdx` are its content, those before are free for `prepend`, those after for `append`.

A vector is a list. `Vec::splice`, `slice::copy_within` and slicing check their ranges as Rust
does. The allocator is not modelled, so a vector may grow to any length. An integer of `n` bytes
is a bit vector of `8 * n` bits to the two macros that implement `EndianWrite` and `EndianRead`.
-/

set_option autoImplicit false

namespace Ruduo

/-- `&l[start..stop]` -/
def sliceRange {α : Type} (l : List α) (start stop : Nat) : Except Fault (List α) :=
  if start ≤ stop ∧ stop ≤ l.length then .ok ((l.drop start).take (stop - start))
  else .error .outOfRange

/-- `l.splice(start..stop, new)` -/
def splice {α : Type} (l : List α) (start stop : Nat) (new : List α) : Except Fault (List α) :=
  if start ≤ stop ∧ stop ≤ l.length then .ok (l.take start ++ new ++ l.drop stop)
  else .error .outOfRange

/-- `l.copy_within(start..stop, dest)` -/
def copyWithin {α : Type} (l : List α) (start stop dest : Nat) : Except Fault (List α) := do
  let moved ← sliceRange l start stop
  splice l dest (dest + moved.length) moved

/-- `l.resize(len, a)` -/
def resize {α : Type} (l : List α) (len : Nat) (a : α) : List α :=
  l.take len ++ List.replicate (len - l.length) a

/-- `assert!(c)` -/
def assertThat (c : Bool) : Except Fault Unit := if c then .ok () else .error .assertion

/-- An assertion that holds goes through. -/
theorem assertThat_of {c : Prop} [Decidable c] (h : c) : assertThat c = .ok () := by
  simp [assertThat, h]

/-- The bytes that are kept free in front, for `prepend`. -/
def K_CHEAP_PREPEND_SIZE : Nat := 8

/-- The bytes that a new buffer has room for. -/
def K_INITIAL_SIZE : Nat := 1024

/-- The bytes that one read takes at most. -/
def K_READ_BUF_SIZE : Nat := 1024

/-- A growable buffer: the readable bytes are those between the two indices. -/
structure Buffer where
  data : List UInt8
  /-- The bytes from here to `writeIdx` are still to be read. -/
  readIdx : Nat
  /-- The next byte is written here. -/
  writeIdx : Nat
  deriving DecidableEq, Repr

namespace Buffer

/-- How big the buffer is to be. -/
structure Builder where
  initialSize : Nat

/-- By default a buffer has its initial size. -/
def Builder.new : Builder := { initialSize := K_INITIAL_SIZE }

/-- The size is chosen. -/
def Builder.size (_b : Builder) (size : Nat) : Builder := { initialSize := size }

/-- The buffer is built, with both indices behind the bytes kept free in front. -/
def Builder.build (b : Builder) : Except Fault Buffer := do
  let len ← u64Add K_CHEAP_PREPEND_SIZE b.initialSize
  .ok { data := List.replicate len 0
        readIdx := K_CHEAP_PREPEND_SIZE
        writeIdx := K_CHEAP_PREPEND_SIZE }

/-- A buffer of the default size. -/
def new : Except Fault Buffer := Builder.new.build

/-- How many bytes can be read. -/
def readableBytes (b : Buffer) : Except Fault Nat := u64Sub b.writeIdx b.readIdx

/-- How many bytes can be written before the buffer has to slide or grow. -/
def writableBytes (b : Buffer) : Except Fault Nat := u64Sub b.data.length b.writeIdx

/-- How many bytes can be put in front. -/
def prependableBytes (b : Buffer) : Nat := b.readIdx

/-- Everything is retrieved: both indices go back to the start. -/
def retrieveAll (b : Buffer) : Buffer :=
  { b with readIdx := K_CHEAP_PREPEND_SIZE, writeIdx := K_CHEAP_PREPEND_SIZE }

/-- Bytes are retrieved from the front. When nothing is left, the indices go back to the start. -/
def retrieve (b : Buffer) (size : Nat) : Except Fault Buffer := do
  let readable ← b.readableBytes
  assertThat (size ≤ readable)
  if size < readable then .ok { b with readIdx := b.readIdx + size } else .ok b.retrieveAll

/-- Bytes are put in front of the readable ones. -/
def prepend (b : Buffer) (data : List UInt8) : Except Fault Buffer := do
  let len := data.length
  assertThat (len ≤ b.prependableBytes)
  let readIdx ← u64Sub b.readIdx len
  let data ← splice b.data readIdx (readIdx + len) data
  .ok { b with data, readIdx }

/-- Make room for `len` more bytes: there may be enough already, the vector may have to grow,
or the content can move back to the start of the vector. -/
def ensureWritable (b : Buffer) (len : Nat) : Except Fault Buffer := do
  let writable ← b.writableBytes
  let b ← (if writable < len then
      -- case 1: what is free at both ends does not suffice
      if writable + b.prependableBytes < len + K_CHEAP_PREPEND_SIZE then
        .ok { b with data := resize b.data (b.writeIdx + len) 0 }
      -- case 2: the content moves
      else do
        assertThat (K_CHEAP_PREPEND_SIZE < b.readIdx)
        let readable ← b.readableBytes
        let data ← copyWithin b.data b.readIdx b.writeIdx K_CHEAP_PREPEND_SIZE
        let b := { data, readIdx := K_CHEAP_PREPEND_SIZE
                   writeIdx := K_CHEAP_PREPEND_SIZE + readable }
        let readable' ← b.readableBytes
        assertThat (readable = readable')
        .ok b
    else .ok b)
  let writable ← b.writableBytes
  assertThat (len ≤ writable)
  .ok b

/-- Bytes are put behind the readable ones, after room was made for them. -/
def append (b : Buffer) (data : List UInt8) : Except Fault Buffer := do
  let len := data.length
  let b ← b.ensureWritable len
  let data ← splice b.data b.writeIdx (b.writeIdx + len) data
  .ok { b with data, writeIdx := b.writeIdx + len }

/-- The readable bytes. -/
def peek (b : Buffer) : Except Fault (List UInt8) := sliceRange b.data b.readIdx b.writeIdx

end Buffer

/-! ### Integers in a buffer -/

/-- `[u8; n]` -/
abbrev FixedBytes (n : Nat) : Type := { bytes : List UInt8 // bytes.length = n }

/-- `<[u8; n]>::try_from(s)` -/
def FixedBytes.tryFrom (n : Nat) (s : List UInt8) : Option (FixedBytes n) :=
  if h : s.length = n then some ⟨s, h⟩ else none

/-- `to_be_bytes` of an integer of `n` bytes. -/
def toBeBytes (n : Nat) (v : BitVec (8 * n)) : FixedBytes n :=
  ⟨Lib.toBE n v.toNat, Lib.length_toBE n v.toNat⟩

/-- `from_be_bytes` to an integer of `n` bytes. -/
def fromBeBytes (n : Nat) (b : FixedBytes n) : BitVec (8 * n) := BitVec.ofNat (8 * n) (Lib.ofBE b.1)

/-- `trait EndianWrite` -/
class EndianWrite (T : Type) where
  /-- The length of `Self::Array`. -/
  arrayLen : Nat
  asBytes : T → FixedBytes arrayLen

/-- `trait EndianRead` -/
class EndianRead (T : Type) where
  /-- `std::mem::size_of::<T>()` -/
  sizeOf : Nat
  /-- The length of `Self::Array`. -/
  arrayLen : Nat
  fromBytes : FixedBytes arrayLen → T

/-- `impl_endian_write_for_int!` -/
@[reducible] def implEndianWriteForInt {T : Type} (size : Nat) (bits : T → BitVec (8 * size)) :
    EndianWrite T where
  arrayLen := size
  asBytes v := toBeBytes size (bits v)

/-- `impl_endian_read_for_int!` -/
@[reducible] def implEndianReadForInt {T : Type} (size : Nat) (ofBits : BitVec (8 * size) → T) :
    EndianRead T where
  sizeOf := size
  arrayLen := size
  fromBytes b := ofBits (fromBeBytes size b)

instance : EndianWrite Int8 := implEndianWriteForInt 1 Int8.toBitVec
instance : EndianWrite Int16 := implEndianWriteForInt 2 Int16.toBitVec
instance : EndianWrite Int32 := implEndianWriteForInt 4 Int32.toBitVec
instance : EndianWrite Int64 := implEndianWriteForInt 8 Int64.toBitVec

instance : EndianRead Int8 := implEndianReadForInt 1 Int8.ofBitVec
instance : EndianRead Int16 := implEndianReadForInt 2 Int16.ofBitVec
instance : EndianRead Int32 := implEndianReadForInt 4 Int32.ofBitVec
instance : EndianRead Int64 := implEndianReadForInt 8 Int64.ofBitVec

namespace Buffer

/-- The first bytes as an integer of the type `T`, without taking them out. -/
def peekAs (T : Type) [EndianRead T] (b : Buffer) : Except Fault T := do
  let len := EndianRead.sizeOf T
  let readable ← b.readableBytes
  assertThat (len ≤ readable)
  let bytes ← b.peek
  let s ← sliceRange bytes 0 len
  match FixedBytes.tryFrom (EndianRead.arrayLen T) s with
  | some b => .ok (EndianRead.fromBytes b)
  | none => .error (.panicked .sliceToArray)

/-- An integer of the type `T` is taken out. -/
def retrieveAs (T : Type) [EndianRead T] (b : Buffer) : Except Fault (Buffer × T) := do
  let len := EndianRead.sizeOf T
  let ret ← b.peekAs T
  let b ← b.retrieve len
  .ok (b, ret)

/-- An integer is appended, in its byte order on the wire. -/
def appendAs {T : Type} [EndianWrite T] (b : Buffer) (val : T) : Except Fault Buffer :=
  b.append (EndianWrite.asBytes val).1

/-- An integer is put in front. -/
def prependAs {T : Type} [EndianWrite T] (b : Buffer) (val : T) : Except Fault Buffer :=
  b.prepend (EndianWrite.asBytes val).1

end Buffer

end Ruduo
