import Ruduo.Spec.ByteQueue

/-!
# `Ruduo.Spec.TypedValues`: integers go through a buffer unchanged

What it means that a buffer keeps integers of mixed types: they come out as they went in, at
either end, and one that is read at another type is cut from its high-order end.
-/

set_option autoImplicit false

namespace Ruduo

open Lib (ofBE twosComplement)

/-- The types that implement `EndianWrite` and `EndianRead`. -/
inductive IntTy where
  | i8 | i16 | i32 | i64
  deriving DecidableEq, Repr

namespace IntTy

/-- The values of a type. -/
abbrev Val : IntTy → Type
  | .i8 => Int8
  | .i16 => Int16
  | .i32 => Int32
  | .i64 => Int64

/-- The number of bytes. -/
def size : IntTy → Nat
  | .i8 => 1
  | .i16 => 2
  | .i32 => 4
  | .i64 => 8

/-- The number that a value stands for. -/
def toInt : (ty : IntTy) → ty.Val → Int
  | .i8, v => Int8.toInt v
  | .i16, v => Int16.toInt v
  | .i32, v => Int32.toInt v
  | .i64, v => Int64.toInt v

/-- The values of a type are written as the source writes this type. -/
instance (ty : IntTy) : EndianWrite ty.Val :=
  match ty with
  | .i8 => inferInstanceAs (EndianWrite Int8)
  | .i16 => inferInstanceAs (EndianWrite Int16)
  | .i32 => inferInstanceAs (EndianWrite Int32)
  | .i64 => inferInstanceAs (EndianWrite Int64)

/-- The values of a type are read as the source reads this type. -/
instance (ty : IntTy) : EndianRead ty.Val :=
  match ty with
  | .i8 => inferInstanceAs (EndianRead Int8)
  | .i16 => inferInstanceAs (EndianRead Int16)
  | .i32 => inferInstanceAs (EndianRead Int32)
  | .i64 => inferInstanceAs (EndianRead Int64)

end IntTy

/-- A value of one of the types. -/
structure TypedValue where
  ty : IntTy
  val : ty.Val

/-- The number that a value stands for. -/
def TypedValue.toInt (v : TypedValue) : Int := v.ty.toInt v.val

/-- A number of `n` bytes, cut from its high-order end into signed numbers of these types. -/
def highOrderParts (n : Nat) (x : Int) : List IntTy → List Int
  | [] => []
  | ty :: tys =>
    twosComplement ty.size (x / 256 ^ (n - ty.size)) :: highOrderParts (n - ty.size) x tys

namespace Buffer

/-- `append_as` of each value, in order. -/
def appendValues (b : Buffer) : List TypedValue → Except Fault Buffer
  | [] => .ok b
  | v :: values => do
    let b ← b.appendAs v.val
    b.appendValues values

/-- `retrieve_as` at each type, in order. -/
def readValues (b : Buffer) : List IntTy → Except Fault (Buffer × List TypedValue)
  | [] => .ok (b, [])
  | ty :: tys => do
    let (b, val) ← b.retrieveAs ty.Val
    let (b, values) ← b.readValues tys
    .ok (b, { ty, val } :: values)

/-- `retrieve` of each number of bytes, in order. -/
def retrieveEach (b : Buffer) : List Nat → Except Fault Buffer
  | [] => .ok b
  | size :: sizes => do
    let b ← b.retrieve size
    b.retrieveEach sizes

/-- The buffer, which holds these bytes, keeps integers. -/
structure KeepsValues (b : Buffer) (bytes : List UInt8) : Prop where
  /-- What is appended is read back, in order, when the bytes before it were retrieved, at once
  or piece by piece. -/
  append : ∀ values sizes, sizes.sum = bytes.length →
    ∃ b₁ b₂ b₃, b.appendValues values = .ok b₁ ∧ b₁.retrieveEach sizes = .ok b₂ ∧
      b₂.readValues (values.map fun v => v.ty) = .ok (b₃, values) ∧ b₃.readableBytes = .ok 0
  /-- A value that fits in front is read back, and the bytes behind it are as before. -/
  prepend : ∀ v : TypedValue, v.ty.size ≤ b.prependableBytes →
    ∃ b₁ b₂, b.prependAs v.val = .ok b₁ ∧ b₁.retrieveAs v.ty.Val = .ok (b₂, v.val) ∧
      b₂.peek = .ok bytes
  /-- `peek_as` gives the two's complement value of the first bytes, the most significant one
  first. Read at types that together are not wider, they give the parts of this value, its
  high-order part first. -/
  peek : ∀ ty : IntTy, ty.size ≤ bytes.length →
    ∃ v, b.peekAs ty.Val = .ok v ∧
      ty.toInt v = twosComplement ty.size (ofBE (bytes.take ty.size)) ∧
      ∀ tys : List IntTy, (tys.map fun ty => ty.size).sum ≤ ty.size →
        ∃ b' values, b.readValues tys = .ok (b', values) ∧ (values.map fun v => v.ty) = tys ∧
          values.map TypedValue.toInt = highOrderParts ty.size (ty.toInt v) tys

end Buffer

end Ruduo
