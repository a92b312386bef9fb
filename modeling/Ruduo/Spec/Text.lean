import Ruduo.Model.Text
import Ruduo.Spec.TypedValues

/-!
# `Ruduo.Spec.Text`: strings go through a buffer unchanged

What it means that a buffer keeps strings, and integers and strings in one stream. A string that is
read at another length than it was written may be cut inside of a character.

`readRounds` is what a connection does that takes its input as text: in every round it reads chunks
until there are no more, and then takes all of them out as one string.
-/

set_option autoImplicit false

namespace Ruduo

open Lib (utf8Encode replacement)

/-- What is appended to a buffer. -/
inductive Item where
  | int (v : TypedValue)
  | text (s : List Char)

/-- How it is read. A string is read by its length in bytes. -/
inductive ItemTy where
  | int (ty : IntTy)
  | text (len : Nat)

/-- What a reader has to know of an item: the type of an integer, the length of a text. -/
def Item.ty : Item → ItemTy
  | .int v => .int v.ty
  | .text s => .text (utf8Encode s).length

namespace Buffer

/-- An item is appended, each in its own way. -/
def appendItem (b : Buffer) : Item → Except Fault Buffer
  | .int v => b.appendAs v.val
  | .text s => b.appendString s

/-- An item is read back. -/
def readItem (b : Buffer) : ItemTy → Except Fault (Buffer × Item)
  | .int ty => do
    let (b, val) ← b.retrieveAs ty.Val
    .ok (b, .int { ty, val })
  | .text len => do
    let (b, s) ← b.retrieveAsString len
    .ok (b, .text s)

/-- `append_as` or `append_string` of each item, in order. -/
def appendItems (b : Buffer) : List Item → Except Fault Buffer
  | [] => .ok b
  | x :: items => do
    let b ← b.appendItem x
    b.appendItems items

/-- `retrieve_as` or `retrieve_as_string` of each item, in order. -/
def readItems (b : Buffer) : List ItemTy → Except Fault (Buffer × List Item)
  | [] => .ok (b, [])
  | ty :: tys => do
    let (b, x) ← b.readItem ty
    let (b, items) ← b.readItems tys
    .ok (b, x :: items)

/-- The buffer, which holds these bytes, keeps strings. -/
structure KeepsText (b : Buffer) (bytes : List UInt8) : Prop where
  /-- Integers and strings that are appended are read back, in order, when the bytes before them
  were retrieved, at once or piece by piece. -/
  items : ∀ (items : List Item) (sizes : List Nat), sizes.sum = bytes.length →
    ∃ b₁ b₂ b₃, b.appendItems items = .ok b₁ ∧ b₁.retrieveEach sizes = .ok b₂ ∧
      b₂.readItems (items.map Item.ty) = .ok (b₃, items) ∧ b₃.readableBytes = .ok 0
  /-- Of a text, `retrieve_as_string` takes the characters that end within the length. If the
  length ends inside of a character, U+FFFD stands for the part of it. -/
  cut : ∀ (text : List Char) (rest : List UInt8) (len : Nat), bytes = utf8Encode text ++ rest →
    len ≤ (utf8Encode text).length → ∃ b' text₁ text₂ s, b.retrieveAsString len = .ok (b', s) ∧
      text = text₁ ++ text₂ ∧ b'.peek = .ok (bytes.drop len) ∧
      ((len = (utf8Encode text₁).length ∧ s = text₁) ∨
        (∃ c text₃, text₂ = c :: text₃ ∧ (utf8Encode text₁).length < len ∧
          len < (utf8Encode (text₁ ++ [c])).length ∧ s = text₁ ++ [replacement]))

/-- `read_from` of each chunk, in order. -/
def readChunks (b : Buffer) : List (List UInt8) → Except Fault Buffer
  | [] => .ok b
  | chunk :: chunks => do
    let (b, _) ← b.readFrom (.ok chunk)
    b.readChunks chunks

/-- Rounds of `read_from`, each with a `retrieve_all_as_string` at its end. -/
def readRounds (b : Buffer) : List (List (List UInt8)) → Except Fault (Buffer × List Char)
  | [] => .ok (b, [])
  | chunks :: rounds => do
    let b ← b.readChunks chunks
    let (b, s) ← b.retrieveAllAsString
    let (b, s') ← b.readRounds rounds
    .ok (b, s ++ s')

end Buffer

end Ruduo
