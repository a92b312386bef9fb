import Ruduo.Lib.DoublyLinked
import Ruduo.Spec.PendingSet

/-!
# `Ruduo.Spec.Representation`: what the fields of a timer mean

The entries of a timer are strung up in doubly linked lists, one for each slot of the wheel.
`WellLinked t lists` says that the keys in `lists slot` are the list of the slot, in order, and
how the slab, the wheel and the cursor fit together.
-/

set_option autoImplicit false

namespace Ruduo

open Lib (Path Slab)

/-- A tick stays below `u64::MAX`. Everything else is allowed: an insertion at a tick in the
past, and a handle that is stale or made up. -/
def TimerOp.Bounded {T : Type} : TimerOp T → Prop
  | .insert _ _ _ => True
  | .clear _ => True
  | .tickTo nowTick => nowTick < u64Max

namespace Timer
variable {S : Type → Type} [Slab S] {T : Type}

/-- The key behind an entry. -/
def nextOf (t : Timer S T) (key : Nat) : Option Nat :=
  (Slab.get t.entries key).map fun e => e.link.next

/-- The key in front of an entry. -/
def prevOf (t : Timer S T) (key : Nat) : Option Nat :=
  (Slab.get t.entries key).map fun e => e.link.prev

/-- The keys `lists slot` are the doubly linked list of each slot, and together the lists hold
the live entries. -/
structure WellLinked (t : Timer S T) (lists : Nat → List Nat) : Prop where
  /-- From the key in `wheel[slot]`, the `next` links lead through the list to `EMPTY`. -/
  forward : ∀ (slot head : Nat), t.wheel[slot]? = some head → Path t.nextOf EMPTY head (lists slot)
  /-- From the last key of the list, the `prev` links lead back through it to `EMPTY`. -/
  backward : ∀ slot, slot < t.wheel.length →
    Path t.prevOf EMPTY ((lists slot).getLastD EMPTY) (lists slot).reverse
  /-- Before the first entry of a list there is none. -/
  head_prev : ∀ (slot head : Nat), t.wheel[slot]? = some head → head ≠ EMPTY →
    t.prevOf head = some EMPTY
  /-- The `prev` link of a successor leads back. -/
  next_prev : ∀ key next, t.nextOf key = some next → next ≠ EMPTY → t.prevOf next = some key
  /-- The `next` link of a predecessor leads back. -/
  prev_next : ∀ key prev, t.prevOf key = some prev → prev ≠ EMPTY → t.nextOf prev = some key
  /-- Every tick has a slot. -/
  slot_lt : ∀ tick, t.slotFor tick < t.wheel.length
  /-- A live entry occurs once in the list of the slot of its tick, and in no other list. -/
  count : ∀ key e, Slab.get t.entries key = some e → ∀ slot, slot < t.wheel.length →
    (lists slot).count key = if slot = t.slotFor e.link.tick then 1 else 0
  /-- No list contains a vacant key. -/
  live : ∀ slot, slot < t.wheel.length → ∀ key ∈ lists slot, (Slab.get t.entries key).isSome
  /-- The cursor is in the list of the current slot. -/
  cursor : t.next = EMPTY ∨
    (Slab.get t.entries t.next).isSome ∧ t.next ∈ lists (t.slotFor t.tick)

end Timer

end Ruduo
