import Ruduo.Lib.DoublyLinked
import Ruduo.Spec.PendingSet

/-!
# `Ruduo.Proofs.Timer.Wheel`: the wheel represents a list of pending timeouts

`Wheel t p` says that the timer `t` stores exactly the pending timeouts `p`, the latest first:

* the slab holds one entry for each of them, and nothing else;
* the entries of one slot are linked in the order of `p`, from the key in `wheel[slot]` to
  `EMPTY`, in both directions;
* the cursor `next` is `EMPTY` or an entry of the current slot.

The ticks of the entries are arbitrary, also ticks in the past. `cursor t p` has the entries of the
current slot that the walk of `tickTo` still has in front of it.
-/

set_option autoImplicit false

namespace Ruduo.Timer

open Lib (Slab Seg fromKey)

variable {S : Type → Type} [Slab S] {T : Type}

/-- The keys of the pending timeouts of a slot, the latest first. -/
def slotKeys (mask : Nat) (p : List (Pending T)) (slot : Nat) : List Nat :=
  (p.filter fun e => e.tick &&& mask = slot).map fun e => e.key

/-- The neighbours of an entry. -/
def links (t : Timer S T) (key : Nat) : Option (Nat × Nat) :=
  (Slab.get t.entries key).map fun e => (e.link.prev, e.link.next)

/-- The keys of the current slot from the cursor on. -/
def cursor (t : Timer S T) (p : List (Pending T)) : List Nat :=
  fromKey t.next (slotKeys t.mask p (t.slotFor t.tick))

/-- The slab entry of a pending timeout, with some neighbours. -/
def Stored (t : Timer S T) (e : Pending T) : Prop :=
  ∃ prev next, Slab.get t.entries e.key
    = some { token := e.token, interval := e.interval, link := { tick := e.tick, prev, next } }

/-- The timer stores exactly the pending timeouts `p`, the latest first. -/
structure Wheel (t : Timer S T) (p : List (Pending T)) : Prop where
  /-- The number of slots is a power of two, and the mask is one less. -/
  slots : ∃ k, t.wheel.length = 2 ^ k ∧ t.mask = 2 ^ k - 1
  /-- So no key of the slab is `EMPTY`. -/
  capacity : Slab.capacity t.entries < u64Max
  len_le : Slab.len t.entries ≤ Slab.capacity t.entries
  /-- The slab holds nothing besides the pending timeouts. -/
  len : Slab.len t.entries = p.length
  keys : (p.map fun e => e.key).Nodup
  key_lt : ∀ e ∈ p, e.key < EMPTY
  /-- Each pending timeout stands in the slab under its key. -/
  stored : ∀ e ∈ p, Stored t e
  /-- Each occupied key is that of a pending timeout. -/
  only : ∀ k, (Slab.get t.entries k).isSome → ∃ e ∈ p, e.key = k
  /-- The list of a slot runs through the keys of its pending timeouts, in the order of `p`. -/
  linked : ∀ (slot head : Nat), t.wheel[slot]? = some head →
    ∃ last, Seg t.links EMPTY head (slotKeys t.mask p slot) last EMPTY
  /-- The cursor stands in the list of the current slot, or at its end. -/
  next : t.next = EMPTY ∨ t.next ∈ slotKeys t.mask p (t.slotFor t.tick)

section slotKeys
variable {mask slot slot' k k' : Nat} {p p₁ p₂ : List (Pending T)} {e : Pending T}

/-- The keys of a slot, of two lists in sequence. -/
@[simp] theorem slotKeys_append :
    slotKeys mask (p₁ ++ p₂) slot = slotKeys mask p₁ slot ++ slotKeys mask p₂ slot := by
  simp [slotKeys]

/-- An entry of the slot comes first. -/
theorem slotKeys_cons_self :
    slotKeys mask (e :: p) (e.tick &&& mask) = e.key :: slotKeys mask p (e.tick &&& mask) := by
  simp [slotKeys]

/-- An entry of another slot is skipped. -/
theorem slotKeys_cons_of_ne (h : e.tick &&& mask ≠ slot) :
    slotKeys mask (e :: p) slot = slotKeys mask p slot := by
  simp [slotKeys, h]

/-- The keys of a slot are those of its entries. -/
theorem mem_slotKeys : k ∈ slotKeys mask p slot ↔ ∃ e ∈ p, e.tick &&& mask = slot ∧ e.key = k := by
  simp [slotKeys, and_assoc]

/-- A key that no timeout has is in no slot. -/
theorem ne_of_mem_slotKeys (h : ∀ x ∈ p, x.key ≠ k') (hk : k ∈ slotKeys mask p slot) :
    k ≠ k' := by
  obtain ⟨x, hx, -, rfl⟩ := mem_slotKeys.mp hk
  exact h x hx

/-- A slot has a key once. -/
theorem slotKeys_nodup (mask slot : Nat) (h : (p.map fun e => e.key).Nodup) :
    (slotKeys mask p slot).Nodup :=
  h.sublist (List.filter_sublist.map _)

/-- With distinct keys, a pending timeout is determined by its key. -/
theorem eq_of_key_eq (h : (p.map fun e => e.key).Nodup) {a b : Pending T} (ha : a ∈ p)
    (hb : b ∈ p) (hk : a.key = b.key) : a = b :=
  List.inj_on_of_nodup_map h ha hb hk

/-- With distinct keys, a key is in one slot only. -/
theorem slot_eq_of_mem (h : (p.map fun e => e.key).Nodup) (h₁ : k ∈ slotKeys mask p slot)
    (h₂ : k ∈ slotKeys mask p slot') : slot = slot' := by
  obtain ⟨a, ha, rfl, hak⟩ := mem_slotKeys.mp h₁
  obtain ⟨b, hb, rfl, hbk⟩ := mem_slotKeys.mp h₂
  rw [eq_of_key_eq h ha hb (hak.trans hbk.symm)]

/-- Membership by key in the slot of the timeout. -/
theorem key_mem_slotKeys_iff (h : (p.map fun e => e.key).Nodup) (he : e ∈ p) :
    e.key ∈ slotKeys mask p slot ↔ e.tick &&& mask = slot := by
  rw [mem_slotKeys]
  constructor
  · rintro ⟨b, hb, rfl, hk⟩
    rw [eq_of_key_eq h hb he hk]
  · intro hs
    exact ⟨e, he, hs, rfl⟩

end slotKeys

namespace Wheel
variable {t : Timer S T} {p : List (Pending T)} {e : Pending T} {slot : Nat}

/-- The slot of a tick is the rest of a division. -/
theorem slotFor_eq (h : Wheel t p) (tick : Nat) : t.slotFor tick = tick % t.wheel.length := by
  obtain ⟨k, hlen, hmask⟩ := h.slots
  rw [slotFor, hmask, hlen, Nat.and_two_pow_sub_one_eq_mod]

/-- The wheel has a slot. -/
theorem length_pos (h : Wheel t p) : 0 < t.wheel.length := by
  obtain ⟨k, hlen, -⟩ := h.slots
  rw [hlen]
  exact Nat.two_pow_pos k

/-- The slot of a tick is on the wheel. -/
theorem slotFor_lt (h : Wheel t p) (tick : Nat) : t.slotFor tick < t.wheel.length := by
  rw [h.slotFor_eq]
  exact Nat.mod_lt _ h.length_pos

/-- Every slot has a head. -/
theorem wheelAt_eq (h : Wheel t p) (tick : Nat) :
    ∃ head, t.wheelAt (t.slotFor tick) = .ok head ∧ t.wheel[t.slotFor tick]? = some head := by
  have hlt := h.slotFor_lt tick
  exact ⟨t.wheel[t.slotFor tick], by simp [wheelAt, hlt], List.getElem?_eq_getElem hlt⟩

/-- `EMPTY` is no key of a slot. -/
theorem empty_not_mem (h : Wheel t p) (slot : Nat) : EMPTY ∉ slotKeys t.mask p slot := by
  intro hm
  obtain ⟨e, he, -, hk⟩ := mem_slotKeys.mp hm
  have := h.key_lt e he
  omega

/-- The head of a slot, and what is linked behind it. -/
theorem head_eq (h : Wheel t p) {head : Nat} (hw : t.wheel[slot]? = some head) :
    head = (slotKeys t.mask p slot).headD EMPTY := by
  obtain ⟨last, hs⟩ := h.linked slot head hw
  cases hks : slotKeys t.mask p slot with
  | nil =>
    rw [hks] at hs
    exact hs.2.symm
  | cons k ks =>
    rw [hks] at hs
    exact hs.head_eq

/-- A full slab holds as many entries as it has room for. -/
theorem len_lt (h : Wheel t p) (hroom : Slab.len t.entries ≠ Slab.capacity t.entries) :
    Slab.len t.entries < Slab.capacity t.entries := by
  have := h.len_le
  omega

/-- There is an entry at every key of a slot. -/
theorem get_isSome_of_mem_slotKeys (h : Wheel t p) {k : Nat} (hk : k ∈ slotKeys t.mask p slot) :
    ∃ e, Slab.get t.entries k = some e := by
  obtain ⟨e, he, -, rfl⟩ := mem_slotKeys.mp hk
  obtain ⟨prev, next, hget⟩ := h.stored e he
  exact ⟨_, hget⟩

end Wheel

/-- The fields that no operation changes, and the capacity of the slab. -/
structure Frame (t t' : Timer S T) : Prop where
  tickMs : t'.tickMs = t.tickMs
  startMs : t'.startMs = t.startMs
  mask : t'.mask = t.mask
  capacity : Slab.capacity t'.entries = Slab.capacity t.entries

/-- What does not change is a frame. -/
theorem Frame.refl (t : Timer S T) : Frame t t := ⟨rfl, rfl, rfl, rfl⟩

/-- Two parts in sequence. -/
theorem Frame.trans {t t' t'' : Timer S T} (h₁ : Frame t t') (h₂ : Frame t' t'') : Frame t t'' :=
  ⟨h₂.tickMs.trans h₁.tickMs, h₂.startMs.trans h₁.startMs, h₂.mask.trans h₁.mask,
    h₂.capacity.trans h₁.capacity⟩

section
variable {t : Timer S T}

/-- An entry is read at its key. -/
theorem entryAt_eq {key : Nat} {e : Entry T} (he : Slab.get t.entries key = some e) :
    t.entryAt key = .ok e := by
  rw [entryAt, he]

/-- The entry before is set in the slab. -/
theorem setPrev_eq {key prev : Nat} {e : Entry T} (he : Slab.get t.entries key = some e) :
    t.setPrev key prev
      = .ok { t with
          entries := Slab.set t.entries key { e with link := { e.link with prev := prev } } } := by
  rw [setPrev, entryAt_eq he, ok_bind]

/-- The entry after is set in the slab. -/
theorem setNext_eq {key next : Nat} {e : Entry T} (he : Slab.get t.entries key = some e) :
    t.setNext key next
      = .ok { t with
          entries := Slab.set t.entries key { e with link := { e.link with next := next } } } := by
  rw [setNext, entryAt_eq he, ok_bind]

end

end Ruduo.Timer
