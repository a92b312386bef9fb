import Mathlib.Data.List.Basic
import Mathlib.Data.List.Nodup

/-!
# `Ruduo.Lib.Slab`: stores that hand out reusable keys

`Slab S` is the interface of a slab: a growable store that picks the key of a new value
itself and may pick the key of a removed value again. `LawfulSlab S` states what a user of a
slab relies on:

* a picked key is vacant, and it is below the capacity while the slab is not full;
* inserting below the capacity keeps the capacity, and `withCapacity` gives the capacity it
  was asked for;
* every other key keeps its value.

Which vacant key is picked stays open. `FreeListSlab` is one lawful slab: it hands out the key
that was vacated last, and a new key at the end when no key is vacant.
-/

set_option autoImplicit false

namespace Ruduo.Lib

/-- A store that picks the keys of its values itself. -/
class Slab (S : Type → Type) where
  /-- An empty slab with room for this many values. -/
  withCapacity {α : Type} : Nat → S α
  /-- The number of values the slab holds without growing. -/
  capacity {α : Type} : S α → Nat
  /-- The number of values in the slab. -/
  len {α : Type} : S α → Nat
  /-- The value at a key, or `none` at a vacant key. -/
  get {α : Type} : S α → Nat → Option α
  /-- The key the next insertion uses. -/
  vacantKey {α : Type} : S α → Nat
  /-- The slab with a new value at `vacantKey`. -/
  insert {α : Type} : S α → α → S α
  /-- The slab with the value at an occupied key replaced. -/
  set {α : Type} : S α → Nat → α → S α
  /-- The slab with the key vacated. -/
  remove {α : Type} : S α → Nat → S α
  /-- The occupied keys. -/
  keys {α : Type} : S α → List Nat

/-- What the users of a slab rely on. -/
class LawfulSlab (S : Type → Type) [Slab S] : Prop where
  get_withCapacity {α : Type} (c k : Nat) :
    Slab.get (Slab.withCapacity c : S α) k = none
  len_withCapacity {α : Type} (c : Nat) : Slab.len (Slab.withCapacity c : S α) = 0
  capacity_withCapacity {α : Type} (c : Nat) : Slab.capacity (Slab.withCapacity c : S α) = c
  get_vacantKey {α : Type} (s : S α) : Slab.get s (Slab.vacantKey s) = none
  vacantKey_lt {α : Type} (s : S α) (h : Slab.len s < Slab.capacity s) :
    Slab.vacantKey s < Slab.capacity s
  get_insert {α : Type} (s : S α) (a : α) (k : Nat) :
    Slab.get (Slab.insert s a) k = if k = Slab.vacantKey s then some a else Slab.get s k
  len_insert {α : Type} (s : S α) (a : α) : Slab.len (Slab.insert s a) = Slab.len s + 1
  capacity_insert {α : Type} (s : S α) (a : α) (h : Slab.len s < Slab.capacity s) :
    Slab.capacity (Slab.insert s a) = Slab.capacity s
  get_set {α : Type} (s : S α) (k : Nat) (a : α) (j : Nat) :
    Slab.get (Slab.set s k a) j = if j = k ∧ (Slab.get s k).isSome then some a else Slab.get s j
  len_set {α : Type} (s : S α) (k : Nat) (a : α) : Slab.len (Slab.set s k a) = Slab.len s
  capacity_set {α : Type} (s : S α) (k : Nat) (a : α) :
    Slab.capacity (Slab.set s k a) = Slab.capacity s
  get_remove {α : Type} (s : S α) (k j : Nat) :
    Slab.get (Slab.remove s k) j = if j = k then none else Slab.get s j
  len_remove {α : Type} (s : S α) (k : Nat) (h : (Slab.get s k).isSome) :
    Slab.len (Slab.remove s k) + 1 = Slab.len s
  capacity_remove {α : Type} (s : S α) (k : Nat) :
    Slab.capacity (Slab.remove s k) = Slab.capacity s
  mem_keys {α : Type} (s : S α) (k : Nat) : k ∈ Slab.keys s ↔ (Slab.get s k).isSome
  nodup_keys {α : Type} (s : S α) : (Slab.keys s).Nodup

attribute [simp] LawfulSlab.get_withCapacity LawfulSlab.len_withCapacity
  LawfulSlab.capacity_withCapacity LawfulSlab.get_vacantKey LawfulSlab.len_insert
  LawfulSlab.len_set LawfulSlab.capacity_set LawfulSlab.capacity_remove

namespace Slab
variable {S : Type → Type} [Slab S] {α : Type}

/-- Take the value at a key out of the slab, if there is one. -/
def tryRemove (s : S α) (k : Nat) : Option (α × S α) :=
  (get s k).map fun a => (a, remove s k)

variable [LawfulSlab S] (s : S α)

/-- The picked key holds the new value. -/
@[simp] theorem get_insert_self (a : α) : get (insert s a) (vacantKey s) = some a := by
  simp [LawfulSlab.get_insert]

/-- An occupied key is not the key the next insertion picks. -/
theorem ne_vacantKey {k : Nat} {a : α} (h : get s k = some a) : k ≠ vacantKey s := by
  rintro rfl
  simp at h

/-- An insertion keeps the value at every occupied key. -/
theorem get_insert_of_some {k : Nat} {a : α} (b : α) (h : get s k = some a) :
    get (insert s b) k = some a := by
  rw [LawfulSlab.get_insert, if_neg (ne_vacantKey s h), h]

/-- Replacing the value at an occupied key. -/
theorem get_set_of_some {k : Nat} {a : α} (b : α) (j : Nat) (h : get s k = some a) :
    get (set s k b) j = if j = k then some b else get s j := by
  simp [LawfulSlab.get_set, h]

end Slab

/-- A slab that reuses the key vacated last. `entries` holds a value or a vacancy at each key,
`free` lists the vacant keys, the latest first. -/
structure FreeListSlab (α : Type) where
  entries : List (Option α)
  free : List Nat
  cap : Nat
  free_nodup : free.Nodup
  mem_free : ∀ k, k ∈ free ↔ entries[k]? = some none
  length_le : entries.length ≤ cap

namespace FreeListSlab
variable {α : Type}

/-- The key the next insertion uses: the latest vacated one, or a new one at the end. -/
def vacantKey (s : FreeListSlab α) : Nat := s.free.headD s.entries.length

/-- Fill the latest vacancy, or grow at the end. A full slab doubles its capacity. -/
def insert (s : FreeListSlab α) (a : α) : FreeListSlab α :=
  match hf : s.free with
  | [] =>
    { entries := s.entries ++ [some a], free := []
      cap := if s.entries.length < s.cap then s.cap else max 4 (2 * s.cap)
      free_nodup := List.nodup_nil
      mem_free := by
        intro k
        have := s.mem_free k
        rw [hf] at this
        by_cases hk : k < s.entries.length
        · simpa [List.getElem?_append_left hk] using this
        · rw [List.getElem?_append_right (by omega)]
          rcases hj : k - s.entries.length with _ | j <;> simp
      length_le := by
        have := s.length_le
        rw [List.length_append, List.length_singleton]
        split <;> omega }
  | k :: rest =>
    { entries := s.entries.set k (some a), free := rest, cap := s.cap
      free_nodup := (List.nodup_cons.mp (hf ▸ s.free_nodup)).2
      mem_free := by
        intro j
        have hnd := List.nodup_cons.mp (hf ▸ s.free_nodup)
        have hj := s.mem_free j
        rw [hf, List.mem_cons] at hj
        rw [List.getElem?_set]
        by_cases hkj : k = j
        · subst hkj
          simp only [if_true]
          split <;> simp [hnd.1]
        · rw [if_neg hkj, ← hj]
          simp [Ne.symm hkj]
      length_le := by simpa using s.length_le }

/-- Replace the value at an occupied key. -/
def set (s : FreeListSlab α) (k : Nat) (a : α) : FreeListSlab α :=
  if h : (s.entries[k]?.join).isSome then
    { s with
      entries := s.entries.set k (some a)
      mem_free := by
        intro j
        rw [s.mem_free j, List.getElem?_set]
        by_cases hkj : k = j
        · subst hkj
          cases he : s.entries[k]? with
          | none => simp [he] at h
          | some o =>
            have hlt := (List.getElem?_eq_some_iff.mp he).1
            cases o <;> simp_all
        · simp [hkj]
      length_le := by simpa using s.length_le }
  else s

/-- Vacate an occupied key. -/
def remove (s : FreeListSlab α) (k : Nat) : FreeListSlab α :=
  if h : (s.entries[k]?.join).isSome then
    { s with
      entries := s.entries.set k none
      free := k :: s.free
      free_nodup := by
        refine List.nodup_cons.mpr ⟨fun hk => ?_, s.free_nodup⟩
        rw [s.mem_free] at hk
        simp [hk] at h
      mem_free := by
        intro j
        rw [List.mem_cons, s.mem_free j, List.getElem?_set]
        by_cases hkj : k = j
        · subst hkj
          cases he : s.entries[k]? with
          | none => simp [he] at h
          | some o => simp [(List.getElem?_eq_some_iff.mp he).1]
        · simp [hkj, Ne.symm hkj]
      length_le := by simpa using s.length_le }
  else s

/-- The slab with a free list is a slab. -/
instance : Slab FreeListSlab where
  withCapacity c := ⟨[], [], c, List.nodup_nil, by simp, by simp⟩
  capacity s := s.cap
  len s := s.entries.countP Option.isSome
  get s k := s.entries[k]?.join
  vacantKey := vacantKey
  insert := insert
  set := set
  remove := remove
  keys s := (List.range s.entries.length).filter fun k => (s.entries[k]?.join).isSome

variable (s : FreeListSlab α) (a : α) (k : Nat)

/-- Without a free key, the entry goes to the end, and the capacity doubles when it is used up. -/
private theorem insert_of_nil (h : s.free = []) :
    (insert s a).entries = s.entries ++ [some a] ∧
      (insert s a).cap = if s.entries.length < s.cap then s.cap else max 4 (2 * s.cap) := by
  unfold insert
  split
  · exact ⟨rfl, rfl⟩
  · simp_all

/-- With a free key, the entry goes there. -/
private theorem insert_of_cons {rest : List Nat} (h : s.free = k :: rest) :
    (insert s a).entries = s.entries.set k (some a) ∧ (insert s a).cap = s.cap := by
  unfold insert
  split
  · simp_all
  · rename_i hf
    obtain ⟨rfl, rfl⟩ := List.cons.inj (h.symm.trans hf)
    exact ⟨rfl, rfl⟩

/-- A key on the free list is inside the entries, and vacant. -/
theorem getElem?_of_free {rest : List Nat} (h : s.free = k :: rest) :
    s.entries[k]? = some none := (s.mem_free k).mp (by simp [h])

/-- Writing at an index that holds `o` changes the count of values by the difference. -/
theorem countP_set {o v : Option α} {l : List (Option α)} (h : l[k]? = some o) :
    (l.set k v).countP Option.isSome + (if o.isSome then 1 else 0)
      = l.countP Option.isSome + (if v.isSome then 1 else 0) := by
  obtain ⟨hlt, hk⟩ := List.getElem?_eq_some_iff.mp h
  rw [List.countP_set hlt, hk]
  split
  · have hpos : 0 < l.countP Option.isSome :=
      List.countP_pos_iff.mpr ⟨o, hk ▸ List.getElem_mem hlt, by assumption⟩
    omega
  · omega

/-- Without a vacancy every entry holds a value. -/
private theorem countP_of_nil (h : s.free = []) :
    s.entries.countP Option.isSome = s.entries.length := by
  refine List.countP_eq_length.mpr fun o ho => ?_
  obtain ⟨i, hi, rfl⟩ := List.mem_iff_getElem.mp ho
  cases he : s.entries[i] with
  | some b => rfl
  | none =>
    have := (s.mem_free i).mpr (by rw [List.getElem?_eq_getElem hi, he])
    simp [h] at this

/-- Setting an occupied key replaces its entry. -/
private theorem set_of_isSome (h : (s.entries[k]?.join).isSome) :
    (set s k a).entries = s.entries.set k (some a) ∧ (set s k a).cap = s.cap := by
  simp [set, h]

/-- Removing an occupied key leaves its place free. -/
private theorem remove_of_isSome (h : (s.entries[k]?.join).isSome) :
    (remove s k).entries = s.entries.set k none ∧ (remove s k).cap = s.cap := by
  simp [remove, h]

/-- A key is occupied when an entry stands at its place. -/
theorem join_isSome_iff {l : List (Option α)} :
    (l[k]?.join).isSome ↔ ∃ b, l[k]? = some (some b) := by
  rcases l[k]? with _ | _ | b <;> simp

/-- The slab with a free list keeps the laws: a vacant key is a free one, or the next at the end. -/
instance : LawfulSlab FreeListSlab where
  get_withCapacity c k := by simp [Slab.get, Slab.withCapacity]
  len_withCapacity c := by simp [Slab.len, Slab.withCapacity]
  capacity_withCapacity c := rfl
  get_vacantKey s := by
    show s.entries[s.free.headD s.entries.length]?.join = none
    cases hf : s.free with
    | nil => simp
    | cons k rest => simp [getElem?_of_free s k hf]
  vacantKey_lt s h := by
    show s.free.headD s.entries.length < s.cap
    have hle := s.length_le
    cases hf : s.free with
    | cons k rest =>
      have := (List.getElem?_eq_some_iff.mp (getElem?_of_free s k hf)).1
      simp only [List.headD_cons]
      omega
    | nil =>
      have hall := countP_of_nil s hf
      have hlt : s.entries.countP Option.isSome < s.cap := h
      simp only [List.headD_nil]
      omega
  get_insert s a k := by
    show (insert s a).entries[k]?.join = if k = s.free.headD s.entries.length then some a
      else s.entries[k]?.join
    cases hf : s.free with
    | nil =>
      rw [(insert_of_nil s a hf).1, List.headD_nil]
      rcases Nat.lt_trichotomy k s.entries.length with h | rfl | h
      · rw [List.getElem?_append_left h, if_neg (by omega)]
      · simp
      · rw [if_neg (by omega), List.getElem?_eq_none (by simp; omega),
          List.getElem?_eq_none (by omega)]
    | cons j rest =>
      have hj := (List.getElem?_eq_some_iff.mp (getElem?_of_free s j hf)).1
      rw [(insert_of_cons s a j hf).1, List.headD_cons, List.getElem?_set]
      by_cases hkj : j = k
      · subst hkj
        simp [hj]
      · simp [hkj, Ne.symm hkj]
  len_insert s a := by
    show (insert s a).entries.countP Option.isSome = s.entries.countP Option.isSome + 1
    cases hf : s.free with
    | nil => simp [(insert_of_nil s a hf).1]
    | cons j rest =>
      have := countP_set j (v := some a) (getElem?_of_free s j hf)
      simpa [(insert_of_cons s a j hf).1] using this
  capacity_insert s a h := by
    show (insert s a).cap = s.cap
    cases hf : s.free with
    | cons j rest => exact (insert_of_cons s a j hf).2
    | nil =>
      rw [(insert_of_nil s a hf).2, if_pos]
      have hall := countP_of_nil s hf
      exact hall ▸ h
  get_set s k a j := by
    show (set s k a).entries[j]?.join
      = if j = k ∧ (s.entries[k]?.join).isSome then some a else s.entries[j]?.join
    by_cases h : (s.entries[k]?.join).isSome
    · obtain ⟨b, hb⟩ := (join_isSome_iff k).mp h
      have hlt := (List.getElem?_eq_some_iff.mp hb).1
      rw [(set_of_isSome s a k h).1, List.getElem?_set]
      by_cases hkj : k = j
      · subst hkj
        rw [if_pos rfl, if_pos hlt, if_pos ⟨rfl, h⟩]
        rfl
      · simp [hkj, Ne.symm hkj]
    · simp [set, h]
  len_set s k a := by
    show (set s k a).entries.countP Option.isSome = s.entries.countP Option.isSome
    by_cases h : (s.entries[k]?.join).isSome
    · obtain ⟨b, hb⟩ := (join_isSome_iff k).mp h
      have := countP_set k (v := some a) hb
      simpa [(set_of_isSome s a k h).1] using this
    · simp [set, h]
  capacity_set s k a := by
    show (set s k a).cap = s.cap
    by_cases h : (s.entries[k]?.join).isSome
    · exact (set_of_isSome s a k h).2
    · simp [set, h]
  get_remove s k j := by
    show (remove s k).entries[j]?.join = if j = k then none else s.entries[j]?.join
    by_cases h : (s.entries[k]?.join).isSome
    · rw [(remove_of_isSome s k h).1, List.getElem?_set]
      by_cases hkj : k = j
      · subst hkj
        obtain ⟨b, hb⟩ := (join_isSome_iff k).mp h
        simp [(List.getElem?_eq_some_iff.mp hb).1]
      · simp [hkj, Ne.symm hkj]
    · rw [show remove s k = s from dif_neg h]
      by_cases hkj : j = k
      · subst hkj
        rw [if_pos rfl]
        exact Option.not_isSome_iff_eq_none.mp h
      · rw [if_neg hkj]
  len_remove s k h := by
    show (remove s k).entries.countP Option.isSome + 1 = s.entries.countP Option.isSome
    have h' : (s.entries[k]?.join).isSome := h
    obtain ⟨b, hb⟩ := (join_isSome_iff k).mp h'
    have := countP_set k (v := none) hb
    simpa [(remove_of_isSome s k h').1] using this
  capacity_remove s k := by
    show (remove s k).cap = s.cap
    by_cases h : (s.entries[k]?.join).isSome
    · exact (remove_of_isSome s k h).2
    · simp [remove, h]
  mem_keys s k := by
    show k ∈ (List.range s.entries.length).filter (fun j => (s.entries[j]?.join).isSome)
      ↔ (s.entries[k]?.join).isSome
    rw [List.mem_filter, List.mem_range]
    refine ⟨fun h => h.2, fun h => ⟨?_, h⟩⟩
    obtain ⟨b, hb⟩ := (join_isSome_iff k).mp h
    exact (List.getElem?_eq_some_iff.mp hb).1
  nodup_keys s := List.nodup_range.filter _

end FreeListSlab

end Ruduo.Lib
