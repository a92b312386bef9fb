import Mathlib.Data.List.Nodup
import Mathlib.Logic.Function.Basic

/-!
# `Ruduo.Lib.DeferredRemoval`: closed now, removed later

Items live in a table, under keys that are used again. An item is closed first, and its key joins a
queue. When the key leaves the queue, whatever is at the key is removed. In between, other items
come, and other keys join the queue.

`Sound` says that every item is closed at most once, and that the keys in the queue are those of
the closed items, one each. It is kept when an item comes (`Sound.add`), when the first key of the
queue is removed (`Sound.remove`), and when an item is closed that was not closed before
(`Sound.close`). A key that leaves the queue then finds the item that put it there
(`Sound.front`).
-/

set_option autoImplicit false

namespace Ruduo.Lib

/-- A table of items that are closed and removed. Items are numbered as they come. -/
@[ext] structure DeferredRemoval (K : Type) where
  /-- The item at a key, and how often it was closed. -/
  table : K → Option (Nat × Nat)
  /-- The keys that wait for their removal. -/
  waiting : List K
  /-- The items that were closed, in this order. -/
  closed : List Nat
  /-- How many keys have left the queue. -/
  removed : Nat
  /-- How many items have come. -/
  made : Nat

namespace DeferredRemoval
variable {K : Type} [DecidableEq K] {s : DeferredRemoval K} {k k' : K} {id n : Nat} {rest : List K}

/-- A new item comes to the key. -/
def add (s : DeferredRemoval K) (k : K) : DeferredRemoval K :=
  { s with table := Function.update s.table k (some (s.made, 0)), made := s.made + 1 }

/-- The item at the key is closed, for the `n + 1`st time. -/
def close (s : DeferredRemoval K) (k : K) (id n : Nat) : DeferredRemoval K :=
  { s with
    table := Function.update s.table k (some (id, n + 1))
    waiting := s.waiting ++ [k]
    closed := s.closed ++ [id] }

/-- The first key of the queue is removed. -/
def remove (s : DeferredRemoval K) (k : K) (rest : List K) : DeferredRemoval K :=
  { s with table := Function.update s.table k none, waiting := rest, removed := s.removed + 1 }

/-- A key is added with the next number, and nothing of it is under way. -/
@[simp] theorem add_table_self : (s.add k).table k = some (s.made, 0) := Function.update_self _ _ _

/-- Adding leaves the other keys alone. -/
theorem add_table_of_ne (h : k' ≠ k) : (s.add k).table k' = s.table k' :=
  Function.update_of_ne h _ _

/-- Closing announces one removal more of the key. -/
@[simp] theorem close_table_self : (s.close k id n).table k = some (id, n + 1) :=
  Function.update_self _ _ _

/-- Closing leaves the other keys alone. -/
theorem close_table_of_ne (h : k' ≠ k) : (s.close k id n).table k' = s.table k' :=
  Function.update_of_ne h _ _

/-- A removed key is free. -/
@[simp] theorem remove_table_self : (s.remove k rest).table k = none := Function.update_self _ _ _

/-- Removing leaves the other keys alone. -/
theorem remove_table_of_ne (h : k' ≠ k) : (s.remove k rest).table k' = s.table k' :=
  Function.update_of_ne h _ _

omit [DecidableEq K] in
/-- Every item is closed at most once, and the keys of the closed items wait. -/
structure Sound (s : DeferredRemoval K) : Prop where
  id_lt : ∀ k id n, s.table k = some (id, n) → id < s.made
  id_inj : ∀ k k' id n n', s.table k = some (id, n) → s.table k' = some (id, n') → k = k'
  /-- An item was closed once when its key waits, and not at all otherwise. -/
  once : ∀ k id n, s.table k = some (id, n) → (k ∈ s.waiting → n = 1) ∧ (k ∉ s.waiting → n = 0)
  waiting_nodup : s.waiting.Nodup
  /-- The keys that wait are those of the items closed last, in the same order. -/
  closers : (s.closed.drop s.removed).map some = s.waiting.map fun k => (s.table k).map Prod.fst
  removed_le : s.removed ≤ s.closed.length
  closed_nodup : s.closed.Nodup
  closed_lt : ∀ id ∈ s.closed, id < s.made
  /-- The key of a closed item that is still there waits. -/
  closed_waiting : ∀ k id n, s.table k = some (id, n) → id ∈ s.closed → k ∈ s.waiting

namespace Sound

omit [DecidableEq K] in
/-- A table without items. -/
theorem empty (h : ∀ k, s.table k = none) (hwaiting : s.waiting = []) (hclosed : s.closed = [])
    (hremoved : s.removed = 0) : s.Sound where
  id_lt k id n hk := by simp [h] at hk
  id_inj k k' id n n' hk := by simp [h] at hk
  once k id n hk := by simp [h] at hk
  waiting_nodup := by simp [hwaiting]
  closers := by simp [hwaiting, hclosed]
  removed_le := by simp [hclosed, hremoved]
  closed_nodup := by simp [hclosed]
  closed_lt := by simp [hclosed]
  closed_waiting k id n hk := by simp [h] at hk

omit [DecidableEq K] in
/-- Every item was closed at most once. -/
theorem le_one (h : s.Sound) (hk : s.table k = some (id, n)) : n ≤ 1 := by
  obtain ⟨hin, hout⟩ := h.once k id n hk
  by_cases hwaits : k ∈ s.waiting
  · exact Nat.le_of_eq (hin hwaits)
  · rw [hout hwaits]
    exact Nat.zero_le 1

omit [DecidableEq K] in
/-- There is an item at every key that waits. -/
theorem isSome_of_waiting (h : s.Sound) (hk : k ∈ s.waiting) : (s.table k).isSome := by
  have hmem : (s.table k).map Prod.fst ∈ (s.closed.drop s.removed).map some := by
    rw [h.closers]
    exact List.mem_map.mpr ⟨k, hk, rfl⟩
  obtain ⟨id, -, hid⟩ := List.mem_map.mp hmem
  simpa using (congrArg Option.isSome hid).symm

omit [DecidableEq K] in
/-- The first key of the queue finds the item that put it there. -/
theorem front (h : s.Sound) (hwaiting : s.waiting = k :: rest) :
    ∃ id, s.table k = some (id, 1) ∧ s.closed[s.removed]? = some id := by
  have hmem : k ∈ s.waiting := by simp [hwaiting]
  obtain ⟨⟨id, n⟩, hk⟩ := Option.isSome_iff_exists.mp (h.isSome_of_waiting hmem)
  obtain rfl := (h.once k id n hk).1 hmem
  refine ⟨id, hk, ?_⟩
  have hfront := congrArg List.head? h.closers
  rw [hwaiting, List.map_cons, List.head?_cons, List.head?_map, List.head?_drop] at hfront
  simpa [hk] using hfront

/-- A new item comes to a free key. -/
theorem add (h : s.Sound) (hk : s.table k = none) : (s.add k).Sound := by
  have hnot : k ∉ s.waiting := by
    intro hwaits
    have hsome := h.isSome_of_waiting hwaits
    simp [hk] at hsome
  have hsame : ∀ k' ∈ s.waiting, (s.add k).table k' = s.table k' := by
    intro k' hwaits
    exact add_table_of_ne (by rintro rfl; exact hnot hwaits)
  have hcases : ∀ k' id n, (s.add k).table k' = some (id, n) →
      (k' = k ∧ id = s.made ∧ n = 0) ∨ s.table k' = some (id, n) := by
    intro k' id n htable
    by_cases hkk : k' = k
    · subst hkk
      simp only [add_table_self, Option.some.injEq, Prod.mk.injEq] at htable
      exact Or.inl ⟨rfl, htable.1.symm, htable.2.symm⟩
    · exact Or.inr ((add_table_of_ne hkk).symm.trans htable)
  refine ⟨?_, ?_, ?_, h.waiting_nodup, ?_, h.removed_le, h.closed_nodup, ?_, ?_⟩
  · intro k' id n htable
    show id < s.made + 1
    rcases hcases k' id n htable with ⟨-, rfl, -⟩ | hold
    · omega
    · exact Nat.lt_succ_of_lt (h.id_lt k' id n hold)
  · -- The new item has a number that no other item has.
    intro k₁ k₂ id n₁ n₂ h₁ h₂
    rcases hcases k₁ id n₁ h₁ with ⟨rfl, rfl, -⟩ | hold₁
    · rcases hcases k₂ _ n₂ h₂ with ⟨rfl, -, -⟩ | hold₂
      · rfl
      · exact absurd (h.id_lt k₂ _ n₂ hold₂) (Nat.lt_irrefl _)
    · rcases hcases k₂ id n₂ h₂ with ⟨rfl, rfl, -⟩ | hold₂
      · exact absurd (h.id_lt k₁ _ n₁ hold₁) (Nat.lt_irrefl _)
      · exact h.id_inj k₁ k₂ id n₁ n₂ hold₁ hold₂
  · intro k' id n htable
    rcases hcases k' id n htable with ⟨rfl, -, rfl⟩ | hold
    · exact ⟨fun hwaits => absurd hwaits hnot, fun _ => rfl⟩
    · exact h.once k' id n hold
  · refine h.closers.trans ?_
    exact List.map_congr_left fun k' hwaits => by rw [hsame k' hwaits]
  · intro id hid
    exact Nat.lt_succ_of_lt (h.closed_lt id hid)
  · intro k' id n htable hid
    rcases hcases k' id n htable with ⟨-, rfl, -⟩ | hold
    · exact absurd (h.closed_lt _ hid) (Nat.lt_irrefl _)
    · exact h.closed_waiting k' id n hold hid

/-- The first key of the queue is removed. -/
theorem remove (h : s.Sound) (hwaiting : s.waiting = k :: rest) : (s.remove k rest).Sound := by
  have hnodup := h.waiting_nodup
  rw [hwaiting, List.nodup_cons] at hnodup
  obtain ⟨hnot, hrest⟩ := hnodup
  have hold : ∀ k' id n, (s.remove k rest).table k' = some (id, n) →
      k' ≠ k ∧ s.table k' = some (id, n) := by
    intro k' id n htable
    by_cases hkk : k' = k
    · subst hkk
      simp at htable
    · exact ⟨hkk, (remove_table_of_ne hkk).symm.trans htable⟩
  -- At the other keys nothing changes.
  have hmem : ∀ k', k' ≠ k → (k' ∈ rest ↔ k' ∈ s.waiting) := by
    intro k' hne
    simp [hwaiting, hne]
  have htail := congrArg List.tail h.closers
  rw [← List.map_tail, List.tail_drop, hwaiting, List.map_cons, List.tail_cons] at htail
  refine ⟨?_, ?_, ?_, hrest, ?_, ?_, h.closed_nodup, h.closed_lt, ?_⟩
  · exact fun k' id n htable => h.id_lt k' id n (hold k' id n htable).2
  · intro k₁ k₂ id n₁ n₂ h₁ h₂
    exact h.id_inj k₁ k₂ id n₁ n₂ (hold k₁ id n₁ h₁).2 (hold k₂ id n₂ h₂).2
  · intro k' id n htable
    obtain ⟨hne, hk'⟩ := hold k' id n htable
    have honce := h.once k' id n hk'
    rwa [← hmem k' hne] at honce
  · refine htail.trans ?_
    exact List.map_congr_left fun k' hwaits => by
      rw [remove_table_of_ne (by rintro rfl; exact hnot hwaits)]
  · -- There is a closed item for each key that waits.
    have hlen := congrArg List.length h.closers
    simp only [List.length_map, List.length_drop, hwaiting, List.length_cons] at hlen
    show s.removed + 1 ≤ s.closed.length
    omega
  · intro k' id n htable hid
    obtain ⟨hne, hk'⟩ := hold k' id n htable
    exact (hmem k' hne).mpr (h.closed_waiting k' id n hk' hid)

/-- An item is closed that was not closed before. -/
theorem close (h : s.Sound) (hk : s.table k = some (id, 0)) : (s.close k id 0).Sound := by
  have hnot : k ∉ s.waiting := by
    intro hwaits
    have hone := (h.once k id 0 hk).1 hwaits
    omega
  have hnew : id ∉ s.closed := fun hid => hnot (h.closed_waiting k id 0 hk hid)
  have hcases : ∀ k' id' n, (s.close k id 0).table k' = some (id', n) →
      (k' = k ∧ id' = id ∧ n = 1) ∨ (k' ≠ k ∧ s.table k' = some (id', n)) := by
    intro k' id' n htable
    by_cases hkk : k' = k
    · subst hkk
      simp only [close_table_self, Option.some.injEq, Prod.mk.injEq] at htable
      exact Or.inl ⟨rfl, htable.1.symm, htable.2.symm⟩
    · exact Or.inr ⟨hkk, (close_table_of_ne hkk).symm.trans htable⟩
  refine ⟨?_, ?_, ?_, ?_, ?_, ?_, ?_, ?_, ?_⟩
  · intro k' id' n htable
    rcases hcases k' id' n htable with ⟨rfl, rfl, -⟩ | ⟨-, hold⟩
    · exact h.id_lt k' id' 0 hk
    · exact h.id_lt k' id' n hold
  · intro k₁ k₂ id' n₁ n₂ h₁ h₂
    rcases hcases k₁ id' n₁ h₁ with ⟨rfl, rfl, -⟩ | ⟨-, hold₁⟩
    · rcases hcases k₂ _ n₂ h₂ with ⟨rfl, -, -⟩ | ⟨-, hold₂⟩
      · rfl
      · exact h.id_inj k₁ k₂ _ 0 n₂ hk hold₂
    · rcases hcases k₂ id' n₂ h₂ with ⟨rfl, rfl, -⟩ | ⟨-, hold₂⟩
      · exact h.id_inj k₁ k₂ _ n₁ 0 hold₁ hk
      · exact h.id_inj k₁ k₂ id' n₁ n₂ hold₁ hold₂
  · intro k' id' n htable
    show (k' ∈ s.waiting ++ [k] → n = 1) ∧ (k' ∉ s.waiting ++ [k] → n = 0)
    rcases hcases k' id' n htable with ⟨rfl, rfl, rfl⟩ | ⟨hne, hold⟩
    · simp
    · simpa [hne] using h.once k' id' n hold
  · exact List.nodup_append_comm.mp (List.nodup_cons.mpr ⟨hnot, h.waiting_nodup⟩)
  · -- The new key and the new item come last.
    show ((s.closed ++ [id]).drop s.removed).map some = (s.waiting ++ [k]).map _
    rw [List.drop_append_of_le_length h.removed_le, List.map_append, h.closers, List.map_append]
    congr 1
    · exact List.map_congr_left fun k' hwaits => by
        rw [close_table_of_ne (by rintro rfl; exact hnot hwaits)]
    · simp
  · show s.removed ≤ (s.closed ++ [id]).length
    have hle := h.removed_le
    simp only [List.length_append]
    omega
  · exact List.nodup_append_comm.mp (List.nodup_cons.mpr ⟨hnew, h.closed_nodup⟩)
  · intro id' hid
    rcases List.mem_append.mp hid with hold | hlast
    · exact h.closed_lt id' hold
    · rw [List.mem_singleton.mp hlast]
      exact h.id_lt k id 0 hk
  · -- An item that was closed before waits under its own key, and so does the new one.
    intro k' id' n htable hid
    show k' ∈ s.waiting ++ [k]
    rcases hcases k' id' n htable with ⟨rfl, -, -⟩ | ⟨hne, hold⟩
    · simp
    · rcases List.mem_append.mp hid with hold' | hlast
      · exact List.mem_append_left _ (h.closed_waiting k' id' n hold hold')
      · rw [List.mem_singleton.mp hlast] at hold
        exact absurd (h.id_inj k' k id n 0 hold hk) hne

end Sound

end DeferredRemoval

end Ruduo.Lib
