import Ruduo.Lib.Run

/-!
# `Ruduo.Lib.Latch`: what some steps set and others reset

A predicate on states is a latch when every step sets it, resets it or leaves it as it is.
`Run.latch_iff`: at the end of a run it holds when some step has set it and no later one has reset
it, or when it held at the start and no step has reset it, and in no other case.
-/

set_option autoImplicit false

namespace Ruduo.Lib

variable {σ ℓ : Type}

/-- In a run from `s` through `ls` to `u`, some step sets, and no later step resets. -/
def SetSince (step : σ → ℓ → σ → Prop) (sets : σ → ℓ → Prop) (resets : ℓ → Prop) (s : σ)
    (ls : List ℓ) (u : σ) : Prop :=
  ∃ ls₁ l ls₂ t, ls = ls₁ ++ l :: ls₂ ∧ Run step s ls₁ t ∧ Run step t (l :: ls₂) u ∧
    sets t l ∧ ∀ m ∈ ls₂, ¬ resets m

namespace Run
variable {step : σ → ℓ → σ → Prop} {s u : σ} {ls : List ℓ} {sets : σ → ℓ → Prop}
  {resets L : ℓ → Prop} {I P : σ → Prop}

/-- The steps of a run have its labels. -/
theorem labelled (h : Run step s ls u) (hL : ∀ l ∈ ls, L l) :
    Run (fun s l t => step s l t ∧ L l) s ls u := by
  induction h with
  | nil s => exact .nil s
  | cons h₁ _ ih =>
    rw [List.forall_mem_cons] at hL
    exact .cons ⟨h₁, hL.1⟩ (ih hL.2)

/-- What no step resets stays set. -/
theorem latch_stays (hstep : ∀ s l t, I s → L l → step s l t →
      I t ∧ (P t ↔ sets s l ∨ P s ∧ ¬ resets l)) (h : Run step s ls u) (hL : ∀ l ∈ ls, L l)
    (hI : I s) (hP : P s) (hnone : ∀ l ∈ ls, ¬ resets l) : P u := by
  induction h with
  | nil => exact hP
  | cons h₁ _ ih =>
    rw [List.forall_mem_cons] at hL hnone
    obtain ⟨hI', hiff⟩ := hstep _ _ _ hI hL.1 h₁
    exact ih hL.2 hI' (hiff.mpr (Or.inr ⟨hP, hnone.1⟩)) hnone.2

/-- The rule for latches. The steps do so in the states of the invariant `I`, through the labels
of `L`. -/
theorem latch_iff (hstep : ∀ s l t, I s → L l → step s l t →
      I t ∧ (P t ↔ sets s l ∨ P s ∧ ¬ resets l)) (h : Run step s ls u) (hL : ∀ l ∈ ls, L l)
    (hI : I s) : P u ↔ SetSince step sets resets s ls u ∨ P s ∧ ∀ l ∈ ls, ¬ resets l := by
  constructor
  · intro hP
    induction h with
    | nil => exact Or.inr ⟨hP, by simp⟩
    | @cons s t u l ls h₁ hrest ih =>
      rw [List.forall_mem_cons] at hL
      obtain ⟨hI', hiff⟩ := hstep _ _ _ hI hL.1 h₁
      rcases ih hL.2 hI' hP with ⟨ls₁, m, ls₂, v, rfl, hto, hfrom, hset, hnone⟩ | ⟨ht, hnone⟩
      · exact Or.inl ⟨l :: ls₁, m, ls₂, v, rfl, .cons h₁ hto, hfrom, hset, hnone⟩
      · rcases hiff.mp ht with hset | ⟨hs, hl⟩
        · exact Or.inl ⟨[], l, ls, s, rfl, .nil s, .cons h₁ hrest, hset, hnone⟩
        · exact Or.inr ⟨hs, List.forall_mem_cons.mpr ⟨hl, hnone⟩⟩
  · rintro (⟨ls₁, l, ls₂, t, rfl, hto, hfrom, hset, hnone⟩ | ⟨hs, hnone⟩)
    · rw [List.forall_mem_append, List.forall_mem_cons] at hL
      have hIt : I t := (hto.labelled hL.1).invariant
        (fun _ _ _ hI h₁ => (hstep _ _ _ hI h₁.2 h₁.1).1) hI
      cases hfrom with
      | cons h₁ hrest =>
        obtain ⟨hI', hiff⟩ := hstep _ _ _ hIt hL.2.1 h₁
        exact latch_stays hstep hrest hL.2.2 hI' (hiff.mpr (Or.inl hset)) hnone
    · exact latch_stays hstep h hL hI hs hnone

end Run

end Ruduo.Lib
