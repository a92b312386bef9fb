import Ruduo.Lib.Run

/-!
# `Ruduo.Lib.Trace`: runs that put something out, and simulation between two machines

`Emits step out s ls os s'` is a run in which the step from a state `s` through `l` puts out
`out s l`. The outputs of the steps, in order, are `os`.

* `Run.emits`: every run puts something out, and `Emits.run` forgets it.
* `Emits.invariant`: what a step keeps, with what it puts out, a run keeps.
* `Emits.simulate`: when every step of one machine is matched by a run of another one that puts
  out the same, every run is.
-/

set_option autoImplicit false

namespace Ruduo.Lib

variable {σ τ ℓ m ο : Type}

/-- `step` leads from the first state to the last through the labels, and puts out `os`. -/
inductive Emits (step : σ → ℓ → σ → Prop) (out : σ → ℓ → List ο) :
    σ → List ℓ → List ο → σ → Prop where
  | nil (s : σ) : Emits step out s [] [] s
  | cons {s t u : σ} {l : ℓ} {ls : List ℓ} {os : List ο} :
      step s l t → Emits step out t ls os u → Emits step out s (l :: ls) (out s l ++ os) u

section
variable {step : σ → ℓ → σ → Prop} {out : σ → ℓ → List ο} {s t u : σ} {l : ℓ} {ls ms : List ℓ}
  {os ps : List ο}

/-- Every run puts something out. -/
theorem Run.emits (h : Run step s ls t) : ∃ os, Emits step out s ls os t := by
  induction h with
  | nil s => exact ⟨[], .nil s⟩
  | cons hstep _ ih =>
    obtain ⟨os, hos⟩ := ih
    exact ⟨_, .cons hstep hos⟩

namespace Emits

/-- What is put out is forgotten. -/
theorem run (h : Emits step out s ls os t) : Run step s ls t := by
  induction h with
  | nil s => exact .nil s
  | cons hstep _ ih => exact .cons hstep ih

/-- Runs in sequence put out what both put out. -/
theorem append (h₁ : Emits step out s ls os t) (h₂ : Emits step out t ms ps u) :
    Emits step out s (ls ++ ms) (os ++ ps) u := by
  induction h₁ with
  | nil => exact h₂
  | cons hstep _ ih =>
    rw [List.append_assoc]
    exact .cons hstep (ih h₂)

/-- A run of one step. -/
theorem single (h : step s l t) : Emits step out s [l] (out s l) t := by
  have hone : Emits step out s [l] (out s l ++ []) t := .cons h (.nil t)
  rwa [List.append_nil] at hone

/-- A run is one of any machine that has its steps. -/
theorem mono {step' : σ → ℓ → σ → Prop} (hstep : ∀ s l t, step s l t → step' s l t)
    (h : Emits step out s ls os t) : Emits step' out s ls os t := by
  induction h with
  | nil s => exact .nil s
  | cons h₁ _ ih => exact .cons (hstep _ _ _ h₁) ih

/-- The induction rule, with what was put out before. -/
theorem invariant_append {P : List ο → σ → Prop}
    (hstep : ∀ ps s l t, P ps s → step s l t → P (ps ++ out s l) t)
    (h : Emits step out s ls os t) : ∀ {ps : List ο}, P ps s → P (ps ++ os) t := by
  induction h with
  | nil =>
    intro ps hs
    rwa [List.append_nil]
  | cons h₁ _ ih =>
    intro ps hs
    rw [← List.append_assoc]
    exact ih (hstep _ _ _ _ hs h₁)

/-- The induction rule: `P` relates a state to what was put out on the way there. -/
theorem invariant {P : List ο → σ → Prop}
    (hstep : ∀ ps s l t, P ps s → step s l t → P (ps ++ out s l) t)
    (h : Emits step out s ls os t) (hs : P [] s) : P os t := h.invariant_append hstep hs

/-- The simulation rule. A step is matched by any number of steps that put out the same. -/
theorem simulate {step' : τ → m → τ → Prop} {out' : τ → m → List ο} {R : σ → τ → Prop}
    (hstep : ∀ s x l t, R s x → step s l t →
      ∃ ms y, Emits step' out' x ms (out s l) y ∧ R t y)
    (h : Emits step out s ls os t) :
    ∀ {x : τ}, R s x → ∃ ms y, Emits step' out' x ms os y ∧ R t y := by
  induction h with
  | nil => exact fun {x} hR => ⟨[], x, .nil x, hR⟩
  | cons h₁ _ ih =>
    intro x hR
    obtain ⟨ms₁, y, hms₁, hR₁⟩ := hstep _ x _ _ hR h₁
    obtain ⟨ms₂, z, hms₂, hR₂⟩ := ih hR₁
    exact ⟨ms₁ ++ ms₂, z, hms₁.append hms₂, hR₂⟩

end Emits
end

end Ruduo.Lib
