/-!
# `Ruduo.Lib.Run`: runs of labelled steps and simulation of partial machines

Two notions of execution, over arbitrary types.

* `Run step s ls s'`: the relation `step` leads from `s` to `s'` through the labels `ls`, in
  order. `Run.invariant` is the induction rule: what one step preserves, a whole run preserves.
* `Always step I s ls` and `Each step P s ls`: every state that a run through `ls` reaches
  satisfies `I`, and every step that it takes satisfies `P`. `Each.always` is the rule for an
  invariant that a step keeps only under a condition on the step. `Run.each` goes from one run of
  a deterministic relation to all of them.
* `Reached step s ls t`: a run through a first part of `ls` ends in `t`.
* `Follows exec admits spec s a ops`: a machine `exec` that can fault runs the inputs `ops`
  from the state `s`, next to an abstract state `a`. As long as each input is admitted, the
  machine does not fault, and its output and the two next states are allowed by `spec`.
  `Follows.of_simulation` derives it from a simulation relation kept by one step.
-/

set_option autoImplicit false

namespace Ruduo.Lib

section Run
variable {σ ℓ : Type}

/-- `step` leads from the first state to the last through the labels, in order. -/
inductive Run (step : σ → ℓ → σ → Prop) : σ → List ℓ → σ → Prop where
  | nil (s : σ) : Run step s [] s
  | cons {s t u : σ} {l : ℓ} {ls : List ℓ} :
      step s l t → Run step t ls u → Run step s (l :: ls) u

namespace Run
variable {step : σ → ℓ → σ → Prop} {s t u : σ} {l : ℓ} {ls ms : List ℓ}

/-- Two runs in sequence. -/
theorem append (h₁ : Run step s ls t) (h₂ : Run step t ms u) : Run step s (ls ++ ms) u := by
  induction h₁ with
  | nil => exact h₂
  | cons hstep _ ih => exact .cons hstep (ih h₂)

/-- A run and one more step. -/
theorem snoc (h₁ : Run step s ls t) (h₂ : step t l u) : Run step s (ls ++ [l]) u :=
  h₁.append (.cons h₂ (.nil u))

/-- A run through `ls ++ ms` passes a middle state. -/
theorem split (ls : List ℓ) (h : Run step s (ls ++ ms) u) :
    ∃ t, Run step s ls t ∧ Run step t ms u := by
  induction ls generalizing s with
  | nil => exact ⟨s, .nil s, h⟩
  | cons l ls ih =>
    cases h with
    | cons hstep hrest =>
      obtain ⟨t, h₁, h₂⟩ := ih hrest
      exact ⟨t, .cons hstep h₁, h₂⟩

/-- A predicate that every step preserves holds at the end of a run when it holds at its
start. -/
theorem invariant {P : σ → Prop} (hstep : ∀ s l t, P s → step s l t → P t)
    (h : Run step s ls t) (hs : P s) : P t := by
  induction h with
  | nil => exact hs
  | cons h₁ _ ih => exact ih (hstep _ _ _ hs h₁)

/-- The labels of a run of a deterministic relation determine its end. -/
theorem deterministic (hdet : ∀ s l t u, step s l t → step s l u → t = u)
    (h₁ : Run step s ls t) (h₂ : Run step s ls u) : t = u := by
  induction h₁ with
  | nil =>
    cases h₂
    rfl
  | cons hstep _ ih =>
    cases h₂ with
    | cons hstep' hrest =>
      obtain rfl := hdet _ _ _ _ hstep hstep'
      exact ih hrest

/-- The steps of a run satisfy whatever follows from an invariant. -/
theorem mono_of_invariant {step' : σ → ℓ → σ → Prop} {P : σ → Prop}
    (hstep : ∀ s l t, P s → step s l t → P t ∧ step' s l t) (h : Run step s ls t) (hs : P s) :
    Run step' s ls t := by
  induction h with
  | nil => exact .nil _
  | cons h₁ _ ih =>
    obtain ⟨ht, hstep'⟩ := hstep _ _ _ hs h₁
    exact .cons hstep' (ih ht)

/-- Two runs of a deterministic relation through the same labels are one run. -/
theorem inter {step₁ step₂ : σ → ℓ → σ → Prop}
    (hdet : ∀ s l t u, step₁ s l t → step₂ s l u → t = u)
    (h₁ : Run step₁ s ls t) (h₂ : Run step₂ s ls u) :
    Run (fun s l t => step₁ s l t ∧ step₂ s l t) s ls t := by
  induction h₁ with
  | nil => exact .nil _
  | cons hstep _ ih =>
    cases h₂ with
    | cons hstep' hrest =>
      obtain rfl := hdet _ _ _ _ hstep hstep'
      exact .cons ⟨hstep, hstep'⟩ (ih hrest)

/-- A run of a step relation is a run of every weaker one. -/
theorem mono {step' : σ → ℓ → σ → Prop} (hstep : ∀ s l t, step s l t → step' s l t)
    (h : Run step s ls t) : Run step' s ls t := by
  induction h with
  | nil => exact .nil _
  | cons h₁ _ ih => exact .cons (hstep _ _ _ h₁) ih

end Run

/-- Every state that a run through a part of the labels reaches satisfies `I`. -/
def Always (step : σ → ℓ → σ → Prop) (I : σ → Prop) (s : σ) (ls : List ℓ) : Prop :=
  ∀ ls₁ ls₂ t, ls = ls₁ ++ ls₂ → Run step s ls₁ t → I t

/-- Every step of a run through the labels satisfies `P`. -/
def Each (step : σ → ℓ → σ → Prop) (P : σ → ℓ → σ → Prop) (s : σ) (ls : List ℓ) : Prop :=
  ∀ ls₁ l ls₂ t u, ls = ls₁ ++ l :: ls₂ → Run step s ls₁ t → step t l u → P t l u

section
variable {step : σ → ℓ → σ → Prop} {I : σ → Prop} {P Q : σ → ℓ → σ → Prop} {s t u : σ} {l : ℓ}
  {ls ls₁ ls₂ : List ℓ}

/-- What follows from a property of all steps holds of all steps. -/
theorem Each.mono (hPQ : ∀ s l t, P s l t → Q s l t) (h : Each step P s ls) :
    Each step Q s ls :=
  fun ls₁ l ls₂ t u hls hrun hstep => hPQ t l u (h ls₁ l ls₂ t u hls hrun hstep)

/-- The steps of the first part of a run. -/
theorem Each.take (h : Each step P s (ls₁ ++ ls₂)) : Each step P s ls₁ := by
  intro ms₁ l ms₂ t u hls hrun hstep
  exact h ms₁ l (ms₂ ++ ls₂) t u (by simp [hls]) hrun hstep

/-- The first step of a run. -/
theorem Each.head (h : Each step P s (l :: ls)) (hstep : step s l t) : P s l t :=
  h [] l ls s t rfl (.nil s) hstep

/-- The steps after the first one. -/
theorem Each.tail (h : Each step P s (l :: ls)) (hstep : step s l t) : Each step P t ls := by
  intro ls₁ l' ls₂ u v hls hrun hstep'
  exact h (l :: ls₁) l' ls₂ u v (by simp [hls]) (.cons hstep hrun) hstep'

/-- A predicate that every step with `P` keeps holds at the end of a run of such steps. -/
theorem Each.invariant (hstep : ∀ s l t, I s → P s l t → step s l t → I t)
    (h : Each step P s ls) (hrun : Run step s ls t) (hs : I s) : I t := by
  induction hrun with
  | nil => exact hs
  | cons h₁ _ ih => exact ih (h.tail h₁) (hstep _ _ _ hs (h.head h₁) h₁)

/-- A predicate that every step with `P` keeps holds in every state of a run of such steps. -/
theorem Each.always (hstep : ∀ s l t, I s → P s l t → step s l t → I t)
    (h : Each step P s ls) (hs : I s) : Always step I s ls := by
  rintro ls₁ ls₂ t rfl hrun
  exact h.take.invariant hstep hrun hs

/-- A run of a deterministic relation whose steps satisfy `P`. -/
theorem Run.each (hdet : ∀ s l t u, step s l t → step s l u → t = u)
    (hrun : Run (fun s l t => step s l t ∧ P s l t) s ls t) : Each step P s ls := by
  intro ls₁ l ls₂ u v hls hrun' hstep
  subst hls
  obtain ⟨u', hfirst, hrest⟩ := hrun.split
  obtain rfl := (hfirst.mono fun _ _ _ h => h.1).deterministic hdet hrun'
  cases hrest with
  | cons hstep' _ =>
    obtain rfl := hdet _ _ _ _ hstep'.1 hstep
    exact hstep'.2

/-- Where a predicate always holds, every step satisfies what follows from it. -/
theorem Always.each (hstep : ∀ s l t, I s → step s l t → P s l t) (h : Always step I s ls) :
    Each step P s ls := by
  rintro ls₁ l ls₂ t u rfl hrun h₁
  exact hstep t l u (h ls₁ (l :: ls₂) t rfl hrun) h₁

/-- The states after the first step. -/
theorem Always.tail (h : Always step I s (l :: ls)) (hstep : step s l t) : Always step I t ls := by
  rintro ls₁ ls₂ u rfl hrun
  exact h (l :: ls₁) ls₂ u rfl (.cons hstep hrun)

/-- The states before and after every step. -/
theorem Always.around (h : Always step I s ls) : Each step (fun s _ t => I s ∧ I t) s ls := by
  rintro ls₁ l ls₂ t u rfl hrun hstep
  exact ⟨h ls₁ (l :: ls₂) t rfl hrun, h (ls₁ ++ [l]) ls₂ u (by simp) (hrun.snoc hstep)⟩

end

/-- A run through a first part of the labels ends in this state. -/
def Reached (step : σ → ℓ → σ → Prop) (s : σ) (ls : List ℓ) (t : σ) : Prop :=
  ∃ ls₁ ls₂, ls = ls₁ ++ ls₂ ∧ Run step s ls₁ t

section
variable {step : σ → ℓ → σ → Prop} {s t u v : σ} {l : ℓ} {ls : List ℓ}

/-- An empty run reaches its start only. -/
theorem reached_nil_iff : Reached step s [] t ↔ t = s := by
  constructor
  · rintro ⟨ls₁, ls₂, hls, hrun⟩
    obtain ⟨rfl, -⟩ := List.append_eq_nil_iff.mp hls.symm
    cases hrun
    rfl
  · rintro rfl
    exact ⟨[], [], rfl, .nil _⟩

/-- A deterministic run that goes one step further reaches one more state. -/
theorem reached_snoc_iff (hdet : ∀ s l t u, step s l t → step s l u → t = u)
    (hrun : Run step s ls t) (hstep : step t l u) :
    Reached step s (ls ++ [l]) v ↔ Reached step s ls v ∨ v = u := by
  constructor
  · rintro ⟨ls₁, ls₂, hls, hrun'⟩
    rcases List.eq_nil_or_concat ls₂ with rfl | ⟨ls₂, l', rfl⟩
    · rw [List.append_nil] at hls
      subst hls
      exact Or.inr (hrun'.deterministic hdet (hrun.snoc hstep))
    · rw [List.concat_eq_append, ← List.append_assoc] at hls
      exact Or.inl ⟨ls₁, ls₂, List.append_inj_left' hls rfl, hrun'⟩
  · rintro (⟨ls₁, ls₂, rfl, hrun'⟩ | rfl)
    · exact ⟨ls₁, ls₂ ++ [l], List.append_assoc _ _ _, hrun'⟩
    · exact ⟨ls ++ [l], [], (List.append_nil _).symm, hrun.snoc hstep⟩

end
end Run

section Follows
variable {σ α ι ο ε : Type}

/-- The machine `exec` runs the inputs next to the abstract state. At each input that
`admits` allows, `exec` does not fault, and `spec` allows its output and the two next
states. -/
def Follows (exec : σ → ι → Except ε (σ × ο)) (admits : σ → α → ι → Prop)
    (spec : σ → α → ι → ο → σ → α → Prop) : σ → α → List ι → Prop
  | _, _, [] => True
  | s, a, i :: is =>
      admits s a i → ∃ s' o a', exec s i = .ok (s', o) ∧ spec s a i o s' a' ∧
        Follows exec admits spec s' a' is

/-- A simulation relation that one admitted input keeps gives `Follows` for every list of
inputs. -/
theorem Follows.of_simulation {exec : σ → ι → Except ε (σ × ο)} {admits : σ → α → ι → Prop}
    {spec : σ → α → ι → ο → σ → α → Prop} (R : σ → α → Prop)
    (hstep : ∀ s a i, R s a → admits s a i →
      ∃ s' o a', exec s i = .ok (s', o) ∧ spec s a i o s' a' ∧ R s' a') :
    ∀ (is : List ι) (s : σ) (a : α), R s a → Follows exec admits spec s a is := by
  intro is
  induction is with
  | nil => intro s a _; exact trivial
  | cons i is ih =>
    intro s a hR hadm
    obtain ⟨s', o, a', hexec, hspec, hR'⟩ := hstep s a i hR hadm
    exact ⟨s', o, a', hexec, hspec, ih s' a' hR'⟩

end Follows

end Ruduo.Lib
