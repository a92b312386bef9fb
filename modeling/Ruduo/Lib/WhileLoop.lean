import Mathlib.Logic.Basic

/-!
# `Ruduo.Lib.WhileLoop`: loops with a bound and an early return

`whileLoop err c body fuel s` runs `while c { body }` from the state `s`. A run of `body` goes on
with a new state, or it returns from the middle of the loop. After `fuel` runs the loop gives up
with the error `err`.

* `whileLoop_mono`: a loop that ends does the same with more fuel.
* `whileLoop_inr`: a loop that returns from its middle does so under any weaker condition.
* `whileLoop_resume`: a loop that ends can be resumed under a weaker condition, and both together
  do what the loop under the weaker condition does at once.
-/

set_option autoImplicit false

namespace Ruduo.Lib

variable {ε σ ρ : Type}

/-- `while c { body }` with at most `fuel` runs of the body. -/
def whileLoop (err : ε) (c : σ → Bool) (body : σ → Except ε (σ ⊕ ρ)) :
    Nat → σ → Except ε (σ ⊕ ρ)
  | 0, _ => .error err
  | fuel + 1, s =>
    if c s then
      match body s with
      | .ok (.inl s) => whileLoop err c body fuel s
      | .ok (.inr r) => .ok (.inr r)
      | .error e => .error e
    else .ok (.inl s)

section
variable {err : ε} {c c₁ c₂ : σ → Bool} {body : σ → Except ε (σ ⊕ ρ)} {fuel fuel' : Nat}
  {s s' : σ} {r : ρ} {out : σ ⊕ ρ}

/-- More fuel changes nothing for a loop that ends. -/
theorem whileLoop_mono (h : whileLoop err c body fuel s = .ok out) (hle : fuel ≤ fuel') :
    whileLoop err c body fuel' s = .ok out := by
  -- By induction on the smaller fuel: both loops take the same step first.
  induction fuel generalizing fuel' s with
  | zero => cases h
  | succ fuel ih =>
    obtain ⟨k, rfl⟩ := Nat.exists_eq_add_of_le' hle
    rw [whileLoop] at h
    rw [show k + (fuel + 1) = k + fuel + 1 from rfl, whileLoop]
    split
    · rename_i hc
      rw [if_pos hc] at h
      cases hbody : body s with
      | ok x =>
        rw [hbody] at h
        cases x with
        | inl s' => exact ih h (Nat.le_add_left fuel k)
        | inr r => exact h
      | error e =>
        rw [hbody] at h
        exact h
    · rename_i hc
      rwa [if_neg hc] at h

/-- An early return does not depend on how long the loop would have gone on. -/
theorem whileLoop_inr (hc : ∀ s, c₁ s → c₂ s)
    (h : whileLoop err c₁ body fuel s = .ok (.inr r)) :
    whileLoop err c₂ body fuel s = .ok (.inr r) := by
  induction fuel generalizing s with
  | zero => cases h
  | succ fuel ih =>
    rw [whileLoop] at h
    split at h
    · rename_i hs
      rw [whileLoop, if_pos (hc s hs)]
      cases hbody : body s with
      | ok x =>
        rw [hbody] at h
        cases x with
        | inl s' => exact ih h
        | inr r' => exact h
      | error e =>
        rw [hbody] at h
        exact h
    · cases h

/-- The loop under a stronger condition, resumed under the weaker one where it ended. -/
theorem whileLoop_resume (hc : ∀ s, c₁ s → c₂ s)
    (h₁ : whileLoop err c₁ body fuel s = .ok (.inl s'))
    (h₂ : whileLoop err c₂ body fuel' s' = .ok out) :
    whileLoop err c₂ body (fuel + fuel') s = .ok out := by
  induction fuel generalizing s with
  | zero => cases h₁
  | succ fuel ih =>
    rw [whileLoop] at h₁
    split at h₁
    · rename_i hs
      rw [Nat.add_right_comm, whileLoop, if_pos (hc s hs)]
      cases hbody : body s with
      | ok x =>
        rw [hbody] at h₁
        cases x with
        | inl s'' => exact ih h₁
        | inr r => cases h₁
      | error e =>
        rw [hbody] at h₁
        cases h₁
    · -- It ended before the first run of the body.
      obtain rfl := Sum.inl.inj (Except.ok.inj h₁)
      exact whileLoop_mono h₂ (Nat.le_add_left fuel' (fuel + 1))

end

end Ruduo.Lib
