/-!
# `Ruduo.Lib.Outcome`: postconditions of computations that may fail

`Outcome x Q E` says of a computation `x : Except ε α` that its value satisfies `Q` when it
succeeds, and that its error satisfies `E` when it fails. The rules follow the structure of a
program: a value, an error, two computations in sequence, a choice.
-/

set_option autoImplicit false

namespace Ruduo.Lib

variable {ε α β : Type}

/-- The value satisfies `Q`, or the error satisfies `E`. -/
def Outcome (x : Except ε α) (Q : α → Prop) (E : ε → Prop) : Prop :=
  match x with
  | .ok a => Q a
  | .error e => E e

namespace Outcome
variable {x : Except ε α} {f : α → Except ε β} {Q Q' : α → Prop} {R : β → Prop}
  {E E' : ε → Prop} {a : α} {e : ε}

/-- The postcondition of a value. -/
@[simp] theorem ok : Outcome (.ok a : Except ε α) Q E ↔ Q a := Iff.rfl

/-- The postcondition of an error. -/
@[simp] theorem error : Outcome (.error e : Except ε α) Q E ↔ E e := Iff.rfl

/-- What a successful computation guarantees. -/
theorem of_ok (h : Outcome x Q E) (hx : x = .ok a) : Q a := by
  rw [hx] at h
  exact h

/-- What a failed computation guarantees. -/
theorem of_error (h : Outcome x Q E) (hx : x = .error e) : E e := by
  rw [hx] at h
  exact h

/-- A postcondition is proved separately for success and for failure. -/
theorem intro (hok : ∀ a, x = .ok a → Q a) (herr : ∀ e, x = .error e → E e) :
    Outcome x Q E := by
  cases x with
  | ok a => exact hok a rfl
  | error e => exact herr e rfl

/-- Weaker postconditions. -/
theorem mono (h : Outcome x Q E) (hQ : ∀ a, Q a → Q' a) (hE : ∀ e, E e → E' e) :
    Outcome x Q' E' := by
  cases x with
  | ok a => exact hQ a h
  | error e => exact hE e h

/-- Two postconditions. -/
theorem and (h : Outcome x Q E) (h' : Outcome x Q' E') :
    Outcome x (fun a => Q a ∧ Q' a) (fun e => E e ∧ E' e) := by
  cases x with
  | ok a => exact ⟨h, h'⟩
  | error e => exact ⟨h, h'⟩

/-- Two computations in sequence: the postcondition of the first is the precondition of the
second. -/
theorem bind (h : Outcome x Q E) (hf : ∀ a, Q a → Outcome (f a) R E) :
    Outcome (x >>= f) R E := by
  cases x with
  | ok a => exact hf a h
  | error e => exact h

/-- A postcondition that is asked for under a condition only. -/
theorem imp {c : Prop} [Decidable c] (hE : ∀ e, E e) (h : c → Outcome x Q E) :
    Outcome x (fun a => c → Q a) E := by
  by_cases hc : c
  · exact (h hc).mono (fun _ ha _ => ha) fun _ => id
  · exact intro (fun _ _ hc' => absurd hc' hc) fun e _ => hE e

/-- A choice. -/
theorem ite {c : Prop} [Decidable c] {y : Except ε α} (hx : c → Outcome x Q E)
    (hy : ¬ c → Outcome y Q E) : Outcome (if c then x else y) Q E := by
  split
  · exact hx ‹_›
  · exact hy ‹_›

end Outcome

end Ruduo.Lib
