import Ruduo.Spec.Deadline

/-!
# `Ruduo.Spec.CatchUp`: calling `tickTo` until it answers `none`

This is how a loop hands out all that is due. It need not do so at every tick: when it is late,
it catches up with all the ticks in between.
-/

set_option autoImplicit false

namespace Ruduo.Timer

open Lib (Slab)

variable {S : Type → Type} [Slab S] {T : Type}

/-- `tickTo n` is called until it answers `none`. These are its answers before, and this is the
timer that it leaves. -/
inductive Drains (n : Nat) : Timer S T → List (T × Nat) → Timer S T → Prop where
  | last {t t' : Timer S T} (h : t.tickTo n = .ok (t', none)) : Drains n t [] t'
  | next {t t' t'' : Timer S T} {answer : T × Nat} {answers : List (T × Nat)}
      (h : t.tickTo n = .ok (t', some answer)) (hrest : Drains n t' answers t'') :
      Drains n t (answer :: answers) t''

end Ruduo.Timer
