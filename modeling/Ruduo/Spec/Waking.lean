import Ruduo.Model.EventLoop
import Ruduo.Spec.Deadline

/-!
# `Ruduo.Spec.Waking`: the loop wakes up for its timers

After a pass over the timers the loop blocks in a poll. `next_tick_in_ms` bounds the time it
blocks, so that it is back when the next timeout is due.
-/

set_option autoImplicit false

namespace Ruduo.Timer

open Lib (Slab)

variable {S : Type → Type} [Slab S] {T : Type}

/-- Nothing is pending. -/
def Idle (t : Timer S T) : Prop := ∀ key, t.pendingAt key = none

/-- Every pending timeout has a tick that satisfies `P`. -/
def PendingTicks (t : Timer S T) (P : Nat → Prop) : Prop :=
  ∀ key token interval tick, t.pendingAt key = some (token, interval, tick) → P tick

/-- `next_tick_in_ms` at the time `now` sees to it that the loop is back in time: it names a
delay unless nothing is pending, and neither this delay nor the timeout that `step` makes of it
ends after the tick of a pending timeout begins. -/
def WakesInTime (t : Timer S T) (now : Nat) : Prop :=
  ∃ r, t.nextTickInMs now = .ok r ∧ (r = none → t.Idle) ∧
    ∀ w, r = some w → t.PendingTicks fun tick =>
      now + w ≤ t.startMs + tick * t.tickMs ∧
        ∀ pollTimeout isEmpty, ∃ ms,
          EventLoop.chooseTimeout pollTimeout isEmpty r = some ms ∧
            now + ms ≤ t.startMs + tick * t.tickMs

end Ruduo.Timer
