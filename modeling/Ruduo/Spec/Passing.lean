import Ruduo.Model.LoopTimer
import Ruduo.Spec.Deadline

/-!
# `Ruduo.Spec.Passing`: one pass over the timers

`process_timers` takes the time once, and hands out what is due by then. A repeating timeout goes
back into the timer in the middle of this, and must not be handed out again in the same pass.
-/

set_option autoImplicit false

namespace Ruduo.Timer

open Lib (Slab)

variable {S : Type → Type} [Slab S] {T : Type}

/-- The clock during a pass that began at the time `now`: it does not go back, and it stays away
from the end of the `u64` range, with the interval of a pending timeout and a tick added. -/
structure ClockGoesOn (t : Timer S T) (now : Nat) (envs : Nat → PassEnv) : Prop where
  start : now ≤ (envs 0).now
  mono : ∀ i, (envs i).now ≤ (envs (i + 1)).now
  range : ∀ i key token interval tick, t.pendingAt key = some (token, interval, tick) →
    0 < interval → (envs i).now + interval ≤ u64Max ∧
      (envs i).now + interval - t.startMs + t.tickMs ≤ u64Max

/-- What a pass from the timer `t` to the timer `t'` has handed out. -/
structure Passed (t : Timer S T) (nowTick : Nat) (envs : Nat → PassEnv) (t' : Timer S T)
    (deliveries : List (Delivery T)) : Prop where
  /-- Each delivery is that of a timeout that was pending at the start, and no timeout is delivered
  twice. -/
  once : ∃ keys : List Nat, keys.Nodup ∧
    List.Forall₂ (fun key d => ∃ tick, t.pendingAt key = some (d.mark, d.interval, tick)) keys
      deliveries
  /-- A timeout with an interval is scheduled again. -/
  repeats : ∀ d ∈ deliveries, d.refreshed.isSome ↔ 0 < d.interval
  /-- It gets a later tick than that of the pass, and it is still pending at the end unless the
  handler cancelled it. -/
  later : ∀ d ∈ deliveries, ∀ timeout, d.refreshed = some timeout →
    nowTick < timeout.tick ∧ (t'.Holds timeout ∨ ∃ i, timeout ∈ (envs i).cancels)

end Ruduo.Timer
