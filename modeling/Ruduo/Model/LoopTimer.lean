import Ruduo.Model.Timer

/-!
# `Ruduo.Model.LoopTimer`: the timer of an event loop

The part of `src/event_loop.rs` that works on the timer: the calls that schedule and cancel
timeouts, and `process_timers`, the loop that hands out what is due.

`processTimersLoop` gets one `PassEnv` for each pass: the clock reading of the `schedule_after` in
this pass, and what the handler cancels. The handler schedules nothing itself.
-/

set_option autoImplicit false

namespace Ruduo

open Lib (Slab)

/-- What the outside does in one pass of `process_timers`. -/
structure PassEnv where
  /-- The value of `now_ms()`. -/
  now : Nat
  /-- The timeouts that `handle_timeout` cancels. -/
  cancels : List Timeout

/-- What one pass hands to the handler: the arguments of `handle_timeout`, and the timeout that
`refresh_timeout` gets before. -/
structure Delivery (T : Type) where
  mark : T
  interval : Nat
  refreshed : Option Timeout

namespace Timer
variable {S : Type → Type} [Slab S] {T : Type}

/-- A timeout once, after `delay`. -/
def scheduleAfter (t : Timer S T) (now delay : Nat) (token : T) :
    Except Fault (Timer S T × TimerResult) := t.timeoutMs now delay 0 token

/-- A timeout once, at the time `at_`. -/
def scheduleAt (t : Timer S T) (at_ : Nat) (token : T) : Except Fault (Timer S T × TimerResult) :=
  t.timeoutMsAt at_ 0 token

/-- A timeout after `delay`, and then each `interval`. -/
def scheduleEvery (t : Timer S T) (now delay interval : Nat) (token : T) :
    Except Fault (Timer S T × TimerResult) := t.timeoutMs now delay interval token

/-- A timeout is cancelled. -/
def cancel (t : Timer S T) (timeout : Timeout) : Except Fault (Timer S T × Bool) :=
  t.clear timeout

/-- The handler cancels these timeouts, one after the other. -/
def cancelAll : List Timeout → Timer S T → Except Fault (Timer S T)
  | [], t => .ok t
  | timeout :: timeouts, t => do
    let (t, _) ← t.cancel timeout
    cancelAll timeouts t

/-- The first half of a pass of `process_timers`: a timeout with an interval is scheduled
again. -/
def scheduleRepeat (t : Timer S T) (now interval : Nat) (mark : T) :
    Except Fault (Timer S T × Option Timeout) :=
  if interval > 0 then do
    let (t, r) ← t.scheduleAfter now interval mark
    match r with
    -- update timeout (repeat task)
    | .ok timeout => .ok (t, some timeout)
    | .error _ => .error (.panicked .timerOverflow)
  else .ok (t, none)

/-- The loop of `process_timers`. -/
def processTimersLoop (nowTick : Nat) :
    List PassEnv → Timer S T → Except Fault (Timer S T × List (Delivery T))
  | [], _ => .error .unfinished
  | env :: envs, t => do
    let (t, r) ← t.tickTo nowTick
    match r with
    | some (mark, interval) => do
      let (t, refreshed) ← t.scheduleRepeat env.now interval mark
      let t ← cancelAll env.cancels t
      let (t, deliveries) ← processTimersLoop nowTick envs t
      .ok (t, { mark, interval, refreshed } :: deliveries)
    -- no timer..
    | none => .ok (t, [])

/-- All timeouts up to the tick of the clock are delivered, each with the behaviour of its callback.
-/
def processTimers (t : Timer S T) (now : Nat) (envs : List PassEnv) :
    Except Fault (Timer S T × List (Delivery T)) := do
  let nowTick ← t.nowTick now
  processTimersLoop nowTick envs t

end Timer

end Ruduo
