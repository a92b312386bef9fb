import Ruduo.Model.Dispatcher
import Ruduo.Model.LoopTimer
import Ruduo.Spec.Deadline

/-!
# `Ruduo.Spec.Scheduling`: the arithmetic of a scheduling call

A scheduling call takes any `u64`. What it is to do with them: register an entry from the deadline
on, or say that there is no room, and leave a timer that the loop can go on with.
-/

set_option autoImplicit false

namespace Ruduo

open Lib (Slab)

/-- The scheduling calls of an event loop. -/
inductive ScheduleCall (T : Type) where
  | scheduleAfter (delay : Nat) (token : T)
  | scheduleAt (at_ : Nat) (token : T)
  | scheduleEvery (delay interval : Nat) (token : T)

namespace ScheduleCall
variable {T : Type}

/-- The arguments are values of `u64`. -/
def IsU64 : ScheduleCall T → Prop
  | scheduleAfter delay _ => delay ≤ u64Max
  | scheduleAt at_ _ => at_ ≤ u64Max
  | scheduleEvery delay interval _ => delay ≤ u64Max ∧ interval ≤ u64Max

/-- The time that the call asks for at the clock reading `now`, over the integers. -/
def time (now : Nat) : ScheduleCall T → Nat
  | scheduleAfter delay _ => now + delay
  | scheduleAt at_ _ => at_
  | scheduleEvery delay _ _ => now + delay

variable {S : Type → Type} [Slab S]

/-- The call. -/
def run (call : ScheduleCall T) (t : Timer S T) (now : Nat) :
    Except Fault (Timer S T × TimerResult) :=
  match call with
  | scheduleAfter delay token => t.scheduleAfter now delay token
  | scheduleAt at_ token => t.scheduleAt at_ token
  | scheduleEvery delay interval token => t.scheduleEvery now delay interval token

omit [Slab S] in
/-- The time is not before the start of the timer, it is a `u64`, and so is its sum with the size
of a tick. The tick after the current one begins at a time that is a `u64`. -/
structure InRange (call : ScheduleCall T) (t : Timer S T) (now : Nat) : Prop where
  start : t.startMs ≤ call.time now
  sum : call.time now ≤ u64Max
  rounding : call.time now - t.startMs + t.tickMs ≤ u64Max
  next : t.startMs + (t.tick + 1) * t.tickMs ≤ u64Max

end ScheduleCall

/-- The scheduling call that the handler makes for the message. -/
def TcpConnMessage.schedules {M : Type} : TcpConnMessage M → Option (ScheduleCall M)
  | .addTimer _ delay mark _ => some (.scheduleAfter delay mark)
  | .addTimer2 _ delay interval mark _ => some (.scheduleEvery delay interval mark)
  | _ => none

section
variable {S : Type → Type} [Slab S]

/-- The loop can go on with the timer: at every clock reading it gets its tick and its delay. -/
def Timer.KeepsTime {T : Type} (t : Timer S T) : Prop :=
  ∀ now, t.startMs ≤ now → (∃ n, t.nowTick now = .ok n) ∧ ∃ r, t.nextTickInMs now = .ok r

/-- The call leaves the timer `t'` without a wrap: unless it answers that there is no room, an
entry from its deadline on is registered, and the loop can go on. -/
def ScheduleCall.Leaves {T : Type} (call : ScheduleCall T) (t : Timer S T) (now : Nat)
    (t' : Timer S T) : Prop :=
  ∃ r, call.run t now = .ok (t', r) ∧
    (∀ timeout, r = .ok timeout → t'.Holds timeout ∧ t.deadline (call.time now) ≤ timeout.tick) ∧
    t'.KeepsTime

/-- The call goes through without a wrap. -/
def ScheduleCall.Sound {T : Type} (call : ScheduleCall T) (t : Timer S T) (now : Nat) : Prop :=
  ∃ t', call.Leaves t now t'

/-- The handler call for a message goes through, and has made the scheduling call. -/
def Dispatcher.SchedulesSoundly {M : Type} [DecidableEq M] (d : Dispatcher S M) (t : Timer S M)
    (msg : TcpConnMessage M) (env : Env M) (call : ScheduleCall M) : Prop :=
  ∃ h, d.handleNotify t msg env = .ok h ∧ call.Leaves t env.now h.timer

end

end Ruduo
