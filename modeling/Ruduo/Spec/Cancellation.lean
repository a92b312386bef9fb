import Ruduo.Spec.Deadline
import Ruduo.Spec.Periodic

/-!
# `Ruduo.Spec.Cancellation`: cancelling a timer

A dispatcher keeps for each mark the closure of its timer and the handle of its wheel entry, in
one table for the timers that run once and in another for those that repeat (`kept`).
`CancelContract` says of a run that each handle kept is the handle of a pending entry for the
mark, and that a `CancelTimer` message leaves no entry for the mark.

It is asked of the runs in which distinct timers use distinct marks (`DistinctStep`).
-/

set_option autoImplicit false

namespace Ruduo

open Lib (Slab Always Each)

/-- What a message asks for that adds a timer. -/
structure TimerRequest (M : Type) where
  /-- The timer is to repeat. -/
  repeats : Bool
  token : Token
  delay : Nat
  interval : Nat
  mark : M
  f : Closure

/-- The timer that a message asks for. -/
def TcpConnMessage.request {M : Type} : TcpConnMessage M → Option (TimerRequest M)
  | .addTimer token delay mark f => some { repeats := false, token, delay, interval := 0, mark, f }
  | .addTimer2 token delay interval mark f =>
    some { repeats := true, token, delay, interval, mark, f }
  | _ => none

/-- What is kept under a mark, among the timers that run once or among those that repeat. -/
def Dispatcher.kept {S : Type → Type} {M : Type} [DecidableEq M] (d : Dispatcher S M)
    (repeats : Bool) (mark : M) : Option (Timeout × Token × Closure) :=
  if repeats then d.timers2.lookup mark else d.timers.lookup mark

/-- The handle is that of a pending entry with this token. -/
def Timer.Designates {S : Type → Type} [Slab S] {T : Type} (t : Timer S T) (timeout : Timeout)
    (token : T) : Prop :=
  ∃ e, Slab.get t.entries timeout.key = some e ∧ e.link.tick = timeout.tick ∧ e.token = token

namespace Worker
variable {S : Type → Type} [Slab S] {M : Type} [DecidableEq M]

omit [Slab S] in
/-- The handle is kept under the mark. -/
def Registered (w : Worker S M) (mark : M) (timeout : Timeout) : Prop :=
  ∃ repeats token f, w.dispatcher.kept repeats mark = some (timeout, token, f)

/-- Each handle kept is that of a pending entry for its mark. -/
def HandlesGood (w : Worker S M) : Prop :=
  ∀ mark timeout, w.Registered mark timeout → w.timer.Designates timeout mark

/-- When the step cancels a mark, no entry for the mark is left. If the mark was registered, it
was cleared through its handle. -/
def Cancels (w : Worker S M) (l : WorkerLabel M) (w' : Worker S M) : Prop :=
  ∀ token mark, w.Receives l (.cancelTimer token mark) →
    (∀ key e, Slab.get w'.timer.entries key = some e → e.token ≠ mark) ∧
    ∀ timeout, w.Registered mark timeout → w.timer.clear timeout = .ok (w'.timer, true)

/-- A step in which a timer is only added under a mark that no timer has. -/
def DistinctStep (w : Worker S M) (l : WorkerLabel M) (w' : Worker S M) : Prop :=
  w.Step l w' ∧ ∀ msg mark, w.Receives l msg → msg.adds = some mark →
    ∀ repeats, w.dispatcher.kept repeats mark = none

/-- In every state of the run the handles are good, and every cancellation is complete. -/
def CancelContract (w₀ : Worker S M) (ls : List (WorkerLabel M)) : Prop :=
  Always DistinctStep HandlesGood w₀ ls ∧ Each DistinctStep Cancels w₀ ls

/-- No pass of `process_timers` is handed out an entry for a mark that is kept among the timers
that repeat. -/
def NoneRepeats (w₀ : Worker S M) (ls : List (WorkerLabel M)) : Prop :=
  Each DistinctStep (fun w l _ => ∀ mark, w.Delivers l mark → w.dispatcher.kept true mark = none)
    w₀ ls

end Worker

end Ruduo
