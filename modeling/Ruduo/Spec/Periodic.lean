import Ruduo.Model.Worker
import Mathlib.Data.List.Infix

/-!
# `Ruduo.Spec.Periodic`: what a repeating timer is for

An `AddTimer2` message asks for a closure that runs again and again. Each time the entry of the
timer is handed out, the closure runs on the connection, and afterwards the wheel again holds
one entry for the mark, with the interval of the message. `PeriodicStep` says this of one step.

The promise is made for the steps in which the mark belongs to this timer alone
(`ForeignStep`), is not cancelled, and the connection is live (`UndisturbedStep`).
-/

set_option autoImplicit false

namespace Ruduo

open Lib (Slab)

/-- The mark of the timer that a message adds. -/
def TcpConnMessage.adds {M : Type} : TcpConnMessage M → Option M
  | .addTimer _ _ mark _ | .addTimer2 _ _ _ mark _ => some mark
  | _ => none

/-- The mark that a message cancels. -/
def TcpConnMessage.cancels {M : Type} : TcpConnMessage M → Option M
  | .cancelTimer _ mark => some mark
  | _ => none

/-- Exactly one timeout with this token is pending, and it carries this interval. -/
def Timer.PendsOnce {S : Type → Type} [Slab S] {T : Type} (t : Timer S T) (token : T)
    (interval : Nat) : Prop :=
  ∃ key e, Slab.get t.entries key = some e ∧ e.token = token ∧ e.interval = interval ∧
    ∀ key' e', Slab.get t.entries key' = some e' → e'.token = token → key' = key

namespace Worker
variable {S : Type → Type} [Slab S] {M : Type} [DecidableEq M]

omit [Slab S] [DecidableEq M] in
/-- The step hands this message to the dispatcher. -/
def Receives (w : Worker S M) : WorkerLabel M → TcpConnMessage M → Prop
  | .receive _, msg => ∃ target queue, w.queue = { msg := .any msg, target } :: queue
  | _, _ => False

omit [DecidableEq M] in
/-- The pass of `process_timers` is handed out an entry for this mark. -/
def Delivers (w : Worker S M) : WorkerLabel M → M → Prop
  | .timer nowTick _, mark =>
    ∃ timer interval, w.timer.tickTo nowTick = .ok (timer, some (mark, interval))
  | _, _ => False

omit [DecidableEq M] in
/-- The step ran the closure `f` of a timer on the connection at `token`. -/
def RanTimer (w w' : Worker S M) (token : Token) (f : Closure) : Prop :=
  ∃ c c', w.dispatcher.connAt token = some c ∧ w'.dispatcher.connAt token = some c' ∧
    c.log ++ [.timer f] <+: c'.log

/-- A step that adds no timer with this mark. -/
def ForeignStep (mark : M) (w : Worker S M) (l : WorkerLabel M) (w' : Worker S M) : Prop :=
  w.Step l w' ∧ ∀ msg, w.Receives l msg → msg.adds ≠ some mark

/-- A step in which moreover the timer of the mark is not cancelled, and the connection is
live. -/
def UndisturbedStep (mark : M) (token : Token) (w : Worker S M) (l : WorkerLabel M)
    (w' : Worker S M) : Prop :=
  w.ForeignStep mark l w' ∧ (∀ msg, w.Receives l msg → msg.cancels ≠ some mark) ∧
    ∃ c, w.dispatcher.connAt token = some c

/-- When the entry for the mark is handed out in this step, `f` runs on the connection, and
afterwards the wheel holds one entry for the mark, with the same interval. -/
def PeriodicStep (mark : M) (token : Token) (interval : Nat) (f : Closure) (w : Worker S M)
    (l : WorkerLabel M) (w' : Worker S M) : Prop :=
  w.Step l w' ∧
    (w.Delivers l mark → w'.timer.PendsOnce mark interval ∧ w.RanTimer w' token f)

/-- A step that hands out no entry for the mark. -/
def SilentStep (mark : M) (w : Worker S M) (l : WorkerLabel M) (w' : Worker S M) : Prop :=
  w.Step l w' ∧ ¬ w.Delivers l mark

end Worker

end Ruduo
