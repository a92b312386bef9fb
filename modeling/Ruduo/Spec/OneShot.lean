import Ruduo.Spec.Cancellation

/-!
# `Ruduo.Spec.OneShot`: what a timer that runs once is for

An `AddTimer` message asks for a closure that runs once, on one connection. `OneShotContract` says
of the run after the message that the closure runs at most once, that it does not run before its
time, and that it has run once the tick of this time is drained, unless the timer was cancelled or
its connection has gone.

`Interferes` describes the steps in which another timer with the same mark gets in its way: it is
added while the closure waits, or its entry comes due before the time of the closure. When the own
entry of the closure comes due is not part of this.

A closure is told from the others by its number. So only the message itself carries it
(`FreshStep`).
-/

set_option autoImplicit false

namespace Ruduo

open Lib (Slab Run Each)

namespace Worker
variable {S : Type → Type} [Slab S] {M : Type} [DecidableEq M]

omit [DecidableEq M] in
/-- The step ran the closure `f` of a timer. -/
def RunsTimer (w w' : Worker S M) (f : Closure) : Prop := ∃ token, w.RanTimer w' token f

/-- A step in which no timer with the closure `f` is added. -/
def FreshStep (f : Closure) (w : Worker S M) (l : WorkerLabel M) (w' : Worker S M) : Prop :=
  w.Step l w' ∧ ∀ msg q, w.Receives l msg → msg.request = some q → q.f ≠ f

/-- A step in which moreover the mark is not cancelled, and the connection is live. -/
def AwaitedStep (mark : M) (token : Token) (f : Closure) (w : Worker S M) (l : WorkerLabel M)
    (w' : Worker S M) : Prop :=
  w.FreshStep f l w' ∧ (∀ msg, w.Receives l msg → msg.cancels ≠ some mark) ∧
    ∃ c, w.dispatcher.connAt token = some c

/-- The closure waits among the timers that run once. -/
def Waits (w : Worker S M) (mark : M) (token : Token) (f : Closure) : Prop :=
  ∃ timeout, w.dispatcher.kept false mark = some (timeout, token, f)

omit [DecidableEq M] in
/-- A pass up to the tick `nowTick` is handed out an entry for the mark that does not repeat, and
takes another entry than that of the handle `own` out of the wheel. -/
def HandsOutOther (w : Worker S M) (mark : M) (own : Timeout) (nowTick : Nat) : Prop :=
  ∃ timer other, w.timer.tickTo nowTick = .ok (timer, some (mark, 0)) ∧ other ≠ own ∧
    w.timer.Holds other ∧ ¬ timer.Holds other

omit [DecidableEq M] in
/-- Another timer takes the place of the one with this mark, which has the handle `own` and is due
at the tick `due`: an `AddTimer` message for the mark finds room in the wheel, or another entry for
the mark that does not repeat comes due in a pass up to an earlier tick. -/
def Interferes (w : Worker S M) (mark : M) (own : Timeout) (due : Nat) : WorkerLabel M → Prop
  | .receive env => (∃ token delay f, w.Receives (.receive env) (.addTimer token delay mark f)) ∧
    Slab.len w.timer.entries ≠ Slab.capacity w.timer.entries
  | .timer nowTick _ => nowTick < due ∧ w.HandsOutOther mark own nowTick
  | _ => False

/-- As long as the closure waits, no other timer takes its place. -/
def Undisputed (w : Worker S M) (mark : M) (token : Token) (f : Closure) (own : Timeout)
    (due : Nat) (ls : List (WorkerLabel M)) : Prop :=
  Each (FreshStep f) (fun w l _ => w.Waits mark token f → ¬ w.Interferes mark own due l) w ls

/-- The promise of a timer that was added for the time `at_`. -/
structure OneShotContract (w : Worker S M) (mark : M) (token : Token) (f : Closure) (at_ : Nat)
    (ls : List (WorkerLabel M)) : Prop where
  /-- It runs at most once. -/
  once : ∀ ls₁ l ls₂ t u, ls = ls₁ ++ l :: ls₂ → Run (FreshStep f) w ls₁ t → t.FreshStep f l u →
    t.RunsTimer u f → Each (FreshStep f) (fun t _ u => ¬ t.RunsTimer u f) u ls₂
  /-- It runs in a pass up to a tick that begins at its time or later. -/
  notEarly : Each (FreshStep f) (fun t l u => t.RunsTimer u f → ∃ nowTick env,
    l = .timer nowTick env ∧ at_ ≤ w.timer.startMs + nowTick * w.timer.tickMs) w ls
  /-- It has run on its connection when its tick is drained. -/
  delivered : ∀ ls₁ ls₂ t nowTick timer, ls = ls₁ ++ ls₂ → Run (AwaitedStep mark token f) w ls₁ t →
    w.timer.deadline at_ ≤ nowTick → t.timer.tickTo nowTick = .ok (timer, none) →
    ∃ ms₁ l ms₂ u u', ls₁ = ms₁ ++ l :: ms₂ ∧ Run (AwaitedStep mark token f) w ms₁ u ∧
      u.AwaitedStep mark token f l u' ∧ u.RanTimer u' token f

end Worker

end Ruduo
