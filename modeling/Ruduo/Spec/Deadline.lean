import Ruduo.Lib.Run
import Ruduo.Spec.PendingSet
import Mathlib.Algebra.Order.Floor.Div

/-!
# `Ruduo.Spec.Deadline`: timeouts are delivered on time

The calls an event loop makes on its timer, and what it means that a timeout scheduled with one
of them is not delivered late. A timeout with the deadline `d`, in ticks, is scheduled while
the timer stands at the tick `s`. From the tick `max d (s + 1)` on it may not stay behind: once
`tickTo n` has been called until it answers `none`, for such an `n`, the timeout has been
handed out or cleared.
-/

set_option autoImplicit false

namespace Ruduo

open Lib (Run Slab)

/-- The calls on a timer that schedule, cancel and deliver timeouts. -/
inductive TimerCall (T : Type) where
  | timeoutMsAt (at_ interval : Nat) (token : T)
  | clear (timeout : Timeout)
  | tickTo (nowTick : Nat)
  deriving DecidableEq, Repr

namespace Timer
variable {S : Type → Type} [Slab S] {T : Type}

/-- One call. -/
def call (t : Timer S T) : TimerCall T → Except Fault (Timer S T × TimerOut T)
  | .timeoutMsAt at_ interval token => do
    let (t, r) ← t.timeoutMsAt at_ interval token
    .ok (t, .inserted r)
  | .clear timeout => do
    let (t, b) ← t.clear timeout
    .ok (t, .cleared b)
  | .tickTo nowTick => do
    let (t, r) ← t.tickTo nowTick
    .ok (t, .ticked r)

/-- A call that returned, with its answer. -/
def CallStep (t : Timer S T) (l : TimerCall T × TimerOut T) (t' : Timer S T) : Prop :=
  t.call l.1 = .ok (t', l.2)

/-- A timer that some run of calls reaches from a new one. -/
def Reachable (t : Timer S T) : Prop :=
  ∃ tickMs slots cap now t₀ ls,
    Timer.new tickMs slots cap = .ok t₀ ∧ Run CallStep (t₀.setup now) ls t

/-- What is stored at a key: the token, the interval and the tick. -/
def pendingAt (t : Timer S T) (key : Nat) : Option (T × Nat × Nat) :=
  (Slab.get t.entries key).map fun e => (e.token, e.interval, e.link.tick)

/-- The handle is good: the entry at its key has its tick. -/
def Holds (t : Timer S T) (timeout : Timeout) : Prop :=
  ∃ e, Slab.get t.entries timeout.key = some e ∧ e.link.tick = timeout.tick

/-- The call either handed out a timeout with this token and interval, or cleared the handle. -/
def Releases (timeout : Timeout) (token : T) (interval : Nat) (l : TimerCall T × TimerOut T) :
    Prop :=
  (∃ n, l = (.tickTo n, .ticked (some (token, interval)))) ∨
    l = (.clear timeout, .cleared true)

/-- Along the calls the entry of the handle stays in place up to a call that releases it. -/
def Released (t : Timer S T) (timeout : Timeout) (token : T) (interval : Nat)
    (ls : List (TimerCall T × TimerOut T)) : Prop :=
  ∃ ls₁ l ls₂ u u', ls = ls₁ ++ l :: ls₂ ∧
    Run (fun t l t' => CallStep t l t' ∧ Holds t' timeout) t ls₁ u ∧
    CallStep u l u' ∧ ¬ Holds u' timeout ∧ Releases timeout token interval l

/-- A timeout of the timer `t` is not delivered late: for every `n` from the tick `first` on,
and whatever is called in between, once `tickTo n` answers `none` the timeout has been
released. -/
def OnTime (t : Timer S T) (timeout : Timeout) (token : T) (interval first : Nat) : Prop :=
  ∀ n, first ≤ n → ∀ ls t' t'', Run CallStep t ls t' → t'.tickTo n = .ok (t'', none) →
    Released t timeout token interval ls

/-- In the run from `t₀` to `t` the handle was given out for a timeout at `at_`, and its entry
has been in place since. -/
def Scheduled (t₀ t : Timer S T) (ls : List (TimerCall T × TimerOut T)) (timeout : Timeout)
    (at_ interval : Nat) (token : T) : Prop :=
  ∃ ls₁ ls₂ u u',
    ls = ls₁ ++ (.timeoutMsAt at_ interval token, .inserted (.ok timeout)) :: ls₂ ∧
      Run CallStep t₀ ls₁ u ∧
      CallStep u (.timeoutMsAt at_ interval token, .inserted (.ok timeout)) u' ∧
      Run (fun t l t' => CallStep t l t' ∧ Holds t' timeout) u' ls₂ t

/-- The deadline of a timeout in ticks. -/
def deadline (t : Timer S T) (at_ : Nat) : Nat := (at_ - t.startMs) ⌈/⌉ t.tickMs

end Timer

end Ruduo
