import Ruduo.Spec.Deadline
import Mathlib.Logic.Function.Basic

/-!
# `Ruduo.Spec.StaleHandle`: a handle cancels its own timeout only

The caller of a timer holds the handles it was given, and passes each of them to `clear` at most
once. Handles are values, and two of them may be equal, so the calls name a handle by its number:
the handle number `i` is the one that the `i`-th successful `timeoutMsAt` gave out.

`owner` remembers which handle the entry at a slab key was issued for. It is a ghost field, and
the timer knows nothing of it: it has the key and the tick of an entry only.
-/

set_option autoImplicit false

namespace Ruduo

open Lib (Slab)

/-- A timer and the caller that holds its handles. -/
structure Holder (S : Type → Type) (T : Type) where
  timer : Timer S T
  /-- The handles that were given out. -/
  issued : List Timeout
  /-- For each slab key the number of the handle of its entry. -/
  owner : Nat → Option Nat
  /-- The numbers of the handles that were passed to `clear`. -/
  spent : List Nat

/-- The calls of the holder. -/
inductive HolderCall (T : Type) where
  | timeoutMsAt (at_ interval : Nat) (token : T)
  | tickTo (nowTick : Nat)
  /-- `clear` of the handle with this number. -/
  | clear (number : Nat)

namespace Holder
variable {S : Type → Type} [Slab S] {T : Type}

omit [Slab S] in
/-- A holder without handles. -/
def new (timer : Timer S T) : Holder S T :=
  { timer, issued := [], owner := fun _ => none, spent := [] }

/-- After a call that leaves this timer. The entries that are gone have no owner any more. -/
def after (s : Holder S T) (timer : Timer S T) : Holder S T :=
  { s with
    timer
    owner := fun key => if (Slab.get timer.entries key).isSome then s.owner key else none }

/-- The calls that return. A handle is passed to `clear` once. -/
inductive Step (s : Holder S T) : HolderCall T → Holder S T → Prop where
  /-- The handle gets the next number and owns the entry. -/
  | issued (at_ interval : Nat) (token : T) {timer : Timer S T} {timeout : Timeout}
      (h : s.timer.timeoutMsAt at_ interval token = .ok (timer, .ok timeout)) :
      Step s (.timeoutMsAt at_ interval token)
        { s with
          timer
          issued := s.issued ++ [timeout]
          owner := Function.update s.owner timeout.key (some s.issued.length) }
  /-- The wheel is full, and no handle is given out. -/
  | rejected (at_ interval : Nat) (token : T) {timer : Timer S T} {err : TimerError}
      (h : s.timer.timeoutMsAt at_ interval token = .ok (timer, .error err)) :
      Step s (.timeoutMsAt at_ interval token) { s with timer }
  | tickTo (nowTick : Nat) {timer : Timer S T} {r : Option (T × Nat)}
      (h : s.timer.tickTo nowTick = .ok (timer, r)) : Step s (.tickTo nowTick) (s.after timer)
  | clear (number : Nat) {timer : Timer S T} {timeout : Timeout} {b : Bool}
      (hissued : s.issued[number]? = some timeout) (hunspent : number ∉ s.spent)
      (h : s.timer.clear timeout = .ok (timer, b)) :
      Step s (.clear number) { s.after timer with spent := number :: s.spent }

/-- What `clear` is to do with the handle number `i`. It answers whether the entry that the handle
was issued for is still pending. Then it takes out this entry and no other, and otherwise it
changes nothing. -/
def ClearsOwn (s : Holder S T) (i : Nat) (timeout : Timeout) : Prop :=
  ∃ timer b, s.timer.clear timeout = .ok (timer, b) ∧
    (b = true ↔ s.owner timeout.key = some i) ∧
    (b = true → timer.pendingAt timeout.key = none ∧
      ∀ key, key ≠ timeout.key → timer.pendingAt key = s.timer.pendingAt key) ∧
    (b = false → timer = s.timer)

/-- Every handle that may still be passed to `clear` cancels its own timeout only. -/
def Sound (s : Holder S T) : Prop :=
  ∀ i timeout, s.issued[i]? = some timeout → i ∉ s.spent → s.ClearsOwn i timeout

/-- The call does not give a handle out again that may still be passed to `clear`: the timer is
full, or the deadline has not passed, or none of those handles has the key that is used next and
the tick after the deadline. -/
def GivesNew (s : Holder S T) : HolderCall T → Prop
  | .timeoutMsAt at_ _ _ =>
    Slab.len s.timer.entries = Slab.capacity s.timer.entries ∨
      s.timer.tick ≤ s.timer.deadline at_ ∨
      ∀ i timeout, s.issued[i]? = some timeout → i ∉ s.spent →
        timeout ≠ { key := Slab.vacantKey s.timer.entries, tick := s.timer.deadline at_ + 1 }
  | _ => True

end Holder

end Ruduo
