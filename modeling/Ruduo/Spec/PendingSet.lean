import Ruduo.Lib.PicksFirst
import Ruduo.Model.Timer

/-!
# `Ruduo.Spec.PendingSet`: what a timer is for

A timer is a set of pending timeouts. The set is a list, the most recently inserted timeout
first. `PendingSet.Step cap` says what each operation may answer and which set it leaves:

* an insertion fails exactly when `cap` timeouts are pending, and then changes nothing;
* a pending timeout can be cleared through its handle;
* a tick hands out a pending timeout of the smallest tick, the latest one among equal ticks,
  as long as one has come due, and otherwise changes nothing.

Nothing here mentions slots, lists of slots or a cursor.
-/

set_option autoImplicit false

namespace Ruduo

open Lib (PicksFirst Slab)

/-- A pending timeout. -/
structure Pending (T : Type) where
  key : Nat
  tick : Nat
  token : T
  interval : Nat
  deriving DecidableEq, Repr

/-- The handle of a pending timeout. -/
def Pending.handle {T : Type} (e : Pending T) : Timeout := { key := e.key, tick := e.tick }

/-- The operations on a timer. -/
inductive TimerOp (T : Type) where
  | insert (token : T) (tick interval : Nat)
  | clear (timeout : Timeout)
  | tickTo (nowTick : Nat)
  deriving DecidableEq, Repr

/-- The answers of a timer. -/
inductive TimerOut (T : Type) where
  | inserted (r : TimerResult)
  | cleared (b : Bool)
  | ticked (r : Option (T × Nat))

/-- One operation on the set of pending timeouts, with room for `cap` of them. -/
inductive PendingSet.Step {T : Type} (cap : Nat) :
    List (Pending T) → TimerOp T → TimerOut T → List (Pending T) → Prop where
  /-- There is room, and the timeout gets a fresh key. -/
  | insert {p : List (Pending T)} (e : Pending T)
      (hroom : p.length ≠ cap) (hfresh : ∀ e' ∈ p, e'.key ≠ e.key) :
      Step cap p (.insert e.token e.tick e.interval) (.inserted (.ok e.handle)) (e :: p)
  /-- There is no room, and nothing changes. -/
  | full {p : List (Pending T)} (token : T) (tick interval : Nat) (hfull : p.length = cap) :
      Step cap p (.insert token tick interval) (.inserted (.error .overflow)) p
  /-- The handle is that of a pending timeout, which goes. -/
  | clear (p₁ p₂ : List (Pending T)) (e : Pending T) :
      Step cap (p₁ ++ e :: p₂) (.clear e.handle) (.cleared true) (p₁ ++ p₂)
  /-- Of the earliest timeouts the one that was added last is handed out. -/
  | fire {p rest : List (Pending T)} (n : Nat) (e : Pending T)
      (hpick : PicksFirst (fun x => x.tick) p e rest) (hdue : e.tick ≤ n) :
      Step cap p (.tickTo n) (.ticked (some (e.token, e.interval))) rest
  /-- Nothing is due. -/
  | idle {p : List (Pending T)} (n : Nat) (hnone : ∀ e ∈ p, n < e.tick) :
      Step cap p (.tickTo n) (.ticked none) p

section
variable {S : Type → Type} [Slab S] {T : Type}

/-- One operation on a timer. -/
def Timer.exec (t : Timer S T) : TimerOp T → Except Fault (Timer S T × TimerOut T)
  | .insert token tick interval => do
    let (t, r) ← t.insert token tick interval
    .ok (t, .inserted r)
  | .clear timeout => do
    let (t, b) ← t.clear timeout
    .ok (t, .cleared b)
  | .tickTo nowTick => do
    let (t, r) ← t.tickTo nowTick
    .ok (t, .ticked r)

/-- The operations of the contract: an insertion is aimed at a tick in the future, a cleared
timeout is still pending, and a tick stays below `u64::MAX`. -/
def Timer.Admits (t : Timer S T) (p : List (Pending T)) : TimerOp T → Prop
  | .insert _ tick _ => t.tick < tick
  | .clear timeout => ∃ e ∈ p, e.handle = timeout
  | .tickTo nowTick => nowTick < u64Max

/-- The contract of one operation: it is a step of the set of pending timeouts, and a failed
insertion leaves the timer itself as it was. -/
def Timer.Contract (cap : Nat) (t : Timer S T) (p : List (Pending T)) (op : TimerOp T)
    (out : TimerOut T) (t' : Timer S T) (p' : List (Pending T)) : Prop :=
  PendingSet.Step cap p op out p' ∧ ∀ err, out = .inserted (.error err) → t' = t

end

end Ruduo
