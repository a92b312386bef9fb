import Ruduo.Model.Timer
import Ruduo.Proofs.Connection.Sessions

/-!
# `Ruduo.Proofs.Timer.Faults`: how the timer can fault

The arithmetic overflows, an index is out of range, an entry is missing: the timer has nothing to
do with the registration of a connection.
-/

set_option autoImplicit false

namespace Ruduo

open Lib (Outcome Slab)

section Timer
variable {S : Type → Type} [Slab S] {T : Type} (t : Timer S T)

/-- A sum only faults as a buffer does. -/
theorem u64Add_fault (a b : Nat) : Outcome (u64Add a b) (fun _ => True) BufferFault := by
  unfold u64Add
  split
  · trivial
  · exact id

/-- A quotient only faults as a buffer does. -/
private theorem u64Div_fault (a b : Nat) : Outcome (u64Div a b) (fun _ => True) BufferFault := by
  unfold u64Div
  split
  · exact id
  · trivial

omit [Slab S] in
/-- Reading the wheel does not panic over a registration. -/
private theorem wheelAt_fault (slot : Nat) :
    Outcome (t.wheelAt slot) (fun _ => True) BufferFault := by
  unfold Timer.wheelAt
  split
  · trivial
  · exact id

omit [Slab S] in
/-- Writing the wheel does not panic over a registration. -/
private theorem setWheel_fault (slot key : Nat) :
    Outcome (t.setWheel slot key) (fun _ => True) BufferFault := by
  unfold Timer.setWheel
  split
  · trivial
  · exact id

/-- Reading an entry does not panic over a registration. -/
private theorem entryAt_fault (key : Nat) :
    Outcome (t.entryAt key) (fun _ => True) BufferFault := by
  unfold Timer.entryAt
  split
  · trivial
  · exact id

/-- Setting the entry before does not panic over a registration. -/
private theorem setPrev_fault (key prev : Nat) :
    Outcome (t.setPrev key prev) (fun _ => True) BufferFault :=
  (entryAt_fault t key).bind fun _ _ => trivial

/-- Setting the entry after does not panic over a registration. -/
private theorem setNext_fault (key next : Nat) :
    Outcome (t.setNext key next) (fun _ => True) BufferFault :=
  (entryAt_fault t key).bind fun _ _ => trivial

/-- `insert` does not panic over a registration. -/
theorem insert_fault (token : T) (tick interval : Nat) :
    Outcome (t.insert token tick interval) (fun _ => True) BufferFault := by
  refine (wheelAt_fault t _).bind fun curr _ => Outcome.ite (fun _ => trivial) fun _ => ?_
  refine Outcome.bind (Q := fun _ => True)
    (Outcome.ite (fun _ => setPrev_fault _ _ _) fun _ => trivial) fun t _ => ?_
  exact (setWheel_fault t _ _).bind fun _ _ => trivial

/-- `unlink` does not panic over a registration. -/
theorem unlink_fault (link : EntryLink) (key : Nat) :
    Outcome (t.unlink link key) (fun _ => True) BufferFault := by
  refine Outcome.bind (Q := fun _ => True)
    (Outcome.ite (fun _ => setWheel_fault t _ _) fun _ => setNext_fault t _ _) fun t _ => ?_
  exact Outcome.ite (fun _ => (setPrev_fault t _ _).bind fun _ _ => trivial) fun _ => trivial

/-- `clear` does not panic over a registration. -/
theorem clear_fault (timeout : Timeout) :
    Outcome (t.clear timeout) (fun _ => True) BufferFault := by
  refine Outcome.ite (fun _ => trivial) fun _ => ?_
  cases Slab.tryRemove t.entries timeout.key with
  | none => trivial
  | some r => exact (unlink_fault _ _ _).bind fun _ _ => trivial

/-- `timeout_ms` does not panic over a registration. -/
theorem timeoutMs_fault (now delay interval : Nat) (token : T) :
    Outcome (t.timeoutMs now delay interval token) (fun _ => True) BufferFault := by
  refine (u64Add_fault _ _).bind fun _ _ => (u64Sub_fault _ _).bind fun _ _ => ?_
  refine (u64Add_fault _ _).bind fun _ _ => (u64Sub_fault _ _).bind fun _ _ => ?_
  refine (u64Div_fault _ _).bind fun _ _ => ?_
  refine Outcome.bind (Q := fun _ => True)
    (Outcome.ite (fun _ => u64Add_fault _ _) fun _ => trivial) fun tick _ => ?_
  exact insert_fault t token tick interval

/-- `tick_to` does not panic over a registration. -/
theorem tickTo_fault (nowTick : Nat) :
    Outcome (t.tickTo nowTick) (fun _ => True) BufferFault := by
  have loop : ∀ (fuel : Nat) (t : Timer S T),
      Outcome (Timer.tickToLoop nowTick fuel t) (fun _ => True) BufferFault := by
    intro fuel
    induction fuel with
    | zero => intro t; exact id
    | succ fuel ih =>
      intro t
      refine Outcome.ite (fun _ => Outcome.ite (fun _ => ?_) fun _ => ?_) fun _ => trivial
      · exact (u64Add_fault _ _).bind fun _ _ => (wheelAt_fault t _).bind fun _ _ => ih _
      · refine (entryAt_fault t _).bind fun e _ => Outcome.ite (fun _ => ?_) fun _ => ih _
        refine (unlink_fault t _ _).bind fun t _ => ?_
        cases Slab.tryRemove t.entries _ with
        | none => exact id
        | some r => trivial
  exact loop _ t

end Timer

end Ruduo
