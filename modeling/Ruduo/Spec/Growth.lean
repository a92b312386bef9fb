import Ruduo.Spec.ByteQueue
import Mathlib.Data.Set.Defs

/-!
# `Ruduo.Spec.Growth`: the backlog of a buffer

The bytes that were appended and not yet retrieved are the backlog. A buffer that is used for a
long time may need room for its largest backlog, but not for all the bytes that went through it.
-/

set_option autoImplicit false

namespace Ruduo.Buffer

open Lib (Reached)

/-- The backlogs of the states that a run of these operations reaches. -/
def backlogs (b₀ : Buffer) (ops : List BufferOp) : Set Nat :=
  {n | ∃ b, Reached Step b₀ ops b ∧ b.readableBytes = .ok n}

end Ruduo.Buffer
