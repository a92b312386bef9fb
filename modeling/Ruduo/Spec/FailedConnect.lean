import Ruduo.Spec.Closing
import Ruduo.Spec.Lifecycle

/-!
# `Ruduo.Spec.FailedConnect`: a connect that does not come to pass

A stream that is still connecting has a connection in the slab, and its setup callback waits under
the token. `RefusedStep` describes the steps that do not find it connected: either there is no
readable event for it, or `peer_addr()` returns an error, of any kind.
-/

set_option autoImplicit false

namespace Ruduo

open Lib (Slab)

namespace Worker
variable {S : Type → Type} [Slab S] {M : Type} [DecidableEq M]

/-- In this step the peer of the connection is not found, and only `handle_read` sends `Removed`. -/
def RefusedStep (token : Token) (w : Worker S M) (l : WorkerLabel M) (w' : Worker S M) : Prop :=
  w.Step l w' ∧ l.OnlyReadsRemove ∧
    ∀ writable env, l = .event token true writable env → ∀ addr, env.peerAddr ≠ .ok addr

end Worker

/-- The event belongs to an established connection, or to one that is being established. -/
def ConnEvent.NeedsPeer (e : ConnEvent) : Prop := e.isMilestone = true ∨ e = .closed

end Ruduo
