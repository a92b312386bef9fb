import Ruduo.Model.WorkerLoop
import Ruduo.Spec.Lifecycle

/-!
# `Ruduo.Spec.Stopping`: what a `Stop` message promises

`TcpServer::shutdown` sends `Stop` to the loops of its workers, and the drop of an
`EventLoopThread` sends it and then waits for the thread. `StopContract` says of a run that the
step which dequeues `Stop` is the last one, and leaves no connection registered.
-/

set_option autoImplicit false

namespace Ruduo

open Lib (Slab Run Always)

namespace WorkerLoop
variable {S : Type → Type} [Slab S] {M : Type} [DecidableEq M]

/-- The loop is over: it does not run any more and takes no further step, and the poll watches no
connection. -/
structure Stops (s : WorkerLoop S M) : Prop where
  running : s.running = false
  rests : ∀ ready s', ¬ s.Step (.poll ready) s'
  deregistered : s.worker.AllConnections fun c => c.io.registered = none

/-- When a step of the loop that dequeued `Stop` has ended, the loop is over. -/
def StopContract (s₀ : WorkerLoop S M) (ls : List (WorkerLoopLabel M)) : Prop :=
  Always Step (fun s => s.phase = .top → s.stopped = true → s.Stops) s₀ ls

end WorkerLoop

end Ruduo
