import Ruduo.Model.WorkerLoop
import Ruduo.Spec.Lifecycle

/-!
# `Ruduo.Spec.Closing`: a connection closes once

The end of a stream is met in the event phase: `handle_read` deregisters the connection, calls
`on_close` and enqueues `Removed`. The message phase takes the connection out of the slab.
`ClosesOnce` says of a state that this happened at most once to every connection, and that a
`Removed` message which comes to be handled finds the connection that sent it.

`ReportsClosed` describes a poll between the two that reports the connection again.
-/

set_option autoImplicit false

namespace Ruduo

open Lib (Slab)

/-- How often `on_close` was called. -/
def TcpConnection.closes (c : TcpConnection) : Nat := c.log.count .closed

variable {S : Type → Type} [Slab S] {M : Type} [DecidableEq M]

omit [DecidableEq M] in
/-- The user's callbacks and closures do not send `Removed`. -/
def Env.SendsNoRemoval (env : Env M) : Prop :=
  (∀ msg ∈ env.msgs, msg.removal = none) ∧ ∀ msg, .notify msg ∈ env.acts → msg.removal = none

omit [DecidableEq M] in
/-- Only `handle_read` sends `Removed`. -/
def WorkerLabel.OnlyReadsRemove : WorkerLabel M → Prop
  | .enqueue (.any msg) => msg.removal = none
  | .event _ _ _ env | .receive env | .timer _ env => env.SendsNoRemoval
  | _ => True

omit [DecidableEq M] in
/-- Only `handle_read` sends `Removed`. -/
def WorkerLoopLabel.OnlyReadsRemove : WorkerLoopLabel M → Prop
  | .enqueue (.any msg) => msg.removal = none
  | .event env | .receive env | .timer env => env.SendsNoRemoval
  | _ => True

namespace WorkerLoop

/-- A step in which only `handle_read` sends `Removed`. -/
def ReaderStep (s : WorkerLoop S M) (l : WorkerLoopLabel M) (s' : WorkerLoop S M) : Prop :=
  s.Step l s' ∧ l.OnlyReadsRemove

omit [DecidableEq M] in
/-- A `Removed` message for this token finds the connection that sent it, and removes it and no
other. -/
def Finds (s : WorkerLoop S M) (token : Token) : Prop :=
  ∃ c, s.worker.dispatcher.connAt token = some c ∧ c.closes = 1 ∧
    s.closers[s.removals]? = some c.id ∧
    ∀ env : Env M, ∃ d locked, s.worker.dispatcher.removeConnection token env = .ok (d, locked) ∧
      ∀ t, d.connAt t = if t = token then none else s.worker.dispatcher.connAt t

omit [DecidableEq M] in
/-- Every connection closes at most once. -/
structure ClosesOnce (s : WorkerLoop S M) : Prop where
  /-- `on_close` is called at most once. -/
  closes : s.worker.AllConnections fun c => c.closes ≤ 1
  /-- A connection sends `Removed` at most once. -/
  sends : s.closers.Nodup
  /-- A `Removed` message in front of the queue finds its connection. -/
  finds : ∀ token target queue,
    s.worker.queue = { msg := .any (.removed token), target } :: queue → s.Finds token

omit [DecidableEq M] in
/-- The last step of the loop dequeued `Stop`, and the poll reports a connection as readable that
has met the end of its stream before. -/
def ReportsClosed (s : WorkerLoop S M) : WorkerLoopLabel M → Prop
  | .poll ready => s.stopped = true ∧ ∃ e ∈ ready, e.readable = true ∧ e.token ≠ K_WAKE_TOKEN ∧
      ∃ c, s.worker.dispatcher.connAt e.token = some c ∧ .closed ∈ c.log
  | _ => False

/-- A step that reports no closed connection again. -/
def CleanStep (s : WorkerLoop S M) (l : WorkerLoopLabel M) (s' : WorkerLoop S M) : Prop :=
  s.ReaderStep l s' ∧ ¬ s.ReportsClosed l

end WorkerLoop

end Ruduo
