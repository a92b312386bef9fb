import Ruduo.Lib.Trace
import Ruduo.Spec.ByteQueue
import Ruduo.Spec.Lifecycle

/-!
# `Ruduo.Spec.ConnectionRun`: the run of one connection within the run of its worker

A step of a worker makes calls on connections: `callsOn` lists those it makes on the connection
with one token. `Called` is what one call does to a connection, whatever was sent before in the same
handler call. So a run of the worker has, for each token, a list of calls, and `Called` makes a run
of it.
-/

set_option autoImplicit false

namespace Ruduo

open Lib (Slab)

/-- The call `k` on the connection `c` goes through, and leaves `c'`. -/
def TcpConnection.Called {M : Type} (c : TcpConnection) (k : ConnCall M) (c' : TcpConnection) :
    Prop :=
  ∃ s s' : Session M, s.conn = c ∧ s.call k = .ok s' ∧ s'.conn = c'

/-- The connection is as `make` makes it: with empty buffers and without interests. -/
structure TcpConnection.AsMade (c : TcpConnection) : Prop where
  input : c.input.Holds []
  output : c.output.Holds []
  interests : c.interests = none

/-- Of the call that a handler makes, if any, what is made on the connection with this token. -/
def callsAt {M : Type} (token : Token) : Option (Token × ConnCall M) → List (ConnCall M)
  | some (t, k) => if t = token then [k] else []
  | none => []

namespace Worker
variable {S : Type → Type} [Slab S] {M : Type} [DecidableEq M]

omit [Slab S] [DecidableEq M] in
/-- The calls of a step that come after `callOf`: `handle_write`, and that of a shutdown. -/
def laterCalls (w : Worker S M) (token : Token) : WorkerLabel M → List (ConnCall M)
  | .event t _ true env => if t = token then [.handleWrite env.writes] else []
  | .receive _ =>
    match w.queue with
    | { msg := .stop, .. } :: _ => [.disableIo (Interest.READABLE.add .WRITABLE)]
    | _ => []
  | _ => []

/-- The calls that a step makes on the connection with this token, in order. -/
def callsOn (token : Token) (w : Worker S M) (l : WorkerLabel M) : List (ConnCall M) :=
  callsAt token (w.callOf l) ++ w.laterCalls token l

end Worker

end Ruduo
