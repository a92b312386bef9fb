import Ruduo.Spec.ConnectionRun
import Ruduo.Model.WorkerLoop

/-!
# `Ruduo.Spec.EndlessWriting`: a callback that always sends again

`send` does not call `on_write_complete` when the socket has taken everything. It enqueues a
`WriteComplete`, to give the poller a chance. The loop over the messages then dequeues it in the
same step of the event loop. `WritesAgain` describes the steps of a loop whose `on_write_complete`
answers a `WriteComplete` with another `send`, on a socket that has room for it.
-/

set_option autoImplicit false

namespace Ruduo

open Lib (Slab)

/-- The act is a `send`, and the socket takes something each time until it has taken everything. -/
def Act.Flows {M : Type} : Act M → Prop
  | .send _ outcomes => ∀ o ∈ outcomes, ∃ n, o = .ok n
  | _ => False

/-- The callback sends, and the socket has room for everything it sends. -/
def Env.SendsAgain {M : Type} (env : Env M) : Prop := env.acts ≠ [] ∧ ∀ a ∈ env.acts, a.Flows

/-- The message does not concern the connection with this token. -/
def Message.Passes {M : Type} (token : Token) : Message (TcpConnMessage M) → Prop
  | .stop => False
  | .any msg => msg.addressee ≠ some token ∧ msg.removal ≠ some token

/-- Nothing waits to be written, and the poll does not watch for room. -/
def TcpConnection.Flushed (c : TcpConnection) : Prop :=
  c.output.readableBytes = .ok 0 ∧ isWriting c.interests = false

namespace WorkerLoop
variable {S : Type → Type} [Slab S] {M : Type} [DecidableEq M]

/-- In this step a `WriteComplete` for the connection makes it send again, and no other message
that is dequeued concerns the connection. -/
def WritesAgain (token : Token) (s : WorkerLoop S M) (l : WorkerLoopLabel M)
    (s' : WorkerLoop S M) : Prop :=
  s.Step l s' ∧ ∀ env q queue, l = .receive env → s.worker.queue = q :: queue →
    (q.msg = .any (.writeComplete token) ∧ env.SendsAgain) ∨ q.msg.Passes token

end WorkerLoop

/-- The step belongs to the loop over the messages, or to another thread. -/
def WorkerLoopLabel.Drains {M : Type} : WorkerLoopLabel M → Prop
  | .clone | .drop | .enqueue _ | .flush | .lock | .receive _ => True
  | _ => False

/-- The callback sends `data`, and the socket takes it at once. -/
def Env.sending {M : Type} (env : Env M) (data : List UInt8) : Env M :=
  { env with acts := [.send data [.ok data.length]] }

/-- One `WriteComplete` for each payload: it is dequeued, the callback sends the payload, and the
next `WriteComplete` is enqueued. -/
def sendingEach {M : Type} (env : Env M) (payloads : List (List UInt8)) :
    List (WorkerLoopLabel M) :=
  payloads.flatMap fun data => [.receive (env.sending data), .flush]

end Ruduo
