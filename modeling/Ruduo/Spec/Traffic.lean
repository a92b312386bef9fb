import Ruduo.Lib.Trace
import Ruduo.Model.WorkerLoop

/-!
# `Ruduo.Spec.Traffic`: what an event loop shows of itself

The messages that go in and out of the queue, and the polls. `EventLoop.traffic` and
`WorkerLoop.traffic` say of a step what it shows. `WorkerLoop.Matches` relates the loop of a worker
to the event loop that it is one case of.

The polls of the event loop may return the wake. Those of the loop of a worker leave the waker open,
and the event of the waker does nothing.
-/

set_option autoImplicit false

namespace Ruduo

open Lib (Emits)

/-- What an event loop shows of a step. -/
inductive Traffic (A : Type) where
  /-- A message is enqueued. -/
  | sent (msg : Message A)
  /-- A message is dequeued. -/
  | handed (msg : Message A)
  /-- A poll has returned. -/
  | polled

namespace Traffic
variable {A : Type}

/-- The messages enqueued, in order. -/
def sentOf (os : List (Traffic A)) : List (Message A) :=
  os.filterMap fun o => match o with
    | .sent msg => some msg
    | _ => none

/-- The messages dequeued, in order. -/
def handedOf (os : List (Traffic A)) : List (Message A) :=
  os.filterMap fun o => match o with
    | .handed msg => some msg
    | _ => none

/-- How often a poll returned. -/
def polls (os : List (Traffic A)) : Nat :=
  os.countP fun o => match o with
    | .polled => true
    | _ => false

end Traffic

/-- How many of these messages are a `Stop`. -/
def stops {A : Type} (msgs : List (Message A)) : Nat :=
  msgs.countP fun msg => match msg with
    | .stop => true
    | .any _ => false

/-- An event loop and one thread, before their first step. -/
def EventLoop.fresh {A : Type} (pollTimeout : Option Nat) : EventLoop Unit A :=
  { pollTimeout, queue := [], waker := false, producers := fun _ => .idle, pc := .top
    running := true }

/-- What a step of the event loop shows. -/
def EventLoop.traffic {P A : Type} (s : EventLoop P A) : LoopLabel P A → List (Traffic A)
  | .enqueue _ msg | .handlerEnqueue msg => [.sent msg]
  | .recvAny | .recvStop => (s.queue.take 1).map .handed
  | .pollReturn _ _ => [.polled]
  | _ => []

/-- The phase of the event loop. The events of the waker are not for the handler. -/
def WorkerPhase.phase? : WorkerPhase → Option Phase
  | .events left => some (.events (left.countP fun e => decide (e.token ≠ K_WAKE_TOKEN)))
  | .draining => some .draining
  | .drained | .timers _ => some .timers
  | .top | .returned => none

namespace WorkerLoop
variable {S : Type → Type} {M : Type}

/-- What a step of the loop of a worker shows. -/
def traffic (s : WorkerLoop S M) : WorkerLoopLabel M → List (Traffic (TcpConnMessage M))
  | .enqueue msg => [.sent msg]
  | .flush => (s.worker.outbox.take 1).map fun msg => .sent (.any msg)
  | .receive _ => (s.worker.queue.take 1).map fun q => .handed q.msg
  | .poll _ => [.polled]
  | _ => []

/-- Where the event loop stands. A handler call of the worker is over at some time after it is idle
again. -/
inductive StandsAt (s : WorkerLoop S M) : LoopPc → Prop where
  /-- The loop is between two handler calls. -/
  | phase (p : Phase) (hphase : s.phase.phase? = some p) (hidle : s.worker.Idle) :
    StandsAt s (.phase p)
  /-- A handler call of the worker is going on, or has just ended. -/
  | handling (p : Phase) (hphase : s.phase.phase? = some p) : StandsAt s (.handling p false)
  /-- The loop is at the `while` test. -/
  | top (hphase : s.phase = .top) (hidle : s.worker.Idle) : StandsAt s .top
  /-- `run` has returned. -/
  | returned (hphase : s.phase = .returned) (hidle : s.worker.Idle) : StandsAt s .stopped

/-- The event loop `x` is in the state of the loop `s` of a worker. All other threads together are
one thread of the event loop. -/
structure Matches (s : WorkerLoop S M) (x : EventLoop Unit (TcpConnMessage M)) : Prop where
  queue : x.queue = s.worker.queue.map Queued.msg
  running : x.running = s.running
  pc : s.StandsAt x.pc
  /-- No other thread owes a wake. -/
  producer : x.producers () = .idle

/-- From `x` on, the event loop shows `os` and then matches `s`. -/
def Answered (s : WorkerLoop S M) (x : EventLoop Unit (TcpConnMessage M))
    (os : List (Traffic (TcpConnMessage M))) : Prop :=
  ∃ ms y, Emits EventLoop.Step EventLoop.traffic x ms os y ∧ s.Matches y

end WorkerLoop

end Ruduo
