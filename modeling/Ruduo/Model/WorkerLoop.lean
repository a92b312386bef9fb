import Ruduo.Model.Worker

/-!
# `Ruduo.Model.WorkerLoop`: the loop of a worker, phase by phase

`EventLoop::run` and `EventLoop::step` in `src/event_loop.rs`, with a `Dispatcher` as the handle.
A `Worker` makes its handler calls in any order. Here the loop makes them in the order of `step`:

* it polls, and handles the events that the poll reports;
* it dequeues messages, until the queue is empty or a `Stop` comes;
* it takes the time, and runs the timers that are due then.

Between any two of these, other threads enqueue messages, and clone and drop their notifiers. The
calls themselves are those of `Worker.exec`.

A poll reports an event for a stream under its registration, and readability once per token. Which
of the possible events it reports is left open, and its timeout with it.

`stopped`, `closers` and `removals` are ghost fields.
-/

set_option autoImplicit false

namespace Ruduo

open Lib (Slab)

/-- The token of the waker. -/
def K_WAKE_TOKEN : Token := u64Max

/-- An event that a poll reports. -/
structure IoEvent where
  token : Token
  readable : Bool
  writable : Bool
  deriving DecidableEq

/-- The poll watches the stream for this event. Readability is also reported for urgent data, so
every interest but the one in writing asks for it. -/
def TcpStream.watchedFor (s : TcpStream) (e : IoEvent) : Bool :=
  match s.registered with
  | some i => (!e.readable || (i.remove .WRITABLE).isSome) && (!e.writable || i.isWritable)
  | none => false

/-- Where the loop of a worker stands. -/
inductive WorkerPhase where
  /-- At the head of the `while` loop of `run`. -/
  | top
  /-- These events are still to be handled. -/
  | events (left : List IoEvent)
  /-- In the loop over the messages. -/
  | draining
  /-- The loop over the messages has ended. -/
  | drained
  /-- In the loop of `process_timers`, with this `now_tick`. -/
  | timers (nowTick : Nat)
  /-- `run` has returned. -/
  | returned
  deriving DecidableEq

/-- The loop of a worker. -/
structure WorkerLoop (S : Type → Type) (M : Type) where
  worker : Worker S M
  /-- The number of the loop, which its notifiers carry. -/
  number : Nat
  phase : WorkerPhase
  running : Bool
  /-- How many notifiers of the loop there are besides that of the dispatcher. -/
  notifiers : Nat
  /-- The current step of the loop, or the last one, dequeued `Stop`. -/
  stopped : Bool
  /-- The connections whose events sent the `Removed` messages, by `id`, in this order. -/
  closers : List Nat
  /-- How many `Removed` messages were dequeued. -/
  removals : Nat

/-- The steps. -/
inductive WorkerLoopLabel (M : Type) where
  /-- A notifier is cloned. -/
  | clone
  /-- A notifier other than that of the dispatcher is dropped. -/
  | drop
  /-- Another thread enqueues a message. -/
  | enqueue (msg : Message (TcpConnMessage M))
  /-- The handler call enqueues its next message. -/
  | flush
  /-- The handler call does its work under the lock. -/
  | lock
  /-- The `while` test, and a poll that reports these events. -/
  | poll (ready : List IoEvent)
  /-- The poll fails. -/
  | pollError
  /-- The end of the `while` loop. -/
  | exit
  /-- The next event is handled. -/
  | event (env : Env M)
  /-- No event is left. -/
  | endEvents
  /-- `try_recv` returns a message, which is handled. -/
  | receive (env : Env M)
  /-- `try_recv` returns no message. -/
  | endMessages
  /-- `process_timers` takes the time. -/
  | beginTimers (now : Nat)
  /-- One pass of the loop in `process_timers`. -/
  | timer (env : Env M)

/-- The token of a `Removed` message. -/
def TcpConnMessage.removal {M : Type} : TcpConnMessage M → Option Token
  | .removed token => some token
  | _ => none

namespace WorkerLoop
variable {S : Type → Type} [Slab S] {M : Type} [DecidableEq M]

omit [DecidableEq M] in
/-- The loop right after its start. `EventLoopThread` has its notifier. -/
def start (cap offset number : Nat) (timer : Timer S M) : WorkerLoop S M :=
  { worker := Worker.new cap offset number timer, number, phase := .top, running := true
    notifiers := 1, stopped := false, closers := [], removals := 0 }

omit [Slab S] [DecidableEq M] in
/-- There is still a notifier of the loop. -/
def connected (s : WorkerLoop S M) : Bool :=
  0 < s.notifiers || s.worker.dispatcher.localNotifier == s.number

omit [DecidableEq M] in
/-- What a poll may report now. -/
def mayReport (s : WorkerLoop S M) (ready : List IoEvent) : Bool :=
  (ready.all fun e => e.token == K_WAKE_TOKEN ||
    (s.worker.dispatcher.connAt e.token).any fun c => c.io.watchedFor e) &&
  decide ((ready.filter fun e => e.readable).map fun e => e.token).Nodup

/-- The worker makes the step `l`, and the loop goes on as `next` says. -/
def call (s : WorkerLoop S M) (l : WorkerLabel M) (next : Worker S M → WorkerLoop S M) :
    Option (Except Fault (WorkerLoop S M)) :=
  (s.worker.exec l).map fun r => r.map next

omit [DecidableEq M] in
/-- After the call for the event `e`. -/
def afterEvent (s : WorkerLoop S M) (e : IoEvent) (left : List IoEvent) (worker : Worker S M) :
    WorkerLoop S M :=
  { s with
    worker
    phase := .events left
    closers := s.closers ++ (worker.outbox.filterMap TcpConnMessage.removal).filterMap fun _ =>
      (s.worker.dispatcher.connAt e.token).map fun c => c.id }

omit [Slab S] [DecidableEq M] in
/-- After the call for the first message of the queue. -/
def afterMessage (s : WorkerLoop S M) (worker : Worker S M) : WorkerLoop S M :=
  match s.worker.queue with
  | { msg := .stop, .. } :: _ => { s with worker, phase := .drained, stopped := true }
  | { msg := .any (.removed _), .. } :: _ => { s with worker, removals := s.removals + 1 }
  | _ => { s with worker }

omit [DecidableEq M] in
/-- After a pass of `process_timers`. The loop ends when no timer is due. -/
def afterTimer (s : WorkerLoop S M) (nowTick : Nat) (worker : Worker S M) : WorkerLoop S M :=
  match s.worker.timer.tickTo nowTick with
  | .ok (_, none) => { s with worker, phase := .top }
  | _ => { s with worker }

/-- One step, or `none` when the step is not possible. -/
def exec (s : WorkerLoop S M) : WorkerLoopLabel M → Option (Except Fault (WorkerLoop S M))
  | .clone => if s.connected then some (.ok { s with notifiers := s.notifiers + 1 }) else none
  | .drop =>
    if 0 < s.notifiers then some (.ok { s with notifiers := s.notifiers - 1 }) else none
  | .enqueue msg =>
    if 0 < s.notifiers then s.call (.enqueue msg) fun worker => { s with worker } else none
  | .flush => s.call .flush fun worker => { s with worker }
  | .lock => s.call .lock fun worker => { s with worker }
  | .poll ready =>
    if s.phase = .top ∧ s.running ∧ s.mayReport ready then
      some (.ok { s with phase := .events ready, stopped := false })
    else none
  | .pollError =>
    if s.phase = .top ∧ s.running then some (.ok { s with phase := .returned }) else none
  | .exit =>
    if s.phase = .top ∧ !s.running then some (.ok { s with phase := .returned }) else none
  | .event env =>
    match s.phase with
    | .events (e :: left) =>
      if e.token = K_WAKE_TOKEN then
        if s.worker.Idle then some (.ok { s with phase := .events left }) else none
      else s.call (.event e.token e.readable e.writable env) (s.afterEvent e left)
    | _ => none
  | .endEvents =>
    if s.phase = .events [] ∧ s.worker.Idle then some (.ok { s with phase := .draining })
    else none
  | .receive env =>
    if s.phase = .draining then s.call (.receive env) s.afterMessage else none
  | .endMessages =>
    if s.phase = .draining ∧ s.worker.Idle ∧ s.worker.queue.isEmpty then
      -- Empty, or Disconnected: then the loop shuts itself down.
      some (.ok { s with phase := .drained, running := s.running && s.connected })
    else none
  | .beginTimers now =>
    if s.phase = .drained ∧ s.worker.Idle then some do
      let nowTick ← s.worker.timer.nowTick now
      .ok { s with phase := .timers nowTick }
    else none
  | .timer env =>
    match s.phase with
    | .timers nowTick => s.call (.timer nowTick env) (s.afterTimer nowTick)
    | _ => none

/-- A step that goes through. -/
def Step (s : WorkerLoop S M) (l : WorkerLoopLabel M) (s' : WorkerLoop S M) : Prop :=
  s.exec l = some (.ok s')

end WorkerLoop

end Ruduo
