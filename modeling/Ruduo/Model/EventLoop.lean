import Mathlib.Logic.Function.Basic

/-!
# `Ruduo.Model.EventLoop`: the event loop and its notifiers

`src/event_loop.rs`: `EventLoop::run` and `EventLoop::step`, interleaved with any number of
threads that hold a `Notifier`.

* `notify` and `dead_letter` are two steps of a thread: it enqueues a message, and then wakes
  the loop. `wake` alone is the second step only.
* A step of the loop tests the queue, polls, handles the reported events, drains the queue and
  runs the timers. Each of these is a step of the system, and the threads step in between.
* A handler call may notify as well, step by step, and may shut the loop down. What it does
  beyond that does not concern the loop.

The channel is an unbounded FIFO queue. A wake stays pending until a poll returns it. When a
poll returns, and what it reports, is left open.
-/

set_option autoImplicit false

namespace Ruduo

/-- What the channel of a loop carries. -/
inductive Message (A : Type) where
  | stop
  | any (msg : A)
  deriving DecidableEq

/-- A thread that holds a notifier. -/
inductive Producer where
  | idle
  /-- It stands between its enqueue and its wake. -/
  | enqueued
  /-- It has dropped its notifier. -/
  | gone
  deriving DecidableEq, Repr

/-- The phases of `step` after the poll. -/
inductive Phase where
  /-- This many events are still to be handled. -/
  | events (left : Nat)
  /-- In the loop over the messages. -/
  | draining
  /-- In `process_timers`. -/
  | timers
  deriving DecidableEq, Repr

/-- Where the loop stands. -/
inductive LoopPc where
  /-- At the head of the `while` loop of `run`. -/
  | top
  /-- In `poll`, with this timeout in ms. -/
  | polling (timeout : Option Nat)
  /-- Between two handler calls of a phase. -/
  | phase (p : Phase)
  /-- In a handler call that returns to the phase `back`. `owes` says that the handler stands
  between its own enqueue and its wake. -/
  | handling (back : Phase) (owes : Bool)
  /-- `run` has returned. -/
  | stopped
  deriving DecidableEq, Repr

/-- The event loop, its channel and its waker, and the threads `P`. -/
structure EventLoop (P A : Type) where
  /-- `config.poll_timeout` in ms. -/
  pollTimeout : Option Nat
  queue : List (Message A)
  /-- A wake is pending. -/
  waker : Bool
  producers : P → Producer
  pc : LoopPc
  running : Bool

/-- The steps. -/
inductive LoopLabel (P A : Type) where
  /-- A thread enqueues a message. -/
  | enqueue (p : P) (msg : Message A)
  /-- A thread wakes the loop. -/
  | wake (p : P)
  /-- A thread drops its notifier. -/
  | drop (p : P)
  /-- The head of the loop, and the choice of the timeout. `nextTick` is the answer of
  `next_tick_in_ms()`. -/
  | test (nextTick : Option Nat)
  /-- The end of the `while` loop. -/
  | exit
  /-- `poll` returns with this many events for the handler. `woken` says whether it returns the
  wake. -/
  | pollReturn (woken : Bool) (events : Nat)
  /-- The poll fails. -/
  | pollError
  /-- The next event is handled. -/
  | event
  /-- No event is left. -/
  | endEvents
  /-- `try_recv` returns a message other than `Stop`. -/
  | recvAny
  /-- `try_recv` returns `Stop`. -/
  | recvStop
  /-- `try_recv` returns no message. -/
  | recvEmpty
  /-- All notifiers are gone. Whether they are is left open. -/
  | recvDisconnected
  /-- The next timeout is handled. -/
  | timer
  /-- `process_timers` ends. -/
  | endTimers
  /-- The handler enqueues a message. -/
  | handlerEnqueue (msg : Message A)
  /-- The handler wakes the loop. -/
  | handlerWake
  /-- The handler shuts the loop down. -/
  | handlerShutdown
  /-- The handler call ends. -/
  | handlerReturn

namespace EventLoop
variable {P A : Type} [DecidableEq P]

/-- The timeout of the poll. -/
def chooseTimeout (pollTimeout : Option Nat) (isEmpty : Bool) (nextTick : Option Nat) :
    Option Nat :=
  let timeout := if isEmpty then pollTimeout else some 0
  match timeout, nextTick with
  | some a, some b => some (min a b)
  | some a, none => some a
  | none, some b => some b
  | none, none => none

omit [DecidableEq P] in
/-- `tx.send(msg)` -/
def push (s : EventLoop P A) (msg : Message A) : EventLoop P A :=
  { s with queue := s.queue ++ [msg] }

/-- The program step of the thread `p`. -/
def setProducer (s : EventLoop P A) (p : P) (pr : Producer) : EventLoop P A :=
  { s with producers := Function.update s.producers p pr }

omit [DecidableEq P] in
/-- The loop before its first step. No thread is in the middle of a `notify`. -/
def Initial (s : EventLoop P A) : Prop :=
  s.queue = [] ∧ s.waker = false ∧ (∀ p, s.producers p ≠ .enqueued) ∧ s.pc = .top ∧
    s.running = true

/-- The steps of the system. -/
inductive Step (s : EventLoop P A) : LoopLabel P A → EventLoop P A → Prop where
  | enqueue (p : P) (msg : Message A) (hp : s.producers p = .idle) :
      Step s (.enqueue p msg) ((s.push msg).setProducer p .enqueued)
  | wake (p : P) (hp : s.producers p ≠ .gone) :
      Step s (.wake p) { s.setProducer p .idle with waker := true }
  | drop (p : P) (hp : s.producers p = .idle) : Step s (.drop p) (s.setProducer p .gone)
  | test (nextTick : Option Nat) (hpc : s.pc = .top) (hrunning : s.running = true) :
      Step s (.test nextTick)
        { s with pc := .polling (chooseTimeout s.pollTimeout s.queue.isEmpty nextTick) }
  | exit (hpc : s.pc = .top) (hrunning : s.running = false) : Step s .exit { s with pc := .stopped }
  | pollWoken (timeout : Option Nat) (events : Nat) (hpc : s.pc = .polling timeout)
      (hwaker : s.waker = true) :
      Step s (.pollReturn true events) { s with waker := false, pc := .phase (.events events) }
  | poll (timeout : Option Nat) (events : Nat) (hpc : s.pc = .polling timeout) :
      Step s (.pollReturn false events) { s with pc := .phase (.events events) }
  | pollError (timeout : Option Nat) (hpc : s.pc = .polling timeout) :
      Step s .pollError { s with pc := .stopped }
  | event (left : Nat) (hpc : s.pc = .phase (.events (left + 1))) :
      Step s .event { s with pc := .handling (.events left) false }
  | endEvents (hpc : s.pc = .phase (.events 0)) :
      Step s .endEvents { s with pc := .phase .draining }
  /-- `handle_notify` -/
  | recvAny (msg : A) (queue : List (Message A)) (hpc : s.pc = .phase .draining)
      (hqueue : s.queue = .any msg :: queue) :
      Step s .recvAny { s with queue, pc := .handling .draining false }
  /-- `graceful_shutdown`, and then `break` -/
  | recvStop (queue : List (Message A)) (hpc : s.pc = .phase .draining)
      (hqueue : s.queue = .stop :: queue) :
      Step s .recvStop { s with queue, pc := .handling .timers false }
  | recvEmpty (hpc : s.pc = .phase .draining) (hqueue : s.queue = []) :
      Step s .recvEmpty { s with pc := .phase .timers }
  | recvDisconnected (hpc : s.pc = .phase .draining) (hqueue : s.queue = []) :
      Step s .recvDisconnected { s with running := false, pc := .phase .timers }
  | timer (hpc : s.pc = .phase .timers) : Step s .timer { s with pc := .handling .timers false }
  | endTimers (hpc : s.pc = .phase .timers) : Step s .endTimers { s with pc := .top }
  | handlerEnqueue (back : Phase) (msg : Message A) (hpc : s.pc = .handling back false) :
      Step s (.handlerEnqueue msg) { s.push msg with pc := .handling back true }
  | handlerWake (back : Phase) (owes : Bool) (hpc : s.pc = .handling back owes) :
      Step s .handlerWake { s with waker := true, pc := .handling back false }
  | handlerShutdown (back : Phase) (hpc : s.pc = .handling back false) :
      Step s .handlerShutdown { s with running := false }
  | handlerReturn (back : Phase) (hpc : s.pc = .handling back false) :
      Step s .handlerReturn { s with pc := .phase back }

end EventLoop

end Ruduo
