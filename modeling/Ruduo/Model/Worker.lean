import Ruduo.Lib.Run
import Ruduo.Model.Dispatcher
import Ruduo.Model.EventLoop

/-!
# `Ruduo.Model.Worker`: a dispatcher driven by its event loop

`src/event_loop.rs` with a `Dispatcher` as the handle. The loop calls the dispatcher for the
events of a poll, for the messages of its queue and for the timers, one call after the other.
`Worker.exec` makes one such call, or another step of the system:

* another thread enqueues a message;
* a handler call enqueues the next message it sends, while other threads may enqueue in
  between;
* a handler call takes the lock of `Shared`.

The loop makes its calls in a fixed order, and the poll reports what is ready. Here both are
left open: the next call is any call, so every run of the program is a run of the model.
-/

set_option autoImplicit false

namespace Ruduo

open Lib (Slab Run)

/-- The connection that a message is addressed to. -/
def TcpConnMessage.addressee {M : Type} : TcpConnMessage M → Option Token
  | .write token _ | .writeComplete token | .enable token _ | .disable token _
  | .shutdown token _ | .setContext token _ => some token
  | _ => none

/-- The connection that a message designates: the one it is addressed to, or the one that it adds a
timer for. -/
def TcpConnMessage.designee {M : Type} : TcpConnMessage M → Option Token
  | .addTimer token _ _ _ | .addTimer2 token _ _ _ _ => some token
  | msg => msg.addressee

/-- A message in the queue. `target` is a ghost field: the `id` of the connection that the
message designates when it is enqueued. -/
structure Queued (M : Type) where
  msg : Message (TcpConnMessage M)
  target : Option Nat
  deriving DecidableEq

/-- A worker. `outbox` and `locked` belong to the handler call that is going on: the messages
it has still to enqueue, and its rest from the lock on. -/
structure Worker (S : Type → Type) (M : Type) where
  dispatcher : Dispatcher S M
  timer : Timer S M
  queue : List (Queued M)
  outbox : List (TcpConnMessage M)
  locked : Option Locked

/-- The steps of a worker. -/
inductive WorkerLabel (M : Type) where
  /-- Another thread enqueues a message. -/
  | enqueue (msg : Message (TcpConnMessage M))
  /-- The handler call enqueues its next message. -/
  | flush
  /-- The handler call does its work under the lock. -/
  | lock
  /-- `handle_io_event` -/
  | event (token : Token) (readable writable : Bool) (env : Env M)
  /-- A message is dequeued and handled. -/
  | receive (env : Env M)
  /-- One pass of the loop in `process_timers`. -/
  | timer (nowTick : Nat) (env : Env M)

namespace Dispatcher
variable {S : Type → Type} [Slab S] {M : Type} [DecidableEq M]

omit [DecidableEq M] in
/-- The live connection with this token. -/
def connAt (d : Dispatcher S M) (token : Token) : Option TcpConnection :=
  match d.restoreKey token with
  | .ok key => Slab.get d.localConnections key
  | .error _ => none

/-- One pass of the loop in `process_timers`. -/
def processTimer (d : Dispatcher S M) (timer : Timer S M) (nowTick : Nat) (env : Env M) :
    Except Fault (Handled S M) := do
  let (timer, r) ← timer.tickTo nowTick
  match r with
  | some (mark, interval) =>
    let repeats := decide (interval > 0)
    let (d, timer) ← (if repeats then do
        let (timer, r) ← timer.timeoutMs env.now interval 0 mark
        match r with
        -- update timeout (repeat task)
        | .ok timeout => .ok (d.refreshTimeout mark timeout, timer)
        | .error _ => .error (.panicked .timerOverflow)
      else .ok (d, timer))
    let (d, sent) ← d.handleTimeout mark repeats env
    .ok { dispatcher := d, timer, sent, locked := none }
  -- no timer..
  | none => .ok { dispatcher := d, timer, sent := [], locked := none }

/-- The handler call for a message. -/
def handleMessage (d : Dispatcher S M) (timer : Timer S M) (msg : Message (TcpConnMessage M))
    (env : Env M) : Except Fault (Handled S M) :=
  match msg with
  | .stop => do
    let d ← d.gracefulShutdown
    .ok { dispatcher := d, timer, sent := [], locked := none }
  | .any msg => d.handleNotify timer msg env

end Dispatcher

namespace Worker
variable {S : Type → Type} [Slab S] {M : Type} [DecidableEq M]

omit [DecidableEq M] in
/-- A worker with a new dispatcher and an empty queue. -/
def new (cap offset noti : Nat) (timer : Timer S M) : Worker S M :=
  { dispatcher := Dispatcher.new cap offset noti, timer, queue := [], outbox := []
    locked := none }

omit [DecidableEq M] in
/-- The `id` of the connection that a message designates now. -/
def target (w : Worker S M) : Message (TcpConnMessage M) → Option Nat
  | .stop => none
  | .any msg => (msg.designee.bind w.dispatcher.connAt).map fun c => c.id

omit [DecidableEq M] in
/-- A message goes to the end of the queue, with the connection that it is for at this moment. -/
def push (w : Worker S M) (msg : Message (TcpConnMessage M)) : Worker S M :=
  { w with queue := w.queue ++ [{ msg, target := w.target msg }] }

omit [Slab S] [DecidableEq M] in
/-- No handler call is going on. -/
def Idle (w : Worker S M) : Prop := w.outbox.isEmpty ∧ w.locked.isNone

/-- Whether a worker is between two handler calls can be computed. -/
instance (w : Worker S M) : Decidable w.Idle := inferInstanceAs (Decidable (_ ∧ _))

omit [Slab S] [DecidableEq M] in
/-- The worker after the first part of a handler call. -/
def after (w : Worker S M) (h : Handled S M) : Worker S M :=
  { w with dispatcher := h.dispatcher, timer := h.timer, outbox := h.sent, locked := h.locked }

/-- One step, or `none` when the step is not possible. -/
def exec (w : Worker S M) : WorkerLabel M → Option (Except Fault (Worker S M))
  | .enqueue msg => some (.ok (w.push msg))
  | .flush =>
    match w.outbox with
    | msg :: outbox => some (.ok { w.push (.any msg) with outbox })
    | [] => none
  | .lock =>
    match w.outbox, w.locked with
    | [], some _ => some (.ok { w with locked := none })
    | _, _ => none
  | .event token readable writable env =>
    if w.Idle then some do
      let (d, sent) ← w.dispatcher.handleIoEvent token readable writable env
      .ok (w.after { dispatcher := d, timer := w.timer, sent, locked := none })
    else none
  | .receive env =>
    if w.Idle then
      match w.queue with
      | q :: queue => some do
        let h ← w.dispatcher.handleMessage w.timer q.msg env
        .ok ({ w with queue }.after h)
      | [] => none
    else none
  | .timer nowTick env =>
    if w.Idle then some do
      let h ← w.dispatcher.processTimer w.timer nowTick env
      .ok (w.after h)
    else none

/-- A step that goes through. -/
def Step (w : Worker S M) (l : WorkerLabel M) (w' : Worker S M) : Prop :=
  w.exec l = some (.ok w')

/-- A step that panics. -/
def Panics (w : Worker S M) (l : WorkerLabel M) (p : Panic) : Prop :=
  w.exec l = some (.error (.panicked p))

end Worker

end Ruduo
