import Ruduo.Model.Worker
import Ruduo.Spec.Registration

/-!
# `Ruduo.Spec.Lifecycle`: from connecting to connected

A connection is established when its setup callback and `on_established` run, in this order.
That happens at once when it arrives connected. One that arrives still connecting waits, and is
established at the first readable event that finds it connected. `Lifecycle` says this of what
happened to a connection.

The rest of the module describes two kinds of steps, by what they find and what they are given.

* `Worker.Enables`: the step calls `enable_io` on a connection that arrived still connecting.
* `Worker.FindsStale`: a readable event finds an established connection, and under its token a
  setup callback that an earlier connection has left behind.
-/

set_option autoImplicit false

namespace Ruduo

open Lib (Slab)

/-! ### The life of a connection -/

/-- The events that the lifecycle orders. -/
def ConnEvent.isMilestone : ConnEvent → Bool
  | .connecting _ | .setup _ | .established | .reading => true
  | _ => false

/-- The events that begin a life. -/
def ConnEvent.isBirth : ConnEvent → Bool
  | .connecting _ | .setup _ | .established => true
  | _ => false

/-- The connection was handed over with `cb`, and is still connecting: neither `cb` nor
`on_established` nor `handle_read` ran. -/
def Waiting (cb : Closure) (log : List ConnEvent) : Prop :=
  ∃ events, log = .connecting cb :: events ∧ ∀ e ∈ events, e.isMilestone = false

/-- The connection was handed over with `cb`, and is established: `cb` ran once, and
`on_established` once and directly after it. No `handle_read` came before. -/
def Established (cb : Closure) (log : List ConnEvent) : Prop :=
  ∃ before after, log = before ++ .setup cb :: .established :: after ∧
    (before = [] ∨ Waiting cb before) ∧ ∀ e ∈ after, e.isBirth = false

/-- A connection waits to be connected, or was set up once and established right after. -/
def Lifecycle (log : List ConnEvent) : Prop := ∃ cb, Waiting cb log ∨ Established cb log

/-- The connection arrived still connecting: `add_connecting` registered its stream. -/
def TcpConnection.ArrivedConnecting (c : TcpConnection) : Prop := ∃ cb, .connecting cb ∈ c.log

/-! ### Calls of `enable_io` -/

/-- The socket refuses a part of the data, so that `send` falls back on the output buffer. It
has still to accept `len` bytes. -/
def fallsBack (len : Nat) : List (Except IoError Nat) → Bool
  | [] => false
  | .ok n :: outcomes => decide (n < len) && fallsBack (len - n) outcomes
  | .error _ :: _ => true

/-- The act calls `enable_io`, on a connection without interests that has nothing to write. -/
def Act.enables {M : Type} : Act M → Bool
  | .enableIo _ => true
  | .send data outcomes => fallsBack data.length outcomes
  | _ => false

namespace Session
variable {M : Type}

/-- A callback that does these acts gets to a call of `enable_io`. -/
def ActsEnable : List (Act M) → Session M → Prop
  | [], _ => False
  | a :: as, s => a.enables = true ∨ ∃ s', s.act a = .ok s' ∧ ActsEnable as s'

/-- `handle_read` reads all there is, and `on_read_complete` gets to a call of `enable_io`. -/
def ReadsEnable (as : List (Act M)) : List (Except IoError (List UInt8)) → Session M → Prop
  | [], _ => False
  | .ok chunk :: outcomes, s =>
    chunk ≠ [] ∧ ∃ input, s.conn.input.append (chunk.take K_READ_BUF_SIZE) = .ok input ∧
      ReadsEnable as outcomes { s with conn := { s.conn with input } }
  | .error e :: _, s => e.kind = .wouldBlock ∧ ActsEnable as (s.record .readComplete)

/-- The call gets to a call of `enable_io`. -/
def Enables (s : Session M) : ConnCall M → Prop
  | .enableIo _ => True
  | .send data outcomes => fallsBack data.length outcomes = true
  | .handleRead outcomes as _ => ReadsEnable as outcomes (s.record .reading)
  | .onWriteComplete as => ActsEnable as (s.record .writeComplete)
  | .timer f as => ActsEnable as (s.record (.timer f))
  | .established cb msgs as => ActsEnable as ((s.setup cb msgs).record .established)
  | .disableIo _ | .handleWrite _ | .shutdownMessage _ _ | .context _ _ => False

end Session

/-! ### Steps of a worker -/

/-- The call on a connection that a message asks for. -/
def TcpConnMessage.call {M : Type} (env : Env M) : TcpConnMessage M → Option (Token × ConnCall M)
  | .write token data => some (token, .send data env.writes)
  | .writeComplete token => some (token, .onWriteComplete env.acts)
  | .enable token mode => some (token, .enableIo mode)
  | .disable token mode => some (token, .disableIo mode)
  | .shutdown token how => some (token, .shutdownMessage how env.shutdown)
  | .setContext token f => some (token, .context f env.msgs)
  | _ => none

/-- The stream that a message hands over is not registered with the poll. -/
def TcpConnMessage.StreamFresh {M : Type} : TcpConnMessage M → Prop
  | .established stream _ _ | .connecting stream _ _ => stream.registered = none
  | _ => True

namespace Dispatcher
variable {S : Type → Type} {M : Type} [DecidableEq M]

omit [DecidableEq M] in
/-- The call that a readable event leads to. -/
def readableCall (d : Dispatcher S M) (token : Token) (env : Env M) : Option (ConnCall M) :=
  match d.pendings.lookup token with
  | some f =>
    match env.peerAddr with
    | .ok _ => some (.established f env.msgs env.acts)
    | .error _ => none
  | none => some (.handleRead env.reads env.acts env.msgs)

/-- The call that the next timer leads to, if one is due. -/
def timerCall (d : Dispatcher S M) (timer : Timer S M) [Slab S] (nowTick : Nat) (env : Env M) :
    Option (Token × ConnCall M) :=
  match timer.tickTo nowTick with
  | .ok (timer, some (mark, interval)) =>
    if interval > 0 then
      match timer.timeoutMs env.now interval 0 mark with
      | .ok (_, .ok _) => (d.timers2.lookup mark).map fun t => (t.2.1, .timer t.2.2 env.acts)
      | _ => none
    else (d.timers.lookup mark).map fun t => (t.2.1, .timer t.2.2 env.acts)
  | _ => none

end Dispatcher

namespace Worker
variable {S : Type → Type} [Slab S] {M : Type} [DecidableEq M]

/-- The call on a connection that the step makes. A readable event that is also writable goes
on to `handle_write`, and a shutdown calls `disable_io` on every connection: these calls never
reach `enable_io`. -/
def callOf (w : Worker S M) (l : WorkerLabel M) : Option (Token × ConnCall M) :=
  if w.Idle then
    match l with
    | .event token true _ env => (w.dispatcher.readableCall token env).map fun k => (token, k)
    | .receive env =>
      match w.queue with
      | { msg := .any msg, .. } :: _ => msg.call env
      | _ => none
    | .timer nowTick env => w.dispatcher.timerCall w.timer nowTick env
    | _ => none
  else none

/-- The step calls `enable_io` on a connection that arrived still connecting. -/
def Enables (w : Worker S M) (l : WorkerLabel M) : Prop :=
  ∃ token k c, w.callOf l = some (token, k) ∧ w.dispatcher.connAt token = some c ∧
    c.ArrivedConnecting ∧ Session.Enables { conn := c, sent := [] } k

omit [DecidableEq M] in
/-- A readable event finds an established connection with a peer, and a setup callback under its
token. -/
def FindsStale (w : Worker S M) : WorkerLabel M → Prop
  | .event token true _ env =>
    (∃ c, w.dispatcher.connAt token = some c ∧ .established ∈ c.log) ∧
      token ∈ w.dispatcher.pendings ∧ ∃ addr, env.peerAddr = .ok addr
  | _ => False

omit [DecidableEq M] [Slab S] in
/-- The stream of a connection that arrives in this step is not registered with the poll. -/
def StreamsFresh (w : Worker S M) : WorkerLabel M → Prop
  | .receive _ =>
    match w.queue with
    | { msg := .any msg, .. } :: _ => msg.StreamFresh
    | _ => True
  | _ => True

/-- A step that meets no callback left behind. -/
def OrderlyStep (w : Worker S M) (l : WorkerLabel M) (w' : Worker S M) : Prop :=
  w.Step l w' ∧ w.StreamsFresh l ∧ ¬ w.FindsStale l

omit [DecidableEq M] in
/-- What holds of every live connection. -/
def AllConnections (w : Worker S M) (P : TcpConnection → Prop) : Prop :=
  ∀ key c, Slab.get w.dispatcher.localConnections key = some c → P c

end Worker

end Ruduo
