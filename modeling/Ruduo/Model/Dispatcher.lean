import Ruduo.Model.Connection
import Ruduo.Model.Timer
import Mathlib.Data.List.AList

/-!
# `Ruduo.Model.Dispatcher`: the handler of a worker

`src/tcp_server.rs`: the `Dispatcher` of one worker, and the map `Shared` of all workers.

A handler call works on the dispatcher and on the timer of its event loop. What the outside
does during the call is in `Env`: the clock, the answers of the socket and of the operating
system, and what the user's callback does. The result says which messages the call sends, and
whether it goes on to the lock of `Shared`. `add_connection`, `add_connecting` and
`remove_connection` take the lock after they have worked on their own dispatcher, so the work
under the lock is a value, `Locked`, that is run later.

A `HashMap` is an association list with unique keys.
-/

set_option autoImplicit false

namespace Ruduo

open Lib (Slab)

/-- What the outside does during one handler call. -/
structure Env (M : Type) where
  /-- The value of `now_ms()`. -/
  now : Nat
  /-- The answer of `peer_addr()`. -/
  peerAddr : Except IoError SocketAddr
  /-- The answer of the operating system to a `shutdown` of the stream. -/
  shutdown : Except IoError Unit
  /-- What the socket answers to reads. -/
  reads : List (Except IoError (List UInt8))
  /-- What the socket answers to writes. -/
  writes : List (Except IoError Nat)
  /-- What a callback or closure with access to the registry does. -/
  acts : List (Act M)
  /-- What a callback or closure without access to the registry notifies. -/
  msgs : List (TcpConnMessage M)

/-! ### The map of all connections -/

/-- `Shared`: for each token the notifier of its loop. A notifier is the number of the loop. -/
structure Shared where
  connToLoop : AList fun _ : Token => Nat

namespace Shared

/-- The directory is empty at first. -/
def new : Shared := { connToLoop := ∅ }

/-- The loop of a connection. -/
def getLoopNotifier (s : Shared) (token : Token) : Option Nat := s.connToLoop.lookup token

/-- A connection is entered. Its token must be free. -/
def addConnection (s : Shared) (token : Token) (noti : Nat) : Except Fault Shared :=
  if token ∈ s.connToLoop then .error (.panicked (.alreadyDispatched token))
  else .ok { connToLoop := s.connToLoop.insert token noti }

/-- A connection is taken out, if it is there. -/
def removeConnection (s : Shared) (token : Token) : Shared :=
  { connToLoop := s.connToLoop.erase token }

end Shared

/-- The rest of a handler call, from the lock of `Shared` on. -/
inductive Locked where
  /-- The new connection is entered in the directory. -/
  | add (token : Token) (noti : Nat)
  /-- After the removal the peer of the stream is looked up for the log. -/
  | remove (token : Token) (peerAddr : Except IoError SocketAddr)

/-- The work under the lock. The argument of the log line after the removal is evaluated under it
too. -/
def Locked.run (s : Shared) : Locked → Except Fault Shared
  | .add token noti => s.addConnection token noti
  | .remove token peerAddr => do
    let s := s.removeConnection token
    let _ ← expect .peerAddr peerAddr
    .ok s

/-! ### The dispatcher -/

/-- The dispatcher of a worker. `made` is a ghost field: how many connections it has made, and
the `id` of the next one. -/
structure Dispatcher (S : Type → Type) (M : Type) where
  /-- The connections of this dispatcher. The key of one is its token less `offset`. -/
  localConnections : S TcpConnection
  /-- The setup callbacks of the connecting streams, by token. -/
  pendings : AList fun _ : Token => Closure
  /-- The timers that run once, by mark: the handle, the connection and the closure. -/
  timers : AList fun _ : M => Timeout × Token × Closure
  /-- The periodic timers, by mark. -/
  timers2 : AList fun _ : M => Timeout × Token × Closure
  /-- The first token of this dispatcher. -/
  offset : Nat
  /-- The notifier of its own loop. -/
  localNotifier : Nat
  made : Nat

/-- What a handler call leaves: the dispatcher, the timer, the messages it sends, and its rest
from the lock on. -/
structure Handled (S : Type → Type) (M : Type) where
  dispatcher : Dispatcher S M
  timer : Timer S M
  sent : List (TcpConnMessage M)
  locked : Option Locked

namespace Session
variable {M : Type}

/-- A closure without access to the registry: the setup callback. -/
def setup (s : Session M) (cb : Closure) (msgs : List (TcpConnMessage M)) : Session M :=
  { s.record (.setup cb) with sent := s.sent ++ msgs }

/-- A closure without access to the registry: that of a `SetContext` message. -/
def context (s : Session M) (f : Closure) (msgs : List (TcpConnMessage M)) : Session M :=
  { s.record (.context f) with sent := s.sent ++ msgs }

/-- The closure of a timer. -/
def timer (s : Session M) (f : Closure) (as : List (Act M)) : Except Fault (Session M) :=
  acts as (s.record (.timer f))

/-- A `Shutdown` message. -/
def shutdownMessage (s : Session M) (how : Shutdown) (outcome : Except IoError Unit) :
    Except Fault (Session M) := do
  if !isWriting s.conn.interests then
    let io ← expect .shutdown (s.conn.io.shutdown how outcome)
    .ok { s with conn := { s.conn with io } }
  else .ok s

end Session

namespace Dispatcher
variable {S : Type → Type} [Slab S] {M : Type} [DecidableEq M]

omit [DecidableEq M] in
/-- A dispatcher without connections. -/
def new (cap offset noti : Nat) : Dispatcher S M :=
  { localConnections := Slab.withCapacity cap
    pendings := ∅, timers := ∅, timers2 := ∅, offset, localNotifier := noti, made := 0 }

omit [Slab S] [DecidableEq M] in
/-- The key of a token in the own slab. -/
def restoreKey (d : Dispatcher S M) (token : Token) : Except Fault Nat := u64Sub token d.offset

/-- `stream.shutdown(Both)` of a stream for which there is no room. -/
def rejectIfFull (d : Dispatcher S M) (stream : TcpStream) (p : Panic) (env : Env M) :
    Except Fault TcpStream :=
  if Slab.len d.localConnections = Slab.capacity d.localConnections then
    expect p (stream.shutdown .both env.shutdown)
  else .ok stream

/-- A connection is made on an accepted stream, and set up. A full slab does not stop it. -/
def addConnection (d : Dispatcher S M) (stream : TcpStream) (peerAddr : SocketAddr)
    (cb : Closure) (env : Env M) :
    Except Fault (Dispatcher S M × List (TcpConnMessage M) × Locked) := do
  -- max connections per loop reached!
  let stream ← d.rejectIfFull stream (.shutdownFrom peerAddr) env
  let token ← u64Add d.offset (Slab.vacantKey d.localConnections)
  let conn ← TcpConnection.make d.made token stream
  let s : Session M := { conn, sent := [] }
  let s := s.setup cb env.msgs
  let s ← s.onEstablished env.acts
  let localConnections := Slab.insert d.localConnections s.conn
  .ok ({ d with localConnections, made := d.made + 1 }, s.sent, .add token d.localNotifier)

/-- A stream that is still connecting is registered, and kept with its setup callback. -/
def addConnecting (d : Dispatcher S M) (stream : TcpStream) (addr : SocketAddr) (cb : Closure)
    (env : Env M) : Except Fault (Dispatcher S M × Locked) := do
  -- max connections per loop reached!
  let stream ← d.rejectIfFull stream (.shutdownConnecting addr) env
  let token ← u64Add d.offset (Slab.vacantKey d.localConnections)
  let stream ← expect (.registerConnecting token) (Registry.register stream .READABLE)
  let conn ← TcpConnection.make d.made token stream
  let localConnections := Slab.insert d.localConnections (conn.record (.connecting cb))
  let pendings := d.pendings.insert token cb
  .ok ({ d with localConnections, pendings, made := d.made + 1 }, .add token d.localNotifier)

omit [DecidableEq M] in
/-- The connection is taken out of the slab, and out of the directory under its lock. -/
def removeConnection (d : Dispatcher S M) (token : Token) (env : Env M) :
    Except Fault (Dispatcher S M × Locked) := do
  let key ← d.restoreKey token
  match Slab.tryRemove d.localConnections key with
  | some (_, localConnections) =>
    .ok ({ d with localConnections }, .remove token env.peerAddr)
  | none => .error .outOfRange

omit [DecidableEq M] in
/-- `with_connection`, and `if let Some(tcpconn) = self.local_connections.get_mut(..)`. -/
def withConnection (d : Dispatcher S M) (token : Token)
    (f : Session M → Except Fault (Session M)) :
    Except Fault (Dispatcher S M × List (TcpConnMessage M)) := do
  let key ← d.restoreKey token
  match Slab.get d.localConnections key with
  | some conn => do
    let s ← f { conn, sent := [] }
    .ok ({ d with localConnections := Slab.set d.localConnections key s.conn }, s.sent)
  | none => .ok (d, [])

/-- The part of `handle_io_event` for a readable event. -/
def handleReadable (pendings : AList fun _ : Token => Closure) (token : Token) (env : Env M)
    (s : Session M) : Except Fault ((AList fun _ : Token => Closure) × Session M) :=
  match pendings.lookup token with
  | some f =>
    match env.peerAddr with
    | .ok _ => do
      let s ← (s.setup f env.msgs).onEstablished env.acts
      .ok (pendings.erase token, s)
    -- Not connected yet: wait for the next event. Another error is only logged.
    | .error _ => .ok (pendings, s)
  | none => do
    let s ← s.handleRead env.reads env.acts env.msgs
    .ok (pendings, s)

/-- The event is handled by the connection of its token, first reading and then writing. -/
def handleIoEvent (d : Dispatcher S M) (token : Token) (readable writable : Bool) (env : Env M) :
    Except Fault (Dispatcher S M × List (TcpConnMessage M)) := do
  let key ← d.restoreKey token
  match Slab.get d.localConnections key with
  | some conn => do
    let s : Session M := { conn, sent := [] }
    let (pendings, s) ← (if readable then handleReadable d.pendings token env s
      else .ok (d.pendings, s))
    let s ← (if writable then s.handleWrite env.writes else .ok s)
    .ok ({ d with localConnections := Slab.set d.localConnections key s.conn, pendings }, s.sent)
  | none => .ok (d, [])

/-- A message is handled. -/
def handleNotify (d : Dispatcher S M) (timer : Timer S M) (msg : TcpConnMessage M) (env : Env M) :
    Except Fault (Handled S M) :=
  match msg with
  | .established stream peerAddr cb => do
    let (d, sent, l) ← d.addConnection stream peerAddr cb env
    .ok { dispatcher := d, timer, sent, locked := some l }
  | .connecting stream addr cb =>
    match env.peerAddr with
    | .ok peerAddr => do
      let (d, sent, l) ← d.addConnection stream peerAddr cb env
      .ok { dispatcher := d, timer, sent, locked := some l }
    | .error e =>
      if e.kind = .notConnected ∨ e.rawOsError = some EINPROGRESS then do
        let (d, l) ← d.addConnecting stream addr cb env
        .ok { dispatcher := d, timer, sent := [], locked := some l }
      else .ok { dispatcher := d, timer, sent := [], locked := none }
  | .removed token => do
    let (d, l) ← d.removeConnection token env
    .ok { dispatcher := d, timer, sent := [], locked := some l }
  | .write token data => do
    let (d, sent) ← d.withConnection token fun s => s.send data env.writes
    .ok { dispatcher := d, timer, sent, locked := none }
  | .writeComplete token => do
    let (d, sent) ← d.withConnection token fun s => s.onWriteComplete env.acts
    .ok { dispatcher := d, timer, sent, locked := none }
  | .enable token mode => do
    let (d, sent) ← d.withConnection token fun s => s.enableIo mode
    .ok { dispatcher := d, timer, sent, locked := none }
  | .disable token mode => do
    let (d, sent) ← d.withConnection token fun s => s.disableIo mode
    .ok { dispatcher := d, timer, sent, locked := none }
  | .shutdown token how => do
    let (d, sent) ← d.withConnection token fun s => s.shutdownMessage how env.shutdown
    .ok { dispatcher := d, timer, sent, locked := none }
  | .setContext token f => do
    let (d, sent) ← d.withConnection token fun s => .ok (s.context f env.msgs)
    .ok { dispatcher := d, timer, sent, locked := none }
  | .addTimer token delay mark f => do
    let (timer, r) ← timer.timeoutMs env.now delay 0 mark
    match r with
    | .ok r =>
      .ok { dispatcher := { d with timers := d.timers.insert mark (r, token, f) }
            timer, sent := [], locked := none }
    -- failed to add timer
    | .error _ => .ok { dispatcher := d, timer, sent := [], locked := none }
  | .addTimer2 token delay interval mark f => do
    let (timer, r) ← timer.timeoutMs env.now delay interval mark
    match r with
    | .ok r =>
      .ok { dispatcher := { d with timers2 := d.timers2.insert mark (r, token, f) }
            timer, sent := [], locked := none }
    -- failed to add timer2
    | .error _ => .ok { dispatcher := d, timer, sent := [], locked := none }
  | .cancelTimer _token mark =>
    match d.timers.lookup mark with
    | some (timeout, _, _) => do
      let (timer, _) ← timer.clear timeout
      .ok { dispatcher := { d with timers := d.timers.erase mark }
            timer, sent := [], locked := none }
    | none =>
      match d.timers2.lookup mark with
      | some (timeout, _, _) => do
        let (timer, _) ← timer.clear timeout
        .ok { dispatcher := { d with timers2 := d.timers2.erase mark }
              timer, sent := [], locked := none }
      | none => .ok { dispatcher := d, timer, sent := [], locked := none }

/-- A timer has come due: its closure runs on the connection of its token, if there is one. -/
def handleTimeout (d : Dispatcher S M) (mark : M) (repeats : Bool) (env : Env M) :
    Except Fault (Dispatcher S M × List (TcpConnMessage M)) :=
  if !repeats then
    match d.timers.lookup mark with
    | some (_, token, f) =>
      -- Removed, then called when the connection is still there.
      { d with timers := d.timers.erase mark }.withConnection token fun s => s.timer f env.acts
    | none => .ok (d, [])
  else
    match d.timers2.lookup mark with
    | some (timeout, token, f) => do
      -- Removed for the call, and put back.
      let (d, sent) ← { d with timers2 := d.timers2.erase mark }.withConnection token
        fun s => s.timer f env.acts
      .ok ({ d with timers2 := d.timers2.insert mark (timeout, token, f) }, sent)
    | none => .ok (d, [])

omit [Slab S] in
/-- The handle of a timer is replaced. Only `timers` is looked at. -/
def refreshTimeout (d : Dispatcher S M) (mark : M) (timeout : Timeout) : Dispatcher S M :=
  match d.timers.lookup mark with
  | some (_, token, f) => { d with timers := d.timers.replace mark (timeout, token, f) }
  | none => d

omit [DecidableEq M] in
/-- The connections at these keys are deregistered, one after the other. -/
def deregisterAll : List Nat → Dispatcher S M → Except Fault (Dispatcher S M)
  | [], d => .ok d
  | key :: keys, d =>
    match Slab.get d.localConnections key with
    | some conn => do
      let conn ← conn.disableIo (Interest.READABLE.add .WRITABLE)
      deregisterAll keys { d with localConnections := Slab.set d.localConnections key conn }
    | none => deregisterAll keys d

omit [DecidableEq M] in
/-- The interests of all connections are disabled. -/
def gracefulShutdown (d : Dispatcher S M) : Except Fault (Dispatcher S M) :=
  deregisterAll (Slab.keys d.localConnections) d

end Dispatcher

end Ruduo
