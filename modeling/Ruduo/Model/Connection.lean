import Ruduo.Model.Buffer
import Ruduo.Model.Mio

/-!
# `Ruduo.Model.Connection`: a TCP connection

`src/tcp_connection.rs`, function by function. `TcpConnection` is the connection that a user of
the crate defines. Its `make`, `do_read`, `do_write` and `do_write_with` are those of the
crate's example connections: no interests at first, `do_read` is `input.read_from(stream)`,
`do_write` writes `output.peek()` and does not consume it, `do_write_with` writes its argument.

The user's callbacks and closures are opaque code. What one of them does in one call is a list
of `Act`s, and what the socket answers in one call is a list of outcomes. Both are arguments:
every behaviour is possible. A call that needs more outcomes than it is given has not returned
yet, and faults with `unfinished`.

`on_close`, a setup callback and the closure of a `SetContext` message have no registry. They get
the connection as `&mut T` all the same, so they could change its buffers or shut its stream down.
Here they can only notify: what they do is a list of messages.

A function that notifies runs on a `Session`, the connection with the messages sent so far in
the handler call. `id` and `log` are ghost fields. `id` tells apart the connections that used
one token one after the other, and `log` records what happened to the connection.
-/

set_option autoImplicit false

namespace Ruduo

/-- A boxed closure. -/
abbrev Closure := Nat

/-- The messages to a dispatcher. `M` is the type of the marks of timers. -/
inductive TcpConnMessage (M : Type) where
  /-- An accepted stream, and the setup callback for its connection. -/
  | established (stream : TcpStream) (peerAddr : SocketAddr) (cb : Closure)
  /-- A stream whose attempt to connect may still go on, and the setup callback. -/
  | connecting (stream : TcpStream) (addr : SocketAddr) (cb : Closure)
  /-- The connection has met the end of its stream. -/
  | removed (token : Token)
  /-- Send these bytes on the connection. -/
  | write (token : Token) (data : List UInt8)
  /-- The connection has handed over all its bytes. -/
  | writeComplete (token : Token)
  | enable (token : Token) (mode : Interest)
  | disable (token : Token) (mode : Interest)
  /-- Shut the stream down. -/
  | shutdown (token : Token) (how : Shutdown)
  /-- Run the closure on the connection. -/
  | setContext (token : Token) (f : Closure)
  /-- Run the closure on the connection once, after `delay` ms. -/
  | addTimer (token : Token) (delay : Nat) (mark : M) (f : Closure)
  /-- Run the closure on the connection after `delay` ms, and then every `interval` ms. -/
  | addTimer2 (token : Token) (delay interval : Nat) (mark : M) (f : Closure)
  /-- Cancel the timer with this mark. -/
  | cancelTimer (token : Token) (mark : M)
  deriving DecidableEq

/-- What happens to a connection. -/
inductive ConnEvent where
  /-- `add_connecting` registered the stream and kept the setup callback. -/
  | connecting (cb : Closure)
  /-- The setup callback ran. -/
  | setup (cb : Closure)
  /-- `on_established` was called. -/
  | established
  /-- `handle_read` was called. -/
  | reading
  | readComplete
  /-- `on_write_complete` was called. -/
  | writeComplete
  /-- The end of the stream was met, and `on_close` was called. -/
  | closed
  /-- `enable_io` was called. -/
  | enabled (mode : Interest)
  /-- `disable_io` was called. -/
  | disabled (mode : Interest)
  /-- The closure of a `SetContext` message ran. -/
  | context (f : Closure)
  /-- The closure of a timer ran. -/
  | timer (f : Closure)
  deriving DecidableEq

/-- A connection: its stream, its buffers and its recorded interests. -/
structure TcpConnection where
  id : Nat
  token : Token
  io : TcpStream
  input : Buffer
  output : Buffer
  interests : Option Interest
  log : List ConnEvent
  deriving DecidableEq

/-- What a callback may do with its connection. -/
inductive Act (M : Type) where
  | enableIo (mode : Interest)
  | disableIo (mode : Interest)
  /-- `send(data)`, and what the socket answers. -/
  | send (data : List UInt8) (outcomes : List (Except IoError Nat))
  /-- Send a message to the loop of the connection. -/
  | notify (msg : TcpConnMessage M)
  /-- Take bytes out of the input buffer. -/
  | retrieve (size : Nat)
  /-- `shutdown()`, and what the operating system answers. -/
  | shutdown (outcome : Except IoError Unit)

/-- A connection in a handler call, and the messages the call has sent so far. -/
structure Session (M : Type) where
  conn : TcpConnection
  sent : List (TcpConnMessage M)
  deriving DecidableEq

/-- `BufState::is_reading` -/
def isReading (interests : Option Interest) : Bool := interests.elim false Interest.isReadable

/-- `BufState::is_writing` -/
def isWriting (interests : Option Interest) : Bool := interests.elim false Interest.isWritable

/-- Who writes has an interest. -/
theorem isSome_of_isWriting {interests : Option Interest} (h : isWriting interests = true) :
    interests.isSome := by
  cases interests with
  | none => simp [isWriting] at h
  | some i => rfl

/-- After an interest is removed, it is read when it was before and reading was not removed. -/
@[simp] theorem isReading_remove (i j : Interest) :
    isReading (i.remove j) = (i.isReadable && !j.isReadable) :=
  Interest.elim_remove (by decide) Interest.isReadable_eq i j

/-- After an interest is removed, it is written when it was before and writing was not removed. -/
@[simp] theorem isWriting_remove (i j : Interest) :
    isWriting (i.remove j) = (i.isWritable && !j.isWritable) :=
  Interest.elim_remove (by decide) Interest.isWritable_eq i j

namespace TcpConnection

/-- A connection on a stream, with empty buffers and without interests. -/
def make (id : Nat) (token : Token) (stream : TcpStream) : Except Fault TcpConnection := do
  let input ← Buffer.new
  let output ← Buffer.new
  .ok { id, token, io := stream, input, output, interests := none, log := [] }

/-- An event is added to the log. -/
def record (c : TcpConnection) (e : ConnEvent) : TcpConnection := { c with log := c.log ++ [e] }

/-- The interests grow by `mode`, in the record and in the registration. -/
def enableIo (c : TcpConnection) (mode : Interest) : Except Fault TcpConnection := do
  let c := c.record (.enabled mode)
  match c.interests with
  | some x =>
    let y := x.add mode
    let io ← expect (.reregister c.token) (Registry.reregister c.io y)
    .ok { c with io, interests := some y }
  | none =>
    let y := mode
    let io ← expect (.register c.token) (Registry.register c.io y)
    .ok { c with io, interests := some y }

/-- The interests shrink by `mode`. When nothing is left the stream is deregistered. -/
def disableIo (c : TcpConnection) (mode : Interest) : Except Fault TcpConnection := do
  let c := c.record (.disabled mode)
  match c.interests with
  | some i =>
    match i.remove mode with
    | some y =>
      let io ← expect (.reregister c.token) (Registry.reregister c.io y)
      .ok { c with io, interests := some y }
    | none =>
      let io ← expect (.deregister c.token) (Registry.deregister c.io)
      .ok { c with io, interests := none }
  | none => .ok { c with interests := none }

/-- `do_read`, which is `input.read_from(stream)`. The outcome `ok chunk` says which bytes the
socket has; at most a read buffer of them is read, and none at the end of the stream. -/
def doRead (c : TcpConnection) (outcome : Except IoError (List UInt8)) :
    Except Fault (TcpConnection × Except IoError Nat) :=
  match outcome with
  | .ok chunk => do
    let buf := chunk.take K_READ_BUF_SIZE
    let input ← c.input.append buf
    .ok ({ c with input }, .ok buf.length)
  | .error e => .ok (c, .error e)

/-- `do_write`, which writes `output.peek()` and does not consume it. -/
def doWrite (c : TcpConnection) (outcome : Except IoError Nat) :
    Except Fault (TcpConnection × Except IoError Nat) := do
  let buf ← c.output.peek
  let (io, r) := c.io.write buf outcome
  .ok ({ c with io }, r)

/-- `do_write_with`, which writes `data`. -/
def doWriteWith (c : TcpConnection) (data : List UInt8) (outcome : Except IoError Nat) :
    TcpConnection × Except IoError Nat :=
  let (io, r) := c.io.write data outcome
  ({ c with io }, r)

/-- `self.output().append(data)` -/
def appendOutput (c : TcpConnection) (data : List UInt8) : Except Fault TcpConnection := do
  let output ← c.output.append data
  .ok { c with output }

/-- `shutdown` -/
def shutdown (c : TcpConnection) (outcome : Except IoError Unit) : Except Fault TcpConnection := do
  let io ← expect .shutdown (c.io.shutdown .write outcome)
  .ok { c with io }

end TcpConnection

namespace Session
variable {M : Type}

/-- A message is sent to the own loop. -/
def notify (s : Session M) (msg : TcpConnMessage M) : Session M :=
  { s with sent := s.sent ++ [msg] }

/-- An event is added to the log of the connection. -/
def record (s : Session M) (e : ConnEvent) : Session M := { s with conn := s.conn.record e }

/-- `enable_io` in a handler call. -/
def enableIo (s : Session M) (mode : Interest) : Except Fault (Session M) := do
  let conn ← s.conn.enableIo mode
  .ok { s with conn }

/-- `disable_io` in a handler call. -/
def disableIo (s : Session M) (mode : Interest) : Except Fault (Session M) := do
  let conn ← s.conn.disableIo mode
  .ok { s with conn }

/-- The loop of `send`, with `written` bytes of the data accepted so far. -/
def sendLoop (data : List UInt8) (written : Nat) :
    List (Except IoError Nat) → Session M → Except Fault (Session M)
  | [], _ => .error .unfinished
  | outcome :: outcomes, s => do
    let buf ← sliceRange data written data.length
    let (conn, r) := s.conn.doWriteWith buf outcome
    let s := { s with conn }
    match r with
    | .ok n =>
      if n = buf.length then
        -- also give chance to poller to avoid infinite write
        .ok (s.notify (.writeComplete s.conn.token))
      else
        sendLoop data (written + n) outcomes s
    | .error e =>
      if e.kind = .wouldBlock then do
        let rest ← sliceRange data written data.length
        let conn ← s.conn.appendOutput rest
        { s with conn }.enableIo .WRITABLE
      else do
        -- failed to write, fallback to Buffer::append
        let conn ← s.conn.appendOutput data
        { s with conn }.enableIo .WRITABLE

/-- `send`: written at once when nothing waits, and appended to what waits otherwise. -/
def send (s : Session M) (data : List UInt8) (outcomes : List (Except IoError Nat)) :
    Except Fault (Session M) := do
  if !isWriting s.conn.interests then
    let readable ← s.conn.output.readableBytes
    if readable = 0 then
      sendLoop data 0 outcomes s
    else
      let conn ← s.conn.appendOutput data
      { s with conn }.enableIo .WRITABLE
  else
    let conn ← s.conn.appendOutput data
    .ok { s with conn }

/-- One act of a callback. -/
def act (s : Session M) : Act M → Except Fault (Session M)
  | .enableIo mode => s.enableIo mode
  | .disableIo mode => s.disableIo mode
  | .send data outcomes => s.send data outcomes
  | .notify msg => .ok (s.notify msg)
  | .retrieve size => do
    let input ← s.conn.input.retrieve size
    .ok { s with conn := { s.conn with input } }
  | .shutdown outcome => do
    let conn ← s.conn.shutdown outcome
    .ok { s with conn }

/-- The acts of a callback, in order. -/
def acts : List (Act M) → Session M → Except Fault (Session M)
  | [], s => .ok s
  | a :: as, s => do
    let s ← s.act a
    acts as s

/-- The user's callbacks and closures. -/
def onEstablished (s : Session M) (as : List (Act M)) : Except Fault (Session M) :=
  acts as (s.record .established)

/-- `on_read_complete`, which does these acts. -/
def onReadComplete (s : Session M) (as : List (Act M)) : Except Fault (Session M) :=
  acts as (s.record .readComplete)

/-- `on_write_complete`, which does these acts. -/
def onWriteComplete (s : Session M) (as : List (Act M)) : Except Fault (Session M) :=
  acts as (s.record .writeComplete)

/-- `on_close` has no registry. Here it can only notify. -/
def onClose (s : Session M) (msgs : List (TcpConnMessage M)) : Session M :=
  { s.record .closed with sent := s.sent ++ msgs }

/-- `handle_error` writes a log line. -/
def handleError (s : Session M) (_e : IoError) : Session M := s

/-- The loop of `handle_read`. `closing` is what `on_close` notifies. -/
def handleReadLoop (as : List (Act M)) (closing : List (TcpConnMessage M)) :
    List (Except IoError (List UInt8)) → Session M → Except Fault (Session M)
  | [], _ => .error .unfinished
  | outcome :: outcomes, s => do
    let (conn, r) ← s.conn.doRead outcome
    let s := { s with conn }
    match r with
    | .ok n =>
      if n > 0 then
        handleReadLoop as closing outcomes s
      else do
        -- passive close connection
        let s ← s.disableIo (Interest.READABLE.add .WRITABLE)
        let s := s.onClose closing
        .ok (s.notify (.removed s.conn.token))
    | .error e =>
      if e.kind = .wouldBlock then s.onReadComplete as else .ok (s.handleError e)

/-- `handle_read`: it reads until the socket has nothing more. -/
def handleRead (s : Session M) (outcomes : List (Except IoError (List UInt8)))
    (as : List (Act M)) (closing : List (TcpConnMessage M)) : Except Fault (Session M) :=
  handleReadLoop as closing outcomes (s.record .reading)

/-- The loop of `handle_write`. -/
def handleWriteLoop : List (Except IoError Nat) → Session M → Except Fault (Session M)
  | [], _ => .error .unfinished
  | outcome :: outcomes, s => do
    let (conn, r) ← s.conn.doWrite outcome
    let s := { s with conn }
    match r with
    | .ok n =>
      let output ← s.conn.output.retrieve n
      let s := { s with conn := { s.conn with output } }
      let readable ← output.readableBytes
      if readable = 0 then do
        -- once write done, stop writing
        let s ← s.disableIo .WRITABLE
        .ok (s.notify (.writeComplete s.conn.token))
      else
        handleWriteLoop outcomes s
    | .error e =>
      if e.kind = .wouldBlock then .ok s else handleWriteLoop outcomes (s.handleError e)

/-- `handle_write`: it writes what waits, until the socket takes nothing more or nothing is left. -/
def handleWrite (s : Session M) (outcomes : List (Except IoError Nat)) :
    Except Fault (Session M) :=
  if isWriting s.conn.interests then handleWriteLoop outcomes s else .ok s

end Session

end Ruduo
