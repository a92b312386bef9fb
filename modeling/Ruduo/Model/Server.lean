import Ruduo.Model.Pool
import Ruduo.Model.ThreadPool

/-!
# `Ruduo.Model.Server`: a server, its service and its workers

`TcpServer` in `src/tcp_server.rs`: how it is made, started and shut down, with the accept loop of
`src/service.rs` that passes the streams on.

A `Listener` is a server before its start. Its `start` spawns the workers. From then on the thread
of the service accepts streams and may shut the server down, while the workers run side by side.
`Server.exec` makes one step of this:

* the accept loop accepts one stream, and passes it to the next loop of the pool;
* a worker makes a step. Messages that other threads enqueue are among its steps;
* `shutdown` ends the registration of the listener and takes the lock of `Shared`. It sends a dead
  letter for each connection of the directory, one after the other, and releases the lock.

Of the service's own loop only this is modelled. It is one thread, so `shutdown` and the accept
loop do not overlap. An accept error is in `Ruduo.Model.Service`.
-/

set_option autoImplicit false

namespace Ruduo

open Lib (Slab)

/-- Of `TcpServerConfig` the fields that are read. -/
structure TcpServerConfig where
  poolSize : Nat
  maxConnectionsPer : Nat

/-- The errors of `TcpServer::new`. -/
inductive ListenError where
  /-- An error of the kind `InvalidInput`. -/
  | invalidInput (desc : String)
  /-- An error of `TcpListener::bind`. -/
  | io (e : IoError)
  deriving DecidableEq

/-- Why a step of the server does not go through. -/
inductive ServerFault where
  | fault (f : Fault)
  /-- `shutdown` panics: "failed to deregister listener". -/
  | deregisterListener
  deriving DecidableEq

/-- A server before its start. -/
structure Listener (M : Type) where
  config : TcpServerConfig
  pool : EventLoopThreadPool M

namespace Listener
variable {M : Type}

/-- `TcpServer::with_config`. `bound` is what `TcpListener::bind` returns. -/
def withConfig (config : TcpServerConfig) (bound : Except IoError Unit) :
    Except Fault (Except ListenError (Listener M)) :=
  match bound with
  | .error e => .ok (.error (.io e))
  | .ok () => do
    let pool ← EventLoopThreadPool.new config.poolSize
    .ok (.ok { config, pool })

/-- `TcpServer::new`. `parsed` is what parsing the address gives. -/
def new (addr : String) (parsed : Option SocketAddr) (bound : Except IoError Unit)
    (poolSize maxConnectionsPer : Nat) : Except Fault (Except ListenError (Listener M)) :=
  match parsed with
  | none => .ok (.error (.invalidInput s!"invalid socket address: {addr}"))
  | some _ => withConfig { poolSize, maxConnectionsPer } bound

/-- The handle of a thread is its dispatcher. -/
def makeDispatcher (S : Type → Type) [Slab S] (s : Listener M) (seq noti : Nat) :
    Except Fault (Dispatcher S M) := do
  let cap := s.config.maxConnectionsPer
  let offset ← u64Mul seq cap
  .ok (Dispatcher.new cap offset noti)

end Listener

/-- A server that has started, and its workers. -/
structure Server (S : Type → Type) (M : Type) (poolSize : Nat) where
  /-- For each loop, the messages that the accept loop has passed to it. -/
  threads : EventLoopThreadPool M
  pool : Pool S M poolSize
  /-- The listener is registered with the poll of the service. -/
  listening : Bool
  /-- `shutdown` has the lock of `Shared`, and still sends dead letters to these loops. -/
  letters : Option (List Nat)

/-- `TcpServer::start`. `timers` are the timers of the new loops. The listener is new, so the poll
registers it. -/
def Listener.start {M : Type} (S : Type → Type) [Slab S] (s : Listener M)
    (timers : Nat → Timer S M) (envs : Nat → SpawnEnv) :
    Except ServerFault (Except IoError (Server S M s.config.poolSize)) :=
  match s.pool.start (s.makeDispatcher S) envs with
  | (_, .error f) => .error (.fault f)
  | (_, .ok (.error e)) => .ok (.error e)
  | (threads, .ok (.ok ())) =>
    let cap := s.config.maxConnectionsPer
    .ok (.ok {
      threads
      pool := { workers := fun seq => Worker.new cap (seq * cap) seq (timers seq)
                shared := Shared.new }
      listening := true
      letters := none })

/-- The steps. -/
inductive ServerLabel (M : Type) (poolSize : Nat) where
  /-- `accept` returns a stream, and the service makes a callback for it. -/
  | accept (stream : TcpStream) (peerAddr : SocketAddr) (connectionInitCallback : Closure)
  /-- A worker makes a step. -/
  | worker (seq : Fin poolSize) (l : WorkerLabel M)
  /-- `shutdown`, up to its lock. The values of the directory come in this order. -/
  | shutdown (values : List Nat)
  /-- The next dead letter. -/
  | letter
  /-- The end of `shutdown`. -/
  | endShutdown

/-- The worker takes the lock of `Shared` in this step. -/
def WorkerLabel.takesLock {M : Type} : WorkerLabel M → Bool
  | .lock => true
  | _ => false

/-- The notifiers in the directory. -/
def Shared.values (s : Shared) : List Nat := s.connToLoop.entries.map Sigma.snd

/-- A message through the notifier of a loop, which is its number. -/
def Pool.notify {S : Type → Type} [Slab S] {M : Type} {poolSize : Nat} (p : Pool S M poolSize)
    (n : Nat) (msg : Message (TcpConnMessage M)) : Pool S M poolSize :=
  if h : n < poolSize then
    { p with workers := Function.update p.workers ⟨n, h⟩ ((p.workers ⟨n, h⟩).push msg) }
  else p

namespace Server
variable {S : Type → Type} [Slab S] {M : Type} [DecidableEq M] {poolSize : Nat}

omit [DecidableEq M] in
/-- One pass of the accept loop. -/
def accept (s : Server S M poolSize) (stream : TcpStream) (peerAddr : SocketAddr)
    (connectionInitCallback : Closure) : Except Fault (Server S M poolSize) := do
  let (threads, n) ← s.threads.nextLoop
  let msg := .established stream peerAddr connectionInitCallback
  .ok { s with threads := threads.notify n msg, pool := s.pool.notify n (.any msg) }

/-- One step, or `none` when the step is not possible. -/
def exec (s : Server S M poolSize) :
    ServerLabel M poolSize → Option (Except ServerFault (Server S M poolSize))
  | .accept stream peerAddr connectionInitCallback =>
    if s.listening ∧ s.letters.isNone then
      some ((s.accept stream peerAddr connectionInitCallback).mapError .fault)
    else none
  | .worker seq l =>
    -- The lock is taken.
    if l.takesLock ∧ s.letters.isSome then none
    else (s.pool.exec seq l).map fun r => (r.map fun pool => { s with pool }).mapError .fault
  | .shutdown values =>
    if s.letters.isNone ∧ values.Perm s.pool.shared.values then
      if s.listening then some (.ok { s with listening := false, letters := some values })
      else some (.error .deregisterListener)
    else none
  | .letter =>
    match s.letters with
    | some (n :: letters) =>
      some (.ok { s with pool := s.pool.notify n .stop, letters := some letters })
    | _ => none
  | .endShutdown =>
    if s.letters = some [] then some (.ok { s with letters := none }) else none

/-- A step that goes through. -/
def Step (s : Server S M poolSize) (l : ServerLabel M poolSize) (s' : Server S M poolSize) :
    Prop := s.exec l = some (.ok s')

end Server

end Ruduo
