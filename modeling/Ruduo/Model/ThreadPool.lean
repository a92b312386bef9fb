import Ruduo.Model.Dispatcher
import Ruduo.Model.Service

/-!
# `Ruduo.Model.ThreadPool`: a pool is made and started

The rest of `src/event_loop_thread_pool.rs`, and `ConnectorService` in `src/connector.rs`, which
passes each stream it connects to the next loop of its pool.

`start` spawns one thread after the other. A `SpawnEnv` says what the outside does in one spawn.
When one fails, `start` returns the error, and the threads it has spawned stay in the pool. They
also stay when the failure is a panic, which the caller may catch, so the model's `start` gives
the pool in either case.

The names of the threads are left out, nothing reads them. What runs in a thread is in
`Ruduo.Model.WorkerLoop`.
-/

set_option autoImplicit false

namespace Ruduo

open Lib (Slab)

/-- What the outside does in one `EventLoopThread::spawn`. -/
structure SpawnEnv where
  /-- What `EventLoop::new` returns: it makes a poll and a waker. -/
  eventLoop : Except IoError Unit
  /-- What the `spawn` of `thread::Builder` returns. -/
  thread : Except IoError Unit

/-- `EventLoopThread::spawn`. The handle that `f` makes goes to the new thread. The loop of the
thread has no messages yet. -/
def EventLoopThread.spawn {H M : Type} (seq noti : Nat) (f : Nat → Nat → Except Fault H)
    (env : SpawnEnv) : Except Fault (Except IoError (List (TcpConnMessage M))) :=
  match env.eventLoop with
  | .error e => .ok (.error e)
  | .ok () => do
    let _ ← f seq noti
    let _ ← expect .spawn env.thread
    .ok (.ok [])

namespace EventLoopThreadPool
variable {H M : Type}

/-- `Default::default` -/
def default : EventLoopThreadPool M := { pool := [], size := 0, next := 0 }

/-- A pool of some size that is not started. -/
def new (size : Nat) : Except Fault (EventLoopThreadPool M) :=
  if size = 0 then .error (.panicked .emptyPool) else .ok { pool := [], size, next := 0 }

/-- The size is chosen, before the start. -/
def setPoolSize (p : EventLoopThreadPool M) (size : Nat) :
    Except Fault (EventLoopThreadPool M) := do
  -- pool already running!
  assertThat p.pool.isEmpty
  .ok { p with size, pool := [] }

/-- The loop of `start` over the numbers of the threads. -/
def startLoop (f : Nat → Nat → Except Fault H) (envs : Nat → SpawnEnv) :
    List Nat → EventLoopThreadPool M → EventLoopThreadPool M × Except Fault (Except IoError Unit)
  | [], p => (p, .ok (.ok ()))
  | i :: is, p =>
    match EventLoopThread.spawn i p.pool.length f (envs i) with
    | .ok (.ok thr) => startLoop f envs is { p with pool := p.pool ++ [thr] }
    | .ok (.error e) => (p, .ok (.error e))
    | .error fault => (p, .error fault)

/-- The threads are started one after the other. -/
def start (p : EventLoopThreadPool M) (f : Nat → Nat → Except Fault H) (envs : Nat → SpawnEnv) :
    EventLoopThreadPool M × Except Fault (Except IoError Unit) :=
  startLoop f envs (List.range p.size) p

end EventLoopThreadPool

/-- The errors of `ConnectorService::connect`. -/
inductive ConnectError where
  /-- An error of the kind `InvalidInput`. -/
  | invalidInput (desc : String)
  /-- An error of `TcpStream::connect`. -/
  | io (e : IoError)
  deriving DecidableEq

/-- A connector: its pool, and of its `config` the field that it reads. -/
structure ConnectorService (M : Type) where
  maxConnectionsPer : Nat
  pool : EventLoopThreadPool M

namespace ConnectorService
variable {M : Type}

/-- A connector with a pool of its own. -/
def new (poolSize maxConnectionsPer : Nat) : Except Fault (ConnectorService M) := do
  let pool ← EventLoopThreadPool.new poolSize
  .ok { maxConnectionsPer, pool }

/-- The handle of a thread is its dispatcher. -/
def makeDispatcher (S : Type → Type) [Slab S] (s : ConnectorService M) (seq noti : Nat) :
    Except Fault (Dispatcher S M) := do
  let cap := s.maxConnectionsPer
  let offset ← u64Mul seq cap
  .ok (Dispatcher.new cap offset noti)

/-- The loops of the pool are started, each with a dispatcher. -/
def start (S : Type → Type) [Slab S] (s : ConnectorService M) (envs : Nat → SpawnEnv) :
    ConnectorService M × Except Fault (Except IoError Unit) :=
  let (pool, r) := s.pool.start (s.makeDispatcher S) envs
  ({ s with pool }, r)

/-- `parsed` is what parsing the address gives, and `stream` what `TcpStream::connect` returns. -/
def connect (s : ConnectorService M) (addr : String) (parsed : Option SocketAddr)
    (stream : Except IoError TcpStream) (f : Closure) :
    Except Fault (ConnectorService M × Except ConnectError Unit) :=
  match parsed with
  | none => .ok (s, .error (.invalidInput s!"invalid socket address: {addr}"))
  | some addr =>
    match stream with
    | .error e => .ok (s, .error (.io e))
    | .ok stream => do
      let (pool, n) ← s.pool.nextLoop
      .ok ({ s with pool := pool.notify n (.connecting stream addr f) }, .ok ())

end ConnectorService

end Ruduo
