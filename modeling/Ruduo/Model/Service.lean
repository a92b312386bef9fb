import Ruduo.Model.Connection
import Ruduo.Model.EventLoop

/-!
# `Ruduo.Model.Service`: the accept loop of a server

`handle_io_event` in `src/service.rs`, with `next_loop` in `src/event_loop_thread_pool.rs`. The
service runs in an event loop of its own. It accepts streams, and passes each to the next loop of
the pool.

What `listener.accept()` returns is the choice of the outside, one outcome for each call. The
loops of the pool and the loop of the service have open channels, so a `notify` and a
`dead_letter` enqueue their message. Of a loop of the pool only this is modelled: which messages
the service has enqueued to it. In one call of the accept loop, one closure stands for all that
`connection_init_callback()` returns. In `Ruduo.Model.Server` each stream has its own.
-/

set_option autoImplicit false

namespace Ruduo

/-- The token of the listener. -/
def K_ACCEPT_TOKEN : Token := 0

/-- The pool. A notifier is the number of its loop. -/
structure EventLoopThreadPool (M : Type) where
  /-- For each loop the messages that were enqueued to it. -/
  pool : List (List (TcpConnMessage M))
  size : Nat
  /-- The counter of `next_loop`, an `AtomicUsize`. -/
  next : Nat

namespace EventLoopThreadPool
variable {M : Type}

/-- The loops take turns. The counter wraps around. -/
def nextLoop (p : EventLoopThreadPool M) : Except Fault (EventLoopThreadPool M × Nat) := do
  -- pool is empty!
  assertThat (!p.pool.isEmpty)
  if p.size = 0 then .error .arithmetic
  else
    let n := p.next % p.size
    if n < p.pool.length then .ok ({ p with next := (p.next + 1) % 2 ^ 64 }, n)
    else .error .outOfRange

/-- `notify` through the notifier of the loop `n`. -/
def notify (p : EventLoopThreadPool M) (n : Nat) (msg : TcpConnMessage M) :
    EventLoopThreadPool M :=
  { p with pool := p.pool.modify n fun msgs => msgs ++ [msg] }

end EventLoopThreadPool

/-- `dead_letter`, called in the loop itself: the enqueue and the wake. -/
def EventLoop.deadLetter {P A : Type} (s : EventLoop P A) : EventLoop P A :=
  { s.push .stop with waker := true }

/-- The server of a service: the pool, and the loop that `notifier` notifies. -/
structure TcpServer (P A M : Type) where
  pool : EventLoopThreadPool M
  loop : EventLoop P A

namespace TcpServer
variable {P A M : Type}

/-- The loop over `listener.accept()`. The service makes a callback for each connection. -/
def acceptLoop (connectionInitCallback : Closure) :
    List (Except IoError (TcpStream × SocketAddr)) → TcpServer P A M →
      Except Fault (TcpServer P A M)
  | [], _ => .error .unfinished
  | .ok (stream, peerAddr) :: outcomes, s => do
    let (pool, n) ← s.pool.nextLoop
    let pool := pool.notify n (.established stream peerAddr connectionInitCallback)
    acceptLoop connectionInitCallback outcomes { s with pool }
  | .error e :: outcomes, s =>
    if e.kind = .wouldBlock then .ok s
    -- accept error
    else acceptLoop connectionInitCallback outcomes { s with loop := s.loop.deadLetter }

/-- An event of the listener runs the accept loop. -/
def handleIoEvent (s : TcpServer P A M) (token : Token) (readable : Bool)
    (connectionInitCallback : Closure)
    (outcomes : List (Except IoError (TcpStream × SocketAddr))) :
    Except Fault (TcpServer P A M) :=
  if token = K_ACCEPT_TOKEN then
    if readable then acceptLoop connectionInitCallback outcomes s else .ok s
  -- unknown event
  else .ok s

end TcpServer

end Ruduo
