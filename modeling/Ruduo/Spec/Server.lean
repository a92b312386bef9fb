import Ruduo.Lib.RoundRobin
import Ruduo.Lib.Trace
import Ruduo.Model.Server
import Ruduo.Spec.Accepting
import Ruduo.Spec.ConnectionRun
import Ruduo.Spec.Directory

/-!
# `Ruduo.Spec.Server`: what becomes of the streams that a server accepts

The accepted streams are dealt out to the workers in turns. `Server.workerShare` is what one worker
gets. A worker handles the streams of its share one after the other, and makes a connection for each
(`Worker.Serving`), on the socket of the stream and with its callback (`TcpConnection.Serves`).

A shutdown sends one dead letter after the other, each to the loop of a connection that is listed in
the directory (`Server.lettersTo`). Only the service hands connections over in an `UnmixedStep`, and
none arrives at a full slab in a `RoomyStep`.
-/

set_option autoImplicit false

namespace Ruduo

open Lib (Slab Run share)

/-- A stream that was accepted, with the callback that was made for it. -/
structure Arrival where
  stream : TcpStream
  peerAddr : SocketAddr
  connectionInitCallback : Closure
  deriving DecidableEq

/-- The message that hands it over. -/
def Arrival.msg {M : Type} (a : Arrival) : TcpConnMessage M :=
  .established a.stream a.peerAddr a.connectionInitCallback

/-- The stream that a message hands over. -/
def Queued.arrival? {M : Type} (q : Queued M) : Option Arrival :=
  match q.msg with
  | .any (.established stream peerAddr cb) => some ⟨stream, peerAddr, cb⟩
  | _ => none

/-- The stream that is accepted in a step. -/
def ServerLabel.accepted {M : Type} {poolSize : Nat} : ServerLabel M poolSize → List Arrival
  | .accept stream peerAddr cb => [⟨stream, peerAddr, cb⟩]
  | _ => []

/-- The connection is the one that was made for this stream: it was made on the accepted socket,
which was shut down before when the slab was full, and its first call is the callback of the stream,
followed by `on_established`. -/
def TcpConnection.Serves (M : Type) (c : TcpConnection) (a : Arrival) : Prop :=
  ∃ token stream c₀ msgs as ks,
    (stream = a.stream ∨ a.stream.shutdown .both (.ok ()) = .ok stream) ∧
    TcpConnection.make c.id token stream = .ok c₀ ∧
    Run (Called : _ → ConnCall M → _ → Prop) c₀
      (.established a.connectionInitCallback msgs as :: ks) c

variable {S : Type → Type} [Slab S] {M : Type}

/-- The worker gets exactly these streams. It has made a connection for each of the first ones, in
order, and the others are in its queue, in order. -/
structure Worker.Serving (w : Worker S M) (streams : List Arrival) : Prop where
  made : w.dispatcher.made ≤ streams.length
  queue : w.queue.filterMap Queued.arrival? = streams.drop w.dispatcher.made
  /-- The connection number `k` serves the stream number `k`. -/
  live : ∀ token c, w.dispatcher.connAt token = some c →
    ∃ a, streams[c.id]? = some a ∧ c.Serves M a

omit [Slab S] in
/-- This step of the worker enqueues no message that hands over a connection. -/
def Worker.Unmixed (w : Worker S M) : WorkerLabel M → Prop
  | .enqueue (.any msg) => ¬ msg.Arrives
  | .flush => ∀ msg ∈ w.outbox.head?, ¬ msg.Arrives
  | _ => True

namespace Server
variable {poolSize : Nat}

/-- A server right after its start. -/
structure Started (cap : Nat) (s : Server S M poolSize) : Prop where
  threads : s.threads.Started
  size : s.threads.size = poolSize
  next : s.threads.next = 0
  pool : s.pool.Started cap
  listening : s.listening = true
  letters : s.letters = none

/-- A step in which nobody but the service hands over a connection. -/
def UnmixedStep [DecidableEq M] (s : Server S M poolSize) (l : ServerLabel M poolSize)
    (s' : Server S M poolSize) : Prop :=
  s.Step l s' ∧ ∀ seq k, l = .worker seq k → (s.pool.workers seq).Unmixed k

/-- A step in which no connection arrives at a full slab. -/
def RoomyStep [DecidableEq M] (s : Server S M poolSize) (l : ServerLabel M poolSize)
    (s' : Server S M poolSize) : Prop :=
  s.Step l s' ∧ ∀ seq k, l = .worker seq k → (s.pool.workers seq).HasRoom k

end Server

/-- What the worker with this number gets of the accepted streams. -/
def Server.workerShare (poolSize seq : Nat) (streams : List Arrival) : List Arrival :=
  share (2 ^ 64) poolSize seq streams

end Ruduo
