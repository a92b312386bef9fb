import Ruduo.Model.Service
import Ruduo.Spec.Traffic

/-!
# `Ruduo.Spec.Accepting`: what a readable listener brings about

The service accepts what there is to accept. Each accepted stream is announced to one loop of
the pool, and an accept error asks the loop of the service to stop. A message is looked at only
after the handler call, so the call has to return for the `Stop` to be heeded.
-/

set_option autoImplicit false

namespace Ruduo

open Lib (Emits Run)

/-- The streams among the outcomes of `accept`. -/
def acceptedStreams (outcomes : List (Except IoError (TcpStream × SocketAddr))) :
    List (TcpStream × SocketAddr) :=
  outcomes.filterMap Except.toOption

/-- Before the next poll the loop dequeues a `Stop`, whatever the handler and the other threads
do in between. -/
def EventLoop.Heeds {P A : Type} [DecidableEq P] (s : EventLoop P A) : Prop :=
  ∀ ls os t, Emits Step traffic s ls os t → t.pc = .top → .stop ∈ Traffic.handedOf os

/-- The pool has at least one loop, and all of them run: `start` made `size` of them, and that
is not zero. -/
structure EventLoopThreadPool.Started {M : Type} (p : EventLoopThreadPool M) : Prop where
  pos : 0 < p.size
  length : p.pool.length = p.size

/-- Between the two states of the pool each of the streams was announced once, to one loop, and
nothing else was sent. -/
def EventLoopThreadPool.Announces {M : Type} (p p' : EventLoopThreadPool M) (cb : Closure)
    (streams : List (TcpStream × SocketAddr)) : Prop :=
  ∃ loops : List Nat, loops.length = streams.length ∧ (∀ n ∈ loops, n < p.pool.length) ∧
    p'.pool.length = p.pool.length ∧
    ∀ n (h : n < p.pool.length) (h' : n < p'.pool.length),
      p'.pool[n] = p.pool[n] ++ ((loops.zip streams).filter fun a => a.1 = n).map
        fun a => .established a.2.1 a.2.2 cb

/-- The handler call for the listener returns after finitely many calls of `accept`. By then it
has announced each accepted stream, what it did to its own loop are steps of the loop, and the
loop heeds the `Stop` of an accept error. -/
def TcpServer.Accepts {P A M : Type} [DecidableEq P] (s : TcpServer P A M) (cb : Closure)
    (outcomes : Nat → Except IoError (TcpStream × SocketAddr)) : Prop :=
  ∃ k s', s.handleIoEvent K_ACCEPT_TOKEN true cb ((List.range k).map outcomes) = .ok s' ∧
    s.pool.Announces s'.pool cb (acceptedStreams ((List.range k).map outcomes)) ∧
    (∃ ls, Run EventLoop.Step s.loop ls s'.loop) ∧
    ((∃ n < k, ∃ e, outcomes n = .error e ∧ e.kind ≠ .wouldBlock) → s'.loop.Heeds)

end Ruduo
