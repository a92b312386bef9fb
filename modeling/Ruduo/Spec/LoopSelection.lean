import Ruduo.Model.ThreadPool

/-!
# `Ruduo.Spec.LoopSelection`: a pool always has a next loop

The owner of a pool sets its size and starts it, and threads ask it for the next loop. A pool that
has loops must give one of them out, whatever the counter has come to.

The runs are those of the calls on one pool, from a new one on. A start may fail at any of its
threads. A run goes on after an error, and after a panic, which the caller may catch.

A connector asks its own pool for a loop each time it has connected a stream. Its runs are those
of its `start` and `connect`.
-/

set_option autoImplicit false

namespace Ruduo

open Lib (Slab)

namespace EventLoopThreadPool
variable {H M : Type}

/-- A pool that was just made, with a size that is a `usize`. -/
inductive Fresh : EventLoopThreadPool M → Prop where
  | new {size : Nat} {p : EventLoopThreadPool M} (hsize : size ≤ u64Max)
      (h : EventLoopThreadPool.new size = .ok p) : Fresh p
  | default : Fresh default

/-- The calls on a pool. The handles of the threads have the type `H`. -/
inductive PoolCall (H : Type) where
  | setPoolSize (size : Nat)
  | start (f : Nat → Nat → Except Fault H) (envs : Nat → SpawnEnv)
  | nextLoop

/-- The argument is a `usize`. -/
def PoolCall.IsUsize : PoolCall H → Prop
  | .setPoolSize size => size ≤ u64Max
  | _ => True

/-- The pool after a call. When the call panics, it keeps what was done before. -/
def after (p : EventLoopThreadPool M) : PoolCall H → EventLoopThreadPool M
  | .setPoolSize size =>
    match p.setPoolSize size with
    | .ok p => p
    | .error _ => p
  | .start f envs => (p.start f envs).1
  | .nextLoop =>
    match p.nextLoop with
    | .ok (p, _) => p
    | .error .assertion => p
    -- The counter has gone on when the index is computed.
    | .error _ => { p with next := (p.next + 1) % 2 ^ 64 }

/-- Every call, also one that fails or panics. -/
def Step (p : EventLoopThreadPool M) (c : PoolCall H) (p' : EventLoopThreadPool M) : Prop :=
  c.IsUsize ∧ p' = p.after c

/-- Whatever the value of the counter, `next_loop` gives out one of the loops of the pool, unless
there is none. -/
def Selects (p : EventLoopThreadPool M) : Prop :=
  p.pool ≠ [] → ∀ next ≤ u64Max, ∃ p' n,
    ({ p with next } : EventLoopThreadPool M).nextLoop = .ok (p', n) ∧ n < p.pool.length ∧
      p'.pool = p.pool

/-- How many of these threads a start spawns before the first one that fails. The next notifier is
`noti`. -/
def spawned (M : Type) (f : Nat → Nat → Except Fault H) (envs : Nat → SpawnEnv) :
    List Nat → Nat → Nat
  | [], _ => 0
  | i :: is, noti =>
    match EventLoopThread.spawn (M := M) i noti f (envs i) with
    | .ok (.ok _) => spawned M f envs is (noti + 1) + 1
    | _ => 0

/-- The threads that run already and those that a start spawns before one fails are none, or at
least as many as the size says. -/
def Fills (p : EventLoopThreadPool M) : PoolCall H → Prop
  | .start f envs =>
    let k := spawned M f envs (List.range p.size) p.pool.length
    p.pool.length + k = 0 ∨ p.size ≤ p.pool.length + k
  | _ => True

end EventLoopThreadPool

/-- The calls on a connector. -/
inductive ConnectorCall where
  | start (envs : Nat → SpawnEnv)
  | connect (addr : String) (parsed : Option SocketAddr) (stream : Except IoError TcpStream)
      (f : Closure)

namespace ConnectorService
variable {M : Type}

/-- A call leaves this connector. A `start` does so in any case. -/
def Step (S : Type → Type) [Slab S] (s : ConnectorService M) :
    ConnectorCall → ConnectorService M → Prop
  | .start envs, s' => s' = (s.start S envs).1
  | .connect addr parsed stream f, s' => ∃ r, s.connect addr parsed stream f = .ok (s', r)

/-- A start of the connector fills its pool. -/
def Fills (S : Type → Type) [Slab S] (s : ConnectorService M) : ConnectorCall → Prop
  | .start envs => s.pool.Fills (.start (s.makeDispatcher S) envs)
  | _ => True

/-- A connector with threads passes every stream that it connects to one of them. -/
def Connects (s : ConnectorService M) : Prop :=
  s.pool.pool ≠ [] → ∀ addr parsed stream f, ∃ s' n,
    s.connect addr (some parsed) (.ok stream) f = .ok (s', .ok ()) ∧ n < s.pool.pool.length ∧
      s'.pool.pool = s.pool.pool.modify n fun msgs => msgs ++ [.connecting stream parsed f]

end ConnectorService

end Ruduo
