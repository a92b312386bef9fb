import Ruduo.Model.Worker
import Mathlib.Logic.Function.Basic

/-!
# `Ruduo.Model.Pool`: the workers of a server or a connector

`TcpServer::start` and `ConnectorService::start`, over `EventLoopThreadPool::start`: each start
gives the dispatcher with the number `seq` the offset `seq * cap`, the notifier of its own loop,
and the map `Shared` that all dispatchers have in common.

The workers run side by side. A step of the pool is a step of one worker. The lock of `Shared`
is a mutex, so what a handler call does under it is one step.
-/

set_option autoImplicit false

namespace Ruduo

open Lib (Slab)

/-- The workers, and the map they share. -/
structure Pool (S : Type → Type) (M : Type) (poolSize : Nat) where
  workers : Fin poolSize → Worker S M
  shared : Shared

namespace Pool
variable {S : Type → Type} [Slab S] {M : Type} {poolSize : Nat}

/-- The pool right after its start. -/
structure Started (cap : Nat) (p : Pool S M poolSize) : Prop where
  shared : p.shared = Shared.new
  worker : ∀ seq, ∃ offset timer, u64Mul seq.val cap = .ok offset ∧
    p.workers seq = Worker.new cap offset seq.val timer

variable [DecidableEq M]

/-- One step of one worker. Its work under the lock is done on the map. -/
def exec (p : Pool S M poolSize) (seq : Fin poolSize) (l : WorkerLabel M) :
    Option (Except Fault (Pool S M poolSize)) :=
  match (p.workers seq).exec l with
  | none => none
  | some (.error f) => some (.error f)
  | some (.ok w) =>
    match l, (p.workers seq).locked with
    | .lock, some locked => some do
      let shared ← locked.run p.shared
      .ok { workers := Function.update p.workers seq w, shared }
    | _, _ => some (.ok { p with workers := Function.update p.workers seq w })

/-- A step that goes through. -/
def Step (p : Pool S M poolSize) (l : Fin poolSize × WorkerLabel M) (p' : Pool S M poolSize) :
    Prop := p.exec l.1 l.2 = some (.ok p')

end Pool

end Ruduo
