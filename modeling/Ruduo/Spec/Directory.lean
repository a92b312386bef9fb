import Ruduo.Model.Pool

/-!
# `Ruduo.Spec.Directory`: which loop a connection belongs to

The map `Shared` is a directory of the live connections of all dispatchers. A handler call
changes the slab of its dispatcher first and the directory later, under the lock. `Worker.Listed`
says which tokens of a worker the directory holds, also in between.
-/

set_option autoImplicit false

namespace Ruduo

open Lib (Slab)

variable {S : Type → Type} [Slab S] {M : Type}

/-- A connection is live under this token. -/
def Worker.HasToken (w : Worker S M) (token : Token) : Prop :=
  ∃ c, w.dispatcher.connAt token = some c

/-- The directory holds this token for the worker. While a connection is being added its token
is not yet there. While one is being removed it is still there. -/
def Worker.Listed (w : Worker S M) (token : Token) : Prop :=
  match w.locked with
  | none => w.HasToken token
  | some (.add added _) => w.HasToken token ∧ token ≠ added
  | some (.remove removed _) => w.HasToken token ∨ token = removed

omit [Slab S] in
/-- The message hands over a connection. -/
def TcpConnMessage.Arrives : TcpConnMessage M → Prop
  | .established .. | .connecting .. => True
  | _ => False

/-- A connection that arrives in this step finds the slab below its capacity. -/
def Worker.HasRoom (w : Worker S M) : WorkerLabel M → Prop
  | .receive _ =>
    match w.queue with
    | { msg := .any msg, .. } :: _ => msg.Arrives →
      Slab.len w.dispatcher.localConnections < Slab.capacity w.dispatcher.localConnections
    | _ => True
  | _ => True

/-- The directory and the slabs agree. -/
structure Pool.DirectoryAgrees {poolSize : Nat} [DecidableEq M] (cap : Nat)
    (p : Pool S M poolSize) : Prop where
  /-- Outside the calls that add and remove, the directory maps the tokens of the live
  connections to the notifiers of their dispatchers, and nothing else. -/
  outside_calls : (∀ seq, (p.workers seq).locked = none) → ∀ token noti,
    p.shared.getLoopNotifier token = some noti ↔
      ∃ seq, (p.workers seq).HasToken token ∧ noti = (p.workers seq).dispatcher.localNotifier
  /-- In between, a token is missing while it is added, and still there while it is removed. -/
  during_calls : ∀ token noti, p.shared.getLoopNotifier token = some noti ↔
    ∃ seq, (p.workers seq).Listed token ∧ noti = (p.workers seq).dispatcher.localNotifier
  /-- The live tokens of the dispatcher `seq` are in its range. -/
  range : ∀ seq token, (p.workers seq).HasToken token →
    seq.val * cap ≤ token ∧ token < (seq.val + 1) * cap
  /-- No two live connections share a token. -/
  distinct : ∀ seq seq' key key' c c',
    Slab.get (p.workers seq).dispatcher.localConnections key = some c →
    Slab.get (p.workers seq').dispatcher.localConnections key' = some c' →
    c.token = c'.token → seq = seq' ∧ key = key'
  /-- `Shared::add_connection` does not panic. -/
  dispatched_once : ∀ seq token,
    p.exec seq .lock ≠ some (.error (.panicked (.alreadyDispatched token)))

/-- A step of the pool in which no connection arrives at a full slab. -/
def Pool.RoomyStep {poolSize : Nat} [DecidableEq M] (p : Pool S M poolSize)
    (l : Fin poolSize × WorkerLabel M) (p' : Pool S M poolSize) : Prop :=
  p.Step l p' ∧ (p.workers l.1).HasRoom l.2

end Ruduo
