import Ruduo.Model.Worker

/-!
# `Ruduo.Spec.Limit`: the connection limit of a worker

A dispatcher is built for `max_connections_per` connections. `LimitContract` says of a run of
its worker that it never holds more, and that a connection which arrives at a full dispatcher is
rejected: nothing changes, and no callback runs.
-/

set_option autoImplicit false

namespace Ruduo

open Lib (Slab Run Always Each)

/-- Handling the message calls `add_connection` or `add_connecting`. -/
def TcpConnMessage.Adds {M : Type} (env : Env M) : TcpConnMessage M → Prop
  | .established .. => True
  | .connecting .. =>
    match env.peerAddr with
    | .ok _ => True
    | .error e => e.kind = .notConnected ∨ e.rawOsError = some EINPROGRESS
  | _ => False

namespace Worker
variable {S : Type → Type} [Slab S] {M : Type} [DecidableEq M]

omit [Slab S] [DecidableEq M] in
/-- The step calls `add_connection` or `add_connecting`. -/
def CallsAdd (w : Worker S M) : WorkerLabel M → Prop
  | .receive env =>
    match w.queue with
    | { msg := .any msg, .. } :: _ => msg.Adds env
    | _ => False
  | _ => False

omit [DecidableEq M] in
/-- How many connections the worker has. -/
def connections (w : Worker S M) : Nat := Slab.len w.dispatcher.localConnections

omit [DecidableEq M] in
/-- The stream that is handed over in this step is shut down. -/
def ShutsDown (w : Worker S M) : WorkerLabel M → Prop
  | .receive env =>
    match w.queue with
    | { msg := .any (.established stream ..), .. } :: _
    | { msg := .any (.connecting stream ..), .. } :: _ =>
      ∃ p stream', w.dispatcher.rejectIfFull stream p env = .ok stream' ∧
        stream'.shutdowns = stream.shutdowns ++ [.both]
    | _ => False
  | _ => False

/-- The stream is shut down, and nothing else happens. The dispatcher is as before: its
connections with their registrations, its pending callbacks and its timers. There is nothing to
do under the lock of `Shared`. No connection was made, so there was none to run a callback on,
and no message is sent. -/
structure Rejected (w : Worker S M) (l : WorkerLabel M) (w' : Worker S M) : Prop where
  shutdown : w.ShutsDown l
  dispatcher : w'.dispatcher = w.dispatcher
  timer : w'.timer = w.timer
  locked : w'.locked = none
  outbox : w'.outbox = []

/-- The limit is hard, and a rejection is atomic. -/
def LimitContract (cap : Nat) (w₀ : Worker S M) (ls : List (WorkerLabel M)) : Prop :=
  Always Step (fun w => w.connections ≤ cap) w₀ ls ∧
    Each Step (fun w l w' => w.CallsAdd l → cap ≤ w.connections → w.Rejected l w') w₀ ls

/-- Connections only arrive while there is room. -/
def ArrivesBelow (cap : Nat) (w₀ : Worker S M) (ls : List (WorkerLabel M)) : Prop :=
  Each Step (fun w l _ => w.CallsAdd l → w.connections < cap) w₀ ls

end Worker

end Ruduo
