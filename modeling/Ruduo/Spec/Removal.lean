import Ruduo.Spec.Delivery
import Ruduo.Spec.OneShot

/-!
# `Ruduo.Spec.Removal`: what is left of a removed connection

A connection is known by its token in several places: under it a setup callback may wait, timers
name it, and `Shared` maps it to a loop. `RemovalContract` says of a run that the removal of a
connection leaves nothing of this behind, and that no callback or closure of one connection runs on
another one. A timer is registered by the connection that its message designates when it is
enqueued. The message may be handled after this connection was removed.

`RemovesUnreferenced` describes the runs in which a removal has nothing to leave behind, and
`AddsLive` those in which no timer is added for a connection that has gone.
-/

set_option autoImplicit false

namespace Ruduo

open Lib (Slab Run Each)

namespace Worker
variable {S : Type → Type} [Slab S] {M : Type} [DecidableEq M]

omit [Slab S] in
/-- No setup callback waits under the token, and no timer is for it. -/
def Unreferenced (w : Worker S M) (token : Token) : Prop :=
  token ∉ w.dispatcher.pendings ∧
    ∀ repeats mark timeout f, w.dispatcher.kept repeats mark ≠ some (timeout, token, f)

omit [Slab S] in
/-- When the step removes a connection, nothing refers to its token afterwards, and nothing in
`Shared` once the call has done its work under the lock. -/
def RemovesAll (w : Worker S M) (l : WorkerLabel M) (w' : Worker S M) : Prop :=
  ∀ token, w.Receives l (.removed token) → w'.Unreferenced token ∧
    ∃ locked, w'.locked = some locked ∧ ∀ s s', locked.run s = .ok s' → token ∉ s'.connToLoop

omit [Slab S] [DecidableEq M] in
/-- The step handles a message that adds a timer with the closure `f`, and that was enqueued for the
connection `id`. -/
def Registers (w : Worker S M) : WorkerLabel M → Nat → Closure → Prop
  | .receive _, id, f => ∃ msg q queue,
    w.queue = { msg := .any msg, target := some id } :: queue ∧ msg.request = some q ∧ q.f = f
  | _, _, _ => False

/-- The closure of a timer runs on the connection that has registered it, and on no other. -/
def TimersStay (w₀ : Worker S M) (ls : List (WorkerLabel M)) : Prop :=
  ∀ ls₁ l ls₂ w w₁ id f, ls = ls₁ ++ l :: ls₂ → Run (FreshStep f) w₀ ls₁ w → w.Step l w₁ →
    w.Registers l id f → Each (FreshStep f) (fun t _ u => ∀ token c,
      t.dispatcher.connAt token = some c → t.RanTimer u token f → c.id = id) w₁ ls₂

/-- A setup callback that waited runs on the connection that was handed over with it. -/
def SetupsStay (w₀ : Worker S M) (ls : List (WorkerLabel M)) : Prop :=
  Each Step (fun t _ u => ∀ token c c' f, t.dispatcher.connAt token = some c →
    u.dispatcher.connAt token = some c' → c.log ++ [.setup f] <+: c'.log →
    .connecting f ∈ c.log) w₀ ls

/-- Nothing of a connection outlives it. -/
structure RemovalContract (w₀ : Worker S M) (ls : List (WorkerLabel M)) : Prop where
  /-- A `Removed` message takes its connection out completely. -/
  removes : Each Step RemovesAll w₀ ls
  /-- A timer only runs on the connection that registered it. -/
  timers : w₀.TimersStay ls
  /-- A setup callback only runs on the connection that it waited for. -/
  setups : w₀.SetupsStay ls

/-- A connection is only removed when neither a setup callback nor a timer is there for it. -/
def RemovesUnreferenced (w₀ : Worker S M) (ls : List (WorkerLabel M)) : Prop :=
  Each Step (fun w l _ => ∀ token, w.Receives l (.removed token) → w.Unreferenced token) w₀ ls

/-- A message that adds a timer is only handled while the connection is live that it was enqueued
for. -/
def AddsLive (w₀ : Worker S M) (ls : List (WorkerLabel M)) : Prop :=
  Each Step (fun w l _ => ∀ id f, w.Registers l id f → w.Live id) w₀ ls

/-- Whatever a connection has registered is done with before it goes. -/
structure LeavesNothing (w₀ : Worker S M) (ls : List (WorkerLabel M)) : Prop where
  removes : w₀.RemovesUnreferenced ls
  adds : w₀.AddsLive ls

end Worker

end Ruduo
