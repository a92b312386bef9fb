import Ruduo.Spec.Lifecycle

/-!
# `Ruduo.Spec.Delivery`: to whom a message is delivered

A message names its connection by a token. When the connection is removed, its token goes to
the next connection that gets its key. `DeliveredByToken` says what handling a message does:
everything happens to the connection that holds the token then. It also says how this
connection relates to the one that held the token when the message was enqueued.
-/

set_option autoImplicit false

namespace Ruduo

open Lib (Slab)

variable {S : Type → Type} [Slab S] {M : Type}

/-- The connection made with this `id` is live. -/
def Worker.Live (w : Worker S M) (id : Nat) : Prop :=
  ∃ key c, Slab.get w.dispatcher.localConnections key = some c ∧ c.id = id

/-- Handling the queued message `q`, which asks for the call `k` on `token`, leads from `w` to
`w'`. -/
structure DeliveredByToken (w w' : Worker S M) (q : Queued M) (token : Token)
    (k : ConnCall M) : Prop where
  /-- No connection with another token changes. -/
  others : ∀ t, t ≠ token → w'.dispatcher.connAt t = w.dispatcher.connAt t
  /-- Nothing happens when no connection holds the token. -/
  nobody : w.dispatcher.connAt token = none → w'.dispatcher = w.dispatcher ∧ w'.outbox = []
  /-- The call is made on the connection that holds the token. -/
  holder : ∀ c, w.dispatcher.connAt token = some c →
    ∃ s : Session M, ({ conn := c, sent := [] } : Session M).call k = .ok s ∧
      w'.dispatcher.connAt token = some s.conn ∧ w'.outbox = s.sent
  /-- The connection that the message was enqueued for holds the token as long as it lives. -/
  target_live : ∀ id, q.target = some id → w.Live id →
    ∃ c, w.dispatcher.connAt token = some c ∧ c.id = id
  /-- Another holder was made later, after that connection was removed. -/
  target_gone : ∀ id c, q.target = some id → w.dispatcher.connAt token = some c → c.id ≠ id →
    id < c.id ∧ ¬ w.Live id

end Ruduo
