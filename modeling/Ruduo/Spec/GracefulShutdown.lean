import Ruduo.Model.WorkerLoop

/-!
# `Ruduo.Spec.GracefulShutdown`: what `graceful_shutdown` leaves, and who is heard after it

`graceful_shutdown` disables reading and writing on every connection. `disabled` says what this
leaves of one connection, in terms of its recorded interests: a stream that is registered without a
recorded interest stays registered. So the poll may still report events for a connection that was
connecting at the time. `StillHeard` lists all connections for which it may.
-/

set_option autoImplicit false

namespace Ruduo

open Lib (Slab)

/-- What `graceful_shutdown` disables. -/
def shutdownMode : Interest := Interest.READABLE.add .WRITABLE

namespace TcpConnection

/-- A recorded interest is registered with the poll. -/
def Backed (c : TcpConnection) : Prop := c.interests.isSome → c.io.registered.isSome

/-- The connection without its interests in reading and writing. Its stream is deregistered when
there was a recorded interest and none is left. -/
def disabled (c : TcpConnection) : TcpConnection :=
  { c with
    interests := c.interests.bind fun i => i.remove shutdownMode
    io := { c.io with
      registered := match c.interests with
        | some i => i.remove shutdownMode
        | none => c.io.registered }
    log := c.log ++ [.disabled shutdownMode] }

/-- The stream is registered with the poll, and no interest is recorded: that is how
`add_connecting` makes a connection. -/
def RegisteredUnrecorded (c : TcpConnection) : Prop := c.interests = none ∧ c.io.registered.isSome

/-- A recorded interest is neither in reading nor in writing. -/
def WatchesOther (c : TcpConnection) : Prop :=
  ∃ i, c.interests = some i ∧ (i.remove shutdownMode).isSome

/-- An interest was enabled since the log was `before`. -/
def EnabledSince (before : List ConnEvent) (c : TcpConnection) : Prop :=
  ∃ events mode, c.log = before ++ events ∧ .enabled mode ∈ events

end TcpConnection

namespace Worker
variable {S : Type → Type} [Slab S] {M : Type}

/-- Of the connections since the dispatcher was `d`, the poll may report events for these: one that
was made since; one on which an interest was enabled since; and one whose registration
`graceful_shutdown` keeps. -/
def StillHeard (d : Dispatcher S M) (token : Token) (c : TcpConnection) : Prop :=
  d.made ≤ c.id ∨ ∃ c₀, d.connAt token = some c₀ ∧ c₀.id = c.id ∧
    (c.EnabledSince c₀.log ∨ c₀.RegisteredUnrecorded ∨ c₀.WatchesOther)

end Worker

end Ruduo
