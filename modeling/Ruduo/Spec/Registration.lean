import Ruduo.Lib.Run
import Ruduo.Model.Dispatcher
import Mathlib.Data.Set.Basic

/-!
# `Ruduo.Spec.Registration`: the interests of a connection as a set

The set of readiness kinds that a connection is interested in is what remains of the enables
and disables on it, in order: `interestsOf log`. `Mirrors` says that the recorded interests and
the registration with the poll both are this set.
-/

set_option autoImplicit false

namespace Ruduo

/-- The readiness kinds of a recorded interest. -/
def kinds (o : Option Interest) : Set (Fin 8) :=
  {k | ∃ i, o = some i ∧ i.bits.getLsbD k.val = true}

/-- What an event does to the set of enabled readiness kinds. -/
def applyEvent (s : Set (Fin 8)) : ConnEvent → Set (Fin 8)
  | .enabled mode => s ∪ kinds (some mode)
  | .disabled mode => s \ kinds (some mode)
  | _ => s

/-- The readiness kinds that are enabled after these events. -/
def interestsOf (log : List ConnEvent) : Set (Fin 8) := log.foldl applyEvent ∅

/-- The recorded interests are those of the registration, and those that the enables and
disables leave. -/
structure Mirrors (c : TcpConnection) : Prop where
  registered : c.interests = c.io.registered
  kinds_eq : kinds c.interests = interestsOf c.log

/-- The calls on a connection. A dispatcher makes them for readiness events, messages and
timers, and when it shuts down. -/
inductive ConnCall (M : Type) where
  /-- Also an `Enable` message. -/
  | enableIo (mode : Interest)
  /-- Also a `Disable` message, and `graceful_shutdown`. -/
  | disableIo (mode : Interest)
  /-- Also a `Write` message. -/
  | send (data : List UInt8) (outcomes : List (Except IoError Nat))
  /-- A readable event. -/
  | handleRead (outcomes : List (Except IoError (List UInt8))) (as : List (Act M))
      (closing : List (TcpConnMessage M))
  /-- A writable event. -/
  | handleWrite (outcomes : List (Except IoError Nat))
  /-- A `WriteComplete` message. -/
  | onWriteComplete (as : List (Act M))
  /-- A `Shutdown` message. -/
  | shutdownMessage (how : Shutdown) (outcome : Except IoError Unit)
  /-- A `SetContext` message. -/
  | context (f : Closure) (msgs : List (TcpConnMessage M))
  /-- The closure of a timer. -/
  | timer (f : Closure) (as : List (Act M))
  /-- The setup callback, and `on_established`. -/
  | established (cb : Closure) (msgs : List (TcpConnMessage M)) (as : List (Act M))

/-- The events that a call may record, besides enables and disables. -/
def ConnCall.Records {M : Type} : ConnCall M → ConnEvent → Prop
  | .handleRead _ _ _, e => e = .reading ∨ e = .closed ∨ e = .readComplete
  | .onWriteComplete _, e => e = .writeComplete
  | .context f _, e => e = .context f
  | .timer f _, e => e = .timer f
  | .established cb _ _, e => e = .setup cb ∨ e = .established
  | _, _ => False

namespace Session
variable {M : Type}

/-- One call. -/
def call (s : Session M) : ConnCall M → Except Fault (Session M)
  | .enableIo mode => s.enableIo mode
  | .disableIo mode => s.disableIo mode
  | .send data outcomes => s.send data outcomes
  | .handleRead outcomes as closing => s.handleRead outcomes as closing
  | .handleWrite outcomes => s.handleWrite outcomes
  | .onWriteComplete as => s.onWriteComplete as
  | .shutdownMessage how outcome => s.shutdownMessage how outcome
  | .context f msgs => .ok (s.context f msgs)
  | .timer f as => s.timer f as
  | .established cb msgs as => (s.setup cb msgs).onEstablished as

/-- A call that returned. -/
def CallStep (s : Session M) (l : ConnCall M) (s' : Session M) : Prop := s.call l = .ok s'

end Session

end Ruduo
