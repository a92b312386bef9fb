import Ruduo.Spec.Announcement
import Ruduo.Spec.ConnectionRun
import Ruduo.Spec.OutgoingStream

/-!
# `Ruduo.Spec.ByteStreams`: the two byte streams of a connection in a worker

Out: the bytes that the socket has accepted, followed by those that wait in `output`. `Carries` says
what the sends add to it. In: the bytes that `handle_read` receives, of which the callbacks take
some out of `input`.

`ConnCall.sends`, `ConnCall.received` and `ConnCall.taken` say of a call what it sends, what it
receives and how much it takes.
-/

set_option autoImplicit false

namespace Ruduo

/-- A call of `send`: the data, and what the socket answers. -/
structure SendCall where
  data : List UInt8
  outcomes : List (Except IoError Nat)

/-- What these sends add to the outgoing stream: the data of each, in order. Where the answers given
to a send fail after the socket has accepted a part of the data, this part may come once more.
Whether it does is left open here: a send that only appends does not ask the socket. -/
inductive Carries : List SendCall → List UInt8 → Prop where
  | nil : Carries [] []
  | cons {xs : List SendCall} {bytes : List UInt8} (x : SendCall) (part : List UInt8)
    (hpart : part = [] ∨ part = x.data.take (Session.acceptedBeforeFailure x.data.length 0
      x.outcomes)) (hrest : Carries xs bytes) :
    Carries (x :: xs) (part ++ x.data ++ bytes)

/-- The socket never fails after it has accepted a part of the data. -/
def SendCall.Clean (x : SendCall) : Prop :=
  Session.acceptedBeforeFailure x.data.length 0 x.outcomes = 0

section
variable {M : Type}

/-- The sends of a callback. -/
def actSends (as : List (Act M)) : List SendCall :=
  as.filterMap fun a => match a with
    | .send data outcomes => some { data, outcomes }
    | _ => none

namespace ConnCall

/-- The sends of a call. -/
def sends : ConnCall M → List SendCall
  | .send data outcomes => [{ data, outcomes }]
  | .handleRead outcomes as _ => if announces outcomes then actSends as else []
  | .onWriteComplete as | .timer _ as | .established _ _ as => actSends as
  | _ => []

/-- The bytes that a call receives from the socket. -/
def received : ConnCall M → List UInt8
  | .handleRead outcomes _ _ => Ruduo.received outcomes
  | _ => []

/-- How many bytes a call takes out of `input`. -/
def taken : ConnCall M → Nat
  | .handleRead outcomes as _ => if announces outcomes then retrieved as else 0
  | .onWriteComplete as | .timer _ as | .established _ _ as => retrieved as
  | _ => 0

end ConnCall

namespace TcpConnection

/-- From `c` to `c'` the outgoing stream grows by what these sends carry. -/
def Streams (c c' : TcpConnection) (xs : List SendCall) : Prop :=
  ∀ bytes, c.output.Holds bytes → ∃ bytes' added, c'.output.Holds bytes' ∧ Carries xs added ∧
    c'.io.accepted ++ bytes' = c.io.accepted ++ bytes ++ added

/-- From `c` to `c'` these bytes are received, and `n` bytes are taken from the front. -/
def Reads (c c' : TcpConnection) (got : List UInt8) (n : Nat) : Prop :=
  ∀ bytes, c.input.Holds bytes →
    n ≤ (bytes ++ got).length ∧ c'.input.Holds ((bytes ++ got).drop n)

end TcpConnection

end

end Ruduo
