import Ruduo.Lib.Run
import Ruduo.Model.Connection
import Ruduo.Spec.ByteQueue

/-!
# `Ruduo.Spec.OutgoingStream`: what a connection owes its sender

A connection sends with `send` and writes with `handle_write`. `StreamIntegrity` says that,
whenever such a call has returned, the bytes that the socket has accepted, followed by those
that wait in `output`, are exactly the bytes sent, in order, and that a `WriteComplete` message
is enqueued only when no byte waits any more.
-/

set_option autoImplicit false

namespace Ruduo

open Lib (Run)

/-- The calls that send and write, with what the socket answers. -/
inductive OutCall where
  | send (data : List UInt8) (outcomes : List (Except IoError Nat))
  | handleWrite (outcomes : List (Except IoError Nat))

/-- The bytes that a call is asked to send. -/
def OutCall.data : OutCall → List UInt8
  | .send data _ => data
  | .handleWrite _ => []

/-- The bytes that these calls are asked to send. -/
def payload (ls : List OutCall) : List UInt8 := ls.flatMap OutCall.data

namespace Session
variable {M : Type}

/-- A call that moves bytes out. -/
def outCall (s : Session M) : OutCall → Except Fault (Session M)
  | .send data outcomes => s.send data outcomes
  | .handleWrite outcomes => s.handleWrite outcomes

/-- A call that returned. -/
def OutStep (s : Session M) (l : OutCall) (s' : Session M) : Prop := s.outCall l = .ok s'

/-- After the calls `ls` from `s₀`, the bytes accepted and those that wait are the bytes
sent. -/
def Intact (s₀ s : Session M) (ls : List OutCall) : Prop :=
  ∃ bytes, s.conn.output.peek = .ok bytes ∧
    s.conn.io.accepted ++ bytes = s₀.conn.io.accepted ++ payload ls

/-- A call enqueues nothing, or a `WriteComplete` when no byte waits. -/
def CompletesEmpty (s s' : Session M) : Prop :=
  s'.sent = s.sent ∨
    (s'.sent = s.sent ++ [.writeComplete s.conn.token] ∧ s'.conn.output.peek = .ok [])

/-- The outgoing stream is intact after each of the calls. -/
def StreamIntegrity (s₀ : Session M) (ls : List OutCall) : Prop :=
  ∀ ls₁ l ls₂ s s', ls = ls₁ ++ l :: ls₂ → Run OutStep s₀ ls₁ s → OutStep s l s' →
    Intact s₀ s' (ls₁ ++ [l]) ∧ CompletesEmpty s s'

/-- How many of `len` bytes, `written` of them already accepted, the socket accepts before it
answers with an error other than `WouldBlock`; 0 when it does not. -/
def acceptedBeforeFailure (len : Nat) : Nat → List (Except IoError Nat) → Nat
  | _, [] => 0
  | written, .ok n :: outcomes =>
    if min n (len - written) = len - written then 0
    else acceptedBeforeFailure len (written + min n (len - written)) outcomes
  | written, .error e :: _ => if e.kind = .wouldBlock then 0 else written

/-- The call writes to the socket directly, and the socket fails for another reason than
`WouldBlock` after it has accepted a part of the data. -/
def FailsMidway (s : Session M) : OutCall → Prop
  | .send data outcomes =>
    isWriting s.conn.interests = false ∧ s.conn.output.peek = .ok [] ∧
      0 < acceptedBeforeFailure data.length 0 outcomes
  | .handleWrite _ => False

/-- None of the calls fails midway. -/
def NeverFailsMidway (s₀ : Session M) (ls : List OutCall) : Prop :=
  ∀ ls₁ l ls₂ s s', ls = ls₁ ++ l :: ls₂ → Run OutStep s₀ ls₁ s → OutStep s l s' →
    ¬ FailsMidway s l

end Session

end Ruduo
