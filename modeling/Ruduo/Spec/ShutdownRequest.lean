import Ruduo.Spec.Writing

/-!
# `Ruduo.Spec.ShutdownRequest`: a request to shut down

A `Shutdown` message asks for the end of the stream. It should neither cut off bytes that were
sent before it, nor be forgotten. `ShutdownContract` says this of a run of sends, writes and
`Shutdown` messages: a shutdown is carried out only when no byte waits, and one that was asked
for while bytes waited has been carried out whenever no byte waits any more.
-/

set_option autoImplicit false

namespace Ruduo

open Lib (Run Each)

/-- The calls that send, write and shut down. -/
def ConnCall.Transfers {M : Type} : ConnCall M → Prop
  | .send _ _ | .handleWrite _ | .shutdownMessage _ _ => True
  | _ => False

/-- Bytes wait in `output`. -/
def OutputPending (c : TcpConnection) : Prop := c.output.peek ≠ .ok []

namespace Session
variable {M : Type}

/-- A call of this kind that returned. -/
def TransferStep (s : Session M) (l : ConnCall M) (s' : Session M) : Prop :=
  l.Transfers ∧ s.CallStep l s'

/-- No call of the run shuts the stream down while bytes wait. -/
def NeverTruncates (s₀ : Session M) (ls : List (ConnCall M)) : Prop :=
  Each TransferStep
    (fun s _ s' => OutputPending s.conn → s'.conn.io.shutdowns = s.conn.io.shutdowns) s₀ ls

/-- Take a `Shutdown` message of the run that finds bytes waiting. However the run goes on from
there, once no byte waits the shutdown has been carried out. -/
def HonoursRequests (s₀ : Session M) (ls : List (ConnCall M)) : Prop :=
  Each TransferStep (fun s l s' => ∀ how outcome, l = .shutdownMessage how outcome →
    OutputPending s.conn → ∀ ms t, Run TransferStep s' ms t → ¬ OutputPending t.conn →
      how ∈ t.conn.io.shutdowns.drop s.conn.io.shutdowns.length) s₀ ls

/-- What a `Shutdown` message promises, in a run. -/
def ShutdownContract (s₀ : Session M) (ls : List (ConnCall M)) : Prop :=
  NeverTruncates s₀ ls ∧ HonoursRequests s₀ ls

/-- No `Shutdown` message of the run finds bytes waiting. -/
def NoRequestWhilePending (s₀ : Session M) (ls : List (ConnCall M)) : Prop :=
  Each TransferStep (fun s l _ => ∀ how outcome, l = .shutdownMessage how outcome →
    ¬ OutputPending s.conn) s₀ ls

end Session

end Ruduo
