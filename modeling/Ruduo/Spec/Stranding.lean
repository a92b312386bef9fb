import Ruduo.Spec.Announcement

/-!
# `Ruduo.Spec.Stranding`: output that is left behind

`handle_write` does nothing on a connection that is not interested in `WRITABLE`. Bytes that wait
on such a connection are `Stranded`: only a later `send` gets them going again. `Withdraws` says
which calls withdraw the interest, whether bytes wait or not. Here the callbacks are `Steady`: they
neither send nor enable `WRITABLE` themselves.
-/

set_option autoImplicit false

namespace Ruduo

/-- Bytes wait in `output`. -/
def Waits (c : TcpConnection) : Prop := ∃ bytes, c.output.peek = .ok bytes ∧ bytes ≠ []

/-- They wait, and the connection is not interested in `WRITABLE`. -/
def Stranded (c : TcpConnection) : Prop := Waits c ∧ isWriting c.interests = false

section
variable {M : Type}

/-- The act does not send, and does not enable `WRITABLE`. -/
def Act.Steady : Act M → Prop
  | .send _ _ => False
  | .enableIo mode => mode.isWritable = false
  | _ => True

/-- The act withdraws the interest in writing. -/
def Act.Withdraws : Act M → Prop
  | .disableIo mode => mode.isWritable = true
  | _ => False

namespace ConnCall

/-- The call is not a callback that sends or enables `WRITABLE`. -/
def Steady : ConnCall M → Prop
  | .enableIo mode => mode.isWritable = false
  | .handleRead _ as _ | .onWriteComplete as | .timer _ as | .established _ _ as =>
    ∀ a ∈ as, a.Steady
  | _ => True

/-- The call withdraws the interest in `WRITABLE`: the user does, or the read met the end of the
stream. -/
def Withdraws : ConnCall M → Prop
  | .disableIo mode => mode.isWritable = true
  | .handleRead outcomes as _ =>
    meetsEof outcomes = true ∨ announces outcomes = true ∧ ∃ a ∈ as, a.Withdraws
  | .onWriteComplete as | .timer _ as | .established _ _ as => ∃ a ∈ as, a.Withdraws
  | _ => False

/-- The call is a `Write` message. -/
def IsSend : ConnCall M → Prop
  | .send _ _ => True
  | _ => False

end ConnCall

end

end Ruduo
