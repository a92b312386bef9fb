import Ruduo.Model.Fault

/-!
# `Ruduo.Model.Mio`: what the crate uses of mio and of the operating system

* `Interest`: a nonempty set of readiness kinds, as bits.
* `TcpStream`: a socket. It knows under which interests it is registered with the poll, and
  what it has accepted for writing.
* `Registry.register`, `Registry.reregister`, `Registry.deregister`: the poll refuses to
  register a registered source, and to change or end the registration of an unregistered one.
  Nothing else is refused.

The poll itself is not modelled: which events it reports is the choice of a run.
-/

set_option autoImplicit false

namespace Ruduo

/-- The number of a source of events. -/
abbrev Token := Nat

/-- An address, by its number. -/
abbrev SocketAddr := Nat

/-- The kinds of `std::io::Error` that the crate tells apart, and some that it does not. -/
inductive ErrorKind where
  | wouldBlock
  | notConnected
  | alreadyExists
  | notFound
  | brokenPipe
  | connectionReset
  | interrupted
  | other
  deriving DecidableEq, Repr

/-- An error of the operating system. -/
structure IoError where
  kind : ErrorKind
  rawOsError : Option Nat
  deriving DecidableEq, Repr

/-- `libc::EINPROGRESS` -/
def EINPROGRESS : Nat := 115

/-- `r.expect(text)`, or `unwrap`. -/
def expect {α : Type} (p : Panic) : Except IoError α → Except Fault α
  | .ok a => .ok a
  | .error _ => .error (.panicked p)

/-- A nonempty set of readiness kinds. -/
structure Interest where
  bits : BitVec 8
  ne_zero : bits ≠ 0
  deriving DecidableEq

namespace Interest

/-- The interest in reading. -/
def READABLE : Interest := ⟨1, by decide⟩

/-- The interest in writing. -/
def WRITABLE : Interest := ⟨2, by decide⟩

/-- The union. -/
def add (i j : Interest) : Interest :=
  ⟨i.bits ||| j.bits, fun h => i.ne_zero (BitVec.or_eq_zero_iff.mp h).1⟩

/-- The difference, or `none` when nothing is left. -/
def remove (i j : Interest) : Option Interest :=
  if h : i.bits &&& ~~~j.bits ≠ 0 then some ⟨i.bits &&& ~~~j.bits, h⟩ else none

/-- The interest includes reading. -/
def isReadable (i : Interest) : Bool := i.bits &&& READABLE.bits != 0

/-- The interest includes writing. -/
def isWritable (i : Interest) : Bool := i.bits &&& WRITABLE.bits != 0

/-- A test of one bit. -/
theorem isReadable_eq (i : Interest) : i.isReadable = i.bits.getLsbD 0 := by
  have h : ∀ b : BitVec 8, (b &&& 1 != 0) = b.getLsbD 0 := by decide
  exact h i.bits

/-- A test of one bit. -/
theorem isWritable_eq (i : Interest) : i.isWritable = i.bits.getLsbD 1 := by
  have h : ∀ b : BitVec 8, (b &&& 2 != 0) = b.getLsbD 1 := by decide
  exact h i.bits

/-- A union reads when one of its parts does. -/
@[simp] theorem isReadable_add (i j : Interest) :
    (i.add j).isReadable = (i.isReadable || j.isReadable) := by
  simp [isReadable_eq, add]

/-- A union writes when one of its parts does. -/
@[simp] theorem isWritable_add (i j : Interest) :
    (i.add j).isWritable = (i.isWritable || j.isWritable) := by
  simp [isWritable_eq, add]

/-- A test of one bit, after a removal: the bit was there, and was not removed. -/
theorem elim_remove {f : Interest → Bool} {k : Nat} (hk : k < 8)
    (hf : ∀ i, f i = i.bits.getLsbD k) (i j : Interest) :
    (i.remove j).elim false f = (f i && !f j) := by
  have hbit : (i.bits &&& ~~~j.bits).getLsbD k = (f i && !f j) := by
    rw [hf, hf, BitVec.getLsbD_and, BitVec.getLsbD_not]
    simp [hk]
  unfold remove
  split
  · exact (hf _).trans hbit
  · -- Nothing is left: the bit is not set.
    rename_i hzero
    rw [ne_eq, Decidable.not_not] at hzero
    rw [← hbit, hzero]
    simp

end Interest

/-- Which directions of a stream are shut down. -/
inductive Shutdown where
  | read
  | write
  | both
  deriving DecidableEq, Repr

/-- A socket. -/
structure TcpStream where
  /-- The interests under which the poll watches the socket. -/
  registered : Option Interest
  /-- The bytes the socket has accepted for writing so far. -/
  accepted : List UInt8
  /-- The shutdowns that were carried out. -/
  shutdowns : List Shutdown
  deriving DecidableEq

namespace TcpStream

/-- A socket that was just accepted, or that is just connecting. -/
def fresh : TcpStream := { registered := none, accepted := [], shutdowns := [] }

/-- `stream.write(buf)`. The outcome `ok n` says that the socket has room for `n` bytes: it
accepts the first `n` bytes of `buf`, or all of it. -/
def write (s : TcpStream) (buf : List UInt8) (outcome : Except IoError Nat) :
    TcpStream × Except IoError Nat :=
  match outcome with
  | .ok n => ({ s with accepted := s.accepted ++ buf.take n }, .ok (min n buf.length))
  | .error e => (s, .error e)

/-- `stream.shutdown(how)`. The operating system may refuse. -/
def shutdown (s : TcpStream) (how : Shutdown) (outcome : Except IoError Unit) :
    Except IoError TcpStream := do
  outcome
  .ok { s with shutdowns := s.shutdowns ++ [how] }

end TcpStream

namespace Registry

/-- A stream is registered once. -/
def register (s : TcpStream) (i : Interest) : Except IoError TcpStream :=
  match s.registered with
  | none => .ok { s with registered := some i }
  | some _ => .error { kind := .alreadyExists, rawOsError := none }

/-- A registration is changed, if there is one. -/
def reregister (s : TcpStream) (i : Interest) : Except IoError TcpStream :=
  match s.registered with
  | some _ => .ok { s with registered := some i }
  | none => .error { kind := .notFound, rawOsError := none }

/-- A registration is ended, if there is one. -/
def deregister (s : TcpStream) : Except IoError TcpStream :=
  match s.registered with
  | some _ => .ok { s with registered := none }
  | none => .error { kind := .notFound, rawOsError := none }

end Registry

end Ruduo
