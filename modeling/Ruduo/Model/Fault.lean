import Mathlib.Algebra.Group.Nat.Defs

/-!
# `Ruduo.Model.Fault`: calls that do not return, and checked machine integers

A Rust call that panics, or that is still looping when the behaviour it was given ends, has no
result. The model's functions return `Except Fault`, and `Fault` says why there is no result.

`u64` and `usize` values are natural numbers. The operations below are the checked ones of a
build with overflow checks: an operation that leaves the 64-bit range faults.
-/

set_option autoImplicit false

namespace Ruduo

/-- The places where the code calls `expect`, `unwrap` or `panic!`, with what their texts name. -/
inductive Panic where
  /-- `enable_io`: the poll refused to register the stream. -/
  | register (token : Nat)
  /-- `enable_io` and `disable_io`: the poll refused to change the registration. -/
  | reregister (token : Nat)
  /-- `disable_io`: the poll refused to end the registration. -/
  | deregister (token : Nat)
  /-- `shutdown`, and a `Shutdown` message. -/
  | shutdown
  /-- `add_connection`: the rejected stream could not be shut down. -/
  | shutdownFrom (addr : Nat)
  /-- `add_connecting`: the rejected stream could not be shut down. -/
  | shutdownConnecting (addr : Nat)
  /-- `add_connecting`: the poll refused to register the stream. -/
  | registerConnecting (token : Nat)
  /-- `remove_connection`: the stream has no peer any more. -/
  | peerAddr
  /-- `Shared::add_connection`: the token is taken. -/
  | alreadyDispatched (token : Nat)
  /-- `process_timers`: the repeated timeout was not accepted. -/
  | timerOverflow
  /-- `peek_as`: the slice does not have the length of the array. -/
  | sliceToArray
  /-- `EventLoopThreadPool::new`: a pool of size 0. -/
  | emptyPool
  /-- `EventLoopThread::spawn`: the operating system did not make the thread. -/
  | spawn
  deriving DecidableEq, Repr

/-- Why a call has no result. -/
inductive Fault where
  /-- An `assert!` or `assert_eq!` failed. -/
  | assertion
  /-- An index, a slice bound or a slab key is out of range. -/
  | outOfRange
  /-- An integer operation overflowed, or divided by zero. -/
  | arithmetic
  /-- An `expect`, an `unwrap` or a `panic!`. -/
  | panicked (p : Panic)
  /-- The loop has not ended within the behaviour it was given. -/
  | unfinished
  deriving DecidableEq, Repr

/-- `u64::MAX`, which is also `usize::MAX` on the 64-bit targets. -/
def u64Max : Nat := 2 ^ 64 - 1

/-- `a + b` on `u64`. -/
def u64Add (a b : Nat) : Except Fault Nat :=
  if a + b ≤ u64Max then .ok (a + b) else .error .arithmetic

/-- `a - b` on `u64`. -/
def u64Sub (a b : Nat) : Except Fault Nat :=
  if b ≤ a then .ok (a - b) else .error .arithmetic

/-- `a * b` on `u64`. -/
def u64Mul (a b : Nat) : Except Fault Nat :=
  if a * b ≤ u64Max then .ok (a * b) else .error .arithmetic

/-- `a / b` on `u64`. -/
def u64Div (a b : Nat) : Except Fault Nat :=
  if b = 0 then .error .arithmetic else .ok (a / b)

/-- The exponent of the least power of two that is at least `n`. -/
def ceilLog2 (n : Nat) : Nat := if n ≤ 1 then 0 else Nat.log2 (n - 1) + 1

/-- `usize::next_power_of_two`. -/
def nextPowerOfTwo (n : Nat) : Except Fault Nat :=
  if 2 ^ ceilLog2 n ≤ u64Max then .ok (2 ^ ceilLog2 n) else .error .arithmetic

section
variable {a b c n : Nat}

/-- `u64Add` gives the sum, when it fits. -/
@[simp] theorem u64Add_eq_ok : u64Add a b = .ok c ↔ a + b ≤ u64Max ∧ a + b = c := by
  unfold u64Add
  split <;> simp [*]

/-- `u64Sub` gives the difference, when it is not negative. -/
@[simp] theorem u64Sub_eq_ok : u64Sub a b = .ok c ↔ b ≤ a ∧ a - b = c := by
  unfold u64Sub
  split <;> simp [*]

/-- `u64Mul` gives the product, when it fits. -/
@[simp] theorem u64Mul_eq_ok : u64Mul a b = .ok c ↔ a * b ≤ u64Max ∧ a * b = c := by
  unfold u64Mul
  split <;> simp [*]

/-- `u64Div` gives the quotient, unless the divisor is 0. -/
@[simp] theorem u64Div_eq_ok : u64Div a b = .ok c ↔ b ≠ 0 ∧ a / b = c := by
  unfold u64Div
  split <;> simp [*]

/-- `next_power_of_two` gives the power, when it fits. -/
@[simp] theorem nextPowerOfTwo_eq_ok :
    nextPowerOfTwo n = .ok c ↔ 2 ^ ceilLog2 n ≤ u64Max ∧ 2 ^ ceilLog2 n = c := by
  unfold nextPowerOfTwo
  split <;> simp [*]

end

/-- A sequenced computation succeeds when its first part gives a value and the rest succeeds
on it. -/
theorem bind_eq_ok {α β : Type} {x : Except Fault α} {f : α → Except Fault β} {b : β} :
    (x >>= f) = .ok b ↔ ∃ a, x = .ok a ∧ f a = .ok b := by
  cases x with
  | error e =>
    constructor
    · intro h
      cases h
    · rintro ⟨a, h, -⟩
      cases h
  | ok a =>
    constructor
    · intro h
      exact ⟨a, rfl, h⟩
    · rintro ⟨a', h, h'⟩
      cases h
      exact h'

/-- Sequencing after a value runs the rest on it. -/
@[simp] theorem ok_bind {α β : Type} (a : α) (f : α → Except Fault β) :
    ((Except.ok a : Except Fault α) >>= f) = f a := rfl

/-- Sequencing after a fault is the fault. -/
@[simp] theorem error_bind {α β : Type} (e : Fault) (f : α → Except Fault β) :
    ((Except.error e : Except Fault α) >>= f) = .error e := rfl

end Ruduo
