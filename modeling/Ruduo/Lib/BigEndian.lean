import Mathlib.Algebra.Group.Nat.Defs
import Mathlib.Tactic.Positivity
import Mathlib.Tactic.Ring

/-!
# `Ruduo.Lib.BigEndian`: numbers as bytes, the most significant byte first

* `toBE n x` are the last `n` bytes of `x` in base 256, and `ofBE l` is the number that the bytes
  `l` write. `ofBE_toBE` is the round trip, and `ofBE_append` reads the number part by part.
* `twosComplement n x` is the signed number with the same `n` bytes as `x`. It depends on `x`
  modulo `256 ^ n` only (`twosComplement_add_mul`).
* `add_ofBE_append_ediv`: a division by a power of 256 drops the last bytes.
-/

set_option autoImplicit false

namespace Ruduo.Lib

/-- The last `n` bytes of a number, the most significant one first. -/
def toBE : Nat → Nat → List UInt8
  | 0, _ => []
  | n + 1, x => UInt8.ofNat (x / 256 ^ n) :: toBE n x

/-- The number that the bytes write, the most significant one first. -/
def ofBE : List UInt8 → Nat
  | [] => 0
  | b :: l => b.toNat * 256 ^ l.length + ofBE l

/-- The signed number of `n` bytes that agrees with `x` modulo `256 ^ n`. -/
def twosComplement (n : Nat) (x : Int) : Int := x.bmod (256 ^ n)

section
variable {n : Nat} {x : Nat} {l l₁ l₂ : List UInt8}

/-- The encoding in `n` bytes has `n` bytes. -/
@[simp] theorem length_toBE (n x : Nat) : (toBE n x).length = n := by
  induction n with
  | zero => rfl
  | succ n ih => rw [toBE, List.length_cons, ih]

/-- The bytes of the first part count more, by the length of the second. -/
theorem ofBE_append : ofBE (l₁ ++ l₂) = ofBE l₁ * 256 ^ l₂.length + ofBE l₂ := by
  induction l₁ with
  | nil => simp [ofBE]
  | cons b l ih =>
    rw [List.cons_append, ofBE, ofBE, ih, List.length_append, Nat.pow_add]
    ring

/-- What `n` bytes decode to is below `256 ^ n`. -/
theorem ofBE_lt : ofBE l < 256 ^ l.length := by
  induction l with
  | nil => simp [ofBE]
  | cons b l ih =>
    have hb : b.toNat < 256 := b.toNat_lt
    calc ofBE (b :: l) < b.toNat * 256 ^ l.length + 256 ^ l.length := by rw [ofBE]; omega
      _ = (b.toNat + 1) * 256 ^ l.length := by ring
      _ ≤ 256 * 256 ^ l.length := Nat.mul_le_mul_right _ hb
      _ = 256 ^ (b :: l).length := by rw [List.length_cons, Nat.pow_succ, Nat.mul_comm]

/-- The bytes of a number write it, up to what does not fit in them. -/
theorem ofBE_toBE (n x : Nat) : ofBE (toBE n x) = x % 256 ^ n := by
  induction n with
  | zero => simp [toBE, ofBE, Nat.mod_one]
  | succ n ih =>
    have hbyte : (UInt8.ofNat (x / 256 ^ n)).toNat = x / 256 ^ n % 256 := UInt8.toNat_ofNat'
    rw [toBE, ofBE, ih, length_toBE, hbyte, Nat.pow_succ, Nat.mod_mul, Nat.mul_comm, Nat.add_comm]

/-- A number with more bytes in front of two parts. -/
theorem add_ofBE_append (c : Int) :
    c * 256 ^ (l₁ ++ l₂).length + (ofBE (l₁ ++ l₂) : Int)
      = (c * 256 ^ l₁.length + ofBE l₁) * 256 ^ l₂.length + ofBE l₂ := by
  rw [ofBE_append, List.length_append, pow_add]
  push_cast
  ring

/-- The second part is divided off. -/
theorem add_ofBE_append_ediv (c : Int) :
    (c * 256 ^ (l₁ ++ l₂).length + (ofBE (l₁ ++ l₂) : Int)) / 256 ^ l₂.length
      = c * 256 ^ l₁.length + ofBE l₁ := by
  have hlt : (ofBE l₂ : Int) < 256 ^ l₂.length := by exact_mod_cast ofBE_lt
  rw [add_ofBE_append, Int.add_comm, Int.add_mul_ediv_right _ _ (by positivity),
    Int.ediv_eq_zero_of_lt (Int.natCast_nonneg _) hlt, Int.zero_add]

end

/-- What is a multiple of `256 ^ n` does not show in `n` bytes. -/
theorem twosComplement_add_mul (n : Nat) (c x : Int) :
    twosComplement n (c * 256 ^ n + x) = twosComplement n x := by
  rw [twosComplement, twosComplement, Int.add_comm]
  exact_mod_cast Int.add_mul_bmod_self_right x c (256 ^ n)

/-- The signed number differs from the plain one by a multiple of `256 ^ n`. -/
theorem exists_twosComplement_eq (n : Nat) (x : Int) :
    ∃ c : Int, twosComplement n x = c * 256 ^ n + x := by
  refine ⟨-Int.bdiv x (256 ^ n), ?_⟩
  rw [twosComplement, Int.bmod_eq_self_sub_bdiv_mul]
  push_cast
  ring

end Ruduo.Lib
