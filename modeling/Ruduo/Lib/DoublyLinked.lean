import Mathlib.Data.List.Basic
import Mathlib.Data.List.Induction

/-!
# `Ruduo.Lib.DoublyLinked`: doubly linked lists in a keyed store

A store gives each key a pair `(prev, next)` of neighbour keys, with one key `nil` that marks
"no neighbour". `Seg look p h ks l n` says that the keys `ks` are linked in the store in this
order: the walk starts at `h`, coming from `p`, and leaves the last key `l` towards `n`. A whole
list is the segment between `nil` and `nil`.

The lemmas say what the three edits of an intrusive list do to a segment:

* `Seg.congr`: an edit outside the segment changes nothing.
* `Seg.push`: a fresh key in front of a list.
* `Seg.unlink`: a key taken out of a list, whether it is the first, the last, a middle or
  the only key.

`Path f nil h ks` says that following one kind of link, given by `f`, reads off the keys `ks`.
`Seg.path_next` and `Seg.path_prev` read a list forward from its head and backward from its last
key, and `Seg.next_prev` and `Seg.prev_next` say that the two links are inverse to each other.

`fromKey n ks` is the part of a list that a cursor standing on the key `n` still has in front
of it. `fromKey_unlink` follows the cursor through an unlink: a cursor on the unlinked key moves
to the next one, and in every case it keeps what it had in front of it, less the unlinked key.
-/

set_option autoImplicit false

namespace Ruduo.Lib

variable {κ : Type}

/-- The keys are linked in the store in this order. The walk enters the first key `h` from `p`
and leaves the last key `l` towards `n`. The empty segment has `l = p` and `n = h`. -/
def Seg (look : κ → Option (κ × κ)) : (p h : κ) → List κ → (l n : κ) → Prop
  | p, h, [], l, n => l = p ∧ n = h
  | p, h, k :: ks, l, n => h = k ∧ ∃ m, look k = some (p, m) ∧ Seg look k m ks l n

namespace Seg
variable {look look' : κ → Option (κ × κ)} {p h l n k : κ} {ks ks₁ ks₂ : List κ}

/-- The empty segment ends where it begins. -/
@[simp] theorem nil_iff : Seg look p h [] l n ↔ l = p ∧ n = h := Iff.rfl

/-- A segment begins with its first key, which points back to the one before and forward to the
rest. -/
@[simp] theorem cons_iff :
    Seg look p h (k :: ks) l n ↔ h = k ∧ ∃ m, look k = some (p, m) ∧ Seg look k m ks l n :=
  Iff.rfl

/-- A segment depends on the store only at its own keys. -/
theorem congr (heq : ∀ k ∈ ks, look' k = look k) (hs : Seg look p h ks l n) :
    Seg look' p h ks l n := by
  induction ks generalizing p h with
  | nil => exact hs
  | cons k ks ih =>
    obtain ⟨rfl, m, hk, hrest⟩ := hs
    exact ⟨rfl, m, (heq h (by simp)).trans hk, ih (fun j hj => heq j (by simp [hj])) hrest⟩

/-- Two segments in a row, the second entered where the first is left. -/
theorem append_iff :
    Seg look p h (ks₁ ++ ks₂) l n ↔
      ∃ q m, Seg look p h ks₁ q m ∧ Seg look q m ks₂ l n := by
  induction ks₁ generalizing p h with
  | nil => simp
  | cons k ks ih =>
    simp only [List.cons_append, cons_iff, ih]
    constructor
    · rintro ⟨rfl, m, hk, q, m', h₁, h₂⟩
      exact ⟨q, m', ⟨rfl, m, hk, h₁⟩, h₂⟩
    · rintro ⟨q, m', ⟨rfl, m, hk, h₁⟩, h₂⟩
      exact ⟨rfl, m, hk, q, m', h₁, h₂⟩

/-- The last key of a nonempty segment is one of its keys. -/
theorem last_mem (hs : Seg look p h ks l n) (hne : ks ≠ []) : l ∈ ks := by
  induction ks generalizing p h with
  | nil => exact absurd rfl hne
  | cons k ks ih =>
    obtain ⟨rfl, m, -, hrest⟩ := hs
    cases ks with
    | nil =>
      obtain ⟨rfl, -⟩ := hrest
      simp
    | cons j ks => exact List.mem_cons_of_mem _ (ih hrest (by simp))

/-- The first key of a nonempty segment is where the walk starts. -/
theorem head_eq (hs : Seg look p h (k :: ks) l n) : h = k := hs.1

/-- The store entry of the key after `ks₁`: it points back to the last key of `ks₁`. -/
theorem look_middle (hs : Seg look p h (ks₁ ++ k :: ks₂) l n) :
    ∃ q m, look k = some (q, m) ∧ Seg look p h ks₁ q k ∧ Seg look k m ks₂ l n := by
  obtain ⟨q, m, h₁, rfl, m', hk, h₂⟩ := append_iff.mp hs
  exact ⟨q, m', hk, h₁, h₂⟩

/-- Redirecting the `next` of the last key redirects the exit of the segment. -/
theorem setNext {n' : κ} (hs : Seg look p h ks l n) (hne : ks ≠ []) (hnd : ks.Nodup)
    (hlast : ∀ q m, look l = some (q, m) → look' l = some (q, n'))
    (hother : ∀ k ∈ ks, k ≠ l → look' k = look k) : Seg look' p h ks l n' := by
  induction ks generalizing p h with
  | nil => exact absurd rfl hne
  | cons k ks ih =>
    obtain ⟨rfl, m, hk, hrest⟩ := hs
    cases ks with
    | nil =>
      obtain ⟨rfl, rfl⟩ := hrest
      exact ⟨rfl, n', hlast p _ hk, rfl, rfl⟩
    | cons j js =>
      -- The first key is not the last one, so its links are as before.
      have hl : l ∈ j :: js := hrest.last_mem (by simp)
      have hkl : h ≠ l := fun e => (List.nodup_cons.mp hnd).1 (e ▸ hl)
      refine ⟨rfl, m, (hother h (by simp) hkl).trans hk, ?_⟩
      exact ih hrest (by simp) (List.nodup_cons.mp hnd).2
        (fun k hk => hother k (List.mem_cons_of_mem _ hk))

/-- Redirecting the `prev` of the first key redirects the entry of the segment. -/
theorem setPrev {p' : κ} (hs : Seg look p h ks l n) (hne : ks ≠ []) (hnd : ks.Nodup)
    (hfirst : ∀ q m, look h = some (q, m) → look' h = some (p', m))
    (hother : ∀ k ∈ ks, k ≠ h → look' k = look k) : Seg look' p' h ks l n := by
  cases ks with
  | nil => exact absurd rfl hne
  | cons k ks =>
    obtain ⟨rfl, m, hk, hrest⟩ := hs
    refine ⟨rfl, m, hfirst p m hk, hrest.congr fun j hj => ?_⟩
    have hne : j ≠ h := fun e => (List.nodup_cons.mp hnd).1 (e ▸ hj)
    exact hother j (List.mem_cons_of_mem _ hj) hne

/-- A fresh key in front of a list: the new key points to the old head, the old head points
back to it. -/
theorem push {nil : κ} (hs : Seg look nil h ks l nil) (hnd : ks.Nodup) (hk : k ∉ ks)
    (hnew : look' k = some (nil, h))
    (hfirst : h ∈ ks → ∀ q m, look h = some (q, m) → look' h = some (k, m))
    (hother : ∀ j ∈ ks, j ≠ h → look' j = look j) :
    ∃ l', Seg look' nil k (k :: ks) l' nil := by
  cases ks with
  | nil =>
    obtain ⟨rfl, rfl⟩ := hs
    exact ⟨k, rfl, _, hnew, rfl, rfl⟩
  | cons j js =>
    have hj : h = j := hs.head_eq
    refine ⟨l, rfl, h, hnew, hs.setPrev (by simp) hnd (hfirst (by simp [hj])) hother⟩

/-- The walk into a segment starts at one of its keys, or at its exit when it is empty. -/
theorem head_mem_or (hs : Seg look p h ks l n) : h ∈ ks ∨ ks = [] ∧ h = n := by
  cases ks with
  | nil => exact Or.inr ⟨rfl, hs.2.symm⟩
  | cons k ks => exact Or.inl (by simp [hs.head_eq])

/-- A key taken out of a list, at any position. Its neighbours `pk` and `nk` are linked to
each other, and the head moves on when the key was the first one. -/
theorem unlink {nil pk nk : κ} [DecidableEq κ] (hs : Seg look nil h (ks₁ ++ k :: ks₂) l nil)
    (hnd : (ks₁ ++ k :: ks₂).Nodup) (hnil : nil ∉ ks₁ ++ ks₂) (hk : look k = some (pk, nk))
    (hprev : pk ≠ nil → ∀ q m, look pk = some (q, m) → look' pk = some (q, nk))
    (hnext : nk ≠ nil → ∀ q m, look nk = some (q, m) → look' nk = some (pk, m))
    (hother : ∀ j ∈ ks₁ ++ ks₂, j ≠ pk → j ≠ nk → look' j = look j) :
    ∃ l', Seg look' nil (if pk = nil then nk else h) (ks₁ ++ ks₂) l' nil := by
  obtain ⟨q, m, hk', h₁, h₂⟩ := hs.look_middle
  obtain ⟨rfl, rfl⟩ : pk = q ∧ nk = m := by simpa [hk] using hk'
  obtain ⟨hnd₁, hnd₂', hdisj⟩ := List.nodup_append.mp hnd
  have hnd₂ := (List.nodup_cons.mp hnd₂').2
  have hdisj' : ∀ a ∈ ks₁, ∀ b ∈ ks₂, a ≠ b :=
    fun a ha b hb => hdisj a ha b (List.mem_cons_of_mem _ hb)
  -- The left part leaves towards `nk` instead of `k`.
  have hleft : Seg look' nil (if pk = nil then nk else h) ks₁ pk nk := by
    cases ks₁ with
    | nil => simp [h₁.1]
    | cons j js =>
      have hpk : pk ∈ j :: js := h₁.last_mem (by simp)
      have hpn : pk ≠ nil := fun e => hnil (e ▸ List.mem_append_left _ hpk)
      rw [if_neg hpn]
      refine h₁.setNext (by simp) hnd₁ (hprev hpn) fun i hi hip => ?_
      refine hother i (List.mem_append_left _ hi) hip fun e => ?_
      rcases h₂.head_mem_or with hm | ⟨-, hm⟩
      · exact hdisj' i hi nk hm e
      · exact hnil (List.mem_append_left _ (hm ▸ e ▸ hi))
  -- The right part is entered from `pk` instead of `k`.
  have hright : ∃ l', Seg look' pk nk ks₂ l' nil := by
    cases ks₂ with
    | nil => exact ⟨pk, rfl, h₂.2⟩
    | cons j js =>
      have hnk : nk = j := h₂.head_eq
      have hnn : nk ≠ nil := fun e => hnil (by simp [← e, hnk])
      refine ⟨l, h₂.setPrev (by simp) hnd₂ (hnext hnn) fun i hi hin => ?_⟩
      refine hother i (List.mem_append_right _ hi) (fun e => ?_) hin
      cases ks₁ with
      | nil => exact hnil (by simpa [← h₁.1, ← e] using hi)
      | cons a as => exact hdisj' pk (h₁.last_mem (by simp)) i hi e.symm
  obtain ⟨l', hright⟩ := hright
  exact ⟨l', append_iff.mpr ⟨pk, nk, hleft, hright⟩⟩

end Seg

/-- Following the links `f` from the key `h` passes the keys `ks`, in this order, and ends in
`nil`, which is none of them. -/
def Path (f : κ → Option κ) (nil : κ) : κ → List κ → Prop
  | h, [] => h = nil
  | h, k :: ks => h = k ∧ k ≠ nil ∧ ∃ m, f k = some m ∧ Path f nil m ks

namespace Path
variable {f : κ → Option κ} {nil h k : κ} {ks js : List κ}

/-- The links determine the keys. -/
theorem unique (h₁ : Path f nil h ks) (h₂ : Path f nil h js) : ks = js := by
  induction ks generalizing h js with
  | nil =>
    obtain rfl : h = nil := h₁
    cases js with
    | nil => rfl
    | cons j js => exact absurd h₂.1.symm h₂.2.1
  | cons k ks ih =>
    obtain ⟨rfl, hne, m, hm, hrest⟩ := h₁
    cases js with
    | nil => exact absurd h₂ hne
    | cons j js =>
      obtain ⟨rfl, -, m', hm', hrest'⟩ := h₂
      obtain rfl := Option.some.inj (hm.symm.trans hm')
      rw [ih hrest hrest']

/-- A path starts at its first key, or at the end mark when it has none. -/
theorem head_eq (hp : Path f nil h ks) : h = ks.headD nil := by
  cases ks with
  | nil => exact hp
  | cons k ks => exact hp.1

end Path

namespace Seg
variable {look : κ → Option (κ × κ)} {nil p h l n k q m : κ} {ks : List κ}

/-- A list read forward from its head. -/
theorem path_next (hs : Seg look p h ks l nil) (hnil : nil ∉ ks) :
    Path (fun k => (look k).map Prod.snd) nil h ks := by
  induction ks generalizing p h with
  | nil => exact hs.2.symm
  | cons k ks ih =>
    rw [List.mem_cons, not_or] at hnil
    obtain ⟨rfl, m, hk, hrest⟩ := hs
    exact ⟨rfl, Ne.symm hnil.1, m, by simp [hk], ih hrest hnil.2⟩

/-- A list read backward from its last key. -/
theorem path_prev (hs : Seg look nil h ks l n) (hnil : nil ∉ ks) :
    Path (fun k => (look k).map Prod.fst) nil l ks.reverse := by
  induction ks using List.reverseRecOn generalizing l n with
  | nil => exact hs.1
  | append_singleton ks k ih =>
    rw [List.mem_append, List.mem_singleton, not_or] at hnil
    obtain ⟨q, m, hk, hleft, hlast, -⟩ := hs.look_middle
    rw [List.reverse_append]
    exact ⟨hlast, Ne.symm hnil.2, q, by simp [hk], ih hleft hnil.1⟩

/-- The last key of a nonempty segment points to its exit. -/
theorem look_last (hs : Seg look p h ks l n) (hne : ks ≠ []) : ∃ q, look l = some (q, n) := by
  induction ks generalizing p h with
  | nil => exact absurd rfl hne
  | cons k ks ih =>
    obtain ⟨rfl, m, hk, hrest⟩ := hs
    cases ks with
    | nil =>
      obtain ⟨rfl, rfl⟩ := hrest
      exact ⟨p, hk⟩
    | cons j js => exact ih hrest (by simp)

/-- The successor of a key of a list points back to it. -/
theorem next_prev (hs : Seg look p h ks l nil) (hk : k ∈ ks) (hlook : look k = some (q, m))
    (hm : m ≠ nil) : ∃ m', look m = some (k, m') := by
  obtain ⟨ks₁, ks₂, rfl⟩ := List.append_of_mem hk
  obtain ⟨q', n', hlook', -, hright⟩ := hs.look_middle
  obtain ⟨-, rfl⟩ := Prod.mk.inj (Option.some.inj (hlook.symm.trans hlook'))
  cases ks₂ with
  | nil => exact absurd hright.2.symm hm
  | cons j js =>
    obtain ⟨rfl, m', hj, -⟩ := hright
    exact ⟨m', hj⟩

/-- The predecessor of a key of a list points forward to it. -/
theorem prev_next (hs : Seg look nil h ks l n) (hk : k ∈ ks) (hlook : look k = some (q, m))
    (hq : q ≠ nil) : ∃ q', look q = some (q', k) := by
  obtain ⟨ks₁, ks₂, rfl⟩ := List.append_of_mem hk
  obtain ⟨q₁, n', hlook', hleft, -⟩ := hs.look_middle
  obtain ⟨rfl, -⟩ := Prod.mk.inj (Option.some.inj (hlook.symm.trans hlook'))
  cases ks₁ with
  | nil => exact absurd hleft.1 hq
  | cons j js => exact hleft.look_last (by simp)

/-- The head of a list has no predecessor. -/
theorem head_prev (hs : Seg look nil h ks l nil) (hh : h ≠ nil) : ∃ m, look h = some (nil, m) := by
  cases ks with
  | nil => exact absurd hs.2.symm hh
  | cons k ks =>
    obtain ⟨rfl, m, hk, -⟩ := hs
    exact ⟨m, hk⟩

end Seg

section Cursor
variable [DecidableEq κ]

/-- The keys from `n` on. A key that is not in the list leaves nothing. -/
def fromKey (n : κ) (ks : List κ) : List κ := ks.dropWhile (fun k => k ≠ n)

variable {n k nk nil : κ} {ks ks₁ ks₂ : List κ}

/-- A key that is not looked for is skipped. -/
theorem fromKey_cons_of_ne (h : k ≠ n) : fromKey n (k :: ks) = fromKey n ks := by
  simp [fromKey, h]

/-- A part without the key is skipped. -/
theorem fromKey_append_of_not_mem (h : n ∉ ks₁) : fromKey n (ks₁ ++ ks₂) = fromKey n ks₂ := by
  induction ks₁ with
  | nil => rfl
  | cons k ks ih =>
    rw [List.mem_cons, not_or] at h
    rw [List.cons_append, fromKey_cons_of_ne (Ne.symm h.1), ih h.2]

/-- Nothing is left when the key does not occur. -/
theorem fromKey_of_not_mem (h : n ∉ ks) : fromKey n ks = [] := by
  have : fromKey n (ks ++ []) = fromKey n [] := fromKey_append_of_not_mem h
  rwa [List.append_nil] at this

/-- What begins with the key is left as it is. -/
@[simp] theorem fromKey_self : fromKey n (n :: ks) = n :: ks := by
  simp [fromKey]

/-- The part in front of the cursor is a suffix of the list. -/
theorem fromKey_suffix : fromKey n ks <:+ ks := List.dropWhile_suffix _

/-- A cursor that moves on from `k` has the keys behind `k` in front of it. -/
theorem fromKey_headD (hnd : (ks₁ ++ k :: ks₂).Nodup) (hnil : nil ∉ ks₁ ++ k :: ks₂) :
    fromKey (ks₂.headD nil) (ks₁ ++ k :: ks₂) = ks₂ := by
  cases ks₂ with
  | nil => exact fromKey_of_not_mem hnil
  | cons j js =>
    obtain ⟨-, hnd₂, hdisj⟩ := List.nodup_append.mp hnd
    have hjk : k ≠ j := fun h => (List.nodup_cons.mp hnd₂).1 (by simp [h])
    rw [List.headD_cons, fromKey_append_of_not_mem fun h => hdisj j h j (by simp) rfl,
      fromKey_cons_of_ne hjk, fromKey_self]

/-- The cursor of a list whose key `k` is unlinked. -/
theorem fromKey_unlink (hnd : (ks₁ ++ k :: ks₂).Nodup) (hnil : nil ∉ ks₁ ++ ks₂)
    (hnk : nk = ks₂.headD nil) :
    fromKey (if k = n then nk else n) (ks₁ ++ ks₂) = (fromKey n (ks₁ ++ k :: ks₂)).erase k := by
  obtain ⟨-, hnd₂, hdisj⟩ := List.nodup_append.mp hnd
  have hk₁ : k ∉ ks₁ := fun h => hdisj k h k (by simp) rfl
  have hk₂ : k ∉ ks₂ := (List.nodup_cons.mp hnd₂).1
  -- The cursor is at the unlinked key, or before it, or behind it.
  by_cases hkn : k = n
  · subst hkn
    rw [if_pos rfl, fromKey_append_of_not_mem hk₁, fromKey_self, List.erase_cons_head]
    cases ks₂ with
    | nil =>
      simp only [List.headD_nil] at hnk
      exact fromKey_of_not_mem (hnk ▸ hnil)
    | cons j js =>
      simp only [List.headD_cons] at hnk
      subst hnk
      rw [fromKey_append_of_not_mem fun h => hdisj nk h nk (by simp) rfl, fromKey_self]
  · rw [if_neg hkn]
    by_cases hn : n ∈ ks₁
    · obtain ⟨a, b, rfl, ha⟩ := List.eq_append_cons_of_mem hn
      have hkb : k ∉ b := fun h => hk₁ (by simp [h])
      simp only [List.append_assoc, List.cons_append]
      rw [fromKey_append_of_not_mem ha, fromKey_append_of_not_mem ha, fromKey_self, fromKey_self,
        List.erase_cons_tail (by simpa using Ne.symm hkn), List.erase_append_right _ hkb,
        List.erase_cons_head]
    · rw [fromKey_append_of_not_mem hn, fromKey_append_of_not_mem hn, fromKey_cons_of_ne hkn]
      exact (List.erase_of_not_mem fun h => hk₂ (fromKey_suffix.subset h)).symm

end Cursor

end Ruduo.Lib
