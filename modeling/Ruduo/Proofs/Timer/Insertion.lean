import Ruduo.Proofs.Timer.Wheel

/-!
# `Ruduo.Proofs.Timer.Insertion`: a timeout is put into the wheel

`insert` takes the vacant key of the slab, and puts the entry in front of the list of its slot
(`Inserted`). Only the old head of this list is linked to another entry afterwards.

* `insert_full`: a full slab rejects the timeout.
* `insert_spec`: otherwise `insert` puts the timeout in front of the pending ones, and the walk of
  the current slot goes on as before.
-/

set_option autoImplicit false

namespace Ruduo.Timer

open Lib (Slab LawfulSlab Seg fromKey_cons_of_ne)

variable {S : Type → Type} [Slab S] {T : Type}
variable {t t' : Timer S T} {p : List (Pending T)} {e : Pending T} {curr : Nat}

/-- A full slab rejects the entry and stays as it is. -/
theorem insert_full (h : Wheel t p) (token : T) (tick interval : Nat)
    (hfull : Slab.len t.entries = Slab.capacity t.entries) :
    t.insert token tick interval = .ok (t, .error .overflow) := by
  obtain ⟨head, hw, -⟩ := h.wheelAt_eq tick
  simp [insert, hw, hfull]

/-- The state after a new entry was put at the vacant key `key`, in front of the old head `curr`
of its slot, whose `prev` becomes `key`. -/
structure Inserted (t t' : Timer S T) (e : Pending T) (curr : Nat) : Prop where
  frame : Frame t t'
  tick : t'.tick = t.tick
  next : t'.next = t.next
  wheel : t'.wheel = t.wheel.set (t.slotFor e.tick) e.key
  len : Slab.len t'.entries = Slab.len t.entries + 1
  get : ∀ j, Slab.get t'.entries j =
    if j = e.key then some (Entry.new e.token e.interval e.tick curr)
    else (Slab.get t.entries j).map fun old =>
      if j = curr then { old with link := { old.link with prev := e.key } } else old

/-- Below the capacity an insertion takes the key of the slab's next vacancy. -/
theorem insert_inserted [LawfulSlab S] (h : Wheel t p) (token : T) (tick interval : Nat)
    {curr : Nat} (hw : t.wheel[t.slotFor tick]? = some curr)
    (hroom : Slab.len t.entries ≠ Slab.capacity t.entries) :
    ∃ t', t.insert token tick interval
        = .ok (t', .ok { key := Slab.vacantKey t.entries, tick }) ∧
      Inserted t t' { key := Slab.vacantKey t.entries, tick, token, interval } curr := by
  have hlt := h.slotFor_lt tick
  have hat : t.wheelAt (t.slotFor tick) = .ok curr := by simp [wheelAt, hw]
  have hcap := LawfulSlab.capacity_insert t.entries (Entry.new token interval tick curr)
    (h.len_lt hroom)
  have hget := LawfulSlab.get_insert t.entries (Entry.new token interval tick curr)
  by_cases hc : curr = EMPTY
  · -- The slot was empty, so there is no old head to link back.
    refine ⟨{ t with
      entries := Slab.insert t.entries (Entry.new token interval tick curr)
      wheel := t.wheel.set (t.slotFor tick) (Slab.vacantKey t.entries) }, ?_,
      ⟨⟨rfl, rfl, rfl, hcap⟩, rfl, rfl, rfl, LawfulSlab.len_insert _ _, fun j => ?_⟩⟩
    · simp [insert, hat, hroom, hc, setWheel, hlt]
    · rw [hget]
      split
      · rfl
      · cases he : Slab.get t.entries j with
        | none => rfl
        | some old =>
          have hj : j ≠ curr := by
            obtain ⟨x, hx, rfl⟩ := h.only j (by simp [he])
            have := h.key_lt x hx
            omega
          simp [hj]
  · -- The old head gets the new entry as its `prev`.
    obtain ⟨last, hseg⟩ := h.linked _ _ hw
    have hmem : curr ∈ slotKeys t.mask p (t.slotFor tick) := by
      rcases hseg.head_mem_or with hm | ⟨-, hm⟩
      · exact hm
      · exact absurd hm hc
    obtain ⟨ec, hec⟩ := h.get_isSome_of_mem_slotKeys hmem
    have hne := Slab.ne_vacantKey t.entries hec
    have hins := Slab.get_insert_of_some t.entries (Entry.new token interval tick curr) hec
    refine ⟨{ t with
      entries := Slab.set (Slab.insert t.entries (Entry.new token interval tick curr)) curr
        { ec with link := { ec.link with prev := Slab.vacantKey t.entries } }
      wheel := t.wheel.set (t.slotFor tick) (Slab.vacantKey t.entries) }, ?_,
      ⟨⟨rfl, rfl, rfl, ?_⟩, rfl, rfl, rfl, ?_, fun j => ?_⟩⟩
    · simp [insert, hat, hroom, hc, setPrev, entryAt, hins, setWheel, hlt]
    · rw [LawfulSlab.capacity_set, hcap]
    · rw [LawfulSlab.len_set, LawfulSlab.len_insert]
    · rw [Slab.get_set_of_some _ _ j hins, hget]
      by_cases hj : j = curr
      · subst hj
        simp [hne, hec]
      · simp [hj]

/-- Of the old entries only the old head is linked anew. -/
theorem Inserted.links_eq (hi : Inserted t t' e curr) {j : Nat} (hj : j ≠ e.key)
    (hjc : j ≠ curr) : t'.links j = t.links j := by
  simp [links, hi.get, hj, hjc]

/-- The list of the slot that got the entry. -/
theorem Inserted.slot_linked (h : Wheel t p) (hi : Inserted t t' e curr)
    (hw : t.wheel[t.slotFor e.tick]? = some curr) (hfresh : ∀ x ∈ p, x.key ≠ e.key) :
    ∃ last, Seg t'.links EMPTY e.key (slotKeys t.mask (e :: p) (t.slotFor e.tick)) last
      EMPTY := by
  obtain ⟨last, hseg⟩ := h.linked _ _ hw
  rw [slotFor, slotKeys_cons_self]
  refine hseg.push (slotKeys_nodup _ _ h.keys) (fun hm => ne_of_mem_slotKeys hfresh hm rfl) ?_ ?_ ?_
  · simp [links, hi.get, Entry.new]
  · intro hc q m hlook
    have hne := ne_of_mem_slotKeys hfresh hc
    obtain ⟨ec, hec⟩ := h.get_isSome_of_mem_slotKeys hc
    simp only [links, hec, Option.map_some, Option.some.injEq, Prod.mk.injEq] at hlook
    simp [links, hi.get, hne, hec, hlook]
  · exact fun j hj hjc => hi.links_eq (ne_of_mem_slotKeys hfresh hj) hjc

/-- The other lists are as they were. -/
theorem Inserted.other_linked (h : Wheel t p) (hi : Inserted t t' e curr)
    (hw : t.wheel[t.slotFor e.tick]? = some curr) (hfresh : ∀ x ∈ p, x.key ≠ e.key)
    {slot head : Nat} (hslot : t.slotFor e.tick ≠ slot) (hhead : t.wheel[slot]? = some head) :
    ∃ last, Seg t'.links EMPTY head (slotKeys t.mask (e :: p) slot) last EMPTY := by
  obtain ⟨last, hseg⟩ := h.linked slot head hhead
  rw [slotKeys_cons_of_ne hslot]
  refine ⟨last, hseg.congr fun j hj => hi.links_eq (ne_of_mem_slotKeys hfresh hj) ?_⟩
  -- The old head `curr` is in the slot of the new entry, or there was none.
  rintro rfl
  obtain ⟨last', hseg'⟩ := h.linked _ _ hw
  rcases hseg'.head_mem_or with hm | ⟨-, hm⟩
  · exact hslot (slot_eq_of_mem h.keys hm hj)
  · exact h.empty_not_mem _ (hm ▸ hj)

/-- The representation after the edits of an insertion. -/
theorem Wheel.inserted (h : Wheel t p) (hi : Inserted t t' e curr)
    (hw : t.wheel[t.slotFor e.tick]? = some curr)
    (hroom : Slab.len t.entries ≠ Slab.capacity t.entries)
    (hkey : e.key < Slab.capacity t.entries) (hfresh : ∀ x ∈ p, x.key ≠ e.key) :
    Wheel t' (e :: p) where
  slots := by
    obtain ⟨k, hk, hmask⟩ := h.slots
    exact ⟨k, by rw [hi.wheel, List.length_set, hk], hi.frame.mask.trans hmask⟩
  capacity := hi.frame.capacity ▸ h.capacity
  len_le := by
    have := h.len_lt hroom
    rw [hi.len, hi.frame.capacity]
    omega
  len := by rw [hi.len, h.len, List.length_cons]
  keys := by
    rw [List.map_cons, List.nodup_cons]
    refine ⟨fun hm => ?_, h.keys⟩
    obtain ⟨x, hx, hxk⟩ := List.mem_map.mp hm
    exact hfresh x hx hxk
  key_lt := by
    intro x hx
    rcases List.mem_cons.mp hx with rfl | hx
    · exact Nat.lt_trans hkey h.capacity
    · exact h.key_lt x hx
  stored := by
    intro x hx
    -- The new entry points at the old head of its slot, and only this head has a new `prev`.
    rcases List.mem_cons.mp hx with rfl | hx
    · exact ⟨EMPTY, curr, by rw [hi.get, if_pos rfl]; rfl⟩
    · obtain ⟨prev, next, hst⟩ := h.stored x hx
      rw [Stored, hi.get, if_neg (hfresh x hx), hst]
      by_cases hc : x.key = curr
      · exact ⟨e.key, next, by simp [hc]⟩
      · exact ⟨prev, next, by simp [hc]⟩
  only := by
    intro k hk
    by_cases hkk : k = e.key
    · exact ⟨_, List.mem_cons_self, hkk.symm⟩
    · rw [hi.get, if_neg hkk, Option.isSome_map] at hk
      obtain ⟨x, hx, hxk⟩ := h.only k hk
      exact ⟨x, List.mem_cons_of_mem _ hx, hxk⟩
  linked := by
    intro slot head hhead
    rw [hi.frame.mask]
    rw [hi.wheel, List.getElem?_set] at hhead
    -- In its own slot the new key is in front, and the lists of the other slots are the same.
    by_cases hslot : t.slotFor e.tick = slot
    · subst hslot
      rw [if_pos rfl, if_pos (h.slotFor_lt e.tick)] at hhead
      obtain rfl := Option.some.inj hhead
      exact hi.slot_linked h hw hfresh
    · rw [if_neg hslot] at hhead
      exact hi.other_linked h hw hfresh hslot hhead
  next := by
    rw [hi.next, slotFor, hi.tick, hi.frame.mask]
    rcases h.next with hn | hn
    · exact Or.inl hn
    · right
      obtain ⟨x, hx, hs, hxk⟩ := mem_slotKeys.mp hn
      exact mem_slotKeys.mpr ⟨x, List.mem_cons_of_mem _ hx, hs, hxk⟩

/-- The walk of the current slot has the same entries in front of it as before. -/
theorem Inserted.cursor_eq (h : Wheel t p) (hi : Inserted t t' e curr)
    (hkey : e.key < Slab.capacity t.entries) (hfresh : ∀ x ∈ p, x.key ≠ e.key) :
    cursor t' (e :: p) = cursor t p := by
  rw [cursor, cursor, hi.next, slotFor, slotFor, hi.tick, hi.frame.mask]
  by_cases hslot : e.tick &&& t.mask = t.tick &&& t.mask
  · rw [← hslot, slotKeys_cons_self, fromKey_cons_of_ne]
    -- The cursor does not stand on the fresh key.
    intro (hkn : e.key = t.next)
    rcases h.next with hn | hn
    · have := h.capacity
      rw [hkn, hn] at hkey
      exact absurd (Nat.lt_trans hkey this) (Nat.lt_irrefl _)
    · obtain ⟨x, hx, -, hxk⟩ := mem_slotKeys.mp hn
      exact hfresh x hx (hxk.trans hkn.symm)
  · rw [slotKeys_cons_of_ne hslot]

/-- Below the capacity an insertion succeeds. The new timeout is pending under a fresh key, and
the walk of the current slot has the same entries in front of it as before. -/
theorem insert_spec [LawfulSlab S] (h : Wheel t p) (token : T) (tick interval : Nat)
    (hroom : Slab.len t.entries ≠ Slab.capacity t.entries) :
    ∃ t' key, t.insert token tick interval = .ok (t', .ok { key, tick }) ∧
      Wheel t' ({ key, tick, token, interval } :: p) ∧ Frame t t' ∧ t'.tick = t.tick ∧
      cursor t' ({ key, tick, token, interval } :: p) = cursor t p ∧
      (∀ e ∈ p, e.key ≠ key) := by
  obtain ⟨curr, -, hw⟩ := h.wheelAt_eq tick
  obtain ⟨t', hins, hi⟩ := insert_inserted h token tick interval hw hroom
  have hkey := LawfulSlab.vacantKey_lt t.entries (h.len_lt hroom)
  have hfresh : ∀ e ∈ p, e.key ≠ Slab.vacantKey t.entries := by
    intro e he
    obtain ⟨prev, next, hst⟩ := h.stored e he
    exact Slab.ne_vacantKey t.entries hst
  exact ⟨t', Slab.vacantKey t.entries, hins, h.inserted hi hw hroom hkey hfresh, hi.frame,
    hi.tick, hi.cursor_eq h hkey hfresh, hfresh⟩

end Ruduo.Timer
