import Ruduo.Proofs.Timer.Wheel

/-!
# `Ruduo.Proofs.Timer.Unlinking`: a timeout is taken out of the wheel

`clear` and `tick_to` unlink an entry, one before and one after it is taken from the slab. Either
way its neighbours are linked to each other, and nothing else changes (`Unlinked`).

* `Wheel.unlinked`: the wheel represents the other timeouts afterwards.
* `clear_spec`, `clear_stale`: what `clear` does to a pending timeout, and to another handle.
-/

set_option autoImplicit false

namespace Ruduo.Timer

open Lib (Slab LawfulSlab Seg fromKey_unlink fromKey_suffix)

variable {S : Type → Type} [Slab S] {T : Type}
variable {t t' : Timer S T} {p p₁ p₂ : List (Pending T)} {e : Pending T} {key : Nat}
  {link : EntryLink}

/-- An entry whose neighbour links to `link` are redirected past it. -/
def relink (link : EntryLink) (j : Nat) (e : Entry T) : Entry T :=
  { e with link :=
    { e.link with
      prev := if j = link.next then link.prev else e.link.prev
      next := if j = link.prev then link.next else e.link.next } }

/-- `t'` differs from `t` in the links of the entries only, and `f` says how. -/
structure Mapped (t t' : Timer S T) (f : Nat → Entry T → Entry T) : Prop where
  frame : Frame t t'
  tick : t'.tick = t.tick
  next : t'.next = t.next
  wheel : t'.wheel = t.wheel
  len : Slab.len t'.entries = Slab.len t.entries
  get : ∀ j, Slab.get t'.entries j = (Slab.get t.entries j).map (f j)

/-- Writing one entry maps the entries. -/
private theorem mapped_set [LawfulSlab S] {en en' : Entry T}
    (hget : Slab.get t.entries key = some en)
    {f : Nat → Entry T → Entry T} (hkey : f key en = en') (hother : ∀ j e, j ≠ key → f j e = e) :
    Mapped t { t with entries := Slab.set t.entries key en' } f where
  frame := ⟨rfl, rfl, rfl, LawfulSlab.capacity_set _ _ _⟩
  tick := rfl
  next := rfl
  wheel := rfl
  len := LawfulSlab.len_set _ _ _
  get := by
    intro j
    rw [Slab.get_set_of_some _ _ _ hget]
    by_cases hj : j = key
    · simp [hj, hget, hkey]
    · cases he : Slab.get t.entries j <;> simp [hj, hother]

/-- The second edit of `unlink`: the `prev` of the next entry. -/
private theorem relinkNext_eq [LawfulSlab S] (link : EntryLink)
    (hempty : Slab.get t.entries EMPTY = none)
    (hnext : link.next ≠ EMPTY → (Slab.get t.entries link.next).isSome) :
    ∃ t', (if link.next ≠ EMPTY then t.setPrev link.next link.prev else .ok t) = .ok t' ∧
      Mapped t t' fun j e => { e with
        link := { e.link with prev := if j = link.next then link.prev else e.link.prev } } := by
  by_cases hn : link.next = EMPTY
  · refine ⟨t, by simp [hn], Frame.refl t, rfl, rfl, rfl, rfl, fun j => ?_⟩
    by_cases hj : j = link.next
    · simp [hj, hn, hempty]
    · simp [hj]
  · obtain ⟨en, hen⟩ := Option.isSome_iff_exists.mp (hnext hn)
    refine ⟨_, by rw [if_pos hn, setPrev_eq hen], mapped_set hen (by simp) fun j e hj => ?_⟩
    simp [hj]

/-- `unlink` redirects the neighbours of an entry past it, or the head of its slot, and moves
the cursor off it. -/
private theorem unlink_eq [LawfulSlab S] (link : EntryLink) (key : Nat)
    (hslot : t.slotFor link.tick < t.wheel.length)
    (hempty : Slab.get t.entries EMPTY = none)
    (hprev : link.prev ≠ EMPTY → (Slab.get t.entries link.prev).isSome)
    (hnext : link.next ≠ EMPTY → (Slab.get t.entries link.next).isSome) :
    ∃ t', t.unlink link key = .ok t' ∧ Frame t t' ∧ t'.tick = t.tick ∧
      t'.next = (if key = t.next then link.next else t.next) ∧
      t'.wheel = (if link.prev = EMPTY then t.wheel.set (t.slotFor link.tick) link.next
        else t.wheel) ∧
      Slab.len t'.entries = Slab.len t.entries ∧
      ∀ j, Slab.get t'.entries j = (Slab.get t.entries j).map (relink link j) := by
  -- The first edit: the head of the slot, or the `next` of the previous entry.
  obtain ⟨t₁, h₁, hm₁⟩ :
      ∃ t₁, (if link.prev = EMPTY then t.setWheel (t.slotFor link.tick) link.next
          else t.setNext link.prev link.next) = .ok t₁ ∧
        Mapped { t with wheel := if link.prev = EMPTY
          then t.wheel.set (t.slotFor link.tick) link.next else t.wheel } t₁ fun j e => { e with
            link := { e.link with next := if j = link.prev then link.next else e.link.next } } := by
    by_cases hp : link.prev = EMPTY
    · refine ⟨{ t with wheel := t.wheel.set (t.slotFor link.tick) link.next }, ?_,
        ⟨rfl, rfl, rfl, rfl⟩, rfl, rfl, by simp [hp], rfl, fun j => ?_⟩
      · rw [if_pos hp, setWheel, if_pos hslot]
      by_cases hj : j = link.prev
      · simp [hj, hp, hempty]
      · simp [hj]
    · obtain ⟨ep, hep⟩ := Option.isSome_iff_exists.mp (hprev hp)
      refine ⟨_, by rw [if_neg hp, setNext_eq hep], ?_⟩
      rw [if_neg hp]
      exact mapped_set hep (by simp) fun j e hj => by simp [hj]
  have hmap : ∀ j, Slab.get t₁.entries j = (Slab.get t.entries j).map _ := hm₁.get
  obtain ⟨t₂, h₂, hm₂⟩ := relinkNext_eq (t := t₁) link (by rw [hmap, hempty]; rfl)
    (fun hn => by rw [hmap, Option.isSome_map]; exact hnext hn)
  refine ⟨{ t₂ with next := if key = t₁.next then link.next else t₁.next }, ?_,
    ⟨?_, ?_, ?_, ?_⟩, hm₂.tick.trans hm₁.tick, ?_, hm₂.wheel.trans hm₁.wheel,
    hm₂.len.trans hm₁.len, fun j => ?_⟩
  · simp only [unlink, h₁, ok_bind]
    by_cases hn : link.next = EMPTY
    · rw [if_neg (not_not.mpr hn)] at h₂ ⊢
      obtain rfl := Except.ok.inj h₂
      rw [hn]
      split <;> rfl
    · rw [if_pos hn] at h₂ ⊢
      rw [h₂, ok_bind, ← hm₂.next]
      split <;> rfl
  · exact hm₂.frame.tickMs.trans hm₁.frame.tickMs
  · exact hm₂.frame.startMs.trans hm₁.frame.startMs
  · exact hm₂.frame.mask.trans hm₁.frame.mask
  · exact hm₂.frame.capacity.trans hm₁.frame.capacity
  · exact hm₁.next ▸ rfl
  · show Slab.get t₂.entries j = _
    rw [hm₂.get, hmap]
    cases Slab.get t.entries j <;> rfl

/-- The neighbours of a pending timeout: the next one of its slot is the head of the older
timeouts, and the previous one is among the younger ones. -/
theorem Wheel.neighbours (h : Wheel t (p₁ ++ e :: p₂)) :
    ∃ prev next, Slab.get t.entries e.key
        = some { token := e.token, interval := e.interval
                 link := { tick := e.tick, prev, next } } ∧
      (prev = EMPTY ∨ prev ∈ slotKeys t.mask p₁ (t.slotFor e.tick)) ∧
      next = (slotKeys t.mask p₂ (t.slotFor e.tick)).headD EMPTY := by
  obtain ⟨prev, next, hget⟩ := h.stored e (by simp)
  refine ⟨prev, next, hget, ?_⟩
  obtain ⟨head, -, hw⟩ := h.wheelAt_eq e.tick
  obtain ⟨last, hseg⟩ := h.linked _ _ hw
  rw [slotKeys_append, slotFor, slotKeys_cons_self] at hseg
  -- The list of the slot is split at the timeout, into the younger and the older part.
  obtain ⟨q, m, hlook, hleft, hright⟩ := hseg.look_middle
  obtain ⟨rfl, rfl⟩ : prev = q ∧ next = m := by simpa [links, hget] using hlook
  rw [slotFor]
  constructor
  · cases hks : slotKeys t.mask p₁ (e.tick &&& t.mask) with
    | nil =>
      rw [hks] at hleft
      exact Or.inl hleft.1
    | cons k ks =>
      rw [hks] at hleft
      exact Or.inr (hleft.last_mem (by simp))
  · cases hks : slotKeys t.mask p₂ (e.tick &&& t.mask) with
    | nil =>
      rw [hks] at hright
      exact hright.2.symm
    | cons k ks =>
      rw [hks] at hright
      exact hright.head_eq

/-- The state after the entry at `key` was unlinked and removed, in either order. -/
structure Unlinked (t t' : Timer S T) (key : Nat) (link : EntryLink) : Prop where
  frame : Frame t t'
  tick : t'.tick = t.tick
  next : t'.next = if key = t.next then link.next else t.next
  wheel : t'.wheel = if link.prev = EMPTY then t.wheel.set (t.slotFor link.tick) link.next
    else t.wheel
  len : Slab.len t'.entries + 1 = Slab.len t.entries
  get : ∀ j, Slab.get t'.entries j =
    if j = key then none else (Slab.get t.entries j).map (relink link j)

/-- `EMPTY` is never an occupied key. -/
theorem Wheel.get_empty (h : Wheel t p) : Slab.get t.entries EMPTY = none := by
  by_contra hne
  obtain ⟨e, he, hk⟩ := h.only EMPTY (Option.isSome_iff_ne_none.mpr hne)
  have := h.key_lt e he
  omega

/-- The key of a pending timeout is not the key of another one. -/
theorem Wheel.key_ne (h : Wheel t (p₁ ++ e :: p₂)) : ∀ x ∈ p₁ ++ p₂, x.key ≠ e.key := by
  have hnd := h.keys
  rw [List.map_append, List.map_cons, List.nodup_middle, List.nodup_cons, ← List.map_append] at hnd
  intro x hx hk
  exact hnd.1 (List.mem_map.mpr ⟨x, hx, hk⟩)

/-- The key of the latest timeout is new. -/
theorem Wheel.head_key_ne (h : Wheel t (e :: p)) : ∀ x ∈ p, x.key ≠ e.key :=
  Wheel.key_ne (show Wheel t ([] ++ e :: p) from h)

/-- The neighbours of a pending timeout are other pending timeouts. -/
theorem Wheel.neighbour_mem (h : Wheel t (p₁ ++ e :: p₂)) {prev next : Nat}
    (hget : Slab.get t.entries e.key = some
      { token := e.token, interval := e.interval, link := { tick := e.tick, prev, next } }) :
    (prev = EMPTY ∨ prev ∈ slotKeys t.mask p₁ (t.slotFor e.tick)) ∧
    next = (slotKeys t.mask p₂ (t.slotFor e.tick)).headD EMPTY := by
  obtain ⟨prev', next', hget', hprev, hnext⟩ := h.neighbours
  obtain ⟨rfl, rfl⟩ : prev = prev' ∧ next = next' := by simpa [hget] using hget'
  exact ⟨hprev, hnext⟩

/-- The entry before, if there is one, is in the same slot. -/
theorem Wheel.neighbour_slot (h : Wheel t (p₁ ++ e :: p₂)) {prev next : Nat}
    (hget : Slab.get t.entries e.key = some
      { token := e.token, interval := e.interval, link := { tick := e.tick, prev, next } }) :
    ∀ k, k = prev ∨ k = next → k ≠ EMPTY →
      k ∈ slotKeys t.mask (p₁ ++ p₂) (t.slotFor e.tick) := by
  obtain ⟨hprev, hnext⟩ := h.neighbour_mem hget
  intro k hk hne
  rw [slotKeys_append, List.mem_append]
  rcases hk with rfl | rfl
  · exact Or.inl (hprev.resolve_left hne)
  · right
    cases hks : slotKeys t.mask p₂ (t.slotFor e.tick) with
    | nil => simp [hnext, hks] at hne
    | cons j js => simp [hnext, hks]

/-- The entries before and after, if there are such, are in the slab. -/
theorem Wheel.neighbour_isSome (h : Wheel t (p₁ ++ e :: p₂)) {prev next : Nat}
    (hget : Slab.get t.entries e.key = some
      { token := e.token, interval := e.interval, link := { tick := e.tick, prev, next } }) :
    ∀ k, k = prev ∨ k = next → k ≠ EMPTY → k ≠ e.key ∧ (Slab.get t.entries k).isSome := by
  intro k hk hne
  obtain ⟨x, hx, -, rfl⟩ := mem_slotKeys.mp (h.neighbour_slot hget k hk hne)
  obtain ⟨prev', next', hst⟩ := h.stored x (by
    rcases List.mem_append.mp hx with hx | hx <;> simp [hx])
  exact ⟨h.key_ne x hx, by simp [hst]⟩

/-- The two neighbours are distinct entries. -/
theorem Wheel.neighbours_ne (h : Wheel t (p₁ ++ e :: p₂)) {prev next : Nat}
    (hget : Slab.get t.entries e.key = some
      { token := e.token, interval := e.interval, link := { tick := e.tick, prev, next } })
    (hne : prev ≠ EMPTY) : prev ≠ next := by
  obtain ⟨hprev, hnext⟩ := h.neighbour_mem hget
  have hnd := slotKeys_nodup t.mask (t.slotFor e.tick) h.keys
  rw [slotKeys_append, slotFor, slotKeys_cons_self] at hnd
  obtain ⟨-, -, hdisj⟩ := List.nodup_append.mp hnd
  intro hpn
  cases hks : slotKeys t.mask p₂ (t.slotFor e.tick) with
  | nil =>
    rw [hks, List.headD_nil] at hnext
    exact hne (hpn.trans hnext)
  | cons j js =>
    rw [hks, List.headD_cons] at hnext
    rw [slotFor] at hks
    exact hdisj prev (hprev.resolve_left hne) j (by simp [hks]) (hpn.trans hnext)

/-- `clear` removes the entry first, and then unlinks it. -/
theorem unlink_removed [LawfulSlab S] (h : Wheel t (p₁ ++ e :: p₂)) {prev next : Nat}
    (hget : Slab.get t.entries e.key = some
      { token := e.token, interval := e.interval, link := { tick := e.tick, prev, next } }) :
    ∃ t', { t with entries := Slab.remove t.entries e.key }.unlink
        { tick := e.tick, prev, next } e.key = .ok t' ∧
      Unlinked t t' e.key { tick := e.tick, prev, next } := by
  -- The neighbours are other entries, so they are still there.
  have hocc := h.neighbour_isSome hget
  obtain ⟨t', hun, hframe, htick, hnext, hwheel, hlen, hget'⟩ :=
    unlink_eq (t := { t with entries := Slab.remove t.entries e.key })
      { tick := e.tick, prev, next } e.key (h.slotFor_lt e.tick)
      (by rw [LawfulSlab.get_remove, h.get_empty]; split <;> rfl)
      (fun hp => by
        have := hocc prev (Or.inl rfl) hp
        rw [LawfulSlab.get_remove, if_neg this.1]
        exact this.2)
      (fun hn => by
        have := hocc next (Or.inr rfl) hn
        rw [LawfulSlab.get_remove, if_neg this.1]
        exact this.2)
  refine ⟨t', hun, ⟨hframe.tickMs, hframe.startMs, hframe.mask, ?_⟩, htick, hnext, hwheel, ?_, ?_⟩
  · exact hframe.capacity.trans (LawfulSlab.capacity_remove _ _)
  · rw [hlen]
    exact LawfulSlab.len_remove _ _ (by simp [hget])
  · intro j
    rw [hget', LawfulSlab.get_remove]
    split <;> rfl

/-- `tickTo` unlinks the entry first, and then removes it. -/
theorem remove_unlinked [LawfulSlab S] (h : Wheel t (p₁ ++ e :: p₂)) {prev next : Nat}
    (hget : Slab.get t.entries e.key = some
      { token := e.token, interval := e.interval, link := { tick := e.tick, prev, next } }) :
    ∃ t₁ en, t.unlink { tick := e.tick, prev, next } e.key = .ok t₁ ∧
      Slab.tryRemove t₁.entries e.key = some (en, Slab.remove t₁.entries e.key) ∧
      en.token = e.token ∧ en.interval = e.interval ∧
      Unlinked t { t₁ with entries := Slab.remove t₁.entries e.key } e.key
        { tick := e.tick, prev, next } := by
  have hocc := h.neighbour_isSome hget
  obtain ⟨t₁, hun, hframe, htick, hnext, hwheel, hlen, hget₁⟩ :=
    unlink_eq { tick := e.tick, prev, next } e.key (h.slotFor_lt e.tick) h.get_empty
      (fun hp => (hocc prev (Or.inl rfl) hp).2) (fun hn => (hocc next (Or.inr rfl) hn).2)
  have hkey := hget₁ e.key
  rw [hget, Option.map_some] at hkey
  refine ⟨t₁, _, hun, by rw [Slab.tryRemove, hkey, Option.map_some], rfl, rfl,
    ⟨hframe.tickMs, hframe.startMs, hframe.mask, ?_⟩, htick, hnext, hwheel, ?_, ?_⟩
  · exact (LawfulSlab.capacity_remove _ _).trans hframe.capacity
  · rw [LawfulSlab.len_remove _ _ (by simp [hkey]), hlen]
  · intro j
    rw [LawfulSlab.get_remove, hget₁]

omit [Slab S] in
/-- Taking a pending timeout out leaves the others. -/
theorem removed_sublist : (p₁ ++ p₂).Sublist (p₁ ++ e :: p₂) :=
  (List.Sublist.refl p₁).append (List.sublist_cons_self e p₂)

omit [Slab S] in
/-- Only the timeout that was taken out is gone. -/
theorem eq_of_removed {x : Pending T} (hx : x ∈ p₁ ++ e :: p₂) (hgone : x ∉ p₁ ++ p₂) : x = e := by
  by_contra hne
  exact hgone (by simpa [hne] using hx)

/-- An entry that is neither removed nor redirected keeps its neighbours. -/
theorem Unlinked.links_eq (hu : Unlinked t t' key link) {j : Nat} (hj : j ≠ key)
    (hjp : j ≠ link.prev) (hjn : j ≠ link.next) : t'.links j = t.links j := by
  rw [links, links, hu.get, if_neg hj, Option.map_map]
  congr 1
  funext x
  simp [relink, hjp, hjn]

/-- The slot of the removed timeout is linked around it. -/
theorem Unlinked.slot_linked (h : Wheel t (p₁ ++ e :: p₂)) {prev next head' : Nat}
    (hget : Slab.get t.entries e.key = some
      { token := e.token, interval := e.interval, link := { tick := e.tick, prev, next } })
    (hu : Unlinked t t' e.key { tick := e.tick, prev, next })
    (hhead : t'.wheel[t.slotFor e.tick]? = some head') :
    ∃ last, Seg t'.links EMPTY head' (slotKeys t.mask (p₁ ++ p₂) (t.slotFor e.tick)) last
      EMPTY := by
  obtain ⟨head, -, hw⟩ := h.wheelAt_eq e.tick
  obtain ⟨last, hseg⟩ := h.linked _ _ hw
  have hnd := slotKeys_nodup t.mask (t.slotFor e.tick) h.keys
  have hempty : EMPTY ∉ slotKeys t.mask (p₁ ++ p₂) (t.slotFor e.tick) := by
    intro hm
    obtain ⟨x, hx, -, hk⟩ := mem_slotKeys.mp hm
    have := h.key_lt x (removed_sublist.subset hx)
    omega
  have hhead' : (if prev = EMPTY then next else head) = head' := by
    rw [hu.wheel] at hhead
    by_cases hp : prev = EMPTY
    · rw [if_pos hp, List.getElem?_set, if_pos rfl, if_pos (h.slotFor_lt _)] at hhead
      rw [if_pos hp]
      exact Option.some.inj hhead
    · rw [if_neg hp, hw] at hhead
      rw [if_neg hp]
      exact Option.some.inj hhead
  rw [slotKeys_append, slotFor, slotKeys_cons_self] at hseg hnd
  rw [slotKeys_append] at hempty
  rw [← hhead', slotKeys_append]
  refine hseg.unlink hnd hempty (by simp [links, hget]) ?_ ?_ ?_
  · -- The previous entry gets the new `next`.
    intro hp q m hlook
    have hpk := (h.neighbour_isSome hget prev (Or.inl rfl) hp).1
    have hpn := h.neighbours_ne hget hp
    rw [links, Option.map_eq_some_iff] at hlook
    obtain ⟨x, hx, hxq⟩ := hlook
    simp only [Prod.mk.injEq] at hxq
    simp [links, hu.get, hpk, hx, relink, hpn, hxq]
  · -- The next entry gets the new `prev`.
    intro hn q m hlook
    have hnk := (h.neighbour_isSome hget next (Or.inr rfl) hn).1
    have hpn : next ≠ prev := fun hpn => h.neighbours_ne hget (hpn ▸ hn) hpn.symm
    rw [links, Option.map_eq_some_iff] at hlook
    obtain ⟨x, hx, hxq⟩ := hlook
    simp only [Prod.mk.injEq] at hxq
    simp [links, hu.get, hnk, hx, relink, hpn, hxq]
  · intro j hj hjp hjn
    rw [← slotKeys_append] at hj
    exact hu.links_eq (ne_of_mem_slotKeys h.key_ne hj) hjp hjn

/-- Every other slot is linked as before. -/
theorem Unlinked.other_linked (h : Wheel t (p₁ ++ e :: p₂)) {prev next slot head' : Nat}
    (hget : Slab.get t.entries e.key = some
      { token := e.token, interval := e.interval, link := { tick := e.tick, prev, next } })
    (hu : Unlinked t t' e.key { tick := e.tick, prev, next }) (hslot : t.slotFor e.tick ≠ slot)
    (hhead : t'.wheel[slot]? = some head') :
    ∃ last, Seg t'.links EMPTY head' (slotKeys t.mask (p₁ ++ p₂) slot) last EMPTY := by
  have hw : t.wheel[slot]? = some head' := by
    rw [hu.wheel] at hhead
    by_cases hp : prev = EMPTY
    · rwa [if_pos hp, List.getElem?_set, if_neg hslot] at hhead
    · rwa [if_neg hp] at hhead
  obtain ⟨last, hseg⟩ := h.linked slot head' hw
  rw [slotKeys_append, slotKeys_cons_of_ne hslot, ← slotKeys_append] at hseg
  -- The redirected neighbours are in the slot of the removed timeout.
  have hother : ∀ j ∈ slotKeys t.mask (p₁ ++ p₂) slot, ¬ (j = prev ∨ j = next) := by
    intro j hj hk
    obtain ⟨x, hx, rfl, hxk⟩ := mem_slotKeys.mp hj
    have hne := h.key_lt x (removed_sublist.subset hx)
    have hm := h.neighbour_slot hget j hk (by omega)
    obtain ⟨y, hy, hys, hyk⟩ := mem_slotKeys.mp hm
    rw [eq_of_key_eq h.keys (removed_sublist.subset hy) (removed_sublist.subset hx)
      (hyk.trans hxk.symm)] at hys
    exact hslot hys.symm
  exact ⟨last, hseg.congr fun j hj => hu.links_eq (ne_of_mem_slotKeys h.key_ne hj)
    (fun hp => hother j hj (Or.inl hp)) fun hn => hother j hj (Or.inr hn)⟩

/-- The cursor moves on when it stands on the removed timeout, and stays in its slot. -/
theorem Unlinked.next_mem (h : Wheel t (p₁ ++ e :: p₂)) {prev next : Nat}
    (hget : Slab.get t.entries e.key = some
      { token := e.token, interval := e.interval, link := { tick := e.tick, prev, next } })
    (hu : Unlinked t t' e.key { tick := e.tick, prev, next }) :
    t'.next = EMPTY ∨ t'.next ∈ slotKeys t.mask (p₁ ++ p₂) (t.slotFor t.tick) := by
  rw [hu.next]
  -- The next timeout of the same slot, if the cursor is moved.
  by_cases hk : e.key = t.next
  · rw [if_pos hk]
    have hcur := h.next
    rw [← hk] at hcur
    have hkm : e.key ∈ slotKeys t.mask (p₁ ++ e :: p₂) (t.slotFor t.tick) := by
      refine hcur.resolve_left fun hk => ?_
      have := h.key_lt e (by simp)
      omega
    rw [key_mem_slotKeys_iff h.keys (by simp)] at hkm
    by_cases hn : next = EMPTY
    · exact Or.inl hn
    · have := h.neighbour_slot hget next (Or.inr rfl) hn
      rw [slotFor, hkm] at this
      exact Or.inr this
  · rw [if_neg hk]
    refine h.next.imp_right fun hm => ?_
    obtain ⟨x, hx, hxs, hxk⟩ := mem_slotKeys.mp hm
    refine mem_slotKeys.mpr ⟨x, ?_, hxs, hxk⟩
    rcases List.mem_append.mp hx with hx | hx
    · exact List.mem_append_left _ hx
    · rcases List.mem_cons.mp hx with rfl | hx
      · exact absurd hxk hk
      · exact List.mem_append_right _ hx

/-- The representation after a pending timeout was taken out. -/
theorem Wheel.unlinked (h : Wheel t (p₁ ++ e :: p₂)) {prev next : Nat}
    (hget : Slab.get t.entries e.key = some
      { token := e.token, interval := e.interval, link := { tick := e.tick, prev, next } })
    (hu : Unlinked t t' e.key { tick := e.tick, prev, next }) : Wheel t' (p₁ ++ p₂) where
  slots := by
    obtain ⟨k, hk, hmask⟩ := h.slots
    refine ⟨k, ?_, hu.frame.mask.trans hmask⟩
    rw [hu.wheel]
    split <;> simp [hk]
  capacity := hu.frame.capacity ▸ h.capacity
  len_le := by
    have := h.len_le
    have := hu.len
    rw [hu.frame.capacity]
    omega
  len := by
    have h₁ := h.len
    have h₂ := hu.len
    simp only [List.length_append, List.length_cons] at h₁ ⊢
    omega
  keys := h.keys.sublist (removed_sublist.map _)
  key_lt x hx := h.key_lt x (removed_sublist.subset hx)
  stored := by
    intro x hx
    -- The links of an entry that stays may have changed, the rest of it has not.
    obtain ⟨prev', next', hst⟩ := h.stored x (removed_sublist.subset hx)
    rw [Stored, hu.get, if_neg (h.key_ne x hx), hst]
    exact ⟨_, _, rfl⟩
  only := by
    intro k hk
    rw [hu.get] at hk
    by_cases hke : k = e.key
    · simp [hke] at hk
    · rw [if_neg hke, Option.isSome_map] at hk
      obtain ⟨x, hx, rfl⟩ := h.only k hk
      rcases List.mem_append.mp hx with hx | hx
      · exact ⟨x, List.mem_append_left _ hx, rfl⟩
      · rcases List.mem_cons.mp hx with rfl | hx
        · exact absurd rfl hke
        · exact ⟨x, List.mem_append_right _ hx, rfl⟩
  linked := by
    intro slot head' hhead
    rw [hu.frame.mask]
    -- Only the list of the slot that the entry was in gets shorter.
    by_cases hslot : t.slotFor e.tick = slot
    · subst hslot
      exact hu.slot_linked h hget hhead
    · exact hu.other_linked h hget hslot hhead
  next := by
    rw [slotFor, hu.tick, hu.frame.mask]
    exact hu.next_mem h hget

/-- The walk of the current slot after a pending timeout was taken out: the same entries, less
the removed one. -/
theorem cursor_unlinked (h : Wheel t (p₁ ++ e :: p₂)) {prev next : Nat}
    (hget : Slab.get t.entries e.key = some
      { token := e.token, interval := e.interval, link := { tick := e.tick, prev, next } })
    (hu : Unlinked t t' e.key { tick := e.tick, prev, next }) :
    cursor t' (p₁ ++ p₂) = (cursor t (p₁ ++ e :: p₂)).erase e.key := by
  rw [cursor, cursor, hu.next, slotFor, slotFor, hu.tick, hu.frame.mask]
  -- The removed timeout was in the slot that is walked, or the walk does not come to it.
  by_cases hslot : e.tick &&& t.mask = t.tick &&& t.mask
  · have hnd := slotKeys_nodup t.mask (t.slotFor e.tick) h.keys
    rw [slotKeys_append, slotFor, slotKeys_cons_self] at hnd
    rw [slotKeys_append, slotKeys_append, ← hslot, slotKeys_cons_self]
    refine fromKey_unlink hnd (fun hm => ?_) (h.neighbour_mem hget).2
    rw [← slotKeys_append] at hm
    obtain ⟨x, hx, -, hxk⟩ := mem_slotKeys.mp hm
    have := h.key_lt x (by rcases List.mem_append.mp hx with hx | hx <;> simp [hx])
    omega
  · have hnot : e.key ∉ slotKeys t.mask (p₁ ++ e :: p₂) (t.tick &&& t.mask) := by
      rw [key_mem_slotKeys_iff h.keys (by simp)]
      exact hslot
    have hk : e.key ≠ t.next := by
      intro hk
      rcases h.next with hn | hn
      · have := h.key_lt e (by simp)
        omega
      · exact hnot (hk ▸ hn)
    rw [if_neg hk, List.erase_of_not_mem fun hm => hnot (fromKey_suffix.subset hm),
      slotKeys_append, slotKeys_append, slotKeys_cons_of_ne hslot]

/-- A handle whose key and tick are those of a pending timeout clears it, and only it. -/
theorem clear_spec [LawfulSlab S] (h : Wheel t (p₁ ++ e :: p₂)) :
    ∃ t', t.clear e.handle = .ok (t', true) ∧ Wheel t' (p₁ ++ p₂) ∧ Frame t t' ∧
      t'.tick = t.tick ∧ cursor t' (p₁ ++ p₂) = (cursor t (p₁ ++ e :: p₂)).erase e.key := by
  obtain ⟨prev, next, hget⟩ := h.stored e (by simp)
  obtain ⟨t', hun, hu⟩ := unlink_removed h hget
  refine ⟨t', ?_, h.unlinked hget hu, hu.frame, hu.tick, cursor_unlinked h hget hu⟩
  simp [clear, Pending.handle, hget, Slab.tryRemove, hun]

/-- A handle that is no handle of a pending timeout is refused, and changes nothing. -/
theorem clear_stale (h : Wheel t p) {timeout : Timeout}
    (hstale : ∀ e ∈ p, e.handle ≠ timeout) : t.clear timeout = .ok (t, false) := by
  rw [clear]
  cases hget : Slab.get t.entries timeout.key with
  | none => simp [Slab.tryRemove, hget]
  | some en =>
    obtain ⟨e, he, hk⟩ := h.only timeout.key (by simp [hget])
    obtain ⟨prev, next, hst⟩ := h.stored e he
    rw [hk, hget, Option.some.injEq] at hst
    have htick : en.link.tick ≠ timeout.tick := by
      intro ht
      rw [hst] at ht
      exact hstale e he (by rw [Pending.handle, hk, show e.tick = timeout.tick from ht])
    simp [htick]

end Ruduo.Timer
