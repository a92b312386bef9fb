import Ruduo.Proofs.Timer.Insertion
import Ruduo.Proofs.Timer.Unlinking

/-!
# `Ruduo.Proofs.Timer.Timing`: when a pending timeout is handed out

`tickTo` walks the list of a slot once per revolution, at the ticks that fall on the slot. A
timeout inserted with a tick in the future is handed out at this tick. A timeout inserted with
a tick that is not in the future has missed the walk of its slot, and waits for the next tick
that falls on it. `dueTick slots s tick` is the tick at which a timeout inserted at the current
tick `s` is handed out.

`Timing t p due` is the invariant that ties the cursor, the current tick and the pending
timeouts: none is overdue, and the timeouts due at the current tick are exactly those that the
walk still has in front of it and would fire.

* `insert_timing`, `clear_timing`: insertion and clear keep it.
* `tickTo_spec`: `tickTo n` terminates. It hands out the first of the timeouts with the
  smallest `due`, when this is at most `n`, and otherwise changes nothing.
-/

set_option autoImplicit false

namespace Ruduo.Timer

open Lib (Slab LawfulSlab fromKey fromKey_self fromKey_append_of_not_mem fromKey_of_not_mem
  fromKey_suffix fromKey_headD PicksFirst)

variable {S : Type → Type} [Slab S] {T : Type}

/-- The tick at which a timeout is handed out that was inserted at the current tick `s`. -/
def dueTick (slots s tick : Nat) : Nat :=
  if s < tick then tick else s + (slots - (s - tick) % slots)

section dueTick
variable {slots s tick : Nat}

/-- A tick that is still to come is the due tick. -/
theorem dueTick_of_lt (h : s < tick) : dueTick slots s tick = tick := if_pos h

/-- A due tick is still to come. -/
theorem lt_dueTick (hs : 0 < slots) : s < dueTick slots s tick := by
  have := Nat.mod_lt (s - tick) hs
  unfold dueTick
  split <;> omega

/-- A due tick is never before the tick. -/
theorem le_dueTick : tick ≤ dueTick slots s tick := by
  unfold dueTick
  split <;> omega

/-- The due tick falls on the slot of the timeout. -/
theorem dueTick_mod (hs : 0 < slots) : dueTick slots s tick % slots = tick % slots := by
  unfold dueTick
  split
  · rfl
  · have hlt := Nat.mod_lt (s - tick) hs
    have hdm := Nat.div_add_mod (s - tick) slots
    have hsum : s + (slots - (s - tick) % slots) = tick + slots * ((s - tick) / slots + 1) := by
      rw [Nat.mul_add, Nat.mul_one]
      omega
    rw [hsum, Nat.add_mul_mod_self_left]

/-- Between the insertion and the due tick, a tick on the slot is earlier than the timeout's
own tick, so the walk passes the timeout over. -/
theorem lt_tick_of_lt_dueTick (hs : 0 < slots) {u : Nat} (h₁ : s < u)
    (h₂ : u < dueTick slots s tick) (hmod : u % slots = tick % slots) : u < tick := by
  unfold dueTick at h₂
  split at h₂
  · exact h₂
  · exfalso
    have hlt := Nat.mod_lt (s - tick) hs
    have hdm := Nat.div_add_mod (s - tick) slots
    obtain ⟨j, hj⟩ := Nat.dvd_of_mod_eq_zero (Nat.sub_mod_eq_zero_of_mod_eq hmod)
    have hlow : slots * ((s - tick) / slots) < slots * j := by omega
    have hhigh : slots * j < slots * ((s - tick) / slots + 1) := by
      rw [Nat.mul_add, Nat.mul_one]
      omega
    have := Nat.lt_of_mul_lt_mul_left hlow
    have := Nat.lt_of_mul_lt_mul_left hhigh
    omega

end dueTick

/-- The pending timeouts `p` are handed out at the ticks `due`. -/
structure Timing (t : Timer S T) (p : List (Pending T)) (due : Pending T → Nat) : Prop where
  bound : t.tick ≤ u64Max
  /-- No due tick lies behind the wheel. -/
  ge : ∀ e ∈ p, t.tick ≤ due e
  /-- Due at the wheel's tick is what the cursor still reaches and whose tick has come. -/
  now : ∀ e ∈ p, due e = t.tick ↔ e.key ∈ cursor t p ∧ e.tick ≤ t.tick
  /-- Nothing is due before the tick it was aimed at. -/
  tick_le : ∀ e ∈ p, e.tick ≤ due e
  /-- A due tick falls on the slot of the entry. -/
  slot : ∀ e ∈ p, due e % t.wheel.length = e.tick % t.wheel.length
  /-- The earlier ticks to come that fall on this slot are before the tick of the entry. -/
  first : ∀ e ∈ p, ∀ u, t.tick < u → u < due e →
    u % t.wheel.length = e.tick % t.wheel.length → u < e.tick

section
variable {t t' : Timer S T} {p p₁ p₂ : List (Pending T)} {e : Pending T}
  {due due' : Pending T → Nat}

omit [Slab S] in
/-- The timing depends on `due` only at the pending timeouts. -/
theorem Timing.congr (h : Timing t p due) (heq : ∀ e ∈ p, due' e = due e) : Timing t p due' where
  bound := h.bound
  ge e he := heq e he ▸ h.ge e he
  now e he := heq e he ▸ h.now e he
  tick_le e he := heq e he ▸ h.tick_le e he
  slot e he := heq e he ▸ h.slot e he
  first e he := heq e he ▸ h.first e he

/-- The timeouts of a slot have distinct keys, so a key of the slot gives its timeout. -/
private theorem key_mem_cursor (h : Wheel t p) (he : e ∈ p) (hk : e.key ∈ cursor t p) :
    t.slotFor t.tick = t.slotFor e.tick := by
  have := fromKey_suffix.subset hk
  rw [key_mem_slotKeys_iff h.keys he] at this
  exact this.symm

/-- The wheel has the same number of slots as long as the mask is the same. -/
theorem Wheel.length_eq (h : Wheel t p) {p' : List (Pending T)} (h' : Wheel t' p')
    (hmask : t'.mask = t.mask) : t'.wheel.length = t.wheel.length := by
  obtain ⟨k, hk, hm⟩ := h.slots
  obtain ⟨k', hk', hm'⟩ := h'.slots
  have := Nat.two_pow_pos k
  have := Nat.two_pow_pos k'
  omega

/-- A new timeout keeps the timing of the others, and is due at `dueTick`. -/
theorem insert_timing (h : Wheel t p) (ht : Timing t p due) (h' : Wheel t' (e :: p))
    (hframe : Frame t t') (htick : t'.tick = t.tick) (hcur : cursor t' (e :: p) = cursor t p)
    (hfresh : ∀ x ∈ p, x.key ≠ e.key) :
    Timing t' (e :: p) fun x =>
      if x.key = e.key then dueTick t.wheel.length t.tick e.tick else due x := by
  have hlen := h.length_eq h' hframe.mask
  have hpos := h.length_pos
  -- For each field: first the new timeout, then an old one.
  refine ⟨htick ▸ ht.bound, ?_, ?_, ?_, ?_, ?_⟩ <;> intro x hx <;>
    rcases List.mem_cons.mp hx with rfl | hx
  · rw [if_pos rfl, htick]
    exact (lt_dueTick hpos).le
  · rw [if_neg (hfresh x hx), htick]
    exact ht.ge x hx
  · rw [if_pos rfl, htick, hcur]
    constructor
    · intro hd
      exact absurd hd (lt_dueTick hpos).ne'
    · -- Its key is fresh, so the walk in progress does not come to it.
      rintro ⟨hk, -⟩
      obtain ⟨y, hy, -, hyk⟩ := mem_slotKeys.mp (fromKey_suffix.subset hk)
      exact absurd hyk (hfresh y hy)
  · rw [if_neg (hfresh x hx), htick, hcur]
    exact ht.now x hx
  · rw [if_pos rfl]
    exact le_dueTick
  · rw [if_neg (hfresh x hx)]
    exact ht.tick_le x hx
  · rw [if_pos rfl, hlen]
    exact dueTick_mod hpos
  · rw [if_neg (hfresh x hx), hlen]
    exact ht.slot x hx
  · intro u
    rw [if_pos rfl, htick, hlen]
    exact lt_tick_of_lt_dueTick hpos
  · intro u
    rw [if_neg (hfresh x hx), htick, hlen]
    exact ht.first x hx u

/-- Taking a timeout out keeps the timing of the others. -/
theorem clear_timing (h : Wheel t (p₁ ++ e :: p₂)) (ht : Timing t (p₁ ++ e :: p₂) due)
    (h' : Wheel t' (p₁ ++ p₂)) (hframe : Frame t t') (htick : t'.tick = t.tick)
    (hcur : cursor t' (p₁ ++ p₂) = (cursor t (p₁ ++ e :: p₂)).erase e.key) :
    Timing t' (p₁ ++ p₂) due := by
  have hlen := h.length_eq h' hframe.mask
  have hsub : ∀ x ∈ p₁ ++ p₂, x ∈ p₁ ++ e :: p₂ := fun _ hx => removed_sublist.subset hx
  refine ⟨htick ▸ ht.bound, ?_, ?_, ?_, ?_, ?_⟩ <;> intro x hx
  · rw [htick]
    exact ht.ge x (hsub x hx)
  · rw [htick, hcur, List.mem_erase_of_ne (h.key_ne x hx)]
    exact ht.now x (hsub x hx)
  · exact ht.tick_le x (hsub x hx)
  · rw [hlen]
    exact ht.slot x (hsub x hx)
  · rw [htick, hlen]
    exact ht.first x (hsub x hx)

end

/-! ### The walk -/

section tickTo
variable {t t' : Timer S T} {p rest : List (Pending T)} {due : Pending T → Nat} {n : Nat}

/-- What `tickTo n` may leave and answer. -/
inductive Ticked (t : Timer S T) (p : List (Pending T)) (due : Pending T → Nat) (n : Nat) :
    Timer S T → Option (T × Nat) → List (Pending T) → Prop where
  /-- A timeout has come due. The first of the earliest ones is handed out. -/
  | fired {t' : Timer S T} {rest : List (Pending T)} (e : Pending T)
      (hpick : PicksFirst due p e rest) (hdue : due e ≤ n) (htick : t'.tick = due e) :
      Ticked t p due n t' (some (e.token, e.interval)) rest
  /-- Nothing has come due. -/
  | idle {t' : Timer S T} (hnone : ∀ e ∈ p, n < due e) (htick : t'.tick = max t.tick (n + 1)) :
      Ticked t p due n t' none p

omit [Slab S] in
/-- A step of the walk that only moves the cursor leaves the answer to the steps after it. -/
theorem Ticked.of_max_eq {t₁ t' : Timer S T} {r : Option (T × Nat)}
    (h : Ticked t₁ p due n t' r rest) (htick : max t₁.tick (n + 1) = max t.tick (n + 1)) :
    Ticked t p due n t' r rest := by
  cases h with
  | fired e hpick hdue htick' => exact .fired e hpick hdue htick'
  | idle hnone htick' => exact .idle hnone (htick'.trans htick)

/-- With an empty cursor nothing is due at the current tick, and the walk goes on with the
whole slot of the next tick. -/
private theorem advance_spec (h : Wheel t p) (ht : Timing t p due) (hnext : t.next = EMPTY)
    (hmax : t.tick + 1 ≤ u64Max) :
    ∃ head, t.wheelAt (t.slotFor (t.tick + 1)) = .ok head ∧
      Wheel { t with tick := t.tick + 1, next := head } p ∧
      Timing { t with tick := t.tick + 1, next := head } p due := by
  obtain ⟨head, hat, hw⟩ := h.wheelAt_eq (t.tick + 1)
  have hhead := h.head_eq hw
  have hcur : cursor { t with tick := t.tick + 1, next := head } p
      = slotKeys t.mask p (t.slotFor (t.tick + 1)) := by
    show fromKey head (slotKeys t.mask p (t.slotFor (t.tick + 1))) = _
    cases hks : slotKeys t.mask p (t.slotFor (t.tick + 1)) with
    | nil => exact fromKey_of_not_mem List.not_mem_nil
    | cons k ks => rw [hhead, hks, List.headD_cons, fromKey_self]
  -- What is due at the current tick would be in front of the cursor.
  have hlater : ∀ e ∈ p, t.tick < due e := by
    intro e he
    have hge := ht.ge e he
    have hno : due e ≠ t.tick := by
      rw [Ne, ht.now e he, cursor, hnext, fromKey_of_not_mem (h.empty_not_mem _)]
      rintro ⟨hk, -⟩
      exact absurd hk List.not_mem_nil
    omega
  refine ⟨head, hat, ⟨h.slots, h.capacity, h.len_le, h.len, h.keys, h.key_lt, h.stored, h.only,
    h.linked, ?_⟩, ⟨hmax, hlater, fun e he => ?_, ht.tick_le, ht.slot, fun e he u hu => ?_⟩⟩
  · show head = EMPTY ∨ head ∈ slotKeys t.mask p (t.slotFor (t.tick + 1))
    cases hks : slotKeys t.mask p (t.slotFor (t.tick + 1)) with
    | nil => exact Or.inl (by rw [hhead, hks, List.headD_nil])
    | cons k ks => exact Or.inr (by rw [hhead, hks, List.headD_cons]; exact List.mem_cons_self)
  · rw [hcur, key_mem_slotKeys_iff h.keys he]
    show due e = t.tick + 1 ↔ t.slotFor e.tick = t.slotFor (t.tick + 1) ∧ e.tick ≤ t.tick + 1
    rw [h.slotFor_eq, h.slotFor_eq]
    constructor
    · intro hd
      have := ht.slot e he
      have := ht.tick_le e he
      rw [hd] at *
      exact ⟨by omega, by omega⟩
    · -- Due later, the timeout would be passed over at `t.tick + 1` for its own tick being later.
      rintro ⟨hslot, hle⟩
      by_contra hne
      have := hlater e he
      have := ht.first e he (t.tick + 1) (by omega) (by omega) hslot.symm
      omega
  · exact ht.first e he u (by have : t.tick + 1 < u := hu; omega)

/-- The walk stands on a pending timeout of the current slot. In front of it are this timeout
and the older ones of the slot. -/
private theorem cursor_split (h : Wheel t p) (hnext : t.next ≠ EMPTY) :
    ∃ p₁ e p₂, p = p₁ ++ e :: p₂ ∧ e.key = t.next ∧
      cursor t p = e.key :: slotKeys t.mask p₂ (t.slotFor t.tick) := by
  obtain ⟨e, he, hslot, hk⟩ := mem_slotKeys.mp (h.next.resolve_left hnext)
  obtain ⟨p₁, p₂, rfl⟩ := List.append_of_mem he
  have hnot : e.key ∉ slotKeys t.mask p₁ (t.slotFor t.tick) := by
    intro hm
    obtain ⟨x, hx, -, hxk⟩ := mem_slotKeys.mp hm
    exact h.key_ne x (List.mem_append_left _ hx) hxk
  refine ⟨p₁, e, p₂, rfl, hk, ?_⟩
  rw [cursor, ← hk, slotKeys_append, fromKey_append_of_not_mem hnot, ← hslot, slotKeys_cons_self,
    fromKey_self]

/-- An entry of a later revolution is passed over. It stays pending, and it was not due. -/
private theorem pass_spec {p₁ p₂ : List (Pending T)} {e : Pending T} (h : Wheel t (p₁ ++ e :: p₂))
    (ht : Timing t (p₁ ++ e :: p₂) due)
    (hcur : cursor t (p₁ ++ e :: p₂) = e.key :: slotKeys t.mask p₂ (t.slotFor t.tick))
    (hlate : t.tick < e.tick) {prev next : Nat}
    (hget : Slab.get t.entries e.key = some
      { token := e.token, interval := e.interval, link := { tick := e.tick, prev, next } }) :
    Wheel { t with next } (p₁ ++ e :: p₂) ∧ Timing { t with next } (p₁ ++ e :: p₂) due ∧
      cursor { t with next } (p₁ ++ e :: p₂) = slotKeys t.mask p₂ (t.slotFor t.tick) := by
  have hslot : t.slotFor e.tick = t.slotFor t.tick :=
    (key_mem_cursor h (by simp) (by rw [hcur]; simp)).symm
  obtain ⟨-, hnext⟩ := h.neighbour_mem hget
  have hks : slotKeys t.mask (p₁ ++ e :: p₂) (t.slotFor t.tick)
      = slotKeys t.mask p₁ (t.slotFor t.tick)
        ++ e.key :: slotKeys t.mask p₂ (t.slotFor t.tick) := by
    rw [slotKeys_append, ← hslot, slotFor, slotKeys_cons_self]
  have hnd := slotKeys_nodup t.mask (t.slotFor t.tick) h.keys
  have hempty := h.empty_not_mem (t.slotFor t.tick)
  have hcur' : cursor { t with next } (p₁ ++ e :: p₂)
      = slotKeys t.mask p₂ (t.slotFor t.tick) := by
    show fromKey next (slotKeys t.mask (p₁ ++ e :: p₂) (t.slotFor t.tick)) = _
    rw [hks] at hnd hempty ⊢
    rw [hnext, hslot]
    exact fromKey_headD hnd hempty
  refine ⟨⟨h.slots, h.capacity, h.len_le, h.len, h.keys, h.key_lt, h.stored, h.only, h.linked, ?_⟩,
    ⟨ht.bound, ht.ge, fun x hx => ?_, ht.tick_le, ht.slot, ht.first⟩, hcur'⟩
  · show next = EMPTY ∨ next ∈ slotKeys t.mask (p₁ ++ e :: p₂) (t.slotFor t.tick)
    rw [hnext, hslot, hks]
    cases slotKeys t.mask p₂ (t.slotFor t.tick) <;> simp
  · rw [ht.now x hx, hcur', hcur, List.mem_cons]
    -- The timeout that was passed over has a tick in the future.
    constructor
    · rintro ⟨hxk | hxk, hxt⟩
      · rw [eq_of_key_eq h.keys hx (by simp) hxk] at hxt
        omega
      · exact ⟨hxk, hxt⟩
    · rintro ⟨hxk, hxt⟩
      exact ⟨Or.inr hxk, hxt⟩

/-- An entry whose tick has come is the first of those that are due at the current tick. -/
private theorem fire_picks {p₁ p₂ : List (Pending T)} {e : Pending T} (h : Wheel t (p₁ ++ e :: p₂))
    (ht : Timing t (p₁ ++ e :: p₂) due)
    (hcur : cursor t (p₁ ++ e :: p₂) = e.key :: slotKeys t.mask p₂ (t.slotFor t.tick))
    (hdue : e.tick ≤ t.tick) :
    PicksFirst due (p₁ ++ e :: p₂) e (p₁ ++ p₂) ∧ due e = t.tick := by
  have hnow : due e = t.tick := (ht.now e (by simp)).mpr ⟨by rw [hcur]; simp, hdue⟩
  refine ⟨⟨p₁, p₂, rfl, rfl, fun x hx => ?_, fun x hx => hnow ▸ ht.ge x (by simp [hx])⟩, hnow⟩
  have hge := ht.ge x (by simp [hx])
  have hne : due x ≠ t.tick := by
    rw [Ne, ht.now x (by simp [hx]), hcur, List.mem_cons]
    -- The key of a younger timeout is neither the fired one nor one of an older timeout.
    rintro ⟨hk | hk, -⟩
    · exact h.key_ne x (by simp [hx]) hk
    · obtain ⟨y, hy, -, hyk⟩ := mem_slotKeys.mp hk
      have hnd := h.keys
      rw [List.map_append, List.nodup_append] at hnd
      exact hnd.2.2 x.key (List.mem_map_of_mem hx) y.key
        (List.mem_map_of_mem (List.mem_cons_of_mem _ hy)) hyk.symm
  omega

/-- The walk ahead: the ticks up to `n`, each with all pending timeouts, and the rest of the
current slot. -/
def walk (t : Timer S T) (p : List (Pending T)) (n : Nat) : Nat :=
  if t.tick ≤ n then (n + 1 - t.tick) * (p.length + 1) + (cursor t p).length else 0

omit [Slab S] in
/-- The cursor holds no more than there is. -/
private theorem cursor_length_le : (cursor t p).length ≤ p.length := by
  refine (fromKey_suffix.length_le).trans ?_
  rw [slotKeys, List.length_map]
  exact List.length_filter_le _ _

omit [Slab S] in
/-- One tick shortens the walk. -/
private theorem walk_advance (p : List (Pending T)) (head : Nat) (hle : t.tick ≤ n) :
    walk { t with tick := t.tick + 1, next := head } p n < walk t p n := by
  have hcur : (cursor { t with tick := t.tick + 1, next := head } p).length ≤ p.length :=
    cursor_length_le
  rw [walk, walk, if_pos hle]
  obtain ⟨d, rfl⟩ := Nat.exists_eq_add_of_le hle
  have hd : t.tick + d + 1 - t.tick = d + 1 := by omega
  rw [hd, Nat.add_mul, Nat.one_mul]
  split
  · rw [show t.tick + d + 1 - (t.tick + 1) = d by omega]
    omega
  · omega

/-- The loop of `tickTo` ends when it is given more passes than the walk is long. Its only
fault is the overflow of the tick, when `n` is `u64::MAX`. -/
private theorem tickToLoop_spec [LawfulSlab S] :
    ∀ (fuel : Nat) (t : Timer S T), Wheel t p → Timing t p due → walk t p n < fuel →
      (∃ t' r rest, tickToLoop n fuel t = .ok (t', r) ∧ Wheel t' rest ∧ Timing t' rest due ∧
        Frame t t' ∧ Ticked t p due n t' r rest) ∨
      (tickToLoop n fuel t = .error .arithmetic ∧ u64Max ≤ n) := by
  -- By induction on the fuel: every step that does not return makes the walk shorter.
  intro fuel
  induction fuel with
  | zero => intro t _ _ hwalk; omega
  | succ fuel ih =>
    intro t h ht hwalk
    rw [tickToLoop]
    by_cases hle : t.tick ≤ n
    · rw [if_pos hle]
      by_cases hnext : t.next = EMPTY
      · simp only [hnext, if_true]
        by_cases hmax : t.tick + 1 ≤ u64Max
        · -- The cursor is empty: the next tick.
          obtain ⟨head, hat, h', ht'⟩ := advance_spec h ht hnext hmax
          have hadd : u64Add t.tick 1 = .ok (t.tick + 1) := u64Add_eq_ok.mpr ⟨hmax, rfl⟩
          simp only [hadd, ok_bind, hat]
          refine (ih _ h' ht' (by have := walk_advance p head hle; omega)).imp_left ?_
          rintro ⟨t', r, rest, hloop, hw, htm, hframe, hticked⟩
          refine ⟨t', r, rest, hloop, hw, htm,
            ⟨hframe.tickMs, hframe.startMs, hframe.mask, hframe.capacity⟩, hticked.of_max_eq ?_⟩
          show max (t.tick + 1) (n + 1) = max t.tick (n + 1)
          omega
        · -- The tick cannot advance any more.
          rw [u64Add, if_neg hmax]
          have hbound := ht.bound
          exact Or.inr ⟨rfl, by omega⟩
      · -- The cursor stands on the pending timeout `e`.
        obtain ⟨p₁, e, p₂, rfl, hk, hcur⟩ := cursor_split h hnext
        obtain ⟨prev, next, hget⟩ := h.stored e (by simp)
        have hat := entryAt_eq (hk ▸ hget)
        simp only [hnext, if_false, hat, ok_bind]
        by_cases hdue : e.tick ≤ t.tick
        · -- It is due: it is taken out and handed out.
          rw [if_pos hdue]
          obtain ⟨t₁, en, hun, hrem, htok, hint, hu⟩ := remove_unlinked h hget
          obtain ⟨hpick, hnow⟩ := fire_picks h ht hcur hdue
          have h' := h.unlinked hget hu
          refine Or.inl ⟨_, _, p₁ ++ p₂, ?_, h', clear_timing h ht h' hu.frame hu.tick
            (cursor_unlinked h hget hu), hu.frame,
            .fired e hpick (by omega) (hu.tick.trans hnow.symm)⟩
          rw [← hk, hun, ok_bind, hrem, ← htok, ← hint]
        · -- It belongs to a later round: the cursor passes it over.
          rw [if_neg hdue]
          obtain ⟨h', ht', hcur'⟩ := pass_spec h ht hcur (by omega) hget
          have hwalk' : walk { t with next } (p₁ ++ e :: p₂) n < walk t (p₁ ++ e :: p₂) n := by
            rw [walk, walk, if_pos hle, if_pos (show t.tick ≤ n from hle), hcur', hcur,
              List.length_cons]
            exact Nat.lt_succ_self _
          refine (ih _ h' ht' (by omega)).imp_left ?_
          rintro ⟨t', r, rest, hloop, hw, htm, hframe, hticked⟩
          exact ⟨t', r, rest, hloop, hw, htm,
            ⟨hframe.tickMs, hframe.startMs, hframe.mask, hframe.capacity⟩, hticked.of_max_eq rfl⟩
    · -- The walk has passed `n`, and everything pending is due later.
      rw [if_neg hle]
      refine Or.inl ⟨t, none, p, rfl, h, ht, Frame.refl t, .idle (fun e he => ?_) (by omega)⟩
      have := ht.ge e he
      omega

/-- `tickTo n` ends. It hands out the first of the timeouts with the smallest due tick, when
this is at most `n`, and takes it out; otherwise it keeps every pending timeout. -/
theorem tickTo_spec [LawfulSlab S] (h : Wheel t p) (ht : Timing t p due) :
    (∃ t' r rest, t.tickTo n = .ok (t', r) ∧ Wheel t' rest ∧ Timing t' rest due ∧
      Frame t t' ∧ Ticked t p due n t' r rest) ∨
    (t.tickTo n = .error .arithmetic ∧ u64Max ≤ n) := by
  refine tickToLoop_spec _ t h ht ?_
  rw [walk, tickToFuel, h.len]
  have : (cursor t p).length ≤ p.length := cursor_length_le
  split
  · rw [show n + 2 - t.tick = n + 1 - t.tick + 1 by omega, Nat.add_mul, Nat.one_mul]
    omega
  · omega

/-- `tickTo n` returns when `n` is below `u64::MAX`. -/
theorem tickTo_returns [LawfulSlab S] (h : Wheel t p) (ht : Timing t p due) (hn : n < u64Max) :
    ∃ t' r rest, t.tickTo n = .ok (t', r) ∧ Wheel t' rest ∧ Timing t' rest due ∧
      Frame t t' ∧ Ticked t p due n t' r rest := by
  rcases tickTo_spec h ht with hok | ⟨-, hmax⟩
  · exact hok
  · omega

/-- A call of `tickTo` that returned took at most one timeout out. -/
theorem tickTo_ok [LawfulSlab S] (h : Wheel t p) (ht : Timing t p due) {r : Option (T × Nat)}
    (hok : t.tickTo n = .ok (t', r)) :
    ∃ rest, Wheel t' rest ∧ Timing t' rest due ∧ Frame t t' ∧ Ticked t p due n t' r rest := by
  rcases tickTo_spec (n := n) h ht with ⟨t₁, r₁, rest, h₁, hrest⟩ | ⟨herr, -⟩
  · obtain ⟨rfl, rfl⟩ := Prod.mk.inj (Except.ok.inj (hok.symm.trans h₁))
    exact ⟨rest, hrest⟩
  · rw [herr] at hok
    cases hok

end tickTo

end Ruduo.Timer
