import Ruduo.Proofs.Timer.Lateness
import Ruduo.Spec.Representation

/-!
# `Ruduo.Proofs.Timer.Representation`: the lists of the wheel

`Wheel t p` has the lists of the slots as segments of the store. Read forward and backward they
are the two kinds of links, so the lists are `slotKeys t.mask p`:

* `Wheel.wellLinked`: the links are those of the lists.
* `WellLinked.unique`: no other lists fit.
* `exec_timing`: every operation with a tick below `u64::MAX` returns, and keeps the invariant.
* `new_wellLinked`: so the links fit after every operation of every run.
-/

set_option autoImplicit false

namespace Ruduo.Timer

open Lib (Slab LawfulSlab Path Seg Follows)

variable {S : Type → Type} [Slab S] {T : Type} {t : Timer S T} {p : List (Pending T)}
  {due : Pending T → Nat} {lists lists' : Nat → List Nat} {slot key : Nat}

/-- The key after another one is the second part of its links. -/
theorem nextOf_eq (t : Timer S T) : t.nextOf = fun key => (t.links key).map Prod.snd := by
  funext key
  simp [nextOf, links, Function.comp_def]

/-- The key before another one is the first part of its links. -/
theorem prevOf_eq (t : Timer S T) : t.prevOf = fun key => (t.links key).map Prod.fst := by
  funext key
  simp [prevOf, links, Function.comp_def]

/-- The lists are determined by the timer. -/
theorem WellLinked.unique (h : WellLinked t lists) (h' : WellLinked t lists')
    (hslot : slot < t.wheel.length) : lists slot = lists' slot :=
  have hhead := List.getElem?_eq_getElem hslot
  (h.forward slot _ hhead).unique (h'.forward slot _ hhead)

namespace Wheel

/-- A live entry belongs to a pending timeout with its tick. -/
theorem pending_of_get (h : Wheel t p) {e : Entry T} (hget : Slab.get t.entries key = some e) :
    ∃ x ∈ p, x.key = key ∧ x.tick = e.link.tick := by
  obtain ⟨x, hx, hk⟩ := h.only key (by simp [hget])
  obtain ⟨prev, next, hst⟩ := h.stored x hx
  rw [hk, hget] at hst
  exact ⟨x, hx, hk, by rw [Option.some.inj hst]⟩

/-- The list of the slot of a live entry. -/
theorem seg_of_get (h : Wheel t p) {e : Entry T} (hget : Slab.get t.entries key = some e) :
    ∃ head last, Seg t.links EMPTY head (slotKeys t.mask p (t.slotFor e.link.tick)) last EMPTY ∧
      key ∈ slotKeys t.mask p (t.slotFor e.link.tick) := by
  obtain ⟨x, hx, hk, htick⟩ := h.pending_of_get hget
  obtain ⟨head, -, hw⟩ := h.wheelAt_eq e.link.tick
  obtain ⟨last, hseg⟩ := h.linked _ _ hw
  exact ⟨head, last, hseg, mem_slotKeys.mpr ⟨x, hx, by rw [htick, slotFor], hk⟩⟩

/-- The links of the wheel are those of the lists of pending timeouts. -/
theorem wellLinked (h : Wheel t p) : WellLinked t (slotKeys t.mask p) where
  forward slot head hhead := by
    -- Every field is read off the segment of its slot, see `Lib.DoublyLinked`.
    obtain ⟨last, hseg⟩ := h.linked slot head hhead
    rw [nextOf_eq]
    exact hseg.path_next (h.empty_not_mem slot)
  backward slot hslot := by
    obtain ⟨last, hseg⟩ := h.linked slot _ (List.getElem?_eq_getElem hslot)
    have hpath := hseg.path_prev (h.empty_not_mem slot)
    have hlast : last = (slotKeys t.mask p slot).getLastD EMPTY := by
      simpa [List.getLastD_eq_getLast?] using hpath.head_eq
    rw [prevOf_eq, ← hlast]
    exact hpath
  head_prev slot head hhead hne := by
    obtain ⟨last, hseg⟩ := h.linked slot head hhead
    obtain ⟨m, hlook⟩ := hseg.head_prev hne
    simp [prevOf_eq, hlook]
  next_prev key next hnext hne := by
    obtain ⟨e, hget, rfl⟩ := Option.map_eq_some_iff.mp hnext
    obtain ⟨head, last, hseg, hmem⟩ := h.seg_of_get hget
    have hlinks : t.links key = some (e.link.prev, e.link.next) := by simp [links, hget]
    obtain ⟨m, hlook⟩ := hseg.next_prev hmem hlinks hne
    simp [prevOf_eq, hlook]
  prev_next key prev hprev hne := by
    obtain ⟨e, hget, rfl⟩ := Option.map_eq_some_iff.mp hprev
    obtain ⟨head, last, hseg, hmem⟩ := h.seg_of_get hget
    have hlinks : t.links key = some (e.link.prev, e.link.next) := by simp [links, hget]
    obtain ⟨q, hlook⟩ := hseg.prev_next hmem hlinks hne
    simp [nextOf_eq, hlook]
  slot_lt := h.slotFor_lt
  count key e hget slot hslot := by
    obtain ⟨x, hx, hk, htick⟩ := h.pending_of_get hget
    have hnd := slotKeys_nodup t.mask slot h.keys
    -- The tick of an entry says in which list it is. No list has a key twice.
    have hmem : key ∈ slotKeys t.mask p slot ↔ t.slotFor e.link.tick = slot := by
      rw [← hk, ← htick]
      exact key_mem_slotKeys_iff h.keys hx
    split
    · rename_i heq
      exact List.count_eq_one_of_mem hnd (hmem.mpr heq.symm)
    · rename_i hne
      exact List.count_eq_zero.mpr fun hm => hne (hmem.mp hm).symm
  live slot hslot key hk := by
    obtain ⟨e, hget⟩ := h.get_isSome_of_mem_slotKeys hk
    rw [hget]
    rfl
  cursor := by
    refine h.next.imp_right fun hm => ?_
    obtain ⟨e, hget⟩ := h.get_isSome_of_mem_slotKeys hm
    exact ⟨by rw [hget]; rfl, hm⟩

end Wheel

variable [LawfulSlab S]

/-- Every operation with a tick below `u64::MAX` returns and keeps the invariant. -/
theorem exec_timing (h : Wheel t p) (ht : Timing t p due) {op : TimerOp T} (hop : op.Bounded) :
    ∃ t' out p' due', t.exec op = .ok (t', out) ∧ Wheel t' p' ∧ Timing t' p' due' := by
  cases op with
  | insert token tick interval =>
    rcases insert_cases h ht token tick interval with
      ⟨-, hins⟩ | ⟨t', e, due', hins, -, -, h', ht', -⟩
    · exact ⟨t, .inserted (.error .overflow), p, due, by simp only [exec, hins, ok_bind], h, ht⟩
    · exact ⟨t', .inserted (.ok e.handle), e :: p, due', by simp only [exec, hins, ok_bind], h',
        ht'⟩
  | clear timeout =>
    rcases clear_cases h ht timeout with
      ⟨t', p₁, e, p₂, hclear, -, -, h', ht', -⟩ | ⟨hclear, -⟩
    · exact ⟨t', .cleared true, p₁ ++ p₂, due, by simp only [exec, hclear, ok_bind], h', ht'⟩
    · exact ⟨t, .cleared false, p, due, by simp only [exec, hclear, ok_bind], h, ht⟩
  | tickTo n =>
    obtain ⟨t', r, rest, htick, h', ht', -⟩ := tickTo_returns h ht hop
    exact ⟨t', .ticked r, rest, due, by simp only [exec, htick, ok_bind], h', ht'⟩

/-- **The representation invariant of the wheel.** In every run of operations from a new timer,
with insertions at any tick, with handles of any key and tick, and with ticks below `u64::MAX`,
no operation meets a vacant key or an index out of range, each call of `tickTo` ends, and the
slab, the lists of the slots and the cursor fit together before and after every operation. -/
theorem new_wellLinked {tickMs slots cap : Nat} (hnew : Timer.new tickMs slots cap = .ok t)
    (ops : List (TimerOp T)) :
    ∃ lists, WellLinked t lists ∧
      Follows exec (fun _ _ op => op.Bounded) (fun _ _ _ _ t' lists' => WellLinked t' lists')
        t lists ops := by
  obtain ⟨hw, htick, -⟩ := new_wheel hnew
  refine ⟨slotKeys t.mask [], hw.wellLinked, ?_⟩
  refine Follows.of_simulation
    (fun u lists => ∃ p due, Wheel u p ∧ Timing u p due ∧ lists = slotKeys u.mask p) ?_ ops t _
    ⟨[], fun e => e.tick, hw, timing_nil _ (by rw [htick]; exact Nat.zero_le _), rfl⟩
  rintro u lists op ⟨p, due, hu, ht, rfl⟩ hop
  obtain ⟨u', out, p', due', hexec, hu', ht'⟩ := exec_timing hu ht hop
  exact ⟨u', out, _, hexec, hu'.wellLinked, p', due', hu', ht', rfl⟩

/-- Three timeouts in one slot, one of them with a tick in the past. The walk stops in their list,
and a made up handle and then the one under the cursor are cleared. -/
theorem new_wellLinked_shared_slot :
    ∃ (t : Timer Lib.FreeListSlab String) (lists : Nat → List Nat),
      Timer.new 100 16 32 = .ok t ∧ WellLinked t lists ∧
      Follows exec (fun _ _ op => op.Bounded) (fun _ _ _ _ t' lists' => WellLinked t' lists')
        t lists [.insert "a" 17 0, .insert "b" 1 0, .insert "c" 33 0, .tickTo 3,
          .insert "d" 1 0, .clear { key := 7, tick := 1 }, .clear { key := 0, tick := 17 },
          .tickTo 40] := by
  obtain ⟨lists, h⟩ := @new_wellLinked Lib.FreeListSlab _ String _ _ 100 16 32 rfl
    [.insert "a" 17 0, .insert "b" 1 0, .insert "c" 33 0, .tickTo 3, .insert "d" 1 0,
      .clear { key := 7, tick := 1 }, .clear { key := 0, tick := 17 }, .tickTo 40]
  exact ⟨_, lists, rfl, h⟩

end Ruduo.Timer
