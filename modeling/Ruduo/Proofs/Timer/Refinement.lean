import Ruduo.Lib.Run
import Ruduo.Proofs.Timer.Timing

/-!
# `Ruduo.Proofs.Timer.Refinement`: the wheel refines a set of pending timeouts

A fresh timer represents the empty set (`new_wheel`). When every insertion is aimed at a tick
in the future, each pending timeout is due at its own tick, and the wheel does on its lists
what `PendingSet.Step` does on the set. `timer_follows_pendingSet` states this for every run,
every number of slots and every capacity.
-/

set_option autoImplicit false

namespace Ruduo.Timer

open Lib (Slab LawfulSlab Follows fromKey_of_not_mem)

variable {S : Type → Type} [Slab S] [LawfulSlab S] {T : Type} {t : Timer S T}
  {p : List (Pending T)}

/-- A fresh timer holds nothing, and its capacity is the requested one rounded up to a power
of two. -/
theorem new_wheel {tickMs slots cap : Nat} (h : Timer.new tickMs slots cap = .ok t) :
    Wheel t [] ∧ t.tick = 0 ∧ t.tickMs = tickMs ∧ t.startMs = 0 ∧
      Slab.capacity t.entries = 2 ^ ceilLog2 cap ∧ t.wheel.length = 2 ^ ceilLog2 slots := by
  obtain ⟨n, hn, h⟩ := bind_eq_ok.mp h
  obtain ⟨c, hc, h⟩ := bind_eq_ok.mp h
  rw [nextPowerOfTwo_eq_ok] at hn hc
  split at h
  · rename_i hlt
    obtain rfl := Except.ok.inj h
    refine ⟨⟨⟨ceilLog2 slots, ?_, ?_⟩, ?_, ?_, ?_, ?_, ?_, ?_, ?_, ?_, Or.inl rfl⟩,
      rfl, rfl, rfl, ?_, ?_⟩
    · simp [hn.2]
    · simp [hn.2]
    · simpa using hlt
    · simp
    · simp
    · simp
    · simp
    · simp
    · simp
    -- Every slot is empty, so the list of each is too.
    · intro slot head hhead
      rw [List.getElem?_replicate] at hhead
      split at hhead
      · exact ⟨EMPTY, rfl, Option.some.inj hhead⟩
      · cases hhead
    · simp [hc.2]
    · simp [hn.2]
  · cases h

omit [Slab S] [LawfulSlab S] in
/-- Nothing is overdue when nothing is pending. -/
theorem timing_nil (due : Pending T → Nat) (hbound : t.tick ≤ u64Max) : Timing t [] due :=
  ⟨hbound, by simp, by simp, by simp, by simp, by simp⟩

/-- The timer stores the pending timeouts, and each is due at its own tick. -/
def Represents (cap : Nat) (t : Timer S T) (p : List (Pending T)) : Prop :=
  Wheel t p ∧ Timing t p (fun e => e.tick) ∧ Slab.capacity t.entries = cap

/-- One admitted operation is a step of the set. -/
theorem step_represents {cap : Nat} (op : TimerOp T) (h : Represents cap t p)
    (hadm : Admits t p op) :
    ∃ t' out p', t.exec op = .ok (t', out) ∧ Contract cap t p op out t' p' ∧
      Represents cap t' p' := by
  obtain ⟨hw, ht, hcap⟩ := h
  cases op with
  | insert token tick interval =>
    -- A full slab rejects the timeout, and the set is full then too.
    by_cases hfull : Slab.len t.entries = Slab.capacity t.entries
    · refine ⟨t, _, p, ?_, ⟨.full token tick interval ?_, fun _ _ => rfl⟩, hw, ht, hcap⟩
      · simp only [exec, insert_full hw token tick interval hfull, ok_bind]
      · rw [← hw.len, hfull, hcap]
    · obtain ⟨t', key, hins, hw', hframe, htick, hcur, hfresh⟩ :=
        insert_spec hw token tick interval hfull
      have hlt : t.tick < tick := hadm
      refine ⟨t', .inserted (.ok { key, tick }), _, by simp only [exec, hins, ok_bind],
        ⟨.insert { key, tick, token, interval } ?_ hfresh, ?_⟩, hw', ?_, ?_⟩
      · rwa [← hw.len, ← hcap]
      · intro err herr
        cases herr
      · refine (insert_timing hw ht hw' hframe htick hcur hfresh).congr fun x hx => ?_
        rcases List.mem_cons.mp hx with rfl | hx
        · rw [if_pos rfl, dueTick_of_lt hlt]
        · rw [if_neg (hfresh x hx)]
      · rw [hframe.capacity, hcap]
  | clear timeout =>
    -- The handle is one of a pending timeout, whose entry is split off the list.
    obtain ⟨e, he, rfl⟩ := hadm
    obtain ⟨p₁, p₂, rfl⟩ := List.append_of_mem he
    obtain ⟨t', hclear, hw', hframe, htick, hcur⟩ := clear_spec hw
    refine ⟨t', _, _, by simp only [exec, hclear, ok_bind], ⟨.clear p₁ p₂ e, ?_⟩, hw',
      clear_timing hw ht hw' hframe htick hcur, ?_⟩
    · intro err herr
      cases herr
    · rw [hframe.capacity, hcap]
  | tickTo n =>
    -- The walk comes to an end, and hands out a timeout that is due, or there is none.
    obtain ⟨t', r, rest, htick, hw', ht', hframe, hticked⟩ := tickTo_returns hw ht hadm
    refine ⟨t', .ticked r, rest, by simp only [exec, htick, ok_bind], ⟨?_, ?_⟩, hw', ht', ?_⟩
    · cases hticked with
      | fired e hpick hdue _ => exact .fire n e hpick hdue
      | idle hnone _ => exact .idle n hnone
    · intro err herr
      cases herr
    · rw [hframe.capacity, hcap]

/-- **The timer wheel refines a plain set of pending timeouts.** For every number of slots and
every capacity, every run of admitted operations from a fresh timer goes through without a
fault, and each answer is the one `PendingSet.Step` allows. -/
theorem timer_follows_pendingSet {tickMs slots cap : Nat}
    (h : Timer.new tickMs slots cap = .ok t) (ops : List (TimerOp T)) :
    Follows exec Admits (Contract (Slab.capacity t.entries)) t [] ops := by
  obtain ⟨hw, htick, -⟩ := new_wheel h
  have hstart : Represents (Slab.capacity t.entries) t [] :=
    ⟨hw, timing_nil _ (by rw [htick]; exact Nat.zero_le _), rfl⟩
  exact Follows.of_simulation (Represents (Slab.capacity t.entries))
    (fun _ _ op hR hadm => step_represents op hR hadm) ops t [] hstart

/-- Ticks 1 and 17 share a slot of a wheel with 16 slots. The earlier timeout is handed out
first, and the other one is cleared through its handle. -/
theorem timer_follows_pendingSet_hash_collision :
    ∃ t : Timer Lib.FreeListSlab String, Timer.new 100 16 32 = .ok t ∧
      Follows exec Admits (Contract (Slab.capacity t.entries)) t []
        [.insert "a" 17 0, .insert "b" 1 0, .tickTo 3, .clear { key := 0, tick := 17 },
          .tickTo 17] :=
  ⟨_, rfl, @timer_follows_pendingSet Lib.FreeListSlab _ _ String _ 100 16 32 rfl _⟩

end Ruduo.Timer
