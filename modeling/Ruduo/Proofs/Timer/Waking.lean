import Ruduo.Proofs.Timer.StaleHandle
import Ruduo.Spec.Waking

/-!
# `Ruduo.Proofs.Timer.Waking`: when the loop sleeps past a timer

A pass of `tickTo` that answers `none` leaves the wheel one tick ahead of the clock, at a tick it
has not walked yet. `nextTickInMs` adds one more tick. So the loop wakes up for the timeouts from
the tick after the wheel's on, and one tick too late for those of the wheel's own tick.

* `nextTickInMs_of_range`: the delay ends when the tick after the wheel's begins.
* `wakesInTime_iff`: the delay is short enough exactly when no timeout is due before that.
-/

set_option autoImplicit false

namespace Ruduo.Timer

open Lib (Slab LawfulSlab Run)

variable {S : Type → Type} [Slab S] {T : Type} {t t' : Timer S T} {p : List (Pending T)}
  {now n : Nat}

/-- With timeouts pending and the sum in range, the delay is the time until the tick after the
current one. -/
theorem nextTickInMs_of_range (hpend : Slab.len t.entries ≠ 0) (hpos : 0 < t.tickMs)
    (hrange : t.startMs + (t.tick + 1) * t.tickMs ≤ u64Max) :
    t.nextTickInMs now = .ok (some (t.startMs + (t.tick + 1) * t.tickMs - now)) := by
  have htick : t.tick + 1 ≤ (t.tick + 1) * t.tickMs := Nat.le_mul_of_pos_right _ hpos
  have hadd : u64Add t.tick 1 = .ok (t.tick + 1) := u64Add_eq_ok.mpr ⟨by omega, rfl⟩
  have hmul : u64Mul (t.tick + 1) t.tickMs = .ok ((t.tick + 1) * t.tickMs) :=
    u64Mul_eq_ok.mpr ⟨by omega, rfl⟩
  have hsum : u64Add t.startMs ((t.tick + 1) * t.tickMs)
      = .ok (t.startMs + (t.tick + 1) * t.tickMs) := u64Add_eq_ok.mpr ⟨hrange, rfl⟩
  rw [nextTickInMs, if_neg hpend, hadd, ok_bind, hmul, ok_bind, hsum, ok_bind]
  split
  · rename_i hle
    rw [Nat.sub_eq_zero_of_le hle]
  · rfl

/-- With timeouts pending, the sum has to be in range. -/
theorem range_of_nextTickInMs (hpend : Slab.len t.entries ≠ 0) {r : Option Nat}
    (h : t.nextTickInMs now = .ok r) : t.startMs + (t.tick + 1) * t.tickMs ≤ u64Max := by
  rw [nextTickInMs, if_neg hpend] at h
  simp only [bind_eq_ok, u64Add_eq_ok, u64Mul_eq_ok] at h
  obtain ⟨_, ⟨-, rfl⟩, _, ⟨-, rfl⟩, _, ⟨hsum, -⟩, -⟩ := h
  exact hsum

/-- Nothing is stored when nothing is pending. -/
theorem Wheel.idle_iff (h : Wheel t p) : t.Idle ↔ p = [] := by
  constructor
  · intro hidle
    cases p with
    | nil => rfl
    | cons e p =>
      have hat := h.pendingAt_of_mem List.mem_cons_self
      rw [hidle e.key] at hat
      cases hat
  · rintro rfl key
    exact h.pendingAt_of_not_mem (by simp)

/-- The ticks of what is stored are those of the pending timeouts. -/
theorem Wheel.pendingTicks_iff (h : Wheel t p) {P : Nat → Prop} :
    t.PendingTicks P ↔ ∀ e ∈ p, P e.tick := by
  constructor
  · intro hticks e he
    exact hticks e.key e.token e.interval e.tick (h.pendingAt_of_mem he)
  · intro hticks key token interval tick hat
    by_cases hin : ∃ e ∈ p, e.key = key
    · obtain ⟨e, he, rfl⟩ := hin
      rw [h.pendingAt_of_mem he] at hat
      cases hat
      exact hticks e he
    · rw [h.pendingAt_of_not_mem (by simpa using hin)] at hat
      cases hat

/-- The timeout of the poll is at most the delay. -/
theorem chooseTimeout_le (pollTimeout : Option Nat) (isEmpty : Bool) (w : Nat) :
    ∃ ms, EventLoop.chooseTimeout pollTimeout isEmpty (some w) = some ms ∧ ms ≤ w := by
  unfold EventLoop.chooseTimeout
  cases (if isEmpty then pollTimeout else some 0) with
  | none => exact ⟨w, rfl, le_rfl⟩
  | some a => exact ⟨min a w, rfl, min_le_right a w⟩

omit [Slab S] in
/-- The clock has not reached the tick after its own. -/
theorem lt_of_msToTick (hn : t.msToTick now = .ok n) :
    0 < t.tickMs ∧ t.startMs ≤ now ∧ now < t.startMs + (n + 1) * t.tickMs := by
  obtain ⟨d, hsub, hdiv⟩ := bind_eq_ok.mp hn
  rw [u64Sub_eq_ok] at hsub
  rw [u64Div_eq_ok] at hdiv
  have hpos : 0 < t.tickMs := Nat.pos_of_ne_zero hdiv.1
  have hlt := Nat.lt_mul_div_succ d hpos
  rw [hdiv.2, Nat.mul_comm] at hlt
  exact ⟨hpos, hsub.1, by omega⟩

variable [LawfulSlab S]

/-- **When the loop wakes up in time.** In a state that a pass over the timers at the clock
reading `now` has left, `next_tick_in_ms` at this reading keeps what it promises exactly when
nothing is pending, or its sum is in range and every pending timeout has a tick after the one the
wheel has come to. -/
theorem wakesInTime_iff (hreach : Reachable t) (hn : t.msToTick now = .ok n)
    (hidle : t.tickTo n = .ok (t', none)) :
    t'.WakesInTime now ↔
      t'.Idle ∨ t'.startMs + (t'.tick + 1) * t'.tickMs ≤ u64Max ∧
        t'.PendingTicks fun tick => t'.tick < tick := by
  obtain ⟨p, due, h, ht⟩ := hreach.timing
  obtain ⟨h', -, -, htick, hframe⟩ := tickTo_none h ht hidle
  obtain ⟨hpos, -, hnow⟩ := lt_of_msToTick hn
  rw [← hframe.tickMs] at hpos
  rw [← hframe.startMs, ← hframe.tickMs] at hnow
  -- The wheel is ahead of the clock, so the sum is later than the clock reading.
  have hahead : now < t'.startMs + (t'.tick + 1) * t'.tickMs := by
    have : (n + 1) * t'.tickMs ≤ (t'.tick + 1) * t'.tickMs :=
      Nat.mul_le_mul_right _ (by omega)
    omega
  rw [h'.idle_iff, h'.pendingTicks_iff]
  by_cases hnil : p = []
  · -- Nothing is pending, and the answer is `none`.
    have hlen : Slab.len t'.entries = 0 := by rw [h'.len, hnil, List.length_nil]
    refine iff_of_true ⟨none, ?_, fun _ => h'.idle_iff.mpr hnil, by simp⟩ (Or.inl hnil)
    rw [nextTickInMs, if_pos hlen]
  · have hpend : Slab.len t'.entries ≠ 0 := by
      rw [h'.len]
      exact fun hzero => hnil (List.length_eq_zero_iff.mp hzero)
    constructor
    · rintro ⟨r, hr, -, hwakes⟩
      have hrange := range_of_nextTickInMs hpend hr
      rw [nextTickInMs_of_range hpend hpos hrange] at hr
      refine Or.inr ⟨hrange, fun e he => ?_⟩
      obtain ⟨hle, -⟩ := h'.pendingTicks_iff.mp (hwakes _ (Except.ok.inj hr).symm) e he
      have hmul : (t'.tick + 1) * t'.tickMs ≤ e.tick * t'.tickMs := by omega
      exact Nat.le_of_mul_le_mul_right hmul hpos
    · rintro (hnil' | ⟨hrange, hticks⟩)
      · exact absurd hnil' hnil
      · refine ⟨_, nextTickInMs_of_range hpend hpos hrange, by simp, fun w hw => ?_⟩
        obtain rfl := Option.some.inj hw
        rw [h'.pendingTicks_iff]
        intro e he
        have hmul : (t'.tick + 1) * t'.tickMs ≤ e.tick * t'.tickMs :=
          Nat.mul_le_mul_right _ (hticks e he)
        refine ⟨by omega, fun pollTimeout isEmpty => ?_⟩
        obtain ⟨ms, hms, hle⟩ := chooseTimeout_le pollTimeout isEmpty
          (t'.startMs + (t'.tick + 1) * t'.tickMs - now)
        exact ⟨ms, hms, by omega⟩

section Example

/-- Timeouts at the ticks 3 and 19 are pending when the pass at the tick 0 ends, at the time 40. The
loop is back at 200, before the tick 3 begins. -/
theorem wakesInTime_iff_later :
    ∃ t t' : Timer Lib.FreeListSlab String, Run CallStep (newTimer.setup 0)
        [(.timeoutMsAt 250 0 "a", .inserted (.ok ⟨0, 3⟩)),
          (.timeoutMsAt 1900 0 "b", .inserted (.ok ⟨1, 19⟩))] t ∧
      t.tickTo 0 = .ok (t', none) ∧ t'.pendingAt 0 = some ("a", 0, 3) ∧
      t'.pendingAt 1 = some ("b", 0, 19) ∧ t'.nextTickInMs 40 = .ok (some 160) ∧
      t'.WakesInTime 40 := by
  have hrun : ∃ t t' : Timer Lib.FreeListSlab String, Run CallStep (newTimer.setup 0)
        [(.timeoutMsAt 250 0 "a", .inserted (.ok ⟨0, 3⟩)),
          (.timeoutMsAt 1900 0 "b", .inserted (.ok ⟨1, 19⟩))] t ∧
      t.msToTick 40 = .ok 0 ∧ t.tickTo 0 = .ok (t', none) ∧
      t'.pendingAt 0 = some ("a", 0, 3) ∧ t'.pendingAt 1 = some ("b", 0, 19) ∧
      t'.nextTickInMs 40 = .ok (some 160) ∧
      t'.startMs + (t'.tick + 1) * t'.tickMs ≤ u64Max ∧
      t'.PendingTicks fun tick => t'.tick < tick := by
    refine ⟨_, _, .cons rfl (.cons rfl (.nil _)), rfl, rfl, rfl, rfl, rfl, by decide, ?_⟩
    -- There are no timeouts but those of the keys 0 and 1.
    rintro (_ | _ | key) token interval tick hat
    · cases hat
      decide
    · cases hat
      decide
    · cases hat
  obtain ⟨t, t', hrun, hn, hidle, hat₀, hat₁, hnext, hrange, hticks⟩ := hrun
  have hreach : Reachable t := ⟨100, 16, 32, 0, newTimer, _, new_newTimer, hrun⟩
  exact ⟨t, t', hrun, hidle, hat₀, hat₁, hnext,
    (wakesInTime_iff hreach hn hidle).mpr (Or.inr ⟨hrange, hticks⟩)⟩

/-- A timeout at the tick 1 is pending when the pass at the tick 0 ends, at the time 0. The tick 1
begins at 100, and the loop sleeps until 200. -/
theorem sleeps_past_next_tick :
    ¬ ∀ (t t' : Timer Lib.FreeListSlab String) (now n : Nat), Reachable t →
      t.msToTick now = .ok n → t.tickTo n = .ok (t', none) →
      (t'.PendingTicks fun tick => n < tick) → t'.WakesInTime now := by
  intro hwakes
  have hrun : ∃ t t', Run CallStep (newTimer.setup 0)
      [(.timeoutMsAt 50 0 "a", .inserted (.ok ⟨0, 1⟩))] t ∧ t.msToTick 0 = .ok 0 ∧
      t.tickTo 0 = .ok (t', none) ∧ (t'.PendingTicks fun tick => 0 < tick) ∧
      t'.nextTickInMs 0 = .ok (some 200) ∧ t'.pendingAt 0 = some ("a", 0, 1) ∧
      t'.startMs = 0 ∧ t'.tickMs = 100 := by
    refine ⟨_, _, .cons rfl (.nil _), rfl, rfl, ?_, rfl, rfl, rfl, rfl⟩
    -- The only timeout is that of the key 0.
    rintro (_ | key) token interval tick hat
    · cases hat
      decide
    · cases hat
  obtain ⟨t, t', hrun, hn, hidle, hticks, hnext, hat, hstart, hms⟩ := hrun
  have hreach : Reachable t := ⟨100, 16, 32, 0, newTimer, _, rfl, hrun⟩
  obtain ⟨r, hr, -, hall⟩ := hwakes t t' 0 0 hreach hn hidle hticks
  obtain ⟨hle, -⟩ := hall 200 (Except.ok.inj (hr.symm.trans hnext)) 0 "a" 0 1 hat
  rw [hstart, hms] at hle
  omega

end Example

end Ruduo.Timer
