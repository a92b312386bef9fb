import Ruduo.Proofs.Timer.Waking
import Ruduo.Spec.Scheduling

/-!
# `Ruduo.Proofs.Timer.Scheduling`: which scheduling calls overflow

A scheduling call adds the delay to the clock reading, subtracts the start, and adds the size of a
tick before it divides. Nothing checks the sums. The delay of the next poll takes the sum of the
start and the tick after the current one.

* `timeoutMsAt_eq`: in range, `timeoutMsAt` is an insertion.
* `timeoutMsAt_range`: a `timeoutMsAt` that returned was in range.
* `scheduleCall_sound_iff`: a call goes through without a wrap exactly when it is in range.
-/

set_option autoImplicit false

namespace Ruduo

open Lib (Slab LawfulSlab Run)

variable {S : Type → Type} [Slab S] {T : Type} {t t' : Timer S T} {p : List (Pending T)}
  {due : Pending T → Nat} {at_ interval now : Nat} {token : T} {r : TimerResult}

namespace Timer

/-- The tick that `timeoutMsAt` aims at. -/
def aim (t : Timer S T) (at_ : Nat) : Nat :=
  if t.deadline at_ ≤ t.tick then t.deadline at_ + 1 else t.deadline at_

omit [Slab S] in
/-- What is aimed at is never before the tick of the deadline. -/
theorem deadline_le_aim (t : Timer S T) (at_ : Nat) : t.deadline at_ ≤ t.aim at_ := by
  unfold aim
  split <;> omega

/-- In range, `timeoutMsAt` is an insertion. -/
theorem timeoutMsAt_eq (hpos : 0 < t.tickMs) (hstart : t.startMs ≤ at_)
    (hround : at_ - t.startMs + t.tickMs ≤ u64Max) (hbound : t.tick < u64Max) :
    t.timeoutMsAt at_ interval token = t.insert token (t.aim at_) interval := by
  have hsub : u64Sub at_ t.startMs = .ok (at_ - t.startMs) := u64Sub_eq_ok.mpr ⟨hstart, rfl⟩
  have hadd : u64Add (at_ - t.startMs) t.tickMs = .ok (at_ - t.startMs + t.tickMs) :=
    u64Add_eq_ok.mpr ⟨hround, rfl⟩
  have hpred : u64Sub (at_ - t.startMs + t.tickMs) 1 = .ok (at_ - t.startMs + t.tickMs - 1) :=
    u64Sub_eq_ok.mpr ⟨by omega, rfl⟩
  have hdiv : u64Div (at_ - t.startMs + t.tickMs - 1) t.tickMs = .ok (t.deadline at_) := by
    rw [u64Div_eq_ok, deadline, Nat.ceilDiv_eq_add_pred_div]
    exact ⟨hpos.ne', rfl⟩
  rw [timeoutMsAt, hsub, ok_bind, hadd, ok_bind, hpred, ok_bind, hdiv, ok_bind, aim]
  split
  · have hsucc : u64Add (t.deadline at_) 1 = .ok (t.deadline at_ + 1) :=
      u64Add_eq_ok.mpr ⟨by omega, rfl⟩
    rw [hsucc, ok_bind]
  · rfl

/-- A `timeoutMsAt` that returned was in range. -/
theorem timeoutMsAt_range (h : t.timeoutMsAt at_ interval token = .ok (t', r)) :
    t.startMs ≤ at_ ∧ at_ - t.startMs + t.tickMs ≤ u64Max := by
  unfold timeoutMsAt at h
  simp only [bind_eq_ok, u64Sub_eq_ok, u64Add_eq_ok] at h
  obtain ⟨_, ⟨hstart, rfl⟩, _, ⟨hround, rfl⟩, -⟩ := h
  exact ⟨hstart, hround⟩

variable [LawfulSlab S]

/-- A reachable timer has room for at least one timeout. -/
theorem Reachable.capacity_pos (h : Reachable t) : 0 < Slab.capacity t.entries := by
  obtain ⟨tickMs, slots, cap, now, t₀, ls, hnew, hrun⟩ := h
  obtain ⟨hw₀, ht₀⟩ := setup_timing hnew now fun _ => 0
  obtain ⟨-, -, -, -, hframe⟩ := run_timing hw₀ ht₀ hrun
  obtain ⟨-, -, -, -, hcap, -⟩ := new_wheel hnew
  rw [hframe.capacity]
  show 0 < Slab.capacity t₀.entries
  rw [hcap]
  exact Nat.two_pow_pos _

/-- After an insertion, or when there was no room for it, something is pending. -/
theorem insert_nonempty (h : Wheel t p) (ht : Timing t p due) (hcap : 0 < Slab.capacity t.entries)
    {tick : Nat} (hok : t.insert token tick interval = .ok (t', r)) :
    Slab.len t'.entries ≠ 0 := by
  cases r with
  | ok timeout =>
    obtain ⟨e, due', -, -, -, hw, -⟩ := insert_ok h ht hok
    rw [hw.len, List.length_cons]
    exact Nat.succ_ne_zero _
  | error err =>
    obtain ⟨hfull, rfl⟩ := insert_error h ht hok
    omega

/-- An insertion always returns. It leaves the tick, the start and the size of a tick as they
are, and the entry it registers has the tick it was given. -/
theorem insert_returns (h : Wheel t p) (ht : Timing t p due) (token : T) (tick interval : Nat) :
    ∃ t' r, t.insert token tick interval = .ok (t', r) ∧ Frame t t' ∧ t'.tick = t.tick ∧
      ∀ timeout, r = .ok timeout → t'.Holds timeout ∧ timeout.tick = tick := by
  rcases insert_cases h ht token tick interval with
    ⟨-, hins⟩ | ⟨t', e, due', hins, -, -, hw, -, hframe, -, -, htick, haim⟩
  · exact ⟨t, _, hins, Frame.refl t, rfl, by simp⟩
  · refine ⟨t', _, hins, hframe, htick, fun timeout htimeout => ?_⟩
    obtain rfl := Except.ok.inj htimeout
    exact ⟨hw.holds List.mem_cons_self, haim⟩

end Timer

namespace ScheduleCall

open Timer

variable {call : ScheduleCall T}

/-- The interval of the entry that a call registers, and its token. -/
def entry : ScheduleCall T → Nat × T
  | scheduleAfter _ token | scheduleAt _ token => (0, token)
  | scheduleEvery _ interval token => (interval, token)

/-- With a time in range, every call is a `timeoutMsAt`. -/
theorem run_eq (h : call.time now ≤ u64Max) :
    call.run t now = t.timeoutMsAt (call.time now) call.entry.1 call.entry.2 := by
  have hsum : ∀ delay, now + delay ≤ u64Max → u64Add now (max 0 delay) = .ok (now + delay) := by
    intro delay hdelay
    rw [Nat.zero_max]
    exact u64Add_eq_ok.mpr ⟨hdelay, rfl⟩
  cases call with
  | scheduleAfter delay token =>
    show t.timeoutMs now delay 0 token = _
    rw [timeoutMs, hsum delay h, ok_bind]
    rfl
  | scheduleAt at_ token => rfl
  | scheduleEvery delay interval token =>
    show t.timeoutMs now delay interval token = _
    rw [timeoutMs, hsum delay h, ok_bind]
    rfl

/-- The time of a call that returned is a `u64`. -/
theorem time_le_of_run (hu64 : call.IsU64) (h : call.run t now = .ok (t', r)) :
    call.time now ≤ u64Max := by
  cases call with
  | scheduleAfter delay token | scheduleEvery delay interval token =>
    obtain ⟨at_, hadd, -⟩ := bind_eq_ok.mp h
    rw [u64Add_eq_ok, Nat.zero_max] at hadd
    exact hadd.1
  | scheduleAt at_ token => exact hu64

/-- A timer keeps time when the tick after the current one is in range. -/
theorem keepsTime_of_range (hpos : 0 < t.tickMs)
    (hnext : t.startMs + (t.tick + 1) * t.tickMs ≤ u64Max) : t.KeepsTime := by
  intro now hnow
  constructor
  · have hsub : u64Sub now t.startMs = .ok (now - t.startMs) := u64Sub_eq_ok.mpr ⟨hnow, rfl⟩
    refine ⟨(now - t.startMs) / t.tickMs, ?_⟩
    rw [nowTick, msToTick, hsub, ok_bind]
    exact u64Div_eq_ok.mpr ⟨hpos.ne', rfl⟩
  · by_cases hpend : Slab.len t.entries = 0
    · exact ⟨none, if_pos hpend⟩
    · exact ⟨_, nextTickInMs_of_range hpend hpos hnext⟩

variable [LawfulSlab S]

/-- A call in range leaves a timer as it should. -/
theorem InRange.sound (hrange : call.InRange t now) (h : Wheel t p) (ht : Timing t p due)
    (hpos : 0 < t.tickMs) : call.Sound t now := by
  have hbound : t.tick < u64Max := by
    have hnext := hrange.next
    have : t.tick + 1 ≤ (t.tick + 1) * t.tickMs := Nat.le_mul_of_pos_right _ hpos
    omega
  have hrun := run_eq (t := t) hrange.sum
  rw [timeoutMsAt_eq hpos hrange.start hrange.rounding hbound] at hrun
  obtain ⟨t', r, hins, hframe, htick, hreg⟩ :=
    insert_returns h ht call.entry.2 (t.aim (call.time now)) call.entry.1
  refine ⟨t', r, hrun.trans hins, fun timeout htimeout => ?_, ?_⟩
  · obtain ⟨hholds, heq⟩ := hreg timeout htimeout
    rw [heq]
    exact ⟨hholds, deadline_le_aim t _⟩
  · refine keepsTime_of_range (hframe.tickMs ▸ hpos) ?_
    rw [hframe.startMs, hframe.tickMs, htick]
    exact hrange.next

/-- A call that goes through is in range. -/
theorem Leaves.inRange (hu64 : call.IsU64) (h : Wheel t p) (ht : Timing t p due)
    (hcap : 0 < Slab.capacity t.entries) (hleaves : call.Leaves t now t') :
    call.InRange t now := by
  obtain ⟨r, hrun, -, hkeeps⟩ := hleaves
  have hsum := time_le_of_run hu64 hrun
  rw [run_eq hsum] at hrun
  obtain ⟨hstart, hround⟩ := timeoutMsAt_range hrun
  have hins := timeoutMsAt_ok hrun
  refine ⟨hstart, hsum, hround, ?_⟩
  -- Something is pending now, so the delay of the next poll has been computed.
  obtain ⟨t₁, r₁, hins₁, hframe, htick, -⟩ :=
    insert_returns h ht call.entry.2 (t.aim (call.time now)) call.entry.1
  obtain ⟨rfl, -⟩ := Prod.mk.inj (Except.ok.inj (hins₁.symm.trans hins))
  obtain ⟨w, hw⟩ := (hkeeps _ le_rfl).2
  have hnext := range_of_nextTickInMs (insert_nonempty h ht hcap hins) hw
  rwa [hframe.startMs, hframe.tickMs, htick] at hnext

end ScheduleCall

namespace Dispatcher

open Timer ScheduleCall

variable [DecidableEq T] {d : Dispatcher S T} {msg : TcpConnMessage T} {env : Env T}
  {call : ScheduleCall T}

/-- The handler makes the call of the message, and then only takes down the handle. -/
theorem handleNotify_schedules (hmsg : msg.schedules = some call) (t : Timer S T) :
    (∀ t' r, call.run t env.now = .ok (t', r) →
      ∃ h, d.handleNotify t msg env = .ok h ∧ h.timer = t') ∧
    ∀ h, d.handleNotify t msg env = .ok h → ∃ r, call.run t env.now = .ok (h.timer, r) := by
  cases msg with
  | addTimer token delay mark f | addTimer2 token delay interval mark f =>
    obtain rfl := Option.some.inj hmsg
    constructor
    · intro t' r hrun
      rw [handleNotify, show t.timeoutMs env.now delay _ mark = _ from hrun, ok_bind]
      cases r with
      | ok timeout => exact ⟨_, rfl, rfl⟩
      | error err => exact ⟨_, rfl, rfl⟩
    · intro h hok
      obtain ⟨⟨t', r⟩, hrun, hrest⟩ := bind_eq_ok.mp hok
      refine ⟨r, hrun.trans ?_⟩
      cases r with
      | ok timeout | error err => cases hrest; rfl
  | _ => cases hmsg

variable [LawfulSlab S]

/-- **Which scheduling calls go through.** In every reachable state with ticks of positive size,
for all `u64` arguments and every clock reading: a scheduling call returns, with
an entry from the deadline on or a `TimerError`, and leaves a timer that keeps time, exactly when
it is in range. The same holds of the handler calls for the messages that schedule. -/
theorem scheduleCall_sound_iff {t : Timer S T} (hreach : t.Reachable) (hpos : 0 < t.tickMs)
    (env : Env T) (hu64 : call.IsU64) :
    (call.Sound t env.now ↔ call.InRange t env.now) ∧
    ∀ (d : Dispatcher S T) (msg : TcpConnMessage T), msg.schedules = some call →
      (d.SchedulesSoundly t msg env call ↔ call.InRange t env.now) := by
  obtain ⟨p, due, h, ht⟩ := hreach.timing
  have hcap := hreach.capacity_pos
  have hiff : call.Sound t env.now ↔ call.InRange t env.now :=
    ⟨fun ⟨t', hleaves⟩ => hleaves.inRange hu64 h ht hcap, fun hrange => hrange.sound h ht hpos⟩
  refine ⟨hiff, fun d msg hmsg => ⟨fun ⟨hd, _, hleaves⟩ => hleaves.inRange hu64 h ht hcap, ?_⟩⟩
  intro hrange
  obtain ⟨t', r, hrun, hreg, hkeeps⟩ := hrange.sound h ht hpos
  obtain ⟨hd, hok, rfl⟩ := (handleNotify_schedules hmsg t).1 t' r hrun
  exact ⟨hd, hok, r, hrun, hreg, hkeeps⟩

section Example

/-- The clock reads 40. -/
def earlyEnv : Env String where
  now := 40
  peerAddr := .ok 0
  shutdown := .ok ()
  reads := []
  writes := []
  acts := []
  msgs := []

/-- A timeout of 250 ms. -/
theorem scheduleCall_sound_iff_after :
    let call : ScheduleCall String := .scheduleAfter 250 "a"
    (call.Sound newTimer earlyEnv.now ↔ call.InRange newTimer earlyEnv.now) ∧
    ∀ (d : Dispatcher Lib.FreeListSlab String) (msg : TcpConnMessage String),
      msg.schedules = some call →
      (d.SchedulesSoundly newTimer msg earlyEnv call ↔ call.InRange newTimer earlyEnv.now) :=
  scheduleCall_sound_iff newTimer_reachable (by decide) earlyEnv
    (show (250 : Nat) ≤ u64Max by decide)

/-- A delay of `u64::MAX` that is to mean "never": the sum with the clock reading overflows. -/
theorem scheduleAfter_never_overflows :
    newTimer.Reachable ∧ 0 < newTimer.tickMs ∧ newTimer.startMs ≤ 40 ∧
    ¬ ∀ call : ScheduleCall String, call.IsU64 → call.Sound newTimer 40 := by
  refine ⟨newTimer_reachable, by decide, by decide, fun hsound => ?_⟩
  obtain ⟨t', r, hrun, -⟩ := hsound (.scheduleAfter u64Max "a") le_rfl
  have hle := time_le_of_run (show (scheduleAfter u64Max "a").IsU64 from le_rfl) hrun
  have hlt : u64Max < 40 + u64Max := by decide
  exact absurd hle hlt.not_ge

end Example

end Dispatcher

end Ruduo
