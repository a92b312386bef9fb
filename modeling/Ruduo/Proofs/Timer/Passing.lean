import Ruduo.Proofs.Timer.Scheduling
import Ruduo.Spec.Passing
import Mathlib.Data.List.Forall2

/-!
# `Ruduo.Proofs.Timer.Passing`: a pass over the timers ends

A pass calls `tickTo n` again and again. Each call that hands a timeout out takes one of those
that are due by `n`. What goes back into the timer is due later: its interval is at least 1 ms,
and the clock does not go back, so its deadline is after the tick `n`. The number of timeouts due
by `n` bounds the number of calls.

* `scheduleRepeat_returns`: the slot that was just freed has room for the repeated timeout.
* `cancelAll_returns`: what the handler cancels is taken out, and nothing else happens.
* `Hands.idle`, `Hands.fired`: what the loop hands out, pass by pass.
* `processTimersLoop_returns`: the loop, by induction on the number of timeouts due by `n`.
* `processTimers_returns`: the pass of a reachable timer.
-/

set_option autoImplicit false

namespace Ruduo.Timer

open Lib (Slab LawfulSlab Run)

variable {S : Type → Type} [Slab S] {T : Type} {t t' : Timer S T} {p p' : List (Pending T)}
  {e : Pending T} {due due' : Pending T → Nat} {now n : Nat}

/-- The tick of the clock depends on the start and the size of a tick only. -/
theorem Frame.msToTick (h : Frame t t') (ms : Nat) : t'.msToTick ms = t.msToTick ms := by
  rw [Timer.msToTick, Timer.msToTick, h.startMs, h.tickMs]

omit [Slab S] in
/-- After a pass of the clock by a positive interval, the deadline is after the current tick. -/
theorem lt_deadline (hn : t.msToTick now = .ok n) {later interval : Nat} (hlater : now ≤ later)
    (hpos : 0 < interval) : n < t.deadline (later + interval) := by
  by_contra hle
  have := at_le_of_deadline_le hn (Nat.le_of_not_lt hle)
  omega

/-- No clock reading of the pass is earlier than its start. -/
theorem ClockGoesOn.le {envs : Nat → PassEnv} (h : t.ClockGoesOn now envs) (i : Nat) :
    now ≤ (envs i).now := by
  induction i with
  | zero => exact h.start
  | succ i ih => exact ih.trans (h.mono i)

variable [LawfulSlab S]

/-- `clear` returns. It takes out at most the timeout with this handle. -/
theorem clear_returns (h : Wheel t p) (ht : Timing t p due) (timeout : Timeout) :
    ∃ t' b p', t.clear timeout = .ok (t', b) ∧ Wheel t' p' ∧ Timing t' p' due ∧ Frame t t' ∧
      p'.Sublist p ∧ ∀ e ∈ p, e ∈ p' ∨ e.handle = timeout := by
  rcases clear_cases h ht timeout with
    ⟨t', p₁, e, p₂, hclear, rfl, rfl, hw, htm, -, hframe⟩ | ⟨hclear, -⟩
  · refine ⟨t', true, p₁ ++ p₂, hclear, hw, htm, hframe, removed_sublist, fun x hx => ?_⟩
    by_cases hx' : x ∈ p₁ ++ p₂
    · exact Or.inl hx'
    · exact Or.inr (congrArg Pending.handle (eq_of_removed hx hx'))
  · exact ⟨t, false, p, hclear, h, ht, Frame.refl t, List.Sublist.refl p, fun _ he => Or.inl he⟩

/-- What the handler cancels is taken out. -/
theorem cancelAll_returns (timeouts : List Timeout) :
    ∀ {t : Timer S T} {p : List (Pending T)}, Wheel t p → Timing t p due →
      ∃ t' p', cancelAll timeouts t = .ok t' ∧ Wheel t' p' ∧ Timing t' p' due ∧ Frame t t' ∧
        p'.Sublist p ∧ ∀ e ∈ p, e ∈ p' ∨ e.handle ∈ timeouts := by
  induction timeouts with
  | nil =>
    intro t p h ht
    exact ⟨t, p, rfl, h, ht, Frame.refl t, List.Sublist.refl p, fun _ he => Or.inl he⟩
  | cons timeout timeouts ih =>
    intro t p h ht
    obtain ⟨t₁, b, p₁, hclear, h₁, ht₁, hframe₁, hsub₁, hkeep₁⟩ := clear_returns h ht timeout
    obtain ⟨t', p', hall, h', ht', hframe', hsub', hkeep'⟩ := ih h₁ ht₁
    refine ⟨t', p', ?_, h', ht', hframe₁.trans hframe', hsub'.trans hsub₁, fun e he => ?_⟩
    · rw [cancelAll, cancel, hclear, ok_bind]
      exact hall
    · rcases hkeep₁ e he with he₁ | rfl
      · exact (hkeep' e he₁).imp_right (List.mem_cons_of_mem _)
      · exact Or.inr List.mem_cons_self

/-- What `scheduleRepeat` leaves: the timeouts that were pending, with the repeated one in front,
which is due after the tick `n`. -/
structure Repeated (t : Timer S T) (p : List (Pending T)) (due : Pending T → Nat) (n interval : Nat)
    (t' : Timer S T) (refreshed : Option Timeout) (p' : List (Pending T))
    (due' : Pending T → Nat) : Prop where
  wheel : Wheel t' p'
  timing : Timing t' p' due'
  frame : Frame t t'
  /-- What was pending stays, with its due tick. -/
  keeps : ∀ e ∈ p, e ∈ p' ∧ due' e = due e
  /-- What is new is due after `n`. -/
  old : ∀ e ∈ p', due' e ≤ n → e ∈ p
  /-- As many timeouts are due by `n` as before. -/
  count : (p'.countP fun e => due' e ≤ n) = p.countP fun e => due e ≤ n
  /-- A handle comes back exactly for a timeout that repeats. -/
  isSome : refreshed.isSome ↔ 0 < interval
  /-- The new handle is good, and lies in the future. -/
  later : ∀ timeout, refreshed = some timeout →
    n < timeout.tick ∧ ∃ e ∈ p', e.handle = timeout ∧ n < due' e

/-- A timer with room takes the repeated timeout. -/
theorem scheduleRepeat_returns (h : Wheel t p) (ht : Timing t p due)
    (hroom : Slab.len t.entries ≠ Slab.capacity t.entries) (hn : t.msToTick now = .ok n)
    (hle : t.tick ≤ n) (hmax : n < u64Max) {later interval : Nat} (hlater : now ≤ later)
    (hrange : 0 < interval → later + interval ≤ u64Max ∧
      later + interval - t.startMs + t.tickMs ≤ u64Max) (mark : T) :
    ∃ t' refreshed p' due', t.scheduleRepeat later interval mark = .ok (t', refreshed) ∧
      Repeated t p due n interval t' refreshed p' due' := by
  by_cases hpos : 0 < interval
  · obtain ⟨hsum, hround⟩ := hrange hpos
    obtain ⟨htickMs, hstart, -⟩ := lt_of_msToTick hn
    have hlt := lt_deadline hn hlater hpos
    -- The deadline is in the future, so the call aims at it.
    have haim : t.aim (later + interval) = t.deadline (later + interval) := if_neg (by omega)
    have hcall : t.scheduleAfter later interval mark
        = t.insert mark (t.deadline (later + interval)) 0 := by
      have hadd : u64Add later (max 0 interval) = .ok (later + interval) := by
        rw [Nat.zero_max]
        exact u64Add_eq_ok.mpr ⟨hsum, rfl⟩
      rw [scheduleAfter, timeoutMs, hadd, ok_bind,
        timeoutMsAt_eq htickMs (by omega) hround (by omega), haim]
    obtain ⟨t', key, hins, -⟩ := insert_spec h mark (t.deadline (later + interval)) 0 hroom
    obtain ⟨e, due', hhandle, -, -, hw, htm, hframe, hdue, hsame, -, htick⟩ := insert_ok h ht hins
    have hdue' : due' e = t.deadline (later + interval) := hdue.trans (dueTick_of_lt (by omega))
    refine ⟨t', some { key, tick := t.deadline (later + interval) }, e :: p, due', ?_, hw, htm,
      hframe, ?_, ?_, ?_, by simp [hpos], ?_⟩
    · rw [scheduleRepeat, if_pos hpos, hcall, hins, ok_bind]
    · exact fun x hx => ⟨List.mem_cons_of_mem _ hx, hsame x hx⟩
    · intro x hx hxn
      rcases List.mem_cons.mp hx with rfl | hx
      · omega
      · exact hx
    · have hnot : ¬ due' e ≤ n := by omega
      rw [List.countP_cons_of_neg (by simpa using hnot)]
      exact List.countP_congr fun x hx => by rw [hsame x hx]
    · intro timeout htimeout
      obtain rfl := Option.some.inj htimeout
      exact ⟨hlt, e, List.mem_cons_self, hhandle, by omega⟩
  · refine ⟨t, none, p, due, if_neg hpos, h, ht, Frame.refl t, fun e he => ⟨he, rfl⟩,
      fun e he _ => he, rfl, by simp [hpos], by simp⟩

/-- What a pass hands out, in terms of the pending timeouts. -/
structure Hands (p : List (Pending T)) (due : Pending T → Nat) (n : Nat) (envs : Nat → PassEnv)
    (t' : Timer S T) (deliveries : List (Delivery T)) : Prop where
  /-- Each delivery is that of another timeout that was due at the start. -/
  once : ∃ es : List (Pending T), (es.map fun e => e.key).Nodup ∧ (∀ e ∈ es, e ∈ p ∧ due e ≤ n) ∧
    List.Forall₂ (fun e d => e.token = d.mark ∧ e.interval = d.interval) es deliveries
  /-- A delivery has a new handle exactly if its timeout repeats. -/
  repeats : ∀ d ∈ deliveries, d.refreshed.isSome ↔ 0 < d.interval
  /-- A new handle lies in the future, and is good unless a closure cancelled it. -/
  later : ∀ d ∈ deliveries, ∀ timeout, d.refreshed = some timeout →
    n < timeout.tick ∧ (t'.Holds timeout ∨ ∃ i, timeout ∈ (envs i).cancels)
  /-- What is due later stays pending, unless a closure cancelled it. -/
  stays : ∀ e ∈ p, n < due e → t'.Holds e.handle ∨ ∃ i, e.handle ∈ (envs i).cancels

omit [LawfulSlab S] in
/-- The last pass of the loop. -/
theorem processTimersLoop_idle (env : PassEnv) (htick : t.tickTo n = .ok (t', none)) :
    processTimersLoop n [env] t = .ok (t', []) := by
  rw [processTimersLoop, htick, ok_bind]

omit [LawfulSlab S] in
/-- A pass of the loop with a delivery. -/
theorem processTimersLoop_fired {t₁ t₂ t₃ : Timer S T} {mark : T} {interval : Nat}
    {refreshed : Option Timeout} {deliveries : List (Delivery T)} {envs : Nat → PassEnv} {k : Nat}
    (htick : t.tickTo n = .ok (t₁, some (mark, interval)))
    (hrep : t₁.scheduleRepeat (envs 0).now interval mark = .ok (t₂, refreshed))
    (hcancel : cancelAll (envs 0).cancels t₂ = .ok t₃)
    (hloop : processTimersLoop n ((List.range k).map fun i => envs (i + 1)) t₃
      = .ok (t', deliveries)) :
    processTimersLoop n ((List.range (k + 1)).map envs) t
      = .ok (t', { mark, interval, refreshed } :: deliveries) := by
  have hmap : (List.range k).map (envs ∘ Nat.succ)
      = (List.range k).map fun i => envs (i + 1) := rfl
  rw [List.range_succ_eq_map, List.map_cons, List.map_map, hmap, processTimersLoop, htick, ok_bind]
  simp only [hrep, ok_bind, hcancel, hloop]

omit [LawfulSlab S] in
/-- A pass without a delivery. -/
theorem Hands.idle {envs : Nat → PassEnv} (h : Wheel t' p) : Hands p due n envs t' [] where
  once := ⟨[], by simp, by simp, .nil⟩
  repeats := by simp
  later := by simp
  stays e he _ := Or.inl (h.holds he)

omit [LawfulSlab S] in
/-- What is due in the pass after `scheduleRepeat` was pending before it, and due. -/
theorem Repeated.due_old {p₁ p₂ p₃ : List (Pending T)} {t₁ t₂ : Timer S T} {interval : Nat}
    {refreshed : Option Timeout}
    (hr : Repeated t₁ (p₁ ++ p₂) due n interval t₂ refreshed p' due') (hsub : p₃.Sublist p')
    {x : Pending T} (hx : x ∈ p₃) (hxn : due' x ≤ n) : x ∈ p₁ ++ p₂ ∧ due x ≤ n := by
  have hx' := hr.old x (hsub.subset hx) hxn
  exact ⟨hx', (hr.keeps x hx').2 ▸ hxn⟩

omit [LawfulSlab S] in
/-- One delivery, and what the rest of the pass hands out. -/
theorem Hands.fired {p₁ p₂ p₃ : List (Pending T)} {t₁ t₂ : Timer S T}
    {refreshed : Option Timeout} {deliveries : List (Delivery T)} {envs : Nat → PassEnv}
    (h : Wheel t (p₁ ++ e :: p₂)) (hdue : due e ≤ n)
    (hr : Repeated t₁ (p₁ ++ p₂) due n e.interval t₂ refreshed p' due') (hsub : p₃.Sublist p')
    (hkeep : ∀ x ∈ p', x ∈ p₃ ∨ x.handle ∈ (envs 0).cancels)
    (hands : Hands p₃ due' n (fun i => envs (i + 1)) t' deliveries) :
    Hands (p₁ ++ e :: p₂) due n envs t'
      ({ mark := e.token, interval := e.interval, refreshed } :: deliveries) := by
  -- A timeout due after the pass stays to its end, unless it is cancelled here or later.
  have hstays : ∀ x ∈ p', n < due' x → t'.Holds x.handle ∨ ∃ i, x.handle ∈ (envs i).cancels := by
    intro x hx hxn
    rcases hkeep x hx with hx₃ | hcancelled
    · exact (hands.stays x hx₃ hxn).imp_right fun ⟨i, hi⟩ => ⟨i + 1, hi⟩
    · exact Or.inr ⟨0, hcancelled⟩
  refine ⟨?_, ?_, ?_, ?_⟩
  · obtain ⟨es, hnd, hes, hall⟩ := hands.once
    refine ⟨e :: es, ?_, ?_, .cons ⟨rfl, rfl⟩ hall⟩
    · rw [List.map_cons, List.nodup_cons]
      refine ⟨fun hmem => ?_, hnd⟩
      obtain ⟨x, hx, hkey⟩ := List.mem_map.mp hmem
      obtain ⟨hx₃, hxn⟩ := hes x hx
      exact h.key_ne x (hr.due_old hsub hx₃ hxn).1 hkey
    · intro x hx
      rcases List.mem_cons.mp hx with rfl | hx
      · exact ⟨by simp, hdue⟩
      · obtain ⟨hx₃, hxn⟩ := hes x hx
        obtain ⟨hx', hxn'⟩ := hr.due_old hsub hx₃ hxn
        exact ⟨removed_sublist.subset hx', hxn'⟩
  · intro d hd
    rcases List.mem_cons.mp hd with rfl | hd
    · exact hr.isSome
    · exact hands.repeats d hd
  · intro d hd timeout htimeout
    rcases List.mem_cons.mp hd with rfl | hd
    · obtain ⟨hlt, x, hx, rfl, hxn⟩ := hr.later timeout htimeout
      exact ⟨hlt, hstays x hx hxn⟩
    · obtain ⟨hlt, hholds⟩ := hands.later d hd timeout htimeout
      exact ⟨hlt, hholds.imp_right fun ⟨i, hi⟩ => ⟨i + 1, hi⟩⟩
  · intro x hx hxn
    have hne : x ≠ e := by
      rintro rfl
      omega
    obtain ⟨hx', hsame⟩ := hr.keeps x (by simpa [hne] using hx)
    exact hstays x hx' (hsame ▸ hxn)

/-- The loop ends, by induction on the number of timeouts that are due. -/
theorem processTimersLoop_returns (hmax : n < u64Max) :
    ∀ (m : Nat) {t : Timer S T} {p : List (Pending T)} {due : Pending T → Nat}
      {envs : Nat → PassEnv}, Wheel t p → Timing t p due → t.msToTick now = .ok n →
      (∀ i, now ≤ (envs i).now) →
      (∀ i, ∀ e ∈ p, due e ≤ n → 0 < e.interval → (envs i).now + e.interval ≤ u64Max ∧
        (envs i).now + e.interval - t.startMs + t.tickMs ≤ u64Max) →
      (p.countP fun e => due e ≤ n) ≤ m →
      ∃ k t' deliveries, k ≤ m + 1 ∧
        processTimersLoop n ((List.range k).map envs) t = .ok (t', deliveries) ∧
        Hands p due n envs t' deliveries := by
  intro m
  induction m with
  | zero =>
    intro t p due envs h ht hn _ _ hcount
    obtain ⟨t', r, rest, htick, hw, -, -, hticked⟩ := tickTo_returns h ht hmax
    cases hticked with
    | fired e hpick hdue =>
      have hpos : 0 < p.countP fun e => due e ≤ n :=
        List.countP_pos_iff.mpr ⟨e, hpick.mem, by simpa using hdue⟩
      omega
    | idle hnone => exact ⟨1, t', [], le_rfl, processTimersLoop_idle _ htick, .idle hw⟩
  | succ m ih =>
    intro t p due envs h ht hn hclock hrange hcount
    obtain ⟨t₁, r, rest, htick, h₁, ht₁, hframe₁, hticked⟩ := tickTo_returns h ht hmax
    cases hticked with
    | idle hnone => exact ⟨1, t₁, [], by omega, processTimersLoop_idle _ htick, .idle h₁⟩
    | fired e hpick hdue htick₁ =>
      obtain ⟨p₁, p₂, rfl, rfl, -, -⟩ := hpick
      -- The slab has a free slot now.
      have hroom : Slab.len t₁.entries ≠ Slab.capacity t₁.entries := by
        have hle := h.len_le
        rw [h.len, List.length_append, List.length_cons] at hle
        rw [h₁.len, hframe₁.capacity, List.length_append]
        omega
      obtain ⟨t₂, refreshed, p', due', hrep, hr⟩ := scheduleRepeat_returns h₁ ht₁ hroom
        ((hframe₁.msToTick now).trans hn) (htick₁ ▸ hdue) hmax (hclock 0)
        (fun hpos => by
          rw [hframe₁.startMs, hframe₁.tickMs]
          exact hrange 0 e (by simp) hdue hpos) e.token
      obtain ⟨t₃, p₃, hcancel, h₃, ht₃, hframe₃, hsub, hkeep⟩ :=
        cancelAll_returns (envs 0).cancels hr.wheel hr.timing
      have hframe := (hframe₁.trans hr.frame).trans hframe₃
      -- What is due now was due before, and the timeout that was handed out is not among it.
      have hcount₃ : (p₃.countP fun x => due' x ≤ n) ≤ m := by
        have hle := hsub.countP_le (p := fun x => due' x ≤ n)
        rw [hr.count] at hle
        rw [List.countP_append, List.countP_cons_of_pos (by simpa using hdue)] at hcount
        rw [List.countP_append] at hle
        omega
      have hrange₃ : ∀ i, ∀ x ∈ p₃, due' x ≤ n → 0 < x.interval →
          (envs (i + 1)).now + x.interval ≤ u64Max ∧
            (envs (i + 1)).now + x.interval - t₃.startMs + t₃.tickMs ≤ u64Max := by
        intro i x hx hxn hpos
        obtain ⟨hx', hxn'⟩ := hr.due_old hsub hx hxn
        rw [hframe.startMs, hframe.tickMs]
        exact hrange (i + 1) x (removed_sublist.subset hx') hxn' hpos
      have hclock₃ : ∀ i, now ≤ (envs (i + 1)).now := fun i => hclock (i + 1)
      obtain ⟨k, t', deliveries, hk, hloop, hands⟩ :=
        ih h₃ ht₃ ((hframe.msToTick now).trans hn) hclock₃ hrange₃ hcount₃
      exact ⟨k + 1, t', _, by omega, processTimersLoop_fired htick hrep hcancel hloop,
        .fired h hdue hr hsub hkeep hands⟩

/-- **A pass over the timers ends.** In every reachable state, full or not, for every clock that
goes on and whatever the handler cancels: `process_timers` returns, after at most one call of
`tickTo` more than timeouts are pending. It does not panic, no timeout is delivered twice, and a
repeating one is scheduled for a tick after that of the pass and left alone until its end. -/
theorem processTimers_returns (hreach : Reachable t) (hn : t.nowTick now = .ok n)
    (hmax : n < u64Max) {envs : Nat → PassEnv} (hclock : t.ClockGoesOn now envs) :
    ∃ k t' deliveries, k ≤ Slab.len t.entries + 1 ∧
      t.processTimers now ((List.range k).map envs) = .ok (t', deliveries) ∧
      t.Passed n envs t' deliveries := by
  obtain ⟨p, due, h, ht⟩ := hreach.timing
  -- Not more timeouts are due than are pending, and this bounds the passes of the loop.
  have hcount : (p.countP fun e => due e ≤ n) ≤ Slab.len t.entries := by
    rw [h.len]
    exact List.countP_le_length
  obtain ⟨k, t', deliveries, hk, hloop, hands⟩ :=
    processTimersLoop_returns hmax _ h ht hn hclock.le
      (fun i e he _ hpos => hclock.range i e.key e.token e.interval e.tick
        (h.pendingAt_of_mem he) hpos) hcount
  refine ⟨k, t', deliveries, hk, ?_, ?_, hands.repeats, hands.later⟩
  · rw [processTimers, hn, ok_bind]
    exact hloop
  · obtain ⟨es, hnd, hes, hall⟩ := hands.once
    refine ⟨es.map fun e => e.key, hnd, List.forall₂_map_left_iff.mpr ?_⟩
    refine ((List.forall₂_and_left _ _).mpr ⟨hes, hall⟩).imp fun e d hed => ⟨e.tick, ?_⟩
    obtain ⟨⟨he, -⟩, hmark, hint⟩ := hed
    rw [h.pendingAt_of_mem he, hmark, hint]

section Example

/-- A timeout at the tick 1 that repeats every 30 ms. The loop comes to it at 520, in the tick 5. -/
theorem processTimers_returns_behind :
    ∃ t : Timer Lib.FreeListSlab String, Reachable t ∧ t.nowTick 520 = .ok 5 ∧
      t.pendingAt 0 = some ("a", 30, 1) ∧
      ∃ k t' deliveries, k ≤ Slab.len t.entries + 1 ∧
        t.processTimers 520 ((List.range k).map fun _ => ⟨520, []⟩) = .ok (t', deliveries) ∧
        t.Passed 5 (fun _ => ⟨520, []⟩) t' deliveries := by
  have hrun : ∃ t, Run CallStep (newTimer.setup 0)
      [(.timeoutMsAt 100 30 "a", .inserted (.ok ⟨0, 1⟩))] t ∧ t.nowTick 520 = .ok 5 ∧
      t.pendingAt 0 = some ("a", 30, 1) ∧ (∀ key, t.pendingAt (key + 1) = none) ∧ t.startMs = 0 ∧
      t.tickMs = 100 := ⟨_, .cons rfl (.nil _), rfl, rfl, fun _ => rfl, rfl, rfl⟩
  obtain ⟨t, hrun, hn, hat, hnone, hstart, hms⟩ := hrun
  have hreach : Reachable t := ⟨100, 16, 32, 0, newTimer, _, rfl, hrun⟩
  have hclock : t.ClockGoesOn 520 fun _ => ⟨520, []⟩ := by
    refine ⟨le_rfl, fun _ => le_rfl, fun _ key token interval tick hkey _ => ?_⟩
    cases key with
    | zero =>
      obtain rfl : 30 = interval := by
        rw [hat, Option.some.injEq, Prod.mk.injEq, Prod.mk.injEq] at hkey
        exact hkey.2.1
      rw [hstart, hms]
      decide
    | succ key =>
      rw [hnone key] at hkey
      cases hkey
  exact ⟨t, hreach, hn, hat, processTimers_returns hreach hn (by decide) hclock⟩

end Example

end Ruduo.Timer
