import Ruduo.Proofs.Timer.Lateness

/-!
# `Ruduo.Proofs.Timer.Earliness`: no timeout is delivered early

The deadline is rounded up to a tick, the clock is rounded down to one. An entry is aimed at the
tick of its deadline or at the next one, and it is due at this tick or in a later revolution. So
`tickTo n` hands it out only for an `n` from its deadline on, and then its time has come.

The entry that a call of `tickTo` takes out is the one whose handle is good before the call and
not after it. `Scheduled` finds the call that scheduled it:

* `Scheduled.pending`: the timeout of the handle is pending, and its tick is not before its
  deadline.
* `run_scheduled`: every pending timeout was scheduled in the run.
-/

set_option autoImplicit false

namespace Ruduo.Timer

open Lib (Slab LawfulSlab Run)

variable {S : Type → Type} [Slab S] {T : Type} {t t' t₀ u : Timer S T}
  {p p' : List (Pending T)} {e : Pending T} {due : Pending T → Nat} {timeout : Timeout}
  {at_ interval : Nat} {token : T} {ls ls₁ ls₂ : List (TimerCall T × TimerOut T)}

/-- The deadline in ticks depends on the start and the size of a tick only. -/
theorem Frame.deadline (h : Frame t t') (at_ : Nat) : t'.deadline at_ = t.deadline at_ := by
  rw [Timer.deadline, Timer.deadline, h.startMs, h.tickMs]

variable [LawfulSlab S]

/-- A run keeps the invariant, and the start and the size of a tick. -/
theorem run_timing (h : Wheel t p) (ht : Timing t p due) (hrun : Run CallStep t ls t') :
    ∃ p' due', Wheel t' p' ∧ Timing t' p' due' ∧ Frame t t' := by
  refine hrun.invariant (P := fun u => ∃ p' due', Wheel u p' ∧ Timing u p' due' ∧ Frame t u) ?_
    ⟨p, due, h, ht, Frame.refl t⟩
  rintro u l u' ⟨p', due', hw, htm, hframe⟩ hstep
  obtain ⟨p'', due'', hw', htm', -, -, hframe'⟩ := call_effect hw htm hstep
  exact ⟨p'', due'', hw', htm', hframe.trans hframe'⟩

/-- A timeout that was just scheduled is pending, at a tick from its deadline on. -/
theorem timeoutMsAt_pending (h : Wheel t p) (ht : Timing t p due)
    (hcall : CallStep t (.timeoutMsAt at_ interval token, .inserted (.ok timeout)) t') :
    ∃ e due', e.handle = timeout ∧ e.token = token ∧ e.interval = interval ∧
      t'.deadline at_ ≤ e.tick ∧ Wheel t' (e :: p) ∧ Timing t' (e :: p) due' := by
  obtain ⟨⟨t₁, r⟩, hins, heq⟩ := bind_eq_ok.mp (show t.call _ = _ from hcall)
  cases heq
  obtain ⟨e, due', hh, htok, hint, hw, htm, hframe, -, -, -, htick⟩ :=
    insert_ok h ht (timeoutMsAt_ok hins)
  refine ⟨e, due', hh, htok, hint, ?_, hw, htm⟩
  rw [htick, hframe.deadline]
  split <;> omega

/-- A timeout whose handle stays good stays pending. -/
theorem pending_of_holds (hrun : Run (fun t l t' => CallStep t l t' ∧ Holds t' e.handle) t ls t') :
    ∀ {p : List (Pending T)} {due : Pending T → Nat}, Wheel t p → Timing t p due → e ∈ p →
      ∃ p' due', Wheel t' p' ∧ Timing t' p' due' ∧ e ∈ p' := by
  induction hrun with
  | nil => exact fun h ht he => ⟨_, _, h, ht, he⟩
  | cons hstep _ ih =>
    intro p due h ht he
    obtain ⟨p', due', h', ht', heff, -⟩ := call_effect h ht hstep.1
    rcases heff.stays_or_released h he with he' | ⟨hgone, -⟩
    · exact ih h' ht' he'
    · exact absurd hstep.2 (h'.not_holds hgone)

/-- The timeout of a handle that was given out and has been good since is pending. -/
theorem Scheduled.pending (hs : Scheduled t₀ t ls timeout at_ interval token) (h₀ : Wheel t₀ p)
    (ht₀ : Timing t₀ p due) :
    ∃ e p' due', Wheel t p' ∧ Timing t p' due' ∧ e ∈ p' ∧ e.handle = timeout ∧ e.token = token ∧
      e.interval = interval ∧ t.deadline at_ ≤ e.tick := by
  obtain ⟨ls₁, ls₂, u, u', -, hrun₁, hcall, hrun₂⟩ := hs
  obtain ⟨pu, dueu, hw, htm, -⟩ := run_timing h₀ ht₀ hrun₁
  obtain ⟨e, due', rfl, rfl, rfl, hle, hw', htm'⟩ := timeoutMsAt_pending hw htm hcall
  obtain ⟨p', due'', h', ht', he⟩ := pending_of_holds hrun₂ hw' htm' List.mem_cons_self
  obtain ⟨-, -, -, -, hframe⟩ := run_timing hw' htm' (hrun₂.mono fun _ _ _ hs => hs.1)
  refine ⟨e, p', due'', h', ht', he, rfl, rfl, rfl, ?_⟩
  rw [hframe.deadline]
  exact hle

omit [LawfulSlab S] in
/-- A handle that stays good in one more call. -/
theorem Scheduled.snoc (hs : Scheduled t₀ t ls timeout at_ interval token)
    {l : TimerCall T × TimerOut T} (hcall : CallStep t l t') (hholds : Holds t' timeout) :
    Scheduled t₀ t' (ls ++ [l]) timeout at_ interval token := by
  obtain ⟨ls₁, ls₂, u, u', rfl, hrun₁, hins, hrun₂⟩ := hs
  exact ⟨ls₁, ls₂ ++ [l], u, u', by simp, hrun₁, hins, hrun₂.snoc ⟨hcall, hholds⟩⟩

/-- Every pending timeout was scheduled in the run. -/
theorem run_scheduled (hrun : Run CallStep t ls₂ t') :
    ∀ {ls₁ : List (TimerCall T × TimerOut T)} {p : List (Pending T)} {due : Pending T → Nat},
      Run CallStep t₀ ls₁ t → Wheel t p → Timing t p due →
      (∀ e ∈ p, ∃ at_, Scheduled t₀ t ls₁ e.handle at_ e.interval e.token) →
      ∃ p' due', Wheel t' p' ∧ Timing t' p' due' ∧
        ∀ e ∈ p', ∃ at_, Scheduled t₀ t' (ls₁ ++ ls₂) e.handle at_ e.interval e.token := by
  induction hrun with
  | nil =>
    intro ls₁ p due _ h ht hp
    exact ⟨p, due, h, ht, by simpa using hp⟩
  | @cons t t₁ t₂ l ls hstep _ ih =>
    intro ls₁ p due hrun₁ h ht hp
    obtain ⟨p', due', h', ht', heff, -⟩ := call_effect h ht hstep
    -- A timeout that was pending before the call, and still is.
    have hkeep : ∀ e ∈ p, e ∈ p' →
        ∃ at_, Scheduled t₀ t₁ (ls₁ ++ [l]) e.handle at_ e.interval e.token := by
      intro e he he'
      obtain ⟨at_, hs⟩ := hp e he
      exact ⟨at_, hs.snoc hstep (h'.holds he')⟩
    have hp' : ∀ e ∈ p', ∃ at_, Scheduled t₀ t₁ (ls₁ ++ [l]) e.handle at_ e.interval e.token := by
      intro e he'
      cases heff with
      | scheduled x at_ =>
        rcases List.mem_cons.mp he' with rfl | he
        · exact ⟨at_, ls₁, [], t, t₁, rfl, hrun₁, hstep, .nil _⟩
        · exact hkeep e he he'
      | rejected | stale | idle => exact hkeep e he' he'
      | cleared p₁ p₂ x | fired p₁ p₂ x n => exact hkeep e (removed_sublist.subset he') he'
    have := ih (hrun₁.snoc hstep) h' ht' hp'
    simpa using this

omit [Slab S] [LawfulSlab S] in
/-- When the tick `n` has begun, the time of a deadline up to `n` has come. -/
theorem at_le_of_deadline_le {now n : Nat} (hn : t.msToTick now = .ok n)
    (hle : t.deadline at_ ≤ n) : at_ ≤ now := by
  obtain ⟨d, hsub, hdiv⟩ := bind_eq_ok.mp hn
  rw [u64Sub_eq_ok] at hsub
  rw [u64Div_eq_ok] at hdiv
  have hpos : 0 < t.tickMs := Nat.pos_of_ne_zero hdiv.1
  rw [Timer.deadline, ceilDiv_le_iff_le_smul hpos, smul_eq_mul, ← hdiv.2] at hle
  have := Nat.mul_div_le d t.tickMs
  omega

/-- **No timeout is delivered early.** In every run of calls from a new timer, whatever the ticks
of the earlier calls were, and for every clock reading `now`: what `tickTo` hands out for it is a
timeout that an earlier call scheduled with this token and interval, and that has been pending
since. This is the only handle that the call ends, and the time it was scheduled for is not after
`now`. -/
theorem tickTo_not_early {tickMs slots cap start : Nat}
    (hnew : Timer.new tickMs slots cap = .ok t₀) (hrun : Run CallStep (t₀.setup start) ls t)
    {now n : Nat} (hn : t.msToTick now = .ok n)
    (hfire : t.tickTo n = .ok (t', some (token, interval))) :
    (∃ timeout at_, Scheduled (t₀.setup start) t ls timeout at_ interval token ∧
      ¬ Holds t' timeout) ∧
    ∀ timeout at_ interval' token',
      Scheduled (t₀.setup start) t ls timeout at_ interval' token' → ¬ Holds t' timeout →
        token' = token ∧ interval' = interval ∧ at_ ≤ now := by
  obtain ⟨hw₀, htm₀⟩ := setup_timing hnew start fun _ => 0
  constructor
  · obtain ⟨p, due, h, ht, hp⟩ := run_scheduled hrun (.nil _) hw₀ htm₀ (by simp)
    obtain ⟨p₁, e, p₂, rfl, rfl, rfl, h', -⟩ := tickTo_some h ht hfire
    obtain ⟨at_, hs⟩ := hp e (by simp)
    exact ⟨e.handle, at_, hs, h'.not_holds h.key_ne⟩
  · intro timeout at_ interval' token' hs hgone
    obtain ⟨x, p, due, h, ht, hx, rfl, rfl, rfl, hle⟩ := hs.pending hw₀ htm₀
    obtain ⟨p₁, e, p₂, rfl, rfl, rfl, h', -, hdue, -⟩ := tickTo_some h ht hfire
    -- The other timeouts are still pending.
    obtain rfl : x = e := eq_of_removed hx fun hx' => hgone (h'.holds hx')
    refine ⟨rfl, rfl, at_le_of_deadline_le hn ?_⟩
    exact hle.trans ((ht.tick_le x hx).trans hdue)

section Example

/-- A new timer with ticks of 100 ms and 16 slots. -/
def newTimer : Timer Lib.FreeListSlab String where
  tickMs := 100
  entries := Slab.withCapacity 32
  wheel := List.replicate 16 EMPTY
  startMs := 0
  tick := 0
  next := EMPTY
  mask := 15

/-- The timer is a new one. -/
theorem new_newTimer : Timer.new 100 16 32 = .ok newTimer := rfl

/-- A new timer is reachable. -/
theorem newTimer_reachable : Reachable newTimer := ⟨100, 16, 32, 0, newTimer, [], rfl, .nil _⟩

/-- A timeout at 1650 is aimed at the tick 17, one at 50 at the tick 1, in the same slot. At 1700
the second call hands out the one of the later revolution. -/
theorem tickTo_not_early_revolution :
    ∃ (t t' : Timer Lib.FreeListSlab String) (ls : List (TimerCall String × TimerOut String)),
      Run CallStep (newTimer.setup 0) ls t ∧ t.msToTick 1700 = .ok 17 ∧
      t.tickTo 17 = .ok (t', some ("a", 0)) ∧
      (∃ timeout at_, Scheduled (newTimer.setup 0) t ls timeout at_ 0 "a" ∧ ¬ Holds t' timeout) ∧
      ∀ timeout at_ interval' token',
        Scheduled (newTimer.setup 0) t ls timeout at_ interval' token' → ¬ Holds t' timeout →
          token' = "a" ∧ interval' = 0 ∧ at_ ≤ 1700 := by
  have hrun : ∃ t, Run CallStep (newTimer.setup 0)
      [(.timeoutMsAt 1650 0 "a", .inserted (.ok ⟨0, 17⟩)),
        (.timeoutMsAt 50 0 "b", .inserted (.ok ⟨1, 1⟩)), (.tickTo 17, .ticked (some ("b", 0)))] t ∧
      t.msToTick 1700 = .ok 17 ∧ ∃ t', t.tickTo 17 = .ok (t', some ("a", 0)) :=
    ⟨_, .cons rfl (.cons rfl (.cons rfl (.nil _))), rfl, _, rfl⟩
  obtain ⟨t, hrun, hn, t', hfire⟩ := hrun
  exact ⟨t, t', _, hrun, hn, hfire, tickTo_not_early new_newTimer hrun hn hfire⟩

end Example

end Ruduo.Timer
