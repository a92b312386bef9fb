import Ruduo.Proofs.Server.Periodic

/-!
# `Ruduo.Proofs.Server.Cancellation`: when a handle is good

`handle_timeout` and `refresh_timeout` do not agree on where a repeating timer lives: its closure
is among the timers that repeat, and the handle of its new wheel entry is written to the timers
that run once. From its first firing on, the handle kept for it is that of an entry that is gone.

* `Matched`: the pending timeouts and what is kept, mark by mark, are the same set.
* `Matched.step`: every step keeps it that is handed out no entry of a repeating timer.
* `Matched.handlesGood`, `Matched.cancels`: what it says about the handles and the cancellations.
* `cancelContract_of_noneRepeats`: runs. `repeating_timer_not_cancelled`: a repeating timer that
  is cancelled after its first firing stays in the wheel.
-/

set_option autoImplicit false

namespace Ruduo

open Lib (Run Slab LawfulSlab Always Each)

/-! ### Handles -/

namespace Timer
variable {S : Type → Type} [Slab S] {T : Type} {t : Timer S T} {p : List (Pending T)}
  {e : Pending T}

/-- The handle of a pending timeout designates it. -/
theorem Wheel.designates (h : Wheel t p) (he : e ∈ p) : t.Designates e.handle e.token := by
  obtain ⟨prev, next, hget⟩ := h.stored e he
  exact ⟨_, hget, rfl, rfl⟩

/-- Every entry is that of a pending timeout. -/
theorem Wheel.entry (h : Wheel t p) {key : Nat} {en : Entry T}
    (hget : Slab.get t.entries key = some en) : ∃ e ∈ p, e.key = key ∧ e.token = en.token := by
  obtain ⟨e, he, rfl⟩ := h.only key (by rw [hget]; rfl)
  obtain ⟨prev, next, hstored⟩ := h.stored e he
  rw [hget, Option.some.injEq] at hstored
  exact ⟨e, he, rfl, by rw [hstored]⟩

end Timer

namespace Worker
variable {S : Type → Type} [Slab S] {M : Type} [DecidableEq M] {w w' : Worker S M}
  {l : WorkerLabel M} {p p₁ p₂ : List (Pending M)} {due : Pending M → Nat} {e : Pending M}

/-- The pending timeouts `p` are what is kept: each has its handle under its mark, and each handle
kept is that of one of them. A timer that runs once has the interval 0. -/
structure Matched (w : Worker S M) (p : List (Pending M)) (due : Pending M → Nat) : Prop where
  wheel : Timer.Wheel w.timer p
  timing : Timer.Timing w.timer p due
  /-- No mark occurs twice among the pending timeouts. -/
  distinct : (p.map fun e => e.token).Nodup
  kept : ∀ e ∈ p, ∃ repeats x, w.dispatcher.kept repeats e.token = some (e.handle, x) ∧
    (repeats = false → e.interval = 0)
  pending : ∀ repeats mark timeout x, w.dispatcher.kept repeats mark = some (timeout, x) →
    ∃ e ∈ p, e.handle = timeout ∧ e.token = mark
  /-- No mark is in both tables. -/
  single : ∀ mark, w.dispatcher.kept true mark = none ∨ w.dispatcher.kept false mark = none

namespace Matched

/-- The two tables share no mark. -/
theorem other (h : w.Matched p due) {repeats r : Bool} {mark : M}
    {x : Timeout × Token × Closure} (hkept : w.dispatcher.kept repeats mark = some x)
    (hr : r ≠ repeats) : w.dispatcher.kept r mark = none := by
  rcases h.single mark with hnone | hnone <;> cases repeats <;> cases r <;> simp_all

/-- The pending timeouts and what is kept are as before. -/
theorem same (h : w.Matched p due) (hw : Timer.Wheel w'.timer p)
    (ht : Timer.Timing w'.timer p due)
    (hkept : ∀ r k, w'.dispatcher.kept r k = w.dispatcher.kept r k) : w'.Matched p due := by
  refine ⟨hw, ht, h.distinct, ?_, ?_, ?_⟩
  · simpa only [hkept] using h.kept
  · simpa only [hkept] using h.pending
  · simpa only [hkept] using h.single

/-- A timer is added under a mark that no timer has. -/
theorem added (h : w.Matched p due) {due' : Pending M → Nat} {repeats : Bool}
    {x : Token × Closure} (hw : Timer.Wheel w'.timer (e :: p))
    (ht : Timer.Timing w'.timer (e :: p) due')
    (hnew : ∀ r, w.dispatcher.kept r e.token = none)
    (hkept : w.dispatcher.KeptAt w'.dispatcher repeats e.token (some (e.handle, x)))
    (hinterval : repeats = false → e.interval = 0) : w'.Matched (e :: p) due' := by
  have hfresh : ∀ e' ∈ p, e'.token ≠ e.token := by
    intro e' he' heq
    obtain ⟨r, y, hy, -⟩ := h.kept e' he'
    rw [heq, hnew] at hy
    cases hy
  refine ⟨hw, ht, ?_, ?_, ?_, ?_⟩
  · rw [List.map_cons, List.nodup_cons]
    refine ⟨fun hmem => ?_, h.distinct⟩
    obtain ⟨e', he', heq⟩ := List.mem_map.mp hmem
    exact hfresh e' he' heq
  · intro e' he'
    rcases List.mem_cons.mp he' with rfl | he'
    · exact ⟨repeats, x, by rw [hkept, if_pos ⟨rfl, rfl⟩], hinterval⟩
    · obtain ⟨r, y, hy, hr⟩ := h.kept e' he'
      refine ⟨r, y, ?_, hr⟩
      rw [hkept, if_neg fun hk => hfresh e' he' hk.2]
      exact hy
  · intro r k timeout y hy
    rw [hkept] at hy
    split at hy
    · rename_i hk
      obtain ⟨rfl, rfl⟩ := hk
      cases hy
      exact ⟨e, List.mem_cons_self, rfl, rfl⟩
    · obtain ⟨e', he', hhandle, htoken⟩ := h.pending r k timeout y hy
      exact ⟨e', List.mem_cons_of_mem _ he', hhandle, htoken⟩
  · intro k
    by_cases hk : k = e.token
    · subst hk
      -- The other table has no timer under the mark of the new one.
      cases repeats
      · left
        rw [hkept, if_neg (by simp)]
        exact hnew true
      · right
        rw [hkept, if_neg (by simp)]
        exact hnew false
    · simpa only [hkept _ k, if_neg fun hr : _ ∧ k = e.token => hk hr.2] using h.single k

/-- A pending timeout is taken out, and what was kept for it. -/
theorem taken (h : w.Matched (p₁ ++ e :: p₂) due) {repeats : Bool}
    (hw : Timer.Wheel w'.timer (p₁ ++ p₂)) (ht : Timer.Timing w'.timer (p₁ ++ p₂) due)
    (hnone : ∀ r, r ≠ repeats → w.dispatcher.kept r e.token = none)
    (hkept : w.dispatcher.KeptAt w'.dispatcher repeats e.token none) :
    w'.Matched (p₁ ++ p₂) due := by
  have hsub : ∀ x ∈ p₁ ++ p₂, x ∈ p₁ ++ e :: p₂ :=
    fun _ hx => Timer.removed_sublist.subset hx
  have hne : ∀ x ∈ p₁ ++ p₂, x.token ≠ e.token := by
    have hnodup := h.distinct
    rw [List.map_append, List.map_cons, List.nodup_middle, List.nodup_cons] at hnodup
    intro x hx heq
    exact hnodup.1 (by rw [← heq, ← List.map_append]; exact List.mem_map_of_mem hx)
  refine ⟨hw, ht, h.distinct.sublist (Timer.removed_sublist.map _), ?_, ?_, ?_⟩
  · intro x hx
    obtain ⟨r, y, hy, hr⟩ := h.kept x (hsub x hx)
    refine ⟨r, y, ?_, hr⟩
    rw [hkept, if_neg fun hk => hne x hx hk.2]
    exact hy
  · intro r k timeout y hy
    rw [hkept] at hy
    split at hy
    · cases hy
    · rename_i hk
      obtain ⟨x, hx, hhandle, rfl⟩ := h.pending r k timeout y hy
      refine ⟨x, ?_, hhandle, rfl⟩
      -- It is not the one taken out: that one was kept in the other table only.
      have hxe : x ≠ e := by
        rintro rfl
        have hr : r ≠ repeats := fun hr => hk ⟨hr, rfl⟩
        rw [hnone r hr] at hy
        cases hy
      simpa [hxe] using hx
  · intro k
    refine (h.single k).imp ?_ ?_ <;>
    · intro hk
      rw [hkept]
      split
      · rfl
      · exact hk

/-- The handles are good. -/
theorem handlesGood (h : w.Matched p due) : w.HandlesGood := by
  rintro mark timeout ⟨repeats, token, f, hkept⟩
  obtain ⟨e, he, rfl, rfl⟩ := h.pending repeats mark timeout _ hkept
  exact h.wheel.designates he

/-- No entry is pending for a mark that is not kept. -/
theorem no_entry (h : w.Matched p due) {mark : M} (hnone : ∀ r, w.dispatcher.kept r mark = none)
    {key : Nat} {en : Entry M} (hget : Slab.get w.timer.entries key = some en) :
    en.token ≠ mark := by
  rintro rfl
  obtain ⟨e, he, -, htoken⟩ := h.wheel.entry hget
  obtain ⟨r, x, hkept, -⟩ := h.kept e he
  rw [htoken, hnone] at hkept
  cases hkept

variable [LawfulSlab S]

/-- A registered timer is cleared through its handle. -/
theorem cleared (h : w.Matched p due) {repeats : Bool} {mark : M} {timeout : Timeout}
    {x : Token × Closure} {timer : Timer S M} {b : Bool}
    (hlook : w.dispatcher.kept repeats mark = some (timeout, x))
    (hcall : w.timer.clear timeout = .ok (timer, b)) :
    b = true ∧ ∃ p₁ e p₂, p = p₁ ++ e :: p₂ ∧ e.token = mark ∧
      Timer.Wheel timer (p₁ ++ p₂) ∧ Timer.Timing timer (p₁ ++ p₂) due := by
  obtain ⟨e, he, rfl, rfl⟩ := h.pending repeats mark timeout x hlook
  rcases Timer.clear_ok h.wheel h.timing hcall with
    ⟨rfl, p₁, e', p₂, rfl, hhandle, hw, ht, -⟩ | ⟨-, -, hstale⟩
  · have hkey : e'.key = e.key := congrArg Timeout.key hhandle
    obtain rfl := Timer.eq_of_key_eq h.wheel.keys (by simp) he hkey
    exact ⟨rfl, p₁, e', p₂, rfl, rfl, hw, ht⟩
  · exact absurd rfl (hstale e he)

/-- A step keeps the invariant when it is handed out no entry of a repeating timer. -/
theorem step (h : w.Matched p due) (hstep : w.DistinctStep l w')
    (hquiet : ∀ mark, w.Delivers l mark → w.dispatcher.kept true mark = none) :
    ∃ p' due', w'.Matched p' due' := by
  have hmarks := hstep.2
  cases step_timers hstep.1 with
  | other htimer hkept =>
    exact ⟨p, due, h.same (htimer ▸ h.wheel) (htimer ▸ h.timing) hkept⟩
  | added env msg q timeout hl hrecv hq hcall hkept =>
    have hadds : msg.adds = some q.mark ∧ (q.repeats = false → q.interval = 0) := by
      cases msg <;> cases hq <;> exact ⟨rfl, fun _ => by first | rfl | contradiction⟩
    obtain ⟨e, due', rfl, htoken, hinterval, hw, ht, -⟩ :=
      Timer.insert_ok h.wheel h.timing (Timer.timeoutMs_ok hcall)
    rw [← htoken] at hkept hadds
    exact ⟨e :: p, due', h.added hw ht (hmarks msg _ hrecv hadds.1) hkept
      fun hr => hinterval.trans (hadds.2 hr)⟩
  | full env msg q err hl hrecv hq hcall hkept =>
    obtain ⟨-, htimer⟩ := Timer.insert_error h.wheel h.timing (Timer.timeoutMs_ok hcall)
    exact ⟨p, due, h.same (htimer ▸ h.wheel) (htimer ▸ h.timing) hkept⟩
  | cancelled token mark repeats timeout x b hrecv hlook hfirst hcall hkept =>
    obtain ⟨-, p₁, e, p₂, rfl, rfl, hw, ht⟩ := h.cleared hlook hcall
    exact ⟨p₁ ++ p₂, due, h.taken hw ht (fun r hr => h.other hlook hr) hkept⟩
  | unknown token mark hrecv hlook htimer hkept =>
    exact ⟨p, due, h.same (htimer ▸ h.wheel) (htimer ▸ h.timing) hkept⟩
  | drained nowTick env hl hcall hkept =>
    obtain ⟨hw, ht, -⟩ := Timer.tickTo_none h.wheel h.timing hcall
    exact ⟨p, due, h.same hw ht hkept⟩
  | fired nowTick env mark hl hcall hkept =>
    have hnone : w.dispatcher.kept true mark = none :=
      hquiet mark (by rw [hl]; exact ⟨_, _, hcall⟩)
    obtain ⟨p₁, e, p₂, rfl, rfl, -, hw, ht, -⟩ := Timer.tickTo_some h.wheel h.timing hcall
    refine ⟨p₁ ++ p₂, due, h.taken hw ht (fun r hr => ?_) hkept⟩
    obtain rfl : r = true := by simpa using hr
    exact hnone
  | repeated nowTick env mark interval timer timeout hl hpos hcall hagain hkept =>
    -- The entry would be that of a timer that runs once, whose interval is 0.
    have hnone : w.dispatcher.kept true mark = none :=
      hquiet mark (by rw [hl]; exact ⟨_, _, hcall⟩)
    obtain ⟨p₁, e, p₂, rfl, rfl, rfl, -⟩ := Timer.tickTo_some h.wheel h.timing hcall
    obtain ⟨repeats, x, hlook, hzero⟩ := h.kept e (by simp)
    cases repeats with
    | true => cases hnone.symm.trans hlook
    | false => exact absurd (hzero rfl) hpos.ne'

/-- A `CancelTimer` message cancels. -/
theorem cancels (h : w.Matched p due) (hstep : w.Step l w') : w.Cancels l w' := by
  intro token mark hrecv
  have honly : ∀ msg, w.Receives l msg → msg = .cancelTimer token mark :=
    fun msg hmsg => receives_unique hmsg hrecv
  have hl : ∀ nowTick env, l ≠ .timer nowTick env := by
    rintro nowTick env rfl
    exact hrecv
  cases step_timers hstep with
  | other htimer hkept hadds hcancels => cases hcancels _ hrecv
  | added env msg q timeout _ hmsg hq | full env msg q err _ hmsg hq =>
    rw [honly msg hmsg] at hq
    cases hq
  | cancelled token' mark' repeats timeout x b hmsg hlook hfirst hcall hkept =>
    obtain ⟨-, rfl⟩ := TcpConnMessage.cancelTimer.inj (honly _ hmsg)
    obtain ⟨rfl, p₁, e, p₂, rfl, rfl, hw, ht⟩ := h.cleared hlook hcall
    -- The entry is out of the wheel, and no table has its mark any more.
    have h' := h.taken hw ht (fun r hr => h.other hlook hr) hkept
    have hnone : ∀ r, w'.dispatcher.kept r e.token = none := by
      intro r
      rw [hkept]
      split
      · rfl
      · rename_i hr
        exact h.other hlook fun heq => hr ⟨heq, rfl⟩
    refine ⟨fun key en hget => h'.no_entry hnone hget, fun timeout' hreg => ?_⟩
    obtain ⟨r, tok, f, hlook'⟩ := hreg
    by_cases hr : r = repeats
    · subst hr
      obtain ⟨rfl, -⟩ := Prod.mk.inj (Option.some.inj (hlook.symm.trans hlook'))
      exact hcall
    · cases (h.other hlook hr).symm.trans hlook'
  | unknown token' mark' hmsg hlook htimer hkept =>
    obtain ⟨-, rfl⟩ := TcpConnMessage.cancelTimer.inj (honly _ hmsg)
    refine ⟨fun key en hget => h.no_entry hlook (htimer ▸ hget), ?_⟩
    rintro timeout' ⟨r, tok, f, hlook'⟩
    cases (hlook r).symm.trans hlook'
  | drained nowTick env h | fired nowTick env _ h | repeated nowTick env _ _ _ _ h =>
    exact absurd h (hl nowTick env)

/-- A new worker has no timers. -/
theorem new {cap offset noti tickMs slots timerCap now : Nat} {timer : Timer S M}
    (hnew : Timer.new tickMs slots timerCap = .ok timer) (due : Pending M → Nat) :
    (Worker.new cap offset noti (timer.setup now)).Matched [] due := by
  obtain ⟨hw, ht⟩ := Timer.setup_timing hnew now due
  refine ⟨hw, ht, List.nodup_nil, nofun, ?_, ?_⟩
  · intro repeats mark timeout x hkept
    cases repeats <;> simp [Dispatcher.kept, Worker.new, Dispatcher.new] at hkept
  · intro mark
    exact Or.inl (by simp [Dispatcher.kept, Worker.new, Dispatcher.new])

end Matched

/-- **When a cancellation cancels.** Take any run of a worker in which distinct timers use
distinct marks. As long as no entry of a repeating timer comes due, each handle kept is that of a
pending entry for its mark, and each cancellation is complete. -/
theorem cancelContract_of_noneRepeats [LawfulSlab S]
    {cap offset noti tickMs slots timerCap now : Nat} {timer : Timer S M}
    {ls : List (WorkerLabel M)} (hnew : Timer.new tickMs slots timerCap = .ok timer)
    (hquiet : (Worker.new cap offset noti (timer.setup now)).NoneRepeats ls) :
    (Worker.new cap offset noti (timer.setup now)).CancelContract ls := by
  have hmatched : Always DistinctStep (fun w => ∃ p due, w.Matched p due)
      (Worker.new cap offset noti (timer.setup now)) ls := by
    refine Each.always ?_ hquiet ⟨[], fun e => e.tick, Matched.new hnew _⟩
    rintro w l w' ⟨p, due, h⟩ hw hstep
    exact h.step hstep hw
  constructor
  · intro ls₁ ls₂ w hls hrun
    obtain ⟨p, due, h⟩ := hmatched ls₁ ls₂ w hls hrun
    exact h.handlesGood
  · refine hmatched.each ?_
    rintro w l w' ⟨p, due, h⟩ hstep
    exact h.cancels hstep.1

section Example

/-- The timer of `timerRun` comes due once, and is then cancelled. -/
def cancelRun : List (WorkerLabel String) :=
  timerRun ++ [.receive quietEnv, .timer 1 { quietEnv with now := 100 },
    .enqueue (.any (.cancelTimer 0 "m")), .receive quietEnv]

/-- A message is received that adds a timer only under a mark that no timer has. -/
theorem distinctStep_receive {env : Env M} {q : Queued M} {queue : List (Queued M)}
    (hstep : w.Step (.receive env) w') (hqueue : w.queue = q :: queue)
    (hadds : ∀ msg mark, q.msg = .any msg → msg.adds = some mark →
      ∀ repeats, w.dispatcher.kept repeats mark = none) : w.DistinctStep (.receive env) w' := by
  refine ⟨hstep, ?_⟩
  rintro msg mark ⟨target, queue', hqueue'⟩
  obtain ⟨rfl, -⟩ := List.cons.inj (hqueue.symm.trans hqueue')
  exact hadds msg mark rfl

/-- Before the timer has come due it can be cancelled. -/
theorem cancelContract_of_noneRepeats_before :
    (Worker.new 4 0 0 ((emptyTimer : Timer Lib.FreeListSlab String).setup 0)).CancelContract
      (timerRun ++ [.receive quietEnv, .enqueue (.any (.cancelTimer 0 "m")),
        .receive quietEnv]) := by
  have hnew : (Timer.new 100 16 16 : Except Fault (Timer Lib.FreeListSlab String))
      = .ok emptyTimer := rfl
  refine cancelContract_of_noneRepeats hnew ?_
  rintro ls₁ l ls₂ w w' hls - - mark hdel
  -- Nothing is handed out in this run.
  have hl : l ∈ ls₁ ++ l :: ls₂ := by simp
  rw [← hls] at hl
  simp only [timerRun, List.cons_append, List.nil_append, List.mem_cons, List.not_mem_nil,
    or_false] at hl
  rcases hl with rfl | rfl | rfl | rfl | rfl | rfl | rfl <;> exact hdel.elim

set_option maxRecDepth 8000 in
/-- **A repeating timer cannot be cancelled any more once it has come due**: its handle is refused,
and its entry stays in the wheel. -/
theorem repeating_timer_not_cancelled :
    ¬ (Worker.new 4 0 0 ((emptyTimer : Timer Lib.FreeListSlab String).setup 0)).CancelContract
      cancelRun := by
  rintro ⟨-, hcancels⟩
  have hrun : Run DistinctStep (Worker.new 4 0 0 (emptyTimer.setup 0))
      (timerRun ++ [.receive quietEnv, .timer 1 { quietEnv with now := 100 },
        .enqueue (.any (.cancelTimer 0 "m"))]) _ :=
    .cons ⟨rfl, nofun⟩ (.cons (distinctStep_receive rfl rfl (by rintro msg mark ⟨⟩ ⟨⟩))
      (.cons ⟨rfl, nofun⟩ (.cons ⟨rfl, nofun⟩
        (.cons (distinctStep_receive rfl rfl fun _ _ _ _ repeats => by cases repeats <;> rfl)
          (.cons ⟨rfl, nofun⟩ (.cons ⟨rfl, nofun⟩ (.nil _)))))))
  have hlast := hcancels _ _ [] _ _ rfl hrun
    (distinctStep_receive rfl rfl (by rintro msg mark ⟨⟩ ⟨⟩)) 0 "m" ⟨_, _, rfl⟩
  exact hlast.1 0 _ rfl rfl

end Example

end Worker

end Ruduo
