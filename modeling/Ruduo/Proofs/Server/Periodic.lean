import Ruduo.Proofs.Server.Timers
import Ruduo.Proofs.Timer.Tracking

/-!
# `Ruduo.Proofs.Server.Periodic`: a repeating timer repeats once

`process_timers` schedules a repeating timeout again before it calls its closure. It uses
`schedule_after`, so the new entry carries the interval 0 (`Passed.again`). When this one is
handed out it counts as one that does not repeat, and `handle_timeout` looks for its closure in
the wrong table.

* `Tracked` follows the entries of one mark through a run. `Tracked.step` says that every step
  keeps it that neither adds, cancels nor hands out the mark.
* A timer is `Armed` by its message, and `Spent` once it was handed out (`Tracked.delivered`).
  An armed timer runs its closure (`Armed.runs`), a spent one never does (`Spent.not_runs`).
* `runs_iff_first`, `periodic_iff_silent`: what this means for every run.
-/

set_option autoImplicit false

namespace Ruduo

open Lib (Outcome Run Slab LawfulSlab)

/-! ### What the handlers do with the timers -/

/-- A message adds the timer that it asks for. -/
theorem TcpConnMessage.adds_of_request {M : Type} {msg : TcpConnMessage M} {q : TimerRequest M}
    (hq : msg.request = some q) : msg.adds = some q.mark := by
  cases msg with
  | addTimer | addTimer2 =>
    cases hq
    rfl
  | _ => cases hq

namespace Dispatcher
variable {S : Type → Type} [Slab S] {M : Type} [DecidableEq M] {d d' : Dispatcher S M}
  {timer : Timer S M} {msg : TcpConnMessage M} {env : Env M} {h : Handled S M} {mark : M}
  {token : Token}

/-- A timer that repeats runs its closure on the connection. -/
theorem handleTimeout_runs [LawfulSlab S] {timeout : Timeout} {f : Closure} {c : TcpConnection}
    {r : Dispatcher S M × List (TcpConnMessage M)}
    (hok : d.handleTimeout mark true env = .ok r)
    (hlook : d.timers2.lookup mark = some (timeout, token, f)) (hc : d.connAt token = some c) :
    ∃ c', r.1.connAt token = some c' ∧ c.log ++ [.timer f] <+: c'.log := by
  unfold handleTimeout at hok
  simp only [Bool.not_true, Bool.false_eq_true, if_false, hlook] at hok
  obtain ⟨⟨d₁, sent⟩, hr, hok⟩ := bind_eq_ok.mp hok
  obtain ⟨-, -, hholder⟩ := (Worker.withConnection_delivers _ token _).of_ok hr
  obtain ⟨s, hs, hat, -⟩ := hholder c hc
  cases hok
  exact ⟨s.conn, hat, timer_log hs⟩

/-- A timeout with the interval 0 runs nothing when its mark is not among the timers that do not
repeat. -/
theorem handleTimeout_nothing {r : Dispatcher S M × List (TcpConnMessage M)}
    (hok : d.handleTimeout mark false env = .ok r) (hnot : mark ∉ d.timers) : r.1 = d := by
  unfold handleTimeout at hok
  simp only [Bool.not_false, if_true, AList.lookup_eq_none.mpr hnot] at hok
  cases hok
  rfl

end Dispatcher

/-! ### Runs -/

namespace Worker
variable {S : Type → Type} [Slab S] [LawfulSlab S] {M : Type} [DecidableEq M]
  {w w' : Worker S M} {l : WorkerLabel M} {mark : M} {token : Token} {n interval : Nat}
  {f : Closure} {Q Q' : Nat → Option (Timeout × Token × Closure) → Prop}

/-- At most `n` timeouts of the mark are pending. `Q` holds of the interval of each and of what
is kept under the mark among the timers that repeat. The mark is none of the others. -/
structure Tracked (w : Worker S M) (mark : M) (n : Nat)
    (Q : Nat → Option (Timeout × Token × Closure) → Prop) : Prop where
  pending : w.timer.Tracks mark n fun i => Q i (w.dispatcher.timers2.lookup mark)
  single : mark ∉ w.dispatcher.timers

omit [LawfulSlab S] in
/-- What is tracked under a property is tracked under a weaker one. -/
theorem Tracked.mono (h : w.Tracked mark n Q) (hQ : ∀ i o, Q i o → Q' i o) :
    w.Tracked mark n Q' :=
  ⟨h.pending.mono fun i => hQ i _, h.single⟩

omit [LawfulSlab S] in
/-- The wheel keeps its bound, and the tables stay as they are at the mark. -/
theorem Tracked.same (h : w.Tracked mark n Q)
    (hwheel : ∀ J, w.timer.Tracks mark n J → w'.timer.Tracks mark n J)
    (hkept : ∀ r, w'.dispatcher.kept r mark = w.dispatcher.kept r mark) : w'.Tracked mark n Q := by
  have hsingle : w'.dispatcher.timers.lookup mark = none :=
    (hkept false).trans (AList.lookup_eq_none.mpr h.single)
  have hlook : w'.dispatcher.timers2.lookup mark = w.dispatcher.timers2.lookup mark := hkept true
  refine ⟨?_, AList.lookup_eq_none.mp hsingle⟩
  rw [hlook]
  exact hwheel _ h.pending

/-- A step that is not about the mark keeps what is tracked. -/
theorem Tracked.step (h : w.Tracked mark n Q) (hstep : w.ForeignStep mark l w')
    (hsilent : ¬ w.Delivers l mark)
    (hcancels : (∀ i o, Q i o → Q i none) ∨
      ∀ msg, w.Receives l msg → msg.cancels ≠ some mark) : w'.Tracked mark n Q := by
  obtain ⟨hstep, hadds⟩ := hstep
  have hother : ∀ msg q, w.Receives l msg → msg.request = some q → q.mark ≠ mark := by
    rintro msg q hrecv hq rfl
    exact hadds msg hrecv (TcpConnMessage.adds_of_request hq)
  cases step_timers hstep with
  | other htimer hkept | unknown _ _ _ _ htimer hkept =>
    exact h.same (fun _ hJ => htimer ▸ hJ) fun r => hkept r mark
  | added env msg q timeout hl hrecv hq hcall hkept =>
    have hne := hother msg q hrecv hq
    obtain ⟨at_, hcall⟩ := Timer.timeoutMs_call hcall
    refine h.same (fun J hJ => hJ.call hcall (by simp [hne])) fun r => ?_
    rw [hkept, if_neg fun hk => hne hk.2.symm]
  | full env msg q err hl hrecv hq hcall hkept =>
    have hne := hother msg q hrecv hq
    obtain ⟨at_, hcall⟩ := Timer.timeoutMs_call hcall
    exact h.same (fun J hJ => hJ.call hcall (by simp [hne])) fun r => hkept r mark
  | cancelled token m repeats timeout x b hrecv hlook hfirst hcall hkept =>
    have hwheel : ∀ J, w.timer.Tracks mark n J → w'.timer.Tracks mark n J :=
      fun J hJ => hJ.call (Timer.clear_call hcall) (by simp)
    by_cases hm : m = mark
    · -- The mark itself is cancelled. Its timer is one that repeats.
      subst hm
      have hforget := hcancels.resolve_right fun hne => hne _ hrecv rfl
      have hsingle : w.dispatcher.kept false m = none := AList.lookup_eq_none.mpr h.single
      cases repeats with
      | false => cases hsingle.symm.trans hlook
      | true =>
        have hgone : w'.dispatcher.timers2.lookup m = none :=
          (hkept true m).trans (if_pos ⟨rfl, rfl⟩)
        have hsingle' : w'.dispatcher.timers.lookup m = none :=
          (hkept false m).trans ((if_neg (by simp)).trans hsingle)
        refine ⟨?_, AList.lookup_eq_none.mp hsingle'⟩
        rw [hgone]
        exact hwheel _ (h.pending.mono fun i => hforget i _)
    · exact h.same hwheel fun r => by rw [hkept, if_neg fun hk => hm hk.2.symm]
  | drained nowTick env hl hcall hkept =>
    exact h.same (fun J hJ => hJ.call (Timer.tickTo_call hcall) (by simp)) fun r => hkept r mark
  | fired nowTick env m hl hcall hkept =>
    have hne : m ≠ mark := by
      rintro rfl
      exact hsilent (hl ▸ ⟨_, _, hcall⟩)
    refine h.same (fun J hJ => hJ.call (Timer.tickTo_call hcall) (by simp)) fun r => ?_
    rw [hkept, if_neg fun hk => hne hk.2.symm]
  | repeated nowTick env m interval timer timeout hl hpos hcall hagain hkept =>
    have hne : m ≠ mark := by
      rintro rfl
      exact hsilent (hl ▸ ⟨_, _, hcall⟩)
    obtain ⟨at_, hagain⟩ := Timer.timeoutMs_call hagain
    refine h.same (fun J hJ => ?_) fun r => ?_
    · exact (hJ.call (Timer.tickTo_call hcall) (by simp)).call hagain (by simp [hne])
    · rw [hkept, if_neg fun hk => hne hk.2.symm]

/-- The timer is pending at most once, with its interval, and its closure is kept. -/
def Armed (w : Worker S M) (mark : M) (token : Token) (interval : Nat) (f : Closure) : Prop :=
  w.Tracked mark 1 fun i o => i = interval ∧ ∃ timeout, o = some (timeout, token, f)

/-- The timer is pending at most once, and not to repeat. -/
def Spent (w : Worker S M) (mark : M) : Prop := w.Tracked mark 1 fun i _ => i = 0

omit [LawfulSlab S] in
/-- What a step does that hands out an entry for the mark. -/
theorem delivered_cases (hstep : w.Step l w') (hdel : w.Delivers l mark) : ∃ nowTick env,
    (w.timer.CallStep (.tickTo nowTick, .ticked (some (mark, 0))) w'.timer ∧
      w.dispatcher.handleTimeout mark false env = .ok (w'.dispatcher, w'.outbox)) ∨
    ∃ i timer timeout at_, 0 < i ∧
      w.timer.CallStep (.tickTo nowTick, .ticked (some (mark, i))) timer ∧
      timer.CallStep (.timeoutMsAt at_ 0 mark, .inserted (.ok timeout)) w'.timer ∧
      (w.dispatcher.refreshTimeout mark timeout).handleTimeout mark true env
        = .ok (w'.dispatcher, w'.outbox) := by
  cases l with
  | timer nowTick env =>
    obtain ⟨r, hr, rfl⟩ := step_timer hstep
    obtain ⟨timer, i, hdue⟩ := hdel
    refine ⟨nowTick, env, ?_⟩
    cases Dispatcher.processTimer_passed hr with
    | idle htick => cases htick.symm.trans hdue
    | once m htick hcall =>
      cases htick.symm.trans hdue
      exact Or.inl ⟨Timer.tickTo_call htick, hcall⟩
    | again m i' timer' timeout hpos htick hagain hcall =>
      cases htick.symm.trans hdue
      obtain ⟨at_, hagain⟩ := Timer.timeoutMs_call hagain
      exact Or.inr ⟨i, timer, timeout, at_, hpos, Timer.tickTo_call htick, hagain, hcall⟩
  | _ => exact hdel.elim

/-- An entry that was handed out is pending at most once again, and with the interval 0. -/
theorem Tracked.delivered (h : w.Tracked mark 1 Q) (hstep : w.Step l w')
    (hdel : w.Delivers l mark) : w'.Spent mark := by
  obtain ⟨nowTick, env, ⟨htick, hcall⟩ | ⟨i, timer, timeout, at_, -, htick, hagain, hcall⟩⟩ :=
    delivered_cases hstep hdel
  · have hgone : w'.dispatcher.kept false mark = none :=
      (Dispatcher.handleTimeout_once hcall false mark).trans (if_pos ⟨rfl, rfl⟩)
    exact ⟨(h.pending.fired htick).2.of_zero, AList.lookup_eq_none.mp hgone⟩
  · have hzero : timer.Tracks mark 0 fun i => i = 0 := (h.pending.fired htick).2.of_zero
    have hsingle : w.dispatcher.kept false mark = none := AList.lookup_eq_none.mpr h.single
    have hnone : w'.dispatcher.kept false mark = none := by
      rw [Dispatcher.handleTimeout_again hcall, Dispatcher.keptAt_refreshTimeout, if_pos ⟨rfl, rfl⟩,
        hsingle]
      rfl
    exact ⟨hzero.scheduled hagain fun _ _ => rfl, AList.lookup_eq_none.mp hnone⟩

/-- The first time the closure runs. -/
theorem Armed.runs (h : w.Armed mark token interval f) (hinterval : 0 < interval)
    (hlive : ∃ c, w.dispatcher.connAt token = some c) (hstep : w.Step l w')
    (hdel : w.Delivers l mark) : w.RanTimer w' token f := by
  obtain ⟨c, hc⟩ := hlive
  obtain ⟨nowTick, env, ⟨htick, -⟩ | ⟨i, timer, timeout, at_, -, htick, -, hcall⟩⟩ :=
    delivered_cases hstep hdel
  · obtain ⟨⟨rfl, -⟩, -⟩ := h.pending.fired htick
    exact absurd hinterval (Nat.lt_irrefl 0)
  · obtain ⟨⟨-, old, hlook⟩, -⟩ := h.pending.fired htick
    have hsame := Dispatcher.refreshTimeout_sameTable w.dispatcher mark timeout
    rw [← Dispatcher.refreshTimeout_timers2 _ mark timeout] at hlook
    obtain ⟨c', hc', hlog⟩ :=
      Dispatcher.handleTimeout_runs hcall hlook ((hsame.connAt token).trans hc)
    exact ⟨c, c', hc, hc', hlog⟩

/-- After that it does not run any more. -/
theorem Spent.not_runs (h : w.Spent mark) (hstep : w.Step l w') (hdel : w.Delivers l mark) :
    ¬ w.RanTimer w' token f := by
  obtain ⟨nowTick, env, ⟨-, hcall⟩ | ⟨i, timer, timeout, at_, hpos, htick, -⟩⟩ :=
    delivered_cases hstep hdel
  · rintro ⟨c, c', hc, hc', hlog⟩
    have hsame : w'.dispatcher = w.dispatcher := Dispatcher.handleTimeout_nothing hcall h.single
    rw [hsame, hc] at hc'
    obtain rfl := Option.some.inj hc'
    have := hlog.length_le
    simp at this
  · obtain ⟨rfl, -⟩ := h.pending.fired htick
    exact absurd hpos (Nat.lt_irrefl 0)

/-- The message arms the timer, unless the wheel is full. -/
theorem Tracked.armed (h : w.Tracked mark 0 Q) {env : Env M} {delay : Nat}
    (hadd : w.Receives (.receive env) (.addTimer2 token delay interval mark f))
    (hstep : w.Step (.receive env) w') : w'.Armed mark token interval f := by
  obtain ⟨target, queue', hqueue'⟩ := hadd
  obtain ⟨q, queue, r, hqueue, hr, rfl⟩ := step_receive hstep
  obtain ⟨rfl, rfl⟩ := List.cons.inj (hqueue'.symm.trans hqueue)
  obtain ⟨⟨timer, res⟩, htimeout, hr⟩ := bind_eq_ok.mp hr
  obtain ⟨at_, hcall⟩ := Timer.timeoutMs_call htimeout
  have hpending : ∀ J : Nat → Prop, (∀ timeout, res = .ok timeout → J interval) →
      timer.Tracks mark 1 J := by
    intro J hJ
    have hzero : w.timer.Tracks mark 0 J := h.pending.of_zero
    exact hzero.scheduled hcall hJ
  cases res with
  | ok timeout =>
    cases hr
    exact ⟨hpending _ fun _ _ => ⟨rfl, timeout, AList.lookup_insert _⟩, h.single⟩
  | error e =>
    cases hr
    exact ⟨hpending _ nofun, h.single⟩

/-- Before the message, nothing is pending for the mark. -/
theorem tracked_before {cap offset noti tickMs slots timerCap now : Nat} {timer : Timer S M}
    (hnew : Timer.new tickMs slots timerCap = .ok timer) {ls : List (WorkerLabel M)}
    (hrun : Run (ForeignStep mark) (new cap offset noti (timer.setup now)) ls w) :
    w.Tracked mark 0 fun _ _ => True := by
  refine hrun.invariant (P := fun w => w.Tracked mark 0 fun _ _ => True) ?_
    ⟨Timer.Tracks.setup hnew, AList.notMem_empty mark⟩
  intro s l t hs hstep
  refine hs.step hstep (fun hdel => ?_) (Or.inl fun _ _ _ => trivial)
  have hnone : s.Tracked mark 1 fun _ _ => False := ⟨hs.pending.of_zero, hs.single⟩
  obtain ⟨nowTick, env, ⟨htick, -⟩ | ⟨i, timer, timeout, at_, -, htick, -⟩⟩ :=
    delivered_cases hstep.1 hdel
  · exact (hnone.pending.fired htick).1
  · exact (hnone.pending.fired htick).1

/-- In a run that does not disturb the timer, it is armed until it is handed out, and spent from
then on. -/
theorem Armed.run {ls : List (WorkerLabel M)} (hrun : Run (UndisturbedStep mark token) w ls w')
    (h : w.Armed mark token interval f) :
    (Run (SilentStep mark) w ls w' ∧ w'.Armed mark token interval f) ∨ w'.Spent mark := by
  have hspent : ∀ (s : Worker S M) l t, s.Spent mark → UndisturbedStep mark token s l t →
      t.Spent mark := by
    intro s l t hs hstep
    by_cases hdel : s.Delivers l mark
    · exact hs.delivered hstep.1.1 hdel
    · exact hs.step hstep.1 hdel (Or.inl fun _ _ => id)
  induction hrun with
  | nil => exact Or.inl ⟨.nil _, h⟩
  | @cons s t u l ls hstep hrest ih =>
    by_cases hdel : s.Delivers l mark
    · have ht : t.Spent mark := h.delivered hstep.1.1 hdel
      exact Or.inr (hrest.invariant (P := fun w => w.Spent mark) hspent ht)
    · have ht : t.Armed mark token interval f := h.step hstep.1 hdel (Or.inr hstep.2.1)
      exact (ih ht).imp_left fun hu => ⟨.cons ⟨hstep.1.1, hdel⟩ hu.1, hu.2⟩

/-- The closure of a repeating timer runs when the timer is handed out for the first time, and
never again. -/
theorem runs_iff_first {cap offset noti tickMs slots timerCap now delay : Nat}
    {timer : Timer S M} {w₁ w₂ w₃ : Worker S M} {env : Env M} {ls₁ ls₂ : List (WorkerLabel M)}
    (hnew : Timer.new tickMs slots timerCap = .ok timer)
    (hbefore : Run (ForeignStep mark) (new cap offset noti (timer.setup now)) ls₁ w)
    (hinterval : 0 < interval)
    (hadd : w.Receives (.receive env) (.addTimer2 token delay interval mark f))
    (hstep : w.Step (.receive env) w₁) (hafter : Run (UndisturbedStep mark token) w₁ ls₂ w₂)
    (hlast : UndisturbedStep mark token w₂ l w₃) (hdel : w₂.Delivers l mark) :
    w₂.RanTimer w₃ token f ↔ Run (SilentStep mark) w₁ ls₂ w₂ := by
  have harmed : w₁.Armed mark token interval f := (tracked_before hnew hbefore).armed hadd hstep
  constructor
  · intro hran
    rcases harmed.run hafter with ⟨hsilent, -⟩ | hspent
    · exact hsilent
    · exact absurd hran (hspent.not_runs hlast.1.1 hdel)
  · intro hsilent
    have hboth := hafter.inter (fun s l t u ht hu => step_deterministic s l t u ht.1.1 hu.1) hsilent
    have h : w₂.Armed mark token interval f := by
      refine hboth.invariant (P := fun w => w.Armed mark token interval f) ?_ harmed
      rintro s l t hs ⟨⟨hforeign, hcancels, -⟩, -, hquiet⟩
      exact hs.step hforeign hquiet (Or.inr hcancels)
    exact h.runs hinterval hlast.2.2 hlast.1.1 hdel

/-- **A repeating timer does not stay periodic.** Take any run in which an `AddTimer2` message is
handled whose mark is used by no other timer, and any run after it in which the mark is not
cancelled and the connection stays live. The timer keeps its promise in the second run exactly
as long as it is not handed out at all. -/
theorem periodic_iff_silent {cap offset noti tickMs slots timerCap now delay : Nat}
    {timer : Timer S M} {w₁ w₂ : Worker S M} {env : Env M} {ls₁ ls₂ : List (WorkerLabel M)}
    (hnew : Timer.new tickMs slots timerCap = .ok timer)
    (hbefore : Run (ForeignStep mark) (new cap offset noti (timer.setup now)) ls₁ w)
    (hinterval : 0 < interval)
    (hadd : w.Receives (.receive env) (.addTimer2 token delay interval mark f))
    (hstep : w.Step (.receive env) w₁) (hafter : Run (UndisturbedStep mark token) w₁ ls₂ w₂) :
    Run (PeriodicStep mark token interval f) w₁ ls₂ w₂ ↔ Run (SilentStep mark) w₁ ls₂ w₂ := by
  have harmed : w₁.Armed mark token interval f := (tracked_before hnew hbefore).armed hadd hstep
  constructor
  · intro hperiodic
    have hboth := hafter.inter (fun s l t u ht hu => step_deterministic s l t u ht.1.1 hu.1)
      hperiodic
    refine hboth.mono_of_invariant (P := fun w => w.Tracked mark 1 fun _ _ => True) ?_
      (harmed.mono fun _ _ _ => trivial)
    rintro s l t hs ⟨⟨hforeign, -, -⟩, hst, hkeeps⟩
    -- An entry that was handed out comes back with another interval.
    have hsilent : ¬ s.Delivers l mark := fun hdel =>
      (hs.delivered hst hdel).pending.not_pendsOnce hinterval.ne' (hkeeps hdel).1
    exact ⟨hs.step hforeign hsilent (Or.inl fun _ _ _ => trivial), hst, hsilent⟩
  · intro hsilent
    exact hsilent.mono fun _ _ _ h => ⟨h.1, fun hdel => absurd hdel h.2⟩

end Worker

section Example

/-- A client connects, and a thread asks for a timer with the mark `"m"` that is to run the
closure 5 on it every 100 ms. -/
def timerRun : List (WorkerLabel String) :=
  [.enqueue (.any (.established .fresh 7 0)), .receive quietEnv, .lock,
    .enqueue (.any (.addTimer2 0 100 100 "m" 5))]

/-- The timer comes due for the first and for the second time. -/
def firings : List (WorkerLabel String) :=
  [.timer 1 { quietEnv with now := 100 }, .timer 2 { quietEnv with now := 200 }]

set_option maxRecDepth 8000 in
/-- The timer fires twice. After the first time its entry carries the interval 0, and the second
time its closure does not run. -/
theorem timer_fires_twice : ∃ w w₁ w₂ w₃ : Worker Lib.FreeListSlab String,
    Run (Worker.ForeignStep "m") (Worker.new 4 0 0 (emptyTimer.setup 0)) timerRun w ∧
    w.Receives (.receive quietEnv) (.addTimer2 0 100 100 "m" 5) ∧
    w.Step (.receive quietEnv) w₁ ∧
    w₁.UndisturbedStep "m" 0 (.timer 1 { quietEnv with now := 100 }) w₂ ∧
    w₁.Delivers (.timer 1 { quietEnv with now := 100 }) "m" ∧
    w₁.RanTimer w₂ 0 5 ∧ w₂.timer.PendsOnce "m" 0 ∧
    w₂.UndisturbedStep "m" 0 (.timer 2 { quietEnv with now := 200 }) w₃ ∧
    w₂.Delivers (.timer 2 { quietEnv with now := 200 }) "m" ∧ ¬ w₂.RanTimer w₃ 0 5 := by
  -- Before the timer is added, the only message is that of the new connection.
  have harrival : ∀ (w : Worker Lib.FreeListSlab String) q, w.queue = [q] →
      q.msg = .any (.established .fresh 7 0) →
      ∀ msg, w.Receives (.receive quietEnv) msg → msg.adds ≠ some "m" := by
    rintro w q hq hmsg msg ⟨target, queue, hqueue⟩
    obtain ⟨rfl, -⟩ := List.cons.inj (hq.symm.trans hqueue)
    cases hmsg
    nofun
  have hbefore : Run (Worker.ForeignStep "m") (Worker.new 4 0 0 (emptyTimer.setup 0)) timerRun _ :=
    .cons ⟨rfl, nofun⟩ (.cons ⟨rfl, harrival _ _ rfl rfl⟩ (.cons ⟨rfl, nofun⟩
      (.cons ⟨rfl, nofun⟩ (.nil _))))
  refine ⟨_, _, _, _, hbefore, ⟨_, _, rfl⟩, rfl, ⟨⟨rfl, nofun⟩, nofun, _, rfl⟩, ⟨_, _, rfl⟩,
    ⟨_, _, rfl, rfl, by decide⟩, ⟨0, _, rfl, rfl, rfl, ?_⟩, ⟨⟨rfl, nofun⟩, nofun, _, rfl⟩,
    ⟨_, _, rfl⟩, ?_⟩
  -- The entry of the timer is the only one in the wheel.
  · intro key e hget htoken
    cases key with
    | zero => rfl
    | succ key => cases hget
  · rintro ⟨c, c', hc, hc', hlog⟩
    cases hc
    cases hc'
    exact absurd hlog (by decide)

/-- **The closure runs at the first firing only**, and the timer does not stay periodic. -/
theorem periodic_timer_runs_once : ∃ w w₁ w₂ w₃ : Worker Lib.FreeListSlab String,
    Timer.new 100 16 16 = .ok emptyTimer ∧
    Run (Worker.ForeignStep "m") (Worker.new 4 0 0 (emptyTimer.setup 0)) timerRun w ∧
    w.Receives (.receive quietEnv) (.addTimer2 0 100 100 "m" 5) ∧
    w.Step (.receive quietEnv) w₁ ∧ Run (Worker.UndisturbedStep "m" 0) w₁ firings w₃ ∧
    w₁.Step (.timer 1 { quietEnv with now := 100 }) w₂ ∧
    w₁.Delivers (.timer 1 { quietEnv with now := 100 }) "m" ∧
    w₁.RanTimer w₂ 0 5 ∧ w₂.timer.PendsOnce "m" 0 ∧
    w₂.Delivers (.timer 2 { quietEnv with now := 200 }) "m" ∧ ¬ w₂.RanTimer w₃ 0 5 ∧
    ¬ Run (Worker.PeriodicStep "m" 0 100 5) w₁ firings w₃ := by
  obtain ⟨w, w₁, w₂, w₃, hbefore, hadd, hstep, hfirst, hdel, hran, hpends, hsecond, hdel', hnot⟩ :=
    timer_fires_twice
  refine ⟨w, w₁, w₂, w₃, rfl, hbefore, hadd, hstep, .cons hfirst (.cons hsecond (.nil _)),
    hfirst.1.1, hdel, hran, hpends, hdel', hnot, fun hperiodic => ?_⟩
  cases hperiodic with
  | cons h₁ hrest =>
    obtain rfl := Worker.step_deterministic _ _ _ _ hfirst.1.1 h₁.1
    cases hrest with
    | cons h₂ hnil =>
      cases hnil
      exact hnot (h₂.2 hdel').2

/-- The same run, as the theorem describes it. -/
theorem periodic_iff_silent_firings : ∃ w₁ w₃ : Worker Lib.FreeListSlab String,
    Run (Worker.UndisturbedStep "m" 0) w₁ firings w₃ ∧
      (Run (Worker.PeriodicStep "m" 0 100 5) w₁ firings w₃ ↔
        Run (Worker.SilentStep "m") w₁ firings w₃) := by
  obtain ⟨w, w₁, w₂, w₃, hbefore, hadd, hstep, hfirst, -, -, -, hsecond, -⟩ := timer_fires_twice
  have hnew : (Timer.new 100 16 16 : Except Fault (Timer Lib.FreeListSlab String))
      = .ok emptyTimer := rfl
  have hafter : Run (Worker.UndisturbedStep "m" 0) w₁ firings w₃ :=
    .cons hfirst (.cons hsecond (.nil _))
  exact ⟨w₁, w₃, hafter,
    Worker.periodic_iff_silent hnew hbefore (by decide) hadd hstep hafter⟩

end Example

end Ruduo
