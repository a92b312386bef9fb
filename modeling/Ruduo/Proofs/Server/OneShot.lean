import Ruduo.Proofs.Server.Closures

/-!
# `Ruduo.Proofs.Server.OneShot`: when a timer that runs once keeps its promise

A closure runs at its time as long as no other entry is handed out for its mark.

* `Waiting`: the closure is in the table of its mark, and its own entry is pending. It stays so
  until it is cancelled or its own time comes (`Waiting.step`).
* `Waiting.due_le`: its own entry does not come due early, and another one would interfere.
* `Apart.waiting`: a new timer waits, because it shares its handle with no other.
-/

set_option autoImplicit false

namespace Ruduo

open Lib (Run Slab LawfulSlab Each)

namespace Worker
variable {S : Type → Type} [Slab S] {M : Type} [DecidableEq M] {w w' : Worker S M}
  {l : WorkerLabel M} {token : Token} {mark : M} {f : Closure}
variable [LawfulSlab S]

/-- The closure `f` waits under the mark, its own timeout `e` is pending, the handle of `e` is
kept nowhere else, and `f` neither. -/
structure Waiting (w : Worker S M) (p : List (Pending M)) (due : Pending M → Nat) (e : Pending M)
    (mark : M) (token : Token) (f : Closure) : Prop where
  wheel : Timer.Wheel w.timer p
  timing : Timer.Timing w.timer p due
  mem : e ∈ p
  etoken : e.token = mark
  interval : e.interval = 0
  waits : w.Waits mark token f
  own : ∀ r k x, w.dispatcher.kept r k = some (e.handle, x) → r = false ∧ k = mark
  sole : ∀ r k timeout t, w.dispatcher.kept r k = some (timeout, t, f) → r = false ∧ k = mark

namespace Waiting
variable {p p₁ p₂ : List (Pending M)} {due due' : Pending M → Nat} {e : Pending M}

/-- When the closure runs, a pass was handed out an entry for its mark. -/
theorem handed_out (h : w.Waiting p due e mark token f) (hstep : w.Step l w')
    (hran : w.RunsTimer w' f) : ∃ nowTick env timer, l = .timer nowTick env ∧
      w.timer.tickTo nowTick = .ok (timer, some (mark, 0)) := by
  obtain ⟨token', hran⟩ := hran
  obtain ⟨nowTick, env, mark', interval, timer, timeout, hl, hcall, hkept⟩ :=
    runs_delivered hstep hran
  obtain ⟨hzero, rfl⟩ := h.sole _ _ _ _ hkept
  obtain rfl : interval = 0 := by simpa using hzero
  exact ⟨nowTick, env, timer, hl, hcall⟩

omit [LawfulSlab S] in
/-- What was kept under the mark is taken out. -/
theorem dropped (h : w.Waiting p due e mark token f)
    (hkept : w.dispatcher.KeptAt w'.dispatcher false mark none) : w'.Dropped f := by
  intro r k timeout t heq
  obtain ⟨rfl, rfl⟩ := h.sole r k timeout t (hkept.of_some heq)
  rw [hkept, if_pos ⟨rfl, rfl⟩] at heq
  cases heq

/-- A pass that is handed out an entry for the mark is not early. The own entry of the closure comes
due at its tick, and another entry would take its place. -/
theorem due_le (h : w.Waiting p due e mark token f) {nowTick : Nat} {env : Env M}
    {timer : Timer S M} (hcall : w.timer.tickTo nowTick = .ok (timer, some (mark, 0)))
    (hno : ¬ w.Interferes mark e.handle (due e) (.timer nowTick env)) : due e ≤ nowTick := by
  obtain ⟨p₁, e', p₂, rfl, -, -, hw, -, hdue, -⟩ := Timer.tickTo_some h.wheel h.timing hcall
  by_cases hee : e' = e
  · exact hee ▸ hdue
  · by_contra hlt
    have hmem : e' ∈ p₁ ++ e' :: p₂ := by simp
    refine hno ⟨Nat.lt_of_not_le hlt, timer, e'.handle, hcall, ?_, h.wheel.holds hmem,
      hw.not_holds h.wheel.key_ne⟩
    -- Two pending entries with one handle are one entry.
    intro heq
    exact hee (Timer.eq_of_key_eq h.wheel.keys hmem h.mem (congrArg Timeout.key heq))

/-- A pass that is handed out an entry for the mark takes the closure out, and runs it when its
connection is live. -/
theorem fired (h : w.Waiting p due e mark token f) {nowTick : Nat} {env : Env M}
    {timer : Timer S M} (hstep : w.Step (.timer nowTick env) w')
    (hcall : w.timer.tickTo nowTick = .ok (timer, some (mark, 0))) :
    w'.Dropped f ∧ ∀ c, w.dispatcher.connAt token = some c → w.RanTimer w' token f := by
  obtain ⟨r, hr, rfl⟩ := step_timer hstep
  cases Dispatcher.processTimer_passed hr with
  | idle htick => cases htick.symm.trans hcall
  | again mark' interval _ _ hpos htick =>
    cases htick.symm.trans hcall
    exact absurd hpos (Nat.lt_irrefl 0)
  | once mark' htick htimeout =>
    cases htick.symm.trans hcall
    refine ⟨h.dropped (Dispatcher.handleTimeout_once htimeout), fun c hc => ?_⟩
    obtain ⟨timeout, hlook⟩ := h.waits
    obtain ⟨c', hc', hlog⟩ := Dispatcher.handleTimeout_once_runs htimeout hlook hc
    exact ⟨c, c', hc, hc', hlog⟩

omit [LawfulSlab S] in
/-- The timeout stays pending, and what is kept of it stays. -/
theorem stays (h : w.Waiting p due e mark token f) {p' : List (Pending M)}
    (hw : Timer.Wheel w'.timer p') (ht : Timer.Timing w'.timer p' due') (hmem : e ∈ p')
    (hwaits : w'.Waits mark token f)
    (hown : ∀ r k x, w'.dispatcher.kept r k = some (e.handle, x) →
      (r = false ∧ k = mark) ∨ ∃ y, w.dispatcher.kept r k = some (e.handle, y))
    (hsole : ∀ r k timeout t, w'.dispatcher.kept r k = some (timeout, t, f) →
      (r = false ∧ k = mark) ∨ ∃ timeout', w.dispatcher.kept r k = some (timeout', t, f)) :
    w'.Waiting p' due' e mark token f where
  wheel := hw
  timing := ht
  mem := hmem
  etoken := h.etoken
  interval := h.interval
  waits := hwaits
  own r k x hx := (hown r k x hx).elim id fun ⟨y, hy⟩ => h.own r k y hy
  sole r k timeout t hx := (hsole r k timeout t hx).elim id fun ⟨timeout', hx'⟩ =>
    h.sole r k timeout' t hx'

omit [LawfulSlab S] in
/-- What is kept is as before. -/
theorem same (h : w.Waiting p due e mark token f) {p' : List (Pending M)}
    (hw : Timer.Wheel w'.timer p') (ht : Timer.Timing w'.timer p' due') (hmem : e ∈ p')
    (hkept : ∀ r k, w'.dispatcher.kept r k = w.dispatcher.kept r k) :
    w'.Waiting p' due' e mark token f := by
  obtain ⟨timeout, hwaits⟩ := h.waits
  refine h.stays hw ht hmem ⟨timeout, (hkept _ _).trans hwaits⟩ ?_ ?_
  · exact fun r k x hx => Or.inr ⟨x, (hkept r k).symm.trans hx⟩
  · exact fun r k timeout' t hx => Or.inr ⟨timeout', (hkept r k).symm.trans hx⟩

omit [LawfulSlab S] in
/-- Something is taken out under another mark. -/
theorem erased (h : w.Waiting p due e mark token f) {p' : List (Pending M)}
    (hw : Timer.Wheel w'.timer p') (ht : Timer.Timing w'.timer p' due') (hmem : e ∈ p')
    {repeats : Bool} {k₀ : M} (hne : ¬ (repeats = false ∧ k₀ = mark))
    (hkept : w.dispatcher.KeptAt w'.dispatcher repeats k₀ none) :
    w'.Waiting p' due' e mark token f := by
  obtain ⟨timeout, hwaits⟩ := h.waits
  refine h.stays hw ht hmem ⟨timeout, ?_⟩ ?_ ?_
  · rw [hkept, if_neg fun heq => hne ⟨heq.1.symm, heq.2.symm⟩]
    exact hwaits
  · exact fun r k x hx => Or.inr ⟨x, hkept.of_some hx⟩
  · exact fun r k timeout' t hx => Or.inr ⟨timeout', hkept.of_some hx⟩

omit [LawfulSlab S] in
/-- A timeout is scheduled. Its handle is kept for the closure that waits, or in another place, and
not with this closure. -/
theorem put (h : w.Waiting p due e mark token f) {e' : Pending M} {p' : List (Pending M)}
    (hw : Timer.Wheel w'.timer (e' :: p')) (ht : Timer.Timing w'.timer (e' :: p') due')
    (hmem : e ∈ p') {r₀ : Bool} {k₀ : M} {x₀ : Token × Closure}
    (hkept : w.dispatcher.KeptAt w'.dispatcher r₀ k₀ (some (e'.handle, x₀)))
    (hplace : (r₀ = false ∧ k₀ = mark) ∧ x₀ = (token, f) ∨
      ¬ (r₀ = false ∧ k₀ = mark) ∧ ∀ t, x₀ = (t, f) →
        ∃ timeout, w.dispatcher.kept r₀ k₀ = some (timeout, t, f)) :
    w'.Waiting (e' :: p') due' e mark token f := by
  -- The new entry has a key of its own, so its handle is not that of the entry that waits.
  have hhandle : e'.handle ≠ e.handle := by
    intro heq
    exact hw.head_key_ne e hmem (congrArg Timeout.key heq).symm
  refine h.stays hw ht (List.mem_cons_of_mem _ hmem) ?_ ?_ ?_
  · rcases hplace with ⟨⟨rfl, rfl⟩, rfl⟩ | ⟨hne, -⟩
    · exact ⟨e'.handle, by rw [hkept, if_pos ⟨rfl, rfl⟩]⟩
    · obtain ⟨timeout, hwaits⟩ := h.waits
      refine ⟨timeout, ?_⟩
      rw [hkept, if_neg fun heq => hne ⟨heq.1.symm, heq.2.symm⟩]
      exact hwaits
  · intro r k x hx
    rw [hkept] at hx
    split at hx
    · obtain ⟨heq, -⟩ := Prod.mk.inj (Option.some.inj hx)
      exact absurd heq hhandle
    · exact Or.inr ⟨x, hx⟩
  · intro r k timeout t hx
    rw [hkept] at hx
    split at hx
    · rename_i hr
      obtain ⟨rfl, rfl⟩ := hr
      obtain ⟨-, hx⟩ := Prod.mk.inj (Option.some.inj hx)
      exact hplace.imp (fun hat => hat.1) fun hother => hother.2 t hx
    · exact Or.inr ⟨timeout, hx⟩

/-- What a step can do to a closure that waits: it goes on waiting, it is cancelled, or a pass up
to its tick or a later one takes it out and runs it on its connection. -/
inductive Next (w : Worker S M) (l : WorkerLabel M) (w' : Worker S M) (due : Pending M → Nat)
    (e : Pending M) (mark : M) (token : Token) (f : Closure) : Prop where
  /-- The closure goes on waiting, for the same tick. -/
  | waiting (p' : List (Pending M)) (due' : Pending M → Nat)
    (h : w'.Waiting p' due' e mark token f) (hdue : due' e = due e)
  /-- The mark was cancelled, and the closure is gone. -/
  | cancelled (hdropped : w'.Dropped f) (msg : TcpConnMessage M) (hrecv : w.Receives l msg)
    (hcancels : msg.cancels = some mark)
  /-- A pass that has come to its tick ran the closure. -/
  | ran (hdropped : w'.Dropped f) (nowTick : Nat) (env : Env M) (hl : l = .timer nowTick env)
    (hdue : due e ≤ nowTick)
    (hran : ∀ c, w.dispatcher.connAt token = some c → w.RanTimer w' token f)

/-- Another timer is scheduled. It does not take the place of the closure that waits. -/
theorem scheduled (h : w.Waiting p due e mark token f) {now delay interval : Nat}
    {timeout : Timeout} {repeats : Bool} {mark' : M} {x : Token × Closure}
    (hcall : w.timer.timeoutMs now delay interval mark' = .ok (w'.timer, .ok timeout))
    (hkept : w.dispatcher.KeptAt w'.dispatcher repeats mark' (some (timeout, x)))
    (hplace : ¬ (repeats = false ∧ mark' = mark)) (hx : x.2 ≠ f) :
    Next w l w' due e mark token f := by
  obtain ⟨e', due', rfl, -, -, hw, ht, -, -, hdue, -⟩ :=
    Timer.insert_ok h.wheel h.timing (Timer.timeoutMs_ok hcall)
  refine .waiting (e' :: p) due' (h.put hw ht h.mem hkept (Or.inr ⟨hplace, ?_⟩)) (hdue e h.mem)
  rintro t rfl
  exact absurd rfl hx

/-- A timeout that repeats is handed out, so it is not that of the closure. It is scheduled
again. -/
theorem rescheduled (h : w.Waiting p due e mark token f) {nowTick now interval : Nat} {mark' : M}
    {timer : Timer S M} {timeout : Timeout} (hpos : 0 < interval)
    (hcall : w.timer.tickTo nowTick = .ok (timer, some (mark', interval)))
    (hagain : timer.timeoutMs now interval 0 mark' = .ok (w'.timer, .ok timeout))
    (hkept : w.dispatcher.KeptAt w'.dispatcher false mark'
      ((w.dispatcher.kept false mark').map fun x => (timeout, x.2))) :
    Next w l w' due e mark token f := by
  obtain ⟨p₁, e₁, p₂, rfl, -, rfl, hw₁, ht₁, -⟩ := Timer.tickTo_some h.wheel h.timing hcall
  -- The entry of the closure has the interval 0.
  have hee : e ≠ e₁ := by
    rintro rfl
    exact hpos.ne' h.interval
  have hmem : e ∈ p₁ ++ p₂ := by simpa [hee] using h.mem
  obtain ⟨e', due', rfl, -, -, hw, ht, -, -, hdue, -⟩ :=
    Timer.insert_ok hw₁ ht₁ (Timer.timeoutMs_ok hagain)
  obtain ⟨timeout', hwaits⟩ := h.waits
  refine .waiting (e' :: (p₁ ++ p₂)) due' ?_ (hdue e hmem)
  -- `refresh_timeout` puts the new handle to the mark, if the first table has it. When it is the
  -- mark of the closure, the closure waits under this handle.
  cases hlook : w.dispatcher.kept false mark' with
  | none =>
    have hmark : mark' ≠ mark := by
      rintro rfl
      cases hlook.symm.trans hwaits
    rw [hlook] at hkept
    exact h.erased hw ht (List.mem_cons_of_mem _ hmem) (fun heq => hmark heq.2) hkept
  | some x =>
    obtain ⟨old, x⟩ := x
    rw [hlook] at hkept
    refine h.put hw ht hmem hkept ?_
    by_cases hmark : mark' = mark
    · subst hmark
      obtain ⟨-, rfl⟩ := Prod.mk.inj (Option.some.inj (hlook.symm.trans hwaits))
      exact Or.inl ⟨⟨rfl, rfl⟩, rfl⟩
    · refine Or.inr ⟨fun heq => hmark heq.2, ?_⟩
      rintro t rfl
      exact ⟨old, hlook⟩

/-- A step in which no other timer takes its place. -/
theorem step (h : w.Waiting p due e mark token f) (hstep : w.FreshStep f l w')
    (hno : ¬ w.Interferes mark e.handle (due e) l) : Next w l w' due e mark token f := by
  cases step_timers hstep.1 with
  | other htimer hkept =>
    exact .waiting p due (h.same (htimer ▸ h.wheel) (htimer ▸ h.timing) h.mem hkept) rfl
  | unknown _ _ _ _ htimer hkept =>
    exact .waiting p due (h.same (htimer ▸ h.wheel) (htimer ▸ h.timing) h.mem hkept) rfl
  | full env msg q err hl hrecv hq hcall hkept =>
    obtain ⟨-, htimer⟩ := Timer.insert_error h.wheel h.timing (Timer.timeoutMs_ok hcall)
    exact .waiting p due (h.same (htimer ▸ h.wheel) (htimer ▸ h.timing) h.mem hkept) rfl
  | drained nowTick env hl hcall hkept =>
    obtain ⟨hw, ht, -⟩ := Timer.tickTo_none h.wheel h.timing hcall
    exact .waiting p due (h.same hw ht h.mem hkept) rfl
  | added env msg q timeout hl hrecv hq hcall hkept =>
    refine h.scheduled hcall hkept ?_ (hstep.2 msg q hrecv hq)
    -- The message is none that adds a timer which runs once under the mark.
    rintro ⟨hr, rfl⟩
    subst hl
    refine hno ⟨?_, fun hfull => ?_⟩
    · cases msg with
      | addTimer token' delay mark' f' =>
        cases hq
        exact ⟨token', delay, f', hrecv⟩
      | addTimer2 =>
        cases hq
        cases hr
      | _ => cases hq
    · have hins := Timer.timeoutMs_ok hcall
      rw [Timer.insert_full h.wheel _ _ _ hfull] at hins
      cases (Prod.mk.inj (Except.ok.inj hins)).2
  | cancelled token' mark' repeats timeout x b hrecv hlook hfirst hcall hkept =>
    by_cases hmark : mark' = mark
    · -- The closure is the one that is cancelled: it is looked for first.
      subst hmark
      obtain ⟨timeout', hwaits⟩ := h.waits
      cases repeats with
      | true => cases (hfirst rfl).symm.trans hwaits
      | false => exact .cancelled (h.dropped hkept) _ hrecv rfl
    · have hne : ¬ (repeats = false ∧ mark' = mark) := fun heq => hmark heq.2
      rcases Timer.clear_ok h.wheel h.timing hcall with
        ⟨-, p₁, e', p₂, rfl, rfl, hw, ht, -⟩ | ⟨-, htimer, -⟩
      · have hee : e ≠ e' := by
          rintro rfl
          exact hne (h.own _ _ _ hlook)
        exact .waiting (p₁ ++ p₂) due
          (h.erased hw ht (by simpa [hee] using h.mem) hne hkept) rfl
      · exact .waiting p due
          (h.erased (htimer ▸ h.wheel) (htimer ▸ h.timing) h.mem hne hkept) rfl
  | fired nowTick env mark' hl hcall hkept =>
    by_cases hmark : mark' = mark
    · subst hmark
      subst hl
      obtain ⟨hdropped, hran⟩ := h.fired hstep.1 hcall
      exact .ran hdropped nowTick env rfl (h.due_le hcall hno) hran
    · obtain ⟨p₁, e', p₂, rfl, rfl, -, hw, ht, -⟩ := Timer.tickTo_some h.wheel h.timing hcall
      have hee : e ≠ e' := by
        rintro rfl
        exact hmark h.etoken
      exact .waiting (p₁ ++ p₂) due
        (h.erased hw ht (by simpa [hee] using h.mem) (fun heq => hmark heq.2) hkept) rfl
  | repeated nowTick env mark' interval timer timeout hl hpos hcall hagain hkept =>
    exact h.rescheduled hpos hcall hagain hkept

/-- In a run in which no other timer takes its place, the closure waits on, or it is dropped. -/
theorem run {ls : List (WorkerLabel M)} (hrun : Run (FreshStep f) w ls w')
    (hsole : w.Undisputed mark token f e.handle (due e) ls)
    (h : w.Waiting p due e mark token f) :
    (∃ p' due', w'.Waiting p' due' e mark token f ∧ due' e = due e) ∨ w'.Dropped f := by
  refine hsole.invariant (I := fun w' =>
    (∃ p' due', w'.Waiting p' due' e mark token f ∧ due' e = due e) ∨ w'.Dropped f) ?_ hrun
    (Or.inl ⟨p, due, h, rfl⟩)
  rintro s l t (⟨p', due', hs, hdue⟩ | hs) hno hstep
  · cases hs.step hstep (hdue ▸ hno hs.waits) with
    | waiting p'' due'' ht hdue' => exact Or.inl ⟨p'', due'', ht, hdue'.trans hdue⟩
    | cancelled ht => exact Or.inr ht
    | ran ht => exact Or.inr ht
  · exact Or.inr (hs.step hstep)

/-- As long as the mark is not cancelled and the connection is live, the closure waits on, or it
has run. -/
theorem awaited {ls : List (WorkerLabel M)} (hrun : Run (AwaitedStep mark token f) w ls w')
    (hsole : w.Undisputed mark token f e.handle (due e) ls)
    (h : w.Waiting p due e mark token f) :
    (∃ p' due', w'.Waiting p' due' e mark token f ∧ due' e = due e) ∨
      ∃ ls₁ l ls₂ t t', ls = ls₁ ++ l :: ls₂ ∧ Run (AwaitedStep mark token f) w ls₁ t ∧
        t.AwaitedStep mark token f l t' ∧ t.RanTimer t' token f := by
  -- By induction on the run: the first step lets the closure wait, or runs it.
  induction hrun generalizing p due with
  | nil => exact Or.inl ⟨p, due, h, rfl⟩
  | @cons s t u l ls hstep hrest ih =>
    obtain ⟨hfresh, hcancels, c, hc⟩ := hstep
    cases h.step hfresh (hsole.head hfresh h.waits) with
    | waiting p' due' ht hdue =>
      have hsole' := hsole.tail hfresh
      rw [← hdue] at hsole'
      rcases ih hsole' ht with hwaiting | ⟨ls₁, l', ls₂, v, v', rfl, hrun', hrest'⟩
      · rw [hdue] at hwaiting
        exact Or.inl hwaiting
      · exact Or.inr ⟨l :: ls₁, l', ls₂, v, v', rfl,
          .cons ⟨hfresh, hcancels, c, hc⟩ hrun', hrest'⟩
    | cancelled _ msg hrecv hmark => exact absurd hmark (hcancels msg hrecv)
    | ran _ nowTick env hl hdue hran =>
      exact Or.inr ⟨[], l, ls, s, t, rfl, .nil s, ⟨hfresh, hcancels, c, hc⟩, hran c hc⟩

/-- A step that runs the closure is a pass up to its tick or a later one, and takes it out. -/
theorem runs (h : w.Waiting p due e mark token f) (hstep : w.FreshStep f l w')
    (hno : ¬ w.Interferes mark e.handle (due e) l) (hran : w.RunsTimer w' f) :
    w'.Dropped f ∧ ∃ nowTick env, l = .timer nowTick env ∧ due e ≤ nowTick := by
  obtain ⟨nowTick, env, timer, rfl, hcall⟩ := h.handed_out hstep.1 hran
  exact ⟨(h.fired hstep.1 hcall).1, nowTick, env, rfl, h.due_le hcall hno⟩

/-- While it waits, its tick is not drained. -/
theorem not_drained (h : w.Waiting p due e mark token f) {nowTick : Nat} {timer : Timer S M}
    (hcall : w.timer.tickTo nowTick = .ok (timer, none)) : nowTick < due e :=
  (Timer.tickTo_none h.wheel h.timing hcall).2.2.1 e h.mem

end Waiting

/-- The message makes the closure wait, when the timer is scheduled for a tick in the future. Its
entry has the handle that is kept under the mark. -/
theorem Apart.waiting {p : List (Pending M)} {due : Pending M → Nat}
    (h : Apart w.timer p due w.dispatcher.kept) (hdropped : w.Dropped f) {env : Env M} {delay : Nat}
    (hadd : w.Receives (.receive env) (.addTimer token delay mark f))
    (hstep : w.Step (.receive env) w') {own : Timeout}
    (hkept : w'.dispatcher.kept false mark = some (own, token, f))
    (hfuture : w.timer.tick < w.timer.deadline (env.now + delay)) :
    ∃ p' due' e, w'.Waiting p' due' e mark token f ∧ e.handle = own ∧
      due' e = w.timer.deadline (env.now + delay) ∧ Timer.Frame w.timer w'.timer := by
  obtain ⟨target, queue', hqueue'⟩ := hadd
  obtain ⟨q, queue, r, hqueue, hr, rfl⟩ := step_receive hstep
  obtain ⟨rfl, rfl⟩ := List.cons.inj (hqueue'.symm.trans hqueue)
  obtain ⟨⟨timer, res⟩, hcall, hr⟩ := bind_eq_ok.mp hr
  cases res with
  | error err =>
    -- It was not scheduled, so it does not wait.
    cases hr
    exact absurd hkept (hdropped _ _ _ _)
  | ok timeout =>
    cases hr
    have hins := Timer.timeoutMs_ok hcall
    rw [if_neg (by omega)] at hins
    obtain ⟨e, due', rfl, htoken, hinterval, hw, ht, hframe, hdue, -, -, htick⟩ :=
      Timer.insert_ok h.wheel h.timing hins
    rw [Timer.dueTick_of_lt hfuture] at hdue
    have hat := Dispatcher.keptAt_insert w.dispatcher mark (e.handle, token, f)
    have hown : e.handle = own := by
      have hsome := (hat false mark).symm.trans hkept
      rw [if_pos ⟨rfl, rfl⟩] at hsome
      exact (Prod.mk.inj (Option.some.inj hsome)).1
    refine ⟨e :: p, due', e, ⟨hw, ht, List.mem_cons_self, htoken, hinterval, ⟨own, hkept⟩, ?_, ?_⟩,
      hown, hdue, hframe⟩
    · intro r k x hx
      replace hx := (hat r k).symm.trans hx
      split at hx
      · assumption
      · have := h.fresh hw hx
        omega
    · intro r k timeout t hx
      replace hx := (hat r k).symm.trans hx
      split at hx
      · assumption
      · exact absurd hx (hdropped _ _ _ _)

/-- **When a timer that runs once keeps its promise.** Take any run of a worker in which an
`AddTimer` message is handled and the timer is scheduled, for a time after the current tick. In
every run after it in which no other timer takes its place while it waits, its closure runs at most
once, not before its time, and when its tick is drained, unless it was cancelled or its connection
has gone. `own` is the handle that the timer was scheduled with. -/
theorem oneShotContract_of_undisputed {cap offset noti tickMs slots timerCap now delay : Nat}
    {timer : Timer S M} {w₁ : Worker S M} {env : Env M} {ls₁ ls₂ : List (WorkerLabel M)}
    (hnew : Timer.new tickMs slots timerCap = .ok timer)
    (hbefore : Run (FreshStep f) (new cap offset noti (timer.setup now)) ls₁ w)
    (hadd : w.Receives (.receive env) (.addTimer token delay mark f))
    (hstep : w.Step (.receive env) w₁) {own : Timeout}
    (hkept : w₁.dispatcher.kept false mark = some (own, token, f))
    (hfuture : w.timer.tick < w.timer.deadline (env.now + delay))
    (hsole : w₁.Undisputed mark token f own (w₁.timer.deadline (env.now + delay)) ls₂) :
    w₁.OneShotContract mark token f (env.now + delay) ls₂ := by
  have hdropped : w.Dropped f :=
    hbefore.invariant (P := fun w => w.Dropped f) (fun _ _ _ hs hst => hs.step hst)
      (Dropped.new cap offset noti (timer.setup now) f)
  obtain ⟨p, due, hapart⟩ : ∃ p due, Apart w.timer p due w.dispatcher.kept := by
    refine hbefore.invariant (P := fun w => ∃ p due, Apart w.timer p due w.dispatcher.kept) ?_
      ⟨[], fun e => e.tick, Apart.new hnew _⟩
    rintro s l t ⟨p, due, hs⟩ hst
    exact hs.step hst.1
  obtain ⟨p₁, due₁, e, hwaiting, rfl, hdue, hframe⟩ :=
    hapart.waiting hdropped hadd hstep hkept hfuture
  have hdeadline : w₁.timer.deadline (env.now + delay) = due₁ e := by
    rw [hdue, Timer.deadline, Timer.deadline, hframe.startMs, hframe.tickMs]
  rw [hdeadline] at hsole
  -- What a step that runs the closure does, anywhere in the run.
  have hruns : ∀ ms₁ l ms₂ t u, ls₂ = ms₁ ++ l :: ms₂ → Run (FreshStep f) w₁ ms₁ t →
      t.FreshStep f l u → t.RunsTimer u f →
      u.Dropped f ∧ ∃ nowTick env, l = .timer nowTick env ∧ due₁ e ≤ nowTick := by
    rintro ms₁ l ms₂ t u rfl hrun hst hran
    rcases Waiting.run hrun (Each.take hsole) hwaiting with ⟨p', due', ht, hdue'⟩ | ht
    · have hno := hsole ms₁ l ms₂ t u rfl hrun hst ht.waits
      rw [← hdue'] at hno ⊢
      exact ht.runs hst hno hran
    · exact absurd hran (ht.not_runs hst.1)
  refine ⟨?_, ?_, ?_⟩
  · intro ms₁ l ms₂ t u hls hrun hst hran
    exact (hruns ms₁ l ms₂ t u hls hrun hst hran).1.each ms₂
  · intro ms₁ l ms₂ t u hls hrun hst hran
    obtain ⟨-, nowTick, env', hl, hle⟩ := hruns ms₁ l ms₂ t u hls hrun hst hran
    refine ⟨nowTick, env', hl, Timer.le_of_deadline_le ?_ (hdeadline ▸ hle)⟩
    rw [hdeadline, hdue]
    exact Nat.zero_lt_of_lt hfuture
  · rintro ms₁ ms₂ t nowTick timer' rfl hrun hle hcall
    rcases Waiting.awaited hrun (Each.take hsole) hwaiting with ⟨p', due', ht, hdue'⟩ | hran
    · have := ht.not_drained hcall
      omega
    · exact hran

section Example

omit [Slab S] [LawfulSlab S] [DecidableEq M] in
/-- A message is received that carries another closure. -/
theorem request_ne_of_queue {env : Env M} {q : Queued M} {queue : List (Queued M)}
    (hqueue : w.queue = q :: queue)
    (hrequest : ∀ msg r, q.msg = .any msg → msg.request = some r → r.f ≠ f) :
    ∀ msg r, w.Receives (.receive env) msg → msg.request = some r → r.f ≠ f := by
  rintro msg r ⟨target, queue', hqueue'⟩
  obtain ⟨rfl, -⟩ := List.cons.inj (hqueue.symm.trans hqueue')
  exact hrequest msg r rfl

/-- A client connects, and a thread asks for the closure 6 to run on it in 100 ms. -/
def oneShotRun : List (WorkerLabel String) :=
  [.enqueue (.any (.established .fresh 7 0)), .receive quietEnv, .lock,
    .enqueue (.any (.addTimer 0 100 "m" 6))]

set_option maxRecDepth 8000 in
/-- Its tick comes, and it runs. -/
theorem oneShotContract_of_undisputed_first :
    ∃ w₁ w₂ : Worker Lib.FreeListSlab String,
      w₁.OneShotContract "m" 0 6 (quietEnv.now + 100) [.timer 1 { quietEnv with now := 100 }] ∧
      w₁.Step (.timer 1 { quietEnv with now := 100 }) w₂ ∧ w₁.RanTimer w₂ 0 6 := by
  have hnew : (Timer.new 100 16 16 : Except Fault (Timer Lib.FreeListSlab String))
      = .ok emptyTimer := rfl
  have hbefore : Run (FreshStep 6) (Worker.new 4 0 0 (emptyTimer.setup 0)) oneShotRun _ :=
    .cons ⟨rfl, nofun⟩ (.cons ⟨rfl, request_ne_of_queue rfl (by rintro msg r ⟨⟩ ⟨⟩)⟩
      (.cons ⟨rfl, nofun⟩ (.cons ⟨rfl, nofun⟩ (.nil _))))
  refine ⟨_, _, oneShotContract_of_undisputed hnew hbefore ⟨_, _, rfl⟩ rfl rfl
    (by decide) ?_, rfl, ⟨_, _, rfl, rfl, by decide⟩⟩
  rintro ls₁ l ls₂ t u hls - - -
  cases ls₁ with
  | nil =>
    obtain ⟨rfl, -⟩ := List.cons.inj hls
    rintro ⟨hlt, -⟩
    exact absurd hlt (by decide)
  | cons _ ls₁ => simp at hls

set_option maxRecDepth 8000 in
/-- **A timer that runs once can run too early.** A repeating timer is cancelled after its first
firing, and another one is added with its mark, for the time 600. The entry of the first one is
still in the wheel: when it comes due, the closure runs at the time 200. -/
theorem one_shot_runs_early : ∃ w w₁ : Worker Lib.FreeListSlab String,
    Run (FreshStep 6) (Worker.new 4 0 0 (emptyTimer.setup 0))
      (cancelRun ++ [.enqueue (.any (.addTimer 0 500 "m" 6))]) w ∧
    w.Receives (.receive { quietEnv with now := 100 }) (.addTimer 0 500 "m" 6) ∧
    w.Step (.receive { quietEnv with now := 100 }) w₁ ∧ w₁.Waits "m" 0 6 ∧
    w.timer.tick < w.timer.deadline 600 ∧
    ¬ w₁.OneShotContract "m" 0 6 600 [.timer 2 { quietEnv with now := 200 }] := by
  have hbefore : Run (FreshStep 6) (Worker.new 4 0 0 (emptyTimer.setup 0))
      (cancelRun ++ [.enqueue (.any (.addTimer 0 500 "m" 6))]) _ :=
    .cons ⟨rfl, nofun⟩ (.cons ⟨rfl, request_ne_of_queue rfl (by rintro msg r ⟨⟩ ⟨⟩)⟩
      (.cons ⟨rfl, nofun⟩ (.cons ⟨rfl, nofun⟩
        (.cons ⟨rfl, request_ne_of_queue rfl (by rintro msg r ⟨⟩ ⟨⟩; decide)⟩
          (.cons ⟨rfl, nofun⟩ (.cons ⟨rfl, nofun⟩
            (.cons ⟨rfl, request_ne_of_queue rfl (by rintro msg r ⟨⟩ ⟨⟩)⟩
              (.cons ⟨rfl, nofun⟩ (.nil _)))))))))
  refine ⟨_, _, hbefore, ⟨_, _, rfl⟩, rfl, ⟨_, rfl⟩, by decide, fun hcontract => ?_⟩
  obtain ⟨nowTick, env, hl, hle⟩ := hcontract.notEarly [] _ [] _ _ rfl (.nil _) ⟨rfl, nofun⟩
    ⟨0, _, _, rfl, rfl, by decide⟩
  cases hl
  exact absurd hle (by decide)

end Example

end Worker

end Ruduo
