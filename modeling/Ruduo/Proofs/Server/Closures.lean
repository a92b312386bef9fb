import Ruduo.Proofs.Server.Cancellation
import Ruduo.Proofs.Server.Logs
import Ruduo.Spec.OneShot

/-!
# `Ruduo.Proofs.Server.Closures`: the closures that a dispatcher keeps

The wheel hands out marks, and the closures are in a table by mark.

* `runs_delivered`: a closure runs when a pass is handed out a mark under which it is kept.
* `Dropped`: the closure is in no table. It stays so, and does not run (`Dropped.step`,
  `Dropped.not_runs`).
* `Apart`: two tables never keep the handle of an entry in the future twice (`Apart.step`). So a
  new timer shares its handle with no other (`Apart.fresh`).
-/

set_option autoImplicit false

namespace Ruduo

open Lib (Slab LawfulSlab Each)

namespace Worker
variable {S : Type → Type} [Slab S] {M : Type} [DecidableEq M] {w w' : Worker S M}
  {l : WorkerLabel M} {token : Token} {mark : M} {f : Closure}

/-! ### When a closure runs -/

/-- A pass of `process_timers` that calls a closure. -/
theorem callOf_timer {as : List (Act M)} (h : w.callOf l = some (token, .timer f as)) :
    ∃ nowTick env mark interval timer timeout, l = .timer nowTick env ∧
      w.timer.tickTo nowTick = .ok (timer, some (mark, interval)) ∧
      w.dispatcher.kept (decide (0 < interval)) mark = some (timeout, token, f) := by
  obtain ⟨-, hsource⟩ := callOf_source h
  cases hsource with
  | event writable env hcall =>
    -- A readable event makes no call of a timer.
    rcases Dispatcher.readableCall_cases hcall with ⟨-, hk⟩ | ⟨cb, addr, -, -, hk⟩ <;>
      cases hk
  | receive env msg target queue hqueue hcall => cases msg <;> cases hcall
  | timer nowTick env hcall =>
    obtain ⟨timer, mark, interval, timeout, f', htick, hlook, hk⟩ :=
      Dispatcher.timerCall_eq_some hcall
    cases hk
    refine ⟨nowTick, env, mark, interval, timer, timeout, rfl, htick, ?_⟩
    simpa [Dispatcher.kept] using hlook

variable [LawfulSlab S]

/-- A closure runs when a pass is handed out an entry for a mark under which it is kept. -/
theorem runs_delivered (hstep : w.Step l w') (hran : w.RanTimer w' token f) :
    ∃ nowTick env mark interval timer timeout, l = .timer nowTick env ∧
      w.timer.tickTo nowTick = .ok (timer, some (mark, interval)) ∧
      w.dispatcher.kept (decide (0 < interval)) mark = some (timeout, token, f) := by
  obtain ⟨c, c', hc, hc', hlog⟩ := hran
  obtain ⟨k, hcall, hrecords⟩ := step_records hstep hc hc' (by simp) hlog
  cases k with
  | timer f' as =>
    obtain rfl := ConnEvent.timer.inj hrecords
    exact callOf_timer hcall
  | _ => simp [ConnCall.Records] at hrecords

/-! ### A closure in no table -/

omit [LawfulSlab S] in
/-- A closure that is kept after a step was kept before, or a message has brought it. -/
theorem kept_of_step (hstep : w.Step l w') {r : Bool} {k : M} {timeout : Timeout}
    (hx : w'.dispatcher.kept r k = some (timeout, token, f)) :
    (∃ timeout', w.dispatcher.kept r k = some (timeout', token, f)) ∨
      ∃ msg q, w.Receives l msg ∧ msg.request = some q ∧ q.token = token ∧ q.f = f := by
  cases step_timers hstep with
  | other _ hkept | full _ _ _ _ _ _ _ _ hkept | unknown _ _ _ _ _ hkept | drained _ _ _ _ hkept =>
    exact Or.inl ⟨timeout, (hkept r k).symm.trans hx⟩
  | added env msg q timeout' hl hrecv hq hcall hkept =>
    rw [hkept] at hx
    split at hx
    · cases hx
      exact Or.inr ⟨msg, q, hrecv, hq, rfl, rfl⟩
    · exact Or.inl ⟨timeout, hx⟩
  | cancelled _ _ _ _ _ _ _ _ _ _ hkept | fired _ _ _ _ _ hkept =>
    exact Or.inl ⟨timeout, hkept.of_some hx⟩
  | repeated nowTick env mark interval timer timeout' hl hpos hcall hagain hkept =>
    rw [hkept] at hx
    split at hx
    · rename_i hr
      obtain ⟨rfl, rfl⟩ := hr
      obtain ⟨⟨old, token', f'⟩, hold, heq⟩ := Option.map_eq_some_iff.mp hx
      cases heq
      exact Or.inl ⟨old, hold⟩
    · exact Or.inl ⟨timeout, hx⟩

omit [LawfulSlab S] in
/-- No message brings it in a fresh step. -/
theorem FreshStep.kept (hstep : w.FreshStep f l w') {r : Bool} {k : M} {timeout : Timeout}
    (hx : w'.dispatcher.kept r k = some (timeout, token, f)) :
    ∃ timeout', w.dispatcher.kept r k = some (timeout', token, f) := by
  refine (kept_of_step hstep.1 hx).resolve_right ?_
  rintro ⟨msg, q, hrecv, hq, -, hf⟩
  exact hstep.2 msg q hrecv hq hf

omit [LawfulSlab S] [Slab S] in
/-- The closure is in no table. -/
def Dropped (w : Worker S M) (f : Closure) : Prop :=
  ∀ repeats mark timeout token, w.dispatcher.kept repeats mark ≠ some (timeout, token, f)

omit [LawfulSlab S] in
/-- It stays so, when no timer is added with it. -/
theorem Dropped.step (h : w.Dropped f) (hstep : w.FreshStep f l w') : w'.Dropped f := by
  intro r k timeout token heq
  obtain ⟨timeout', hkept⟩ := hstep.kept heq
  exact h r k timeout' token hkept

/-- It does not run. -/
theorem Dropped.not_runs (h : w.Dropped f) (hstep : w.Step l w') : ¬ w.RunsTimer w' f := by
  rintro ⟨token, hran⟩
  obtain ⟨nowTick, env, mark, interval, timer, timeout, -, -, hkept⟩ := runs_delivered hstep hran
  exact h _ mark timeout token hkept

omit [LawfulSlab S] in
/-- At the start no closure is kept. -/
theorem Dropped.new (cap offset noti : Nat) (timer : Timer S M) (f : Closure) :
    (Worker.new cap offset noti timer).Dropped f := by
  intro repeats mark timeout token heq
  cases repeats <;> simp [Dispatcher.kept, Worker.new, Dispatcher.new] at heq

/-- In no step of a run after that it runs. -/
theorem Dropped.each (h : w.Dropped f) (ls : List (WorkerLabel M)) :
    Each (FreshStep f) (fun t _ u => ¬ t.RunsTimer u f) w ls := by
  intro ls₁ l ls₂ t u _ hrun hstep
  have ht : t.Dropped f :=
    hrun.invariant (P := fun w => w.Dropped f) (fun _ _ _ hs hst => hs.step hst) h
  exact ht.not_runs hstep.1

/-! ### Handles in the future are kept once -/

/-- Each handle kept is that of a pending timeout, and it is kept once, unless its tick has passed.
`kept` is what is kept, in both tables. -/
structure Apart (t : Timer S M) (p : List (Pending M)) (due : Pending M → Nat)
    (kept : Bool → M → Option (Timeout × Token × Closure)) : Prop where
  wheel : Timer.Wheel t p
  timing : Timer.Timing t p due
  pending : ∀ r k timeout x, kept r k = some (timeout, x) →
    (∃ e ∈ p, e.handle = timeout) ∨ timeout.tick ≤ t.tick
  once : ∀ r k r' k' timeout x x', kept r k = some (timeout, x) → kept r' k' = some (timeout, x') →
    (r = r' ∧ k = k') ∨ timeout.tick ≤ t.tick

namespace Apart
variable {t t' : Timer S M} {p p₁ p₂ : List (Pending M)} {due due' : Pending M → Nat}
  {e : Pending M} {kept kept' : Bool → M → Option (Timeout × Token × Closure)}

omit [LawfulSlab S] [DecidableEq M] in
/-- Time passes, timeouts are taken out, and handles are dropped. The handle of a timeout that is
taken out is kept no more, unless its tick has passed. -/
theorem shrink (h : Apart t p due kept) {p' : List (Pending M)} (hw : Timer.Wheel t' p')
    (ht : Timer.Timing t' p' due') (htick : t.tick ≤ t'.tick)
    (hkept : ∀ r k x, kept' r k = some x → kept r k = some x)
    (hgone : ∀ e ∈ p, e ∈ p' ∨ e.tick ≤ t'.tick ∨ ∀ r k x, kept' r k ≠ some (e.handle, x)) :
    Apart t' p' due' kept' := by
  refine ⟨hw, ht, fun r k timeout x hx => ?_, fun r k r' k' timeout x x' hx hx' => ?_⟩
  · rcases h.pending r k timeout x (hkept r k _ hx) with ⟨e, he, rfl⟩ | hle
    · rcases hgone e he with he' | hle | hnot
      · exact Or.inl ⟨e, he', rfl⟩
      · exact Or.inr hle
      · exact absurd hx (hnot r k x)
    · exact Or.inr (hle.trans htick)
  · exact (h.once r k r' k' timeout x x' (hkept r k _ hx) (hkept r' k' _ hx')).imp_right
      fun hle => hle.trans htick

omit [LawfulSlab S] [DecidableEq M] in
/-- Time passes, and the rest stays. -/
theorem same (h : Apart t p due kept) (hw : Timer.Wheel t' p) (ht : Timer.Timing t' p due)
    (htick : t.tick ≤ t'.tick) (hkept : ∀ r k, kept' r k = kept r k) : Apart t' p due kept' :=
  h.shrink hw ht htick (fun r k _ hx => (hkept r k).symm.trans hx) fun _ he => Or.inl he

omit [LawfulSlab S] [DecidableEq M] in
/-- A new timeout shares its handle with none that is kept, unless its tick has passed. -/
theorem fresh (h : Apart t p due kept) (hw : Timer.Wheel t' (e :: p)) {r : Bool} {k : M}
    {x : Token × Closure} (hx : kept r k = some (e.handle, x)) : e.tick ≤ t.tick := by
  rcases h.pending r k e.handle x hx with ⟨e', he', hhandle⟩ | hle
  · exact absurd (congrArg Timeout.key hhandle) (hw.head_key_ne e' he')
  · exact hle

omit [LawfulSlab S] in
/-- A timeout is scheduled, and its handle is kept in one place. -/
theorem put (h : Apart t p due kept) (hw : Timer.Wheel t' (e :: p))
    (ht : Timer.Timing t' (e :: p) due') (htick : t'.tick = t.tick) (r₀ : Bool) (k₀ : M)
    (x₀ : Token × Closure)
    (hkept : ∀ r k, kept' r k = if r = r₀ ∧ k = k₀ then some (e.handle, x₀) else kept r k) :
    Apart t' (e :: p) due' kept' := by
  refine ⟨hw, ht, fun r k timeout x hx => ?_, fun r k r' k' timeout x x' hx hx' => ?_⟩
  · rw [hkept] at hx
    split at hx
    · cases hx
      exact Or.inl ⟨e, List.mem_cons_self, rfl⟩
    · refine (h.pending r k timeout x hx).imp ?_ fun hle => htick ▸ hle
      rintro ⟨e', he', hhandle⟩
      exact ⟨e', List.mem_cons_of_mem _ he', hhandle⟩
  · rw [hkept] at hx hx'
    -- The two places: both are the new one, one of them is, or none.
    split at hx <;> split at hx'
    · rename_i hr hr'
      exact Or.inl ⟨hr.1.trans hr'.1.symm, hr.2.trans hr'.2.symm⟩
    · cases hx
      exact Or.inr (htick ▸ h.fresh hw hx')
    · cases hx'
      exact Or.inr (htick ▸ h.fresh hw hx)
    · exact (h.once r k r' k' timeout x x' hx hx').imp_right fun hle => htick ▸ hle

/-- A pass was handed out a timeout, whose tick has passed then. -/
theorem popped (h : Apart t p due kept) {n interval : Nat} {mark : M}
    (hcall : t.tickTo n = .ok (t', some (mark, interval))) :
    ∃ p', Apart t' p' due kept := by
  obtain ⟨p₁, e, p₂, rfl, -, -, hw, ht, -, htick, -⟩ := Timer.tickTo_some h.wheel h.timing hcall
  have hpassed : t.tick ≤ t'.tick := htick ▸ h.timing.ge e (by simp)
  refine ⟨p₁ ++ p₂, h.shrink hw ht hpassed (fun _ _ _ => id) fun x hx => ?_⟩
  by_cases hxe : x = e
  · subst hxe
    exact Or.inr (Or.inl (htick ▸ h.timing.tick_le x hx))
  · exact Or.inl (by simpa [hxe] using hx)

/-- Every step keeps the handles apart. -/
theorem step (h : Apart w.timer p due w.dispatcher.kept) (hstep : w.Step l w') :
    ∃ p' due', Apart w'.timer p' due' w'.dispatcher.kept := by
  cases step_timers hstep with
  | other htimer hkept =>
    exact ⟨p, due, h.same (htimer ▸ h.wheel) (htimer ▸ h.timing) (htimer ▸ le_rfl) hkept⟩
  | unknown _ _ _ _ htimer hkept =>
    exact ⟨p, due, h.same (htimer ▸ h.wheel) (htimer ▸ h.timing) (htimer ▸ le_rfl) hkept⟩
  | added env msg q timeout hl hrecv hq hcall hkept =>
    obtain ⟨e, due', rfl, -, -, hw, ht, -, -, -, htick, -⟩ :=
      Timer.insert_ok h.wheel h.timing (Timer.timeoutMs_ok hcall)
    exact ⟨e :: p, due', h.put hw ht htick _ _ _ hkept⟩
  | full env msg q err hl hrecv hq hcall hkept =>
    obtain ⟨-, htimer⟩ := Timer.insert_error h.wheel h.timing (Timer.timeoutMs_ok hcall)
    exact ⟨p, due, h.same (htimer ▸ h.wheel) (htimer ▸ h.timing) (htimer ▸ le_rfl) hkept⟩
  | cancelled token mark repeats timeout x b hrecv hlook hfirst hcall hkept =>
    rcases Timer.clear_ok h.wheel h.timing hcall with
      ⟨-, p₁, e, p₂, rfl, rfl, hw, ht, htick, -⟩ | ⟨-, htimer, hstale⟩
    · refine ⟨p₁ ++ p₂, due, h.shrink hw ht htick.ge (fun _ _ _ => hkept.of_some) fun y hy => ?_⟩
      by_cases hye : y = e
      · subst hye
        by_cases hle : y.tick ≤ w'.timer.tick
        · exact Or.inr (Or.inl hle)
        · -- The handle was kept in one place only, and that one is cleared.
          refine Or.inr (Or.inr fun r k z hz => ?_)
          rcases h.once r k repeats mark _ z x (hkept.of_some hz) hlook with ⟨rfl, rfl⟩ | hle'
          · rw [hkept, if_pos ⟨rfl, rfl⟩] at hz
            cases hz
          · exact hle (htick ▸ hle')
      · exact Or.inl (by simpa [hye] using hy)
    · exact ⟨p, due, h.shrink (htimer ▸ h.wheel) (htimer ▸ h.timing) (htimer ▸ le_rfl)
        (fun _ _ _ => hkept.of_some) fun _ he => Or.inl he⟩
  | drained nowTick env hl hcall hkept =>
    obtain ⟨hw, ht, -, htick, -⟩ := Timer.tickTo_none h.wheel h.timing hcall
    exact ⟨p, due, h.same hw ht (htick ▸ le_max_left _ _) hkept⟩
  | fired nowTick env mark hl hcall hkept =>
    obtain ⟨p', h'⟩ := h.popped hcall
    exact ⟨p', due, h'.shrink h'.wheel h'.timing le_rfl (fun _ _ _ => hkept.of_some)
      fun _ he => Or.inl he⟩
  | repeated nowTick env mark interval timer timeout hl hpos hcall hagain hkept =>
    obtain ⟨p', h'⟩ := h.popped hcall
    obtain ⟨e, due', rfl, -, -, hw, ht, -, -, -, htick, -⟩ :=
      Timer.insert_ok h'.wheel h'.timing (Timer.timeoutMs_ok hagain)
    refine ⟨e :: p', due', ?_⟩
    cases hlook : w.dispatcher.kept false mark with
    | some x =>
      rw [hlook] at hkept
      exact h'.put hw ht htick false mark x.2 hkept
    | none =>
      rw [hlook] at hkept
      exact h'.shrink hw ht htick.ge (fun _ _ _ => hkept.of_some)
        fun _ he => Or.inl (List.mem_cons_of_mem _ he)

/-- A new worker keeps no handle. -/
theorem new {cap offset noti tickMs slots timerCap now : Nat} {timer : Timer S M}
    (hnew : Timer.new tickMs slots timerCap = .ok timer) (due : Pending M → Nat) :
    Apart (timer.setup now) [] due
      (Worker.new cap offset noti (timer.setup now)).dispatcher.kept := by
  have hnone : ∀ r k x,
      (Worker.new cap offset noti (timer.setup now)).dispatcher.kept r k ≠ some x := by
    intro r k x
    cases r <;> simp [Dispatcher.kept, Worker.new, Dispatcher.new]
  obtain ⟨hw, ht⟩ := Timer.setup_timing hnew now due
  exact ⟨hw, ht, fun r k _ _ hx => absurd hx (hnone r k _),
    fun r k _ _ _ _ _ hx => absurd hx (hnone r k _)⟩

end Apart

end Worker

end Ruduo
