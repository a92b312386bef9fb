import Ruduo.Lib.WhileLoop
import Ruduo.Proofs.Timer.Earliness
import Ruduo.Spec.CatchUp

/-!
# `Ruduo.Proofs.Timer.CatchUp`: catching up in one jump

The argument of `tickTo` enters its loop in one place only, as the bound on the tick. So two
calls for different ticks run through the same states, and the one for the later tick goes on
where the other one ends. `tickToLoop_eq` makes the loop an instance of `whileLoop`, and the rules
of `whileLoop` say the rest:

* `tickTo_some_of_le`: an answer other than `none` is the same for every later tick.
* `tickTo_resume`: after the answer `none`, a call for a later tick answers what it would have
  answered before.
* `drains_jump_iff`: the same for whole drains.
-/

set_option autoImplicit false

namespace Ruduo.Timer

open Lib (Slab LawfulSlab whileLoop whileLoop_mono whileLoop_inr whileLoop_resume Run)

variable {S : Type → Type} [Slab S] {T : Type} {t t' t₁ : Timer S T} {p : List (Pending T)}
  {due : Pending T → Nat} {n n₁ n₂ fuel : Nat} {answer : T × Nat} {r : Option (T × Nat)}
  {answers : List (T × Nat)}

/-- One pass of the loop of `tickTo`. -/
def walkStep (t : Timer S T) : Except Fault (Timer S T ⊕ Timer S T × T × Nat) :=
  let curr := t.next
  if curr = EMPTY then do
    let tick ← u64Add t.tick 1
    let head ← t.wheelAt (t.slotFor tick)
    .ok (.inl { t with tick, next := head })
  else do
    let e ← t.entryAt curr
    if e.link.tick ≤ t.tick then
      let t ← t.unlink e.link curr
      match Slab.tryRemove t.entries curr with
      | some (entry, entries) => .ok (.inr ({ t with entries }, entry.token, entry.interval))
      | none => .error .outOfRange
    else .ok (.inl { t with next := e.link.next })

/-- The answer of `tickTo` for a loop that has ended. -/
def walkOut : Timer S T ⊕ Timer S T × T × Nat → Timer S T × Option (T × Nat)
  | .inl t => (t, none)
  | .inr (t, answer) => (t, some answer)

/-- The loop of `tickTo` as a `while` loop. -/
theorem tickToLoop_eq (n fuel : Nat) (t : Timer S T) :
    tickToLoop n fuel t
      = (whileLoop Fault.unfinished (fun t : Timer S T => t.tick ≤ n) walkStep fuel t).map
          walkOut := by
  -- By induction on the fuel: one pass of the loop is `walkStep`, also when it faults.
  induction fuel generalizing t with
  | zero => rfl
  | succ fuel ih =>
    rw [tickToLoop, whileLoop]
    by_cases hle : t.tick ≤ n
    · simp only [hle, if_true, decide_true, walkStep]
      by_cases hnext : t.next = EMPTY
      · simp only [hnext, if_true]
        cases u64Add t.tick 1 with
        | error f => rfl
        | ok tick =>
          simp only [ok_bind]
          cases t.wheelAt (t.slotFor tick) with
          | error f => rfl
          | ok head => exact ih _
      · simp only [hnext, if_false]
        cases t.entryAt t.next with
        | error f => rfl
        | ok e =>
          simp only [ok_bind]
          by_cases hdue : e.link.tick ≤ t.tick
          · simp only [hdue, if_true]
            cases t.unlink e.link t.next with
            | error f => rfl
            | ok t₁ =>
              simp only [ok_bind]
              cases Slab.tryRemove t₁.entries t.next with
              | none => rfl
              | some x => rfl
          · simp only [hdue, if_false]
            exact ih _
    · simp only [hle, if_false, decide_false, Bool.false_eq_true]
      rfl

/-- A loop that answers `none` has ended by its condition. -/
private theorem tickToLoop_none_iff :
    tickToLoop n fuel t = .ok (t', none) ↔
      whileLoop Fault.unfinished (fun t : Timer S T => t.tick ≤ n) walkStep fuel t
        = .ok (.inl t') := by
  rw [tickToLoop_eq]
  cases whileLoop Fault.unfinished (fun t : Timer S T => t.tick ≤ n) walkStep fuel t with
  | error f => simp [Except.map]
  | ok x => cases x <;> simp [Except.map, walkOut]

/-- A loop that answers something has returned early. -/
theorem tickToLoop_some_iff :
    tickToLoop n fuel t = .ok (t', some answer) ↔
      whileLoop Fault.unfinished (fun t : Timer S T => t.tick ≤ n) walkStep fuel t
        = .ok (.inr (t', answer)) := by
  rw [tickToLoop_eq]
  cases whileLoop Fault.unfinished (fun t : Timer S T => t.tick ≤ n) walkStep fuel t with
  | error f => simp [Except.map]
  | ok x => cases x <;> simp [Except.map, walkOut, Prod.ext_iff]

/-- Once the wheel is past the tick, `tickTo` answers `none` and changes nothing. -/
theorem tickTo_of_lt (h : n < t.tick) : t.tickTo n = .ok (t, none) := by
  rw [tickTo, tickToFuel, tickToLoop, if_neg (by omega)]

omit [Slab S] in
/-- The loop for a later tick goes on wherever the one for an earlier tick does. -/
theorem tick_le_of_le (hle : n₁ ≤ n₂) (u : Timer S T) (hu : decide (u.tick ≤ n₁) = true) :
    decide (u.tick ≤ n₂) = true := by
  rw [decide_eq_true_eq] at hu ⊢
  exact hu.trans hle

variable [LawfulSlab S]

/-- What the loop answers with any bound that suffices is the answer of `tickTo`. -/
private theorem tickTo_of_loop (h : Wheel t p) (ht : Timing t p due) (hn : n < u64Max)
    (hloop : tickToLoop n fuel t = .ok (t', r)) : t.tickTo n = .ok (t', r) := by
  obtain ⟨t₁, r₁, -, htick, -⟩ := tickTo_returns h ht hn
  have hsame : ∀ {fuel₁ fuel₂ : Nat} {x y : Timer S T × Option (T × Nat)}, fuel₁ ≤ fuel₂ →
      tickToLoop n fuel₁ t = .ok x → tickToLoop n fuel₂ t = .ok y → x = y := by
    intro fuel₁ fuel₂ x y hle hx hy
    rw [tickToLoop_eq] at hx hy
    cases hw : whileLoop Fault.unfinished (fun t : Timer S T => t.tick ≤ n) walkStep fuel₁ t with
    | error f =>
      rw [hw] at hx
      cases hx
    | ok out =>
      rw [whileLoop_mono hw hle] at hy
      rw [hw] at hx
      exact Except.ok.inj (hx.symm.trans hy)
  rcases Nat.le_total fuel (t.tickToFuel n) with hle | hle
  · rw [htick, hsame hle hloop htick]
  · rw [htick, hsame hle htick hloop]

/-- What is handed out by the tick `n₁` is handed out by every later tick. -/
theorem tickTo_some_of_le (h : Wheel t p) (ht : Timing t p due) (hle : n₁ ≤ n₂)
    (hmax : n₂ < u64Max) (hfire : t.tickTo n₁ = .ok (t', some answer)) :
    t.tickTo n₂ = .ok (t', some answer) := by
  have hloop := whileLoop_inr (tick_le_of_le hle) (tickToLoop_some_iff.mp hfire)
  exact tickTo_of_loop h ht hmax (tickToLoop_some_iff.mpr hloop)

/-- A call for a later tick answers the same before and after one that answered `none`. -/
theorem tickTo_resume (h : Wheel t p) (ht : Timing t p due) (hle : n₁ ≤ n₂) (hmax : n₂ < u64Max)
    (hidle : t.tickTo n₁ = .ok (t₁, none)) (hcall : t₁.tickTo n₂ = .ok (t', r)) :
    t.tickTo n₂ = .ok (t', r) := by
  have hcond := tick_le_of_le (S := S) (T := T) hle
  have hfirst := tickToLoop_none_iff.mp hidle
  cases r with
  | none =>
    exact tickTo_of_loop h ht hmax (tickToLoop_none_iff.mpr
      (whileLoop_resume hcond hfirst (tickToLoop_none_iff.mp hcall)))
  | some answer =>
    exact tickTo_of_loop h ht hmax (tickToLoop_some_iff.mpr
      (whileLoop_resume hcond hfirst (tickToLoop_some_iff.mp hcall)))

/-- Calling `tickTo n` until it answers `none` ends, by induction on the number of pending
timeouts. -/
theorem drains_exists (hn : n < u64Max) (h : Wheel t p) (ht : Timing t p due) :
    ∃ answers t', Drains n t answers t' := by
  induction hlen : p.length using Nat.strong_induction_on generalizing t p with
  | h k ih =>
    obtain ⟨t', r, rest, htick, hw, htm, -, hticked⟩ := tickTo_returns h ht hn
    cases hticked with
    | idle => exact ⟨[], t', .last htick⟩
    | fired e hpick =>
      obtain ⟨p₁, p₂, rfl, rfl, -, -⟩ := hpick
      have hlt : (p₁ ++ p₂).length < k := by
        rw [← hlen, List.length_append, List.length_append, List.length_cons]
        omega
      obtain ⟨answers, t'', hdrain⟩ := ih _ hlt hw htm rfl
      exact ⟨_, t'', .next htick hdrain⟩

/-- The invariant holds at the end of a drain, and the wheel is past the tick. -/
theorem Drains.timing (hd : Drains n t answers t') :
    ∀ {p : List (Pending T)}, Wheel t p → Timing t p due →
      (∃ p', Wheel t' p' ∧ Timing t' p' due) ∧ n < t'.tick := by
  induction hd with
  | last h =>
    intro p hw ht
    obtain ⟨hw', ht', -, htick, -⟩ := tickTo_none hw ht h
    exact ⟨⟨p, hw', ht'⟩, by omega⟩
  | @next t t' t'' answer answers h _ ih =>
    intro p hw ht
    obtain ⟨token, interval⟩ := answer
    obtain ⟨p₁, e, p₂, rfl, -, -, hw', ht', -⟩ := tickTo_some hw ht h
    exact ih hw' ht'

omit [LawfulSlab S] in
/-- A drain is determined by the timer and the tick. -/
theorem Drains.unique {answers' : List (T × Nat)} (h₁ : Drains n t answers t')
    (h₂ : Drains n t answers' t₁) : answers = answers' ∧ t' = t₁ := by
  induction h₁ generalizing answers' with
  | last h =>
    cases h₂ with
    | last h' =>
      rw [h] at h'
      cases h'
      exact ⟨rfl, rfl⟩
    | next h' =>
      rw [h] at h'
      cases h'
  | next h _ ih =>
    cases h₂ with
    | last h' =>
      rw [h] at h'
      cases h'
    | next h' hrest =>
      rw [h] at h'
      cases h'
      obtain ⟨rfl, rfl⟩ := ih hrest
      exact ⟨rfl, rfl⟩

/-- A drain to a tick, and then one to a later tick, is the drain to the later tick. -/
theorem Drains.trans (h₁ : Drains n₁ t answers t₁) (hle : n₁ ≤ n₂) (hmax : n₂ < u64Max) :
    ∀ {p : List (Pending T)} {answers' : List (T × Nat)}, Wheel t p → Timing t p due →
      Drains n₂ t₁ answers' t' → Drains n₂ t (answers ++ answers') t' := by
  induction h₁ with
  | last h =>
    intro p answers' hw ht h₂
    -- The first call to the later tick goes on where the last one ended.
    cases h₂ with
    | last h' => exact .last (tickTo_resume hw ht hle hmax h h')
    | next h' hrest => exact .next (tickTo_resume hw ht hle hmax h h') hrest
  | @next t u v answer answers h _ ih =>
    intro p answers' hw ht h₂
    obtain ⟨token, interval⟩ := answer
    obtain ⟨p₁, e, p₂, rfl, -, -, hw', ht', -⟩ := tickTo_some hw ht h
    exact .next (tickTo_some_of_le hw ht hle hmax h) (ih hw' ht' h₂)

/-- **Catching up in one jump equals ticking along.** In every reachable state, also in the
middle of a drain, and for all `n₁ ≤ n₂` below `u64::MAX`: the drain to `n₂` ends. It has the
answers of the drain to `n₁` followed by those of a drain to `n₂` from there, and leaves the same
timer. Then `tickTo n` answers `none` for every `n` up to `n₂`, and changes nothing. -/
theorem drains_jump_iff (hreach : Reachable t) (hle : n₁ ≤ n₂) (hmax : n₂ < u64Max) :
    (∃ answers t', Drains n₂ t answers t') ∧
    (∀ answers t', Drains n₂ t answers t' ↔
      ∃ answers₁ t₁ answers₂, Drains n₁ t answers₁ t₁ ∧ Drains n₂ t₁ answers₂ t' ∧
        answers = answers₁ ++ answers₂) ∧
    ∀ answers t', Drains n₂ t answers t' → ∀ n ≤ n₂, t'.tickTo n = .ok (t', none) := by
  obtain ⟨p, due, h, ht⟩ := hreach.timing
  refine ⟨drains_exists hmax h ht, fun answers t' => ⟨fun hd => ?_, ?_⟩, ?_⟩
  · -- Both drains end, and together they are the one to `n₂`.
    obtain ⟨answers₁, t₁, hd₁⟩ := drains_exists (n := n₁) (by omega) h ht
    obtain ⟨⟨p₁, hw₁, ht₁⟩, -⟩ := hd₁.timing h ht
    obtain ⟨answers₂, t₂, hd₂⟩ := drains_exists hmax hw₁ ht₁
    obtain ⟨rfl, rfl⟩ := hd.unique (hd₁.trans hle hmax h ht hd₂)
    exact ⟨answers₁, t₁, answers₂, hd₁, hd₂, rfl⟩
  · rintro ⟨answers₁, t₁, answers₂, hd₁, hd₂, rfl⟩
    exact hd₁.trans hle hmax h ht hd₂
  · intro answers t' hd n hn
    have := (hd.timing h ht).2
    exact tickTo_of_lt (by omega)

section Example

/-- Four timeouts fall on the slot 3: two at the tick 3, one at the tick 19, a revolution later, and
one at the tick 35, two revolutions later. A call for the tick 20 hands out the first of them. -/
def revolutionCalls : List (TimerCall String × TimerOut String) :=
  [(.timeoutMsAt 250 0 "a", .inserted (.ok ⟨0, 3⟩)),
    (.timeoutMsAt 300 0 "b", .inserted (.ok ⟨1, 3⟩)),
    (.timeoutMsAt 1900 0 "c", .inserted (.ok ⟨2, 19⟩)),
    (.timeoutMsAt 3450 0 "d", .inserted (.ok ⟨3, 35⟩)), (.tickTo 20, .ticked (some ("b", 0)))]

/-- In the middle of that drain the cursor stands at the other timeout of the tick 3. From there the
drain to the tick 40 hands out the rest, and so do the drains to the ticks 20 and 40 together. -/
theorem drains_jump_iff_revolutions : ∃ t t' t₁ : Timer Lib.FreeListSlab String,
    Run CallStep (newTimer.setup 0) revolutionCalls t ∧ t.tick = 3 ∧ t.next = 0 ∧
    Drains 40 t [("a", 0), ("c", 0), ("d", 0)] t' ∧
    Drains 20 t [("a", 0), ("c", 0)] t₁ ∧ Drains 40 t₁ [("d", 0)] t' ∧
    (∃ answers t', Drains 40 t answers t') ∧
    (∀ answers t', Drains 40 t answers t' ↔
      ∃ answers₁ t₁ answers₂, Drains 20 t answers₁ t₁ ∧ Drains 40 t₁ answers₂ t' ∧
        answers = answers₁ ++ answers₂) ∧
    ∀ answers t', Drains 40 t answers t' → ∀ n ≤ 40, t'.tickTo n = .ok (t', none) := by
  have hrun : ∃ t t' t₁ : Timer Lib.FreeListSlab String,
      Run CallStep (newTimer.setup 0) revolutionCalls t ∧ t.tick = 3 ∧ t.next = 0 ∧
      Drains 40 t [("a", 0), ("c", 0), ("d", 0)] t' ∧
      Drains 20 t [("a", 0), ("c", 0)] t₁ ∧ Drains 40 t₁ [("d", 0)] t' :=
    ⟨_, _, _, .cons rfl (.cons rfl (.cons rfl (.cons rfl (.cons rfl (.nil _))))), rfl, rfl,
      .next rfl (.next rfl (.next rfl (.last rfl))), .next rfl (.next rfl (.last rfl)),
      .next rfl (.last rfl)⟩
  obtain ⟨t, t', t₁, hrun, htick, hnext, hall, hpart, hrest⟩ := hrun
  have hreach : Reachable t := ⟨100, 16, 32, 0, newTimer, _, new_newTimer, hrun⟩
  exact ⟨t, t', t₁, hrun, htick, hnext, hall, hpart, hrest,
    drains_jump_iff hreach (by decide) (by decide)⟩

end Example

end Ruduo.Timer
