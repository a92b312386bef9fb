import Ruduo.Proofs.Timer.Lateness
import Ruduo.Spec.Periodic

/-!
# `Ruduo.Proofs.Timer.Tracking`: the pending timeouts of one token

`Tracks t token n J` bounds the number of pending timeouts with a token, and says something
about their intervals. It holds of the timer whatever the ticks are: scheduling a timeout with
the token raises the bound by one (`Tracks.scheduled`), handing one out lowers it by one
(`Tracks.fired`), and every other call keeps it (`Tracks.call`).
-/

set_option autoImplicit false

namespace Ruduo.Timer

open Lib (Slab LawfulSlab)

variable {S : Type → Type} [Slab S] {T : Type} [DecidableEq T] {t t' : Timer S T} {token : T}
  {n interval : Nat} {J J' : Nat → Prop}

/-- At most `n` timeouts with this token are pending, and the interval of each satisfies `J`. -/
def Tracks (t : Timer S T) (token : T) (n : Nat) (J : Nat → Prop) : Prop :=
  ∃ p due, Wheel t p ∧ Timing t p due ∧ p.countP (fun e => e.token = token) ≤ n ∧
    ∀ e ∈ p, e.token = token → J e.interval

/-- What is tracked under a property is tracked under a weaker one. -/
theorem Tracks.mono (h : Tracks t token n J) (hJ : ∀ i, J i → J' i) : Tracks t token n J' := by
  obtain ⟨p, due, hw, ht, hn, hp⟩ := h
  exact ⟨p, due, hw, ht, hn, fun e he heq => hJ _ (hp e he heq)⟩

/-- Nothing has to hold of the intervals when no timeout with this token is pending. -/
theorem Tracks.of_zero (h : Tracks t token 0 J) : Tracks t token n J' := by
  obtain ⟨p, due, hw, ht, hn, -⟩ := h
  have hnone := List.countP_eq_zero.mp (Nat.le_zero.mp hn)
  exact ⟨p, due, hw, ht, hn.trans (Nat.zero_le n),
    fun e he heq => absurd (decide_eq_true heq) (hnone e he)⟩

/-- The wheel does not hold an entry whose interval violates `J`. -/
theorem Tracks.not_pendsOnce (h : Tracks t token n J) (hJ : ¬ J interval) :
    ¬ t.PendsOnce token interval := by
  obtain ⟨p, due, hw, -, -, hp⟩ := h
  rintro ⟨key, e, hget, htoken, rfl, -⟩
  obtain ⟨x, hx, rfl⟩ := hw.only key (by rw [hget]; rfl)
  obtain ⟨prev, next, hstored⟩ := hw.stored x hx
  obtain rfl := Option.some.inj (hget.symm.trans hstored)
  exact hJ (hp x hx htoken)

variable [LawfulSlab S]

/-- A call that schedules nothing with this token keeps the bound. -/
theorem Tracks.call (h : Tracks t token n J) {l : TimerCall T × TimerOut T}
    (hcall : CallStep t l t') (hl : ∀ at_ i, l.1 ≠ .timeoutMsAt at_ i token) :
    Tracks t' token n J := by
  obtain ⟨p, due, hw, ht, hn, hp⟩ := h
  obtain ⟨p', due', hw', ht', heff, -⟩ := call_effect hw ht hcall
  -- The entries with this token are among the old ones.
  have hsub : p'.countP (fun e => e.token = token) ≤ p.countP (fun e => e.token = token) ∧
      ∀ e ∈ p', e.token = token → e ∈ p := by
    cases heff with
    | scheduled e at_ =>
      have hne : e.token ≠ token := by
        rintro rfl
        exact hl at_ e.interval rfl
      refine ⟨by simp [hne], fun x hx heq => ?_⟩
      rcases List.mem_cons.mp hx with rfl | hx
      · exact absurd heq hne
      · exact hx
    | rejected | stale | idle => exact ⟨Nat.le_refl _, fun x hx _ => hx⟩
    | cleared p₁ p₂ e | fired p₁ p₂ e =>
      exact ⟨removed_sublist.countP_le, fun x hx _ => removed_sublist.subset hx⟩
  exact ⟨p', due', hw', ht', hsub.1.trans hn, fun e he heq => hp e (hsub.2 e he heq) heq⟩

/-- Scheduling raises the bound by one. -/
theorem Tracks.scheduled (h : Tracks t token n J) {at_ : Nat} {r : TimerResult}
    (hcall : CallStep t (.timeoutMsAt at_ interval token, .inserted r) t')
    (hJ : ∀ timeout, r = .ok timeout → J interval) : Tracks t' token (n + 1) J := by
  obtain ⟨p, due, hw, ht, hn, hp⟩ := h
  obtain ⟨p', due', hw', ht', heff, -⟩ := call_effect hw ht hcall
  refine ⟨p', due', hw', ht', ?_⟩
  cases heff with
  | scheduled e at_ =>
    refine ⟨by simpa using hn, fun x hx heq => ?_⟩
    rcases List.mem_cons.mp hx with rfl | hx
    · exact hJ _ rfl
    · exact hp x hx heq
  | rejected => exact ⟨Nat.le_succ_of_le hn, hp⟩

/-- Handing out an entry of the token lowers the bound by one. -/
theorem Tracks.fired (h : Tracks t token (n + 1) J) {nowTick : Nat}
    (hcall : CallStep t (.tickTo nowTick, .ticked (some (token, interval))) t') :
    J interval ∧ Tracks t' token n J := by
  obtain ⟨p, due, hw, ht, hn, hp⟩ := h
  obtain ⟨p', due', hw', ht', heff, -⟩ := call_effect hw ht hcall
  cases heff with
  | fired p₁ p₂ e =>
    refine ⟨hp e (by simp) rfl, p₁ ++ p₂, due', hw', ht', ?_, fun x hx => hp x ?_⟩
    · simp only [List.countP_append, List.countP_cons, decide_true, if_true] at hn ⊢
      omega
    · rcases List.mem_append.mp hx with hx | hx <;> simp [hx]

/-- Nothing is pending when the event loop is made. -/
theorem Tracks.setup {tickMs slots cap now : Nat} (hnew : Timer.new tickMs slots cap = .ok t) :
    Tracks (t.setup now) token 0 J := by
  have hstart := setup_timing hnew now fun e => e.tick
  exact ⟨[], _, hstart.1, hstart.2, Nat.le_refl _, nofun⟩

omit [LawfulSlab S] [DecidableEq T] in
/-- `timeoutMs` is a call that schedules. -/
theorem timeoutMs_call {now delay : Nat} {r : TimerResult}
    (h : t.timeoutMs now delay interval token = .ok (t', r)) :
    ∃ at_, CallStep t (.timeoutMsAt at_ interval token, .inserted r) t' := by
  obtain ⟨at_, -, h⟩ := bind_eq_ok.mp h
  refine ⟨at_, ?_⟩
  show t.call (.timeoutMsAt at_ interval token) = _
  rw [call, h, ok_bind]

omit [LawfulSlab S] [DecidableEq T] in
/-- A `clear` is a step. -/
theorem clear_call {timeout : Timeout} {b : Bool} (h : t.clear timeout = .ok (t', b)) :
    CallStep t (.clear timeout, .cleared b) t' := by
  show t.call (.clear timeout) = _
  rw [call, h, ok_bind]

omit [LawfulSlab S] [DecidableEq T] in
/-- A `tick_to` is a step. -/
theorem tickTo_call {r : Option (T × Nat)} (h : t.tickTo n = .ok (t', r)) :
    CallStep t (.tickTo n, .ticked r) t' := by
  show t.call (.tickTo n) = _
  rw [call, h, ok_bind]

end Ruduo.Timer
