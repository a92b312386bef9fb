import Ruduo.Spec.Deadline
import Ruduo.Proofs.Timer.Refinement

/-!
# `Ruduo.Proofs.Timer.Lateness`: which timeouts are delivered late

`timeoutMsAt` aims a timeout with the deadline `d` at the tick `d`, or at `d + 1` when `d` is
not in the future. The second tick may itself lie in the past, and then the timeout waits for
the next tick that falls on its slot. `timeoutMsAt_onTime_iff` says exactly when this is still in
time.

* `insert_cases`, `clear_cases`: the outcomes of an insertion and of `clear`.
* `call_effect`: one call keeps the invariant. `CallEffect` says what it does to the pending
  timeouts, and those that stay keep their due ticks.
* `pending_or_released`: along a run, a timeout stays pending with its due tick, or it is
  released.
* `drain`: calling `tickTo n` over and over ends with the answer `none`, and the timeouts due
  after `n` are still there.
-/

set_option autoImplicit false

namespace Ruduo.Timer

open Lib (Slab LawfulSlab Run)

variable {S : Type → Type} [Slab S] {T : Type} {t t' : Timer S T}
  {p p' : List (Pending T)} {e : Pending T} {due : Pending T → Nat}

/-- The handle of a pending timeout is good. -/
theorem Wheel.holds (h : Wheel t p) (he : e ∈ p) : Holds t e.handle := by
  obtain ⟨prev, next, hget⟩ := h.stored e he
  exact ⟨_, hget, rfl⟩

/-- The handle of a timeout whose key is not pending is not good. -/
theorem Wheel.not_holds (h : Wheel t p) (he : ∀ x ∈ p, x.key ≠ e.key) : ¬ Holds t e.handle := by
  rintro ⟨en, hget, -⟩
  obtain ⟨x, hx, hk⟩ := h.only e.handle.key (by rw [hget]; rfl)
  exact he x hx hk

/-- What a call does to the pending timeouts, whatever the ticks are. -/
inductive CallEffect : List (Pending T) → TimerCall T × TimerOut T → List (Pending T) → Prop where
  /-- A timeout is scheduled. -/
  | scheduled {p : List (Pending T)} (e : Pending T) (at_ : Nat) :
      CallEffect p (.timeoutMsAt at_ e.interval e.token, .inserted (.ok e.handle)) (e :: p)
  /-- The slab is full. -/
  | rejected {p : List (Pending T)} (at_ interval : Nat) (token : T) (err : TimerError) :
      CallEffect p (.timeoutMsAt at_ interval token, .inserted (.error err)) p
  /-- The handle of a pending timeout was cleared. -/
  | cleared (p₁ p₂ : List (Pending T)) (e : Pending T) :
      CallEffect (p₁ ++ e :: p₂) (.clear e.handle, .cleared true) (p₁ ++ p₂)
  /-- The handle is that of no pending timeout. -/
  | stale {p : List (Pending T)} (timeout : Timeout) :
      CallEffect p (.clear timeout, .cleared false) p
  /-- A timeout is handed out. -/
  | fired (p₁ p₂ : List (Pending T)) (e : Pending T) (n : Nat) :
      CallEffect (p₁ ++ e :: p₂) (.tickTo n, .ticked (some (e.token, e.interval))) (p₁ ++ p₂)
  /-- Nothing is due. -/
  | idle {p : List (Pending T)} (n : Nat) : CallEffect p (.tickTo n, .ticked none) p

variable [LawfulSlab S]

/-- An insertion finds the slab full and leaves the timer as it is, or it adds one timeout, and
the others keep their due ticks. -/
theorem insert_cases (h : Wheel t p) (ht : Timing t p due) (token : T) (tick interval : Nat) :
    (Slab.len t.entries = Slab.capacity t.entries ∧
      t.insert token tick interval = .ok (t, .error .overflow)) ∨
    ∃ t' e due', t.insert token tick interval = .ok (t', .ok e.handle) ∧
      e.token = token ∧ e.interval = interval ∧ Wheel t' (e :: p) ∧ Timing t' (e :: p) due' ∧
      Frame t t' ∧ due' e = dueTick t.wheel.length t.tick tick ∧ (∀ x ∈ p, due' x = due x) ∧
      t'.tick = t.tick ∧ e.tick = tick := by
  by_cases hfull : Slab.len t.entries = Slab.capacity t.entries
  · exact Or.inl ⟨hfull, insert_full h token tick interval hfull⟩
  · obtain ⟨t', key, hins, hw, hframe, htick, hcur, hfresh⟩ :=
      insert_spec h token tick interval hfull
    refine Or.inr ⟨t', { key, tick, token, interval }, _, hins, rfl, rfl, hw,
      insert_timing h ht hw hframe htick hcur hfresh, hframe, if_pos rfl, ?_, htick, rfl⟩
    intro x hx
    exact if_neg (hfresh x hx)

/-- A successful insertion adds one timeout, and the others keep their due ticks. -/
theorem insert_ok (h : Wheel t p) (ht : Timing t p due) {token : T} {tick interval : Nat}
    {timeout : Timeout} (hok : t.insert token tick interval = .ok (t', .ok timeout)) :
    ∃ e due', e.handle = timeout ∧ e.token = token ∧ e.interval = interval ∧
      Wheel t' (e :: p) ∧ Timing t' (e :: p) due' ∧ Frame t t' ∧
      due' e = dueTick t.wheel.length t.tick tick ∧ (∀ x ∈ p, due' x = due x) ∧
      t'.tick = t.tick ∧ e.tick = tick := by
  rcases insert_cases h ht token tick interval with ⟨-, hins⟩ | ⟨t₁, e, due', hins, hrest⟩
  · cases hok.symm.trans hins
  · obtain ⟨rfl, hr⟩ := Prod.mk.inj (Except.ok.inj (hok.symm.trans hins))
    exact ⟨e, due', (Except.ok.inj hr).symm, hrest⟩

/-- An insertion that fails finds the slab full, and leaves the timer as it is. -/
theorem insert_error (h : Wheel t p) (ht : Timing t p due) {token : T} {tick interval : Nat}
    {err : TimerError} (hok : t.insert token tick interval = .ok (t', .error err)) :
    Slab.len t.entries = Slab.capacity t.entries ∧ t' = t := by
  rcases insert_cases h ht token tick interval with ⟨hfull, hins⟩ | ⟨t₁, e, due', hins, -⟩
  · exact ⟨hfull, (Prod.mk.inj (Except.ok.inj (hok.symm.trans hins))).1⟩
  · cases hok.symm.trans hins

omit [LawfulSlab S] in
/-- `timeoutMsAt` inserts at the deadline, or one tick after it when it is not in the
future. -/
theorem timeoutMsAt_ok {at_ interval : Nat} {token : T} {r : TimerResult}
    (h : t.timeoutMsAt at_ interval token = .ok (t', r)) :
    t.insert token (if deadline t at_ ≤ t.tick then deadline t at_ + 1 else deadline t at_)
      interval = .ok (t', r) := by
  unfold timeoutMsAt at h
  simp only [bind_eq_ok, u64Sub_eq_ok, u64Add_eq_ok, u64Div_eq_ok] at h
  obtain ⟨_, ⟨-, rfl⟩, _, ⟨-, rfl⟩, _, ⟨hpos, rfl⟩, _, ⟨hne, rfl⟩, tick, htick, hins⟩ := h
  rw [deadline, Nat.ceilDiv_eq_add_pred_div]
  split at htick <;> rename_i hle
  · rw [u64Add_eq_ok] at htick
    rwa [if_pos hle, htick.2]
  · rwa [if_neg hle, Except.ok.inj htick]

omit [LawfulSlab S] in
/-- `timeoutMs` inserts in the same way, for the deadline `now + delay`. -/
theorem timeoutMs_ok {now delay interval : Nat} {token : T} {r : TimerResult}
    (h : t.timeoutMs now delay interval token = .ok (t', r)) :
    t.insert token (if deadline t (now + delay) ≤ t.tick then deadline t (now + delay) + 1
      else deadline t (now + delay)) interval = .ok (t', r) := by
  obtain ⟨at_, hadd, h⟩ := bind_eq_ok.mp h
  obtain ⟨-, rfl⟩ := u64Add_eq_ok.mp hadd
  simpa using timeoutMsAt_ok h

omit [Slab S] [LawfulSlab S] in
/-- A tick from the deadline on begins when its time has come, or later. -/
theorem le_of_deadline_le {at_ n : Nat} (hpos : 0 < deadline t at_) (hle : deadline t at_ ≤ n) :
    at_ ≤ t.startMs + n * t.tickMs := by
  have htick : 0 < t.tickMs := by
    by_contra hzero
    obtain hzero : t.tickMs = 0 := by omega
    simp [deadline, hzero] at hpos
  rw [deadline, ceilDiv_le_iff_le_smul htick, smul_eq_mul, Nat.mul_comm] at hle
  omega

/-- `clear` takes out the pending timeout with this handle, or it refuses the handle and leaves
the timer as it is. -/
theorem clear_cases (h : Wheel t p) (ht : Timing t p due) (timeout : Timeout) :
    (∃ t' p₁ e p₂, t.clear timeout = .ok (t', true) ∧ p = p₁ ++ e :: p₂ ∧ e.handle = timeout ∧
      Wheel t' (p₁ ++ p₂) ∧ Timing t' (p₁ ++ p₂) due ∧ t'.tick = t.tick ∧ Frame t t') ∨
    (t.clear timeout = .ok (t, false) ∧ ∀ e ∈ p, e.handle ≠ timeout) := by
  by_cases hpend : ∃ e ∈ p, e.handle = timeout
  · obtain ⟨e, he, rfl⟩ := hpend
    obtain ⟨p₁, p₂, rfl⟩ := List.append_of_mem he
    obtain ⟨t', hclear, hw, hframe, htick, hcur⟩ := clear_spec h
    exact Or.inl ⟨t', p₁, e, p₂, hclear, rfl, rfl, hw, clear_timing h ht hw hframe htick hcur,
      htick, hframe⟩
  · have hstale : ∀ e ∈ p, e.handle ≠ timeout := by simpa using hpend
    exact Or.inr ⟨clear_stale h hstale, hstale⟩

/-- A call of `clear` that returned. The handle is that of a pending timeout, which is taken out,
or it is refused. -/
theorem clear_ok (h : Wheel t p) (ht : Timing t p due) {timeout : Timeout} {b : Bool}
    (hok : t.clear timeout = .ok (t', b)) :
    (b = true ∧ ∃ p₁ e p₂, p = p₁ ++ e :: p₂ ∧ e.handle = timeout ∧ Wheel t' (p₁ ++ p₂) ∧
      Timing t' (p₁ ++ p₂) due ∧ t'.tick = t.tick ∧ Frame t t') ∨
    (b = false ∧ t' = t ∧ ∀ e ∈ p, e.handle ≠ timeout) := by
  rcases clear_cases h ht timeout with ⟨t₁, p₁, e, p₂, hclear, hrest⟩ | ⟨hclear, hstale⟩
  · obtain ⟨rfl, rfl⟩ := Prod.mk.inj (Except.ok.inj (hok.symm.trans hclear))
    exact Or.inl ⟨rfl, p₁, e, p₂, hrest⟩
  · obtain ⟨rfl, rfl⟩ := Prod.mk.inj (Except.ok.inj (hok.symm.trans hclear))
    exact Or.inr ⟨rfl, rfl, hstale⟩

/-- A call of `tickTo` that handed out a timeout. -/
theorem tickTo_some (h : Wheel t p) (ht : Timing t p due) {n interval : Nat} {token : T}
    (hok : t.tickTo n = .ok (t', some (token, interval))) :
    ∃ p₁ e p₂, p = p₁ ++ e :: p₂ ∧ e.token = token ∧ e.interval = interval ∧
      Wheel t' (p₁ ++ p₂) ∧ Timing t' (p₁ ++ p₂) due ∧ due e ≤ n ∧ t'.tick = due e ∧
      Frame t t' := by
  obtain ⟨rest, hw, htm, hframe, hticked⟩ := tickTo_ok h ht hok
  generalize hr : some (token, interval) = r at hticked
  cases hticked with
  | idle => cases hr
  | fired e hpick hdue htick =>
    cases hr
    obtain ⟨p₁, p₂, rfl, rfl, -, -⟩ := hpick
    exact ⟨p₁, e, p₂, rfl, rfl, rfl, hw, htm, hdue, htick, hframe⟩

/-- A call of `tickTo` that handed out nothing. -/
theorem tickTo_none (h : Wheel t p) (ht : Timing t p due) {n : Nat}
    (hok : t.tickTo n = .ok (t', none)) :
    Wheel t' p ∧ Timing t' p due ∧ (∀ e ∈ p, n < due e) ∧ t'.tick = max t.tick (n + 1) ∧
      Frame t t' := by
  obtain ⟨rest, hw, htm, hframe, hticked⟩ := tickTo_ok h ht hok
  cases hticked with
  | idle hnone htick => exact ⟨hw, htm, hnone, htick, hframe⟩

/-- One call keeps the invariant and does to the pending timeouts what `CallEffect` says. Those
that stay keep their due ticks, and the start, the size of a tick, the number of slots and the
capacity stay as they are. -/
theorem call_effect (h : Wheel t p) (ht : Timing t p due) {l : TimerCall T × TimerOut T}
    (hcall : CallStep t l t') :
    ∃ p' due', Wheel t' p' ∧ Timing t' p' due' ∧ CallEffect p l p' ∧
      (∀ e ∈ p, due' e = due e) ∧ Frame t t' := by
  obtain ⟨c, out⟩ := l
  have hcall' : t.call c = .ok (t', out) := hcall
  cases c with
  | timeoutMsAt at_ interval token =>
    -- Only a new timeout gets a due tick. All others stay, whatever the call does.
    obtain ⟨⟨t₁, r⟩, hins, heq⟩ := bind_eq_ok.mp hcall'
    cases heq
    replace hins := timeoutMsAt_ok hins
    cases r with
    | ok timeout =>
      obtain ⟨e, due', rfl, rfl, rfl, hw, htm, hframe, -, hsame, -⟩ := insert_ok h ht hins
      exact ⟨e :: p, due', hw, htm, .scheduled e at_, hsame, hframe⟩
    | error err =>
      obtain ⟨-, rfl⟩ := insert_error h ht hins
      exact ⟨p, due, h, ht, .rejected at_ interval token err, fun _ _ => rfl, Frame.refl t'⟩
  | clear timeout =>
    obtain ⟨⟨t₁, b⟩, hclear, heq⟩ := bind_eq_ok.mp hcall'
    cases heq
    rcases clear_ok h ht hclear with
      ⟨rfl, p₁, e, p₂, rfl, rfl, hw, htm, -, hframe⟩ | ⟨rfl, rfl, -⟩
    · exact ⟨p₁ ++ p₂, due, hw, htm, .cleared p₁ p₂ e, fun _ _ => rfl, hframe⟩
    · exact ⟨p, due, h, ht, .stale timeout, fun _ _ => rfl, Frame.refl t'⟩
  | tickTo n =>
    obtain ⟨⟨t₁, r⟩, htick, heq⟩ := bind_eq_ok.mp hcall'
    cases heq
    cases r with
    | none =>
      obtain ⟨hw, htm, -, -, hframe⟩ := tickTo_none h ht htick
      exact ⟨p, due, hw, htm, .idle n, fun _ _ => rfl, hframe⟩
    | some r =>
      obtain ⟨token, interval⟩ := r
      obtain ⟨p₁, e, p₂, rfl, rfl, rfl, hw, htm, -, -, hframe⟩ := tickTo_some h ht htick
      exact ⟨p₁ ++ p₂, due, hw, htm, .fired p₁ p₂ e n, fun _ _ => rfl, hframe⟩

omit [LawfulSlab S] in
/-- A call removes a pending timeout only if it releases it. -/
theorem CallEffect.stays_or_released {l : TimerCall T × TimerOut T} (heff : CallEffect p l p')
    (h : Wheel t p) (he : e ∈ p) :
    e ∈ p' ∨ ((∀ x ∈ p', x.key ≠ e.key) ∧ Releases e.handle e.token e.interval l) := by
  cases heff with
  | scheduled x at_ => exact Or.inl (List.mem_cons_of_mem _ he)
  | rejected | stale | idle => exact Or.inl he
  | cleared p₁ p₂ x =>
    by_cases hxe : e = x
    · subst hxe
      exact Or.inr ⟨h.key_ne, Or.inr rfl⟩
    · exact Or.inl (by simpa [hxe] using he)
  | fired p₁ p₂ x n =>
    by_cases hxe : e = x
    · subst hxe
      exact Or.inr ⟨h.key_ne, Or.inl ⟨n, rfl⟩⟩
    · exact Or.inl (by simpa [hxe] using he)

/-- Along a run a pending timeout stays in place with its due tick, or it is released. -/
theorem pending_or_released {t₁ t₂ : Timer S T} {ls : List (TimerCall T × TimerOut T)}
    (hrun : Run CallStep t₁ ls t₂) :
    ∀ {p : List (Pending T)} {due : Pending T → Nat}, Wheel t₁ p → Timing t₁ p due → e ∈ p →
      (∃ p' due', Wheel t₂ p' ∧ Timing t₂ p' due' ∧ e ∈ p' ∧ due' e = due e) ∨
      Released t₁ e.handle e.token e.interval ls := by
  induction hrun with
  | nil => intro p due h ht he; exact Or.inl ⟨p, due, h, ht, he, rfl⟩
  | @cons t₁ t₂ t₃ l ls hstep hrest ih =>
    intro p due h ht he
    obtain ⟨p', due', h', ht', heff, hdue, -⟩ := call_effect h ht hstep
    replace hdue := hdue e he
    rcases heff.stays_or_released h he with he' | ⟨hgone, hrel⟩
    · rcases ih h' ht' he' with hpend | ⟨ls₁, l', ls₂, u, u', hls, hkeep, hcall, hnot, hrel⟩
      · rw [hdue] at hpend
        exact Or.inl hpend
      · exact Or.inr ⟨l :: ls₁, l', ls₂, u, u', by rw [hls, List.cons_append],
          .cons ⟨hstep, h'.holds he'⟩ hkeep, hcall, hnot, hrel⟩
    · exact Or.inr ⟨[], l, ls, t₁, t₂, rfl, .nil t₁, hstep, h'.not_holds hgone, hrel⟩

/-- Calling `tickTo n` until it answers `none` ends, and a timeout due after `n` is in place
all along. The induction is on the number of pending timeouts. -/
theorem drain {n : Nat} (hn : n < u64Max) (he : n < due e) (h : Wheel t p) (ht : Timing t p due)
    (hmem : e ∈ p) :
    ∃ ls t' t'', Run (fun t l t' => CallStep t l t' ∧ Holds t' e.handle) t ls t' ∧
      t'.tickTo n = .ok (t'', none) := by
  induction hlen : p.length using Nat.strong_induction_on generalizing t p with
  | h k ih =>
    obtain ⟨t₁, r, rest, htick, hw, htm, -, hticked⟩ := tickTo_returns h ht hn
    cases hticked with
    | idle => exact ⟨[], t, t₁, .nil t, htick⟩
    | fired x hpick hdue =>
      obtain ⟨p₁, p₂, rfl, rfl, -, -⟩ := hpick
      -- The timeout handed out is due by `n`, so it is not `e`.
      have hmem' : e ∈ p₁ ++ p₂ := by
        have hne : e ≠ x := by
          rintro rfl
          omega
        simpa [hne] using hmem
      have hlt : (p₁ ++ p₂).length < k := by
        rw [← hlen, List.length_append, List.length_append, List.length_cons]
        omega
      obtain ⟨ls, t', t'', hrun, hnone⟩ := ih _ hlt hw htm hmem' rfl
      refine ⟨(.tickTo n, .ticked (some (x.token, x.interval))) :: ls, t', t'', ?_, hnone⟩
      refine .cons ⟨?_, hw.holds hmem'⟩ hrun
      show t.call (.tickTo n) = _
      rw [call, htick, ok_bind]

omit [LawfulSlab S] in
/-- The state after a call is determined by the call. -/
theorem callStep_deterministic (t : Timer S T) (l : TimerCall T × TimerOut T)
    (t₁ t₂ : Timer S T) (h₁ : CallStep t l t₁) (h₂ : CallStep t l t₂) : t₁ = t₂ :=
  (Prod.mk.inj (Except.ok.inj (h₁.symm.trans h₂))).1

/-- When a timeout is due at `D`, it is on time from `first` on exactly when `D` is not after
`first`, or when no `tickTo` from `first` on can answer `none` any more. -/
theorem onTime_iff_due {first : Nat} (h : Wheel t p) (ht : Timing t p due) (he : e ∈ p) :
    OnTime t e.handle e.token e.interval first ↔ due e ≤ first ∨ u64Max ≤ first := by
  constructor
  · -- Otherwise the calls of `tickTo first` end before the timeout is due.
    intro hontime
    by_contra hnot
    push Not at hnot
    obtain ⟨ls, t', t'', hrun, hnone⟩ := drain hnot.2 hnot.1 h ht he
    obtain ⟨ls₁, l, ls₂, u, u', rfl, hkeep, hcall, hgone, -⟩ :=
      hontime first le_rfl ls t' t'' (hrun.mono fun _ _ _ hs => hs.1) hnone
    -- The calls are deterministic, so the releasing call is one of the drain.
    obtain ⟨v, hrun₁, hrun₂⟩ := Run.split ls₁ hrun
    obtain rfl := Run.deterministic callStep_deterministic (hrun₁.mono fun _ _ _ hs => hs.1)
      (hkeep.mono fun _ _ _ hs => hs.1)
    cases hrun₂ with
    | cons hstep _ =>
      obtain rfl := callStep_deterministic _ _ _ _ hstep.1 hcall
      exact hgone hstep.2
  · intro hdue n hn ls t' t'' hrun hnone
    rcases pending_or_released hrun h ht he with ⟨p', due', h', ht', he', hsame⟩ | hrel
    · -- Still pending: then `tickTo n` would have handed it out.
      exfalso
      obtain ⟨-, htm, hlate, htick, -⟩ := tickTo_none h' ht' hnone
      have := hlate e he'
      have := htm.bound
      omega
    · exact hrel

/-- The invariant holds when the event loop is made. -/
theorem setup_timing {tickMs slots cap : Nat} (hnew : Timer.new tickMs slots cap = .ok t)
    (now : Nat) (due : Pending T → Nat) : Wheel (t.setup now) [] ∧ Timing (t.setup now) [] due := by
  obtain ⟨hw, htick, -⟩ := new_wheel hnew
  have hbound : (t.setup now).tick ≤ u64Max := by
    show t.tick ≤ u64Max
    rw [htick]
    exact Nat.zero_le _
  exact ⟨⟨hw.slots, hw.capacity, hw.len_le, hw.len, hw.keys, hw.key_lt, hw.stored, hw.only,
    hw.linked, hw.next⟩, timing_nil _ hbound⟩

/-- The invariant holds in every reachable state. -/
theorem Reachable.timing (h : Reachable t) : ∃ p due, Wheel t p ∧ Timing t p due := by
  obtain ⟨tickMs, slots, cap, now, t₀, ls, hnew, hrun⟩ := h
  refine hrun.invariant (P := fun t => ∃ p due, Wheel t p ∧ Timing t p due) ?_
    ⟨[], fun x => x.tick, setup_timing hnew now _⟩
  rintro s l s' ⟨p, due, h, ht⟩ hstep
  obtain ⟨p', due', h', ht', -⟩ := call_effect h ht hstep
  exact ⟨p', due', h', ht'⟩

omit [LawfulSlab S] [Slab S] in
/-- The tick after the current one is the due tick of a timeout aimed at `d + 1`, for a
deadline `d` in the past, exactly when `d` falls on the slot of the current tick. -/
theorem dueTick_succ_le_iff {slots s d : Nat} (hs : 0 < slots) (hd : d < s) :
    dueTick slots s (d + 1) ≤ s + 1 ↔ slots ∣ s - d := by
  have hlt := Nat.mod_lt (s - (d + 1)) hs
  have hsucc : s - d = s - (d + 1) + 1 := by omega
  have hmod : (s - d) % slots = ((s - (d + 1)) % slots + 1) % slots := by
    rw [hsucc, Nat.mod_add_mod]
  rw [dueTick, if_neg (by omega), Nat.dvd_iff_mod_eq_zero, hmod]
  by_cases hlast : (s - (d + 1)) % slots + 1 = slots
  · rw [hlast, Nat.mod_self]
    omega
  · rw [Nat.mod_eq_of_lt (show (s - (d + 1)) % slots + 1 < slots by omega)]
    omega

/-- **Which timeouts are on time.** A timeout scheduled in a reachable state with the deadline
`d`, while the timer stands at the tick `s`, is not delivered late exactly when the deadline is
not before `s`, or falls on the slot of `s`, or when `s + 1` is out of reach for a `tickTo` that
answers `none`. -/
theorem timeoutMsAt_onTime_iff (hreach : Reachable t) {at_ interval : Nat} {token : T}
    {timeout : Timeout} (h : t.timeoutMsAt at_ interval token = .ok (t', .ok timeout)) :
    OnTime t' timeout token interval (max (deadline t at_) (t.tick + 1)) ↔
      t.tick ≤ deadline t at_ ∨ t.wheel.length ∣ t.tick - deadline t at_ ∨
        u64Max ≤ t.tick + 1 := by
  obtain ⟨p, due, hw, ht⟩ := hreach.timing
  have hpos := hw.length_pos
  have hbound := ht.bound
  obtain ⟨e, due', rfl, rfl, rfl, hw', ht', -, hdue, -⟩ := insert_ok hw ht (timeoutMsAt_ok h)
  rw [onTime_iff_due hw' ht' List.mem_cons_self, hdue]
  rcases Nat.lt_trichotomy (deadline t at_) t.tick with hlt | heq | hgt
  · -- In the past: the entry is aimed at `d + 1`, which is not after the current tick.
    rw [if_pos hlt.le, max_eq_right (by omega), dueTick_succ_le_iff hpos hlt]
    constructor
    · exact Or.inr
    · exact fun hor => hor.resolve_left (by omega)
  · -- At the current tick: it is aimed at the next one, and on time.
    rw [if_pos heq.le, heq, dueTick_of_lt (by omega)]
    simp
  · -- In the future: it is aimed at its deadline.
    rw [if_neg (by omega), dueTick_of_lt hgt]
    simp [hgt.le]

section Example

/-- A timer with ticks of 100 ms and 16 slots that was drained up to the tick 5. -/
def drainedTimer : Timer Lib.FreeListSlab String where
  tickMs := 100
  entries := Slab.withCapacity 32
  wheel := List.replicate 16 EMPTY
  startMs := 0
  tick := 6
  next := EMPTY
  mask := 15

/-- The drained timer is reachable. -/
theorem drainedTimer_reachable : Reachable drainedTimer :=
  ⟨100, 16, 32, 0, _, [(.tickTo 5, .ticked none)], rfl, .cons rfl (.nil _)⟩

/-- A deadline at the tick 6 is on time. -/
theorem timeoutMsAt_onTime_iff_drained :
    ∃ t' timeout, drainedTimer.timeoutMsAt 560 0 "a" = .ok (t', .ok timeout) ∧
      (OnTime t' timeout "a" 0 (max (deadline drainedTimer 560) (drainedTimer.tick + 1)) ↔
        drainedTimer.tick ≤ deadline drainedTimer 560 ∨
          drainedTimer.wheel.length ∣ drainedTimer.tick - deadline drainedTimer 560 ∨
          u64Max ≤ drainedTimer.tick + 1) :=
  ⟨_, _, rfl, timeoutMsAt_onTime_iff drainedTimer_reachable rfl⟩

/-- A deadline at the tick 5 is not: the timeout is in the list of the tick 6, which the walk
has left behind, and `tickTo 7` answers `none`. -/
theorem timeoutMsAt_late :
    Reachable drainedTimer ∧
    ∃ t' timeout, drainedTimer.timeoutMsAt 500 0 "a" = .ok (t', .ok timeout) ∧
      ¬ OnTime t' timeout "a" 0 (max (deadline drainedTimer 500) (drainedTimer.tick + 1)) := by
  refine ⟨drainedTimer_reachable, _, _, rfl, fun hontime => ?_⟩
  obtain ⟨ls₁, l, ls₂, _, _, hls, -⟩ := hontime 7 (by decide) [] _ _ (.nil _) rfl
  cases ls₁ <;> cases hls

end Example

end Ruduo.Timer
