import Ruduo.Proofs.Timer.Earliness
import Ruduo.Spec.StaleHandle

/-!
# `Ruduo.Proofs.Timer.StaleHandle`: when a stale handle cancels another timeout

A slab key is used again at once, and what tells two entries at one key apart is their tick. An
entry aimed at a tick in the future fires at this tick, and from then on new entries get later
ticks. An entry with a deadline in the past is aimed at the tick after its deadline. This tick
lies in the past too, and it can be given out again after the entry has fired.

`Kept` is the invariant: a handle that was not passed to `clear` yet belongs to the entry at its
key, or its entry has fired and no pending entry has its key and its tick.

* `Kept.issue`, `Kept.taken`: a new entry, and one that is taken out, keep it.
* `step_kept`: a call that gives no handle out again keeps it.
* `not_sound_of_reissued`: a call that does ends it at once, for the old handle now cancels the
  new entry.
* `sound_iff`: both together, for whole runs.
-/

set_option autoImplicit false

namespace Ruduo

open Lib (Slab LawfulSlab Run Always Each)

variable {S : Type → Type} [Slab S] {T : Type}

namespace Timer
variable {t t' : Timer S T} {p p₁ p₂ : List (Pending T)} {e : Pending T} {key : Nat}

/-- What is stored at the key of a pending timeout. -/
theorem Wheel.pendingAt_of_mem (h : Wheel t p) (he : e ∈ p) :
    t.pendingAt e.key = some (e.token, e.interval, e.tick) := by
  obtain ⟨prev, next, hget⟩ := h.stored e he
  rw [pendingAt, hget]
  rfl

/-- Nothing is stored at any other key. -/
theorem Wheel.pendingAt_of_not_mem (h : Wheel t p) (hkey : ∀ e ∈ p, e.key ≠ key) :
    t.pendingAt key = none := by
  cases hget : Slab.get t.entries key with
  | none => rw [pendingAt, hget, Option.map_none]
  | some en =>
    obtain ⟨e, he, hk⟩ := h.only key (by rw [hget]; rfl)
    exact absurd hk (hkey e he)

/-- A key is in use exactly when a timeout with this key is pending. -/
theorem Wheel.isSome_get_iff (h : Wheel t p) :
    (Slab.get t.entries key).isSome ↔ ∃ e ∈ p, e.key = key := by
  constructor
  · exact h.only key
  · rintro ⟨e, he, rfl⟩
    obtain ⟨prev, next, hget⟩ := h.stored e he
    rw [hget]
    rfl

/-- Taking one timeout out leaves what is stored at the other keys. -/
theorem Wheel.pendingAt_removed (h : Wheel t (p₁ ++ e :: p₂)) (h' : Wheel t' (p₁ ++ p₂)) :
    t'.pendingAt e.key = none ∧ ∀ key, key ≠ e.key → t'.pendingAt key = t.pendingAt key := by
  refine ⟨h'.pendingAt_of_not_mem h.key_ne, fun key hkey => ?_⟩
  by_cases hin : ∃ x ∈ p₁ ++ p₂, x.key = key
  · obtain ⟨x, hx, rfl⟩ := hin
    rw [h'.pendingAt_of_mem hx, h.pendingAt_of_mem (removed_sublist.subset hx)]
  · have hnot : ∀ x ∈ p₁ ++ p₂, x.key ≠ key := by simpa using hin
    rw [h'.pendingAt_of_not_mem hnot, h.pendingAt_of_not_mem]
    intro x hx
    by_cases hxe : x = e
    · rw [hxe]
      exact hkey.symm
    · exact hnot x (by simpa [hxe] using hx)

/-- The handle of an insertion: the vacant key, and the tick. -/
theorem insert_handle {token : T} {tick interval : Nat} {timeout : Timeout}
    (h : t.insert token tick interval = .ok (t', .ok timeout)) :
    timeout = { key := Slab.vacantKey t.entries, tick } ∧
      Slab.len t.entries ≠ Slab.capacity t.entries := by
  obtain ⟨curr, -, h⟩ := bind_eq_ok.mp h
  split at h
  · cases h
  · rename_i hroom
    obtain ⟨t₁, -, h⟩ := bind_eq_ok.mp h
    obtain ⟨t₂, -, h⟩ := bind_eq_ok.mp h
    cases h
    exact ⟨rfl, hroom⟩

end Timer

namespace Holder

open Timer

variable {s s' : Holder S T} {t' : Timer S T} {p p₁ p₂ : List (Pending T)} {e : Pending T}
  {due : Pending T → Nat} {c : HolderCall T} {ls : List (HolderCall T)} {i : Nat}
  {timeout : Timeout}

/-- The invariant of the holder. -/
structure Kept (s : Holder S T) (p : List (Pending T)) (due : Pending T → Nat) : Prop where
  wheel : Wheel s.timer p
  timing : Timing s.timer p due
  /-- Every entry has an owner. -/
  owned : ∀ e ∈ p, ∃ i, s.owner e.key = some i ∧ s.issued[i]? = some e.handle
  /-- Every owner has an entry. -/
  lives : ∀ key i, s.owner key = some i → ∃ e ∈ p, e.key = key
  /-- A handle that was not passed to `clear`: its entry is pending, or it has fired. -/
  handle : ∀ i timeout, s.issued[i]? = some timeout → i ∉ s.spent →
    s.owner timeout.key = some i ∨
      timeout.tick ≤ s.timer.tick ∧ ∀ e ∈ p, e.handle ≠ timeout

/-- The entry at the key of a handle whose number owns it has this handle. -/
theorem Kept.handle_eq (h : Kept s p due) (hi : s.issued[i]? = some timeout)
    (howner : s.owner timeout.key = some i) : ∃ e ∈ p, e.handle = timeout := by
  obtain ⟨e, he, hk⟩ := h.lives _ _ howner
  obtain ⟨j, hj, hissued⟩ := h.owned e he
  rw [hk, howner, Option.some.injEq] at hj
  rw [← hj, hi, Option.some.injEq] at hissued
  exact ⟨e, he, hissued.symm⟩

variable [LawfulSlab S]

/-- The invariant is what `clear` needs. -/
theorem Kept.sound (h : Kept s p due) : s.Sound := by
  intro i timeout hi hunspent
  rcases h.handle i timeout hi hunspent with howner | ⟨-, hnone⟩
  · obtain ⟨e, he, rfl⟩ := h.handle_eq hi howner
    obtain ⟨p₁, p₂, rfl⟩ := List.append_of_mem he
    obtain ⟨t', hclear, hw, -⟩ := clear_spec h.wheel
    exact ⟨t', true, hclear, by simp [howner], fun _ => h.wheel.pendingAt_removed hw, by simp⟩
  · have hnot : s.owner timeout.key ≠ some i := by
      intro howner
      obtain ⟨e, he, hh⟩ := h.handle_eq hi howner
      exact hnone e he hh
    exact ⟨s.timer, false, clear_stale h.wheel hnone, by simp [hnot], by simp, fun _ => rfl⟩

omit [LawfulSlab S] in
/-- After a call that took at most entries out, an entry that stays has its owner. -/
theorem after_owner {t' : Timer S T} {p' : List (Pending T)} (hw : Wheel t' p') {key : Nat}
    (hkey : ∃ e ∈ p', e.key = key) : (s.after t').owner key = s.owner key := by
  have hsome := hw.isSome_get_iff.mpr hkey
  exact if_pos hsome

omit [LawfulSlab S] in
/-- A call that took at most one entry out, which has fired or whose handle is spent now, keeps
the invariant. -/
theorem Kept.after (h : Kept s p due) {t' : Timer S T} {p' : List (Pending T)} {spent : List Nat}
    (hw : Wheel t' p') (ht : Timing t' p' due) (hsub : ∀ e ∈ p', e ∈ p)
    (htick : s.timer.tick ≤ t'.tick) (hspent : ∀ i ∈ s.spent, i ∈ spent)
    (hgone : ∀ e ∈ p, e ∉ p' → (∀ x ∈ p', x.key ≠ e.key) ∧
      (e.tick ≤ t'.tick ∨ ∀ i, s.owner e.key = some i → i ∈ spent)) :
    Kept { s.after t' with spent } p' due where
  wheel := hw
  timing := ht
  owned e he := by
    obtain ⟨i, hi, hissued⟩ := h.owned e (hsub e he)
    exact ⟨i, (after_owner hw ⟨e, he, rfl⟩).trans hi, hissued⟩
  lives key i hi := by
    by_contra hnone
    have hsome : ¬ (Slab.get t'.entries key).isSome := fun hs => hnone (hw.isSome_get_iff.mp hs)
    rw [show ({ s.after t' with spent } : Holder S T).owner key = none from if_neg hsome] at hi
    cases hi
  handle i timeout hi hunspent := by
    -- The timeout of the handle is still pending, or it has fired: it was not cleared, since the
    -- handle would be spent.
    have hunspent' : i ∉ s.spent := fun hs => hunspent (hspent i hs)
    rcases h.handle i timeout hi hunspent' with howner | ⟨hle, hnone⟩
    · obtain ⟨e, he, rfl⟩ := h.handle_eq hi howner
      by_cases he' : e ∈ p'
      · exact Or.inl ((after_owner hw ⟨e, he', rfl⟩).trans howner)
      · obtain ⟨hne, hfired | hcleared⟩ := hgone e he he'
        · exact Or.inr ⟨hfired, fun x hx hh => hne x hx (congrArg Timeout.key hh)⟩
        · exact absurd (hcleared i howner) hunspent
    · exact Or.inr ⟨hle.trans htick, fun e he => hnone e (hsub e he)⟩

omit [LawfulSlab S] in
/-- Taking one entry out keeps the invariant, when it has fired or its handle is spent now. -/
theorem Kept.taken (h : Kept s (p₁ ++ e :: p₂) due) {spent : List Nat}
    (hw : Wheel t' (p₁ ++ p₂)) (ht : Timing t' (p₁ ++ p₂) due) (htick : s.timer.tick ≤ t'.tick)
    (hspent : ∀ i ∈ s.spent, i ∈ spent)
    (hgone : e.tick ≤ t'.tick ∨ ∀ i, s.owner e.key = some i → i ∈ spent) :
    Kept { s.after t' with spent } (p₁ ++ p₂) due := by
  refine h.after hw ht (fun x hx => removed_sublist.subset hx) htick hspent fun x hx hx' => ?_
  obtain rfl := eq_of_removed hx hx'
  exact ⟨h.wheel.key_ne, hgone⟩

omit [LawfulSlab S] in
/-- A new entry with a handle of its own keeps the invariant. -/
theorem Kept.issue (h : Kept s p due) {due' : Pending T → Nat}
    (hw : Wheel t' (e :: p)) (ht : Timing t' (e :: p) due') (htick : t'.tick = s.timer.tick)
    (hnew : ∀ i timeout, s.issued[i]? = some timeout → i ∉ s.spent →
      timeout.tick ≤ s.timer.tick → e.handle ≠ timeout) :
    Kept { s with
      timer := t'
      issued := s.issued ++ [e.handle]
      owner := Function.update s.owner e.key (some s.issued.length) } (e :: p) due' := by
  -- The key was free.
  have hfresh := hw.head_key_ne
  refine ⟨hw, ht, ?_, ?_, ?_⟩
  · -- Every entry has an owner.
    intro x hx
    rcases List.mem_cons.mp hx with rfl | hx
    · exact ⟨s.issued.length, Function.update_self .., by simp⟩
    · obtain ⟨i, hi, hissued⟩ := h.owned x hx
      refine ⟨i, (Function.update_of_ne (hfresh x hx) ..).trans hi, ?_⟩
      rw [List.getElem?_append_left (List.getElem?_eq_some_iff.mp hissued).1]
      exact hissued
  · -- Every owner has an entry.
    intro key i hi
    by_cases hkey : key = e.key
    · exact ⟨e, List.mem_cons_self, hkey.symm⟩
    · obtain ⟨x, hx, hk⟩ := h.lives key i ((Function.update_of_ne hkey ..).symm.trans hi)
      exact ⟨x, List.mem_cons_of_mem _ hx, hk⟩
  · -- The old handles are good or have fired, and the new one is good.
    intro i timeout hi hunspent
    rcases Nat.lt_or_ge i s.issued.length with hlt | hge
    · rw [List.getElem?_append_left hlt] at hi
      rcases h.handle i timeout hi hunspent with howner | ⟨hle, hnone⟩
      · obtain ⟨x, hx, hk⟩ := h.lives _ _ howner
        exact Or.inl ((Function.update_of_ne (hk ▸ hfresh x hx) ..).trans howner)
      · refine Or.inr ⟨htick ▸ hle, fun x hx => ?_⟩
        rcases List.mem_cons.mp hx with rfl | hx
        · exact hnew i timeout hi hunspent hle
        · exact hnone x hx
    · obtain rfl : i = s.issued.length := by
        have := (List.getElem?_eq_some_iff.mp hi).1
        rw [List.length_append, List.length_singleton] at this
        omega
      obtain rfl : e.handle = timeout := by simpa using hi
      exact Or.inl (Function.update_self ..)

omit [LawfulSlab S] in
/-- A call that gives no handle out again gives out none whose tick has passed. -/
theorem GivesNew.handle_ne {at_ interval : Nat} {token : T} {fresh : Timeout}
    (hnew : s.GivesNew (.timeoutMsAt at_ interval token))
    (hcall : s.timer.timeoutMsAt at_ interval token = .ok (t', .ok fresh))
    (hi : s.issued[i]? = some timeout) (hunspent : i ∉ s.spent)
    (hle : timeout.tick ≤ s.timer.tick) : fresh ≠ timeout := by
  obtain ⟨hhandle, hroom⟩ := insert_handle (timeoutMsAt_ok hcall)
  rintro rfl
  by_cases hpast : s.timer.deadline at_ < s.timer.tick
  · rw [if_pos hpast.le] at hhandle
    rcases hnew with hfull | hlate | hother
    · exact hroom hfull
    · omega
    · exact hother i fresh hi hunspent hhandle
  · -- Otherwise the call aims after the current tick.
    have htick := congrArg Timeout.tick hhandle
    simp only at htick
    split at htick <;> omega

/-- A call that gives no handle out again keeps the invariant. -/
theorem step_kept (h : Kept s p due) (hnew : s.GivesNew c) (hstep : Step s c s') :
    ∃ p' due', Kept s' p' due' := by
  cases hstep with
  | @issued at_ interval token timer timeout hcall =>
    obtain ⟨e, due', rfl, -, -, hw, ht, -, -, -, htick, -⟩ :=
      insert_ok h.wheel h.timing (timeoutMsAt_ok hcall)
    exact ⟨e :: p, due', h.issue hw ht htick fun i timeout => hnew.handle_ne hcall⟩
  | @rejected at_ interval token timer err hcall =>
    obtain ⟨-, rfl⟩ := insert_error h.wheel h.timing (timeoutMsAt_ok hcall)
    exact ⟨p, due, h.wheel, h.timing, h.owned, h.lives, h.handle⟩
  | @tickTo n timer r hcall =>
    cases r with
    | none =>
      obtain ⟨hw, ht, -, htick, -⟩ := tickTo_none h.wheel h.timing hcall
      exact ⟨p, due, h.after hw ht (fun _ hx => hx) (htick ▸ le_max_left _ _) (fun _ hi => hi)
        fun _ hx hx' => absurd hx hx'⟩
    | some r =>
      obtain ⟨p₁, e, p₂, rfl, -, -, hw, ht, -, htick, -⟩ := tickTo_some h.wheel h.timing hcall
      exact ⟨p₁ ++ p₂, due, h.taken hw ht (htick ▸ h.timing.ge e (by simp)) (fun _ hi => hi)
        (Or.inl (htick ▸ h.timing.tick_le e (by simp)))⟩
  | @clear number timer timeout b hissued hunspent hcall =>
    rcases clear_ok h.wheel h.timing hcall with
      ⟨-, p₁, e, p₂, rfl, rfl, hw, ht, htick, -⟩ | ⟨-, rfl, -⟩
    · refine ⟨p₁ ++ p₂, due, h.taken hw ht htick.ge (fun _ hi => List.mem_cons_of_mem _ hi)
        (Or.inr fun i hi => ?_)⟩
      -- The entry of the handle was pending, so the handle is the one that was cleared.
      rcases h.handle number _ hissued hunspent with howner | ⟨-, hnot⟩
      · obtain rfl := Option.some.inj (hi.symm.trans howner)
        exact List.mem_cons_self
      · exact absurd rfl (hnot e (by simp))
    · exact ⟨p, due, h.after h.wheel h.timing (fun _ hx => hx) le_rfl
        (fun _ hi => List.mem_cons_of_mem _ hi) fun _ hx hx' => absurd hx hx'⟩

/-- When a call gives a handle out again, the old handle cancels the new entry. -/
theorem not_sound_of_reissued (h : Kept s p due) (hnew : ¬ s.GivesNew c) (hstep : Step s c s') :
    ¬ s'.Sound := by
  cases hstep with
  | @issued at_ interval token timer timeout hcall =>
    simp only [GivesNew, not_or, not_forall, not_le] at hnew
    obtain ⟨-, hpast, i, old, hi, hunspent, hold⟩ := hnew
    have hins := timeoutMsAt_ok hcall
    obtain ⟨e, due', rfl, -, -, hw, -⟩ := insert_ok h.wheel h.timing hins
    obtain ⟨hhandle, -⟩ := insert_handle hins
    rw [if_pos hpast.le] at hhandle
    obtain rfl : old = e.handle := by
      rw [hhandle]
      simpa using hold
    intro hsound
    have hlt := (List.getElem?_eq_some_iff.mp hi).1
    obtain ⟨t', b, hclear, hiff, -⟩ :=
      hsound i e.handle (by rw [List.getElem?_append_left hlt]; exact hi) hunspent
    -- `clear` finds the key and the tick of the handle.
    have hw' : Wheel _ ([] ++ e :: p) := hw
    obtain ⟨t'', hclear', -⟩ := clear_spec hw'
    obtain ⟨-, rfl⟩ := Prod.mk.inj (Except.ok.inj (hclear.symm.trans hclear'))
    have howner := (Function.update_self ..).symm.trans (hiff.mp rfl)
    rw [Option.some.injEq] at howner
    omega
  | rejected at_ interval token hcall =>
    simp only [GivesNew, not_or] at hnew
    exact absurd (insert_error h.wheel h.timing (timeoutMsAt_ok hcall)).1 hnew.1
  | tickTo | clear => exact absurd trivial hnew

/-- A holder of a new timer has no handles. -/
theorem new_kept {t : Timer S T} {tickMs slots cap : Nat}
    (hnew : Timer.new tickMs slots cap = .ok t) (start : Nat) :
    ∃ p due, Kept (new (t.setup start)) p due := by
  obtain ⟨hw, ht⟩ := setup_timing hnew start fun _ => 0
  exact ⟨[], _, hw, ht, by simp, by simp [new], by simp [new]⟩

/-- As long as every state is sound, no handle is given out again. -/
theorem run_kept {t : Holder S T} (hrun : Run Step s ls t) :
    ∀ {p : List (Pending T)} {due : Pending T → Nat}, Kept s p due → Always Step Sound s ls →
      ∃ p' due', Kept t p' due' := by
  induction hrun with
  | nil => exact fun h _ => ⟨_, _, h⟩
  | @cons s s' t c ls hstep _ ih =>
    intro p due h hsound
    have hnew : s.GivesNew c := by
      by_contra hnot
      exact not_sound_of_reissued h hnot hstep (hsound [c] ls s' rfl (.cons hstep (.nil _)))
    obtain ⟨p', due', h'⟩ := step_kept h hnew hstep
    exact ih h' (hsound.tail hstep)

/-- **When stale handles are harmless.** A holder of a new timer passes each of its handles to
`clear` at most once. Along a run of its calls, in every state every handle that is left cancels
its own timeout only, exactly when no call of the run gives such a handle out again. -/
theorem sound_iff {t : Timer S T} {tickMs slots cap : Nat}
    (hnew : Timer.new tickMs slots cap = .ok t) (start : Nat) (ls : List (HolderCall T)) :
    Always Step Sound (new (t.setup start)) ls ↔
      Each Step (fun s c _ => s.GivesNew c) (new (t.setup start)) ls := by
  obtain ⟨p, due, hkept⟩ := new_kept hnew start
  constructor
  · rintro hsound ls₁ c ls₂ u u' rfl hrun hstep
    have hbefore : Always Step Sound (new (t.setup start)) ls₁ := by
      rintro ms₁ ms₂ v rfl hrun'
      exact hsound ms₁ (ms₂ ++ c :: ls₂) v (by simp) hrun'
    obtain ⟨p', due', h⟩ := run_kept hrun hkept hbefore
    by_contra hnot
    exact not_sound_of_reissued h hnot hstep
      (hsound (ls₁ ++ [c]) ls₂ u' (by simp) (hrun.snoc hstep))
  · rintro heach ls₁ ls₂ u hls hrun
    have hkept' := Each.always (I := fun s => ∃ p due, Kept s p due)
      (fun s c s' ⟨p, due, h⟩ hc hstep => step_kept h hc hstep) heach ⟨p, due, hkept⟩
    obtain ⟨p', due', h⟩ := hkept' ls₁ ls₂ u hls hrun
    exact h.sound

section Example

/-- A timeout is scheduled, fires, and its key is used for another one. The old handle is
refused. -/
theorem sound_iff_reused_key :
    Always Step Sound (new (newTimer.setup 0))
        [.timeoutMsAt 100 0 "a", .tickTo 1, .timeoutMsAt 300 0 "b", .clear 0] ↔
      Each Step (fun s c _ => s.GivesNew c) (new (newTimer.setup 0))
        [.timeoutMsAt 100 0 "a", .tickTo 1, .timeoutMsAt 300 0 "b", .clear 0] :=
  sound_iff new_newTimer 0 _

/-- The wheel stands at the tick 6 when a timeout with the deadline at the tick 1 is scheduled. It
is aimed at the tick 2, fires one revolution later, and a second one with this deadline gets the
same key and tick. The handle of the first one cancels it. -/
theorem stale_handle_cancels_another :
    Timer.new 100 16 32 = .ok newTimer ∧
    ¬ ∀ ls, Always Step Sound (new (newTimer.setup 0)) ls := by
  refine ⟨rfl, fun hsound => ?_⟩
  have hrun : ∃ s, Run Step (new (newTimer.setup 0))
      [.tickTo 5, .timeoutMsAt 100 0 "a", .tickTo 18, .timeoutMsAt 100 0 "b"] s ∧
      s.issued = [⟨0, 2⟩, ⟨0, 2⟩] ∧ s.spent = [] ∧ s.owner 0 = some 1 ∧
      ∃ t, s.timer.clear ⟨0, 2⟩ = .ok (t, true) :=
    ⟨_, .cons (.tickTo 5 rfl) (.cons (.issued 100 0 "a" rfl)
      (.cons (.tickTo 18 rfl) (.cons (.issued 100 0 "b" rfl) (.nil _)))), rfl, rfl, rfl, _, rfl⟩
  obtain ⟨s, hrun, hissued, hspent, howner, t, hclear⟩ := hrun
  obtain ⟨t', b, hclear', hiff, -⟩ :=
    hsound _ _ [] s (List.append_nil _).symm hrun 0 ⟨0, 2⟩ (by rw [hissued]; rfl)
      (by rw [hspent]; simp)
  rw [hclear] at hclear'
  obtain ⟨-, rfl⟩ := Prod.mk.inj (Except.ok.inj hclear')
  have := howner.symm.trans (hiff.mp rfl)
  cases this

end Example

end Holder

end Ruduo
