import Ruduo.Proofs.Server.Steps

/-!
# `Ruduo.Proofs.Server.Logs`: what a step adds to the log of a connection

A step makes at most one call on a connection (`Worker.callOf`). What it adds to a log is what
this call records, and enables and disables (`step_log`). A connection that is added or removed
leaves the others alone (`Moved.connAt`).
-/

set_option autoImplicit false

namespace Ruduo

open Lib (Outcome Slab LawfulSlab)

variable {S : Type → Type} [Slab S] [LawfulSlab S] {M : Type}

/-- A connection that stays live is not changed when another one is added or removed. -/
theorem Dispatcher.Moved.connAt {d d' : Dispatcher S M} {locked : Option Locked}
    (h : Moved d d' locked) {token : Token} {c c' : TcpConnection}
    (hc : d.connAt token = some c) (hc' : d'.connAt token = some c') : c' = c := by
  obtain ⟨key, rfl, hget⟩ := connAt_eq_some.mp hc
  obtain ⟨key', hkey, hget'⟩ := connAt_eq_some.mp hc'
  -- The vacant key held no connection, and the removed one holds none afterwards.
  cases h with
  | dropped hsame =>
    rw [hsame.offset] at hkey
    obtain rfl := Nat.add_left_cancel hkey
    rw [hsame.localConnections, hget] at hget'
    exact (Option.some.inj hget').symm
  | added new hconns _ hoffset =>
    rw [hoffset] at hkey
    obtain rfl := Nat.add_left_cancel hkey
    have hne : key ≠ Slab.vacantKey d.localConnections := by
      rintro rfl
      rw [LawfulSlab.get_vacantKey] at hget
      cases hget
    rw [hconns, LawfulSlab.get_insert, if_neg hne, hget] at hget'
    exact (Option.some.inj hget').symm
  | removed gone _ _ _ hsame =>
    rw [hsame.offset] at hkey
    obtain rfl := Nat.add_left_cancel hkey
    rw [hsame.localConnections, LawfulSlab.get_remove] at hget'
    split at hget'
    · cases hget'
    · rw [hget] at hget'
      exact (Option.some.inj hget').symm

namespace Worker
variable [DecidableEq M] {w w' : Worker S M} {l : WorkerLabel M} {token : Token}
  {c c' : TcpConnection} {e : ConnEvent}

/-- An event is new in the log of a connection only when the step makes a call on the connection
that records it. -/
theorem step_log (hstep : w.Step l w') (hc : w.dispatcher.connAt token = some c)
    (hc' : w'.dispatcher.connAt token = some c')
    (he : ∀ mode, e ≠ .enabled mode ∧ e ≠ .disabled mode)
    (hnot : ∀ k, w.callOf l = some (token, k) → ¬ k.Records e) :
    ∃ events, c'.log = c.log ++ events ∧ e ∉ events := by
  by_cases hmoves : w.Moves l
  · obtain ⟨-, ⟨hnot, -⟩ | ⟨-, -, hmoved⟩⟩ :=
      step_identity (R := fun _ _ _ => True) hstep (fun _ _ _ => trivial) trivial
    · exact absurd hmoves hnot
    · obtain rfl := hmoved.connAt hc hc'
      exact ⟨[], by simp, by simp⟩
  · -- Every operation but the call adds enables and disables only.
    have hstable : Stable (fun c'' => ∃ events, c''.log = c.log ++ events ∧ e ∉ events)
        (fun _ => True) (fun e' => e' ≠ e) := by
      refine stable_log (P := fun log => ∃ events, log = c.log ++ events ∧ e ∉ events)
        (A := fun e' => e' ≠ e) ?_ (fun mode => (he mode).1.symm) fun mode => (he mode).2.symm
      rintro log e' hne ⟨events, rfl, hmem⟩
      exact ⟨events ++ [e'], by simp, by simp [hmem, hne.symm]⟩
    have hall : w'.dispatcher.All fun _ t c'' =>
        t = token → ∃ events, c''.log = c.log ++ events ∧ e ∉ events := by
      refine ((exec_outcome (E := fun _ => True) (C := True) hstep hmoves ?_
        ⟨fun _ => trivial, fun _ _ _ => trivial, ?_⟩ ?_ ?_).of_ok rfl).1
      · intro key c'' hget htoken
        have hat := Dispatcher.connAt_eq_some.mpr ⟨key, htoken.symm, hget⟩
        obtain rfl := Option.some.inj (hc.symm.trans hat)
        exact ⟨[], by simp, by simp⟩
      · intro t k key c'' hcall htoken hget
        refine (Outcome.imp (fun _ => trivial) fun ht => ?_).mono (fun s hs => ⟨hs, trivial⟩)
          fun _ => id
        subst ht
        have hat := Dispatcher.connAt_eq_some.mpr ⟨key, htoken, hget⟩
        obtain rfl := Option.some.inj (hc.symm.trans hat)
        have hlog : ∃ events, c.log = c.log ++ events ∧ e ∉ events := ⟨[], by simp, by simp⟩
        exact hstable.call (s := { conn := c, sent := [] })
          (fun e' he' heq => hnot k hcall (heq ▸ he')) hlog
      · intro _ o t s outcomes hs
        exact Outcome.imp (fun _ => trivial) fun ht => hstable.handleWrite (hs ht) outcomes
      · intro _ o t c'' mode hs
        exact Outcome.imp (fun _ => trivial) fun ht => hstable.disableIo c'' mode (hs ht)
    obtain ⟨key, htoken, hget⟩ := Dispatcher.connAt_eq_some.mp hc'
    exact hall key c' hget htoken.symm

/-- A new event at the place where the log ended. -/
theorem step_records (hstep : w.Step l w') (hc : w.dispatcher.connAt token = some c)
    (hc' : w'.dispatcher.connAt token = some c')
    (he : ∀ mode, e ≠ .enabled mode ∧ e ≠ .disabled mode) (hlog : c.log ++ [e] <+: c'.log) :
    ∃ k, w.callOf l = some (token, k) ∧ k.Records e := by
  by_contra hnot
  push Not at hnot
  obtain ⟨events, heq, hmem⟩ := step_log hstep hc hc' he hnot
  rw [heq, List.prefix_append_right_inj] at hlog
  exact hmem (hlog.subset (List.mem_singleton_self e))

end Worker

end Ruduo
