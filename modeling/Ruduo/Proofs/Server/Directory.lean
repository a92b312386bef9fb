import Ruduo.Proofs.Server.Placement

/-!
# `Ruduo.Proofs.Server.Directory`: the directory agrees with the slabs

Every entry of the directory follows one connection: the tokens that the directory holds for a
worker are those that `Worker.Listed` describes, before and after every step (`Agreement`,
`step_agreement`).

A handler call leaves the directory alone (`Agreement.update`). The work under the lock changes
one entry of the directory (`Locked.run_lookup`), and brings it up to date for the worker
(`Agreement.lock`).
-/

set_option autoImplicit false

namespace Ruduo

open Lib (Run Slab LawfulSlab)

variable {S : Type → Type} [Slab S] {M : Type}

namespace Pool
variable {poolSize cap : Nat} {p p' : Pool S M poolSize}

/-- The directory holds what it should hold for each worker, and nothing else. -/
structure Agreement (cap : Nat) (p : Pool S M poolSize) : Prop where
  /-- Each worker has its place, so their tokens are apart. -/
  placed : ∀ seq, Worker.Placed cap seq.val (p.workers seq)
  /-- A token is in the directory exactly if a worker lists it. -/
  listed : ∀ token noti, p.shared.getLoopNotifier token = some noti ↔
    ∃ seq, noti = seq.val ∧ (p.workers seq).Listed token

variable [DecidableEq M] {seq : Fin poolSize} {l : WorkerLabel M}

/-- A step of the pool is a step of one worker. -/
theorem step_cases (hstep : p.Step (seq, l) p') :
    ∃ w, (p.workers seq).Step l w ∧ p'.workers = Function.update p.workers seq w ∧
      ((l ≠ .lock ∧ p'.shared = p.shared) ∨
        (l = .lock ∧ ∃ locked, (p.workers seq).locked = some locked ∧
          locked.run p.shared = .ok p'.shared)) := by
  unfold Step exec at hstep
  dsimp only at hstep
  split at hstep
  · cases hstep
  · cases hstep
  · rename_i w hw
    split at hstep
    · rename_i locked hlocked
      obtain ⟨shared, hrun, hp'⟩ := bind_eq_ok.mp (Option.some.inj hstep)
      cases hp'
      exact ⟨w, hw, rfl, Or.inr ⟨rfl, locked, hlocked, hrun⟩⟩
    · rename_i hnot
      cases hstep
      refine ⟨w, hw, rfl, Or.inl ⟨?_, rfl⟩⟩
      rintro rfl
      obtain ⟨locked, hlocked, -⟩ := Worker.step_lock hw
      exact hnot locked rfl hlocked

omit [DecidableEq M] in
/-- `Shared::add_connection` finds the token free. -/
theorem Agreement.not_mem (h : Agreement cap p) {token : Token} {noti : Nat}
    (hadd : (p.workers seq).locked = some (.add token noti)) : token ∉ p.shared.connToLoop := by
  intro hmem
  obtain ⟨noti', hlook⟩ := Option.isSome_iff_exists.mp (AList.lookup_isSome.mpr hmem)
  obtain ⟨seq', -, hlisted⟩ := (h.listed token noti').mp hlook
  have hlive := ((h.placed seq).adding token noti hadd).2
  -- The token would be in the directory for the worker itself.
  obtain rfl : seq' = seq := Fin.ext
    (((h.placed seq').listed_inRange hlisted).unique ((h.placed seq).live_inRange hlive))
  exact ((Worker.listed_of_add hadd).mp hlisted).2 rfl

variable [LawfulSlab S]

omit [LawfulSlab S] [DecidableEq M] in
/-- A worker takes a step that does not concern the directory. -/
theorem Agreement.update (h : Agreement cap p) {w : Worker S M}
    (hworkers : p'.workers = Function.update p.workers seq w) (hshared : p'.shared = p.shared)
    (hplaced : Worker.Placed cap seq.val w)
    (hlisted : ∀ token, w.Listed token ↔ (p.workers seq).Listed token) : Agreement cap p' := by
  have hself : p'.workers seq = w := by rw [hworkers, Function.update_self]
  have hother : ∀ seq', seq' ≠ seq → p'.workers seq' = p.workers seq' := by
    intro seq' hne
    rw [hworkers, Function.update_of_ne hne]
  refine ⟨fun seq' => ?_, fun token noti => ?_⟩
  · by_cases heq : seq' = seq
    · rw [heq, hself]
      exact hplaced
    · rw [hother seq' heq]
      exact h.placed seq'
  · rw [hshared, h.listed]
    refine exists_congr fun seq' => and_congr_right fun _ => ?_
    by_cases heq : seq' = seq
    · rw [heq, hself, hlisted]
    · rw [hother seq' heq]

omit [LawfulSlab S] [DecidableEq M] in
/-- A worker does its work under the lock, which brings the directory up to date for it. -/
theorem Agreement.lock (h : Agreement cap p) {w : Worker S M} {locked : Locked}
    (hworkers : p'.workers = Function.update p.workers seq w)
    (hlocked : (p.workers seq).locked = some locked) (hrun : locked.run p.shared = .ok p'.shared)
    (hd : w.dispatcher = (p.workers seq).dispatcher) (hdone : w.locked = none) :
    Agreement cap p' := by
  have hplaced := h.placed seq
  have hself : p'.workers seq = w := by rw [hworkers, Function.update_self]
  have hother : ∀ seq', seq' ≠ seq → p'.workers seq' = p.workers seq' := by
    intro seq' hne
    rw [hworkers, Function.update_of_ne hne]
  have hlisted : ∀ token, w.Listed token ↔ (p.workers seq).HasToken token := by
    intro token
    rw [Worker.listed_of_none hdone]
    unfold Worker.HasToken
    rw [hd]
  obtain ⟨hentry, hrest⟩ := Locked.run_lookup hrun
  refine ⟨fun seq' => ?_, fun token noti => ?_⟩
  · -- The dispatchers are as they were, and nothing is left to do under the lock.
    by_cases heq : seq' = seq
    · rw [heq, hself]
      exact ⟨hd ▸ hplaced.offset, hd ▸ hplaced.localNotifier, hd ▸ hplaced.capacity,
        hd ▸ hplaced.key_lt, hd ▸ hplaced.token, by simp [hdone], by simp [hdone]⟩
    · rw [hother seq' heq]
      exact h.placed seq'
  · by_cases htoken : token = locked.token
    · -- No other worker lists the token, since it is in the range of this one.
      subst htoken
      rw [hentry, hplaced.locked_entry hlocked]
      constructor
      · rintro ⟨rfl, hlive⟩
        refine ⟨seq, rfl, ?_⟩
        rw [hself, hlisted]
        exact hlive
      · rintro ⟨seq', rfl, hlisted'⟩
        by_cases heq : seq' = seq
        · rw [heq, hself, hlisted] at hlisted'
          exact ⟨congrArg Fin.val heq, hlisted'⟩
        · rw [hother seq' heq] at hlisted'
          have hrange := (h.placed seq').listed_inRange hlisted'
          exact absurd (Fin.ext (hrange.unique (hplaced.locked_inRange hlocked))) heq
    · -- The directory is as it was at every other token.
      rw [hrest token htoken, h.listed]
      refine exists_congr fun seq' => and_congr_right fun _ => ?_
      by_cases heq : seq' = seq
      · rw [heq, hself, hlisted, Worker.listed_of_ne hlocked htoken]
      · rw [hother seq' heq]

/-- Every step keeps the directory in agreement. -/
theorem step_agreement (h : Agreement cap p) (hstep : p.RoomyStep (seq, l) p') :
    Agreement cap p' := by
  obtain ⟨hstep, hroom⟩ := hstep
  obtain ⟨w, hw, hworkers, ⟨hl, hshared⟩ | ⟨rfl, locked, hlocked, hrun⟩⟩ := step_cases hstep
  · obtain ⟨hplaced, hlisted⟩ := Worker.step_placed (h.placed seq) hroom hl hw
    exact h.update hworkers hshared hplaced hlisted
  · obtain ⟨_, -, hd, hdone⟩ := Worker.step_lock hw
    exact h.lock hworkers hlocked hrun hd hdone

omit [DecidableEq M] in
/-- A pool agrees with its directory when it starts. -/
theorem Started.agreement (h : p.Started cap) : Agreement cap p := by
  have hempty : ∀ seq key, Slab.get (p.workers seq).dispatcher.localConnections key = none := by
    intro seq key
    obtain ⟨offset, timer, -, hw⟩ := h.worker seq
    rw [hw]
    exact LawfulSlab.get_withCapacity cap key
  have hidle : ∀ seq, (p.workers seq).locked = none := by
    intro seq
    obtain ⟨offset, timer, -, hw⟩ := h.worker seq
    rw [hw]
    rfl
  refine ⟨fun seq => ?_, fun token noti => ?_⟩
  · obtain ⟨offset, timer, hoffset, hw⟩ := h.worker seq
    refine ⟨?_, by rw [hw]; rfl, ?_, fun key hsome => ?_, fun key c hget => ?_,
      fun _ _ hadd => ?_, fun _ _ hremove => ?_⟩
    · rw [hw]
      exact (u64Mul_eq_ok.mp hoffset).2.symm
    · rw [hw]
      exact LawfulSlab.capacity_withCapacity cap
    · rw [hempty] at hsome
      cases hsome
    · rw [hempty] at hget
      cases hget
    · rw [hidle] at hadd
      cases hadd
    · rw [hidle] at hremove
      cases hremove
  · -- The directory is empty, and so are the slabs.
    rw [h.shared]
    constructor
    · rintro ⟨⟩
    · rintro ⟨seq, -, hlisted⟩
      rw [Worker.listed_of_none (hidle seq)] at hlisted
      obtain ⟨key, -, hsome⟩ := Worker.hasToken_iff.mp hlisted
      rw [hempty] at hsome
      cases hsome

omit [LawfulSlab S] in
/-- `Shared::add_connection` does not panic. -/
theorem Agreement.dispatched_once (h : Agreement cap p) (seq : Fin poolSize) (token : Token) :
    p.exec seq .lock ≠ some (.error (.panicked (.alreadyDispatched token))) := by
  intro hpanic
  unfold exec at hpanic
  cases hexec : (p.workers seq).exec .lock with
  | none =>
    rw [hexec] at hpanic
    cases hpanic
  | some x =>
    obtain ⟨w, rfl, -⟩ := @Worker.exec_passive S _ M _ (p.workers seq) .lock trivial x hexec
    obtain ⟨locked, hlocked, -⟩ := Worker.step_lock hexec
    rw [hexec, hlocked] at hpanic
    dsimp only at hpanic
    have hrun : locked.run p.shared = .error (.panicked (.alreadyDispatched token)) := by
      cases hrun : locked.run p.shared with
      | error f =>
        rw [hrun] at hpanic
        cases hpanic
        rfl
      | ok shared =>
        rw [hrun] at hpanic
        cases hpanic
    -- The panic is raised only for a token that is in the directory.
    cases locked with
    | add added noti =>
      simp only [Locked.run, Shared.addConnection, if_neg (h.not_mem hlocked)] at hrun
      cases hrun
    | remove removed peerAddr => cases peerAddr <;> cases hrun

omit [LawfulSlab S] in
/-- What the agreement says of the directory. -/
theorem Agreement.directory (h : Agreement cap p) : p.DirectoryAgrees cap := by
  -- The directory has the tokens that the workers list, with their notifiers.
  have hduring : ∀ token noti, p.shared.getLoopNotifier token = some noti ↔
      ∃ seq, (p.workers seq).Listed token ∧
        noti = (p.workers seq).dispatcher.localNotifier := by
    intro token noti
    rw [h.listed]
    refine exists_congr fun seq => ?_
    rw [(h.placed seq).localNotifier]
    exact and_comm
  refine ⟨fun houtside token noti => ?_, hduring, fun seq token => (h.placed seq).live_inRange,
    fun seq seq' key key' c c' hget hget' htoken => ?_, fun seq token hpanic => ?_⟩
  · rw [hduring]
    exact exists_congr fun seq => and_congr_left fun _ => Worker.listed_of_none (houtside seq)
  · have hc := (h.placed seq).token key c hget
    have hc' := (h.placed seq').token key' c' hget'
    have hkey := (h.placed seq).key_inRange ((h.placed seq).key_lt key (by rw [hget]; rfl))
    have hkey' := (h.placed seq').key_inRange ((h.placed seq').key_lt key' (by rw [hget']; rfl))
    have heq := hc.symm.trans (htoken.trans hc')
    rw [heq] at hkey
    obtain rfl : seq = seq' := Fin.ext (hkey.unique hkey')
    exact ⟨rfl, Nat.add_left_cancel heq⟩
  · exact h.dispatched_once seq token hpanic

/-- **The directory agrees with the slabs.** Start a server or a connector, and let its workers
take any steps in any order, such that every arriving connection finds the slab of its
dispatcher below capacity. Then the directory agrees with the slabs in every state, and
`restore_key` gives a key for every token that a dispatcher has issued, also after the
connection is gone. -/
theorem directory_agrees {p₀ : Pool S M poolSize} (h₀ : p₀.Started cap)
    {ls : List (Fin poolSize × WorkerLabel M)} (hrun : Run RoomyStep p₀ ls p) :
    p.DirectoryAgrees cap ∧
      ∀ seq token ls' p', (p.workers seq).HasToken token → Run RoomyStep p ls' p' →
        ∃ key, (p'.workers seq).dispatcher.restoreKey token = .ok key ∧ key < cap := by
  have hinv : ∀ {p p' : Pool S M poolSize} {ls}, Agreement cap p → Run RoomyStep p ls p' →
      Agreement cap p' :=
    fun h hrun => hrun.invariant (fun _ _ _ h hstep => step_agreement h hstep) h
  have h := hinv h₀.agreement hrun
  refine ⟨h.directory, fun seq token ls' p' htoken hrun' => ?_⟩
  -- The key of a token is its distance from the offset, which stays the same.
  obtain ⟨key, rfl, hsome⟩ := Worker.hasToken_iff.mp htoken
  have hoffset : (p'.workers seq).dispatcher.offset = (p.workers seq).dispatcher.offset :=
    ((hinv h hrun').placed seq).offset.trans (h.placed seq).offset.symm
  refine ⟨key, ?_, (h.placed seq).key_lt key hsome⟩
  rw [← hoffset]
  exact Dispatcher.restoreKey_token _ key

end Pool

section Example

/-- A server with two workers, for four connections each. -/
def twoWorkers : Pool Lib.FreeListSlab String 2 where
  workers seq := Worker.new 4 (seq.val * 4) seq.val emptyTimer
  shared := Shared.new

/-- A connection arrives at each worker, and the first one is removed again. -/
def twoArrivals : List (Fin 2 × WorkerLabel String) :=
  [(0, .enqueue (.any (.established .fresh 7 0))), (1, .enqueue (.any (.established .fresh 8 0))),
    (0, .receive quietEnv), (1, .receive quietEnv), (1, .lock), (0, .lock),
    (0, .enqueue (.any (.removed 0))), (0, .receive quietEnv), (0, .lock)]

/-- The directory after these steps, and the tokens later on. -/
theorem directory_agrees_two_workers :
    ∃ p, Run Pool.RoomyStep twoWorkers twoArrivals p ∧
      p.DirectoryAgrees 4 ∧
        ∀ seq token ls' p', (p.workers seq).HasToken token → Run Pool.RoomyStep p ls' p' →
          ∃ key, (p'.workers seq).dispatcher.restoreKey token = .ok key ∧ key < 4 := by
  have hstarted : twoWorkers.Started 4 := ⟨rfl, fun seq => ⟨seq.val * 4, emptyTimer, by
    rw [u64Mul_eq_ok]
    exact ⟨by have := seq.isLt; unfold u64Max; omega, rfl⟩, rfl⟩⟩
  have hrun : ∃ p, Run Pool.RoomyStep twoWorkers twoArrivals p := by
    refine ⟨_, .cons ⟨rfl, trivial⟩ (.cons ⟨rfl, trivial⟩ (.cons ⟨rfl, fun _ => ?_⟩
      (.cons ⟨rfl, fun _ => ?_⟩ (.cons ⟨rfl, trivial⟩ (.cons ⟨rfl, trivial⟩ (.cons ⟨rfl, trivial⟩
        (.cons ⟨rfl, nofun⟩ (.cons ⟨rfl, trivial⟩ (.nil _)))))))))⟩
    all_goals decide
  obtain ⟨p, hrun⟩ := hrun
  exact ⟨p, hrun, Pool.directory_agrees hstarted hrun⟩

end Example

end Ruduo
