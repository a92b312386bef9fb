import Ruduo.Proofs.EventLoop.Accepting
import Ruduo.Spec.LoopSelection

/-!
# `Ruduo.Proofs.EventLoop.LoopSelection`: when a pool has a next loop

`next_loop` takes the counter modulo the size that was asked for, and uses it as an index into the
threads that were spawned. A start that fails midway leaves fewer threads than that, and then some
values of the counter are out of range.

* `startLoop_fst`: the threads that were spawned before a failure stay in the pool.
* `Bounded`: the size is a `usize`, and it is not 0 when there are threads. Every call keeps it, so
  `next_loop` never divides by 0.
* `selects_iff_filled`: a pool with threads has a next loop for every value of the counter exactly
  when it has at least as many of them as its size says.
* `selects_iff_fills`: the same for whole runs.
* `started_of_start`, `connects_of_fills`: what this means for the accept loop and for a connector.
-/

set_option autoImplicit false

namespace Ruduo

open Lib (Slab Run Always Each)

/-- The loop of a new thread has no messages. -/
theorem EventLoopThread.spawn_eq_ok {H M : Type} {seq noti : Nat} {f : Nat → Nat → Except Fault H}
    {env : SpawnEnv} {thr : List (TcpConnMessage M)}
    (h : EventLoopThread.spawn seq noti f env = .ok (.ok thr)) : thr = [] := by
  unfold EventLoopThread.spawn at h
  cases heventLoop : env.eventLoop with
  | error e =>
    rw [heventLoop] at h
    cases h
  | ok u =>
    rw [heventLoop] at h
    obtain ⟨handle, -, h⟩ := bind_eq_ok.mp h
    obtain ⟨v, -, h⟩ := bind_eq_ok.mp h
    cases h
    rfl

namespace EventLoopThreadPool
variable {H M : Type} {p p' : EventLoopThreadPool M} {c : PoolCall H} {cs : List (PoolCall H)}
  {f : Nat → Nat → Except Fault H} {envs : Nat → SpawnEnv}

/-! ### What a start leaves -/

/-- The threads that were spawned before a failure stay in the pool. -/
theorem startLoop_fst (is : List Nat) (p : EventLoopThreadPool M) :
    (startLoop f envs is p).1
      = { p with pool := p.pool ++ List.replicate (spawned M f envs is p.pool.length) [] } := by
  induction is generalizing p with
  | nil => simp [startLoop, spawned]
  | cons i is ih =>
    rw [startLoop, spawned]
    cases hspawn : EventLoopThread.spawn (M := M) i p.pool.length f (envs i) with
    | error fault => simp
    | ok r =>
      cases r with
      | error e => simp
      | ok thr =>
        obtain rfl := EventLoopThread.spawn_eq_ok hspawn
        -- The next thread is spawned with one more loop in the pool.
        have hlen : (p.pool ++ [[]]).length = p.pool.length + 1 := by simp
        simp only [ih, hlen, List.append_assoc]
        rfl

/-- A start that succeeds has spawned all threads. -/
theorem spawned_of_ok (is : List Nat) (p : EventLoopThreadPool M)
    (h : (startLoop f envs is p).2 = .ok (.ok ())) :
    spawned M f envs is p.pool.length = is.length := by
  induction is generalizing p with
  | nil => rfl
  | cons i is ih =>
    rw [startLoop] at h
    rw [spawned]
    cases hspawn : EventLoopThread.spawn (M := M) i p.pool.length f (envs i) with
    | error fault =>
      rw [hspawn] at h
      cases h
    | ok r =>
      rw [hspawn] at h
      cases r with
      | error e => cases h
      | ok thr =>
        have hrest := ih _ h
        rw [List.length_append, List.length_singleton] at hrest
        rw [hrest, List.length_cons]

/-- A pool without threads that is started with success has started. -/
theorem started_of_start (hpool : p.pool = []) (hpos : 0 < p.size)
    (h : (p.start f envs).2 = .ok (.ok ())) : (p.start f envs).1.Started := by
  have hall := spawned_of_ok _ p h
  rw [List.length_range] at hall
  rw [start, startLoop_fst, hall]
  exact ⟨hpos, by simp [hpool]⟩

/-! ### The index -/

/-- What holds in every state of a pool. -/
structure Bounded (p : EventLoopThreadPool M) : Prop where
  size : p.size ≤ u64Max
  pos : p.pool ≠ [] → 0 < p.size

/-- The pool has no threads, or as many as its size says. -/
def Filled (p : EventLoopThreadPool M) : Prop := p.pool = [] ∨ p.size ≤ p.pool.length

/-- The remainders of all counters are indices exactly when the size is not too large. -/
private theorem forall_mod_lt_iff {size len : Nat} (hpos : 0 < size) (hsize : size ≤ u64Max) :
    (∀ next ≤ u64Max, next % size < len) ↔ size ≤ len := by
  constructor
  · intro h
    by_contra hlt
    -- The counter `len` is its own remainder.
    have hmod := h len (by omega)
    rw [Nat.mod_eq_of_lt (by omega)] at hmod
    exact Nat.lt_irrefl _ hmod
  · intro hle next _
    exact (Nat.mod_lt next hpos).trans_le hle

/-- The next loop at another value of the counter. -/
theorem nextLoop_at (hne : p.pool ≠ []) (hpos : 0 < p.size) (next : Nat) :
    ({ p with next } : EventLoopThreadPool M).nextLoop = if next % p.size < p.pool.length
      then .ok ({ p with next := (next + 1) % 2 ^ 64 }, next % p.size)
      else .error .outOfRange :=
  nextLoop_eq hne hpos

/-- A pool selects a loop for every value of the counter exactly when it is filled. -/
theorem selects_iff_filled (h : p.Bounded) : p.Selects ↔ p.Filled := by
  by_cases hne : p.pool = []
  · exact iff_of_true (fun hpool => absurd hne hpool) (Or.inl hne)
  · have hpos := h.pos hne
    have hindex : p.Selects ↔ ∀ next ≤ u64Max, next % p.size < p.pool.length := by
      constructor
      · intro hsel next hle
        obtain ⟨p', n, hok, -⟩ := hsel hne next hle
        rw [nextLoop_at hne hpos] at hok
        by_contra hlt
        rw [if_neg hlt] at hok
        cases hok
      · intro hall _ next hle
        have hlt := hall next hle
        exact ⟨_, _, (nextLoop_at hne hpos next).trans (if_pos hlt), hlt, rfl⟩
    rw [hindex, forall_mod_lt_iff hpos h.size, Filled, or_iff_right hne]

/-! ### Runs -/

/-- A new pool has no threads. -/
theorem Fresh.pool (h : p.Fresh) : p.pool = [] ∧ p.size ≤ u64Max := by
  cases h with
  | new hsize h =>
    unfold EventLoopThreadPool.new at h
    split at h
    · cases h
    · cases h
      exact ⟨rfl, hsize⟩
  | default => exact ⟨rfl, Nat.zero_le _⟩

/-- A size is set while there are no threads, and nothing happens otherwise. -/
private theorem after_setPoolSize (p : EventLoopThreadPool M) (size : Nat) :
    p.after (H := H) (.setPoolSize size)
      = if p.pool = [] then { p with size, pool := [] } else p := by
  by_cases hne : p.pool = []
  · simp [after, setPoolSize, assertThat, hne]
  · simp [after, setPoolSize, assertThat, hne]

/-- `next_loop` changes the counter only. -/
private theorem after_nextLoop (p : EventLoopThreadPool M) :
    ∃ next, p.after (H := H) .nextLoop = { p with next } := by
  rw [after]
  split
  · rename_i hok
    obtain ⟨u, -, hrest⟩ := bind_eq_ok.mp hok
    split at hrest
    · cases hrest
    · dsimp only at hrest
      split at hrest
      · exact ⟨_, (Prod.mk.inj (Except.ok.inj hrest)).1.symm⟩
      · cases hrest
  · exact ⟨p.next, rfl⟩
  · exact ⟨_, rfl⟩

/-- Every call keeps the size and the threads within bounds. -/
theorem step_bounded (h : p.Bounded) (hstep : Step p c p') : p'.Bounded := by
  obtain ⟨hc, rfl⟩ := hstep
  cases c with
  | setPoolSize size =>
    rw [after_setPoolSize]
    split
    · exact ⟨hc, fun hne => absurd rfl hne⟩
    · exact h
  | start f envs =>
    rw [after, start, startLoop_fst]
    refine ⟨h.size, fun hne => ?_⟩
    by_contra hzero
    -- With the size 0 there were no threads, and none is spawned.
    have hsize : p.size = 0 := Nat.eq_zero_of_not_pos hzero
    have hpool : p.pool = [] := by
      by_contra hpool
      exact hzero (h.pos hpool)
    exact hne (by simp [hsize, hpool, spawned])
  | nextLoop =>
    obtain ⟨next, hnext⟩ := after_nextLoop (H := H) p
    rw [hnext]
    exact ⟨h.size, h.pos⟩

/-- A call keeps a pool filled exactly when it fills it. -/
theorem step_filled_iff (h : p.Filled) (hstep : Step p c p') : p'.Filled ↔ p.Fills c := by
  obtain ⟨-, rfl⟩ := hstep
  cases c with
  | setPoolSize size =>
    rw [after_setPoolSize]
    refine iff_of_true ?_ trivial
    split
    · exact Or.inl rfl
    · exact h
  | start f envs =>
    rw [after, start, startLoop_fst]
    simp [Filled, Fills]
  | nextLoop =>
    obtain ⟨next, hnext⟩ := after_nextLoop (H := H) p
    rw [hnext]
    exact iff_of_true h trivial

/-- `next_loop` never divides by 0, in any run and for any value of the counter. -/
theorem never_divides_by_zero (hfresh : p.Fresh) (cs : List (PoolCall H)) :
    Always Step (fun p => ∀ next, ({ p with next } : EventLoopThreadPool M).nextLoop
      ≠ .error .arithmetic) p cs := by
  rintro cs₁ cs₂ t - hrun next
  obtain ⟨hpool, hsize⟩ := hfresh.pool
  have ht : t.Bounded := hrun.invariant (fun _ _ _ hs hstep => step_bounded hs hstep)
    ⟨hsize, fun hne => absurd hpool hne⟩
  by_cases hne : t.pool = []
  · -- The assertion fails before the division.
    simp [nextLoop, assertThat, hne]
  · rw [nextLoop_at hne (ht.pos hne)]
    split <;> simp

/-- **When a pool always has a next loop.** In every run of calls on a new pool, in which each
thread of a start may fail: in every state a pool with threads gives one of its loops out, for
every value of the counter, exactly when every start of the run fills the pool. -/
theorem selects_iff_fills (hfresh : p.Fresh) (cs : List (PoolCall H)) :
    Always Step Selects p cs ↔ Each Step (fun p c _ => p.Fills c) p cs := by
  obtain ⟨hpool, hsize⟩ := hfresh.pool
  have hbounded : p.Bounded := ⟨hsize, fun hne => absurd hpool hne⟩
  constructor
  · rintro hselects cs₁ c cs₂ t u hcs hrun hstep
    have ht : t.Bounded := hrun.invariant (fun _ _ _ hs hst => step_bounded hs hst) hbounded
    obtain ⟨hbefore, hafter⟩ := hselects.around cs₁ c cs₂ t u hcs hrun hstep
    exact (step_filled_iff ((selects_iff_filled ht).mp hbefore) hstep).mp
      ((selects_iff_filled (step_bounded ht hstep)).mp hafter)
  · rintro hfills cs₁ cs₂ t hcs hrun
    have halways : Always Step (fun p => p.Bounded ∧ p.Filled) p cs :=
      hfills.always (fun _ _ _ hs hc hst =>
        ⟨step_bounded hs.1 hst, (step_filled_iff hs.2 hst).mpr hc⟩) ⟨hbounded, Or.inl hpool⟩
    obtain ⟨ht, hfilled⟩ := halways cs₁ cs₂ t hcs hrun
    exact (selects_iff_filled ht).mpr hfilled

section Example

/-- A pool of two loops before its start. -/
def twoLoops : EventLoopThreadPool String := { pool := [], size := 2, next := 0 }

/-- The two loops have just been made. -/
theorem fresh_twoLoops : twoLoops.Fresh := .new (show 2 ≤ u64Max by decide) rfl

/-- Every spawn succeeds. -/
def allSpawn (_ : Nat) : SpawnEnv := { eventLoop := .ok (), thread := .ok () }

/-- There are file descriptors for one poll only. -/
def secondFails (i : Nat) : SpawnEnv :=
  { eventLoop := if i = 0 then .ok () else .error { kind := .other, rawOsError := some 24 }
    thread := .ok () }

/-- A start that succeeds, and three calls that go round. -/
theorem selects_iff_fills_round :
    let cs : List (PoolCall Unit) :=
      [.setPoolSize 2, .start (fun _ _ => .ok ()) allSpawn, .nextLoop, .nextLoop, .nextLoop]
    Always Step Selects twoLoops cs ↔ Each Step (fun p c _ => p.Fills c) twoLoops cs :=
  selects_iff_fills fresh_twoLoops _

/-- The second thread cannot be spawned, and `start` returns the error. The second call of
`next_loop` after this has the index 1 in a pool of one loop. -/
theorem nextLoop_out_of_range_after_failed_start :
    (twoLoops.start (fun _ _ => .ok ()) secondFails).2
      = .ok (.error { kind := .other, rawOsError := some 24 }) ∧
    (∃ p, (twoLoops.start (fun _ _ => .ok ()) secondFails).1.nextLoop = .ok (p, 0) ∧
      p.nextLoop = .error .outOfRange) ∧
    ¬ ∀ (p : EventLoopThreadPool String) (cs : List (PoolCall Unit)), p.Fresh →
      Always Step Selects p cs := by
  refine ⟨rfl, ⟨_, rfl, rfl⟩, fun hselects => ?_⟩
  have hsel := hselects twoLoops [.start (fun _ _ => .ok ()) secondFails] fresh_twoLoops _ [] _
    (List.append_nil _).symm (.cons ⟨trivial, rfl⟩ (.nil _))
  obtain ⟨p', n, hok, -⟩ := hsel (by decide) 1 (by decide)
  cases hok

end Example

end EventLoopThreadPool

/-! ### A connector -/

namespace ConnectorService
variable {S : Type → Type} [Slab S] {M : Type} {s s' : ConnectorService M} {c : ConnectorCall}
  {cs : List ConnectorCall} {addr : String} {parsed : Option SocketAddr}
  {stream : Except IoError TcpStream} {f : Closure} {r : Except ConnectError Unit}

/-- What a connector keeps of its pool. -/
def Sound (s : ConnectorService M) : Prop := s.pool.Bounded ∧ s.pool.Filled

/-- Both parts depend on the size and on the number of the threads only. -/
theorem Sound.congr (h : s.Sound) (hsize : s'.pool.size = s.pool.size)
    (hlen : s'.pool.pool.length = s.pool.pool.length) : s'.Sound := by
  have hempty : s'.pool.pool = [] ↔ s.pool.pool = [] := by
    rw [← List.length_eq_zero_iff, hlen, List.length_eq_zero_iff]
  refine ⟨⟨hsize.trans_le h.1.size, fun hne => ?_⟩, h.2.imp hempty.mpr fun hle => ?_⟩
  · rw [hsize]
    exact h.1.pos (mt hempty.mpr hne)
  · rw [hsize, hlen]
    exact hle

/-- A stream that is connected goes to the next loop, and nothing else changes. -/
theorem connect_lengths (h : s.connect addr parsed stream f = .ok (s', r)) :
    s'.pool.size = s.pool.size ∧ s'.pool.pool.length = s.pool.pool.length := by
  unfold connect at h
  split at h
  · cases h
    exact ⟨rfl, rfl⟩
  · split at h
    · cases h
      exact ⟨rfl, rfl⟩
    · obtain ⟨⟨p, n⟩, hnext, h⟩ := bind_eq_ok.mp h
      obtain ⟨next, hp⟩ := EventLoopThreadPool.after_nextLoop (H := Unit) s.pool
      rw [EventLoopThreadPool.after, hnext] at hp
      subst hp
      cases h
      exact ⟨rfl, List.length_modify _ _ _⟩

/-- Every call keeps a connector sound, a start when it fills the pool. -/
theorem step_sound (h : s.Sound) (hc : s.Fills S c) (hstep : s.Step S c s') : s'.Sound := by
  cases c with
  | start envs =>
    subst hstep
    have hpool : EventLoopThreadPool.Step s.pool (.start (s.makeDispatcher S) envs)
        (s.start S envs).1.pool := ⟨trivial, rfl⟩
    exact ⟨EventLoopThreadPool.step_bounded h.1 hpool,
      (EventLoopThreadPool.step_filled_iff h.2 hpool).mpr hc⟩
  | connect addr parsed stream f =>
    obtain ⟨r, hconnect⟩ := hstep
    obtain ⟨hsize, hlen⟩ := connect_lengths hconnect
    exact h.congr hsize hlen

/-- A new connector is sound. -/
theorem sound_new {poolSize maxConnectionsPer : Nat} (hsize : poolSize ≤ u64Max)
    (hnew : new poolSize maxConnectionsPer = .ok s) : s.Sound := by
  obtain ⟨p, hp, hs⟩ := bind_eq_ok.mp hnew
  obtain ⟨hpool, hle⟩ := (EventLoopThreadPool.Fresh.new hsize hp).pool
  cases hs
  exact ⟨⟨hle, fun hne => absurd hpool hne⟩, Or.inl hpool⟩

/-- Whatever the counter is, the next loop of a sound connector is one of its loops. -/
theorem Sound.connects (h : s.Sound) : s.Connects := by
  intro hne addr parsed stream f
  have hpos := h.1.pos hne
  have hlt : s.pool.next % s.pool.size < s.pool.pool.length :=
    (Nat.mod_lt _ hpos).trans_le (h.2.resolve_left hne)
  have hnext := EventLoopThreadPool.nextLoop_eq hne hpos
  rw [if_pos hlt] at hnext
  let p : EventLoopThreadPool M := { s.pool with next := (s.pool.next + 1) % 2 ^ 64 }
  refine ⟨{ s with pool := p.notify (s.pool.next % s.pool.size) (.connecting stream parsed f) },
    s.pool.next % s.pool.size, ?_, hlt, rfl⟩
  simp only [connect, hnext, ok_bind, p]

/-- **A connector finds a loop.** In every run of calls on a new connector whose starts fill its
pool, every stream that is connected goes to one of the loops, once there are any. -/
theorem connects_of_fills {poolSize maxConnectionsPer : Nat} (hsize : poolSize ≤ u64Max)
    (hnew : new poolSize maxConnectionsPer = .ok s)
    (hfills : Each (Step S) (fun s c _ => s.Fills S c) s cs) :
    Always (Step S) Connects s cs := by
  have hsound : Always (Step S) Sound s cs :=
    hfills.always (fun _ _ _ h hc hstep => step_sound h hc hstep) (sound_new hsize hnew)
  intro cs₁ cs₂ t hcs hrun
  exact (hsound cs₁ cs₂ t hcs hrun).connects

end ConnectorService

end Ruduo
