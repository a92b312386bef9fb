import Ruduo.Proofs.Server.Turnover
import Ruduo.Proofs.Server.Phases
import Ruduo.Spec.GracefulShutdown

/-!
# `Ruduo.Proofs.Server.GracefulShutdown`: `graceful_shutdown` from any reachable state

* `step_all`, `run_all`: what all operations keep, and what a new connection satisfies, holds of
  every live connection in every reachable state.
* `deregisterAll_get`: the loop of `graceful_shutdown`, by induction on the keys that are left.
* `gracefulShutdown_disables`: in a reachable state `graceful_shutdown` never panics, and leaves
  every connection `disabled`.
* `heard_after_stop`: for whom a poll may report events after `Stop`.
-/

set_option autoImplicit false

namespace Ruduo

open Lib (Outcome Run Slab LawfulSlab)

variable {S : Type → Type} [Slab S] {M : Type}

/-! ### What holds of every connection -/

namespace Worker
variable [LawfulSlab S] [DecidableEq M] {w w' : Worker S M} {l : WorkerLabel M}
  {P : Token → TcpConnection → Prop}

/-- The rule for a predicate that does not depend on what waits. -/
theorem step_all (hP : ∀ token, Stable (P token) (fun _ => True) (fun _ => True))
    (hborn : ∀ c token registered log,
      Dispatcher.Newborn c w.dispatcher.made token registered log → P token c)
    (hstep : w.Step l w') (h : w.dispatcher.All fun _ token c => P token c) :
    w'.dispatcher.All fun _ token c => P token c := by
  have hcovers : Dispatcher.Covers fun _ => True := fun _ _ => trivial
  by_cases hmoves : w.Moves l
  · obtain ⟨env, msg, target, queue, r, rfl, hqueue, hmsg, hr, rfl⟩ := step_moves hmoves hstep
    exact ((Dispatcher.handleNotify_moves (P := fun _ token c => P token c) hcovers h hmsg
      (Or.inr fun _ => trivial)
      (fun c cb registered _ hc => (hP _).call (s := { conn := c, sent := [] })
        (fun _ _ => trivial) (hborn c _ registered [] hc))
      fun c cb hc => hborn c _ _ _ hc).of_ok hr).1
  · refine ((exec_outcome (P := fun _ token c => P token c) (C := True) hstep hmoves h
      ⟨fun _ => trivial, fun _ => hcovers, ?_⟩ ?_ ?_).of_ok rfl).1
    · rintro token k key c - rfl hget
      exact ((hP _).call (s := { conn := c, sent := [] }) (fun _ _ => trivial) (h key c hget)).mono
        (fun s hs => ⟨hs, trivial⟩) fun _ => id
    · exact fun _ _ token s outcomes hs => (hP token).handleWrite hs outcomes
    · exact fun _ _ token c mode hc => (hP token).disableIo c mode hc

/-- The rule for whole runs of a new worker. -/
theorem run_all {cap offset noti : Nat} {timer : Timer S M} {ls : List (WorkerLabel M)}
    (hP : ∀ token, Stable (P token) (fun _ => True) (fun _ => True))
    (hborn : ∀ c id token registered log, Dispatcher.Newborn c id token registered log → P token c)
    (hrun : Run Step (new cap offset noti timer) ls w) :
    w.dispatcher.All fun _ token c => P token c := by
  refine hrun.invariant (P := fun w => w.dispatcher.All fun _ token c => P token c)
    (fun w l w' h hstep => step_all hP (fun c => hborn c _) hstep h) fun key c hget => ?_
  cases (LawfulSlab.get_withCapacity cap key).symm.trans hget

end Worker

/-! ### `graceful_shutdown` -/

namespace TcpConnection
variable {c c' : TcpConnection}

/-- `disable_io` with what `graceful_shutdown` disables. -/
theorem disableIo_shutdownMode (h : c.disableIo shutdownMode = .ok c') : c' = c.disabled := by
  obtain ⟨interests, registered, rfl, rfl, rfl⟩ := disableIo_ok h
  unfold disabled
  cases c.interests <;> rfl

/-- The poll refuses nothing where every recorded interest is registered. -/
theorem Backed.disableIo (h : c.Backed) (mode : Interest) : ∃ c', c.disableIo mode = .ok c' := by
  unfold Backed at h
  unfold TcpConnection.disableIo record
  cases hi : c.interests with
  | none => exact ⟨_, rfl⟩
  | some i =>
    obtain ⟨r, hr⟩ := Option.isSome_iff_exists.mp (h (by rw [hi]; rfl))
    cases hm : i.remove mode with
    | none => exact ⟨_, by simp only [hm, hr, Registry.deregister, expect, ok_bind]; rfl⟩
    | some y => exact ⟨_, by simp only [hm, hr, Registry.reregister, expect, ok_bind]; rfl⟩

/-- Whatever happens to a connection, its recorded interests are registered. -/
theorem backed_stable : Stable Backed (fun _ => True) (fun _ => True) where
  fault _ _ := trivial
  enableIo c mode _ := by
    refine Outcome.intro (fun c' hc' => ?_) fun _ _ => trivial
    obtain ⟨i, -, rfl⟩ := enableIo_ok hc'
    exact fun _ => rfl
  disableIo c mode h := by
    refine Outcome.intro (fun c' hc' => ?_) fun _ _ => trivial
    obtain ⟨interests, registered, rfl, rfl, rfl⟩ := disableIo_ok hc'
    cases hi : c.interests with
    | none => exact fun h => by simp at h
    | some i => exact fun h => h
  record _ _ _ h := h
  input _ _ h := h
  output _ _ h := h
  accepted _ _ h := h
  shutdowns _ _ h := h

end TcpConnection

namespace Dispatcher
variable [LawfulSlab S] {d d' : Dispatcher S M}

/-- The loop of `graceful_shutdown`: each connection at one of the keys is disabled, once. -/
theorem deregisterAll_get (keys : List Nat) : ∀ {d : Dispatcher S M}, keys.Nodup →
    deregisterAll keys d = .ok d' → ∀ key, Slab.get d'.localConnections key =
      if key ∈ keys then (Slab.get d.localConnections key).map TcpConnection.disabled
      else Slab.get d.localConnections key := by
  induction keys with
  | nil =>
    intro d _ h key
    cases h
    simp
  | cons key₀ keys ih =>
    intro d hnodup h key
    obtain ⟨hmem, hnodup⟩ := List.nodup_cons.mp hnodup
    unfold deregisterAll at h
    cases hget : Slab.get d.localConnections key₀ with
    | none =>
      rw [hget] at h
      rw [ih hnodup h key]
      by_cases hkey : key = key₀
      · subst hkey
        simp [hmem, hget]
      · simp [hkey]
    | some c =>
      rw [hget] at h
      obtain ⟨c', hc', h⟩ := bind_eq_ok.mp h
      obtain rfl := TcpConnection.disableIo_shutdownMode hc'
      rw [ih hnodup h key, Slab.get_set_of_some _ _ _ hget]
      -- The key of this pass does not come again.
      by_cases hkey : key = key₀
      · subst hkey
        simp [hmem, hget]
      · simp [hkey]

/-- What `graceful_shutdown` leaves of the connections. -/
theorem gracefulShutdown_connAt (h : d.gracefulShutdown = .ok d') (token : Token) :
    d'.connAt token = (d.connAt token).map TcpConnection.disabled := by
  obtain ⟨conns, hd'⟩ := gracefulShutdown_eq h
  have hoffset : d'.offset = d.offset := by rw [hd']
  unfold connAt restoreKey
  rw [hoffset]
  cases u64Sub token d.offset with
  | error f => rfl
  | ok key =>
    show Slab.get d'.localConnections key = (Slab.get d.localConnections key).map _
    rw [deregisterAll_get _ (LawfulSlab.nodup_keys _) h key]
    split
    · rfl
    · rename_i hkey
      -- A key that is not listed is vacant.
      rw [LawfulSlab.mem_keys, Option.not_isSome_iff_eq_none] at hkey
      rw [hkey]
      rfl

/-- Where the loop goes through, the poll has refused nothing. -/
theorem deregisterAll_disables (keys : List Nat) : ∀ {d : Dispatcher S M},
    deregisterAll keys d = .ok d' → ∀ {key : Nat} {c : TcpConnection}, key ∈ keys →
      Slab.get d.localConnections key = some c → c.disableIo shutdownMode = .ok c.disabled := by
  induction keys with
  | nil => exact fun _ _ _ hkey => absurd hkey List.not_mem_nil
  | cons key₀ keys ih =>
    intro d h key c hkey hget
    unfold deregisterAll at h
    by_cases heq : key = key₀
    · subst heq
      rw [hget] at h
      obtain ⟨c', hc', -⟩ := bind_eq_ok.mp h
      rw [← TcpConnection.disableIo_shutdownMode hc']
      exact hc'
    · have hmem : key ∈ keys := (List.mem_cons.mp hkey).resolve_left heq
      cases hget₀ : Slab.get d.localConnections key₀ with
      | none =>
        rw [hget₀] at h
        exact ih h hmem hget
      | some c₀ =>
        rw [hget₀] at h
        obtain ⟨c', -, h⟩ := bind_eq_ok.mp h
        refine ih h hmem ?_
        rw [Slab.get_set_of_some _ _ _ hget₀, if_neg heq, hget]

/-- `graceful_shutdown` disables every live connection. -/
theorem gracefulShutdown_disableIo (h : d.gracefulShutdown = .ok d') {token : Token}
    {c : TcpConnection} (hc : d.connAt token = some c) :
    c.disableIo shutdownMode = .ok c.disabled := by
  obtain ⟨key, -, hget⟩ := connAt_eq_some.mp hc
  refine deregisterAll_disables _ h ?_ hget
  rw [LawfulSlab.mem_keys, hget]
  rfl

/-- The loop goes through where every recorded interest is registered. -/
theorem deregisterAll_ok (keys : List Nat) : ∀ {d : Dispatcher S M},
    (d.All fun _ _ c => c.Backed) → ∃ d', deregisterAll keys d = .ok d' := by
  induction keys with
  | nil => exact fun {d} _ => ⟨d, rfl⟩
  | cons key keys ih =>
    intro d h
    unfold deregisterAll
    cases hget : Slab.get d.localConnections key with
    | none => exact ih h
    | some c =>
      obtain ⟨c', hc'⟩ := (h key c hget).disableIo shutdownMode
      have hbacked : c'.Backed :=
        (TcpConnection.backed_stable.disableIo c shutdownMode (h key c hget)).of_ok hc'
      obtain ⟨d', hd'⟩ := ih (h.set hget (fun _ _ => rfl) hbacked)
      refine ⟨d', ?_⟩
      show (c.disableIo shutdownMode >>= _) = _
      rw [hc']
      exact hd'

end Dispatcher

namespace Worker
variable [LawfulSlab S] [DecidableEq M] {w : Worker S M}

/-- **A graceful shutdown always goes through.** In every reachable state of a worker,
`graceful_shutdown` returns, and what it leaves is known for every token: the connection there is
`disabled`. Nothing but the connections changes. -/
theorem gracefulShutdown_disables (cap offset noti : Nat) (timer : Timer S M)
    {ls : List (WorkerLabel M)} (hrun : Run Step (new cap offset noti timer) ls w) :
    ∃ d', w.dispatcher.gracefulShutdown = .ok d' ∧
      (∃ conns, d' = { w.dispatcher with localConnections := conns }) ∧
      ∀ token, d'.connAt token = (w.dispatcher.connAt token).map TcpConnection.disabled := by
  have hbacked : w.dispatcher.All fun _ _ c => c.Backed := by
    refine run_all (fun _ => TcpConnection.backed_stable) ?_ hrun
    intro c id token registered log hc h
    rw [hc.interests] at h
    cases h
  obtain ⟨d', hd'⟩ := Dispatcher.deregisterAll_ok (Slab.keys w.dispatcher.localConnections) hbacked
  exact ⟨d', hd', Dispatcher.gracefulShutdown_eq hd', Dispatcher.gracefulShutdown_connAt hd'⟩

/-! ### After `Stop` -/

/-- What is known of a connection after `graceful_shutdown` of the dispatcher `d`: it is
`StillHeard`, or its stream is not registered and no interest is recorded. -/
def HeardOrDeaf (d : Dispatcher S M) (token : Token) (c : TcpConnection) : Prop :=
  d.made ≤ c.id ∨ ∃ c₀ events, d.connAt token = some c₀ ∧ c₀.id = c.id ∧
    c.log = c₀.log ++ events ∧
    ((∃ mode, .enabled mode ∈ events) ∨ c₀.RegisteredUnrecorded ∨ c₀.WatchesOther ∨
      (c.interests = none ∧ c.io.registered = none))

omit [LawfulSlab S] [DecidableEq M] in
/-- Only `enable_io` registers a stream that is not registered. -/
theorem heardOrDeaf_stable (d : Dispatcher S M) (token : Token) :
    Stable (HeardOrDeaf d token) (fun _ => True) (fun _ => True) where
  fault _ _ := trivial
  enableIo c mode h := by
    refine Outcome.intro (fun c' hc' => ?_) fun _ _ => trivial
    obtain ⟨i, -, rfl⟩ := TcpConnection.enableIo_ok hc'
    refine h.imp id fun ⟨c₀, events, hc₀, hid, hlog, _⟩ => ?_
    exact ⟨c₀, events ++ [.enabled mode], hc₀, hid, by simp [hlog], Or.inl ⟨mode, by simp⟩⟩
  disableIo c mode h := by
    refine Outcome.intro (fun c' hc' => ?_) fun _ _ => trivial
    obtain ⟨interests, registered, rfl, rfl, rfl⟩ := TcpConnection.disableIo_ok hc'
    refine h.imp id fun ⟨c₀, events, hc₀, hid, hlog, hwhy⟩ => ?_
    refine ⟨c₀, events ++ [.disabled mode], hc₀, hid, by simp [hlog], ?_⟩
    rcases hwhy with ⟨mode', hmode'⟩ | hregistered | hother | ⟨hinterests, hio⟩
    · exact Or.inl ⟨mode', List.mem_append_left _ hmode'⟩
    · exact Or.inr (Or.inl hregistered)
    · exact Or.inr (Or.inr (Or.inl hother))
    · refine Or.inr (Or.inr (Or.inr ?_))
      simp [hinterests, hio]
  record c e _ h := by
    refine h.imp id fun ⟨c₀, events, hc₀, hid, hlog, hwhy⟩ => ?_
    refine ⟨c₀, events ++ [e], hc₀, hid, by simp [TcpConnection.record, hlog], ?_⟩
    exact hwhy.imp_left fun ⟨mode, hmode⟩ => ⟨mode, List.mem_append_left _ hmode⟩
  input _ _ h := h
  output _ _ h := h
  accepted _ _ h := h
  shutdowns _ _ h := h

omit [DecidableEq M] in
/-- Right after `graceful_shutdown`. -/
theorem heardOrDeaf_disabled {d d' : Dispatcher S M} (h : d.gracefulShutdown = .ok d') :
    d'.All fun _ token c => HeardOrDeaf d token c := by
  intro key c hget
  have hat := Dispatcher.gracefulShutdown_connAt h (d'.offset + key)
  rw [Dispatcher.connAt_token, hget] at hat
  obtain ⟨c₀, hc₀, rfl⟩ := Option.map_eq_some_iff.mp hat.symm
  refine Or.inr ⟨c₀, [.disabled shutdownMode], hc₀, rfl, rfl, Or.inr ?_⟩
  -- By the recorded interests: none, or some, of which other kinds may be left.
  cases hi : c₀.interests with
  | none =>
    cases hr : c₀.io.registered with
    | none => exact Or.inr (Or.inr ⟨by simp [TcpConnection.disabled, hi],
        by simp [TcpConnection.disabled, hi, hr]⟩)
    | some i => exact Or.inl ⟨hi, by rw [hr]; rfl⟩
  | some i =>
    cases hm : i.remove shutdownMode with
    | none => exact Or.inr (Or.inr ⟨by simp [TcpConnection.disabled, hi, hm],
        by simp [TcpConnection.disabled, hi, hm]⟩)
    | some y => exact Or.inr (Or.inl ⟨i, hi, by rw [hm]; rfl⟩)

/-- A run of the worker after `graceful_shutdown`. -/
theorem run_heardOrDeaf {d : Dispatcher S M} {w' : Worker S M} {ls : List (WorkerLabel M)}
    (hrun : Run Step w ls w') (hmade : d.made ≤ w.dispatcher.made)
    (h : w.dispatcher.All fun _ token c => HeardOrDeaf d token c) :
    w'.dispatcher.All fun _ token c => HeardOrDeaf d token c := by
  refine (hrun.invariant (P := fun w => d.made ≤ w.dispatcher.made ∧
    w.dispatcher.All fun _ token c => HeardOrDeaf d token c) ?_ ⟨hmade, h⟩).2
  rintro w l w' ⟨hmade, h⟩ hstep
  refine ⟨hmade.trans (step_ids hstep).2.1, step_all (heardOrDeaf_stable d) ?_ hstep h⟩
  intro c token registered log hc
  exact Or.inl (hc.id ▸ hmade)

end Worker

namespace WorkerLoop
variable [LawfulSlab S] [DecidableEq M] {s s₁ s₂ s₃ : WorkerLoop S M}

/-- **After `Stop` a worker hears only of a few connections.** Take any run of a worker that
dequeues `Stop`, and any run after it. When a poll then reports an event, and not that of the waker,
its connection is one of these: it was made after `Stop`; or `enable_io` was called on it after
`Stop`; or it was registered with no recorded interest, or with an interest neither in reading nor
in writing, when `Stop` came. -/
theorem heard_after_stop {env : Env M} {target : Option Nat} {queue : List (Queued M)}
    (hqueue : s.worker.queue = { msg := .stop, target } :: queue)
    (hstop : s.Step (.receive env) s₁) {ls : List (WorkerLoopLabel M)}
    (hrun : Run Step s₁ ls s₂) {ready : List IoEvent} (hpoll : s₂.Step (.poll ready) s₃)
    {e : IoEvent} (he : e ∈ ready) (hwake : e.token ≠ K_WAKE_TOKEN) :
    ∃ c, s₂.worker.dispatcher.connAt e.token = some c ∧
      Worker.StillHeard s.worker.dispatcher e.token c := by
  -- The step that dequeues `Stop` runs `graceful_shutdown`.
  have hdown : s.worker.dispatcher.gracefulShutdown = .ok s₁.worker.dispatcher := by
    obtain ⟨-, hcall⟩ := Option.ite_none_right_eq_some.mp hstop
    obtain ⟨worker, hworker, rfl⟩ := call_ok hcall
    obtain ⟨q, queue', h, hqueue', hh, rfl⟩ := Worker.step_receive hworker
    obtain ⟨rfl, rfl⟩ := List.cons.inj (hqueue.symm.trans hqueue')
    obtain ⟨d, hd, hh⟩ := bind_eq_ok.mp hh
    cases hh
    rw [afterMessage_worker]
    exact hd
  obtain ⟨ks, hworker⟩ := run_worker hrun
  have hmade : s.worker.dispatcher.made ≤ s₁.worker.dispatcher.made := by
    obtain ⟨conns, hd⟩ := Dispatcher.gracefulShutdown_eq hdown
    rw [hd]
  have hall := Worker.run_heardOrDeaf hworker hmade (Worker.heardOrDeaf_disabled hdown)
  -- The poll watches the stream of a live connection.
  obtain ⟨⟨-, -, hreport⟩, -⟩ := Option.ite_none_right_eq_some.mp hpoll
  have hevent := List.all_eq_true.mp (Bool.and_eq_true_iff.mp hreport).1 e he
  have hne : (e.token == K_WAKE_TOKEN) = false := by simpa using hwake
  rw [hne, Bool.false_or, Option.any_eq_true] at hevent
  obtain ⟨c, hc, hwatched⟩ := hevent
  refine ⟨c, hc, ?_⟩
  obtain ⟨key, htoken, hget⟩ := Dispatcher.connAt_eq_some.mp hc
  rw [htoken]
  rcases hall key c hget with hnew | ⟨c₀, events, hc₀, hid, hlog, hwhy⟩
  · exact Or.inl hnew
  · refine Or.inr ⟨c₀, hc₀, hid, ?_⟩
    rcases hwhy with ⟨mode, hmode⟩ | hregistered | hother | ⟨-, hio⟩
    · exact Or.inl ⟨events, mode, hlog, hmode⟩
    · exact Or.inr (Or.inl hregistered)
    · exact Or.inr (Or.inr hother)
    · -- A stream that is not registered is not watched.
      unfold TcpStream.watchedFor at hwatched
      rw [hio] at hwatched
      cases hwatched

end WorkerLoop

section Example

/-- The answer of `peer_addr()` on a stream that is still connecting. -/
def notConnected : IoError := { kind := .notConnected, rawOsError := none }

/-- A client that reads, and a stream that is still connecting. -/
def readerAndConnecting : List (WorkerLabel String) :=
  [.enqueue (.any (.established .fresh 7 0)), .enqueue (.any (.connecting .fresh 8 1)),
    .receive { quietEnv with acts := [.enableIo .READABLE] }, .lock,
    .receive { quietEnv with peerAddr := .error notConnected }, .lock]

/-- The two connections at the shutdown. -/
theorem gracefulShutdown_disables_both :
    ∃ w : Worker Lib.FreeListSlab String,
      Run Worker.Step (Worker.new 4 0 0 emptyTimer) readerAndConnecting w ∧
      ∃ d', w.dispatcher.gracefulShutdown = .ok d' ∧
        (∃ conns, d' = { w.dispatcher with localConnections := conns }) ∧
        ∀ token, d'.connAt token = (w.dispatcher.connAt token).map TcpConnection.disabled := by
  have hrun : Run Worker.Step (Worker.new 4 0 0 (emptyTimer : Timer Lib.FreeListSlab String))
      readerAndConnecting _ :=
    .cons rfl (.cons rfl (.cons rfl (.cons rfl (.cons rfl (.cons rfl (.nil _))))))
  exact ⟨_, hrun, Worker.gracefulShutdown_disables 4 0 0 emptyTimer hrun⟩

/-- The same two connections, and then `Stop`. -/
def stoppedConnecting : List (WorkerLoopLabel String) :=
  [.enqueue (.any (.established .fresh 7 0)), .enqueue (.any (.connecting .fresh 8 1)),
    .enqueue .stop, .poll [], .endEvents,
    .receive { quietEnv with acts := [.enableIo .READABLE] }, .lock,
    .receive { quietEnv with peerAddr := .error notConnected }, .lock]

set_option maxRecDepth 8000 in
/-- The poll after `Stop` reports that the other stream has connected. -/
theorem heard_after_stop_connecting :
    ∃ s s₁ s₂ s₃ : WorkerLoop Lib.FreeListSlab String,
      Run WorkerLoop.Step (WorkerLoop.start 4 0 0 emptyTimer) stoppedConnecting s ∧
      s.Step (.receive quietEnv) s₁ ∧
      Run WorkerLoop.Step s₁ [.beginTimers 0, .timer quietEnv] s₂ ∧
      s₂.Step (.poll [{ token := 1, readable := true, writable := false }]) s₃ ∧
      ∃ c, s₂.worker.dispatcher.connAt 1 = some c ∧
        Worker.StillHeard s.worker.dispatcher 1 c := by
  have hsteps : ∃ s s₁ s₂ s₃ : WorkerLoop Lib.FreeListSlab String,
      Run WorkerLoop.Step (WorkerLoop.start 4 0 0 emptyTimer) stoppedConnecting s ∧
      s.worker.queue = [{ msg := .stop, target := none }] ∧ s.Step (.receive quietEnv) s₁ ∧
      Run WorkerLoop.Step s₁ [.beginTimers 0, .timer quietEnv] s₂ ∧
      s₂.Step (.poll [{ token := 1, readable := true, writable := false }]) s₃ :=
    ⟨_, _, _, _, .cons rfl (.cons rfl (.cons rfl (.cons rfl (.cons rfl (.cons rfl (.cons rfl
      (.cons rfl (.cons rfl (.nil _))))))))), rfl, rfl, .cons rfl (.cons rfl (.nil _)), rfl⟩
  obtain ⟨s, s₁, s₂, s₃, hrun, hqueue, hstop, hrun', hpoll⟩ := hsteps
  exact ⟨s, s₁, s₂, s₃, hrun, hstop, hrun', hpoll, WorkerLoop.heard_after_stop hqueue hstop hrun'
    hpoll (List.mem_singleton_self _) (by decide)⟩

end Example

end Ruduo
