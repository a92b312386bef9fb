import Ruduo.Proofs.EventLoop.Latency
import Ruduo.Spec.Accepting
import Mathlib.Data.List.Range
import Mathlib.Data.Nat.Find

/-!
# `Ruduo.Proofs.EventLoop.Accepting`: when the accept loop ends

The loop over `accept` has one exit, `WouldBlock`. Another error enqueues a `Stop` to the loop of
the service itself, which looks at its messages only after the call. So an error that does not go
away keeps the call running for ever, and the `Stop` is never looked at.

* `acceptLoop_blocked`: up to the first `WouldBlock` each stream is announced, and each error
  enqueues a `Stop`.
* `step_heeding`: a `Stop` that waits before the drain is dequeued in it.
* `handleIoEvent_accepts_iff`: the call does what it is for exactly when `accept` returns
  `WouldBlock` at some time.
-/

set_option autoImplicit false

namespace Ruduo

open Lib (Run)
open Traffic (handedOf)

/-! ### A `Stop` that waits -/

namespace EventLoop
variable {P A : Type} {s s' : EventLoop P A} {l : LoopLabel P A} {os : List (Traffic A)}

/-- The events of the current step are still to be handled, or the messages are. -/
def BeforeTimers : LoopPc → Prop
  | .phase (.events _) | .phase .draining | .handling (.events _) _ | .handling .draining _ => True
  | _ => False

/-- After the traffic `os` a `Stop` was dequeued, or one waits and the drain is not over. -/
def Heeding (os : List (Traffic A)) (s : EventLoop P A) : Prop :=
  .stop ∈ handedOf os ∨ .stop ∈ s.queue ∧ BeforeTimers s.pc

variable [DecidableEq P]

/-- The drain ends with a `Stop`, or when no message is left. -/
theorem step_heeding (h : Heeding os s) (hstep : Step s l s') :
    Heeding (os ++ s.traffic l) s' := by
  unfold Heeding
  rw [Traffic.handedOf_append]
  obtain hstop | ⟨hqueue, hpc⟩ := h
  · exact Or.inl (List.mem_append_left _ hstop)
  · cases hstep with
    | enqueue p msg _ => exact Or.inr ⟨List.mem_append_left _ hqueue, hpc⟩
    | handlerEnqueue back msg hback =>
      rw [hback] at hpc
      exact Or.inr ⟨List.mem_append_left _ hqueue, by cases back <;> exact hpc⟩
    | recvStop queue _ heq => exact Or.inl (by simp [traffic, heq, handedOf])
    | recvAny msg queue _ heq =>
      -- The `Stop` is behind the message that was dequeued.
      refine Or.inr ⟨?_, trivial⟩
      rw [heq] at hqueue
      simpa using hqueue
    | recvEmpty _ hempty | recvDisconnected _ hempty =>
      rw [hempty] at hqueue
      cases hqueue
    | event left _ => exact Or.inr ⟨hqueue, trivial⟩
    | endEvents _ => exact Or.inr ⟨hqueue, trivial⟩
    | handlerWake back _ hback | handlerReturn back hback =>
      rw [hback] at hpc
      exact Or.inr ⟨hqueue, by cases back <;> exact hpc⟩
    | wake _ _ | drop _ _ | handlerShutdown _ _ => exact Or.inr ⟨hqueue, hpc⟩
    | test _ hat _ | exit hat _ | pollWoken _ _ hat _ | poll _ _ hat | pollError _ hat
    | timer hat | endTimers hat =>
      -- The drain is over, or has not begun.
      rw [hat] at hpc
      cases hpc

/-- A `Stop` that waits before the end of the drain is heeded. -/
theorem heeds_of_mem (hqueue : .stop ∈ s.queue) (hpc : BeforeTimers s.pc) : s.Heeds := by
  intro ls os t hrun htop
  have hheeding : Heeding os t :=
    hrun.invariant (fun _ _ _ _ h hstep => step_heeding h hstep) (Or.inr ⟨hqueue, hpc⟩)
  obtain hstop | ⟨-, hbefore⟩ := hheeding
  · exact hstop
  · rw [htop] at hbefore
    cases hbefore

/-- In a handler call `deadLetter` is two steps of the loop. -/
theorem deadLetter_run {back : Phase} (hpc : s.pc = .handling back false) :
    Run Step s [.handlerEnqueue .stop, .handlerWake] s.deadLetter := by
  have heq : s.deadLetter = { s.push .stop with waker := true, pc := .handling back false } := by
    rw [← hpc]
    rfl
  rw [heq]
  exact .cons (.handlerEnqueue back .stop hpc) (.cons (.handlerWake back true rfl) (.nil _))

end EventLoop

/-! ### The pool -/

namespace EventLoopThreadPool
variable {M : Type} {p p' p'' : EventLoopThreadPool M} {cb : Closure}
  {streams : List (TcpStream × SocketAddr)}

/-- A pool with loops and a positive size takes the counter modulo the size as an index. -/
theorem nextLoop_eq (hne : p.pool ≠ []) (hpos : 0 < p.size) :
    p.nextLoop = if p.next % p.size < p.pool.length
      then .ok ({ p with next := (p.next + 1) % 2 ^ 64 }, p.next % p.size)
      else .error .outOfRange := by
  have hassert : assertThat (!p.pool.isEmpty) = .ok () := by
    simp [assertThat, hne]
  rw [nextLoop, hassert, ok_bind, if_neg hpos.ne']

/-- A started pool always has a next loop. -/
theorem Started.nextLoop (h : p.Started) :
    p.nextLoop = .ok ({ p with next := (p.next + 1) % 2 ^ 64 }, p.next % p.size) := by
  have hlt : p.next % p.size < p.pool.length := by
    rw [h.length]
    exact Nat.mod_lt _ h.pos
  have hne : p.pool ≠ [] := List.ne_nil_of_length_pos (h.length ▸ h.pos)
  rw [nextLoop_eq hne h.pos, if_pos hlt]

/-- Nothing was accepted, and nothing was sent. -/
theorem announces_refl : p.Announces p cb [] :=
  ⟨[], rfl, by simp, rfl, by simp⟩

/-- One more stream in front: it is announced to the loop `n`. -/
theorem Announces.cons {a : TcpStream × SocketAddr} {n : Nat} (hn : n < p.pool.length)
    (hpool : p'.pool = p.pool.modify n fun msgs => msgs ++ [.established a.1 a.2 cb])
    (h : p'.Announces p'' cb streams) : p.Announces p'' cb (a :: streams) := by
  obtain ⟨loops, hlen, hloops, hsame, hsent⟩ := h
  have hlength : p'.pool.length = p.pool.length := by
    rw [hpool, List.length_modify]
  refine ⟨n :: loops, by simp [hlen], ?_, hsame.trans hlength, fun m hm hm'' => ?_⟩
  · intro m hm
    rcases List.mem_cons.mp hm with rfl | hm
    · exact hn
    · exact hlength ▸ hloops m hm
  · have hm' : m < p'.pool.length := hlength.symm ▸ hm
    have hget : p'.pool[m]
        = if n = m then p.pool[m] ++ [.established a.1 a.2 cb] else p.pool[m] := by
      simp only [hpool, List.getElem_modify]
    rw [hsent m hm' hm'', hget, List.zip_cons_cons]
    by_cases heq : n = m
    · simp [heq]
    · simp [heq]

end EventLoopThreadPool

/-! ### The accept loop -/

namespace TcpServer
variable {P A M : Type} {s s' : TcpServer P A M} {cb : Closure}

/-- When the loop ends, one of the outcomes was `WouldBlock`. -/
theorem blocked_of_acceptLoop {outcomes : List (Except IoError (TcpStream × SocketAddr))}
    (h : acceptLoop cb outcomes s = .ok s') : ∃ e, .error e ∈ outcomes ∧ e.kind = .wouldBlock := by
  induction outcomes generalizing s with
  | nil => cases h
  | cons outcome outcomes ih =>
    cases outcome with
    | ok a =>
      obtain ⟨⟨pool, n⟩, -, hrest⟩ := bind_eq_ok.mp h
      obtain ⟨e, he, hkind⟩ := ih hrest
      exact ⟨e, List.mem_cons_of_mem _ he, hkind⟩
    | error e =>
      rw [acceptLoop] at h
      split at h
      · rename_i hkind
        exact ⟨e, List.mem_cons_self, hkind⟩
      · obtain ⟨e', he', hkind⟩ := ih h
        exact ⟨e', List.mem_cons_of_mem _ he', hkind⟩

variable [DecidableEq P]

/-- The outcomes up to the first `WouldBlock`: the accepted streams are announced, and each error
enqueues a `Stop` and wakes the loop of the service. -/
theorem acceptLoop_blocked {outcomes : List (Except IoError (TcpStream × SocketAddr))}
    {e : IoError} (hblock : e.kind = .wouldBlock)
    (hgoes : ∀ e', .error e' ∈ outcomes → e'.kind ≠ .wouldBlock) (hstarted : s.pool.Started)
    {back : Phase} (hpc : s.loop.pc = .handling back false) :
    ∃ s', acceptLoop cb (outcomes ++ [.error e]) s = .ok s' ∧
      s.pool.Announces s'.pool cb (acceptedStreams outcomes) ∧
      (∃ ls, Run EventLoop.Step s.loop ls s'.loop) ∧ s'.loop.pc = .handling back false ∧
      (.stop ∈ s.loop.queue → .stop ∈ s'.loop.queue) ∧
      ((∃ e', .error e' ∈ outcomes) → .stop ∈ s'.loop.queue) := by
  -- By induction on the outcomes before it.
  induction outcomes generalizing s with
  | nil =>
    refine ⟨s, ?_, EventLoopThreadPool.announces_refl, ⟨[], .nil _⟩, hpc, id, by simp⟩
    rw [List.nil_append, acceptLoop, if_pos hblock]
  | cons outcome outcomes ih =>
    have hgoes' : ∀ e', .error e' ∈ outcomes → e'.kind ≠ .wouldBlock :=
      fun e' he' => hgoes e' (List.mem_cons_of_mem _ he')
    cases outcome with
    | ok a =>
      have hlt : s.pool.next % s.pool.size < s.pool.pool.length := by
        rw [hstarted.length]
        exact Nat.mod_lt _ hstarted.pos
      let pool : EventLoopThreadPool M :=
        EventLoopThreadPool.notify { s.pool with next := (s.pool.next + 1) % 2 ^ 64 }
          (s.pool.next % s.pool.size) (.established a.1 a.2 cb)
      have hstarted' : pool.Started :=
        ⟨hstarted.pos, (List.length_modify ..).trans hstarted.length⟩
      obtain ⟨s', hloop, hann, hrun, hpc', hkeep, hstop⟩ := @ih { s with pool } hgoes' hstarted' hpc
      refine ⟨s', ?_, hann.cons hlt rfl, hrun, hpc', hkeep, ?_⟩
      · rw [List.cons_append, acceptLoop, hstarted.nextLoop, ok_bind]
        exact hloop
      · rintro ⟨e', he'⟩
        exact hstop ⟨e', by simpa using he'⟩
    | error e' =>
      obtain ⟨s', hloop, hann, ⟨ls, hrun⟩, hpc', hkeep, -⟩ :=
        @ih { s with loop := s.loop.deadLetter } hgoes' hstarted hpc
      have hqueue : Message.stop ∈ s.loop.deadLetter.queue :=
        List.mem_append_right _ List.mem_cons_self
      refine ⟨s', ?_, hann, ⟨_, (EventLoop.deadLetter_run hpc).append hrun⟩, hpc',
        fun _ => hkeep hqueue, fun _ => hkeep hqueue⟩
      rw [List.cons_append, acceptLoop, if_neg (hgoes e' List.mem_cons_self)]
      exact hloop

/-- **When the accept loop ends.** In a handler call of a service whose pool has started, for
every endless sequence of outcomes of `accept`: the call returns after finitely many of them,
with each accepted stream announced once to one loop of the pool, and a `Stop` of an accept error
is dequeued afterwards, exactly when one of the outcomes is `WouldBlock`. -/
theorem handleIoEvent_accepts_iff (hstarted : s.pool.Started) {left : Nat}
    (hpc : s.loop.pc = .handling (.events left) false)
    (outcomes : Nat → Except IoError (TcpStream × SocketAddr)) :
    s.Accepts cb outcomes ↔ ∃ n e, outcomes n = .error e ∧ e.kind = .wouldBlock := by
  constructor
  · rintro ⟨k, s', hok, -⟩
    obtain ⟨e, he, hkind⟩ := blocked_of_acceptLoop hok
    obtain ⟨n, -, hn⟩ := List.mem_map.mp he
    exact ⟨n, e, hn, hkind⟩
  · intro hblocks
    classical
    -- The first `WouldBlock` ends the loop.
    obtain ⟨n, ⟨e, hn, hkind⟩, hmin⟩ :
        ∃ n, (∃ e, outcomes n = .error e ∧ e.kind = .wouldBlock) ∧
          ∀ m < n, ¬ ∃ e, outcomes m = .error e ∧ e.kind = .wouldBlock :=
      ⟨Nat.find hblocks, Nat.find_spec hblocks, fun m hm => Nat.find_min hblocks hm⟩
    have hbefore : ∀ e', .error e' ∈ (List.range n).map outcomes → e'.kind ≠ .wouldBlock := by
      intro e' he' hkind'
      obtain ⟨m, hm, he'⟩ := List.mem_map.mp he'
      exact hmin m (List.mem_range.mp hm) ⟨e', he', hkind'⟩
    have hsucc : (List.range (n + 1)).map outcomes = (List.range n).map outcomes ++ [.error e] := by
      rw [List.range_succ, List.map_append, List.map_singleton, hn]
    obtain ⟨s', hloop, hann, hrun, hpc', -, hstop⟩ :=
      @acceptLoop_blocked P A M s cb _ _ e hkind hbefore hstarted _ hpc
    refine ⟨n + 1, s', ?_, ?_, hrun, ?_⟩
    · rw [hsucc]
      exact hloop
    · rw [hsucc, acceptedStreams, List.filterMap_append]
      show s.pool.Announces s'.pool cb (_ ++ [])
      rw [List.append_nil]
      exact hann
    · rintro ⟨m, hm, e', he', hne⟩
      have hlt : m < n := by
        refine Nat.lt_of_le_of_ne (Nat.le_of_lt_succ hm) fun heq => ?_
        rw [heq, hn] at he'
        cases he'
        exact hne hkind
      refine EventLoop.heeds_of_mem (hstop ⟨e', ?_⟩) ?_
      · exact List.mem_map.mpr ⟨m, List.mem_range.mpr hlt, he'⟩
      · rw [hpc']
        trivial

section Example

/-- A service in the handler call for its listener. The pool has two loops. -/
def acceptingServer : TcpServer Bool String String where
  pool := { pool := [[], []], size := 2, next := 0 }
  loop :=
    { pollTimeout := some 10000, queue := [], waker := false, producers := fun _ => .idle
      pc := .handling (.events 0) false, running := true }

/-- Two streams, an aborted connection, and no more. -/
theorem handleIoEvent_accepts_iff_aborted :
    let outcomes : Nat → Except IoError (TcpStream × SocketAddr) := fun n =>
      if n < 2 then .ok (.fresh, n) else if n = 2 then .error { kind := .other, rawOsError := none }
      else .error { kind := .wouldBlock, rawOsError := none }
    acceptingServer.Accepts 0 outcomes ↔ ∃ n e, outcomes n = .error e ∧ e.kind = .wouldBlock :=
  handleIoEvent_accepts_iff ⟨by decide, rfl⟩ rfl _

/-- The process has no file descriptors left, and every `accept` says so: the call never
returns. -/
theorem handleIoEvent_spins_on_accept_error :
    ¬ ∀ outcomes : Nat → Except IoError (TcpStream × SocketAddr),
      (∃ bound, ∀ n a, outcomes n = .ok a → n < bound) → acceptingServer.Accepts 0 outcomes := by
  intro h
  obtain ⟨k, s', hok, -⟩ := h (fun _ => .error { kind := .other, rawOsError := some 24 })
    ⟨0, fun n a ha => by cases ha⟩
  obtain ⟨e, he, hkind⟩ := blocked_of_acceptLoop hok
  obtain ⟨n, -, hn⟩ := List.mem_map.mp he
  cases hn
  cases hkind

end Example

end TcpServer

end Ruduo
