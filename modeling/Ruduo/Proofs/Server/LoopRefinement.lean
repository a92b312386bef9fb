import Ruduo.Proofs.EventLoop.Latency
import Ruduo.Proofs.Server.Phases
import Ruduo.Proofs.Server.Timers

/-!
# `Ruduo.Proofs.Server.LoopRefinement`: the loop of a worker is an event loop

Each step of the loop of a worker is answered by steps of the event loop with the same traffic
(`step_answered`). A handler call of the event loop ends when the next step of the worker needs it
(`settle`). So a whole run is answered (`refines_eventLoop`), and what holds of the traffic of every
event loop holds of the loop of a worker (`handed_in_polls`).
-/

set_option autoImplicit false

namespace Ruduo

open Lib (Emits Run Slab LawfulSlab)
open Traffic (sentOf handedOf polls)

/-- A fresh loop is initial. -/
theorem EventLoop.fresh_initial {A : Type} (pollTimeout : Option Nat) :
    (fresh pollTimeout : EventLoop Unit A).Initial :=
  ⟨rfl, rfl, fun _ => nofun, rfl, rfl⟩

namespace WorkerLoop
variable {S : Type → Type} {M : Type} {s s' : WorkerLoop S M}
  {x y z : EventLoop Unit (TcpConnMessage M)} {pc : LoopPc} {p : Phase}
  {os : List (Traffic (TcpConnMessage M))}

/-! ### Where the event loop stands -/

/-- The loop stays in its phase, and its worker does not become busy. -/
theorem StandsAt.of_same (h : s.StandsAt pc) (hphase : s'.phase = s.phase)
    (hidle : s.worker.Idle → s'.worker.Idle) : s'.StandsAt pc := by
  cases h with
  | phase p hp hs => exact .phase p (hphase ▸ hp) (hidle hs)
  | handling p hp => exact .handling p (hphase ▸ hp)
  | top hp hs => exact .top (hphase.trans hp) (hidle hs)
  | returned hp hs => exact .returned (hphase.trans hp) (hidle hs)

/-- The loop goes to a phase that the event loop does not tell from this one. -/
theorem StandsAt.of_phase (h : s.StandsAt pc) (hp : s.phase.phase? = some p)
    (hp' : s'.phase.phase? = some p) (hidle : s'.worker.Idle) : s'.StandsAt pc := by
  cases h with
  | phase q hq _ =>
    obtain rfl := Option.some.inj (hp.symm.trans hq)
    exact .phase p hp' hidle
  | handling q hq =>
    obtain rfl := Option.some.inj (hp.symm.trans hq)
    exact .handling p hp'
  | top hq _ | returned hq _ =>
    rw [hq] at hp
    cases hp

/-- While the worker is busy, the event loop is in a handler call. -/
theorem StandsAt.of_busy (h : s.StandsAt pc) (hbusy : ¬ s.worker.Idle) :
    ∃ p, s.phase.phase? = some p ∧ pc = .handling p false := by
  cases h with
  | handling p hp => exact ⟨p, hp, rfl⟩
  | phase _ _ hs | top _ hs | returned _ hs => exact absurd hs hbusy

/-- At the top of the loop no handler call is going on. -/
theorem StandsAt.of_top (h : s.StandsAt pc) (hphase : s.phase = .top) :
    pc = .top ∧ s.worker.Idle := by
  cases h with
  | top _ hs => exact ⟨rfl, hs⟩
  | phase p hp _ | handling p hp =>
    rw [hphase] at hp
    cases hp
  | returned hp _ => cases hphase.symm.trans hp

/-- Nothing to answer. -/
theorem Answered.refl (h : s.Matches x) : s.Answered x [] := ⟨[], x, .nil x, h⟩

/-- A step is answered by one step. -/
theorem Answered.one {k : LoopLabel Unit (TcpConnMessage M)} (hstep : EventLoop.Step x k y)
    (hy : s.Matches y) : s.Answered x (x.traffic k) := ⟨[k], y, .single hstep, hy⟩

/-- A step is answered by two steps. -/
theorem Answered.two {k k' : LoopLabel Unit (TcpConnMessage M)} (hstep : EventLoop.Step x k y)
    (hstep' : EventLoop.Step y k' z) (hz : s.Matches z) :
    s.Answered x (x.traffic k ++ y.traffic k') :=
  ⟨_, z, .cons hstep (.single hstep'), hz⟩

/-- The event loop ends its handler call. -/
theorem settle (h : s.Matches x) (hphase : s.phase.phase? = some p) :
    ∃ ms, Emits EventLoop.Step EventLoop.traffic x ms [] { x with pc := .phase p } := by
  have hat := h.pc
  generalize hpc : x.pc = pc at hat
  cases hat with
  | phase q hq _ =>
    obtain rfl := Option.some.inj (hphase.symm.trans hq)
    exact ⟨[], by simpa [← hpc] using Emits.nil x⟩
  | handling q hq =>
    obtain rfl := Option.some.inj (hphase.symm.trans hq)
    exact ⟨_, .single (EventLoop.Step.handlerReturn p hpc)⟩
  | top hq _ | returned hq _ =>
    rw [hq] at hphase
    cases hphase

/-- The event loop ends its handler call, and makes a step. -/
theorem Answered.settled {k : LoopLabel Unit (TcpConnMessage M)} (h : s.Matches x)
    (hphase : s.phase.phase? = some p)
    (hstep : EventLoop.Step { x with pc := .phase p } k y) (hy : s'.Matches y)
    (hos : EventLoop.traffic { x with pc := .phase p } k = os) : s'.Answered x os := by
  obtain ⟨ms, hms⟩ := settle h hphase
  subst hos
  exact ⟨ms ++ [k], y, hms.append (.single hstep), hy⟩

/-! ### One step -/

/-- Only a `Stop` ends the drain. -/
theorem afterMessage_any_phase {worker : Worker S M} {msg : TcpConnMessage M} {target : Option Nat}
    {queue : List (Queued M)} (h : s.worker.queue = { msg := .any msg, target } :: queue) :
    (s.afterMessage worker).phase = s.phase := by
  unfold afterMessage
  split
  · rename_i hstop
    cases hstop.symm.trans h
  · rfl
  · rfl

variable [Slab S] [DecidableEq M] {l : WorkerLoopLabel M}

/-- Another thread enqueues a message, and wakes the loop. -/
private theorem enqueue_answered {msg : Message (TcpConnMessage M)} (h : s.Matches x)
    (hstep : s.Step (.enqueue msg) s') : s'.Answered x (s.traffic (.enqueue msg)) := by
  obtain ⟨-, hcall⟩ := Option.ite_none_right_eq_some.mp hstep
  obtain ⟨worker, hworker, rfl⟩ := call_ok hcall
  cases hworker
  have hwake : ((x.push msg).setProducer () .enqueued).producers () ≠ .gone := by
    simp [EventLoop.setProducer]
  exact .two (.enqueue () msg h.producer) (.wake () hwake) {
    queue := by simp [EventLoop.push, EventLoop.setProducer, Worker.push, h.queue]
    running := h.running
    pc := h.pc.of_same rfl id
    producer := by simp [EventLoop.setProducer] }

/-- The handler call enqueues a message, and wakes its own loop. -/
private theorem flush_answered (h : s.Matches x) (hstep : s.Step .flush s') :
    s'.Answered x (s.traffic .flush) := by
  obtain ⟨worker, hworker, rfl⟩ := call_ok hstep
  unfold Worker.Step Worker.exec at hworker
  dsimp only at hworker
  split at hworker
  · rename_i msg outbox houtbox
    cases hworker
    obtain ⟨p, hp, hpc⟩ := h.pc.of_busy (by simp [Worker.Idle, houtbox])
    have htraffic : s.traffic .flush = [.sent (.any msg)] := by simp [traffic, houtbox]
    rw [htraffic]
    exact .two (.handlerEnqueue p (.any msg) hpc) (.handlerWake p true rfl) {
      queue := by simp [EventLoop.push, Worker.push, h.queue]
      running := h.running
      pc := .handling p hp
      producer := h.producer }
  · cases hworker

/-- The rest of the handler call. -/
private theorem lock_answered (h : s.Matches x) (hstep : s.Step .lock s') :
    s'.Answered x (s.traffic .lock) := by
  obtain ⟨worker, hworker, rfl⟩ := call_ok hstep
  unfold Worker.Step Worker.exec at hworker
  dsimp only at hworker
  split at hworker
  · rename_i houtbox _
    cases hworker
    exact .refl ⟨h.queue, h.running, h.pc.of_same rfl fun hidle => ⟨hidle.1, rfl⟩, h.producer⟩
  · cases hworker

/-- A poll, and the events that it reports. -/
private theorem poll_answered {ready : List IoEvent} (h : s.Matches x)
    (hstep : s.Step (.poll ready) s') : s'.Answered x (s.traffic (.poll ready)) := by
  obtain ⟨⟨hphase, hrunning, -⟩, hs'⟩ := Option.ite_none_right_eq_some.mp hstep
  cases hs'
  obtain ⟨hpc, hidle⟩ := h.pc.of_top hphase
  exact .two (.test none hpc (h.running.trans hrunning)) (.poll _ _ rfl) {
    queue := h.queue
    running := h.running
    pc := .phase _ rfl hidle
    producer := h.producer }

/-- The loop returns. -/
private theorem returns_answered (h : s.Matches x) (hl : l = .pollError ∨ l = .exit)
    (hstep : s.Step l s') : s'.Answered x (s.traffic l) := by
  rcases hl with rfl | rfl
  · obtain ⟨⟨hphase, hrunning⟩, hs'⟩ := Option.ite_none_right_eq_some.mp hstep
    cases hs'
    obtain ⟨hpc, hidle⟩ := h.pc.of_top hphase
    exact .two (.test none hpc (h.running.trans hrunning)) (.pollError _ rfl)
      ⟨h.queue, h.running, .returned rfl hidle, h.producer⟩
  · obtain ⟨⟨hphase, hrunning⟩, hs'⟩ := Option.ite_none_right_eq_some.mp hstep
    cases hs'
    obtain ⟨hpc, hidle⟩ := h.pc.of_top hphase
    have hstopped : x.running = false := by simpa [h.running] using hrunning
    exact .one (.exit hpc hstopped) ⟨h.queue, h.running, .returned rfl hidle, h.producer⟩

/-- An event. That of the waker does nothing. -/
private theorem event_answered {env : Env M} (h : s.Matches x) (hstep : s.Step (.event env) s') :
    s'.Answered x (s.traffic (.event env)) := by
  unfold Step exec at hstep
  dsimp only at hstep
  split at hstep
  · rename_i e left hphase
    by_cases hwake : e.token = K_WAKE_TOKEN
    · rw [if_pos hwake] at hstep
      obtain ⟨hidle, hs'⟩ := Option.ite_none_right_eq_some.mp hstep
      cases hs'
      have hp : s.phase.phase? = (WorkerPhase.events left).phase? := by
        simp [hphase, WorkerPhase.phase?, hwake]
      exact .refl ⟨h.queue, h.running, h.pc.of_phase hp rfl hidle, h.producer⟩
    · rw [if_neg hwake] at hstep
      obtain ⟨worker, hworker, rfl⟩ := call_ok hstep
      have hp : s.phase.phase? =
          some (.events (left.countP (fun e => decide (e.token ≠ K_WAKE_TOKEN)) + 1)) := by
        simp [hphase, WorkerPhase.phase?, hwake]
      obtain ⟨d, sent, -, rfl⟩ := Worker.step_event hworker
      exact .settled h hp (.event _ rfl) ⟨h.queue, h.running, .handling _ rfl, h.producer⟩ rfl
  · cases hstep

/-- The drain begins. -/
private theorem endEvents_answered (h : s.Matches x) (hstep : s.Step .endEvents s') :
    s'.Answered x (s.traffic .endEvents) := by
  obtain ⟨⟨hphase, hidle⟩, hs'⟩ := Option.ite_none_right_eq_some.mp hstep
  cases hs'
  have hp : s.phase.phase? = some (.events 0) := by rw [hphase]; rfl
  exact .settled h hp (.endEvents rfl) ⟨h.queue, h.running, .phase _ rfl hidle, h.producer⟩
    rfl

/-- A message is dequeued. A `Stop` ends the drain. -/
private theorem receive_answered {env : Env M} (h : s.Matches x)
    (hstep : s.Step (.receive env) s') : s'.Answered x (s.traffic (.receive env)) := by
  obtain ⟨hphase, hcall⟩ := Option.ite_none_right_eq_some.mp hstep
  obtain ⟨worker, hworker, rfl⟩ := call_ok hcall
  obtain ⟨⟨msg, target⟩, queue, handled, hqueue, -, rfl⟩ := Worker.step_receive hworker
  have hp : s.phase.phase? = some .draining := by rw [hphase]; rfl
  have hx : x.queue = msg :: queue.map Queued.msg := by rw [h.queue, hqueue, List.map_cons]
  have htraffic : s.traffic (.receive env) = [.handed msg] := by simp [traffic, hqueue]
  rw [htraffic]
  cases msg with
  | stop =>
    refine .settled h hp (.recvStop _ rfl hx) ?_ (by simp [EventLoop.traffic, hx])
    exact {
      queue := by simp [Worker.after]
      running := by simp [h.running]
      pc := .handling .timers (by simp [afterMessage, hqueue, WorkerPhase.phase?])
      producer := h.producer }
  | any msg =>
    refine .settled h hp (.recvAny msg _ rfl hx) ?_ (by simp [EventLoop.traffic, hx])
    exact {
      queue := by simp [Worker.after]
      running := by simp [h.running]
      pc := .handling .draining (by rw [afterMessage_any_phase hqueue, hp])
      producer := h.producer }

/-- The queue is empty. -/
private theorem endMessages_answered (h : s.Matches x) (hstep : s.Step .endMessages s') :
    s'.Answered x (s.traffic .endMessages) := by
  obtain ⟨⟨hphase, hidle, hempty⟩, hs'⟩ := Option.ite_none_right_eq_some.mp hstep
  cases hs'
  have hp : s.phase.phase? = some .draining := by rw [hphase]; rfl
  have hx : x.queue = [] := by rw [h.queue, List.isEmpty_iff.mp hempty, List.map_nil]
  cases hconnected : s.connected with
  | true =>
    refine .settled h hp (.recvEmpty rfl hx)
      ⟨h.queue, ?_, .phase _ rfl hidle, h.producer⟩ rfl
    simp [h.running]
  | false =>
    refine .settled h hp (.recvDisconnected rfl hx)
      ⟨h.queue, ?_, .phase _ rfl hidle, h.producer⟩ rfl
    simp

/-- The time is taken. -/
private theorem beginTimers_answered {now : Nat} (h : s.Matches x)
    (hstep : s.Step (.beginTimers now) s') : s'.Answered x (s.traffic (.beginTimers now)) := by
  obtain ⟨⟨hphase, hidle⟩, hs'⟩ := Option.ite_none_right_eq_some.mp hstep
  obtain ⟨nowTick, -, hs'⟩ := bind_eq_ok.mp (Option.some.inj hs')
  cases hs'
  have hp : s.phase.phase? = some .timers := by rw [hphase]; rfl
  exact .refl ⟨h.queue, h.running, h.pc.of_phase hp rfl hidle, h.producer⟩

/-- A timer runs, or none is due and the round is over. -/
private theorem timer_answered {env : Env M} (h : s.Matches x)
    (hstep : s.Step (.timer env) s') : s'.Answered x (s.traffic (.timer env)) := by
  unfold Step exec at hstep
  dsimp only at hstep
  split at hstep
  · rename_i nowTick hphase
    obtain ⟨worker, hworker, rfl⟩ := call_ok hstep
    obtain ⟨handled, hhandled, rfl⟩ := Worker.step_timer hworker
    have hp : s.phase.phase? = some .timers := by rw [hphase]; rfl
    obtain ⟨⟨timer, r⟩, htick, hhandled⟩ := bind_eq_ok.mp hhandled
    cases r with
    | none =>
      cases hhandled
      exact .settled h hp (.endTimers rfl) {
        queue := by simp [Worker.after, h.queue]
        running := by simp [h.running]
        pc := .top (by simp [afterTimer, htick]) (by simp [Worker.Idle, Worker.after])
        producer := h.producer } rfl
    | some due =>
      exact .settled h hp (.timer rfl) {
        queue := by simp [Worker.after, h.queue]
        running := by simp [h.running]
        pc := .handling .timers (by simpa [afterTimer, htick] using hp)
        producer := h.producer } rfl
  · cases hstep

/-- A notifier more or less is nothing to the event loop. -/
private theorem notifiers_answered (h : s.Matches x) (hl : l = .clone ∨ l = .drop)
    (hstep : s.Step l s') : s'.Answered x (s.traffic l) := by
  rcases hl with rfl | rfl
  · obtain ⟨-, hs'⟩ := Option.ite_none_right_eq_some.mp hstep
    cases hs'
    exact .refl ⟨h.queue, h.running, h.pc.of_same rfl id, h.producer⟩
  · obtain ⟨-, hs'⟩ := Option.ite_none_right_eq_some.mp hstep
    cases hs'
    exact .refl ⟨h.queue, h.running, h.pc.of_same rfl id, h.producer⟩

/-- The event loop answers every step. -/
theorem step_answered (h : s.Matches x) (hstep : s.Step l s') : s'.Answered x (s.traffic l) := by
  cases l with
  | clone => exact notifiers_answered h (Or.inl rfl) hstep
  | drop => exact notifiers_answered h (Or.inr rfl) hstep
  | enqueue msg => exact enqueue_answered h hstep
  | flush => exact flush_answered h hstep
  | lock => exact lock_answered h hstep
  | poll ready => exact poll_answered h hstep
  | pollError => exact returns_answered h (Or.inl rfl) hstep
  | exit => exact returns_answered h (Or.inr rfl) hstep
  | event env => exact event_answered h hstep
  | endEvents => exact endEvents_answered h hstep
  | receive env => exact receive_answered h hstep
  | endMessages => exact endMessages_answered h hstep
  | beginTimers now => exact beginTimers_answered h hstep
  | timer env => exact timer_answered h hstep

/-! ### Runs -/

variable {ls₀ ls : List (WorkerLoopLabel M)}

omit [DecidableEq M] in
/-- At the start the two levels match. -/
theorem start_matches (cap offset number : Nat) (timer : Timer S M) (pollTimeout : Option Nat) :
    (start cap offset number timer).Matches (.fresh pollTimeout) where
  queue := rfl
  running := rfl
  pc := .top rfl ⟨rfl, rfl⟩
  producer := rfl

/-- **The loop of a worker refines the event loop.** Every run of the loop of a worker, with its
dispatcher as the handle, is answered by a run of the event loop from its initial state that shows
the same: the same messages enqueued and dequeued and the same polls, in the same order. At the end
the two have the same messages in the queue, run both or neither, and are in the same phase. -/
theorem refines_eventLoop (cap offset number : Nat) (timer : Timer S M) (pollTimeout : Option Nat)
    (hrun : Emits Step traffic (start cap offset number timer) ls os s) :
    ∃ (x₀ x : EventLoop Unit (TcpConnMessage M)) (ms : List (LoopLabel Unit (TcpConnMessage M))),
      x₀.Initial ∧ x₀.pollTimeout = pollTimeout ∧
      Emits EventLoop.Step EventLoop.traffic x₀ ms os x ∧
      x.queue = s.worker.queue.map Queued.msg ∧ x.running = s.running ∧ s.StandsAt x.pc := by
  obtain ⟨ms, x, hms, h⟩ := hrun.simulate (fun _ _ _ _ h hstep => step_answered h hstep)
    (start_matches cap offset number timer pollTimeout)
  exact ⟨_, x, ms, EventLoop.fresh_initial pollTimeout, rfl, hms, h.queue, h.running, h.pc⟩

/-- **How long a message waits in a worker.** Over any run of the loop of a worker from a reachable
state, the messages come out of the queue in the order in which they went in, whoever enqueued them.
A message that has `k` times `Stop` before it in the queue has been dequeued when `k + 2` polls have
returned, whatever the handlers do and whatever is enqueued in the meantime. -/
theorem handed_in_polls (cap offset number : Nat) (timer : Timer S M)
    (hrun₀ : Run Step (start cap offset number timer) ls₀ s)
    (hrun : Emits Step traffic s ls os s') :
    s.worker.queue.map Queued.msg ++ sentOf os = handedOf os ++ s'.worker.queue.map Queued.msg ∧
    ∀ p < s.worker.queue.length,
      stops ((s.worker.queue.map Queued.msg).take p) + 2 ≤ polls os →
      (s.worker.queue.map Queued.msg).take (p + 1) <+: handedOf os := by
  -- The event loop answers the first run and then the second one.
  obtain ⟨os₀, hrun₀⟩ : ∃ os₀, Emits Step traffic _ ls₀ os₀ s := hrun₀.emits
  obtain ⟨ms₀, x, -, h⟩ := hrun₀.simulate (fun _ _ _ _ h hstep => step_answered h hstep)
    (start_matches cap offset number timer none)
  obtain ⟨ms, y, hms, h'⟩ := hrun.simulate (fun _ _ _ _ h hstep => step_answered h hstep) h
  have hfifo := EventLoop.run_queue hms
  rw [h.queue, h'.queue] at hfifo
  refine ⟨hfifo, fun p hp hpolls => ?_⟩
  rw [← h.queue] at hpolls ⊢
  refine EventLoop.handed_of_polls hms ?_ hpolls
  rw [h.queue, List.length_map]
  exact hp

end WorkerLoop

section Example

/-- A `Stop`, and a message behind it. -/
def stopFirst : List (WorkerLoopLabel String) :=
  [.enqueue .stop, .enqueue (.any (.writeComplete 5))]

/-- Two rounds and a poll. The drain of the first one ends at the `Stop`. -/
def twoRounds : List (WorkerLoopLabel String) :=
  [.poll [], .endEvents, .receive quietEnv, .beginTimers 0, .timer quietEnv,
    .poll [], .endEvents, .receive quietEnv, .endMessages, .beginTimers 0, .timer quietEnv,
    .poll []]

/-- What the two rounds show. -/
def twoRoundsTraffic : List (Traffic (TcpConnMessage String)) :=
  [.polled, .handed .stop, .polled, .handed (.any (.writeComplete 5)), .polled]

set_option maxRecDepth 8000 in
/-- The event loop answers the two messages and the two rounds. -/
theorem refines_eventLoop_two :
    ∃ s : WorkerLoop Lib.FreeListSlab String,
      Emits WorkerLoop.Step WorkerLoop.traffic (WorkerLoop.start 4 0 0 emptyTimer)
        (stopFirst ++ twoRounds)
        ([.sent .stop, .sent (.any (.writeComplete 5))] ++ twoRoundsTraffic) s ∧
      ∃ (x₀ x : EventLoop Unit (TcpConnMessage String)) (ms : List (LoopLabel Unit _)),
        x₀.Initial ∧ x₀.pollTimeout = some 10000 ∧
        Emits EventLoop.Step EventLoop.traffic x₀ ms
          ([.sent .stop, .sent (.any (.writeComplete 5))] ++ twoRoundsTraffic) x ∧
        x.queue = s.worker.queue.map Queued.msg ∧ x.running = s.running ∧ s.StandsAt x.pc := by
  have hrun : Emits WorkerLoop.Step WorkerLoop.traffic
      (WorkerLoop.start 4 0 0 (emptyTimer : Timer Lib.FreeListSlab String)) (stopFirst ++ twoRounds)
      ([.sent .stop, .sent (.any (.writeComplete 5))] ++ twoRoundsTraffic) _ :=
    .cons rfl (.cons rfl (.cons rfl (.cons rfl (.cons rfl (.cons rfl (.cons rfl (.cons rfl
      (.cons rfl (.cons rfl (.cons rfl (.cons rfl (.cons rfl (.cons rfl (.nil _))))))))))))))
  exact ⟨_, hrun, WorkerLoop.refines_eventLoop 4 0 0 emptyTimer (some 10000) hrun⟩

set_option maxRecDepth 8000 in
/-- The message behind the `Stop` has been dequeued. -/
theorem handed_in_polls_behind_stop :
    ∃ s s' : WorkerLoop Lib.FreeListSlab String,
      Emits WorkerLoop.Step WorkerLoop.traffic s twoRounds twoRoundsTraffic s' ∧
      s.worker.queue.map Queued.msg ++ sentOf twoRoundsTraffic =
        handedOf twoRoundsTraffic ++ s'.worker.queue.map Queued.msg ∧
      (s.worker.queue.map Queued.msg).take 2 <+: handedOf twoRoundsTraffic := by
  have hruns : ∃ s s' : WorkerLoop Lib.FreeListSlab String,
      Run WorkerLoop.Step (WorkerLoop.start 4 0 0 emptyTimer) stopFirst s ∧
      Emits WorkerLoop.Step WorkerLoop.traffic s twoRounds twoRoundsTraffic s' ∧
      s.worker.queue.map Queued.msg = [.stop, .any (.writeComplete 5)] :=
    ⟨_, _, .cons rfl (.cons rfl (.nil _)),
      .cons rfl (.cons rfl (.cons rfl (.cons rfl (.cons rfl (.cons rfl (.cons rfl (.cons rfl
        (.cons rfl (.cons rfl (.cons rfl (.cons rfl (.nil _)))))))))))), rfl⟩
  obtain ⟨s, s', hrun₀, hrun, hqueue⟩ := hruns
  obtain ⟨hfifo, hhanded⟩ := WorkerLoop.handed_in_polls 4 0 0 emptyTimer hrun₀ hrun
  have hlength : 1 < s.worker.queue.length := by
    rw [← List.length_map (f := Queued.msg), hqueue]
    decide
  exact ⟨s, s', hrun, hfifo, hhanded 1 hlength (by rw [hqueue]; decide)⟩

end Example

end Ruduo
