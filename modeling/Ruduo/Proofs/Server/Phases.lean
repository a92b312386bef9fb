import Ruduo.Model.WorkerLoop
import Ruduo.Proofs.Server.Steps

/-!
# `Ruduo.Proofs.Server.Phases`: the loop of a worker drives the worker

`Stepped` lists what a step of the loop does, one constructor for each kind (`step_cases`). It makes
one step of the worker, or none (`step_worker`). So a run of the loop is a run of the worker
(`run_worker`), and what holds of every run of a worker holds here.

The dispatcher holds a notifier of its own loop (`step_notifier`). So the channel is never
disconnected, and nothing else ends the loop (`run_running`).
-/

set_option autoImplicit false

namespace Ruduo

open Lib (Run Slab LawfulSlab)

/-- The notifier of a dispatcher does not change. -/
theorem Worker.step_localNotifier {S : Type → Type} [Slab S] [LawfulSlab S] {M : Type}
    [DecidableEq M] {w w' : Worker S M} {l : WorkerLabel M} (hstep : w.Step l w') :
    w'.dispatcher.localNotifier = w.dispatcher.localNotifier := by
  have hidentity := step_identity (R := fun _ _ _ => True) hstep (fun _ _ _ => trivial) trivial
  rcases hidentity.2 with ⟨-, hkept, -⟩ | ⟨-, -, hmoved⟩
  · exact hkept.localNotifier
  · generalize w'.locked = locked at hmoved
    cases hmoved with
    | dropped hsame => exact hsame.localNotifier
    | added _ _ _ _ hnoti => exact hnoti
    | removed _ _ _ _ hsame => exact hsame.localNotifier

namespace WorkerLoop
variable {S : Type → Type} [Slab S] {M : Type} [DecidableEq M] {s s' : WorkerLoop S M}
  {l : WorkerLoopLabel M} {worker : Worker S M}

/-! ### After a call -/

omit [Slab S] [DecidableEq M] in
/-- After a message the worker is the one that handled it. -/
@[simp] theorem afterMessage_worker : (s.afterMessage worker).worker = worker := by
  unfold afterMessage
  split <;> rfl

omit [Slab S] [DecidableEq M] in
/-- The number stays. -/
@[simp] theorem afterMessage_number : (s.afterMessage worker).number = s.number := by
  unfold afterMessage
  split <;> rfl

omit [Slab S] [DecidableEq M] in
/-- Whether the loop goes on stays. -/
@[simp] theorem afterMessage_running : (s.afterMessage worker).running = s.running := by
  unfold afterMessage
  split <;> rfl

omit [DecidableEq M] in
/-- After a timer the worker is the one that handled it. -/
@[simp] theorem afterTimer_worker (nowTick : Nat) :
    (s.afterTimer nowTick worker).worker = worker := by
  unfold afterTimer
  split <;> rfl

omit [DecidableEq M] in
/-- The number stays. -/
@[simp] theorem afterTimer_number (nowTick : Nat) :
    (s.afterTimer nowTick worker).number = s.number := by
  unfold afterTimer
  split <;> rfl

omit [DecidableEq M] in
/-- Whether the loop goes on stays. -/
@[simp] theorem afterTimer_running (nowTick : Nat) :
    (s.afterTimer nowTick worker).running = s.running := by
  unfold afterTimer
  split <;> rfl

/-! ### One step -/

/-- A call that went through. -/
theorem call_ok {k : WorkerLabel M} {next : Worker S M → WorkerLoop S M}
    (h : s.call k next = some (.ok s')) : ∃ worker, s.worker.Step k worker ∧ s' = next worker := by
  obtain ⟨r, hr, hnext⟩ := Option.map_eq_some_iff.mp h
  cases r with
  | error f => cases hnext
  | ok worker =>
    cases hnext
    exact ⟨worker, hr, rfl⟩

/-- What a step of the loop does. -/
inductive Stepped (s : WorkerLoop S M) : WorkerLoopLabel M → WorkerLoop S M → Prop where
  /-- A notifier is cloned or dropped. -/
  | notifiers (l : WorkerLoopLabel M) (n : Nat) : Stepped s l { s with notifiers := n }
  /-- Another thread enqueues a message. -/
  | enqueue (msg : Message (TcpConnMessage M)) (worker : Worker S M)
    (hworker : s.worker.Step (.enqueue msg) worker) : Stepped s (.enqueue msg) { s with worker }
  /-- The handler call goes on. -/
  | goesOn (l : WorkerLoopLabel M) (k : WorkerLabel M) (worker : Worker S M)
    (hk : k = .flush ∨ k = .lock) (hworker : s.worker.Step k worker) : Stepped s l { s with worker }
  /-- The poll reports these events. -/
  | poll (ready : List IoEvent) (hphase : s.phase = .top) (hreport : s.mayReport ready = true) :
    Stepped s (.poll ready) { s with phase := .events ready, stopped := false }
  /-- `run` returns. -/
  | returns (l : WorkerLoopLabel M) : Stepped s l { s with phase := .returned }
  /-- The event of the waker. -/
  | wake (env : Env M) (e : IoEvent) (left : List IoEvent) (hphase : s.phase = .events (e :: left))
    (hwake : e.token = K_WAKE_TOKEN) : Stepped s (.event env) { s with phase := .events left }
  /-- The event of a connection. -/
  | event (env : Env M) (e : IoEvent) (left : List IoEvent) (worker : Worker S M)
    (hphase : s.phase = .events (e :: left)) (hwake : e.token ≠ K_WAKE_TOKEN)
    (hworker : s.worker.Step (.event e.token e.readable e.writable env) worker) :
    Stepped s (.event env) (s.afterEvent e left worker)
  /-- No event is left. -/
  | endEvents : Stepped s .endEvents { s with phase := .draining }
  /-- The next message is handled. -/
  | receive (env : Env M) (worker : Worker S M) (hphase : s.phase = .draining)
    (hworker : s.worker.Step (.receive env) worker) :
    Stepped s (.receive env) (s.afterMessage worker)
  /-- The queue is empty. Without a notifier this ends the loop. -/
  | endMessages (hphase : s.phase = .draining) (hidle : s.worker.Idle)
    (hqueue : s.worker.queue = []) :
    Stepped s .endMessages { s with phase := .drained, running := s.running && s.connected }
  /-- `process_timers` begins. -/
  | beginTimers (now nowTick : Nat) (hphase : s.phase = .drained) :
    Stepped s (.beginTimers now) { s with phase := .timers nowTick }
  /-- The next pass of `process_timers`. -/
  | timer (env : Env M) (nowTick : Nat) (worker : Worker S M) (hphase : s.phase = .timers nowTick)
    (hworker : s.worker.Step (.timer nowTick env) worker) :
    Stepped s (.timer env) (s.afterTimer nowTick worker)

/-- Every step does one of these things. -/
theorem step_cases (hstep : s.Step l s') : Stepped s l s' := by
  unfold Step exec at hstep
  -- One case for each label. `call_ok` gives the step of the worker that a label stands for.
  cases l with
  | enqueue msg =>
    obtain ⟨-, hcall⟩ := Option.ite_none_right_eq_some.mp hstep
    obtain ⟨worker, hworker, rfl⟩ := call_ok hcall
    exact .enqueue msg worker hworker
  | flush | lock =>
    obtain ⟨worker, hworker, rfl⟩ := call_ok hstep
    exact .goesOn _ _ worker (by simp) hworker
  | event env =>
    dsimp only at hstep
    split at hstep
    · rename_i e left hphase
      -- The waker's own token is consumed in the loop, every other goes to the worker.
      by_cases hwake : e.token = K_WAKE_TOKEN
      · rw [if_pos hwake] at hstep
        obtain ⟨-, hs'⟩ := Option.ite_none_right_eq_some.mp hstep
        cases hs'
        exact .wake env e left hphase hwake
      · rw [if_neg hwake] at hstep
        obtain ⟨worker, hworker, rfl⟩ := call_ok hstep
        exact .event env e left worker hphase hwake hworker
    · cases hstep
  | receive env =>
    obtain ⟨hphase, hcall⟩ := Option.ite_none_right_eq_some.mp hstep
    obtain ⟨worker, hworker, rfl⟩ := call_ok hcall
    exact .receive env worker hphase hworker
  | timer env =>
    dsimp only at hstep
    split at hstep
    · rename_i nowTick hphase
      obtain ⟨worker, hworker, rfl⟩ := call_ok hstep
      exact .timer env nowTick worker hphase hworker
    · cases hstep
  | beginTimers now =>
    obtain ⟨⟨hphase, -⟩, hs'⟩ := Option.ite_none_right_eq_some.mp hstep
    obtain ⟨nowTick, -, hs'⟩ := bind_eq_ok.mp (Option.some.inj hs')
    cases hs'
    exact .beginTimers now nowTick hphase
  | poll ready =>
    obtain ⟨⟨hphase, -, hreport⟩, hs'⟩ := Option.ite_none_right_eq_some.mp hstep
    cases hs'
    exact .poll ready hphase hreport
  | endMessages =>
    obtain ⟨⟨hphase, hidle, hqueue⟩, hs'⟩ := Option.ite_none_right_eq_some.mp hstep
    cases hs'
    exact .endMessages hphase hidle (List.isEmpty_iff.mp hqueue)
  | clone | drop =>
    obtain ⟨-, hs'⟩ := Option.ite_none_right_eq_some.mp hstep
    cases hs'
    exact .notifiers _ _
  | pollError | exit =>
    obtain ⟨-, hs'⟩ := Option.ite_none_right_eq_some.mp hstep
    cases hs'
    exact .returns _
  | endEvents =>
    obtain ⟨-, hs'⟩ := Option.ite_none_right_eq_some.mp hstep
    cases hs'
    exact .endEvents

/-- The worker makes a step, or stays as it is. -/
theorem step_worker (hstep : s.Step l s') :
    s'.worker = s.worker ∨ ∃ k, s.worker.Step k s'.worker := by
  cases step_cases hstep with
  | enqueue _ _ hworker | goesOn _ _ _ _ hworker | event _ _ _ _ _ _ hworker =>
    exact Or.inr ⟨_, hworker⟩
  | receive _ _ _ hworker =>
    rw [afterMessage_worker]
    exact Or.inr ⟨_, hworker⟩
  | timer _ _ _ _ hworker =>
    rw [afterTimer_worker]
    exact Or.inr ⟨_, hworker⟩
  | _ => exact Or.inl rfl

/-- The loop keeps its number, and goes on running as long as there is a notifier. -/
theorem step_running (hstep : s.Step l s') :
    s'.number = s.number ∧ (s.connected = true → s'.running = s.running) := by
  cases step_cases hstep with
  | endMessages =>
    -- `Disconnected` comes only when no notifier is left.
    exact ⟨rfl, fun h => by simp [h]⟩
  | receive => simp
  | timer => simp
  | _ => exact ⟨rfl, fun _ => rfl⟩

/-! ### Runs -/

/-- A run of the loop is a run of its worker. -/
theorem run_worker {ls : List (WorkerLoopLabel M)} (hrun : Run Step s ls s') :
    ∃ ks, Run Worker.Step s.worker ks s'.worker := by
  induction hrun with
  | nil s => exact ⟨[], .nil _⟩
  | cons hstep _ ih =>
    obtain ⟨ks, hrest⟩ := ih
    rcases step_worker hstep with hsame | ⟨k, hk⟩
    · rw [hsame] at hrest
      exact ⟨ks, hrest⟩
    · exact ⟨k :: ks, .cons hk hrest⟩

variable [LawfulSlab S]

/-- The notifier of the dispatcher stays one of its own loop. -/
theorem step_notifier (h : s.worker.dispatcher.localNotifier = s.number) (hstep : s.Step l s') :
    s'.worker.dispatcher.localNotifier = s'.number := by
  rw [(step_running hstep).1]
  rcases step_worker hstep with hsame | ⟨k, hk⟩
  · rw [hsame, h]
  · rw [Worker.step_localNotifier hk, h]

/-- The loop goes on running, whatever the messages are. -/
theorem run_running (cap offset number : Nat) (timer : Timer S M)
    {ls : List (WorkerLoopLabel M)} (hrun : Run Step (start cap offset number timer) ls s) :
    s.running = true := by
  have hinv : s.worker.dispatcher.localNotifier = s.number ∧ s.running = true := by
    refine hrun.invariant (P := fun s => s.worker.dispatcher.localNotifier = s.number ∧
      s.running = true) ?_ ⟨rfl, rfl⟩
    rintro s l s' ⟨hnotifier, hrunning⟩ hstep
    -- The dispatcher holds a notifier of its own loop.
    have hconnected : s.connected = true := by simp [connected, hnotifier]
    refine ⟨step_notifier hnotifier hstep, ?_⟩
    rw [(step_running hstep).2 hconnected, hrunning]
  exact hinv.2

end WorkerLoop

end Ruduo
