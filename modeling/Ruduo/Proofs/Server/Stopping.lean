import Ruduo.Proofs.Server.Phases
import Ruduo.Spec.Stopping

/-!
# `Ruduo.Proofs.Server.Stopping`: `Stop` does not stop a worker

The loop ends when somebody calls `EventLoop::shutdown`. `graceful_shutdown` of a `Dispatcher`
disables the interests of its connections and leaves the loop running, and the other caller, the
exit for a disconnected channel, is never taken. So the step that dequeues `Stop` is followed by
the next one (`polls_again`), whatever is in the queue (`stop_never_stops`).
-/

set_option autoImplicit false

namespace Ruduo.WorkerLoop

open Lib (Run Slab LawfulSlab)

variable {S : Type → Type} [Slab S] [LawfulSlab S] {M : Type} [DecidableEq M]
  {s : WorkerLoop S M} {ls : List (WorkerLoopLabel M)}

/-- The next step polls. -/
theorem polls_again (cap offset number : Nat) (timer : Timer S M)
    (hrun : Run Step (start cap offset number timer) ls s) (hphase : s.phase = .top) :
    s.Step (.poll []) { s with phase := .events [], stopped := false } := by
  have hrunning := run_running cap offset number timer hrun
  have hreport : s.mayReport [] = true := rfl
  rw [Step, exec, if_pos ⟨hphase, hrunning, hreport⟩]

/-- **`Stop` never stops a worker.** Take any run of the loop of a worker with a new dispatcher that
gets to the end of a step which dequeued `Stop`. The loop is not over then. -/
theorem stop_never_stops (cap offset number : Nat) (timer : Timer S M)
    (hrun : Run Step (start cap offset number timer) ls s) (hphase : s.phase = .top)
    (hstopped : s.stopped = true) : ¬ StopContract (start cap offset number timer) ls := by
  intro hcontract
  have hstops : s.Stops := hcontract ls [] s (by simp) hrun hphase hstopped
  exact hstops.rests [] _ (polls_again cap offset number timer hrun hphase)

section Example

/-- A worker with one client, which reads. `Stop` comes next. -/
def stopRun : List (WorkerLoopLabel String) :=
  [.enqueue (.any (.established .fresh 7 0)), .enqueue .stop, .poll [], .endEvents,
    .receive { quietEnv with acts := [.enableIo .READABLE] }, .lock, .receive quietEnv,
    .beginTimers 0, .timer quietEnv]

/-- A step that dequeued `Stop`. -/
theorem stop_never_stops_reader :
    ∃ s : WorkerLoop Lib.FreeListSlab String, Run Step (start 4 0 0 emptyTimer) stopRun s ∧
      s.phase = .top ∧ s.stopped = true ∧ ¬ StopContract (start 4 0 0 emptyTimer) stopRun := by
  have hrun : Run Step (start 4 0 0 (emptyTimer : Timer Lib.FreeListSlab String)) stopRun _ :=
    .cons rfl (.cons rfl (.cons rfl (.cons rfl (.cons rfl (.cons rfl (.cons rfl
      (.cons rfl (.cons rfl (.nil _)))))))))
  exact ⟨_, hrun, rfl, rfl, stop_never_stops 4 0 0 emptyTimer hrun rfl rfl⟩

/-- **The loop runs on.** The worker has dequeued `Stop` and disabled the interests of its client.
It polls again. -/
theorem stop_runs_on : ¬ StopContract
    (start 4 0 0 (emptyTimer : Timer Lib.FreeListSlab String)) stopRun := by
  intro hcontract
  have hrun : Run Step (start 4 0 0 (emptyTimer : Timer Lib.FreeListSlab String)) stopRun _ :=
    .cons rfl (.cons rfl (.cons rfl (.cons rfl (.cons rfl (.cons rfl (.cons rfl
      (.cons rfl (.cons rfl (.nil _)))))))))
  have hstops := hcontract stopRun [] _ (by simp) hrun rfl rfl
  cases hstops.running

end Example

end Ruduo.WorkerLoop
