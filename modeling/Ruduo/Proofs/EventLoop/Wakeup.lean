import Ruduo.Proofs.EventLoop.Latency

/-!
# `Ruduo.Proofs.EventLoop.Wakeup`: no wake-up and no message is lost

The emptiness test and the poll are two steps, and so are the enqueue and the wake of a thread.

* `Awake`: when the loop has chosen to block and the queue is not empty any more, a wake is
  pending or a thread has still to wake the loop. The queue was empty at the test, so every
  message in it came after the test, and the wakes pass only through a poll.
* `step_progress`, `run_progress`: each time round the loop dequeues at least one waiting message,
  or all of them.
* `no_lost_wakeup_or_message`: this, and the FIFO order of `run_queue`, over every run. The
  messages sent and handed on are read off the traffic of the run.
-/

set_option autoImplicit false

namespace Ruduo.EventLoop

open Lib (Emits)
open Traffic (sentOf handedOf)

variable {P A : Type} [DecidableEq P] {s s' : EventLoop P A} {l : LoopLabel P A}
  {ls : List (LoopLabel P A)} {os : List (Traffic A)}

/-- When the loop blocks and a message waits, somebody wakes it. -/
def Awake (s : EventLoop P A) : Prop :=
  ∀ timeout, s.pc = .polling timeout → timeout ≠ some 0 → s.queue ≠ [] →
    s.waker = true ∨ ∃ p, s.producers p = .enqueued

/-- The timeout is zero when the queue is not empty at the test. -/
theorem chooseTimeout_of_not_isEmpty {pollTimeout nextTick : Option Nat} {isEmpty : Bool}
    (h : chooseTimeout pollTimeout isEmpty nextTick ≠ some 0) : isEmpty = true := by
  cases isEmpty with
  | true => rfl
  | false => cases nextTick <;> simp [chooseTimeout] at h

/-- Only the loop itself starts to block, and then the queue is empty. While it blocks, a
thread that enqueues has still to wake it. -/
theorem step_awake (h : Awake s) (hstep : Step s l s') : Awake s' := by
  intro timeout hpc htimeout hqueue
  cases hstep with
  | enqueue p msg _ =>
    -- The thread itself has still to wake the loop.
    exact Or.inr ⟨p, Function.update_self ..⟩
  | wake p _ => exact Or.inl rfl
  | drop p hp =>
    -- The thread that leaves is not one that has still to wake the loop.
    refine (h timeout hpc htimeout hqueue).imp_right ?_
    rintro ⟨q, hq⟩
    have hne : q ≠ p := by
      rintro rfl
      rw [hp] at hq
      cases hq
    exact ⟨q, (Function.update_of_ne hne ..).trans hq⟩
  | test nextTick _ _ =>
    -- The loop starts to block only when it finds the queue empty.
    obtain rfl := LoopPc.polling.inj hpc
    have hempty : s.queue.isEmpty = true := chooseTimeout_of_not_isEmpty htimeout
    exact absurd (List.isEmpty_iff.mp hempty) hqueue
  | handlerShutdown back hback =>
    rw [hback] at hpc
    cases hpc
  | _ => cases hpc

/-- The drain of the current round is over. -/
def drained : LoopPc → Nat
  | .phase .timers | .handling .timers _ => 1
  | _ => 0

/-- The rounds of the loop that a run completes. -/
def rounds (ls : List (LoopLabel P A)) : Nat :=
  ls.countP fun l => match l with
    | .endTimers => true
    | _ => false

omit [DecidableEq P] in
/-- Only the end of a round counts. -/
theorem rounds_cons_of_ne (hl : l ≠ .endTimers) (ls : List (LoopLabel P A)) :
    rounds (l :: ls) = rounds ls := by
  refine List.countP_cons_of_neg ?_
  cases l <;> simp at hl ⊢

/-- A step other than the end of a round. When it ends the drain, it has dequeued a message, or none
is left. -/
theorem step_progress (hstep : Step s l s') (hl : l ≠ .endTimers) :
    drained s'.pc ≤ (handedOf (s.traffic l)).length + drained s.pc ∨ s.queue = [] := by
  cases hstep with
  | recvEmpty _ hqueue | recvDisconnected _ hqueue =>
    -- The drain ends on an empty queue.
    exact Or.inr hqueue
  | recvStop queue _ hqueue =>
    -- `Stop` ends the drain early, but was itself dequeued.
    left
    simp [traffic, hqueue, handedOf, drained]
  | endTimers _ => exact absurd rfl hl
  | handlerReturn back hpc | handlerEnqueue back _ hpc | handlerWake back _ hpc =>
    left
    rw [hpc]
    cases back <;> exact Nat.le_add_left _ _
  | timer hpc =>
    left
    rw [hpc]
    exact Nat.le_add_left _ _
  | enqueue | wake | drop | handlerShutdown => exact Or.inl (Nat.le_add_left _ _)
  | _ => exact Or.inl (Nat.zero_le _)

/-- Each completed round dequeues one message, until the first `n` messages of the queue are
dequeued. The round that is going on at the start may have ended its drain already. -/
theorem run_progress (hrun : Emits Step traffic s ls os s') : ∀ {n : Nat}, n ≤ s.queue.length →
    n ≤ (handedOf os).length ∨
      rounds ls + drained s'.pc ≤ (handedOf os).length + drained s.pc := by
  induction hrun with
  | nil => exact fun _ => Or.inr (Nat.le_refl _)
  | @cons s t u l ls os hstep _ ih =>
    intro n hn
    rw [Traffic.handedOf_append, List.length_append]
    -- What the step does not dequeue of the first messages stays in front.
    have hqueue := congrArg List.length (step_queue hstep)
    rw [List.length_append, List.length_append] at hqueue
    have hfront : n - (handedOf (s.traffic l)).length ≤ t.queue.length := by omega
    rcases ih hfront with hall | hrounds
    · left
      omega
    · by_cases hl : l = .endTimers
      · -- The round counts, and the next drain is still to come.
        subst hl
        right
        cases hstep with
        | endTimers hpc =>
          have hround : rounds (LoopLabel.endTimers :: ls) = rounds ls + 1 :=
            List.countP_cons_of_pos rfl
          have htop : rounds ls + drained u.pc ≤ (handedOf os).length + 0 := hrounds
          have hdrained : drained s.pc = 1 := by
            rw [hpc]
            rfl
          omega
      · rw [rounds_cons_of_ne hl]
        rcases step_progress hstep hl with hone | hnone
        · right
          omega
        · -- The queue was empty at the end of the drain.
          left
          rw [hnone] at hn
          exact Nat.le_trans hn (Nat.zero_le _)

/-- **No lost wake-up and no lost message.** In every state that the loop and any number of
threads reach under any interleaving:

* when the loop is blocked in a poll with a timeout other than zero and a message waits, a
  wake-up is pending, or a thread stands between its enqueue and its wake;
* the messages that the threads and the handler calls have sent are those that were handed to the
  handler, followed by the queue, each once and in this order;
* once the loop has gone round once more often than messages wait, every message sent so far
  has been handed on, whether or not a `Stop` ended a drain early. -/
theorem no_lost_wakeup_or_message {s₀ s : EventLoop P A} (h₀ : s₀.Initial)
    (hrun : Emits Step traffic s₀ ls os s) :
    (∀ timeout, s.pc = .polling timeout → timeout ≠ some 0 → s.queue ≠ [] →
      s.waker = true ∨ ∃ p, s.producers p = .enqueued) ∧
    sentOf os = handedOf os ++ s.queue ∧
    ∀ ls' os' s', Emits Step traffic s ls' os' s' → s.queue.length + 1 ≤ rounds ls' →
      sentOf os <+: handedOf (os ++ os') := by
  obtain ⟨hqueue₀, -, -, hpc₀, -⟩ := h₀
  have hawake₀ : Awake s₀ := by
    intro timeout hpc
    rw [hpc₀] at hpc
    cases hpc
  have hawake : Awake s := hrun.run.invariant (fun _ _ _ h hstep => step_awake h hstep) hawake₀
  have hfifo : sentOf os = handedOf os ++ s.queue := by
    have hqueue := run_queue hrun
    rwa [hqueue₀, List.nil_append] at hqueue
  refine ⟨hawake, hfifo, fun ls' os' s' hrun' hrounds => ?_⟩
  rw [hfifo, Traffic.handedOf_append, List.prefix_append_right_inj]
  -- Both are prefixes of the queue with what comes later, so it is enough to count.
  refine List.prefix_of_prefix_length_le (List.prefix_append _ (sentOf os')) ?_ ?_
  · rw [run_queue hrun']
    exact List.prefix_append _ _
  · rcases run_progress hrun' (Nat.le_refl _) with hall | hround
    · exact hall
    · have hdrained : drained s.pc ≤ 1 := by
        unfold drained
        split <;> omega
      omega

section Example

/-- The loop of two threads before its first step. -/
def twoThreads : EventLoop Bool String where
  pollTimeout := some 10000
  queue := []
  waker := false
  producers := fun _ => .idle
  pc := .top
  running := true

/-- A thread enqueues between the test and the poll. -/
theorem no_lost_wakeup_or_message_late_enqueue :
    ∃ s, Emits Step traffic twoThreads [.test none, .enqueue true (.any "hello")]
        [.sent (.any "hello")] s ∧
      (∀ timeout, s.pc = .polling timeout → timeout ≠ some 0 → s.queue ≠ [] →
        s.waker = true ∨ ∃ p, s.producers p = .enqueued) ∧
      [.any "hello"] = [] ++ s.queue ∧
      ∀ ls' os' s', Emits Step traffic s ls' os' s' → s.queue.length + 1 ≤ rounds ls' →
        [.any "hello"] <+: handedOf (.sent (.any "hello") :: os') := by
  have hinit : twoThreads.Initial := ⟨rfl, rfl, fun _ => nofun, rfl, rfl⟩
  have hrun : Emits Step traffic twoThreads [.test none, .enqueue true (.any "hello")]
      [.sent (.any "hello")] _ :=
    .cons (.test none rfl rfl) (.cons (.enqueue true (.any "hello") rfl) (.nil _))
  exact ⟨_, hrun, no_lost_wakeup_or_message hinit hrun⟩

end Example

end Ruduo.EventLoop
