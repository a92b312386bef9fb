import Ruduo.Lib.Trace
import Ruduo.Spec.Traffic
import Mathlib.Data.List.Infix

/-!
# `Ruduo.Proofs.EventLoop.Latency`: how many polls a message waits for

`run_queue` is the FIFO order in terms of what a run shows. `run_polls` counts the polls of a run
that leaves a message in the queue: a drain ends only when the queue is empty or at a `Stop`, so
each round takes one `Stop` away that stands before the message.
-/

set_option autoImplicit false

namespace Ruduo

open Lib (Emits Run)

namespace Traffic
variable {A : Type}

/-- What is enqueued in two parts in sequence. -/
@[simp] theorem sentOf_append (os ps : List (Traffic A)) :
    sentOf (os ++ ps) = sentOf os ++ sentOf ps := List.filterMap_append

/-- What is dequeued in two parts in sequence. -/
@[simp] theorem handedOf_append (os ps : List (Traffic A)) :
    handedOf (os ++ ps) = handedOf os ++ handedOf ps := List.filterMap_append

/-- The polls of two parts in sequence. -/
@[simp] theorem polls_append (os ps : List (Traffic A)) :
    polls (os ++ ps) = polls os + polls ps := List.countP_append

end Traffic

open Traffic (sentOf handedOf polls)

/-- A `Stop` counts. -/
@[simp] theorem stops_cons_stop {A : Type} (msgs : List (Message A)) :
    stops (.stop :: msgs) = stops msgs + 1 := List.countP_cons_of_pos rfl

/-- No other message counts. -/
@[simp] theorem stops_cons_any {A : Type} (msg : A) (msgs : List (Message A)) :
    stops (.any msg :: msgs) = stops msgs := List.countP_cons_of_neg (by simp)

namespace EventLoop
variable {P A : Type} [DecidableEq P] {s s' : EventLoop P A} {l : LoopLabel P A}
  {ls : List (LoopLabel P A)} {os : List (Traffic A)}

/-- A message goes in at the back of the queue, and out at its front. -/
theorem step_queue (hstep : Step s l s') :
    s.queue ++ sentOf (s.traffic l) = handedOf (s.traffic l) ++ s'.queue := by
  cases hstep with
  | recvAny msg queue _ hqueue | recvStop queue _ hqueue =>
    simp [traffic, hqueue, sentOf, handedOf]
  | enqueue | handlerEnqueue => simp [traffic, sentOf, handedOf, push, setProducer]
  | _ => simp [traffic, sentOf, handedOf, setProducer]

/-- What was in the queue, followed by what is enqueued, is what is dequeued, followed by what is
in the queue then. -/
theorem run_queue (hrun : Emits Step traffic s ls os s') :
    s.queue ++ sentOf os = handedOf os ++ s'.queue := by
  refine hrun.invariant (P := fun ps t => s.queue ++ sentOf ps = handedOf ps ++ t.queue) ?_
    (by simp [sentOf, handedOf])
  intro ps t l u h hstep
  rw [Traffic.sentOf_append, ← List.append_assoc, h, List.append_assoc, step_queue hstep,
    Traffic.handedOf_append, List.append_assoc]

/-- 1 when the drain of the current round is over. -/
def late : LoopPc → Nat
  | .top | .polling _ => 1
  | .phase p | .handling p _ => if p = .timers then 1 else 0
  | .stopped => 0

/-- At most one poll is late. -/
theorem late_le (pc : LoopPc) : late pc ≤ 1 := by
  cases pc with
  | phase p | handling p _ =>
    simp only [late]
    split <;> simp
  | _ => simp [late]

/-- What a step does for the message at the place `p` of the queue: it is dequeued, or it stays
behind, and then a poll is paid for. -/
theorem step_polls {p : Nat} (hp : p < s.queue.length) (hstep : Step s l s') :
    p < (handedOf (s.traffic l)).length ∨
      ∃ p', p = (handedOf (s.traffic l)).length + p' ∧ p' < s'.queue.length ∧
        polls (s.traffic l) + stops (s'.queue.take p') + late s'.pc ≤
          stops (s.queue.take p) + late s.pc := by
  cases hstep with
  | recvAny msg queue hpc hqueue | recvStop queue hpc hqueue =>
    -- The message itself is dequeued, or one before it.
    cases p with
    | zero => simp [traffic, hqueue, handedOf]
    | succ p =>
      right
      rw [hqueue] at hp ⊢
      rw [hpc]
      refine ⟨p, by simp [traffic, hqueue, handedOf, Nat.add_comm], Nat.lt_of_succ_lt_succ hp, ?_⟩
      simp [traffic, hqueue, polls, late]
  | enqueue producer msg _ | handlerEnqueue back msg hpc =>
    have hlen : p < (s.queue ++ [msg]).length := by
      rw [List.length_append]
      omega
    right
    refine ⟨p, by simp [traffic, handedOf], hlen, ?_⟩
    have htake : (s.queue ++ [msg]).take p = s.queue.take p :=
      List.take_append_of_le_length (Nat.le_of_lt hp)
    simp [traffic, polls, push, setProducer, late, *]
  | recvEmpty _ hqueue | recvDisconnected _ hqueue =>
    -- The drain does not end while the message waits.
    rw [hqueue] at hp
    cases hp
  | _ =>
    right
    refine ⟨p, by simp [traffic, handedOf], hp, ?_⟩
    simp [traffic, polls, setProducer, late, Nat.add_comm, *]

/-- A message that is still in the queue has waited for one poll for each `Stop` before it, and for
one more when the drain of the first round was over. -/
theorem run_polls (hrun : Emits Step traffic s ls os s') : ∀ {p : Nat}, p < s.queue.length →
    p < (handedOf os).length ∨ polls os ≤ stops (s.queue.take p) + late s.pc := by
  induction hrun with
  | nil => exact fun _ => Or.inr (Nat.zero_le _)
  | @cons s t u l ls os hstep _ ih =>
    intro p hp
    rw [Traffic.handedOf_append, List.length_append, Traffic.polls_append]
    rcases step_polls hp hstep with hdone | ⟨p', rfl, hp', hpaid⟩
    · left
      omega
    · rcases ih hp' with hdone | hrest
      · left
        omega
      · right
        omega

/-- A message with `k` times `Stop` before it has been dequeued when `k + 2` polls have returned. -/
theorem handed_of_polls {p : Nat} (hrun : Emits Step traffic s ls os s')
    (hp : p < s.queue.length) (hpolls : stops (s.queue.take p) + 2 ≤ polls os) :
    s.queue.take (p + 1) <+: handedOf os := by
  have hlate : late s.pc ≤ 1 := late_le s.pc
  have hhanded : p < (handedOf os).length := by
    rcases run_polls hrun hp with hdone | hfew
    · exact hdone
    · omega
  -- Both are prefixes of the queue with what comes later.
  have hqueue := run_queue hrun
  have hprefix : s.queue.take (p + 1) <+: s.queue ++ sentOf os :=
    (List.take_prefix _ _).trans (List.prefix_append _ _)
  refine List.prefix_of_prefix_length_le hprefix ?_ ?_
  · rw [hqueue]
    exact List.prefix_append _ _
  · rw [List.length_take]
    omega

end EventLoop

end Ruduo
