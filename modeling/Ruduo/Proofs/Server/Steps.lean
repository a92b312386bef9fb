import Ruduo.Proofs.Server.Messages

/-!
# `Ruduo.Proofs.Server.Steps`: what a step of a worker can do to the connections

A step enqueues, takes the lock, or makes one handler call.

* `step_event`, `step_receive`, `step_timer`, `step_moves`: which handler a step has run.
* `CallSource`: where the call of a step comes from.
* `exec_outcome`, `step_identity`: one rule for all steps, from the rules of the handlers.
-/

set_option autoImplicit false

namespace Ruduo

open Lib (Outcome Slab LawfulSlab)

namespace Worker
variable {S : Type → Type} [Slab S] [LawfulSlab S] {M : Type} [DecidableEq M]
variable {w w' : Worker S M} {l : WorkerLabel M}

omit [Slab S] [LawfulSlab S] [DecidableEq M] in
/-- The step handles a message that adds or removes a connection. -/
def Moves (w : Worker S M) : WorkerLabel M → Prop
  | .receive _ =>
    match w.queue with
    | { msg := .any (.established ..), .. } :: _ | { msg := .any (.connecting ..), .. } :: _
    | { msg := .any (.removed _), .. } :: _ => True
    | _ => False
  | _ => False

/-- The steps that are not handler calls. -/
def Passive : WorkerLabel M → Prop
  | .enqueue _ | .flush | .lock => True
  | _ => False

omit [LawfulSlab S] in
/-- They leave the dispatcher and the timer alone. -/
theorem exec_passive (hl : Passive l) {x : Except Fault (Worker S M)} (hx : w.exec l = some x) :
    ∃ w', x = .ok w' ∧ w'.dispatcher = w.dispatcher ∧ w'.timer = w.timer ∧
      (w.locked = none → w'.locked = none) := by
  cases l with
  | enqueue msg =>
    cases hx
    exact ⟨_, rfl, rfl, rfl, id⟩
  | flush =>
    unfold exec at hx
    dsimp only at hx
    split at hx
    · cases hx
      exact ⟨_, rfl, rfl, rfl, id⟩
    · cases hx
  | lock =>
    unfold exec at hx
    dsimp only at hx
    split at hx
    · cases hx
      exact ⟨_, rfl, rfl, rfl, fun _ => rfl⟩
    · cases hx
  | _ => exact hl.elim

omit [LawfulSlab S] in
/-- A handler call begins when no other is going on. -/
theorem idle_of_exec (hl : ¬ Passive l) {x : Except Fault (Worker S M)}
    (hx : w.exec l = some x) : w.Idle := by
  cases l with
  | event token readable writable env | receive env | timer nowTick env =>
    by_contra hidle
    rw [exec, if_neg hidle] at hx
    cases hx
  | _ => exact absurd trivial hl

omit [LawfulSlab S] in
/-- A label leads from a state to one state at most. -/
theorem step_deterministic (s : Worker S M) (l : WorkerLabel M) (t u : Worker S M)
    (ht : s.Step l t) (hu : s.Step l u) : t = u :=
  Except.ok.inj (Option.some.inj (ht.symm.trans hu))

omit [LawfulSlab S] in
/-- An event that was handled. -/
theorem step_event {token : Token} {readable writable : Bool} {env : Env M}
    (hstep : w.Step (.event token readable writable env) w') : ∃ d sent,
      w.dispatcher.handleIoEvent token readable writable env = .ok (d, sent) ∧
      w' = w.after { dispatcher := d, timer := w.timer, sent, locked := none } := by
  have hidle := idle_of_exec id hstep
  rw [Step, exec, if_pos hidle] at hstep
  obtain ⟨⟨d, sent⟩, hd, hw'⟩ := bind_eq_ok.mp (Option.some.inj hstep)
  cases hw'
  exact ⟨d, sent, hd, rfl⟩

omit [LawfulSlab S] in
/-- A message that was dequeued and handled. -/
theorem step_receive {env : Env M} (hstep : w.Step (.receive env) w') : ∃ q queue h,
    w.queue = q :: queue ∧ w.dispatcher.handleMessage w.timer q.msg env = .ok h ∧
      w' = { w with queue }.after h := by
  have hidle := idle_of_exec id hstep
  rw [Step, exec, if_pos hidle] at hstep
  split at hstep
  · rename_i q queue hqueue
    obtain ⟨h, hh, hw'⟩ := bind_eq_ok.mp (Option.some.inj hstep)
    cases hw'
    exact ⟨q, queue, h, hqueue, hh, rfl⟩
  · cases hstep

omit [LawfulSlab S] in
/-- A pass of `process_timers` that went through. -/
theorem step_timer {nowTick : Nat} {env : Env M} (hstep : w.Step (.timer nowTick env) w') :
    ∃ h, w.dispatcher.processTimer w.timer nowTick env = .ok h ∧ w' = w.after h := by
  have hidle := idle_of_exec id hstep
  rw [Step, exec, if_pos hidle] at hstep
  obtain ⟨h, hh, hw'⟩ := bind_eq_ok.mp (Option.some.inj hstep)
  cases hw'
  exact ⟨h, hh, rfl⟩

omit [LawfulSlab S] in
/-- A step that adds or removes a connection handles the first message of the queue. -/
theorem exec_moves (hmoves : w.Moves l) {x : Except Fault (Worker S M)}
    (hx : w.exec l = some x) : ∃ env msg target queue, l = .receive env ∧
      w.queue = { msg := .any msg, target } :: queue ∧ Dispatcher.MovesConnection msg ∧
      x = (w.dispatcher.handleNotify w.timer msg env >>=
        fun h => .ok ({ w with queue }.after h)) := by
  cases l with
  | receive env =>
    have hidle := idle_of_exec id hx
    rw [exec, if_pos hidle] at hx
    unfold Moves at hmoves
    cases hqueue : w.queue with
    | nil =>
      rw [hqueue] at hmoves
      exact hmoves.elim
    | cons q queue =>
      obtain ⟨msg, target⟩ := q
      rw [hqueue] at hx hmoves
      cases msg with
      | stop => exact hmoves.elim
      | any msg =>
        cases hx
        refine ⟨env, msg, target, queue, rfl, rfl, ?_, rfl⟩
        cases msg <;> first | exact hmoves.elim | exact trivial
  | _ => exact hmoves.elim

omit [LawfulSlab S] in
/-- Such a step that went through. -/
theorem step_moves (hmoves : w.Moves l) (hstep : w.Step l w') :
    ∃ env msg target queue h, l = .receive env ∧ w.queue = { msg := .any msg, target } :: queue ∧
      Dispatcher.MovesConnection msg ∧ w.dispatcher.handleNotify w.timer msg env = .ok h ∧
      w' = { w with queue }.after h := by
  obtain ⟨env, msg, target, queue, rfl, hqueue, hmsg, hx⟩ := exec_moves hmoves hstep
  obtain ⟨h, hh, hw'⟩ := bind_eq_ok.mp hx.symm
  cases hw'
  exact ⟨env, msg, target, queue, h, rfl, hqueue, hmsg, hh, rfl⟩

omit [LawfulSlab S] in
/-- Such a message asks for no call on a live connection. -/
theorem callOf_moves (hmoves : w.Moves l) : w.callOf l = none := by
  unfold callOf
  split
  · cases l with
    | receive env =>
      unfold Moves at hmoves
      dsimp only
      cases hqueue : w.queue with
      | nil => rfl
      | cons q queue =>
        obtain ⟨msg, target⟩ := q
        rw [hqueue] at hmoves
        cases msg with
        | stop => rfl
        | any msg => cases msg <;> first | exact hmoves.elim | rfl
    | _ => exact hmoves.elim
  · rfl

/-- Where the call of a step comes from. -/
inductive CallSource (w : Worker S M) (token : Token) (k : ConnCall M) : WorkerLabel M → Prop where
  /-- The connection is readable. -/
  | event (writable : Bool) (env : Env M)
    (hcall : w.dispatcher.readableCall token env = some k) :
    CallSource w token k (.event token true writable env)
  /-- A message to the connection was dequeued. -/
  | receive (env : Env M) (msg : TcpConnMessage M) (target : Option Nat) (queue : List (Queued M))
    (hqueue : w.queue = { msg := .any msg, target } :: queue)
    (hcall : msg.call env = some (token, k)) : CallSource w token k (.receive env)
  /-- A timer of the connection is due. -/
  | timer (nowTick : Nat) (env : Env M)
    (hcall : w.dispatcher.timerCall w.timer nowTick env = some (token, k)) :
    CallSource w token k (.timer nowTick env)

omit [LawfulSlab S] in
/-- A call in a step has a source, and the worker is between two handler calls before. -/
theorem callOf_source {token : Token} {k : ConnCall M} (h : w.callOf l = some (token, k)) :
    w.Idle ∧ w.CallSource token k l := by
  unfold callOf at h
  split at h
  · rename_i hidle
    refine ⟨hidle, ?_⟩
    split at h
    · rename_i writable env
      obtain ⟨k', hk', heq⟩ := Option.map_eq_some_iff.mp h
      obtain ⟨rfl, rfl⟩ := Prod.mk.inj heq
      exact .event writable env hk'
    · split at h
      · rename_i msg target queue hqueue
        exact .receive _ msg target queue hqueue h
      · cases h
    · exact .timer _ _ h
    · cases h
  · cases h

/-- What every step does that neither adds nor removes a connection. `C` is what the
postcondition of the call says besides `P`. -/
theorem exec_outcome {P : Option Closure → Token → TcpConnection → Prop} {E : Fault → Prop}
    {C : Prop} {x : Except Fault (Worker S M)} (hx : w.exec l = some x) (hmoves : ¬ w.Moves l)
    (h : w.dispatcher.All P)
    (hrule : Dispatcher.CallRule P E C w.dispatcher (w.callOf l))
    (hwrite : C → ∀ o token (s : Session M) outcomes, P o token s.conn →
      Outcome (s.handleWrite outcomes) (fun s => P o token s.conn) E)
    (hdisable : C → ∀ o token c mode, P o token c → Outcome (c.disableIo mode) (P o token) E) :
    Outcome x (fun w' => w'.dispatcher.All P ∧ Dispatcher.Kept w.dispatcher w'.dispatcher ∧ C ∧
      (w.locked = none → w'.locked = none)) E := by
  by_cases hl : Passive l
  · -- No handler runs.
    obtain ⟨w', rfl, hd, -, hlocked⟩ := exec_passive hl hx
    have hnone : w.callOf l = none := by
      unfold callOf
      cases l <;> first | exact hl.elim | simp
    rw [hnone] at hrule
    show w'.dispatcher.All P ∧ Dispatcher.Kept w.dispatcher w'.dispatcher ∧ C ∧ _
    rw [hd]
    exact ⟨h, Dispatcher.Kept.refl w.dispatcher, hrule.of_none, hlocked⟩
  · have hidle := idle_of_exec hl hx
    unfold callOf at hrule
    rw [if_pos hidle] at hrule
    cases l with
    | event token readable writable env =>
      rw [exec, if_pos hidle] at hx
      cases hx
      have hrule' : Dispatcher.CallRule P E C w.dispatcher (if readable then
          (w.dispatcher.readableCall token env).map fun k => (token, k) else none) := by
        cases readable <;> exact hrule
      refine (Dispatcher.event_outcome h hrule' hwrite).bind fun r hr => ?_
      exact ⟨hr.1, hr.2.1, hr.2.2, fun _ => rfl⟩
    | receive env =>
      rw [exec, if_pos hidle] at hx
      unfold Moves at hmoves
      cases hqueue : w.queue with
      | nil =>
        rw [hqueue] at hx
        cases hx
      | cons q queue =>
        obtain ⟨msg, target⟩ := q
        rw [hqueue] at hx hmoves
        dsimp only at hrule
        rw [hqueue] at hrule
        cases hx
        cases msg with
        | stop =>
          -- `graceful_shutdown` makes no call of its own, so `C` holds before it.
          have hC := hrule.of_none
          refine Outcome.bind ((Dispatcher.gracefulShutdown_outcome h (hdisable hC)).bind
            fun d' hd' => ?_) fun r hr => hr
          exact ⟨hd'.1, hd'.2, hC, fun _ => rfl⟩
        | any msg =>
          have hstays : ¬ Dispatcher.MovesConnection msg := by
            cases msg <;> exact hmoves
          refine Outcome.bind (Dispatcher.handleNotify_stays h hstays hrule) fun r hr => ?_
          exact ⟨hr.1, hr.2.1, hr.2.2.1, fun _ => hr.2.2.2⟩
    | timer nowTick env =>
      rw [exec, if_pos hidle] at hx
      cases hx
      refine (Dispatcher.processTimer_outcome h hrule).bind fun r hr => ?_
      exact ⟨hr.1, hr.2.1, hr.2.2.1, fun _ => hr.2.2.2⟩
    | _ => exact absurd trivial hl

/-- What a step does to the identities of the connections. A connection keeps its `id` and its
token, and only a message that adds or removes a connection changes the keys in use. -/
theorem step_identity {R : Token → Nat → Token → Prop} (hstep : w.Step l w')
    (h : w.dispatcher.All fun _ token c => R token c.id c.token)
    (hnew : R (w.dispatcher.offset + Slab.vacantKey w.dispatcher.localConnections)
      w.dispatcher.made (w.dispatcher.offset + Slab.vacantKey w.dispatcher.localConnections)) :
    w'.dispatcher.All (fun _ token c => R token c.id c.token) ∧
      ((¬ w.Moves l ∧ Dispatcher.Kept w.dispatcher w'.dispatcher ∧
          (w.locked = none → w'.locked = none)) ∨
        (w.Moves l ∧ w.Idle ∧ Dispatcher.Moved w.dispatcher w'.dispatcher w'.locked)) := by
  have hcovers : Dispatcher.Covers fun _ => True := fun _ _ => trivial
  by_cases hmoves : w.Moves l
  · obtain ⟨env, msg, target, queue, r, rfl, hqueue, hmsg, hr, rfl⟩ := step_moves hmoves hstep
    -- The two ways for a connection to enter: established, or waiting to be.
    have hestablished : ∀ c cb registered, (msg.StreamFresh → registered = none) →
        Dispatcher.Newborn c w.dispatcher.made
          (w.dispatcher.offset + Slab.vacantKey w.dispatcher.localConnections) registered [] →
        Outcome (({ conn := c, sent := [] } : Session M).call (.established cb env.msgs env.acts))
          (fun s => R (w.dispatcher.offset + Slab.vacantKey w.dispatcher.localConnections)
            s.conn.id s.conn.token) (fun _ => True) := by
      intro c cb registered _ hc
      refine (stable_identity (R _)).call (s := { conn := c, sent := [] }) (fun _ _ => trivial) ?_
      rw [hc.id, hc.token]
      exact hnew
    have hwaiting : ∀ c cb, Dispatcher.Newborn c w.dispatcher.made
        (w.dispatcher.offset + Slab.vacantKey w.dispatcher.localConnections) (some .READABLE)
        [.connecting cb] →
        R (w.dispatcher.offset + Slab.vacantKey w.dispatcher.localConnections) c.id c.token := by
      intro c cb hc
      rw [hc.id, hc.token]
      exact hnew
    obtain ⟨hall', hmoved⟩ := (Dispatcher.handleNotify_moves
      (P := fun _ token c => R token c.id c.token) hcovers h hmsg (Or.inr fun _ => trivial)
      hestablished hwaiting).of_ok hr
    exact ⟨hall', Or.inr ⟨hmoves, idle_of_exec id hstep, hmoved⟩⟩
  · -- No handler changes the `id` or the token of a connection.
    have hcall : ∀ token k key c, w.callOf l = some (token, k) →
        token = w.dispatcher.offset + key → Slab.get w.dispatcher.localConnections key = some c →
        Outcome (({ conn := c, sent := [] } : Session M).call k)
          (fun s => R token s.conn.id s.conn.token ∧ True) (fun _ => True) := by
      rintro token k key c - rfl hget
      exact ((stable_identity (R _)).call (fun _ _ => trivial) (h key c hget)).mono
        (fun s hs => ⟨hs, trivial⟩) fun _ => id
    obtain ⟨hall', hkept, -, hlocked⟩ := (exec_outcome
      (P := fun _ token c => R token c.id c.token) hstep hmoves h
      ⟨fun _ => trivial, fun _ => hcovers, hcall⟩
      (fun _ _ token s outcomes hs => (stable_identity (R token)).handleWrite hs outcomes)
      (fun _ _ token c mode hc => (stable_identity (R token)).disableIo c mode hc)).of_ok rfl
    exact ⟨hall', Or.inl ⟨hmoves, hkept, hlocked⟩⟩

end Worker

section Example

/-- The timer of a new event loop. -/
def emptyTimer : Timer Lib.FreeListSlab String where
  tickMs := 100
  entries := Slab.withCapacity 16
  wheel := List.replicate 16 EMPTY
  startMs := 0
  tick := 0
  next := EMPTY
  mask := 15

end Example

end Ruduo
