import Ruduo.Proofs.Server.Steps
import Ruduo.Spec.Limit

/-!
# `Ruduo.Proofs.Server.Limit`: when the connection limit holds

`add_connection` and `add_connecting` find out that the slab is full and shut the stream down.
They do not return then, but go on and add the connection. So each of their calls adds one
connection, whatever the slab holds (`step_connections`).

* `limitContract_iff`: the limit holds in a run exactly when no connection arrives at a full
  dispatcher.
-/

set_option autoImplicit false

namespace Ruduo

open Lib (Slab LawfulSlab Outcome Run Always Each)

variable {S : Type → Type} [Slab S] {M : Type} [DecidableEq M]

namespace Dispatcher
variable {d : Dispatcher S M} {env : Env M}

omit [DecidableEq M] in
/-- `add_connection` goes on to the lock, to add the token. -/
theorem addConnection_locked {stream : TcpStream} {peerAddr : SocketAddr} {cb : Closure}
    {r : Dispatcher S M × List (TcpConnMessage M) × Locked}
    (h : d.addConnection stream peerAddr cb env = .ok r) :
    ∃ token noti, r.2.2 = .add token noti := by
  have hcovers : Covers fun _ => True := fun _ _ => trivial
  obtain ⟨c, -, -, hlocked⟩ := (addConnection_outcome (P := fun _ => True) hcovers peerAddr
    fun _ _ => Outcome.intro (fun _ _ => trivial) fun _ _ => trivial).of_ok h
  exact ⟨_, _, hlocked⟩

/-- A message that adds or removes a connection adds one exactly when it calls `add_connection`
or `add_connecting`. -/
theorem handleNotify_locked {timer : Timer S M} {msg : TcpConnMessage M} {r : Handled S M}
    (hmsg : MovesConnection msg) (h : d.handleNotify timer msg env = .ok r) :
    (∃ token noti, r.locked = some (.add token noti)) ↔ msg.Adds env := by
  have hcovers : Covers fun _ => True := fun _ _ => trivial
  cases handleNotify_notified h with
  | called token k r hcall => cases msg <;> first | exact hmsg.elim | cases hcall
  | added stream peerAddr cb r hadded hr =>
    obtain ⟨token, noti, hlocked⟩ := addConnection_locked hr
    rcases hadded with rfl | ⟨addr, rfl, hpeer⟩
    · simp [TcpConnMessage.Adds, hlocked]
    · simp [TcpConnMessage.Adds, hpeer, hlocked]
  | waits stream addr cb e r hpeer hwaits hr =>
    obtain ⟨c, token, -, -, -, hlocked⟩ :=
      (addConnecting_outcome hcovers addr (Or.inr fun _ => trivial)).of_ok hr
    simp [TcpConnMessage.Adds, hpeer, hlocked, hwaits]
  | dropped stream addr cb e hpeer hdropped =>
    -- Nothing is asked for.
    simp [TcpConnMessage.Adds, hpeer, hdropped]
  | removed token r hr =>
    obtain ⟨key, c, -, -, -, hlocked⟩ := (removeConnection_outcome hcovers).of_ok hr
    simp [TcpConnMessage.Adds, hlocked]
  | _ => exact hmsg.elim

end Dispatcher

namespace Worker
variable {w w' : Worker S M} {l : WorkerLabel M}

/-- What a step that adds or removes a connection asks for under the lock. -/
theorem locked_iff_callsAdd (hmoves : w.Moves l) (hstep : w.Step l w') :
    (∃ token noti, w'.locked = some (.add token noti)) ↔ w.CallsAdd l := by
  obtain ⟨env, msg, target, queue, r, rfl, hqueue, hmsg, hr, rfl⟩ := step_moves hmoves hstep
  simp only [CallsAdd, hqueue]
  exact Dispatcher.handleNotify_locked hmsg hr

omit [Slab S] [DecidableEq M] in
/-- Only a step that adds or removes a connection calls `add_connection` or `add_connecting`. -/
theorem moves_of_callsAdd (h : w.CallsAdd l) : w.Moves l := by
  cases l with
  | receive env =>
    unfold CallsAdd at h
    unfold Moves
    cases hqueue : w.queue with
    | nil => simp [hqueue] at h
    | cons q queue =>
      obtain ⟨msg, target⟩ := q
      rw [hqueue] at h
      cases msg with
      | stop => exact h.elim
      | any msg => cases msg <;> first | exact trivial | exact h.elim
  | _ => exact h.elim

variable [LawfulSlab S]

/-- A step adds a connection when it calls `add_connection` or `add_connecting`. No other step
adds one. -/
theorem step_connections (hstep : w.Step l w') :
    (w.CallsAdd l → w'.connections = w.connections + 1) ∧
      (¬ w.CallsAdd l → w'.connections ≤ w.connections) := by
  obtain ⟨-, hchange⟩ := step_identity (R := fun _ _ _ => True) hstep (fun _ _ _ => trivial) trivial
  unfold connections
  rcases hchange with ⟨hmoves, hkept, -⟩ | ⟨hmoves, -, hmoved⟩
  · exact ⟨fun hadd => absurd (moves_of_callsAdd hadd) hmoves, fun _ => hkept.len.le⟩
  · have hadds := locked_iff_callsAdd hmoves hstep
    generalize w'.locked = locked at hmoved hadds
    cases hmoved with
    | dropped hsame =>
      rw [hsame.localConnections]
      exact ⟨fun hadd => by simpa using hadds.mpr hadd, fun _ => Nat.le_refl _⟩
    | added c hconns =>
      rw [hconns, LawfulSlab.len_insert]
      exact ⟨fun _ => rfl, fun hadd => absurd (hadds.mp ⟨_, _, rfl⟩) hadd⟩
    | removed key c peerAddr hget hsame =>
      have hlen := LawfulSlab.len_remove w.dispatcher.localConnections key (by simp [hget])
      rw [hsame.localConnections]
      refine ⟨fun hadd => by simpa using hadds.mpr hadd, fun _ => ?_⟩
      show Slab.len (Slab.remove w.dispatcher.localConnections key) ≤ _
      omega

/-- **When the connection limit holds.** For every worker with a new dispatcher for `cap`
connections, and every run of it, the limit is hard and a rejection is atomic exactly when
connections only arrive while there is room. -/
theorem limitContract_iff (cap offset noti : Nat) (timer : Timer S M)
    (ls : List (WorkerLabel M)) :
    (Worker.new cap offset noti timer).LimitContract cap ls ↔
      (Worker.new cap offset noti timer).ArrivesBelow cap ls := by
  constructor
  · -- A connection that arrives is added, so there was room for it.
    rintro ⟨hlimit, -⟩
    intro ls₁ l ls₂ w w' hls hrun hstep hadd
    have hafter := (hlimit.around ls₁ l ls₂ w w' hls hrun hstep).2
    have hgrows := (step_connections hstep).1 hadd
    omega
  · intro hbelow
    refine ⟨hbelow.always (fun w l w' hw hroom hstep => ?_) ?_, ?_⟩
    · by_cases hadd : w.CallsAdd l
      · have hgrows := (step_connections hstep).1 hadd
        have := hroom hadd
        omega
      · exact Nat.le_trans ((step_connections hstep).2 hadd) hw
    · simp [connections, Worker.new, Dispatcher.new]
    · -- No connection arrives at a full dispatcher.
      exact hbelow.mono fun w l w' hroom hadd hfull => absurd (hroom hadd) (by omega)

section Example

/-- Two streams are handed over, one after the other. -/
def twoArrivals : List (WorkerLabel String) :=
  [.enqueue (.any (.established .fresh 7 0)), .receive quietEnv, .lock,
    .enqueue (.any (.established .fresh 7 1)), .receive quietEnv]

/-- Room for both. -/
theorem limitContract_iff_two :
    (Worker.new 2 0 0 emptyTimer).LimitContract 2 twoArrivals ↔
      (Worker.new 2 0 0 emptyTimer).ArrivesBelow 2 twoArrivals :=
  limitContract_iff 2 0 0 emptyTimer twoArrivals

set_option maxRecDepth 8000 in
/-- Room for one: the second stream is shut down, and then added all the same. -/
theorem limit_exceeded : ¬ (Worker.new 1 0 0 emptyTimer).LimitContract 1 twoArrivals := by
  rintro ⟨hlimit, -⟩
  have hrun : Run Step (Worker.new 1 0 0 emptyTimer) twoArrivals _ :=
    .cons rfl (.cons rfl (.cons rfl (.cons rfl (.cons rfl (.nil _)))))
  have hle := hlimit twoArrivals [] _ rfl hrun
  revert hle
  decide

end Example

end Worker

end Ruduo
