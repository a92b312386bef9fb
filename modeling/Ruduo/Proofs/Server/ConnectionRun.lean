import Ruduo.Proofs.Server.GracefulShutdown
import Ruduo.Spec.ConnectionRun

/-!
# `Ruduo.Proofs.Server.ConnectionRun`: a connection changes only by its own calls

* `handleIoEvent_called`, `handleNotify_called`, `processTimer_called`: each handler makes its
  calls on the connection with the token, and leaves the others as they are.
* `step_called`: so does a step.
* `connection_run`: in a run of a worker, a connection that stays live makes the run of the calls
  on its token.
* `run_born`: so does every live connection since it was made.
-/

set_option autoImplicit false

namespace Ruduo

open Lib (Emits Outcome Run Slab LawfulSlab)

variable {S : Type → Type} [Slab S] [LawfulSlab S] {M : Type}

namespace TcpConnection
variable {c c' c'' : TcpConnection} {k : ConnCall M}

/-- A run of one call. -/
theorem Called.single (h : c.Called k c') : Run Called c [k] c' := .cons h (.nil c')

/-- The calls of one handler call, in one session. -/
theorem called_of_call {s s' : Session M} (h : s.call k = .ok s') : s.conn.Called k s'.conn :=
  ⟨s, s', rfl, h, rfl⟩

end TcpConnection

/-- No call is none on this connection. -/
@[simp] theorem callsAt_none (t : Token) :
    callsAt t (none : Option (Token × ConnCall M)) = [] := rfl

/-- A call on this connection. -/
@[simp] theorem callsAt_self (t : Token) (k : ConnCall M) : callsAt t (some (t, k)) = [k] :=
  if_pos rfl

/-- A call on another connection is none on this one. -/
@[simp] theorem callsAt_ne {t token : Token} (h : token ≠ t) (k : ConnCall M) :
    callsAt t (some (token, k)) = [] := if_neg h

/-! ### The handlers -/

namespace Dispatcher
variable [DecidableEq M] {d d' d'' : Dispatcher S M} {t : Token} {env : Env M} {c : TcpConnection}
  {ks : List (ConnCall M)}

/-- From `d` to `d'` the connection with the token `t` makes a run of these calls. -/
def Calls (d d' : Dispatcher S M) (t : Token) (ks : List (ConnCall M)) : Prop :=
  ∀ c, d.connAt t = some c → ∃ c', d'.connAt t = some c' ∧ Run TcpConnection.Called c ks c'

omit [LawfulSlab S] [DecidableEq M] in
/-- No call. -/
theorem Calls.of_eq (h : d'.connAt t = d.connAt t) : Calls d d' t [] :=
  fun c hc => ⟨c, h.trans hc, .nil c⟩

omit [LawfulSlab S] [DecidableEq M] in
/-- What is done to the tables around a call does not matter. -/
theorem Calls.congr {e e' : Dispatcher S M} (h : Calls d d' t ks)
    (hd : e.connAt t = d.connAt t) (hd' : e'.connAt t = d'.connAt t) : Calls e e' t ks := by
  intro c hc
  obtain ⟨c', hc', hrun⟩ := h c (hd.symm.trans hc)
  exact ⟨c', hd'.trans hc', hrun⟩

omit [DecidableEq M] in
/-- The table of the connections after one is replaced. -/
private theorem connAt_set {key : Nat} {pendings : AList fun _ : Token => Closure}
    (hget : Slab.get d.localConnections key = some c) (c' : TcpConnection) (token : Token) :
    ({ d with localConnections := Slab.set d.localConnections key c', pendings } :
      Dispatcher S M).connAt token = if token = d.offset + key then some c'
        else d.connAt token := by
  unfold connAt restoreKey
  cases hkey : u64Sub token d.offset with
  | error f =>
    rw [if_neg]
    rintro rfl
    cases hkey.symm.trans (restoreKey_token d key)
  | ok key' =>
    obtain rfl : token = d.offset + key' := restoreKey_eq_ok.mp hkey
    simp only [Slab.get_set_of_some _ _ _ hget, Nat.add_left_cancel_iff]

omit [DecidableEq M] in
/-- `with_connection` makes one call. -/
private theorem withConnection_called {token : Token} {k : ConnCall M}
    {r : Dispatcher S M × List (TcpConnMessage M)}
    (h : (d.withConnection token fun s => s.call k) = .ok r) :
    Calls d r.1 t (callsAt t (some (token, k))) := by
  obtain ⟨hothers, -, hholder⟩ := (Worker.withConnection_delivers d token _).of_ok h
  by_cases ht : token = t
  · subst ht
    intro c hc
    obtain ⟨s, hs, hat, -⟩ := hholder c hc
    rw [callsAt_self]
    exact ⟨s.conn, hat, (TcpConnection.called_of_call hs).single⟩
  · rw [callsAt_ne ht]
    exact .of_eq (hothers t (Ne.symm ht))

omit [DecidableEq M] in
/-- An event: the readable part, then the writable part. -/
theorem handleIoEvent_called {token : Token} {readable writable : Bool}
    {r : Dispatcher S M × List (TcpConnMessage M)}
    (h : d.handleIoEvent token readable writable env = .ok r) :
    Calls d r.1 t (callsAt t (if readable then (d.readableCall token env).map fun k => (token, k)
        else none) ++ if writable ∧ token = t then [.handleWrite env.writes] else []) := by
  obtain ⟨key, hkey, h⟩ := bind_eq_ok.mp h
  obtain rfl := restoreKey_eq_ok.mp hkey
  intro c₀ hc₀
  cases hget : Slab.get d.localConnections key with
  | none =>
    -- The event is late: its connection is gone, and the one with the token `t` is another.
    rw [hget] at h
    cases h
    have hne : d.offset + key ≠ t := by
      rintro rfl
      rw [connAt_token, hget] at hc₀
      cases hc₀
    cases readable <;> cases d.readableCall (d.offset + key) env <;>
      simp [hne, hc₀, Run.nil]
  | some c =>
    rw [hget] at h
    obtain ⟨⟨pendings, s⟩, hread, h⟩ := bind_eq_ok.mp h
    obtain ⟨s', hwrite, h⟩ := bind_eq_ok.mp h
    cases h
    rw [connAt_set hget]
    by_cases ht : t = d.offset + key
    · subst ht
      rw [connAt_token, hget] at hc₀
      obtain rfl := Option.some.inj hc₀
      rw [if_pos rfl]
      refine ⟨s'.conn, rfl, Run.append (t := s.conn) ?_ ?_⟩
      · cases readable with
        | false =>
          cases hread
          exact .nil c
        | true =>
          rw [if_pos rfl, handleReadable_eq] at hread
          rw [if_pos rfl]
          cases hk : d.readableCall (d.offset + key) env with
          | none =>
            rw [hk] at hread
            cases hread
            exact .nil c
          | some k =>
            rw [hk] at hread
            obtain ⟨s₁, hs₁, hread⟩ := bind_eq_ok.mp hread
            cases hread
            rw [Option.map_some, callsAt_self]
            exact (TcpConnection.called_of_call hs₁).single
      · cases writable with
        | false =>
          cases hwrite
          exact .nil _
        | true =>
          rw [if_pos ⟨rfl, rfl⟩]
          exact (TcpConnection.called_of_call (k := .handleWrite env.writes) hwrite).single
    · have hne : d.offset + key ≠ t := Ne.symm ht
      rw [if_neg ht]
      cases readable <;> cases d.readableCall (d.offset + key) env <;>
        simp [hne, hc₀, Run.nil]

/-- A message that neither adds nor removes a connection. -/
theorem handleNotify_called {timer : Timer S M} {msg : TcpConnMessage M} {h : Handled S M}
    (hok : d.handleNotify timer msg env = .ok h) (hmsg : ¬ MovesConnection msg) :
    Calls d h.dispatcher t (callsAt t (msg.call env)) := by
  cases handleNotify_notified hok with
  | called token k r hcall hr =>
    rw [hcall]
    exact withConnection_called hr
  | added stream peerAddr cb r hadded =>
    rcases hadded with rfl | ⟨addr, rfl, -⟩ <;> exact absurd trivial hmsg
  | waits | dropped | removed => exact absurd trivial hmsg
  | _ => exact .of_eq rfl

/-- `handle_timeout` makes the call of the closure that it finds. -/
private theorem handleTimeout_called {mark : M} {repeats : Bool}
    {r : Dispatcher S M × List (TcpConnMessage M)}
    (h : d.handleTimeout mark repeats env = .ok r) :
    Calls d r.1 t (callsAt t (((if repeats then d.timers2 else d.timers).lookup mark).map
      fun x => (x.2.1, .timer x.2.2 env.acts))) := by
  unfold handleTimeout at h
  cases repeats with
  | false =>
    simp only [Bool.not_false, if_true, Bool.false_eq_true, if_false] at h ⊢
    cases hlook : d.timers.lookup mark with
    | none =>
      rw [hlook] at h
      cases h
      exact .of_eq rfl
    | some x =>
      rw [hlook] at h
      exact (withConnection_called (k := .timer x.2.2 env.acts) h).congr rfl rfl
  | true =>
    simp only [Bool.not_true, Bool.false_eq_true, if_false, if_true] at h ⊢
    cases hlook : d.timers2.lookup mark with
    | none =>
      rw [hlook] at h
      cases h
      exact .of_eq rfl
    | some x =>
      rw [hlook] at h
      obtain ⟨⟨d₁, sent⟩, hr, h⟩ := bind_eq_ok.mp h
      cases h
      exact (withConnection_called (k := .timer x.2.2 env.acts) hr).congr rfl rfl

/-- A pass of `process_timers`. -/
theorem processTimer_called {timer : Timer S M} {nowTick : Nat} {h : Handled S M}
    (hok : d.processTimer timer nowTick env = .ok h) :
    Calls d h.dispatcher t (callsAt t (d.timerCall timer nowTick env)) := by
  unfold timerCall
  cases processTimer_passed hok with
  | idle htick hd =>
    rw [htick, hd]
    exact .of_eq rfl
  | once mark htick hcall =>
    rw [htick]
    exact handleTimeout_called hcall
  | again mark interval timer' timeout hpos htick hagain hcall =>
    have hcalls := handleTimeout_called (t := t) hcall
    simp only [if_true, refreshTimeout_timers2] at hcalls
    simp only [htick, hpos, hagain, if_true]
    exact hcalls.congr ((refreshTimeout_sameTable d mark timeout).connAt t).symm rfl

end Dispatcher

/-! ### Steps and runs -/

namespace Worker
variable [DecidableEq M] {w w' : Worker S M} {l : WorkerLabel M} {token : Token}
  {c c' : TcpConnection}

omit [Slab S] [LawfulSlab S] [DecidableEq M] in
/-- The dispatcher after a handler call is the one that the call leaves. -/
@[simp] theorem after_dispatcher (w : Worker S M) (h : Handled S M) :
    (w.after h).dispatcher = h.dispatcher := rfl

/-- A step changes a live connection by its own calls only. -/
theorem step_called (hstep : w.Step l w') (hc : w.dispatcher.connAt token = some c)
    (hc' : w'.dispatcher.connAt token = some c') :
    Run TcpConnection.Called c (w.callsOn token l) c' := by
  have of_calls : Dispatcher.Calls w.dispatcher w'.dispatcher token (w.callsOn token l) →
      Run TcpConnection.Called c (w.callsOn token l) c' := by
    intro h
    obtain ⟨c'', hc'', hrun⟩ := h c hc
    obtain rfl := Option.some.inj (hc'.symm.trans hc'')
    exact hrun
  by_cases hl : Passive l
  · obtain ⟨w₁, hw₁, hd, -⟩ := exec_passive hl hstep
    obtain rfl := Except.ok.inj hw₁
    refine of_calls ?_
    have hnone : w.callsOn token l = [] := by
      unfold callsOn callOf
      cases l <;> first | exact hl.elim | simp [laterCalls]
    rw [hnone]
    exact .of_eq (by rw [hd])
  have hidle := idle_of_exec hl hstep
  unfold callsOn callOf at of_calls ⊢
  rw [if_pos hidle] at of_calls ⊢
  cases l with
  | event t readable writable env =>
    obtain ⟨d, sent, hd, rfl⟩ := step_event hstep
    refine of_calls ?_
    have hcalls := Dispatcher.handleIoEvent_called (t := token) hd
    cases readable <;> cases writable <;> simpa [laterCalls] using hcalls
  | receive env =>
    obtain ⟨⟨msg, target⟩, queue, h, hqueue, hh, rfl⟩ := step_receive hstep
    simp only [laterCalls, hqueue] at of_calls ⊢
    cases msg with
    | stop =>
      obtain ⟨d, hd, hh⟩ := bind_eq_ok.mp hh
      cases hh
      -- The connection is disabled, in the loop over all connections.
      have hat := Dispatcher.gracefulShutdown_connAt hd token
      rw [hc] at hat
      obtain rfl := Option.some.inj (hc'.symm.trans hat)
      have hcall : ({ conn := c, sent := [] } : Session M).call (.disableIo shutdownMode)
          = .ok { conn := c.disabled, sent := [] } := by
        simp only [Session.call, Session.disableIo,
          Dispatcher.gracefulShutdown_disableIo hd hc, ok_bind]
      exact (TcpConnection.called_of_call hcall).single
    | any msg =>
      by_cases hmsg : Dispatcher.MovesConnection msg
      · -- A connection that stays is not the one that is added or removed.
        have hmoves : w.Moves (.receive env) := by
          unfold Moves
          rw [hqueue]
          cases msg <;> first | exact hmsg.elim | trivial
        have hnone : msg.call env = none := by
          cases msg <;> first | exact hmsg.elim | rfl
        obtain ⟨-, ⟨hnot, -⟩ | ⟨-, -, hmoved⟩⟩ :=
          step_identity (R := fun _ _ _ => True) hstep (fun _ _ _ => trivial) trivial
        · exact absurd hmoves hnot
        · obtain rfl := hmoved.connAt hc hc'
          simp [hnone, Run.nil]
      · exact of_calls (by simpa using Dispatcher.handleNotify_called (t := token) hh hmsg)
  | timer nowTick env =>
    obtain ⟨h, hh, rfl⟩ := step_timer hstep
    exact of_calls (by simpa [laterCalls] using Dispatcher.processTimer_called (t := token) hh)
  | _ => exact absurd trivial hl

/-- A connection that is not at a key any more does not come back. -/
theorem run_gone {ls : List (WorkerLabel M)} (hrun : Run Step w ls w') {key id : Nat}
    (hlt : id < w.dispatcher.made) (hgone : w.dispatcher.idAt key ≠ some id) :
    w'.dispatcher.idAt key ≠ some id := by
  refine (hrun.invariant (P := fun w => id < w.dispatcher.made ∧ w.dispatcher.idAt key ≠ some id)
    ?_ ⟨hlt, hgone⟩).2
  rintro w l w' ⟨hlt, hgone⟩ hstep
  obtain ⟨-, hmade, key₀, hids⟩ := step_ids hstep
  refine ⟨Nat.lt_of_lt_of_le hlt hmade, fun hid => ?_⟩
  rcases hids key id hid with hold | ⟨-, rfl, -⟩
  · exact hgone hold
  · exact Nat.lt_irrefl _ hlt

omit [DecidableEq M] [LawfulSlab S] in
/-- The token of a live connection says at which key it is. -/
theorem idAt_of_connAt {d : Dispatcher S M} (hc : d.connAt token = some c) :
    ∃ key, token = d.offset + key ∧ d.idAt key = some c.id := by
  obtain ⟨key, htoken, hget⟩ := Dispatcher.connAt_eq_some.mp hc
  exact ⟨key, htoken, Dispatcher.idAt_of_get hget⟩

/-- A connection that is live at the end of a run was live after its first step. -/
theorem live_after {t : Worker S M} (h : Traced w) (hstep : w.Step l t)
    {ls : List (WorkerLabel M)} (hrun : Run Step t ls w')
    (hc : w.dispatcher.connAt token = some c) (hc' : w'.dispatcher.connAt token = some c')
    (hid : c'.id = c.id) : ∃ c₁, t.dispatcher.connAt token = some c₁ ∧ c₁.id = c.id := by
  obtain ⟨key, rfl, hat⟩ := idAt_of_connAt hc
  have hoffset : w'.dispatcher.offset = w.dispatcher.offset := by
    refine (hrun.invariant (P := fun x => x.dispatcher.offset = w.dispatcher.offset) ?_
      (step_ids hstep).1)
    exact fun x l y hx hstep => (step_ids hstep).1.trans hx
  obtain ⟨key', hkey', hat'⟩ := idAt_of_connAt hc'
  rw [hoffset] at hkey'
  obtain rfl := Nat.add_left_cancel hkey'
  by_cases hmid : t.dispatcher.idAt key = some c.id
  · obtain ⟨c₁, hget₁, hid₁⟩ := Option.map_eq_some_iff.mp hmid
    refine ⟨c₁, ?_, hid₁⟩
    rw [← (step_ids hstep).1, Dispatcher.connAt_token, hget₁]
  · have hlt := Nat.lt_of_lt_of_le (h.id_lt key c.id hat) (step_ids hstep).2.1
    exact absurd (hid ▸ hat') (run_gone hrun hlt hmid)

/-- **A connection changes only by its own calls.** Take any run of a worker from a reachable
state, and a connection that is live in its first and in its last state. Whatever the run does to
other connections, this one makes the run of the calls on its token, in their order, and nothing
else happens to it. -/
theorem connection_run (cap offset noti : Nat) (timer : Timer S M) {ls₀ ls : List (WorkerLabel M)}
    {ks : List (ConnCall M)} (hrun₀ : Run Step (new cap offset noti timer) ls₀ w)
    (hrun : Emits Step (callsOn token) w ls ks w')
    (hc : w.dispatcher.connAt token = some c) (hc' : w'.dispatcher.connAt token = some c')
    (hid : c'.id = c.id) : Run TcpConnection.Called c ks c' := by
  have htraced := run_traced hrun₀
  clear hrun₀
  induction hrun generalizing c with
  | nil w =>
    obtain rfl := Option.some.inj (hc.symm.trans hc')
    exact .nil c
  | cons hstep hrest ih =>
    obtain ⟨c₁, hc₁, hid₁⟩ := live_after htraced hstep hrest.run hc hc' hid
    have hfirst := step_called hstep hc hc₁
    exact hfirst.append (ih hc₁ hc' (hid.trans hid₁.symm) (step_traced htraced hstep))

/-! ### Since it was made -/

omit [LawfulSlab S] [DecidableEq M] in
/-- A connection is as it was made. -/
theorem make_asMade {id : Nat} {t : Token} {stream : TcpStream}
    (h : TcpConnection.make id t stream = .ok c) : c.AsMade := by
  have hnew : ∀ b, Buffer.new = .ok b → b.Holds [] := by
    intro b hb
    have hagrees := (@Buffer.build_represents _ K_INITIAL_SIZE hb).agrees
    exact ⟨hagrees.peek, hagrees.cheapPrepend_le⟩
  obtain ⟨input, hinput, h⟩ := bind_eq_ok.mp h
  obtain ⟨output, houtput, h⟩ := bind_eq_ok.mp h
  cases h
  exact ⟨hnew input hinput, hnew output houtput, rfl⟩

omit [LawfulSlab S] in
/-- A connection that a message adds, with the calls it has made already. -/
private theorem handleNotify_born {d : Dispatcher S M} {timer : Timer S M} {msg : TcpConnMessage M}
    {env : Env M} {h : Handled S M} (hok : d.handleNotify timer msg env = .ok h)
    (hmsg : Dispatcher.MovesConnection msg) :
    h.dispatcher.localConnections = d.localConnections ∧ h.dispatcher.offset = d.offset ∨
      (∃ key, h.dispatcher.localConnections = Slab.remove d.localConnections key ∧
        h.dispatcher.offset = d.offset) ∨
      ∃ c ks new, h.dispatcher.localConnections = Slab.insert d.localConnections new ∧
        h.dispatcher.offset = d.offset ∧ c.AsMade ∧
        Run (TcpConnection.Called : _ → ConnCall M → _ → Prop) c ks new := by
  cases Dispatcher.handleNotify_notified hok with
  | called token k r hcall => cases msg <;> first | exact hmsg.elim | cases hcall
  | added stream peerAddr cb r _ hr =>
    obtain ⟨stream', -, hr⟩ := bind_eq_ok.mp hr
    obtain ⟨t, -, hr⟩ := bind_eq_ok.mp hr
    obtain ⟨c, hc, hr⟩ := bind_eq_ok.mp hr
    obtain ⟨s, hs, hr⟩ := bind_eq_ok.mp hr
    cases hr
    have hcalled : c.Called (.established cb env.msgs env.acts) s.conn :=
      ⟨{ conn := c, sent := [] }, s, rfl, hs, rfl⟩
    exact Or.inr (Or.inr ⟨c, _, s.conn, rfl, rfl, make_asMade hc, hcalled.single⟩)
  | waits stream addr cb e r _ _ hr =>
    obtain ⟨stream', -, hr⟩ := bind_eq_ok.mp hr
    obtain ⟨t, -, hr⟩ := bind_eq_ok.mp hr
    obtain ⟨stream'', -, hr⟩ := bind_eq_ok.mp hr
    obtain ⟨c, hc, hr⟩ := bind_eq_ok.mp hr
    cases hr
    have hmade := make_asMade hc
    exact Or.inr (Or.inr ⟨c.record (.connecting cb), [], _, rfl, rfl,
      ⟨hmade.input, hmade.output, hmade.interests⟩, .nil _⟩)
  | dropped => exact Or.inl ⟨rfl, rfl⟩
  | removed token r hr =>
    obtain ⟨key, -, hr⟩ := bind_eq_ok.mp hr
    cases hget : Slab.get d.localConnections key with
    | none =>
      simp only [Slab.tryRemove, hget, Option.map_none] at hr
      cases hr
    | some c =>
      simp only [Slab.tryRemove, hget, Option.map_some] at hr
      cases hr
      exact Or.inr (Or.inl ⟨key, rfl, rfl⟩)
  | _ => exact hmsg.elim

/-- Every live connection is what the calls on it have made of a new connection. -/
theorem run_born {cap offset noti : Nat} {timer : Timer S M} {ls : List (WorkerLabel M)}
    (hrun : Run Step (new cap offset noti timer) ls w)
    (hc : w.dispatcher.connAt token = some c) :
    ∃ c₀ ks, c₀.AsMade ∧ Run (TcpConnection.Called : _ → ConnCall M → _ → Prop) c₀ ks c := by
  have hinv : ∀ token c, w.dispatcher.connAt token = some c → ∃ c₀ ks, c₀.AsMade ∧
      Run (TcpConnection.Called : _ → ConnCall M → _ → Prop) c₀ ks c := by
    refine hrun.invariant (P := fun w => ∀ token c, w.dispatcher.connAt token = some c →
      ∃ c₀ ks, c₀.AsMade ∧ Run (TcpConnection.Called : _ → ConnCall M → _ → Prop) c₀ ks c)
      ?_ fun token c hc => ?_
    · intro w l w' ih hstep token c' hc'
      cases hc : w.dispatcher.connAt token with
      | some c =>
        obtain ⟨c₀, ks, hmade, hks⟩ := ih token c hc
        exact ⟨c₀, _, hmade, hks.append (step_called hstep hc hc')⟩
      | none =>
        -- It is new.
        by_cases hmoves : w.Moves l
        · obtain ⟨env, msg, target, queue, r, rfl, -, hmsg, hr, rfl⟩ := step_moves hmoves hstep
          rcases handleNotify_born hr hmsg with ⟨hconns, hoffset⟩ | ⟨key, hconns, hoffset⟩ |
            ⟨c₀, ks, new, hconns, hoffset, hmade, hks⟩
          · have hsame : r.dispatcher.connAt token = w.dispatcher.connAt token := by
              unfold Dispatcher.connAt Dispatcher.restoreKey
              rw [hconns, hoffset]
            cases (hsame.trans hc).symm.trans hc'
          · have hat := Dispatcher.connAt_remove hconns hoffset token
            rw [hc, ite_self] at hat
            cases hat.symm.trans hc'
          · have hat := Dispatcher.connAt_insert hconns hoffset token
            rw [hc] at hat
            split at hat
            · obtain rfl := Option.some.inj (hat.symm.trans hc')
              exact ⟨c₀, ks, hmade, hks⟩
            · cases hat.symm.trans hc'
        · cases ((step_kept hstep hmoves).2.1 token hc).symm.trans hc'
    · obtain ⟨key, -, hget⟩ := Dispatcher.connAt_eq_some.mp hc
      cases (LawfulSlab.get_withCapacity cap key).symm.trans hget
  exact hinv token c hc

end Worker

section Example

/-- Two clients. The first one gets a message, then the second one, then the first one again. -/
def twoClients : List (WorkerLabel String) :=
  [.enqueue (.any (.established .fresh 7 0)), .receive quietEnv, .lock,
    .enqueue (.any (.established .fresh 8 1)), .receive quietEnv, .lock]

/-- Two messages for the first one, and one for the second between them. -/
def threeWrites : List (WorkerLabel String) :=
  [.enqueue (.any (.write 0 [1])), .enqueue (.any (.write 1 [2])),
    .enqueue (.any (.write 0 [3])), .receive { quietEnv with writes := [.ok 1] }, .flush,
    .receive { quietEnv with writes := [.ok 1] }, .flush,
    .receive { quietEnv with writes := [.ok 1] }]

set_option maxRecDepth 8000 in
/-- The calls on the first client. -/
theorem connection_run_first :
    ∃ w w' : Worker Lib.FreeListSlab String, ∃ c c',
      Run Worker.Step (Worker.new 4 0 0 emptyTimer) twoClients w ∧
      Emits Worker.Step (Worker.callsOn 0) w threeWrites
        [.send [1] [.ok 1], .send [3] [.ok 1]] w' ∧
      w.dispatcher.connAt 0 = some c ∧ w'.dispatcher.connAt 0 = some c' ∧
      Run TcpConnection.Called c
        ([.send [1] [.ok 1], .send [3] [.ok 1]] : List (ConnCall String)) c' := by
  have hsteps : ∃ w w' : Worker Lib.FreeListSlab String, ∃ c c',
      Run Worker.Step (Worker.new 4 0 0 emptyTimer) twoClients w ∧
      Emits Worker.Step (Worker.callsOn 0) w threeWrites
        [.send [1] [.ok 1], .send [3] [.ok 1]] w' ∧
      w.dispatcher.connAt 0 = some c ∧ w'.dispatcher.connAt 0 = some c' ∧ c'.id = c.id := by
    have hrun₀ : Run Worker.Step (Worker.new 4 0 0 (emptyTimer : Timer Lib.FreeListSlab String))
        twoClients _ :=
      .cons rfl (.cons rfl (.cons rfl (.cons rfl (.cons rfl (.cons rfl (.nil _))))))
    exact ⟨_, _, _, _, hrun₀, .cons rfl (.cons rfl (.cons rfl (.cons rfl (.cons rfl (.cons rfl
      (.cons rfl (.cons rfl (.nil _)))))))), rfl, rfl, rfl⟩
  obtain ⟨w, w', c, c', hrun₀, hrun, hc, hc', hid⟩ := hsteps
  exact ⟨w, w', c, c', hrun₀, hrun, hc, hc',
    Worker.connection_run 4 0 0 emptyTimer hrun₀ hrun hc hc' hid⟩

end Example

end Ruduo
