import Ruduo.Proofs.Server.Logs
import Ruduo.Proofs.Server.Timers

/-!
# `Ruduo.Proofs.Server.Turnover`: what a step does to the connections that are live

`ConnsStep` lists what a step can do to the live connections and to the setup callbacks that wait,
one constructor for each kind (`step_conns`): a step keeps the connections, adds one, or removes
one. A connection that stays live keeps its `id`.
-/

set_option autoImplicit false

namespace Ruduo

open Lib (Outcome Slab LawfulSlab)

variable {S : Type → Type} [Slab S] {M : Type} [DecidableEq M]

/-- What a step does to the live connections. -/
inductive Worker.ConnsStep (w : Worker S M) (l : WorkerLabel M) (w' : Worker S M) : Prop where
  /-- The same connections are live. Setup callbacks may have been taken out. -/
  | kept (hlive : ∀ token c, w.dispatcher.connAt token = some c →
      ∃ c', w'.dispatcher.connAt token = some c' ∧ c'.id = c.id)
    (hdead : ∀ token, w.dispatcher.connAt token = none → w'.dispatcher.connAt token = none)
    (hpend : ∀ token f, w'.dispatcher.pendings.lookup token = some f →
      w.dispatcher.pendings.lookup token = some f)
    (hmade : w'.dispatcher.made = w.dispatcher.made)
    (hnot : ∀ token, ¬ w.Receives l (.removed token))
  /-- A connection was made. If a setup callback waits for it, it was handed over with it. -/
  | added (token : Token) (new : TcpConnection) (hnone : w.dispatcher.connAt token = none)
    (hconns : ∀ t, w'.dispatcher.connAt t = if t = token then some new else w.dispatcher.connAt t)
    (hid : new.id = w.dispatcher.made) (hmade : w'.dispatcher.made = w.dispatcher.made + 1)
    (hpend : ∀ t f, w'.dispatcher.pendings.lookup t = some f →
      w.dispatcher.pendings.lookup t = some f ∨ (t = token ∧ .connecting f ∈ new.log))
    (hnot : ∀ token, ¬ w.Receives l (.removed token))
  /-- A connection was taken out. The directory is to follow. -/
  | removed (token : Token) (gone : TcpConnection) (peerAddr : Except IoError SocketAddr)
    (hrecv : w.Receives l (.removed token)) (hlive : w.dispatcher.connAt token = some gone)
    (hconns : ∀ t, w'.dispatcher.connAt t = if t = token then none else w.dispatcher.connAt t)
    (hmade : w'.dispatcher.made = w.dispatcher.made)
    (hpend : w'.dispatcher.pendings = w.dispatcher.pendings)
    (hkept : ∀ r k, w'.dispatcher.kept r k = w.dispatcher.kept r k)
    (hlocked : w'.locked = some (.remove token peerAddr))

namespace Dispatcher
variable {d d' : Dispatcher S M} {mark : M} {env : Env M} {token : Token}

/-! ### The setup callbacks -/

omit [DecidableEq M] in
/-- A call on a connection leaves the waiting callbacks alone. -/
private theorem withConnection_pendings (d : Dispatcher S M) (token : Token)
    (f : Session M → Except Fault (Session M)) :
    Outcome (d.withConnection token f) (fun r => r.1.pendings = d.pendings) (fun _ => True) :=
  withConnection_outcome (fun _ _ _ => trivial) (fun _ => rfl)
    fun _ _ _ _ => Outcome.intro (fun _ _ => rfl) fun _ _ => trivial

/-- A timer that has come due leaves the waiting callbacks alone. -/
theorem handleTimeout_pendings {repeats : Bool} {r : Dispatcher S M × List (TcpConnMessage M)}
    (hok : d.handleTimeout mark repeats env = .ok r) : r.1.pendings = d.pendings := by
  unfold handleTimeout at hok
  split at hok
  · split at hok
    · have hsame := (withConnection_pendings _ _ _).of_ok hok
      exact hsame
    · cases hok
      rfl
  · split at hok
    · obtain ⟨⟨d₁, sent⟩, hr, hok⟩ := bind_eq_ok.mp hok
      have hsame := (withConnection_pendings _ _ _).of_ok hr
      cases hok
      exact hsame
    · cases hok
      rfl

omit [DecidableEq M] in
/-- A readable event may take out the callback that waits. -/
private theorem handleIoEvent_pendings {readable writable : Bool} :
    Outcome (d.handleIoEvent token readable writable env)
      (fun r => ∀ t f, r.1.pendings.lookup t = some f → d.pendings.lookup t = some f)
      (fun _ => True) := by
  refine handleIoEvent_outcome (P := fun pendings _ =>
    ∀ t f, pendings.lookup t = some f → d.pendings.lookup t = some f) (fun _ _ _ => trivial)
    (fun _ _ _ => id) (fun _ _ _ _ _ _ _ => id) ?_
    (fun _ _ hs => Outcome.intro (fun _ _ => hs) fun _ _ => trivial)
    fun _ _ _ _ _ _ hs => hs
  intro key c k _ _ _ _
  refine Outcome.intro (fun s _ t f hlook => ?_) fun _ _ => trivial
  cases k with
  | established cb msgs as =>
    by_cases ht : t = token
    · subst ht
      rw [show d.pendingsAfter t (.established cb msgs as) = d.pendings.erase t from rfl,
        AList.lookup_erase] at hlook
      cases hlook
    · rwa [show d.pendingsAfter token (.established cb msgs as) = d.pendings.erase token from rfl,
        AList.lookup_erase_ne ht] at hlook
  | _ => exact hlook

/-- A message that neither adds nor removes a connection. -/
theorem handleNotify_pendings {timer : Timer S M} {msg : TcpConnMessage M} {h : Handled S M}
    (hok : d.handleNotify timer msg env = .ok h) (hmsg : ¬ MovesConnection msg) :
    h.dispatcher.pendings = d.pendings := by
  cases handleNotify_notified hok with
  | called token k r _ hr => exact (withConnection_pendings d token _).of_ok hr
  | added stream peerAddr cb r hadded =>
    rcases hadded with rfl | ⟨addr, rfl, -⟩ <;> exact absurd trivial hmsg
  | waits | dropped | removed => exact absurd trivial hmsg
  | _ => rfl

/-! ### The live connections -/

section
variable [LawfulSlab S] {c : TcpConnection} {key : Nat}

omit [DecidableEq M] in
/-- The connections after one was added. -/
theorem connAt_insert (hconns : d'.localConnections = Slab.insert d.localConnections c)
    (hoffset : d'.offset = d.offset) (t : Token) :
    d'.connAt t = if t = d.offset + Slab.vacantKey d.localConnections then some c
      else d.connAt t := by
  unfold connAt restoreKey
  rw [hconns, hoffset]
  cases hkey : u64Sub t d.offset with
  | error f =>
    rw [if_neg]
    rintro rfl
    cases hkey.symm.trans (restoreKey_token d _)
  | ok key =>
    obtain rfl : t = d.offset + key := restoreKey_eq_ok.mp hkey
    simp only [LawfulSlab.get_insert, Nat.add_left_cancel_iff]

omit [DecidableEq M] in
/-- The connections after one was removed. -/
theorem connAt_remove (hconns : d'.localConnections = Slab.remove d.localConnections key)
    (hoffset : d'.offset = d.offset) (t : Token) :
    d'.connAt t = if t = d.offset + key then none else d.connAt t := by
  unfold connAt restoreKey
  rw [hconns, hoffset]
  cases hkey : u64Sub t d.offset with
  | error f => simp
  | ok key' =>
    obtain rfl : t = d.offset + key' := restoreKey_eq_ok.mp hkey
    simp only [LawfulSlab.get_remove, Nat.add_left_cancel_iff]

omit [LawfulSlab S] [DecidableEq M] in
/-- A connection that arrives connected. -/
theorem addConnection_ok {stream : TcpStream} {peerAddr : SocketAddr} {cb : Closure}
    {r : Dispatcher S M × List (TcpConnMessage M) × Locked}
    (h : d.addConnection stream peerAddr cb env = .ok r) : ∃ c : TcpConnection, c.id = d.made ∧
      r.1 = { d with localConnections := Slab.insert d.localConnections c
                     made := d.made + 1 } := by
  have hcovers : Covers fun _ => True := fun _ _ => trivial
  obtain ⟨c, hid, hd, -⟩ := (addConnection_outcome (P := fun c => c.id = d.made) hcovers peerAddr
    fun c hc => (stable_identity fun id _ => id = d.made).call (s := { conn := c, sent := [] })
      (fun _ _ => trivial) hc.id).of_ok h
  exact ⟨c, hid, hd⟩

end

end Dispatcher

namespace Worker
variable {w w' : Worker S M} {l : WorkerLabel M} {token : Token}

/-- A step that neither adds nor removes a connection may take setup callbacks out. -/
theorem step_pendings (hstep : w.Step l w') (hmoves : ¬ w.Moves l) (t : Token) (f : Closure)
    (hlook : w'.dispatcher.pendings.lookup t = some f) :
    w.dispatcher.pendings.lookup t = some f := by
  by_cases hl : Passive l
  · obtain ⟨w₁, hw₁, hd, -⟩ := exec_passive hl hstep
    obtain rfl := Except.ok.inj hw₁
    rwa [hd] at hlook
  · cases l with
    | event token readable writable env =>
      obtain ⟨d, sent, hd, rfl⟩ := step_event hstep
      exact Dispatcher.handleIoEvent_pendings.of_ok hd t f hlook
    | receive env =>
      obtain ⟨⟨msg, target⟩, queue, r, hqueue, hr, rfl⟩ := step_receive hstep
      -- `Stop` goes through the connections, and takes no callback out.
      cases msg with
      | stop =>
        obtain ⟨d, hd, hr⟩ := bind_eq_ok.mp hr
        cases hr
        obtain ⟨conns, rfl⟩ := Dispatcher.gracefulShutdown_eq hd
        exact hlook
      | any msg =>
        have hsame : r.dispatcher.pendings = w.dispatcher.pendings := by
          refine Dispatcher.handleNotify_pendings hr fun hmsg => hmoves ?_
          unfold Moves
          rw [hqueue]
          cases msg <;> first | exact trivial | exact hmsg.elim
        exact hsame ▸ hlook
    | timer nowTick env =>
      obtain ⟨r, hr, rfl⟩ := step_timer hstep
      have hsame : r.dispatcher.pendings = w.dispatcher.pendings := by
        cases Dispatcher.processTimer_passed hr with
        | idle _ hd => rw [hd]
        | once mark _ hcall => exact Dispatcher.handleTimeout_pendings hcall
        | again mark _ _ timeout _ _ _ hcall =>
          exact (Dispatcher.handleTimeout_pendings hcall).trans
            (Dispatcher.refreshTimeout_sameTable w.dispatcher mark timeout).pendings
      exact hsame ▸ hlook
    | _ => exact absurd trivial hl

variable [LawfulSlab S]

omit [DecidableEq M] in
/-- The key that the slab hands out next holds no connection. -/
theorem connAt_vacantKey : w.dispatcher.connAt
    (w.dispatcher.offset + Slab.vacantKey w.dispatcher.localConnections) = none := by
  rw [Dispatcher.connAt_token, LawfulSlab.get_vacantKey]

/-- A stream is connected: its connection is added, and the callbacks that wait stay. -/
private theorem connsStep_connected {env : Env M} {msg : TcpConnMessage M} {stream : TcpStream}
    {peerAddr : SocketAddr} {cb : Closure} {r : Dispatcher S M × List (TcpConnMessage M) × Locked}
    (hrecv : w.Receives (.receive env) msg) (hne : ∀ token, msg ≠ .removed token)
    (hok : w.dispatcher.addConnection stream peerAddr cb env = .ok r)
    (hd : w'.dispatcher = r.1) : w.ConnsStep (.receive env) w' := by
  obtain ⟨c, hid, hr⟩ := Dispatcher.addConnection_ok hok
  rw [hr] at hd
  refine .added _ c connAt_vacantKey (Dispatcher.connAt_insert (by rw [hd]) (by rw [hd])) hid
    (by rw [hd]) (fun t f hlook => Or.inl ?_) fun token h => ?_
  · rwa [hd] at hlook
  · exact hne token (receives_unique hrecv h)

/-- A stream is still connecting: its connection is added, and its callback waits. -/
private theorem connsStep_connecting {env : Env M} {stream : TcpStream} {addr : SocketAddr}
    {cb : Closure} {r : Dispatcher S M × Locked}
    (hrecv : w.Receives (.receive env) (.connecting stream addr cb))
    (hok : w.dispatcher.addConnecting stream addr cb env = .ok r)
    (hd : w'.dispatcher = r.1) : w.ConnsStep (.receive env) w' := by
  have hcovers : Dispatcher.Covers fun _ => True := fun _ _ => trivial
  obtain ⟨c, token, rfl, hc, hr, -⟩ :=
    (Dispatcher.addConnecting_outcome hcovers addr (Or.inr fun _ => trivial)).of_ok hok
  rw [hr] at hd
  refine .added _ c connAt_vacantKey (Dispatcher.connAt_insert (by rw [hd]) (by rw [hd])) hc.id
    (by rw [hd]) (fun t f hlook => ?_) fun token h => by cases receives_unique hrecv h
  rw [hd] at hlook
  by_cases ht : t = w.dispatcher.offset + Slab.vacantKey w.dispatcher.localConnections
  · subst ht
    rw [AList.lookup_insert] at hlook
    cases hlook
    exact Or.inr ⟨rfl, by simp [hc.log]⟩
  · rw [AList.lookup_insert_ne ht] at hlook
    exact Or.inl hlook

/-- A message that adds or removes a connection. -/
private theorem connsStep_message {env : Env M} {msg : TcpConnMessage M} {r : Handled S M}
    (hrecv : w.Receives (.receive env) msg) (hmsg : Dispatcher.MovesConnection msg)
    (hok : w.dispatcher.handleNotify w.timer msg env = .ok r)
    (hd : w'.dispatcher = r.dispatcher) (hlocked : w'.locked = r.locked) :
    w.ConnsStep (.receive env) w' := by
  cases Dispatcher.handleNotify_notified hok with
  | called token k r hcall => cases msg <;> first | exact hmsg.elim | cases hcall
  | added stream peerAddr cb r hadded hr =>
    refine connsStep_connected hrecv ?_ hr hd
    rcases hadded with rfl | ⟨addr, rfl, -⟩ <;> simp
  | waits stream addr cb e r _ _ hr => exact connsStep_connecting hrecv hr hd
  | dropped =>
    -- The stream is dropped, and nothing changes.
    refine .kept (fun token c hc => ⟨c, by rw [hd]; exact hc, rfl⟩) (fun token hnone => ?_)
      (fun token f hlook => ?_) (by rw [hd]) fun token h => by cases receives_unique hrecv h
    · rw [hd]
      exact hnone
    · rwa [hd] at hlook
  | removed token r hr =>
    have hcovers : Dispatcher.Covers fun _ => True := fun _ _ => trivial
    obtain ⟨key, c, rfl, hget, hd', hlocked'⟩ :=
      (Dispatcher.removeConnection_outcome hcovers).of_ok hr
    replace hd : w'.dispatcher = r.1 := hd
    replace hlocked : w'.locked = some r.2 := hlocked
    rw [hd'] at hd
    rw [hlocked'] at hlocked
    exact .removed _ c env.peerAddr hrecv ((Dispatcher.connAt_token _ key).trans hget)
      (Dispatcher.connAt_remove (by rw [hd]) (by rw [hd])) (by rw [hd]) (by rw [hd])
      (fun r k => by rw [hd]; rfl) hlocked
  | _ => exact hmsg.elim

/-- A step that neither adds nor removes a connection keeps them all. -/
theorem step_kept (hstep : w.Step l w') (hmoves : ¬ w.Moves l) :
    (∀ token c, w.dispatcher.connAt token = some c →
      ∃ c', w'.dispatcher.connAt token = some c' ∧ c'.id = c.id) ∧
    (∀ token, w.dispatcher.connAt token = none → w'.dispatcher.connAt token = none) ∧
    w'.dispatcher.made = w.dispatcher.made := by
  -- A connection that is live has the `id` that was there before.
  have hall : w.dispatcher.All fun _ token c =>
      ∀ c', w.dispatcher.connAt token = some c' → c.id = c'.id := by
    intro key c hget c' hc'
    rw [Dispatcher.connAt_token, hget] at hc'
    rw [Option.some.inj hc']
  have hnew : ∀ c', w.dispatcher.connAt (w.dispatcher.offset
      + Slab.vacantKey w.dispatcher.localConnections) = some c' → w.dispatcher.made = c'.id := by
    intro c' hc'
    rw [Dispatcher.connAt_token, LawfulSlab.get_vacantKey] at hc'
    cases hc'
  obtain ⟨hall, ⟨-, hkept, -⟩ | ⟨hm, -⟩⟩ := step_identity
    (R := fun token id _ => ∀ c', w.dispatcher.connAt token = some c' → id = c'.id) hstep hall hnew
  · refine ⟨fun token c hc => ?_, fun token hnone => ?_, hkept.made⟩
    · obtain ⟨key, rfl, hget⟩ := Dispatcher.connAt_eq_some.mp hc
      have hsome := hkept.isSome key
      rw [hget] at hsome
      obtain ⟨c', hget'⟩ := Option.isSome_iff_exists.mp hsome
      refine ⟨c', ?_, ?_⟩
      · rw [← hkept.offset, Dispatcher.connAt_token, hget']
      · have hid := hall key c' hget' c
        rw [hkept.offset] at hid
        exact hid hc
    · by_contra hsome
      obtain ⟨c', hc'⟩ := Option.ne_none_iff_exists'.mp hsome
      obtain ⟨key, rfl, hget'⟩ := Dispatcher.connAt_eq_some.mp hc'
      rw [hkept.offset, Dispatcher.connAt_token] at hnone
      have hsome := hkept.isSome key
      rw [hnone, hget'] at hsome
      cases hsome
  · exact absurd hm hmoves

/-- Every step does one of these things to the connections. -/
theorem step_conns (hstep : w.Step l w') : w.ConnsStep l w' := by
  by_cases hmoves : w.Moves l
  · obtain ⟨env, msg, target, queue, r, rfl, hqueue, hmsg, hr, rfl⟩ := step_moves hmoves hstep
    exact connsStep_message ⟨target, queue, hqueue⟩ hmsg hr rfl rfl
  · obtain ⟨hlive, hdead, hmade⟩ := step_kept hstep hmoves
    refine .kept hlive hdead (fun t f => step_pendings hstep hmoves t f) hmade fun token hrecv => ?_
    cases l with
    | receive env =>
      obtain ⟨target, queue, hqueue⟩ := hrecv
      refine hmoves ?_
      unfold Moves
      rw [hqueue]
      trivial
    | _ => exact hrecv

end Worker

end Ruduo
