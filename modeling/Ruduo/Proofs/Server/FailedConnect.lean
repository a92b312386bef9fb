import Ruduo.Proofs.Server.GracefulShutdown
import Ruduo.Proofs.Server.Ledger
import Ruduo.Proofs.Server.Lifecycle
import Ruduo.Spec.FailedConnect

/-!
# `Ruduo.Proofs.Server.FailedConnect`: a failed connect keeps its place

While the setup callback of a connection waits, no readable event reaches `handle_read`, and only
`handle_read` asks for the removal of the connection. So as long as `peer_addr()` returns no
address, whatever error it returns, the connection stays (`Connecting.step`), for good
(`failed_connect_stays`).
-/

set_option autoImplicit false

namespace Ruduo

open Lib (Run Slab LawfulSlab)

variable {S : Type → Type} [Slab S] {M : Type} [DecidableEq M] {token : Token} {f : Closure}

omit [DecidableEq M] [Slab S] in
/-- While the callback waits and there is no peer, a readable event makes no call. -/
theorem Dispatcher.readableCall_of_refused {d : Dispatcher S M} {env : Env M}
    (hwaits : d.pendings.lookup token = some f) (hrefused : ∀ addr, env.peerAddr ≠ .ok addr) :
    d.readableCall token env = none := by
  unfold readableCall
  rw [hwaits]
  cases hpeer : env.peerAddr with
  | ok addr => exact absurd hpeer (hrefused addr)
  | error e => rfl

omit [DecidableEq M] in
/-- Such an event takes no callback out that waits for another connection, or for a peer. -/
theorem Dispatcher.handleIoEvent_waits {d d' : Dispatcher S M} {t : Token} {env : Env M}
    {readable writable : Bool} {sent : List (TcpConnMessage M)}
    (hok : d.handleIoEvent t readable writable env = .ok (d', sent))
    (hwaits : d.pendings.lookup token = some f)
    (hrefused : t = token → readable = true → ∀ addr, env.peerAddr ≠ .ok addr) :
    d'.pendings.lookup token = some f := by
  obtain ⟨key, -, hok⟩ := bind_eq_ok.mp hok
  dsimp only at hok
  split at hok
  · obtain ⟨⟨pendings, s₁⟩, hread, hok⟩ := bind_eq_ok.mp hok
    obtain ⟨s₂, -, hok⟩ := bind_eq_ok.mp hok
    cases hok
    cases readable with
    | false =>
      cases hread
      exact hwaits
    | true =>
      replace hread : handleReadable d.pendings t env _ = .ok (pendings, s₁) := hread
      rw [handleReadable_eq] at hread
      cases hcall : d.readableCall t env with
      | none =>
        rw [hcall] at hread
        cases hread
        exact hwaits
      | some k =>
        rw [hcall] at hread
        obtain ⟨s₃, -, hread⟩ := bind_eq_ok.mp hread
        cases hread
        have hne : token ≠ t := by
          rintro rfl
          cases (readableCall_of_refused hwaits (hrefused rfl rfl)).symm.trans hcall
        rcases readableCall_cases hcall with ⟨-, rfl⟩ | ⟨cb, addr, -, -, rfl⟩
        · exact hwaits
        · exact (AList.lookup_erase_ne hne).trans hwaits
  · cases hok
    exact hwaits

/-- A connection that comes or goes leaves the callbacks of the others alone. -/
theorem Dispatcher.handleNotify_waits [LawfulSlab S] {d : Dispatcher S M} {timer : Timer S M}
    {msg : TcpConnMessage M} {env : Env M} {r : Handled S M} {c : TcpConnection}
    (hok : d.handleNotify timer msg env = .ok r) (hmsg : MovesConnection msg)
    (hwaits : d.pendings.lookup token = some f) (hlive : d.connAt token = some c) :
    r.dispatcher.pendings.lookup token = some f := by
  have hcovers : Covers fun _ => True := fun _ _ => trivial
  cases handleNotify_notified hok with
  | called token k r hcall => cases msg <;> first | exact hmsg.elim | cases hcall
  | added stream peerAddr cb r _ hr =>
    obtain ⟨new, -, hd⟩ := addConnection_ok hr
    show r.1.pendings.lookup token = some f
    rw [hd]
    exact hwaits
  | waits stream addr cb e r _ _ hr =>
    obtain ⟨new, t, rfl, -, hd, -⟩ :=
      (addConnecting_outcome hcovers addr (Or.inr fun _ => trivial)).of_ok hr
    -- The new connection has a token that nobody holds.
    have hne : token ≠ d.offset + Slab.vacantKey d.localConnections := by
      rintro rfl
      rw [connAt_token, LawfulSlab.get_vacantKey] at hlive
      cases hlive
    show r.1.pendings.lookup token = some f
    rw [hd]
    exact (AList.lookup_insert_ne hne).trans hwaits
  | removed t r hr =>
    obtain ⟨key, gone, -, -, hd, -⟩ := (removeConnection_outcome hcovers).of_ok hr
    show r.1.pendings.lookup token = some f
    rw [hd]
    exact hwaits
  | dropped => exact hwaits
  | _ => exact hmsg.elim

namespace Worker
variable [LawfulSlab S] {w w' : Worker S M} {l : WorkerLabel M} {c c' : TcpConnection} {id : Nat}

/-- No step but an event with a peer takes out the callback of a live connection. -/
theorem step_waits (hwaits : w.dispatcher.pendings.lookup token = some f)
    (hlive : w.dispatcher.connAt token = some c)
    (hrefused : ∀ writable env, l = .event token true writable env →
      ∀ addr, env.peerAddr ≠ .ok addr)
    (hstep : w.Step l w') : w'.dispatcher.pendings.lookup token = some f := by
  by_cases hl : Passive l
  · obtain ⟨w₁, hw₁, hd, -⟩ := exec_passive hl hstep
    obtain rfl := Except.ok.inj hw₁
    rwa [hd]
  · cases l with
    | event t readable writable env =>
      obtain ⟨d, sent, hd, rfl⟩ := step_event hstep
      refine Dispatcher.handleIoEvent_waits hd hwaits ?_
      rintro rfl rfl
      exact hrefused writable env rfl
    | receive env =>
      obtain ⟨⟨msg, target⟩, queue, r, hqueue, hr, rfl⟩ := step_receive hstep
      cases msg with
      | stop =>
        obtain ⟨d, hd, hr⟩ := bind_eq_ok.mp hr
        cases hr
        obtain ⟨conns, rfl⟩ := Dispatcher.gracefulShutdown_eq hd
        exact hwaits
      | any msg =>
        by_cases hmsg : Dispatcher.MovesConnection msg
        · exact Dispatcher.handleNotify_waits hr hmsg hwaits hlive
        · have hsame := Dispatcher.handleNotify_pendings hr hmsg
          exact (congrArg (AList.lookup token) hsame).trans hwaits
    | timer nowTick env =>
      obtain ⟨r, hr, rfl⟩ := step_timer hstep
      have hsame : r.dispatcher.pendings = w.dispatcher.pendings := by
        cases Dispatcher.processTimer_passed hr with
        | idle _ hd => rw [hd]
        | once mark _ hcall => exact Dispatcher.handleTimeout_pendings hcall
        | again mark _ _ timeout _ _ _ hcall =>
          exact (Dispatcher.handleTimeout_pendings hcall).trans
            (Dispatcher.refreshTimeout_sameTable w.dispatcher mark timeout).pendings
      exact (congrArg (AList.lookup token) hsame).trans hwaits
    | _ => exact absurd trivial hl

omit [LawfulSlab S] in
/-- No call that such a step makes on the connection needs a peer. -/
theorem call_of_refused (hwaits : w.dispatcher.pendings.lookup token = some f)
    (hrefused : ∀ writable env, l = .event token true writable env →
      ∀ addr, env.peerAddr ≠ .ok addr) {k : ConnCall M} (hk : w.callOf l = some (token, k))
    {e : ConnEvent} (he : e.NeedsPeer) : ¬ k.Records e := by
  intro hrecords
  rcases callOf_cases hk with hplain | ⟨writable, env, rfl, hcall⟩
  · rcases he with hmilestone | rfl
    · rw [hplain.not_milestone hrecords] at hmilestone
      cases hmilestone
    · exact hplain.not_closed hrecords
  · have hnone := Dispatcher.readableCall_of_refused hwaits (hrefused writable env rfl)
    cases hnone.symm.trans hcall

/-- Such a step records nothing that needs a peer. -/
theorem log_of_refused (hwaits : w.dispatcher.pendings.lookup token = some f)
    (hrefused : ∀ writable env, l = .event token true writable env →
      ∀ addr, env.peerAddr ≠ .ok addr)
    (hstep : w.Step l w') (hc : w.dispatcher.connAt token = some c)
    (hc' : w'.dispatcher.connAt token = some c') :
    ∃ events, c'.log = c.log ++ events ∧ ∀ e ∈ events, ¬ e.NeedsPeer := by
  have hlog : ∀ e : ConnEvent, e.NeedsPeer → ∃ events, c'.log = c.log ++ events ∧ e ∉ events := by
    intro e he
    refine step_log hstep hc hc' ?_ fun k hk => call_of_refused hwaits hrefused hk he
    rcases he with hmilestone | rfl
    · intro mode
      constructor <;>
      · rintro rfl
        cases hmilestone
    · simp
  obtain ⟨events, heq, -⟩ := hlog .closed (Or.inr rfl)
  refine ⟨events, heq, fun e hmem he => ?_⟩
  obtain ⟨events', heq', hnot⟩ := hlog e he
  obtain rfl := List.append_cancel_left (heq.symm.trans heq')
  exact hnot hmem

/-- The connection waits for its peer, and nobody has asked for its removal. -/
structure Connecting (w : Worker S M) (token : Token) (f : Closure) (id : Nat)
    (log : List ConnEvent) : Prop where
  knowTokens : w.KnowTokens
  waits : w.dispatcher.pendings.lookup token = some f
  kept : token ∉ w.underWay
  live : ∃ c events, w.dispatcher.connAt token = some c ∧ c.id = id ∧ c.log = log ++ events ∧
    ∀ e ∈ events, ¬ e.NeedsPeer

/-- A step that does not find the peer leaves it waiting. -/
theorem Connecting.step {log : List ConnEvent} (h : w.Connecting token f id log)
    (hstep : w.RefusedStep token l w') : w'.Connecting token f id log := by
  obtain ⟨hstep, honly, hrefused⟩ := hstep
  obtain ⟨c, events, hc, hid, hevents, hpeer⟩ := h.live
  have hwaits := step_waits h.waits hc hrefused hstep
  have hentry := entryAt_of_connAt hc
  -- The step does not close the connection, and does not remove it.
  have hstays : w'.entryAt token = w.entryAt token ∧ token ∉ w'.underWay := by
    cases step_ledger hstep honly h.knowTokens with
    | same hentries hunderWay => exact ⟨hentries token, hunderWay ▸ h.kept⟩
    | added env t _ hnone hentries hunderWay =>
      have hne : token ≠ t := by
        rintro rfl
        cases hentry.symm.trans hnone
      exact ⟨by rw [hentries, if_neg hne], hunderWay ▸ h.kept⟩
    | removed t _ hentries hunderWay =>
      have hkept := h.kept
      rw [hunderWay, List.mem_cons, not_or] at hkept
      exact ⟨by rw [hentries, if_neg hkept.1], hkept.2⟩
    | closed t writable env id' n hl hentry' hentries hunderWay =>
      by_cases hne : token = t
      · subst hne
        -- It would have been closed by this step.
        have hnew := hentries token
        rw [if_pos rfl] at hnew
        obtain ⟨c', hc', hcloses⟩ := Option.map_eq_some_iff.mp hnew
        obtain ⟨added, hlog, hnone⟩ := log_of_refused h.waits hrefused hstep hc hc'
        have hsame : c'.closes = c.closes := by
          have hmem : ConnEvent.closed ∉ added := fun hmem => hnone _ hmem (Or.inr rfl)
          rw [TcpConnection.closes, hlog, List.count_append, List.count_eq_zero_of_not_mem hmem]
          rfl
        have hold := Prod.mk.inj (Option.some.inj (hentry.symm.trans hentry'))
        have hlater := (Prod.mk.inj hcloses).2
        omega
      · refine ⟨by rw [hentries, if_neg hne], ?_⟩
        rw [hunderWay, List.mem_append, List.mem_singleton, not_or]
        exact ⟨h.kept, hne⟩
  obtain ⟨hsame, hkept⟩ := hstays
  rw [hentry] at hsame
  obtain ⟨c', hc', hentry'⟩ := Option.map_eq_some_iff.mp hsame
  obtain ⟨added, hlog, hnone⟩ := log_of_refused h.waits hrefused hstep hc hc'
  refine ⟨step_knowTokens h.knowTokens hstep, hwaits, hkept, c', events ++ added, hc',
    (Prod.mk.inj hentry').1.trans hid, by rw [hlog, hevents, List.append_assoc], fun e he => ?_⟩
  exact (List.mem_append.mp he).elim (hpeer e) (hnone e)

/-- **A failed connect keeps its place for good.** Take a reachable state of a worker in which a
setup callback waits for a live connection, and nobody has asked for its removal. As long as
`peer_addr()` returns no address at the readable events of the connection, whichever error it
returns, and only `handle_read` sends `Removed`, no run of the worker changes that: the callback
still waits, the same connection is live under the token, and takes up its place in the slab. It
was neither set up nor established, nor read from, nor closed. -/
theorem failed_connect_stays (cap offset noti : Nat) (timer : Timer S M)
    {ls₀ ls : List (WorkerLabel M)} (hrun₀ : Run Step (new cap offset noti timer) ls₀ w)
    (hwaits : w.dispatcher.pendings.lookup token = some f)
    (hc : w.dispatcher.connAt token = some c) (hkept : token ∉ w.underWay)
    (hrun : Run (RefusedStep token) w ls w') :
    w'.dispatcher.pendings.lookup token = some f ∧ token ∉ w'.underWay ∧
      ∃ c' events, w'.dispatcher.connAt token = some c' ∧ c'.id = c.id ∧
        c'.log = c.log ++ events ∧ ∀ e ∈ events, ¬ e.NeedsPeer := by
  have hknow : w.KnowTokens := by
    refine hrun₀.invariant (P := KnowTokens) (fun _ _ _ h hstep => step_knowTokens h hstep) ?_
    intro t c hc
    obtain ⟨key, -, hget⟩ := Dispatcher.connAt_eq_some.mp hc
    cases (LawfulSlab.get_withCapacity cap key).symm.trans hget
  have hfirst : w.Connecting token f c.id c.log :=
    ⟨hknow, hwaits, hkept, c, [], hc, rfl, (List.append_nil _).symm, nofun⟩
  have hlast := hrun.invariant (P := fun w => w.Connecting token f c.id c.log)
    (fun _ _ _ h hstep => h.step hstep) hfirst
  exact ⟨hlast.waits, hlast.kept, hlast.live⟩

end Worker

section Example

/-- The answer of `peer_addr()` once the peer has refused. -/
def refused : IoError := { kind := .other, rawOsError := none }

/-- A stream is still connecting when the worker takes it over. -/
def oneConnecting : List (WorkerLabel String) :=
  [.enqueue (.any (.connecting .fresh 8 0)),
    .receive { quietEnv with peerAddr := .error notConnected }, .lock]

/-- The poller reports the refusal twice. -/
def refusedTwice : List (WorkerLabel String) :=
  [.event 0 true true { quietEnv with peerAddr := .error refused },
    .event 0 true false { quietEnv with peerAddr := .error refused }]

/-- The connection after both reports. -/
theorem failed_connect_stays_twice :
    ∃ (w w' : Worker Lib.FreeListSlab String) (f : Closure) (c : TcpConnection),
      Run Worker.Step (Worker.new 4 0 0 emptyTimer) oneConnecting w ∧
      Run (Worker.RefusedStep 0) w refusedTwice w' ∧
      w'.dispatcher.pendings.lookup 0 = some f ∧ 0 ∉ w'.underWay ∧
      ∃ c' events, w'.dispatcher.connAt 0 = some c' ∧ c'.id = c.id ∧
        c'.log = c.log ++ events ∧ ∀ e ∈ events, ¬ e.NeedsPeer := by
  have hsteps : ∃ (w w' : Worker Lib.FreeListSlab String) (f : Closure) (c : TcpConnection),
      Run Worker.Step (Worker.new 4 0 0 emptyTimer) oneConnecting w ∧
      w.dispatcher.pendings.lookup 0 = some f ∧ w.dispatcher.connAt 0 = some c ∧
      0 ∉ w.underWay ∧ Run (Worker.RefusedStep 0) w refusedTwice w' := by
    refine ⟨_, _, _, _, .cons rfl (.cons rfl (.cons rfl (.nil _))), rfl, rfl, by decide,
      .cons ⟨rfl, ⟨nofun, nofun⟩, ?_⟩ (.cons ⟨rfl, ⟨nofun, nofun⟩, ?_⟩ (.nil _))⟩
    all_goals
      rintro writable env heq addr
      cases heq
      nofun
  obtain ⟨w, w', f, c, hrun₀, hwaits, hc, hkept, hrun⟩ := hsteps
  exact ⟨w, w', f, c, hrun₀, hrun,
    Worker.failed_connect_stays 4 0 0 emptyTimer hrun₀ hwaits hc hkept hrun⟩

end Example

end Ruduo
