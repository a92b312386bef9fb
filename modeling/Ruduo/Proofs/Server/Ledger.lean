import Ruduo.Proofs.Connection.Closing
import Ruduo.Proofs.Server.Lifecycle
import Ruduo.Proofs.Server.Turnover

/-!
# `Ruduo.Proofs.Server.Ledger`: what a step does to the closed connections

For each token the ledger of a worker has the connection that holds it, and how often this was
closed (`Worker.entryAt`). Next to it stand the `Removed` messages that were sent and not handled
(`Worker.underWay`). `LedgerStep` lists what a step can do to both, one constructor for each kind
(`step_ledger`): nothing, or a connection is added, removed or closed.
-/

set_option autoImplicit false

namespace Ruduo

open Lib (Outcome Slab LawfulSlab)

variable {S : Type → Type} [Slab S] {M : Type} [DecidableEq M]

/-! ### The messages that a handler call sends -/

namespace Dispatcher
variable {d d' : Dispatcher S M} {token : Token} {mark : M} {env : Env M} {timer : Timer S M}
  {sent : List (TcpConnMessage M)}

omit [DecidableEq M] in
/-- A call that asks for no removal is made on a connection, or on none. -/
private theorem withConnection_removals {f : Session M → Except Fault (Session M)}
    (hf : ∀ c s, f { conn := c, sent := [] } = .ok s → s.removals = [])
    {r : Dispatcher S M × List (TcpConnMessage M)} (h : d.withConnection token f = .ok r) :
    r.2.filterMap TcpConnMessage.removal = [] :=
  (withConnection_outcome (Q := fun r => r.2.filterMap TcpConnMessage.removal = [])
    (E := fun _ => True) (fun _ _ _ => trivial) (fun _ => rfl)
    fun _ c _ _ => Outcome.intro (fun s hs => hf c s hs) fun _ _ => trivial).of_ok h

omit [DecidableEq M] in
/-- `add_connection` asks for no removal. -/
private theorem addConnection_removals {stream : TcpStream} {peerAddr : SocketAddr} {cb : Closure}
    {r : Dispatcher S M × List (TcpConnMessage M) × Locked} (henv : env.SendsNoRemoval)
    (h : d.addConnection stream peerAddr cb env = .ok r) :
    r.2.1.filterMap TcpConnMessage.removal = [] := by
  obtain ⟨stream', -, h⟩ := bind_eq_ok.mp h
  obtain ⟨token, -, h⟩ := bind_eq_ok.mp h
  obtain ⟨conn, -, h⟩ := bind_eq_ok.mp h
  obtain ⟨s, hs, h⟩ := bind_eq_ok.mp h
  cases h
  exact Session.call_removals (k := .established cb env.msgs env.acts)
    (s := { conn, sent := [] }) hs henv id

/-- Handling a message sends no `Removed`. -/
private theorem handleNotify_removals {msg : TcpConnMessage M} {r : Handled S M}
    (henv : env.SendsNoRemoval) (h : d.handleNotify timer msg env = .ok r) :
    r.sent.filterMap TcpConnMessage.removal = [] := by
  cases handleNotify_notified h with
  | called token k r hk hr =>
    -- No message asks for a `handle_read`, and the callbacks send what `env` has.
    have hcall : k.SendsNoRemoval ∧ ¬ k.IsRead := by
      cases msg <;> cases hk <;> first
        | exact ⟨trivial, id⟩
        | exact ⟨henv.1, id⟩
        | exact ⟨henv.2, id⟩
    exact withConnection_removals (fun c s hs => Session.call_removals hs hcall.1 hcall.2) hr
  | added stream peerAddr cb r _ hr => exact addConnection_removals henv hr
  | _ => rfl

/-- The closure of a timer asks for no removal. -/
private theorem handleTimeout_removals {repeats : Bool}
    {r : Dispatcher S M × List (TcpConnMessage M)}
    (henv : env.SendsNoRemoval) (h : d.handleTimeout mark repeats env = .ok r) :
    r.2.filterMap TcpConnMessage.removal = [] := by
  have hcall : ∀ (f : Closure) c s,
      ({ conn := c, sent := [] } : Session M).timer f env.acts = .ok s → s.removals = [] :=
    fun f c s hs => Session.call_removals (k := .timer f env.acts)
      (s := { conn := c, sent := [] }) hs henv.2 id
  unfold handleTimeout at h
  split at h
  · split at h
    · exact withConnection_removals (hcall _) h
    · cases h
      rfl
  · split at h
    · obtain ⟨⟨d₁, sent⟩, hr, h⟩ := bind_eq_ok.mp h
      cases h
      have hsent := withConnection_removals (hcall _) hr
      exact hsent
    · cases h
      rfl

/-- A pass of `process_timers` asks for no removal. -/
private theorem processTimer_removals {nowTick : Nat} {r : Handled S M} (henv : env.SendsNoRemoval)
    (h : d.processTimer timer nowTick env = .ok r) :
    r.sent.filterMap TcpConnMessage.removal = [] := by
  cases processTimer_passed h with
  | idle htick =>
    rw [processTimer, htick, ok_bind] at h
    have hsent := congrArg Handled.sent (Except.ok.inj h)
    rw [← hsent]
    rfl
  | once mark _ hcall => exact handleTimeout_removals henv hcall
  | again mark _ _ timeout _ _ _ hcall => exact handleTimeout_removals henv hcall

omit [Slab S] [DecidableEq M] in
/-- The readable part of an event closes once and sends `Removed` with it, or does neither. -/
private theorem handleReadable_closing {pendings : AList fun _ : Token => Closure}
    {s s' : Session M}
    (henv : env.SendsNoRemoval) (h : handleReadable d.pendings token env s = .ok (pendings, s')) :
    (s'.removals = s.removals ∧ s'.conn.closes = s.conn.closes) ∨
      (s'.removals = s.removals ++ [s.conn.token] ∧ s'.conn.closes = s.conn.closes + 1) := by
  rw [handleReadable_eq] at h
  cases hk : d.readableCall token env with
  | none =>
    rw [hk] at h
    cases h
    exact Or.inl ⟨rfl, rfl⟩
  | some k =>
    rw [hk] at h
    obtain ⟨s₁, hs₁, h⟩ := bind_eq_ok.mp h
    cases h
    rcases readableCall_cases hk with ⟨-, rfl⟩ | ⟨cb, addr, -, -, rfl⟩
    · obtain ⟨hremovals, hcloses⟩ := Session.handleRead_closing hs₁ henv
      cases hmeets : meetsEof env.reads with
      | true => exact Or.inr ⟨by rw [hremovals, hmeets]; rfl, by rw [hcloses, hmeets]; rfl⟩
      | false => exact Or.inl ⟨by simp [hremovals, hmeets], by simp [hcloses, hmeets]⟩
    · exact Or.inl ⟨Session.call_removals hs₁ henv id, Session.call_closes hs₁ id⟩

omit [DecidableEq M] in
/-- An event closes its connection once and sends `Removed` with it, or does neither. -/
private theorem handleIoEvent_closing [LawfulSlab S] {readable writable : Bool}
    (henv : env.SendsNoRemoval) (htoken : ∀ c, d.connAt token = some c → c.token = token)
    (h : d.handleIoEvent token readable writable env = .ok (d', sent)) :
    (sent.filterMap TcpConnMessage.removal = [] ∧ ∀ c c', d.connAt token = some c →
        d'.connAt token = some c' → c'.closes = c.closes) ∨
      (readable = true ∧ sent.filterMap TcpConnMessage.removal = [token] ∧
        ∃ c c', d.connAt token = some c ∧ d'.connAt token = some c' ∧
          c'.closes = c.closes + 1) := by
  obtain ⟨key, hkey, h⟩ := bind_eq_ok.mp h
  obtain rfl := restoreKey_eq_ok.mp hkey
  dsimp only at h
  split at h
  · rename_i c hget
    have hat : d.connAt (d.offset + key) = some c := (connAt_token d key).trans hget
    obtain ⟨⟨pendings, s₁⟩, hread, h⟩ := bind_eq_ok.mp h
    obtain ⟨s₂, hwrite, h⟩ := bind_eq_ok.mp h
    cases h
    have hat' : ({ d with localConnections := Slab.set d.localConnections key s₂.conn, pendings } :
        Dispatcher S M).connAt (d.offset + key) = some s₂.conn := by
      rw [connAt_token]
      exact (Slab.get_set_of_some _ _ _ hget).trans (if_pos rfl)
    -- The writable part closes nothing.
    have hsame : s₂.removals = s₁.removals ∧ s₂.conn.closes = s₁.conn.closes := by
      split at hwrite
      · exact ⟨Session.handleWrite_removals hwrite,
          Session.call_closes (k := .handleWrite env.writes) hwrite id⟩
      · cases hwrite
        exact ⟨rfl, rfl⟩
    have hquiet : s₁.removals = [] → s₁.conn.closes = c.closes →
        s₂.sent.filterMap TcpConnMessage.removal = [] ∧
        ∀ c₀ c', d.connAt (d.offset + key) = some c₀ →
          ({ d with localConnections := Slab.set d.localConnections key s₂.conn, pendings } :
            Dispatcher S M).connAt (d.offset + key) = some c' → c'.closes = c₀.closes := by
      intro hremovals hcloses
      refine ⟨hsame.1.trans hremovals, fun c₀ c' hc₀ hc' => ?_⟩
      obtain rfl := Option.some.inj (hat.symm.trans hc₀)
      obtain rfl := Option.some.inj (hat'.symm.trans hc')
      exact hsame.2.trans hcloses
    split at hread
    · rename_i hreadable
      rcases handleReadable_closing henv hread with ⟨hremovals, hcloses⟩ | ⟨hremovals, hcloses⟩
      · exact Or.inl (hquiet hremovals hcloses)
      · refine Or.inr ⟨hreadable, ?_, c, s₂.conn, hat, hat', hsame.2.trans hcloses⟩
        refine (hsame.1.trans hremovals).trans ?_
        simp [Session.removals, htoken c hat]
    · cases hread
      exact Or.inl (hquiet rfl rfl)
  · rename_i hget
    cases h
    refine Or.inl ⟨rfl, fun c c' hc hc' => ?_⟩
    rw [Option.some.inj (hc.symm.trans hc')]

end Dispatcher

/-! ### The ledger -/

omit [DecidableEq M] in
/-- The token of a `Removed` message. -/
def Message.removal : Message (TcpConnMessage M) → Option Token
  | .any msg => msg.removal
  | .stop => none

omit [Slab S] [DecidableEq M] in
/-- A plain call closes nothing. -/
theorem ConnCall.IsPlain.not_closed {k : ConnCall M} (hk : k.IsPlain) : ¬ k.Records .closed := by
  cases k with
  | handleRead outcomes as closing | established cb msgs as => exact hk.elim
  | _ => simp [ConnCall.Records]

omit [Slab S] [DecidableEq M] in
/-- The step is neither for an event nor for a message. -/
def WorkerLabel.Fixed : WorkerLabel M → Prop
  | .event .. | .receive .. => False
  | _ => True

namespace Worker
variable {w w' : Worker S M} {l : WorkerLabel M} {token : Token} {c c' : TcpConnection}

omit [Slab S] [DecidableEq M] in
/-- The tokens of the `Removed` messages that were sent and not handled yet, in order. -/
def underWay (w : Worker S M) : List Token :=
  w.queue.filterMap (fun q => q.msg.removal) ++ w.outbox.filterMap TcpConnMessage.removal

omit [DecidableEq M] in
/-- The connection that holds the token, and how often it was closed. -/
def entryAt (w : Worker S M) (token : Token) : Option (Nat × Nat) :=
  (w.dispatcher.connAt token).map fun c => (c.id, c.closes)

omit [DecidableEq M] in
/-- Every connection knows the token that it holds. -/
def KnowTokens (w : Worker S M) : Prop :=
  ∀ token c, w.dispatcher.connAt token = some c → c.token = token

/-- What a step does to the closed connections and to the `Removed` messages. -/
inductive LedgerStep (w : Worker S M) (l : WorkerLabel M) (w' : Worker S M) : Prop where
  /-- No connection comes, goes or closes, and no `Removed` is dequeued. -/
  | same (hentries : ∀ t, w'.entryAt t = w.entryAt t) (hunderWay : w'.underWay = w.underWay)
    (hmade : w'.dispatcher.made = w.dispatcher.made)
    (hnot : ∀ token, ¬ w.Receives l (.removed token))
  /-- A connection was made. It is open. -/
  | added (env : Env M) (token : Token) (hl : l = .receive env) (hnone : w.entryAt token = none)
    (hentries : ∀ t, w'.entryAt t
      = if t = token then some (w.dispatcher.made, 0) else w.entryAt t)
    (hunderWay : w'.underWay = w.underWay)
    (hmade : w'.dispatcher.made = w.dispatcher.made + 1)
    (hnot : ∀ token, ¬ w.Receives l (.removed token))
  /-- The first `Removed` message under way was handled, and its connection is gone. -/
  | removed (token : Token) (hrecv : w.Receives l (.removed token))
    (hentries : ∀ t, w'.entryAt t = if t = token then none else w.entryAt t)
    (hunderWay : w.underWay = token :: w'.underWay)
    (hmade : w'.dispatcher.made = w.dispatcher.made)
  /-- A connection met the end of its stream. It sends one `Removed` message. -/
  | closed (token : Token) (writable : Bool) (env : Env M) (id n : Nat)
    (hl : l = .event token true writable env) (hentry : w.entryAt token = some (id, n))
    (hentries : ∀ t, w'.entryAt t = if t = token then some (id, n + 1) else w.entryAt t)
    (hunderWay : w'.underWay = w.underWay ++ [token])
    (hmade : w'.dispatcher.made = w.dispatcher.made)

omit [DecidableEq M] in
/-- Such a step leaves the ledger alone. -/
theorem LedgerStep.fixed (h : w.LedgerStep l w') (hl : l.Fixed) :
    (∀ t, w'.entryAt t = w.entryAt t) ∧ w'.underWay = w.underWay ∧
      w'.dispatcher.made = w.dispatcher.made := by
  cases h with
  | same hentries hunderWay hmade => exact ⟨hentries, hunderWay, hmade⟩
  | added env token hreceive =>
    subst hreceive
    exact hl.elim
  | removed token hrecv =>
    cases l with
    | receive env => exact hl.elim
    | _ => exact hrecv.elim
  | closed token writable env id n hevent =>
    subst hevent
    exact hl.elim

section
variable [LawfulSlab S]

/-- A step closes a connection only when the connection has a readable event. -/
theorem step_closes (hstep : w.Step l w') (hc : w.dispatcher.connAt token = some c)
    (hc' : w'.dispatcher.connAt token = some c')
    (hl : ∀ writable env, l ≠ .event token true writable env) : c'.closes = c.closes := by
  obtain ⟨events, hlog, hmem⟩ := step_log (e := .closed) hstep hc hc' (by simp) fun k hk => by
    rcases callOf_cases hk with hplain | ⟨writable, env, rfl, -⟩
    · exact ConnCall.IsPlain.not_closed hplain
    · exact absurd rfl (hl writable env)
  rw [TcpConnection.closes, hlog, List.count_append, List.count_eq_zero_of_not_mem hmem]
  rfl

/-- A connection that comes is not closed. -/
theorem step_newborn (hstep : w.Step l w') (hnone : w.dispatcher.connAt token = none)
    (hc' : w'.dispatcher.connAt token = some c') : c'.closes = 0 := by
  by_cases hmoves : w.Moves l
  · have hcovers : Dispatcher.Covers fun _ => True := fun _ _ => trivial
    -- No connection is at a token that nobody holds, until the new one is.
    have hall : w.dispatcher.All fun _ t c => w.dispatcher.connAt t = none → c.closes = 0 := by
      intro key c hget hat
      rw [Dispatcher.connAt_token, hget] at hat
      cases hat
    obtain ⟨env, msg, target, queue, r, rfl, hqueue, hmsg, hr, rfl⟩ := step_moves hmoves hstep
    have hall' := ((Dispatcher.handleNotify_moves (P := fun _ t c =>
      w.dispatcher.connAt t = none → c.closes = 0) hcovers hall hmsg (Or.inr fun _ => trivial)
      (fun c cb registered _ hc => Outcome.intro (fun s hs _ => ?_) fun _ _ => trivial)
      fun c cb hc _ => ?_).of_ok hr).1
    · obtain ⟨key, rfl, hget⟩ := Dispatcher.connAt_eq_some.mp hc'
      exact hall' key c' hget hnone
    · rw [Session.call_closes hs id]
      simp [TcpConnection.closes, hc.log]
    · simp [TcpConnection.closes, hc.log]
  · rw [(step_kept hstep hmoves).2.1 token hnone] at hc'
    cases hc'

/-! ### The steps -/

omit [DecidableEq M] [LawfulSlab S] in
/-- The entry of a live token is the number of its connection, and how often it was closed. -/
theorem entryAt_of_connAt (hc : w.dispatcher.connAt token = some c) :
    w.entryAt token = some (c.id, c.closes) := by
  rw [entryAt, hc]
  rfl

omit [DecidableEq M] [LawfulSlab S] in
/-- A token without a connection has no entry. -/
theorem entryAt_eq_none : w.entryAt token = none ↔ w.dispatcher.connAt token = none := by
  rw [entryAt, Option.map_eq_none_iff]

omit [DecidableEq M] [LawfulSlab S] in
/-- The ledger of a token whose connection stays. -/
theorem entryAt_kept (hlive : ∀ c, w.dispatcher.connAt token = some c →
      ∃ c', w'.dispatcher.connAt token = some c' ∧ c'.id = c.id)
    (hdead : w.dispatcher.connAt token = none → w'.dispatcher.connAt token = none)
    (hcloses : ∀ c c', w.dispatcher.connAt token = some c → w'.dispatcher.connAt token = some c' →
      c'.closes = c.closes) : w'.entryAt token = w.entryAt token := by
  cases hc : w.dispatcher.connAt token with
  | none => rw [entryAt_eq_none.mpr hc, entryAt_eq_none.mpr (hdead hc)]
  | some c =>
    obtain ⟨c', hc', hid⟩ := hlive c hc
    rw [entryAt_of_connAt hc, entryAt_of_connAt hc', hid, hcloses c c' hc hc']

/-- Without a readable event, the ledger changes when a connection comes or goes. -/
private theorem ledgerStep_quiet (hstep : w.Step l w')
    (hl : ∀ token writable env, l ≠ .event token true writable env)
    (hsame : (∀ token, ¬ w.Receives l (.removed token)) → w'.underWay = w.underWay)
    (hremoved : ∀ token, w.Receives l (.removed token) → w.underWay = token :: w'.underWay) :
    w.LedgerStep l w' := by
  have hcloses : ∀ t c c', w.dispatcher.connAt t = some c → w'.dispatcher.connAt t = some c' →
      c'.closes = c.closes := fun t c c' hc hc' => step_closes hstep hc hc' (hl t)
  cases step_conns hstep with
  | kept hlive hdead _ hmade hnot =>
    exact .same (fun t => entryAt_kept (hlive t) (hdead t) (hcloses t)) (hsame hnot) hmade hnot
  | added token new hnone hconns hid hmade _ hnot =>
    -- Only a message that adds a connection counts up `made`.
    have hmoves : w.Moves l := by
      by_contra hmoves
      have hkept := (step_kept hstep hmoves).2.2
      omega
    obtain ⟨env, -, -, -, rfl, -⟩ := exec_moves hmoves hstep
    refine .added env token rfl (entryAt_eq_none.mpr hnone) (fun t => ?_) (hsame hnot) hmade hnot
    split
    · rename_i ht
      subst ht
      have hnew : w'.dispatcher.connAt t = some new := by rw [hconns, if_pos rfl]
      rw [entryAt_of_connAt hnew, hid, step_newborn hstep hnone hnew]
    · rename_i ht
      rw [entryAt, hconns, if_neg ht, entryAt]
  | removed token gone peerAddr hrecv hlive hconns hmade =>
    refine .removed token hrecv (fun t => ?_) (hremoved token hrecv) hmade
    split
    · rename_i ht
      rw [entryAt, hconns, if_pos ht]
      rfl
    · rename_i ht
      rw [entryAt, hconns, if_neg ht, entryAt]

omit [Slab S] [LawfulSlab S] [DecidableEq M] in
/-- A handler call begins with nothing left to send. -/
theorem underWay_of_idle (hidle : w.Idle) :
    w.underWay = w.queue.filterMap fun q => q.msg.removal := by
  have hempty : w.outbox = [] := List.isEmpty_iff.mp hidle.1
  simp [underWay, hempty]

omit [LawfulSlab S] in
/-- What the call for an event sends comes last. -/
theorem underWay_event {readable writable : Bool} {env : Env M}
    (hstep : w.Step (.event token readable writable env) w') :
    w'.underWay = w.underWay ++ w'.outbox.filterMap TcpConnMessage.removal := by
  have hidle := idle_of_exec id hstep
  obtain ⟨d, sent, -, rfl⟩ := step_event hstep
  rw [underWay_of_idle hidle]
  rfl

/-- An event, which may close its connection. -/
private theorem ledgerStep_event {readable writable : Bool} {env : Env M}
    (hstep : w.Step (.event token readable writable env) w') (henv : env.SendsNoRemoval)
    (htokens : w.KnowTokens) : w.LedgerStep (.event token readable writable env) w' := by
  obtain ⟨hlive, hdead, hmade⟩ := step_kept hstep id
  -- No other connection is closed.
  have hothers : ∀ t, t ≠ token → w'.entryAt t = w.entryAt t := by
    intro t ht
    refine entryAt_kept (hlive t) (hdead t) fun c c' hc hc' => step_closes hstep hc hc' ?_
    intro writable' env' heq
    cases heq
    exact ht rfl
  have hunderWay := underWay_event hstep
  obtain ⟨d, sent, hd, hw'⟩ := step_event hstep
  have hdispatcher : w'.dispatcher = d := by rw [hw']; rfl
  have houtbox : w'.outbox = sent := by rw [hw']; rfl
  rw [houtbox] at hunderWay
  rcases Dispatcher.handleIoEvent_closing henv (htokens token) hd with
    ⟨hsent, hsame⟩ | ⟨rfl, hsent, c, c', hc, hc', hcloses⟩
  · refine .same (fun t => ?_) (by rw [hunderWay, hsent, List.append_nil]) hmade fun _ => id
    by_cases ht : t = token
    · subst ht
      exact entryAt_kept (hlive t) (hdead t) fun c c' hc hc' => hsame c c' hc (hdispatcher ▸ hc')
    · exact hothers t ht
  · refine .closed token writable env c.id c.closes rfl (entryAt_of_connAt hc) (fun t => ?_)
      (by rw [hunderWay, hsent]) hmade
    split
    · rename_i ht
      subst ht
      obtain ⟨c'', hc'', hid⟩ := hlive t c hc
      rw [entryAt_of_connAt hc'', hid]
      rw [hdispatcher, hc'] at hc''
      rw [← Option.some.inj hc'', hcloses]
    · rename_i ht
      exact hothers t ht

/-- A message: a `Removed` is handled, or nothing happens to these messages. -/
private theorem ledgerStep_receive {env : Env M} (hstep : w.Step (.receive env) w')
    (henv : env.SendsNoRemoval) : w.LedgerStep (.receive env) w' := by
  have hidle := idle_of_exec id hstep
  obtain ⟨⟨msg, target⟩, queue, r, hqueue, hr, hw'⟩ := step_receive hstep
  have hsent : r.sent.filterMap TcpConnMessage.removal = [] := by
    cases msg with
    | stop =>
      obtain ⟨d, -, hr⟩ := bind_eq_ok.mp hr
      cases hr
      rfl
    | any msg => exact Dispatcher.handleNotify_removals henv hr
  -- What is left is the rest of the queue.
  have hafter : w'.underWay = queue.filterMap fun q => q.msg.removal := by
    rw [hw']
    simp [underWay, after, hsent]
  refine ledgerStep_quiet hstep (by simp) (fun hnot => ?_) fun token hrecv => ?_
  · rw [hafter, underWay_of_idle hidle, hqueue, List.filterMap_cons]
    cases hmsg : msg.removal with
    | none => rfl
    | some token =>
      have hremoved : msg = .any (.removed token) := by
        cases msg with
        | stop => cases hmsg
        | any msg =>
          cases msg <;> cases hmsg
          rfl
      exact absurd ⟨target, queue, by rw [hqueue, hremoved]⟩ (hnot token)
  · obtain ⟨target', queue', hqueue'⟩ := hrecv
    rw [underWay_of_idle hidle, hafter]
    rw [hqueue] at hqueue'
    cases hqueue'
    rw [hqueue]
    rfl

/-- A connection goes on knowing its token. -/
theorem step_knowTokens (h : w.KnowTokens) (hstep : w.Step l w') : w'.KnowTokens := by
  have hall : w.dispatcher.All fun _ token c => c.token = token := by
    intro key c hget
    exact h _ c ((Dispatcher.connAt_token _ key).trans hget)
  have hall' := (step_identity (R := fun token _ token' => token' = token) hstep hall rfl).1
  intro token c hc
  obtain ⟨key, rfl, hget⟩ := Dispatcher.connAt_eq_some.mp hc
  exact hall' key c hget

/-- Every step does one of these things to the ledger, when only `handle_read` sends
`Removed`. -/
theorem step_ledger (hstep : w.Step l w') (hl : l.OnlyReadsRemove) (htokens : w.KnowTokens) :
    w.LedgerStep l w' := by
  cases l with
  | enqueue msg =>
    cases hstep
    refine .same (fun _ => rfl) ?_ rfl fun _ => id
    have hnone : msg.removal = none := by
      cases msg with
      | stop => rfl
      | any msg => exact hl
    simp [underWay, push, hnone]
  | flush =>
    unfold Step exec at hstep
    dsimp only at hstep
    split at hstep
    · rename_i msg outbox houtbox
      cases hstep
      refine .same (fun _ => rfl) ?_ rfl fun _ => id
      -- The message goes from the outbox to the end of the queue.
      simp only [underWay, push, houtbox, List.filterMap_append, List.filterMap_cons,
        List.filterMap_nil]
      cases hmsg : msg.removal <;> simp [Message.removal, hmsg]
    · cases hstep
  | lock =>
    unfold Step exec at hstep
    dsimp only at hstep
    split at hstep
    · cases hstep
      exact .same (fun _ => rfl) rfl rfl fun _ => id
    · cases hstep
  | event token readable writable env => exact ledgerStep_event hstep hl htokens
  | timer nowTick env =>
    -- The closure may send messages, but no `Removed`.
    have hidle := idle_of_exec id hstep
    obtain ⟨r, hr, hw'⟩ := step_timer hstep
    refine ledgerStep_quiet hstep (by simp) (fun _ => ?_) fun _ => False.elim
    rw [underWay_of_idle hidle, hw']
    have hsent := Dispatcher.processTimer_removals hl hr
    simp [underWay, after, hsent]
  | receive env => exact ledgerStep_receive hstep hl

end

end Worker

end Ruduo
