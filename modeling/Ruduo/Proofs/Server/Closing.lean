import Ruduo.Lib.DeferredRemoval
import Ruduo.Proofs.Server.Ledger
import Ruduo.Proofs.Server.Phases

/-!
# `Ruduo.Proofs.Server.Closing`: when every connection closes once

The ledger of a loop is a `DeferredRemoval`: a connection is closed in the event phase, and its
token waits in the queue until `remove_connection` takes it out in the message phase. The ledger is
sound as long as no connection is closed that is closed already. Two facts about the phases keep it
so (`Open`).

* After the message loop has emptied the queue, no `Removed` is under way, so no live connection is
  closed. This lasts until the next poll.
* A poll reports readability once per token. So none of the connections that still have a readable
  event is closed while the events are handled.

A `Stop` ends the message loop before the queue is empty. Then the first fact fails, and a closed
connection can be reported by the next poll (`ReportsClosed`).
-/

set_option autoImplicit false

namespace Ruduo.WorkerLoop

open Lib (Run Slab LawfulSlab DeferredRemoval)

variable {S : Type → Type} [Slab S] {M : Type} [DecidableEq M] {s s' : WorkerLoop S M}
  {l : WorkerLoopLabel M} {token : Token} {id n : Nat}

/-! ### The invariant -/

omit [DecidableEq M] in
/-- The closed connections, and those that are removed later. -/
def ledger (s : WorkerLoop S M) : DeferredRemoval Token where
  table := s.worker.entryAt
  waiting := s.worker.underWay
  closed := s.closers
  removed := s.removals
  made := s.worker.dispatcher.made

omit [DecidableEq M] in
/-- The connections that are not closed, phase by phase. -/
def Open (s : WorkerLoop S M) : Prop :=
  match s.phase with
  | .events left => ((left.filter fun e => e.readable).map fun e => e.token).Nodup ∧
      ∀ e ∈ left, e.readable = true → e.token ≠ K_WAKE_TOKEN →
        ∀ id n, s.worker.entryAt e.token = some (id, n) → n = 0
  | .drained | .timers _ | .top => s.stopped = false →
      ∀ token id n, s.worker.entryAt token = some (id, n) → n = 0
  | .draining | .returned => True

omit [DecidableEq M] in
/-- What holds between any two steps. -/
structure Guarded (s : WorkerLoop S M) : Prop where
  tokens : s.worker.KnowTokens
  sound : s.ledger.Sound
  isOpen : s.Open

/-! ### The ghost fields -/

omit [Slab S] [DecidableEq M] in
/-- After a message the same calls are about to close. -/
@[simp] private theorem afterMessage_closers {worker : Worker S M} :
    (s.afterMessage worker).closers = s.closers := by
  unfold afterMessage
  split <;> rfl

omit [Slab S] [DecidableEq M] in
/-- A `Removed` message is counted. -/
private theorem afterMessage_removed {worker : Worker S M} {env : Env M}
    (hrecv : s.worker.Receives (.receive env) (.removed token)) :
    s.afterMessage worker = { s with worker, removals := s.removals + 1 } := by
  obtain ⟨target, queue, hqueue⟩ := hrecv
  simp only [afterMessage, hqueue]

omit [Slab S] [DecidableEq M] in
/-- Other messages are not counted. -/
private theorem afterMessage_removals {worker : Worker S M} {env : Env M}
    (hnot : ∀ token, ¬ s.worker.Receives (.receive env) (.removed token)) :
    (s.afterMessage worker).removals = s.removals := by
  unfold afterMessage
  split
  · rfl
  · rename_i token target queue hqueue
    exact absurd ⟨target, queue, hqueue⟩ (hnot token)
  · rfl

omit [Slab S] [DecidableEq M] in
/-- The message loop goes on, or it ends because of a `Stop`. -/
private theorem afterMessage_phase {worker : Worker S M} (hphase : s.phase = .draining) :
    (s.afterMessage worker).phase = .draining ∨ ((s.afterMessage worker).phase = .drained ∧
      (s.afterMessage worker).stopped = true) := by
  unfold afterMessage
  split
  · exact Or.inr ⟨rfl, rfl⟩
  · exact Or.inl hphase
  · exact Or.inl hphase

omit [DecidableEq M] in
/-- Nothing but the worker changes, or the step of the loop ends. -/
private theorem afterTimer_cases (nowTick : Nat) (worker : Worker S M) :
    s.afterTimer nowTick worker = { s with worker } ∨
      s.afterTimer nowTick worker = { s with worker, phase := .top } := by
  unfold afterTimer
  split
  · exact Or.inr rfl
  · exact Or.inl rfl

/-! ### The operations of the ledger -/

omit [DecidableEq M] in
/-- A connection was added. -/
private theorem ledger_added {worker : Worker S M}
    (hremovals : (s.afterMessage worker).removals = s.removals)
    (hentries : ∀ t, worker.entryAt t
      = if t = token then some (s.worker.dispatcher.made, 0) else s.worker.entryAt t)
    (hunderWay : worker.underWay = s.worker.underWay)
    (hmade : worker.dispatcher.made = s.worker.dispatcher.made + 1) :
    (s.afterMessage worker).ledger = s.ledger.add token := by
  refine DeferredRemoval.ext (funext fun t => ?_) ?_ afterMessage_closers hremovals ?_
  · show (s.afterMessage worker).worker.entryAt t = _
    rw [afterMessage_worker, hentries]
    exact (Function.update_apply _ _ _ _).symm
  · show (s.afterMessage worker).worker.underWay = _
    rw [afterMessage_worker]
    exact hunderWay
  · show (s.afterMessage worker).worker.dispatcher.made = _
    rw [afterMessage_worker]
    exact hmade

omit [DecidableEq M] in
/-- A connection was removed. -/
private theorem ledger_removed {worker : Worker S M} {env : Env M}
    (hrecv : s.worker.Receives (.receive env) (.removed token))
    (hentries : ∀ t, worker.entryAt t = if t = token then none else s.worker.entryAt t)
    (hmade : worker.dispatcher.made = s.worker.dispatcher.made) :
    (s.afterMessage worker).ledger = s.ledger.remove token worker.underWay := by
  rw [afterMessage_removed hrecv]
  refine DeferredRemoval.ext (funext fun t => ?_) rfl rfl rfl hmade
  exact (hentries t).trans (Function.update_apply _ _ _ _).symm

omit [DecidableEq M] in
/-- The connection of an event was closed, and `Removed` was sent for it. -/
private theorem ledger_closed {e : IoEvent} {left : List IoEvent} {worker : Worker S M}
    (hentry : s.worker.entryAt e.token = some (id, n))
    (hremoval : worker.outbox.filterMap TcpConnMessage.removal = [e.token])
    (hentries : ∀ t, worker.entryAt t
      = if t = e.token then some (id, n + 1) else s.worker.entryAt t)
    (hunderWay : worker.underWay = s.worker.underWay ++ [e.token])
    (hmade : worker.dispatcher.made = s.worker.dispatcher.made) :
    (s.afterEvent e left worker).ledger = s.ledger.close e.token id n := by
  obtain ⟨c, hc, hcid⟩ := Option.map_eq_some_iff.mp hentry
  have hclosers : (s.afterEvent e left worker).closers = s.closers ++ [id] := by
    simp [afterEvent, hremoval, hc, (Prod.mk.inj hcid).1]
  refine DeferredRemoval.ext (funext fun t => ?_) hunderWay hclosers rfl hmade
  exact (hentries t).trans (Function.update_apply _ _ _ _).symm

/-! ### The steps -/

omit [DecidableEq M] in
/-- Nothing happens to the ledger. -/
private theorem sound_same (h : s.ledger.Sound)
    (hentries : ∀ t, s'.worker.entryAt t = s.worker.entryAt t)
    (hunderWay : s'.worker.underWay = s.worker.underWay)
    (hmade : s'.worker.dispatcher.made = s.worker.dispatcher.made)
    (hclosers : s'.closers = s.closers) (hremovals : s'.removals = s.removals) :
    s'.ledger.Sound := by
  have hsame : s'.ledger = s.ledger := by
    unfold ledger
    rw [hclosers, hremovals, hunderWay, hmade]
    congr 1
    exact funext hentries
  rw [hsame]
  exact h

omit [DecidableEq M] in
/-- Only the ledger's entries count, where the phase stays. -/
theorem Open.congr (h : s.Open) (hentries : ∀ t, s'.worker.entryAt t = s.worker.entryAt t)
    (hphase : s'.phase = s.phase) (hstopped : s'.stopped = s.stopped) : s'.Open := by
  unfold Open
  rw [hphase, hstopped]
  simp only [hentries]
  exact h

variable [LawfulSlab S]

/-- The worker makes a step that is neither an event nor a message. -/
theorem Guarded.fixed {k : WorkerLabel M} {worker : Worker S M} (h : s.Guarded)
    (hworker : s.worker.Step k worker) (hk : k.Fixed) (hl : k.OnlyReadsRemove) :
    ({ s with worker }).Guarded := by
  obtain ⟨hentries, hunderWay, hmade⟩ := (Worker.step_ledger hworker hl h.tokens).fixed hk
  exact ⟨Worker.step_knowTokens h.tokens hworker,
    sound_same h.sound hentries hunderWay hmade rfl rfl, h.isOpen.congr hentries rfl rfl⟩

omit [DecidableEq M] [LawfulSlab S] in
/-- A poll reports no connection that is closed. -/
theorem Guarded.poll {ready : List IoEvent} (h : s.Guarded) (hphase : s.phase = .top)
    (hreport : s.mayReport ready = true) (hclean : ¬ s.ReportsClosed (.poll ready)) :
    ({ s with phase := .events ready, stopped := false }).Guarded := by
  refine ⟨h.tokens, h.sound, ?_, fun e he hreadable hwake id n hentry => ?_⟩
  · simp only [mayReport, Bool.and_eq_true, decide_eq_true_eq] at hreport
    exact hreport.2
  · cases hstopped : s.stopped with
    | false =>
      -- The last step of the loop has emptied the queue.
      have hopen := h.isOpen
      unfold Open at hopen
      rw [hphase] at hopen
      exact hopen hstopped e.token id n hentry
    | true =>
      obtain ⟨c, hc, hentry⟩ := Option.map_eq_some_iff.mp hentry
      cases hentry
      by_contra hne
      refine hclean ⟨hstopped, e, he, hreadable, hwake, c, hc, ?_⟩
      exact List.count_pos_iff.mp (Nat.pos_of_ne_zero hne)

/-- An event is handled. It may close its connection, which was not closed before. -/
theorem Guarded.event {e : IoEvent} {left : List IoEvent} {worker : Worker S M} {env : Env M}
    (h : s.Guarded) (hphase : s.phase = .events (e :: left)) (hwake : e.token ≠ K_WAKE_TOKEN)
    (henv : env.SendsNoRemoval)
    (hworker : s.worker.Step (.event e.token e.readable e.writable env) worker) :
    (s.afterEvent e left worker).Guarded := by
  have htokens := Worker.step_knowTokens h.tokens hworker
  have hopen := h.isOpen
  unfold Open at hopen
  rw [hphase] at hopen
  obtain ⟨hnodup, hopen⟩ := hopen
  have hleft : ((left.filter fun e => e.readable).map fun e => e.token).Nodup :=
    hnodup.sublist (((List.sublist_cons_self e left).filter _).map _)
  have hsent := Worker.underWay_event hworker
  -- The ledger changes when `handle_read` met the end of the stream, and not otherwise.
  generalize hlabel : WorkerLabel.event e.token e.readable e.writable env = k at hworker
  cases Worker.step_ledger hworker (hlabel ▸ henv) h.tokens with
  | same hentries hunderWay hmade =>
    have hnothing : worker.outbox.filterMap TcpConnMessage.removal = [] := by
      rw [hunderWay] at hsent
      simpa using hsent
    have hclosers : (s.afterEvent e left worker).closers = s.closers := by
      simp [afterEvent, hnothing]
    refine ⟨htokens, sound_same h.sound hentries hunderWay hmade hclosers rfl, hleft, ?_⟩
    intro e' he' hreadable hne id n hentry
    exact hopen e' (List.mem_cons_of_mem e he') hreadable hne id n ((hentries _).symm.trans hentry)
  | added env' token hk' =>
    rw [← hlabel] at hk'
    cases hk'
  | removed token hrecv =>
    rw [← hlabel] at hrecv
    exact hrecv.elim
  | closed token writable env' id n hk' hentry hentries hunderWay hmade =>
    rw [← hlabel] at hk'
    obtain ⟨rfl, hreadable, rfl, rfl⟩ := WorkerLabel.event.inj hk'
    obtain rfl := hopen e List.mem_cons_self hreadable hwake id n hentry
    have hremoval : worker.outbox.filterMap TcpConnMessage.removal = [e.token] := by
      rw [hunderWay] at hsent
      exact (List.append_cancel_left hsent).symm
    refine ⟨htokens, ?_, hleft, fun e' he' hreadable' hne id' n hentry' => ?_⟩
    · rw [ledger_closed hentry hremoval hentries hunderWay hmade]
      exact h.sound.close hentry
    · -- The poll has reported this connection once.
      have htoken : e'.token ≠ e.token := by
        intro heq
        simp only [List.filter_cons, hreadable, if_true, List.map_cons, List.nodup_cons] at hnodup
        refine hnodup.1 (List.mem_map.mpr ⟨e', List.mem_filter.mpr ⟨he', hreadable'⟩, heq⟩)
      refine hopen e' (List.mem_cons_of_mem e he') hreadable' hne id' n ?_
      have hother := hentries e'.token
      rw [if_neg htoken] at hother
      exact hother.symm.trans hentry'

/-- A message is handled. It may add a connection, or remove a closed one. -/
theorem Guarded.receive {worker : Worker S M} {env : Env M} (h : s.Guarded)
    (hphase : s.phase = .draining) (henv : env.SendsNoRemoval)
    (hworker : s.worker.Step (.receive env) worker) : (s.afterMessage worker).Guarded := by
  have htokens := Worker.step_knowTokens h.tokens hworker
  refine ⟨by rwa [afterMessage_worker], ?_, ?_⟩
  · cases Worker.step_ledger hworker henv h.tokens with
    | same hentries hunderWay hmade hnot =>
      -- No `Removed`: its token does not leave the queue.
      exact sound_same h.sound (by simpa using hentries) (by simpa using hunderWay)
        (by simpa using hmade) (by simp) (afterMessage_removals hnot)
    | added env' token _ hnone hentries hunderWay hmade hnot =>
      rw [ledger_added (afterMessage_removals hnot) hentries hunderWay hmade]
      exact h.sound.add hnone
    | removed token hrecv hentries hunderWay hmade =>
      rw [ledger_removed hrecv hentries hmade]
      exact h.sound.remove hunderWay
    | closed token writable env' id n hevent => cases hevent
  · unfold Open
    have hnext : (s.afterMessage worker).phase = .draining ∨
        ((s.afterMessage worker).phase = .drained ∧ (s.afterMessage worker).stopped = true) :=
      afterMessage_phase hphase
    rcases hnext with hdraining | ⟨hdrained, hstopped⟩
    · rw [hdraining]
      trivial
    · -- A `Stop` has ended the message loop, and `Removed` messages may be left.
      rw [hdrained, hstopped]
      exact nofun

omit [DecidableEq M] [LawfulSlab S] in
/-- The queue is empty, so no live connection is closed. -/
theorem Guarded.drained (h : s.Guarded) (hidle : s.worker.Idle) (hqueue : s.worker.queue = [])
    (running : Bool) : ({ s with phase := .drained, running }).Guarded := by
  refine ⟨h.tokens, h.sound, fun _ token id n hentry => ?_⟩
  have hunderWay : s.worker.underWay = [] := by
    rw [Worker.underWay_of_idle hidle, hqueue]
    rfl
  refine (h.sound.once token id n hentry).2 ?_
  show token ∉ s.worker.underWay
  rw [hunderWay]
  exact List.not_mem_nil

/-- Every step keeps the invariant that reports no closed connection again. -/
theorem Guarded.step (h : s.Guarded) (hstep : s.CleanStep l s') : s'.Guarded := by
  obtain ⟨⟨hstep, hl⟩, hclean⟩ := hstep
  -- Only an event closes, and only a message removes. The other steps change the phase, or
  -- something that the invariant does not speak of.
  cases step_cases hstep with
  | notifiers l n => exact ⟨h.tokens, h.sound, h.isOpen⟩
  | enqueue msg worker hworker =>
    refine h.fixed hworker trivial ?_
    cases msg with
    | stop => trivial
    | any msg => exact hl
  | goesOn l k worker hk hworker =>
    rcases hk with rfl | rfl
    · exact h.fixed hworker trivial trivial
    · exact h.fixed hworker trivial trivial
  | poll ready hphase hreport => exact h.poll hphase hreport hclean
  | returns l => exact ⟨h.tokens, h.sound, trivial⟩
  | wake env e left hphase =>
    have hopen := h.isOpen
    unfold Open at hopen
    rw [hphase] at hopen
    refine ⟨h.tokens, h.sound, ?_, fun e' he' => hopen.2 e' (List.mem_cons_of_mem e he')⟩
    exact hopen.1.sublist (((List.sublist_cons_self e left).filter _).map _)
  | event env e left worker hphase hwake hworker => exact h.event hphase hwake hl hworker
  | endEvents => exact ⟨h.tokens, h.sound, trivial⟩
  | receive env worker hphase hworker => exact h.receive hphase hl hworker
  | endMessages hphase hidle hqueue => exact h.drained hidle hqueue _
  | beginTimers now nowTick hphase =>
    have hopen := h.isOpen
    unfold Open at hopen
    rw [hphase] at hopen
    exact ⟨h.tokens, h.sound, hopen⟩
  | timer env nowTick worker hphase hworker =>
    have hnext := h.fixed hworker trivial hl
    rcases afterTimer_cases (s := s) nowTick worker with heq | heq
    · rw [heq]
      exact hnext
    · rw [heq]
      have hopen := hnext.isOpen
      unfold Open at hopen
      rw [show ({ s with worker } : WorkerLoop S M).phase = .timers nowTick from hphase] at hopen
      exact ⟨hnext.tokens, hnext.sound, hopen⟩

/-! ### Runs -/

omit [DecidableEq M] in
/-- A `Removed` message that comes to be handled finds its connection. -/
theorem Guarded.finds (h : s.Guarded) {target : Option Nat} {queue : List (Queued M)}
    (hqueue : s.worker.queue = { msg := .any (.removed token), target } :: queue) :
    s.Finds token := by
  have hfront : ∃ rest, s.worker.underWay = token :: rest := by
    rw [Worker.underWay, hqueue]
    exact ⟨_, rfl⟩
  obtain ⟨rest, hrest⟩ := hfront
  obtain ⟨id, hentry, hcloser⟩ := h.sound.front hrest
  obtain ⟨c, hc, heq⟩ := Option.map_eq_some_iff.mp hentry
  obtain ⟨rfl, hcloses⟩ := Prod.mk.inj heq
  refine ⟨c, hc, hcloses, hcloser, fun env => ?_⟩
  obtain ⟨key, rfl, hget⟩ := Dispatcher.connAt_eq_some.mp hc
  have hok : ∃ r, s.worker.dispatcher.removeConnection (s.worker.dispatcher.offset + key) env
      = .ok r := by
    simp only [Dispatcher.removeConnection, Dispatcher.restoreKey_token, ok_bind, Slab.tryRemove,
      hget]
    exact ⟨_, rfl⟩
  obtain ⟨⟨d, locked⟩, hr⟩ := hok
  obtain ⟨key', c', hkey, -, hd, -⟩ :=
    (Dispatcher.removeConnection_outcome (E := fun _ => True) fun _ _ => trivial).of_ok hr
  obtain rfl := Nat.add_left_cancel hkey
  dsimp only at hd
  exact ⟨d, locked, hr, Dispatcher.connAt_remove (by rw [hd]) (by rw [hd])⟩

omit [DecidableEq M] in
/-- What is guarded is closed once. -/
theorem Guarded.closesOnce (h : s.Guarded) : s.ClosesOnce where
  closes key c hget := by
    have hentry : s.worker.entryAt (s.worker.dispatcher.offset + key) = some (c.id, c.closes) :=
      Worker.entryAt_of_connAt ((Dispatcher.connAt_token _ key).trans hget)
    exact h.sound.le_one hentry
  sends := h.sound.closed_nodup
  finds _ _ _ hqueue := h.finds hqueue

omit [DecidableEq M] in
/-- At the start nothing is to be closed. -/
theorem Guarded.start (cap offset number : Nat) (timer : Timer S M) :
    (start cap offset number timer).Guarded := by
  have hnone : ∀ token, (WorkerLoop.start cap offset number timer).worker.dispatcher.connAt token
      = none := by
    intro token
    by_contra hsome
    obtain ⟨c, hc⟩ := Option.ne_none_iff_exists'.mp hsome
    obtain ⟨key, -, hget⟩ := Dispatcher.connAt_eq_some.mp hc
    cases (LawfulSlab.get_withCapacity cap key).symm.trans hget
  have hentry : ∀ token, (WorkerLoop.start cap offset number timer).worker.entryAt token = none :=
    fun token => Worker.entryAt_eq_none.mpr (hnone token)
  refine ⟨fun token c hc => ?_, .empty hentry rfl rfl rfl, fun _ token id n hn => ?_⟩
  · cases (hnone token).symm.trans hc
  · cases (hentry token).symm.trans hn

/-- **When every connection closes once.** Take any run of the loop of a worker with a new
dispatcher, whatever is ready and queued and whatever the callbacks and closures do, in which only
`handle_read` sends `Removed`. As long as no poll directly after a step that dequeued `Stop`
reports a connection as readable that has met the end of its stream before, every connection closes
once, and every `Removed` message finds the connection that sent it. -/
theorem closesOnce_of_clean (cap offset number : Nat) (timer : Timer S M)
    {ls : List (WorkerLoopLabel M)} (hrun : Run CleanStep (start cap offset number timer) ls s) :
    s.ClosesOnce := by
  have hguarded : s.Guarded :=
    hrun.invariant (P := fun s => s.Guarded) (fun _ _ _ h hstep => h.step hstep)
      (Guarded.start cap offset number timer)
  exact hguarded.closesOnce

section Example

/-- A client arrives and reads. A thread asks for the closure 5 to run on it in 100 ms. -/
def readerRun : List (WorkerLoopLabel String) :=
  [.enqueue (.any (.established .fresh 7 0)), .enqueue (.any (.addTimer 0 100 "m" 5)), .poll [],
    .endEvents, .receive { quietEnv with acts := [.enableIo .READABLE] }, .lock, .receive quietEnv,
    .endMessages, .beginTimers 0, .timer quietEnv]

/-- The client closes when a `Stop` is in the queue. Its `Removed` message stays behind the `Stop`,
and the closure does `as`. -/
def closingRun (as : List (Act String)) : List (WorkerLoopLabel String) :=
  [.enqueue .stop, .poll [⟨0, true, false⟩], .event { quietEnv with reads := [.ok []] }, .flush,
    .endEvents, .receive quietEnv, .beginTimers 100, .timer { quietEnv with acts := as },
    .timer quietEnv]

/-- At most one interest is enabled, and nothing is sent. -/
theorem sendsNoRemoval_of_enables {env : Env String} (hmsgs : env.msgs = [])
    (hacts : env.acts = [] ∨ ∃ mode, env.acts = [.enableIo mode]) : env.SendsNoRemoval := by
  refine ⟨by simp [hmsgs], fun msg hmem => ?_⟩
  rcases hacts with h | ⟨mode, h⟩
  · simp [h] at hmem
  · simp [h] at hmem

set_option maxRecDepth 8000 in
/-- The closure enables `WRITABLE`, the next poll reports this, and the `Removed` message is
handled. -/
theorem closesOnce_of_clean_writer :
    ∃ s : WorkerLoop Lib.FreeListSlab String,
      Run CleanStep (start 4 0 0 emptyTimer) (readerRun ++ (closingRun [.enableIo .WRITABLE] ++
        [.poll [⟨0, false, true⟩], .event { quietEnv with writes := [.ok 0] }, .flush, .endEvents,
          .receive quietEnv, .lock])) s ∧ s.ClosesOnce := by
  have hquiet : (quietEnv : Env String).SendsNoRemoval := sendsNoRemoval_of_enables rfl (.inl rfl)
  have hrun : Run CleanStep (start 4 0 0 (emptyTimer : Timer Lib.FreeListSlab String))
      (readerRun ++ (closingRun [.enableIo .WRITABLE] ++
        [.poll [⟨0, false, true⟩], .event { quietEnv with writes := [.ok 0] }, .flush, .endEvents,
          .receive quietEnv, .lock])) _ :=
    .cons ⟨⟨rfl, rfl⟩, id⟩ (.cons ⟨⟨rfl, rfl⟩, id⟩ (.cons ⟨⟨rfl, trivial⟩, nofun⟩
      (.cons ⟨⟨rfl, trivial⟩, id⟩
        (.cons ⟨⟨rfl, sendsNoRemoval_of_enables rfl (.inr ⟨_, rfl⟩)⟩, id⟩
          (.cons ⟨⟨rfl, trivial⟩, id⟩ (.cons ⟨⟨rfl, hquiet⟩, id⟩ (.cons ⟨⟨rfl, trivial⟩, id⟩
            (.cons ⟨⟨rfl, trivial⟩, id⟩ (.cons ⟨⟨rfl, hquiet⟩, id⟩
    (.cons ⟨⟨rfl, trivial⟩, id⟩ (.cons ⟨⟨rfl, trivial⟩, nofun⟩ (.cons ⟨⟨rfl, hquiet⟩, id⟩
      (.cons ⟨⟨rfl, trivial⟩, id⟩ (.cons ⟨⟨rfl, trivial⟩, id⟩ (.cons ⟨⟨rfl, hquiet⟩, id⟩
        (.cons ⟨⟨rfl, trivial⟩, id⟩
          (.cons ⟨⟨rfl, sendsNoRemoval_of_enables rfl (.inr ⟨_, rfl⟩)⟩, id⟩
            (.cons ⟨⟨rfl, hquiet⟩, id⟩
    (.cons ⟨⟨rfl, trivial⟩, by simp [ReportsClosed]⟩ (.cons ⟨⟨rfl, hquiet⟩, id⟩
      (.cons ⟨⟨rfl, trivial⟩, id⟩ (.cons ⟨⟨rfl, trivial⟩, id⟩ (.cons ⟨⟨rfl, hquiet⟩, id⟩
        (.cons ⟨⟨rfl, trivial⟩, id⟩ (.nil _)))))))))))))))))))))))))
  exact ⟨_, hrun, closesOnce_of_clean 4 0 0 emptyTimer hrun⟩

/-- The closure enables `READABLE`, and the next poll reports the connection again, before its
`Removed` message is handled. -/
def reopeningRun : List (WorkerLoopLabel String) :=
  readerRun ++ (closingRun [.enableIo .READABLE] ++
    [.poll [⟨0, true, false⟩], .event { quietEnv with reads := [.ok []] }, .flush, .endEvents,
      .receive quietEnv, .lock])

set_option maxRecDepth 8000 in
/-- **The connection closes twice.** `handle_read` meets the end of the stream again, calls
`on_close` again and sends a second `Removed`. After the first one the slab is empty, so the second
one panics. -/
theorem closes_twice :
    ∃ s : WorkerLoop Lib.FreeListSlab String,
      Run ReaderStep (start 4 0 0 emptyTimer) reopeningRun s ∧ ¬ s.ClosesOnce ∧
        s.exec (.receive quietEnv) = some (.error .outOfRange) := by
  have hquiet : (quietEnv : Env String).SendsNoRemoval := sendsNoRemoval_of_enables rfl (.inl rfl)
  have hrun : Run ReaderStep (start 4 0 0 (emptyTimer : Timer Lib.FreeListSlab String))
      reopeningRun _ :=
    .cons ⟨rfl, rfl⟩ (.cons ⟨rfl, rfl⟩ (.cons ⟨rfl, trivial⟩ (.cons ⟨rfl, trivial⟩
      (.cons ⟨rfl, sendsNoRemoval_of_enables rfl (.inr ⟨_, rfl⟩)⟩ (.cons ⟨rfl, trivial⟩
        (.cons ⟨rfl, hquiet⟩ (.cons ⟨rfl, trivial⟩ (.cons ⟨rfl, trivial⟩ (.cons ⟨rfl, hquiet⟩
    (.cons ⟨rfl, trivial⟩ (.cons ⟨rfl, trivial⟩ (.cons ⟨rfl, hquiet⟩ (.cons ⟨rfl, trivial⟩
      (.cons ⟨rfl, trivial⟩ (.cons ⟨rfl, hquiet⟩ (.cons ⟨rfl, trivial⟩
        (.cons ⟨rfl, sendsNoRemoval_of_enables rfl (.inr ⟨_, rfl⟩)⟩ (.cons ⟨rfl, hquiet⟩
    (.cons ⟨rfl, trivial⟩ (.cons ⟨rfl, hquiet⟩ (.cons ⟨rfl, trivial⟩ (.cons ⟨rfl, trivial⟩
      (.cons ⟨rfl, hquiet⟩ (.cons ⟨rfl, trivial⟩ (.nil _)))))))))))))))))))))))))
  refine ⟨_, hrun, fun h => ?_, rfl⟩
  exact absurd h.sends (by decide)

end Example

end Ruduo.WorkerLoop
