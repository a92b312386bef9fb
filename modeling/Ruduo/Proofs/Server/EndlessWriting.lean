import Ruduo.Proofs.Server.ByteStreams
import Ruduo.Proofs.Server.Ledger
import Ruduo.Proofs.Server.LoopRefinement
import Ruduo.Spec.EndlessWriting

/-!
# `Ruduo.Proofs.Server.EndlessWriting`: a callback that always sends again

`send` enqueues a `WriteComplete` when the socket has taken everything, and the loop over the
messages goes on until the queue is empty. When `on_write_complete` sends again, each
`WriteComplete` leaves the next one behind (`Flowing.receive`), so the queue is never empty, and the
loop over the messages never ends.

* `no_poll_while_sending`: in such a run the loop neither polls nor runs a timer.
* `sending_goes_on`: such a run goes on for as long as the callback has something to send.

So the `WriteComplete` message does not give the poller a chance. The other connections of the loop
and its timers wait until the socket is full, or the callback stops.
-/

set_option autoImplicit false

namespace Ruduo

open Lib (Run Slab LawfulSlab Emits)

/-! ### Sends on a socket with room -/

namespace Session
variable {M : Type} {s s' s'' : Session M}

/-- `n` times everything was sent at once. -/
structure Flowed (s s' : Session M) (n : Nat) : Prop where
  output : s'.conn.output = s.conn.output
  interests : s'.conn.interests = s.conn.interests
  token : s'.conn.token = s.conn.token
  sent : s'.sent = s.sent ++ List.replicate n (.writeComplete s.conn.token)

/-- After a send on a socket with room nothing waits to be written. -/
theorem Flowed.flushed {n : Nat} (h : s.Flowed s' n) (hs : s.conn.Flushed) : s'.conn.Flushed :=
  ⟨by rw [h.output, hs.1], by rw [h.interests, hs.2]⟩

/-- The loop of `send`, by induction on what the socket takes. -/
private theorem sendLoop_flowed {data : List UInt8} (outcomes : List (Except IoError Nat)) :
    ∀ {written : Nat} {s : Session M}, sendLoop data written outcomes s = .ok s' →
      (∀ o ∈ outcomes, ∃ n, o = .ok n) → s.Flowed s' 1 := by
  induction outcomes with
  | nil => intro written s hok; cases hok
  | cons outcome outcomes ih =>
    intro written s hok houts
    obtain ⟨n, rfl⟩ := houts outcome List.mem_cons_self
    obtain ⟨buf, -, hok⟩ := bind_eq_ok.mp hok
    simp only [TcpConnection.doWriteWith, TcpStream.write] at hok
    split at hok
    · cases hok
      exact ⟨rfl, rfl, rfl, rfl⟩
    · obtain ⟨houtput, hinterests, htoken, hsent⟩ :=
        ih hok fun o ho => houts o (List.mem_cons_of_mem _ ho)
      exact ⟨houtput, hinterests, htoken, hsent⟩

/-- A send on a socket with room writes everything, and announces it once. -/
theorem send_flowed {data : List UInt8} {outcomes : List (Except IoError Nat)}
    (hs : s.conn.Flushed) (houts : ∀ o ∈ outcomes, ∃ n, o = .ok n)
    (hok : s.send data outcomes = .ok s') : s.Flowed s' 1 := by
  rw [send, hs.2, hs.1] at hok
  exact sendLoop_flowed outcomes hok houts

/-- Every act of such a callback leaves a `WriteComplete` behind. -/
private theorem acts_flowed (as : List (Act M)) : ∀ {s : Session M}, acts as s = .ok s' →
    (∀ a ∈ as, a.Flows) → s.conn.Flushed → s.Flowed s' as.length := by
  induction as with
  | nil =>
    intro s hok _ _
    cases hok
    exact ⟨rfl, rfl, rfl, (List.append_nil _).symm⟩
  | cons a as ih =>
    intro s hok has hs
    obtain ⟨s₁, hact, hacts⟩ := bind_eq_ok.mp hok
    have ha := has a List.mem_cons_self
    cases a with
    | send data outcomes =>
      have hfirst := send_flowed hs ha hact
      have hrest := ih hacts (fun a ha => has a (List.mem_cons_of_mem _ ha)) (hfirst.flushed hs)
      refine ⟨hrest.output.trans hfirst.output, hrest.interests.trans hfirst.interests,
        hrest.token.trans hfirst.token, ?_⟩
      rw [hrest.sent, hfirst.sent, hfirst.token, List.append_assoc, List.length_cons,
        Nat.add_comm, List.replicate_add]
    | _ => exact ha.elim

/-- A socket with room for `data` takes it at once. -/
private theorem send_at_once (hs : s.conn.Flushed) (data : List UInt8) :
    s.send data [.ok data.length] = .ok (notify { s with conn := { s.conn with
      io := { s.conn.io with accepted := s.conn.io.accepted ++ data } } }
      (.writeComplete s.conn.token)) := by
  have hbuf : sliceRange data 0 data.length = .ok data := by
    simp [sliceRange]
  rw [send, hs.2, hs.1]
  show sendLoop data 0 [.ok data.length] s = _
  rw [sendLoop, hbuf, ok_bind]
  simp [TcpConnection.doWriteWith, TcpStream.write]

end Session

/-! ### Steps of a worker -/

namespace Worker
variable {S : Type → Type} [Slab S] [LawfulSlab S] {M : Type} [DecidableEq M]
  {w w' : Worker S M} {token : Token} {env : Env M} {c : TcpConnection}

/-- The connection has nothing to write, and a `WriteComplete` for it is under way. -/
structure Flowing (w : Worker S M) (token : Token) : Prop where
  knowTokens : w.KnowTokens
  live : ∃ c, w.dispatcher.connAt token = some c ∧ c.Flushed
  announced : .any (.writeComplete token) ∈ w.queue.map Queued.msg ∨
    .writeComplete token ∈ w.outbox

omit [LawfulSlab S] [DecidableEq M] in
/-- Between two handler calls it is in the queue. -/
theorem Flowing.mem_queue (h : w.Flowing token) (hidle : w.Idle) :
    .any (.writeComplete token) ∈ w.queue.map Queued.msg := by
  rcases h.announced with hqueue | houtbox
  · exact hqueue
  · rw [List.isEmpty_iff.mp hidle.1] at houtbox
    cases houtbox

/-- The handler call for a `WriteComplete` of a live connection. -/
theorem receive_writeComplete (hstep : w.Step (.receive env) w') {q : Queued M}
    {queue : List (Queued M)} (hqueue : w.queue = q :: queue)
    (hmsg : q.msg = .any (.writeComplete token)) (hc : w.dispatcher.connAt token = some c) :
    ∃ s, Session.onWriteComplete { conn := c, sent := [] } env.acts = .ok s ∧
      w'.dispatcher.connAt token = some s.conn ∧ w'.outbox = s.sent ∧ w'.queue = queue := by
  obtain ⟨q', queue', h, hqueue', hh, rfl⟩ := step_receive hstep
  obtain ⟨rfl, rfl⟩ := List.cons.inj (hqueue.symm.trans hqueue')
  rw [hmsg] at hh
  obtain ⟨⟨d, sent⟩, hwith, hh⟩ := bind_eq_ok.mp hh
  cases hh
  obtain ⟨key, rfl, hget⟩ := Dispatcher.connAt_eq_some.mp hc
  rw [Dispatcher.withConnection, Dispatcher.restoreKey_token, ok_bind, hget] at hwith
  obtain ⟨s, hs, hwith⟩ := bind_eq_ok.mp hwith
  cases hwith
  refine ⟨s, hs, ?_, rfl, rfl⟩
  refine (Dispatcher.connAt_token _ key).trans ?_
  exact (Slab.get_set_of_some _ _ _ hget).trans (if_pos rfl)

omit [LawfulSlab S] in
/-- A message that does not concern the connection makes no call on it. -/
private theorem callsOn_of_passes {q : Queued M} {queue : List (Queued M)}
    (hqueue : w.queue = q :: queue)
    (hpasses : q.msg.Passes token) : w.callsOn token (.receive env) = [] := by
  obtain ⟨msg, target⟩ := q
  cases msg with
  | stop => exact hpasses.elim
  | any msg =>
    have hcall : callsAt token (msg.call env) = [] := by
      cases msg with
      | write t data | writeComplete t | enable t mode | disable t mode | shutdown t how
      | setContext t f =>
        have hne : t ≠ token := fun heq => hpasses.1 (congrArg some heq)
        exact if_neg hne
      | _ => rfl
    simp only [callsOn, callOf, laterCalls, hqueue, List.append_nil]
    split
    · exact hcall
    · rfl

/-- A message that does not concern the connection leaves it as it is. -/
private theorem connAt_of_passes (hstep : w.Step (.receive env) w') {q : Queued M}
    {queue : List (Queued M)} (hqueue : w.queue = q :: queue) (hpasses : q.msg.Passes token)
    (hc : w.dispatcher.connAt token = some c) : w'.dispatcher.connAt token = some c := by
  have hlive : ∃ c', w'.dispatcher.connAt token = some c' := by
    cases step_conns hstep with
    | kept hlive =>
      obtain ⟨c', hc', -⟩ := hlive token c hc
      exact ⟨c', hc'⟩
    | added t new hnone hconns =>
      have hne : token ≠ t := by
        rintro rfl
        cases hc.symm.trans hnone
      exact ⟨c, by rw [hconns, if_neg hne, hc]⟩
    | removed t gone peerAddr hrecv _ hconns =>
      obtain ⟨target, queue', hqueue'⟩ := hrecv
      obtain ⟨rfl, rfl⟩ := List.cons.inj (hqueue.symm.trans hqueue')
      have hne : token ≠ t := fun heq => hpasses.2 (congrArg some heq.symm)
      exact ⟨c, by rw [hconns, if_neg hne, hc]⟩
  obtain ⟨c', hc'⟩ := hlive
  have hcalled := step_called hstep hc hc'
  rw [callsOn_of_passes hqueue hpasses] at hcalled
  cases hcalled
  exact hc'

/-- Each `WriteComplete` leaves the next one behind. -/
theorem Flowing.receive (h : w.Flowing token) (hstep : w.Step (.receive env) w')
    (hagain : ∀ q queue, w.queue = q :: queue →
      (q.msg = .any (.writeComplete token) ∧ env.SendsAgain) ∨ q.msg.Passes token) :
    w'.Flowing token := by
  obtain ⟨c, hc, hflushed⟩ := h.live
  have hmem := h.mem_queue (idle_of_exec id hstep)
  obtain ⟨q, queue, r, hqueue, -, hw'⟩ := step_receive hstep
  have hknow := step_knowTokens h.knowTokens hstep
  rcases hagain q queue hqueue with ⟨hmsg, hne, has⟩ | hpasses
  · obtain ⟨s, hs, hc', houtbox, -⟩ := receive_writeComplete hstep hqueue hmsg hc
    have hflowed := Session.acts_flowed env.acts hs has hflushed
    refine ⟨hknow, ⟨s.conn, hc', hflowed.flushed hflushed⟩, Or.inr ?_⟩
    have hsent : s.sent = List.replicate env.acts.length (.writeComplete token) := by
      rw [hflowed.sent]
      show [] ++ List.replicate _ (TcpConnMessage.writeComplete c.token) = _
      rw [h.knowTokens token c hc, List.nil_append]
    rw [houtbox, hsent]
    exact List.mem_replicate.mpr ⟨by simpa using hne, rfl⟩
  · refine ⟨hknow, ⟨c, connAt_of_passes hstep hqueue hpasses hc, hflushed⟩, Or.inl ?_⟩
    rw [hqueue, List.map_cons, List.mem_cons] at hmem
    rcases hmem with hfirst | hrest
    · -- The first message is another one.
      rw [← hfirst] at hpasses
      exact absurd rfl hpasses.1
    · rw [hw']
      exact hrest

/-- What the loop does besides handler calls changes nothing about it. -/
theorem Flowing.passive {l : WorkerLabel M} (h : w.Flowing token) (hstep : w.Step l w')
    (hl : Passive l) : w'.Flowing token := by
  have hknow := step_knowTokens h.knowTokens hstep
  obtain ⟨c, hc, hflushed⟩ := h.live
  cases l with
  | enqueue msg =>
    cases hstep
    refine ⟨hknow, ⟨c, hc, hflushed⟩, h.announced.imp_left fun hqueue => ?_⟩
    simpa [push] using Or.inl (List.mem_map.mp hqueue)
  | flush =>
    unfold Step exec at hstep
    dsimp only at hstep
    split at hstep
    · rename_i msg outbox houtbox
      cases hstep
      refine ⟨hknow, ⟨c, hc, hflushed⟩, ?_⟩
      rcases h.announced with hqueue | hsent
      · exact Or.inl (by simpa [push] using Or.inl (List.mem_map.mp hqueue))
      · rw [houtbox, List.mem_cons] at hsent
        rcases hsent with rfl | hsent
        · exact Or.inl (by simp [push])
        · exact Or.inr hsent
    · cases hstep
  | lock =>
    unfold Step exec at hstep
    dsimp only at hstep
    split at hstep
    · cases hstep
      exact ⟨hknow, ⟨c, hc, hflushed⟩, h.announced⟩
    · cases hstep
  | _ => exact hl.elim

/-- A message for a live connection is handled when the call goes through. -/
theorem receive_of_call (env : Env M) (hidle : w.Idle) {q : Queued M} {queue : List (Queued M)}
    (hqueue : w.queue = q :: queue) {msg : TcpConnMessage M} (hmsg : q.msg = .any msg)
    {k : ConnCall M} (hcall : msg.call env = some (token, k))
    (hc : w.dispatcher.connAt token = some c) {s : Session M}
    (hs : Session.call { conn := c, sent := [] } k = .ok s) :
    ∃ w', w.Step (.receive env) w' ∧ w'.dispatcher.connAt token = some s.conn ∧
      w'.outbox = s.sent ∧ w'.locked = none ∧ w'.queue = queue := by
  obtain ⟨key, rfl, hget⟩ := Dispatcher.connAt_eq_some.mp hc
  have hwith : w.dispatcher.withConnection (w.dispatcher.offset + key) (fun s => s.call k) =
      .ok ({ w.dispatcher with
        localConnections := Slab.set w.dispatcher.localConnections key s.conn }, s.sent) := by
    simp only [Dispatcher.withConnection, Dispatcher.restoreKey_token, hget, hs, ok_bind]
  have hstep : w.exec (.receive env) = some (.ok ({ w with queue }.after
      { dispatcher := { w.dispatcher with
          localConnections := Slab.set w.dispatcher.localConnections key s.conn }
        timer := w.timer, sent := s.sent, locked := none })) := by
    simp only [exec, if_pos hidle, hqueue, hmsg, Dispatcher.handleMessage,
      Dispatcher.handleNotify_of_call hcall, hwith, ok_bind]
  refine ⟨_, hstep, ?_, rfl, rfl, rfl⟩
  refine (Dispatcher.connAt_token _ key).trans ?_
  exact (Slab.get_set_of_some _ _ _ hget).trans (if_pos rfl)

/-- The next `WriteComplete` is enqueued after a payload was sent. -/
theorem sends_at_once (hidle : w.Idle) {target : Option Nat} {queue : List (Queued M)}
    (hqueue : w.queue = { msg := .any (.writeComplete token), target } :: queue)
    (hc : w.dispatcher.connAt token = some c) (htoken : c.token = token) (hflushed : c.Flushed)
    (env : Env M) (data : List UInt8) :
    ∃ w₁ w₂ c₂, w.Step (.receive (env.sending data)) w₁ ∧ w₁.Step .flush w₂ ∧ w₂.Idle ∧
      w₂.queue.map Queued.msg = queue.map Queued.msg ++ [.any (.writeComplete token)] ∧
      w₂.dispatcher.connAt token = some c₂ ∧ c₂.token = token ∧ c₂.Flushed ∧
      c₂.io.accepted = c.io.accepted ++ data := by
  have hcall : Session.call ({ conn := c, sent := [] } : Session M)
      (.onWriteComplete [.send data [.ok data.length]]) = .ok _ :=
    bind_eq_ok.mpr ⟨_, Session.send_at_once (s := Session.record { conn := c, sent := [] }
      .writeComplete) hflushed data, rfl⟩
  obtain ⟨w₁, hstep, hc₁, houtbox, hlocked, hqueue₁⟩ :=
    receive_of_call (env.sending data) hidle hqueue rfl rfl hc hcall
  have hflush : w₁.Step .flush { w₁.push (.any (.writeComplete c.token)) with outbox := [] } := by
    unfold Step exec
    rw [houtbox]
    rfl
  refine ⟨w₁, _, _, hstep, hflush, ⟨rfl, by simp [push, hlocked]⟩, ?_, hc₁, htoken, hflushed, rfl⟩
  simp [push, hqueue₁, htoken]

end Worker

/-! ### The loop over the messages -/

namespace WorkerLoop
variable {S : Type → Type} [Slab S] [LawfulSlab S] {M : Type} [DecidableEq M]
  {s s' : WorkerLoop S M} {token : Token} {l : WorkerLoopLabel M}
  {ls₀ ls : List (WorkerLoopLabel M)}

/-- The loop over the messages goes on with the next `WriteComplete`. -/
theorem step_flowing (hphase : s.phase = .draining) (h : s.worker.Flowing token)
    (hstep : s.WritesAgain token l s') :
    (s'.phase = .draining ∧ s'.worker.Flowing token) ∧ l.Drains := by
  obtain ⟨hstep, hagain⟩ := hstep
  unfold Step exec at hstep
  cases l with
  | clone | drop =>
    obtain ⟨-, hs'⟩ := Option.ite_none_right_eq_some.mp hstep
    cases hs'
    exact ⟨⟨hphase, h⟩, trivial⟩
  | enqueue msg =>
    obtain ⟨-, hcall⟩ := Option.ite_none_right_eq_some.mp hstep
    obtain ⟨worker, hworker, rfl⟩ := call_ok hcall
    exact ⟨⟨hphase, h.passive hworker trivial⟩, trivial⟩
  | flush | lock =>
    obtain ⟨worker, hworker, rfl⟩ := call_ok hstep
    exact ⟨⟨hphase, h.passive hworker trivial⟩, trivial⟩
  | receive env =>
    obtain ⟨-, hcall⟩ := Option.ite_none_right_eq_some.mp hstep
    obtain ⟨worker, hworker, rfl⟩ := call_ok hcall
    refine ⟨⟨?_, ?_⟩, trivial⟩
    · obtain ⟨⟨msg, target⟩, queue, -, hqueue, -⟩ := Worker.step_receive hworker
      cases msg with
      | stop =>
        rcases hagain env _ queue rfl hqueue with ⟨hmsg, -⟩ | hpasses
        · cases hmsg
        · exact hpasses.elim
      | any msg => rw [afterMessage_any_phase hqueue, hphase]
    · rw [afterMessage_worker]
      exact h.receive hworker fun q queue hqueue => hagain env q queue rfl hqueue
  | endMessages =>
    -- The queue is not empty between two handler calls.
    obtain ⟨⟨-, hidle, hempty⟩, -⟩ := Option.ite_none_right_eq_some.mp hstep
    have hmem := h.mem_queue hidle
    rw [List.isEmpty_iff.mp hempty] at hmem
    cases hmem
  | _ => simp [hphase] at hstep

/-- What the start of the loop and the connection give. -/
theorem flowing_of_run (cap offset number : Nat) (timer : Timer S M)
    (hrun₀ : Run Step (start cap offset number timer) ls₀ s)
    {c : TcpConnection} (hc : s.worker.dispatcher.connAt token = some c) (hflushed : c.Flushed)
    (hwaits : .any (.writeComplete token) ∈ s.worker.queue.map Queued.msg) :
    s.worker.Flowing token := by
  obtain ⟨ks, hworker⟩ := run_worker hrun₀
  refine ⟨?_, ⟨c, hc, hflushed⟩, Or.inl hwaits⟩
  refine hworker.invariant (P := Worker.KnowTokens)
    (fun _ _ _ h hstep => Worker.step_knowTokens h hstep) ?_
  intro t c hc
  obtain ⟨key, -, hget⟩ := Dispatcher.connAt_eq_some.mp hc
  cases (LawfulSlab.get_withCapacity cap key).symm.trans hget

/-- **A callback that always sends again starves the poller.** Take a reachable state of the loop of
a worker in its loop over the messages, with a connection that has nothing to write, and a
`WriteComplete` for it in the queue. Take any run in which no `Stop` and no other message for this
connection is dequeued, and `on_write_complete` answers each `WriteComplete` by sending, on a socket
with room. Whatever the other threads and the other connections do in it, the loop never leaves the
loop over the messages: it neither polls, nor handles an event, nor runs a timer. There is always a
next `WriteComplete` under way. -/
theorem no_poll_while_sending (cap offset number : Nat) (timer : Timer S M)
    (hrun₀ : Run Step (start cap offset number timer) ls₀ s) (hphase : s.phase = .draining)
    {c : TcpConnection} (hc : s.worker.dispatcher.connAt token = some c) (hflushed : c.Flushed)
    (hwaits : .any (.writeComplete token) ∈ s.worker.queue.map Queued.msg)
    (hrun : Run (WritesAgain token) s ls s') :
    (∀ l ∈ ls, l.Drains) ∧ s'.phase = .draining ∧
      (∃ c', s'.worker.dispatcher.connAt token = some c' ∧ c'.Flushed) ∧
      (.any (.writeComplete token) ∈ s'.worker.queue.map Queued.msg ∨
        .writeComplete token ∈ s'.worker.outbox) := by
  have h := flowing_of_run cap offset number timer hrun₀ hc hflushed hwaits
  have hlast : (∀ l ∈ ls, l.Drains) ∧ s'.phase = .draining ∧ s'.worker.Flowing token := by
    clear hrun₀ hc hwaits
    induction hrun with
    | nil => exact ⟨nofun, hphase, h⟩
    | cons hstep _ ih =>
      obtain ⟨⟨hphase', h'⟩, hl⟩ := step_flowing hphase h hstep
      obtain ⟨hls, hrest⟩ := ih hphase' h'
      exact ⟨List.forall_mem_cons.mpr ⟨hl, hls⟩, hrest⟩
  exact ⟨hlast.1, hlast.2.1, hlast.2.2.live, hlast.2.2.announced⟩

/-- **Such a run goes on for as long as there is something to send.** Take a reachable state of the
loop of a worker in its loop over the messages, between two handler calls, with a connection that
has nothing to write, and nothing in the queue but a `WriteComplete` for it. Whatever payloads the
callback sends, if the socket takes each at once there is a run of the loop that sends them all, one
after the other, without a poll, and ends in such a state again. -/
theorem sending_goes_on (cap offset number : Nat) (timer : Timer S M)
    (hrun₀ : Run Step (start cap offset number timer) ls₀ s) (hphase : s.phase = .draining)
    (hidle : s.worker.Idle)
    {c : TcpConnection} (hc : s.worker.dispatcher.connAt token = some c) (hflushed : c.Flushed)
    (hqueue : s.worker.queue.map Queued.msg = [.any (.writeComplete token)])
    (env : Env M) (payloads : List (List UInt8)) :
    ∃ s' c', Run Step s (sendingEach env payloads) s' ∧ s'.phase = .draining ∧ s'.worker.Idle ∧
      s'.worker.queue.map Queued.msg = [.any (.writeComplete token)] ∧
      s'.worker.dispatcher.connAt token = some c' ∧ c'.Flushed ∧
      c'.io.accepted = c.io.accepted ++ payloads.flatten := by
  have hflowing := flowing_of_run cap offset number timer hrun₀ hc hflushed (by simp [hqueue])
  have htoken := hflowing.knowTokens token c hc
  clear hrun₀ hflowing
  induction payloads generalizing s c with
  | nil => exact ⟨s, c, .nil s, hphase, hidle, hqueue, hc, hflushed, by simp⟩
  | cons data payloads ih =>
    obtain ⟨⟨msg, target⟩, hqueue', rfl⟩ : ∃ q, s.worker.queue = [q] ∧
        q.msg = .any (.writeComplete token) := by
      obtain ⟨q, hq, hmsg⟩ := List.map_eq_singleton_iff.mp hqueue
      exact ⟨q, hq, hmsg⟩
    obtain ⟨w₁, w₂, c₂, hreceive, hflush, hidle₂, hqueue₂, hc₂, htoken₂, hflushed₂, haccepted⟩ :=
      Worker.sends_at_once hidle hqueue' hc htoken hflushed env data
    -- The two steps of the worker are steps of the loop.
    have hfirst : s.Step (.receive (env.sending data)) { s with worker := w₁ } := by
      have hcall : s.call (.receive (env.sending data)) s.afterMessage =
          some (.ok (s.afterMessage w₁)) := by
        rw [call, hreceive]
        rfl
      rw [Step, exec, if_pos hphase, hcall, afterMessage, hqueue']
    have hsecond : Step { s with worker := w₁ } .flush { s with worker := w₂ } := by
      rw [Step, exec, call, hflush]
      rfl
    obtain ⟨s', c', hrun, hlast⟩ := ih (s := { s with worker := w₂ }) hphase hidle₂ hc₂ hflushed₂
      hqueue₂ htoken₂
    obtain ⟨hphase', hidle', hqueue', hc', hflushed', haccepted'⟩ := hlast
    refine ⟨s', c', .cons hfirst (.cons hsecond hrun), hphase', hidle', hqueue', hc', hflushed', ?_⟩
    rw [haccepted', haccepted, List.append_assoc, List.flatten_cons]

end WorkerLoop

section Example

/-- A client has connected, and `on_established` has sent it a byte. -/
def greeted : List (WorkerLoopLabel String) :=
  [.enqueue (.any (.established .fresh 7 0)), .poll [], .endEvents,
    .receive { quietEnv with acts := [.enableIo .READABLE, .send [1] [.ok 1]] }, .flush, .lock]

/-- `on_write_complete` sends twice. In between, another thread asks for something. -/
def sendsTwice : List (WorkerLoopLabel String) :=
  [.receive (quietEnv.sending [2]), .enqueue (.any (.enable 5 .READABLE)), .flush,
    .receive quietEnv, .receive (quietEnv.sending [3]), .flush]

/-- Such a callback sends, and its socket has room. -/
theorem Env.sending_sendsAgain (data : List UInt8) :
    (quietEnv.sending data : Env String).SendsAgain := by
  refine ⟨List.cons_ne_nil _ _, fun a ha => ?_⟩
  obtain rfl := List.mem_singleton.mp ha
  intro o ho
  exact ⟨_, List.mem_singleton.mp ho⟩

set_option maxRecDepth 8000 in
/-- The loop after both sends. -/
theorem no_poll_while_sending_twice :
    ∃ s s' : WorkerLoop Lib.FreeListSlab String,
      Run WorkerLoop.Step (WorkerLoop.start 4 0 0 emptyTimer) greeted s ∧
      Run (WorkerLoop.WritesAgain 0) s sendsTwice s' ∧
      (∀ l ∈ sendsTwice, l.Drains) ∧ s'.phase = .draining ∧
      (∃ c', s'.worker.dispatcher.connAt 0 = some c' ∧ c'.Flushed) ∧
      (.any (.writeComplete 0) ∈ s'.worker.queue.map Queued.msg ∨
        .writeComplete 0 ∈ s'.worker.outbox) := by
  have hsteps : ∃ s s' : WorkerLoop Lib.FreeListSlab String, ∃ c : TcpConnection,
      Run WorkerLoop.Step (WorkerLoop.start 4 0 0 emptyTimer) greeted s ∧ s.phase = .draining ∧
      s.worker.dispatcher.connAt 0 = some c ∧ c.Flushed ∧
      .any (.writeComplete 0) ∈ s.worker.queue.map Queued.msg ∧
      Run (WorkerLoop.WritesAgain 0) s sendsTwice s' := by
    refine ⟨_, _, _, .cons rfl (.cons rfl (.cons rfl (.cons rfl (.cons rfl (.cons rfl (.nil _)))))),
      rfl, rfl, ⟨rfl, rfl⟩, List.mem_singleton_self _,
      .cons ⟨rfl, ?_⟩ (.cons ⟨rfl, ?_⟩ (.cons ⟨rfl, ?_⟩ (.cons ⟨rfl, ?_⟩
        (.cons ⟨rfl, ?_⟩ (.cons ⟨rfl, ?_⟩ (.nil _))))))⟩
    all_goals
      intro env q queue hl hqueue
      cases hl <;> cases hqueue
    · exact Or.inl ⟨rfl, Env.sending_sendsAgain [2]⟩
    · exact Or.inr ⟨by decide, nofun⟩
    · exact Or.inl ⟨rfl, Env.sending_sendsAgain [3]⟩
  obtain ⟨s, s', c, hrun₀, hphase, hc, hflushed, hwaits, hrun⟩ := hsteps
  exact ⟨s, s', hrun₀, hrun,
    WorkerLoop.no_poll_while_sending 4 0 0 emptyTimer hrun₀ hphase hc hflushed hwaits hrun⟩

set_option maxRecDepth 8000 in
/-- Two more payloads. -/
theorem sending_goes_on_twice :
    ∃ s s' : WorkerLoop Lib.FreeListSlab String, ∃ c c' : TcpConnection,
      s.worker.dispatcher.connAt 0 = some c ∧
      Run WorkerLoop.Step s (sendingEach quietEnv [[2], [3, 4]]) s' ∧ s'.phase = .draining ∧
      s'.worker.Idle ∧ s'.worker.queue.map Queued.msg = [.any (.writeComplete 0)] ∧
      s'.worker.dispatcher.connAt 0 = some c' ∧ c'.Flushed ∧
      c'.io.accepted = c.io.accepted ++ [[2], [3, 4]].flatten := by
  have hsteps : ∃ s : WorkerLoop Lib.FreeListSlab String, ∃ c : TcpConnection,
      Run WorkerLoop.Step (WorkerLoop.start 4 0 0 emptyTimer) greeted s ∧ s.phase = .draining ∧
      s.worker.Idle ∧ s.worker.dispatcher.connAt 0 = some c ∧ c.Flushed ∧
      s.worker.queue.map Queued.msg = [.any (.writeComplete 0)] :=
    ⟨_, _, .cons rfl (.cons rfl (.cons rfl (.cons rfl (.cons rfl (.cons rfl (.nil _)))))),
      rfl, ⟨rfl, rfl⟩, rfl, ⟨rfl, rfl⟩, rfl⟩
  obtain ⟨s, c, hrun₀, hphase, hidle, hc, hflushed, hqueue⟩ := hsteps
  obtain ⟨s', c', hrun, hlast⟩ := WorkerLoop.sending_goes_on 4 0 0 emptyTimer hrun₀ hphase hidle hc
    hflushed hqueue quietEnv [[2], [3, 4]]
  exact ⟨s, s', c, c', hc, hrun, hlast⟩

end Example

end Ruduo
