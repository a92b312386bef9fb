import Ruduo.Proofs.Chat.Steps

/-!
# `Ruduo.Proofs.Chat.Broadcasts`: all loops get the broadcasts in one order

* `Orderly`: only the holder of the lock is in a broadcast, and nobody else sends `Write`.
* `step_underway`: what a worker handles in a step, followed by what is then under way to it, is
  what was under way before, followed by what a new broadcast writes to it.
* `broadcasts_agree`: so over a run each worker handles what the broadcasts write to it, in the
  order of the lock, and nothing else.
-/

set_option autoImplicit false

namespace Ruduo

open Lib (Emits Run Slab LawfulSlab)

variable {S : Type → Type} [Slab S] {display : SocketAddr → List Char}

/-! ### Mail -/

/-- All that the workers send to each other and to themselves. -/
def TcpConnMessage.IsUsual {M : Type} : TcpConnMessage M → Prop
  | .removed _ | .write _ _ | .writeComplete _ | .addTimer .. => True
  | _ => False

/-- A usual message hands no connection over. -/
theorem TcpConnMessage.IsUsual.not_arrives {M : Type} {msg : TcpConnMessage M} (h : msg.IsUsual) :
    ¬ msg.Arrives := by
  cases msg <;> first | exact id | exact h.elim

/-- The crate itself sends such messages. They carry no bytes. -/
def TcpConnMessage.IsOwn {M : Type} (msg : TcpConnMessage M) : Prop :=
  msg.written = none ∧ msg.IsUsual

/-- The mail is no part of a broadcast. -/
def Mail.IsQuiet : Mail → Prop
  | .notify _ msg => msg.written = none
  | .unlock => False
  | .insert _ _ => True

/-- Quiet mail writes nothing. -/
theorem Mail.IsQuiet.written {m : Mail} (h : m.IsQuiet) (n : Nat) : m.written n = none := by
  cases m with
  | notify peer msg => simp [Mail.written, show msg.written = none from h]
  | unlock => exact h.elim
  | insert => rfl

/-- Of mail that is quiet nothing is left to write. -/
theorem filterMap_written_of_quiet {mail : List Mail} (h : ∀ m ∈ mail, m.IsQuiet) (n : Nat) :
    mail.filterMap (Mail.written n) = [] :=
  List.filterMap_eq_nil_iff.mpr fun m hm => (h m hm).written n

/-- The mail of a broadcast to the loop `n`. -/
theorem Speech.filterMap_mail (s : Speech) (n : Nat) :
    s.mail.filterMap (Mail.written n) = s.writes n := by
  unfold mail writes
  rw [List.filterMap_map]
  induction s.users with
  | nil => rfl
  | cons user users ih =>
    by_cases htoken : user.1 = s.token <;> by_cases hn : user.2 = n <;>
      simpa [List.filter_cons, Mail.written, TcpConnMessage.written, htoken, hn] using ih

/-- A message through a notifier. -/
def Mail.IsNotify : Mail → Prop
  | .notify _ _ => True
  | _ => False

/-- A broadcast only notifies. -/
theorem Speech.mail_isNotify (s : Speech) : ∀ m ∈ s.mail, m.IsNotify := by
  intro m hm
  obtain ⟨user, -, rfl⟩ := List.mem_map.mp hm
  trivial

/-- What a broadcast notifies is usual. -/
theorem Speech.usual {s : Speech} {peer : Nat} {msg : TcpConnMessage TimeoutQuit}
    (h : .notify peer msg ∈ s.mail) : msg.IsUsual := by
  obtain ⟨user, -, heq⟩ := List.mem_map.mp h
  cases heq
  trivial

/-- What a callback does after its broadcast. -/
theorem Reacts.after_quiet {w : Worker S TimeoutQuit} {l : WorkerLabel TimeoutQuit} {r : Reaction}
    (h : Reacts display w l r) : ∀ m ∈ r.after, m.IsQuiet := by
  cases h with
  | silent | writeComplete =>
    intro m hm
    cases hm
  | established =>
    intro m hm
    rcases List.mem_cons.mp hm with rfl | hm
    · trivial
    · obtain rfl := List.mem_singleton.mp hm
      rfl
  | speaks _ _ _ _ _ _ _ hafter => simp [hafter]

/-- What a callback notifies after its broadcast is usual. -/
theorem Reacts.usual {w : Worker S TimeoutQuit} {l : WorkerLabel TimeoutQuit} {r : Reaction}
    (h : Reacts display w l r) {peer : Nat} {msg : TcpConnMessage TimeoutQuit}
    (hmem : .notify peer msg ∈ r.after) : msg.IsUsual := by
  cases h with
  | silent | writeComplete => cases hmem
  | established =>
    rcases List.mem_cons.mp hmem with heq | hmem
    · cases heq
    · cases List.mem_singleton.mp hmem
      trivial
  | speaks _ _ _ _ _ _ _ hafter => simp [hafter] at hmem

/-! ### Queues -/

section
variable {M : Type}

/-- The `Write` messages in the queue. -/
def Worker.queuedWrites (w : Worker S M) : List (Token × List UInt8) :=
  w.queue.filterMap Queued.written

/-- A message at the end of the queue adds what it writes. -/
theorem Worker.push_queuedWrites (w : Worker S M) (msg : TcpConnMessage M) :
    (w.push (.any msg)).queuedWrites = w.queuedWrites ++ msg.written.toList := by
  unfold queuedWrites push
  rw [List.filterMap_append]
  cases hmsg : msg.written <;> simp [Queued.written, hmsg]

/-- A `Stop` writes nothing. -/
theorem Worker.push_stop_queuedWrites (w : Worker S M) :
    (w.push .stop).queuedWrites = w.queuedWrites := by
  unfold queuedWrites push
  rw [List.filterMap_append]
  simp [Queued.written]

/-- A message through a notifier, to one worker after the other. -/
theorem Pool.notify_queuedWrites {poolSize : Nat} (p : Pool S TimeoutQuit poolSize) (n : Nat)
    (msg : TcpConnMessage TimeoutQuit) (seq : Fin poolSize) :
    ((p.notify n (.any msg)).workers seq).queuedWrites =
      (p.workers seq).queuedWrites ++ ((Mail.notify n msg).written seq).toList := by
  rw [notify_workers]
  by_cases hn : n = seq.val
  · rw [if_pos hn, Worker.push_queuedWrites, Mail.written, if_pos hn]
  · rw [if_neg hn, Mail.written, if_neg hn]
    simp

/-- A notification leaves the outboxes alone. -/
theorem Pool.notify_outbox {poolSize : Nat} (p : Pool S M poolSize) (n : Nat)
    (msg : Message (TcpConnMessage M)) (seq : Fin poolSize) :
    ((p.notify n msg).workers seq).outbox = (p.workers seq).outbox := by
  rw [notify_workers]
  split <;> rfl

variable [DecidableEq M]

/-- The `Write` message that a handler call handles. -/
def Worker.headWrite (w : Worker S M) : WorkerLabel M → List (Token × List UInt8)
  | .receive _ => (w.queue.take 1).filterMap Queued.written
  | _ => []

/-- A handler call takes its message out of the queue. -/
theorem Worker.call_queuedWrites {w w' : Worker S M} {l : WorkerLabel M} {acts : List (Act M)}
    (hl : l.isCall = true) (hstep : w.Step (l.withActs acts) w') :
    w.headWrite l ++ w'.queuedWrites = w.queuedWrites := by
  cases l with
  | event token readable writable env =>
    obtain ⟨d, sent, -, rfl⟩ := step_event hstep
    rfl
  | timer nowTick env =>
    obtain ⟨r, -, rfl⟩ := step_timer hstep
    rfl
  | receive env =>
    obtain ⟨q, queue, r, hqueue, -, rfl⟩ := step_receive hstep
    unfold headWrite queuedWrites
    rw [hqueue, List.take_succ_cons, List.take_zero, after, ← List.filterMap_append]
    rfl
  | _ => cases hl

/-- A worker that enqueues a message of its own. -/
theorem Worker.flush_queuedWrites {w w' : Worker S M} (hstep : w.Step .flush w')
    (houtbox : ∀ msg ∈ w.outbox, msg.IsOwn) : w'.queuedWrites = w.queuedWrites := by
  unfold Step exec at hstep
  dsimp only at hstep
  split at hstep
  · rename_i msg outbox hmsg
    cases hstep
    have hwritten := (houtbox msg (hmsg ▸ List.mem_cons_self)).1
    have hpush := w.push_queuedWrites msg
    rw [hwritten, Option.toList_none, List.append_nil] at hpush
    exact hpush
  · cases hstep

/-- The work under the lock leaves the queue alone. -/
theorem Worker.lock_queuedWrites {w w' : Worker S M} (hstep : w.Step .lock w') :
    w'.queuedWrites = w.queuedWrites := by
  unfold Step exec at hstep
  dsimp only at hstep
  split at hstep
  · cases hstep
    rfl
  · cases hstep

end

/-- The service's thread writes to nobody. -/
theorem Server.service_quiet {poolSize : Nat} {s s' : Server S TimeoutQuit poolSize}
    {l : ServerLabel TimeoutQuit poolSize} (hl : l.ofService = true) (hstep : s.Step l s')
    (seq : Fin poolSize) :
    (s'.pool.workers seq).queuedWrites = (s.pool.workers seq).queuedWrites ∧
      (s'.pool.workers seq).outbox = (s.pool.workers seq).outbox := by
  cases step_cases hstep with
  | accept a threads n =>
    refine ⟨?_, Pool.notify_outbox ..⟩
    have hwritten : (Mail.notify n a.msg).written seq = none := by
      rw [Mail.written]
      split <;> rfl
    rw [Pool.notify_queuedWrites, hwritten, Option.toList_none, List.append_nil]
  | worker => cases hl
  | letter n =>
    refine ⟨?_, Pool.notify_outbox ..⟩
    rw [Pool.notify_workers]
    split
    · exact Worker.push_stop_queuedWrites _
    · rfl
  | _ => exact ⟨rfl, rfl⟩

/-! ### One step -/

namespace Chat
variable {poolSize : Nat} {s s' : Chat S poolSize} {l : ChatLabel poolSize}

/-- Only the holder of the lock is in a broadcast. -/
structure Orderly (s : Chat S poolSize) : Prop where
  /-- The handlers enqueue no `Write` message, and hand no connection over. -/
  outbox : ∀ seq, ∀ msg ∈ (s.server.pool.workers seq).outbox, msg.IsOwn
  /-- What the callbacks notify hands no connection over. -/
  usual : ∀ seq peer msg, .notify peer msg ∈ s.mail seq → msg.IsUsual
  /-- Whoever does not hold the lock has no part of a broadcast left. -/
  quiet : ∀ seq, s.holder ≠ some seq → ∀ m ∈ s.mail seq, m.IsQuiet
  /-- Whoever holds the lock has the rest of one broadcast left. -/
  holding : ∀ seq, s.holder = some seq → ∃ writes after, s.mail seq = writes ++ .unlock :: after ∧
    (∀ m ∈ writes, m.IsNotify) ∧ ∀ m ∈ after, m.IsQuiet

omit [Slab S] in
/-- Without a broadcast going on, nothing is still to be enqueued. -/
theorem pendingWrites_of_none (h : s.holder = none) (seq : Fin poolSize) :
    s.pendingWrites seq = [] := by
  rw [pendingWrites, h]
  rfl

omit [Slab S] in
/-- What is still to be enqueued is what the broadcast that has the lock still has to notify. -/
theorem pendingWrites_of_holder {holder : Fin poolSize} (h : s.holder = some holder)
    (seq : Fin poolSize) :
    s.pendingWrites seq = (s.mail holder).filterMap (Mail.written seq) := by
  rw [pendingWrites, h]
  rfl

omit [Slab S] in
/-- The steps of the server change no mail. -/
theorem Orderly.server (h : s.Orderly) {server : Server S TimeoutQuit poolSize}
    (houtbox : ∀ seq, ∀ msg ∈ (server.pool.workers seq).outbox, msg.IsOwn) :
    { s with server }.Orderly := ⟨houtbox, h.usual, h.quiet, h.holding⟩

/-- A worker that makes a step. -/
theorem Orderly.worker_outbox (h : s.Orderly) {server : Server S TimeoutQuit poolSize}
    {seq : Fin poolSize} {k : WorkerLabel TimeoutQuit}
    (hk : k.Sends TcpConnMessage.IsOwn) (hserver : s.server.Step (.worker seq k) server)
    (seq' : Fin poolSize) : ∀ msg ∈ (server.pool.workers seq').outbox, msg.IsOwn := by
  obtain ⟨hw, hrest⟩ := Server.step_worker hserver
  by_cases hseq : seq' = seq
  · subst hseq
    have hcrate : CrateSends (TcpConnMessage.IsOwn (M := TimeoutQuit)) :=
      ⟨fun _ => ⟨rfl, trivial⟩, fun _ => ⟨rfl, trivial⟩⟩
    exact Worker.step_outbox hcrate hk hw (h.outbox seq')
  · rw [hrest seq' hseq]
    exact h.outbox seq'

omit [Slab S] in
/-- Who releases the lock has it. -/
theorem Orderly.holder_of_unlock (h : s.Orderly) {seq : Fin poolSize} {mail : List Mail}
    (hmail : s.mail seq = .unlock :: mail) :
    s.holder = some seq ∧ ∀ m ∈ mail, m.IsQuiet := by
  have hholder : s.holder = some seq := by
    by_contra hne
    exact h.quiet seq hne .unlock (hmail ▸ List.mem_cons_self)
  refine ⟨hholder, ?_⟩
  obtain ⟨writes, after, hseq, hwrites, hafter⟩ := h.holding seq hholder
  rw [hmail] at hseq
  cases writes with
  | nil =>
    cases hseq
    exact hafter
  | cons m writes =>
    cases hseq
    exact (hwrites .unlock List.mem_cons_self).elim

omit [Slab S] in
/-- What is left of the mail of a worker that is in no broadcast. -/
theorem Orderly.quiet_tail (h : s.Orderly) {seq seq' : Fin poolSize} {m : Mail} {mail : List Mail}
    (hmail : s.mail seq = m :: mail) (hne : s.holder ≠ some seq') :
    ∀ m ∈ Function.update s.mail seq mail seq', m.IsQuiet :=
  fun m hm => h.quiet seq' hne m (mem_of_tail hmail hm)

omit [Slab S] in
/-- What is left of the mail is usual. -/
theorem Orderly.usual_tail (h : s.Orderly) {seq seq' : Fin poolSize} {m : Mail}
    {mail : List Mail} (hmail : s.mail seq = m :: mail) {peer : Nat}
    {msg : TcpConnMessage TimeoutQuit}
    (hmem : .notify peer msg ∈ Function.update s.mail seq mail seq') : msg.IsUsual :=
  h.usual seq' peer msg (mem_of_tail hmail hmem)

omit [Slab S] in
/-- What is left of the mail of a worker that has the lock, after a message. -/
theorem Orderly.holding_tail (h : s.Orderly) {seq seq' : Fin poolSize} {peer : Nat}
    {msg : TcpConnMessage TimeoutQuit} {mail : List Mail}
    (hmail : s.mail seq = .notify peer msg :: mail) (hholder : s.holder = some seq') :
    ∃ writes after, Function.update s.mail seq mail seq' = writes ++ .unlock :: after ∧
      (∀ m ∈ writes, m.IsNotify) ∧ ∀ m ∈ after, m.IsQuiet := by
  obtain ⟨writes, after, hholds, hwrites, hafter⟩ := h.holding seq' hholder
  by_cases heq : seq' = seq
  · subst heq
    rw [Function.update_self]
    rw [hmail] at hholds
    cases writes with
    | nil => cases hholds
    | cons m writes =>
      obtain ⟨-, rfl⟩ := List.cons_eq_cons.mp hholds
      exact ⟨writes, after, rfl, (List.forall_mem_cons.mp hwrites).2, hafter⟩
  · rw [Function.update_of_ne heq]
    exact ⟨writes, after, hholds, hwrites, hafter⟩

/-- A step keeps the broadcasts apart. -/
theorem step_orderly (h : s.Orderly) (hstep : s.Step display l s') : s'.Orderly := by
  cases step_cases hstep with
  | service l server hl hserver =>
    refine h.server fun seq => ?_
    rw [(Server.service_quiet hl hserver seq).2]
    exact h.outbox seq
  | call seq l users r server hl hmail hreaction hr hnone hserver =>
    exact h.server (h.worker_outbox (WorkerLabel.withActs_sends hr.modest hl) hserver)
  | broadcast seq l r speech server hl hmail hreaction hr hholder husers hserver =>
    -- Its worker had no mail, and holds the lock from now on.
    refine ⟨h.worker_outbox (WorkerLabel.withActs_sends hr.modest hl) hserver,
      fun seq' peer msg hmem => ?_, fun seq' hne => ?_, fun seq' hseq => ?_⟩
    · have hmem : .notify peer msg ∈ Function.update s.mail seq _ seq' := hmem
      by_cases hseq : seq' = seq
      · subst hseq
        rw [Function.update_self] at hmem
        rcases List.mem_append.mp hmem with hmem | hmem
        · exact Speech.usual hmem
        · exact hr.usual (by simpa using hmem)
      · rw [Function.update_of_ne hseq] at hmem
        exact h.usual seq' peer msg hmem
    · have hseq' : seq' ≠ seq := fun heq => hne (congrArg some heq.symm)
      show ∀ m ∈ Function.update s.mail seq _ seq', m.IsQuiet
      rw [Function.update_of_ne hseq']
      exact h.quiet seq' (by simp [hholder])
    · obtain rfl := Option.some.inj hseq
      exact ⟨speech.mail, r.after, Function.update_self .., speech.mail_isNotify, hr.after_quiet⟩
  | notify seq peer msg mail hmail =>
    refine ⟨fun seq' => ?_, fun _ _ _ => h.usual_tail hmail, fun _ => h.quiet_tail hmail,
      fun _ => h.holding_tail hmail⟩
    show ∀ m ∈ ((s.server.pool.notify peer (.any msg)).workers seq').outbox, m.IsOwn
    rw [Pool.notify_outbox]
    exact h.outbox seq'
  | unlock seq mail hmail =>
    obtain ⟨hholder, hquiet⟩ := h.holder_of_unlock hmail
    refine ⟨h.outbox, fun _ _ _ => h.usual_tail hmail, fun seq' _ => ?_,
      fun _ hseq => by cases hseq⟩
    show ∀ m ∈ Function.update s.mail seq mail seq', m.IsQuiet
    by_cases hseq : seq' = seq
    · subst hseq
      rwa [Function.update_self]
    · rw [Function.update_of_ne hseq]
      exact h.quiet seq' (by simp [hholder, Ne.symm hseq])
  | insert seq token notifier mail hmail hholder =>
    refine ⟨h.outbox, fun _ _ _ => h.usual_tail hmail, fun _ => h.quiet_tail hmail,
      fun seq' hseq => ?_⟩
    have hnone : s.holder = some seq' := hseq
    rw [hholder] at hnone
    cases hnone
  | flush seq server hserver => exact h.server (h.worker_outbox (k := .flush) trivial hserver)
  | lock seq server hserver => exact h.server (h.worker_outbox (k := .lock) trivial hserver)

omit [Slab S] in
/-- The next piece of mail is a `Write` of the broadcast that is going on, or none at all. -/
theorem Orderly.pendingWrites_tail (h : s.Orderly) {caller : Fin poolSize} {m : Mail}
    {mail : List Mail} (hmail : s.mail caller = m :: mail) {t : Chat S poolSize}
    (hholder : t.holder = s.holder) (htail : t.mail = Function.update s.mail caller mail)
    (seq : Fin poolSize) :
    s.pendingWrites seq = (m.written seq).toList ++ t.pendingWrites seq := by
  by_cases hcaller : s.holder = some caller
  · rw [pendingWrites_of_holder hcaller, pendingWrites_of_holder (hholder.trans hcaller), hmail,
      htail, Function.update_self, List.filterMap_cons]
    cases m.written seq <;> rfl
  · rw [(h.quiet caller hcaller _ (hmail ▸ List.mem_cons_self)).written, Option.toList_none,
      List.nil_append]
    cases hnone : s.holder with
    | none => rw [pendingWrites_of_none hnone, pendingWrites_of_none (hholder.trans hnone)]
    | some holder =>
      have hne : holder ≠ caller := fun heq => hcaller (heq ▸ hnone)
      rw [pendingWrites_of_holder hnone, pendingWrites_of_holder (hholder.trans hnone), htail,
        Function.update_of_ne hne]

omit [Slab S] in
/-- In a handler call, the worker handles the `Write` message at the head of its queue, if it is the
caller. -/
theorem handledWrites_call (seq' seq : Fin poolSize) (k : WorkerLabel TimeoutQuit)
    (users : List (Sigma fun _ : Token => Nat)) : s.handledWrites seq' (.call seq k users) =
      if seq = seq' then (s.server.pool.workers seq).headWrite k else [] := by
  by_cases hseq : seq = seq'
  · subst hseq
    cases k <;> simp [handledWrites, Worker.headWrite]
  · cases k <;> simp [handledWrites, hseq]

/-- A handler call takes its message out of the queue of its worker. -/
theorem call_queuedWrites {seq : Fin poolSize} {k : WorkerLabel TimeoutQuit}
    {acts : List (Act TimeoutQuit)} {server : Server S TimeoutQuit poolSize}
    (users : List (Sigma fun _ : Token => Nat)) (hk : k.isCall = true)
    (hserver : s.server.Step (.worker seq (k.withActs acts)) server) (seq' : Fin poolSize) :
    s.handledWrites seq' (.call seq k users) ++ (server.pool.workers seq').queuedWrites =
      (s.server.pool.workers seq').queuedWrites := by
  obtain ⟨hw, hrest⟩ := Server.step_worker hserver
  rw [handledWrites_call]
  by_cases hseq : seq = seq'
  · subst hseq
    rw [if_pos rfl]
    exact Worker.call_queuedWrites hk hw
  · rw [if_neg hseq, hrest seq' (Ne.symm hseq), List.nil_append]

/-- A worker that goes on with its handler call leaves the `Write` messages alone. -/
theorem passive_queuedWrites {seq : Fin poolSize} {k : WorkerLabel TimeoutQuit}
    {server : Server S TimeoutQuit poolSize} (hserver : s.server.Step (.worker seq k) server)
    (hk : ∀ w, (s.server.pool.workers seq).Step k w →
      w.queuedWrites = (s.server.pool.workers seq).queuedWrites) (seq' : Fin poolSize) :
    (server.pool.workers seq').queuedWrites = (s.server.pool.workers seq').queuedWrites := by
  obtain ⟨hw, hrest⟩ := Server.step_worker hserver
  by_cases hseq : seq' = seq
  · subst hseq
    exact hk _ hw
  · rw [hrest seq' hseq]

/-- What is said in a step is under way afterwards, and what is handled in it was under way
before. -/
theorem step_underway (h : s.Orderly) (hstep : s.Step display l s') :
    ∃ new, s'.said = s.said ++ new ∧ ∀ seq, s.handledWrites seq l ++ s'.underway seq =
      s.underway seq ++ new.flatMap (Speech.writes seq) := by
  have hunder : ∀ (t : Chat S poolSize) seq, t.underway seq =
      (t.server.pool.workers seq).queuedWrites ++ t.pendingWrites seq := fun _ _ => rfl
  cases step_cases hstep with
  | service l server hl hserver =>
    refine ⟨[], (List.append_nil _).symm, fun seq => ?_⟩
    rw [hunder, hunder, (Server.service_quiet hl hserver seq).1]
    simp [handledWrites, pendingWrites]
  | call caller l users r server hl hmail hreaction hr hnone hserver =>
    refine ⟨[], (List.append_nil _).symm, fun seq => ?_⟩
    rw [hunder, hunder, ← List.append_assoc, call_queuedWrites users hl hserver seq]
    simp [pendingWrites]
  | broadcast caller l r speech server hl hmail hreaction hr hholder husers hserver =>
    refine ⟨[speech], rfl, fun seq => ?_⟩
    rw [hunder, hunder, ← List.append_assoc, call_queuedWrites _ hl hserver seq,
      pendingWrites_of_none hholder, pendingWrites_of_holder rfl]
    simp only [Function.update_self, List.filterMap_append, Speech.filterMap_mail,
      List.filterMap_cons, Mail.written, filterMap_written_of_quiet hr.after_quiet,
      List.append_nil, List.flatMap_cons, List.flatMap_nil]
  | notify caller peer msg mail hmail =>
    refine ⟨[], (List.append_nil _).symm, fun seq => ?_⟩
    have htail := h.pendingWrites_tail hmail (t := { s with
      server := { s.server with pool := s.server.pool.notify peer (.any msg) }
      mail := Function.update s.mail caller mail }) rfl rfl seq
    rw [hunder, hunder, Pool.notify_queuedWrites, htail]
    simp [handledWrites]
  | unlock caller mail hmail =>
    refine ⟨[], (List.append_nil _).symm, fun seq => ?_⟩
    obtain ⟨hholder, hquiet⟩ := h.holder_of_unlock hmail
    have hpending : s.pendingWrites seq = [] := by
      rw [pendingWrites_of_holder hholder, hmail, List.filterMap_cons_none rfl,
        filterMap_written_of_quiet hquiet]
    rw [hunder, hunder, hpending, pendingWrites_of_none rfl]
    simp [handledWrites]
  | insert caller token notifier mail hmail hholder =>
    refine ⟨[], (List.append_nil _).symm, fun seq => ?_⟩
    have hpending : Chat.pendingWrites { s with
        users := s.users.insert token notifier
        mail := Function.update s.mail caller mail } seq = [] := by
      simp only [pendingWrites, hholder, Option.elim_none, List.filterMap_nil]
    rw [hunder, hunder, pendingWrites_of_none hholder, hpending]
    simp [handledWrites]
  | flush caller server hserver =>
    refine ⟨[], (List.append_nil _).symm, fun seq => ?_⟩
    rw [hunder, hunder, passive_queuedWrites hserver
      (fun w hw => Worker.flush_queuedWrites hw (h.outbox caller)) seq]
    simp [handledWrites, pendingWrites]
  | lock caller server hserver =>
    refine ⟨[], (List.append_nil _).symm, fun seq => ?_⟩
    rw [hunder, hunder, passive_queuedWrites hserver
      (fun w hw => Worker.lock_queuedWrites hw) seq]
    simp [handledWrites, pendingWrites]

/-! ### Runs -/

variable {s₀ : Chat S poolSize} {ls : List (ChatLabel poolSize)} {cap : Nat}

/-- At the start nothing is going on. -/
theorem Started.orderly (h : s₀.Started cap) : s₀.Orderly := by
  refine ⟨fun seq => ?_, fun seq => ?_, fun seq _ => ?_, fun seq hseq => ?_⟩
  · obtain ⟨offset, timer, -, hw⟩ := h.server.pool.worker seq
    rw [hw]
    simp [Worker.new]
  · simp [h.mail seq]
  · simp [h.mail seq]
  · cases h.holder.symm.trans hseq

/-- At the start nothing is under way. -/
theorem Started.underway (h : s₀.Started cap) (seq : Fin poolSize) : s₀.underway seq = [] := by
  obtain ⟨offset, timer, -, hw⟩ := h.server.pool.worker seq
  rw [Chat.underway, pendingWrites_of_none h.holder, hw]
  rfl

/-- **All loops get the broadcasts in one order.** Take any run of a chat server from its start.
What a worker has handled and what is under way to it is, in this order, what all broadcasts so far
write to it: each of them writes once to each of its users but the speaker, and the broadcasts come
in the order in which they had the lock. They are what the callbacks of the run say, each to the
users of its moment. Nothing is lost or doubled, and no two loops disagree. -/
theorem broadcasts_agree (h₀ : s₀.Started cap) (seq : Fin poolSize)
    {ws : List (Token × List UInt8)}
    (hrun : Emits (Step display) (fun s => s.handledWrites seq) s₀ ls ws s) :
    ws ++ s.underway seq = s.said.flatMap (Speech.writes seq) ∧
      Emits (TellsStep display) (spoken display) s₀ ls s.said s := by
  have hinv : s.Orderly ∧ ws ++ s.underway seq = s.said.flatMap (Speech.writes seq) := by
    refine hrun.invariant (P := fun ws s => s.Orderly ∧
      ws ++ s.underway seq = s.said.flatMap (Speech.writes seq)) ?_ ⟨h₀.orderly, ?_⟩
    · rintro ws s l s' ⟨horderly, heq⟩ hstep
      obtain ⟨new, hsaid, hunder⟩ := step_underway horderly hstep
      refine ⟨step_orderly horderly hstep, ?_⟩
      rw [hsaid, List.flatMap_append, ← heq, List.append_assoc, List.append_assoc, hunder seq]
    · rw [h₀.underway, h₀.said]
      rfl
  exact ⟨hinv.2, said_of_run h₀.said hrun.run⟩

end Chat

section Example

/-- A chat server with two workers that has just started. -/
def newChat : Chat Lib.FreeListSlab 2 where
  server :=
    { threads := { pool := [[], []], size := 2, next := 0 }
      pool :=
        { workers := fun seq => Worker.new 4 (seq.val * 4) seq.val
            { tickMs := 100, entries := Slab.withCapacity 16, wheel := List.replicate 16 EMPTY,
              startMs := 0, tick := 0, next := EMPTY, mask := 15 }
          shared := Shared.new }
      listening := true
      letters := none }
  users := ∅
  holder := none
  mail := fun _ => []
  said := []

/-- It has just started. -/
theorem newChat_started : newChat.Started 4 where
  server :=
    { threads := ⟨by decide, rfl⟩
      size := rfl
      next := rfl
      pool := ⟨rfl, fun seq => ⟨seq.val * 4, _, by
        rw [u64Mul_eq_ok]
        exact ⟨by have := seq.isLt; unfold u64Max; omega, rfl⟩, rfl⟩⟩
      listening := rfl
      letters := rfl }
  users := rfl
  holder := rfl
  mail _ := rfl
  said := rfl

/-- All peers have this address, and the sockets have room for a hundred bytes. -/
def chatEnv : Env TimeoutQuit where
  now := 0
  peerAddr := .ok 7
  shutdown := .ok ()
  reads := []
  writes := [.ok 100]
  acts := []
  msgs := []

/-- Two clients come, and the first one is told so. -/
def twoGuests : List (ChatLabel 2) :=
  [.service (.accept .fresh 5 0), .service (.accept .fresh 6 0),
    .call ⟨0, Nat.zero_lt_two⟩ (.receive chatEnv) [], .mail ⟨0, Nat.zero_lt_two⟩,
    .mail ⟨0, Nat.zero_lt_two⟩, .mail ⟨0, Nat.zero_lt_two⟩, .lock ⟨0, Nat.zero_lt_two⟩,
    .call ⟨1, Nat.one_lt_two⟩ (.receive chatEnv) [⟨0, 0⟩], .mail ⟨1, Nat.one_lt_two⟩]

set_option maxRecDepth 8000 in
/-- The second guest is announced to the first one. -/
theorem broadcasts_agree_guests : ∃ s,
    s.underway ⟨0, Nat.zero_lt_two⟩ = s.said.flatMap (Speech.writes 0) ∧
    Emits (Chat.TellsStep fun _ => []) (Chat.spoken fun _ => []) newChat twoGuests s.said s := by
  have hrun : ∃ s, Emits (Chat.Step fun _ => [])
      (fun s : Chat Lib.FreeListSlab 2 => s.handledWrites ⟨0, Nat.zero_lt_two⟩) newChat twoGuests
      [] s :=
    ⟨_, .cons rfl (.cons rfl (.cons rfl (.cons rfl (.cons rfl (.cons rfl (.cons rfl (.cons rfl
      (.cons rfl (.nil _)))))))))⟩
  obtain ⟨s, hrun⟩ := hrun
  exact ⟨s, Chat.broadcasts_agree newChat_started ⟨0, Nat.zero_lt_two⟩ hrun⟩

end Example

end Ruduo
