import Ruduo.Proofs.Server.Delivery
import Ruduo.Spec.Cancellation

/-!
# `Ruduo.Proofs.Server.Timers`: what a step does to the timers

The closures of the timers are in two tables of the dispatcher, and their entries in the wheel.
`TimersStep` lists what a step can do to the three together, one constructor for each operation
(`step_timers`). The invariants of the timers are proved from it.
-/

set_option autoImplicit false

namespace Ruduo

open Lib (Outcome Run Slab LawfulSlab)

variable {S : Type → Type} [Slab S] {M : Type} [DecidableEq M]

/-- The two tables as functions, updated at one mark. -/
def Dispatcher.KeptAt (d d' : Dispatcher S M) (repeats : Bool) (mark : M)
    (o : Option (Timeout × Token × Closure)) : Prop :=
  ∀ r k, d'.kept r k = if r = repeats ∧ k = mark then o else d.kept r k

/-- What a step does to the timers. -/
inductive Worker.TimersStep (w : Worker S M) (l : WorkerLabel M) (w' : Worker S M) : Prop where
  /-- The step is not about timers. -/
  | other (htimer : w'.timer = w.timer)
    (hkept : ∀ r k, w'.dispatcher.kept r k = w.dispatcher.kept r k)
    (hadds : ∀ msg, w.Receives l msg → msg.adds = none)
    (hcancels : ∀ msg, w.Receives l msg → msg.cancels = none)
    (hsilent : ∀ mark, ¬ w.Delivers l mark)
  /-- The wheel has room. -/
  | added (env : Env M) (msg : TcpConnMessage M) (q : TimerRequest M) (timeout : Timeout)
    (hl : l = .receive env) (hrecv : w.Receives l msg) (hq : msg.request = some q)
    (hcall : w.timer.timeoutMs env.now q.delay q.interval q.mark = .ok (w'.timer, .ok timeout))
    (hkept : w.dispatcher.KeptAt w'.dispatcher q.repeats q.mark (some (timeout, q.token, q.f)))
  /-- The wheel is full. -/
  | full (env : Env M) (msg : TcpConnMessage M) (q : TimerRequest M) (err : TimerError)
    (hl : l = .receive env) (hrecv : w.Receives l msg) (hq : msg.request = some q)
    (hcall : w.timer.timeoutMs env.now q.delay q.interval q.mark = .ok (w'.timer, .error err))
    (hkept : ∀ r k, w'.dispatcher.kept r k = w.dispatcher.kept r k)
  /-- The handle under the mark is cleared. The timers that run once come first. -/
  | cancelled (token : Token) (mark : M) (repeats : Bool) (timeout : Timeout)
    (x : Token × Closure) (cleared : Bool) (hrecv : w.Receives l (.cancelTimer token mark))
    (hlook : w.dispatcher.kept repeats mark = some (timeout, x))
    (hfirst : repeats = true → w.dispatcher.kept false mark = none)
    (hcall : w.timer.clear timeout = .ok (w'.timer, cleared))
    (hkept : w.dispatcher.KeptAt w'.dispatcher repeats mark none)
  /-- There is no timer to cancel. -/
  | unknown (token : Token) (mark : M) (hrecv : w.Receives l (.cancelTimer token mark))
    (hlook : ∀ r, w.dispatcher.kept r mark = none) (htimer : w'.timer = w.timer)
    (hkept : ∀ r k, w'.dispatcher.kept r k = w.dispatcher.kept r k)
  /-- Nothing is due any more. -/
  | drained (nowTick : Nat) (env : Env M) (hl : l = .timer nowTick env)
    (hcall : w.timer.tickTo nowTick = .ok (w'.timer, none))
    (hkept : ∀ r k, w'.dispatcher.kept r k = w.dispatcher.kept r k)
  /-- An entry without an interval is handed out. -/
  | fired (nowTick : Nat) (env : Env M) (mark : M) (hl : l = .timer nowTick env)
    (hcall : w.timer.tickTo nowTick = .ok (w'.timer, some (mark, 0)))
    (hkept : w.dispatcher.KeptAt w'.dispatcher false mark none)
  /-- The entry is scheduled again. The new handle goes to the timer of the mark among those that
  run once, if there is one. -/
  | repeated (nowTick : Nat) (env : Env M) (mark : M) (interval : Nat) (timer : Timer S M)
    (timeout : Timeout) (hl : l = .timer nowTick env) (hpos : 0 < interval)
    (hcall : w.timer.tickTo nowTick = .ok (timer, some (mark, interval)))
    (hagain : timer.timeoutMs env.now interval 0 mark = .ok (w'.timer, .ok timeout))
    (hkept : w.dispatcher.KeptAt w'.dispatcher false mark
      ((w.dispatcher.kept false mark).map fun x => (timeout, x.2)))

/-! ### What the handlers do -/

namespace Dispatcher
variable {d d' : Dispatcher S M} {timer : Timer S M} {msg : TcpConnMessage M} {env : Env M}
  {h : Handled S M} {token : Token}

/-- The closures of the timers stay as they are. -/
structure SameTimers (d d' : Dispatcher S M) : Prop where
  timers : d'.timers = d.timers
  timers2 : d'.timers2 = d.timers2

omit [Slab S] [DecidableEq M] in
/-- What does not change has the same timers. -/
theorem SameTimers.refl (d : Dispatcher S M) : SameTimers d d := ⟨rfl, rfl⟩

omit [DecidableEq M] in
/-- A call on a connection leaves the timers alone. -/
private theorem withConnection_timers (d : Dispatcher S M) (token : Token)
    (f : Session M → Except Fault (Session M)) :
    Outcome (d.withConnection token f) (fun r => SameTimers d r.1) (fun _ => True) :=
  withConnection_outcome (fun _ _ _ => trivial) (fun _ => SameTimers.refl d)
    fun _ _ _ _ => Outcome.intro (fun _ _ => ⟨rfl, rfl⟩) fun _ _ => trivial

omit [DecidableEq M] in
/-- An event leaves the timers alone. -/
private theorem handleIoEvent_timers (d : Dispatcher S M) (token : Token) (readable writable : Bool)
    (env : Env M) :
    Outcome (d.handleIoEvent token readable writable env) (fun r => SameTimers d r.1)
      (fun _ => True) :=
  handleIoEvent_outcome (P := fun _ _ => True) (fun _ _ _ => trivial)
    (fun _ => SameTimers.refl d) (fun _ _ _ _ _ => trivial)
    (fun _ _ _ _ _ _ _ => Outcome.intro (fun _ _ => trivial) fun _ _ => trivial)
    (fun _ _ _ => Outcome.intro (fun _ _ => trivial) fun _ _ => trivial)
    fun _ _ _ _ _ _ _ => ⟨rfl, rfl⟩

omit [DecidableEq M] in
/-- `add_connection` leaves the timers alone. -/
private theorem addConnection_timers {stream : TcpStream} {peerAddr : SocketAddr} {cb : Closure}
    {sent : List (TcpConnMessage M)} {locked : Locked}
    (h : d.addConnection stream peerAddr cb env = .ok (d', sent, locked)) : SameTimers d d' := by
  obtain ⟨stream', -, h⟩ := bind_eq_ok.mp h
  obtain ⟨token, -, h⟩ := bind_eq_ok.mp h
  obtain ⟨conn, -, h⟩ := bind_eq_ok.mp h
  obtain ⟨s, -, h⟩ := bind_eq_ok.mp h
  cases h
  exact ⟨rfl, rfl⟩

omit [DecidableEq M] in
/-- `add_connecting` leaves the timers alone. -/
private theorem addConnecting_timers {stream : TcpStream} {addr : SocketAddr} {cb : Closure}
    {locked : Locked} (h : d.addConnecting stream addr cb env = .ok (d', locked)) :
    SameTimers d d' := by
  obtain ⟨stream', -, h⟩ := bind_eq_ok.mp h
  obtain ⟨token, -, h⟩ := bind_eq_ok.mp h
  obtain ⟨stream'', -, h⟩ := bind_eq_ok.mp h
  obtain ⟨conn, -, h⟩ := bind_eq_ok.mp h
  cases h
  exact ⟨rfl, rfl⟩

omit [DecidableEq M] in
/-- `remove_connection` leaves the timers alone, also those of the connection. -/
private theorem removeConnection_timers {locked : Locked}
    (h : d.removeConnection token env = .ok (d', locked)) : SameTimers d d' := by
  obtain ⟨key, -, h⟩ := bind_eq_ok.mp h
  split at h
  · cases h
    exact ⟨rfl, rfl⟩
  · cases h

omit [DecidableEq M] in
/-- `graceful_shutdown` leaves the timers alone. -/
private theorem gracefulShutdown_timers (h : d.gracefulShutdown = .ok d') : SameTimers d d' := by
  obtain ⟨conns, rfl⟩ := gracefulShutdown_eq h
  exact ⟨rfl, rfl⟩

/-- What one pass of `process_timers` does. A timeout that repeats is scheduled again, with the
interval 0. -/
inductive Passed (d : Dispatcher S M) (timer : Timer S M) (nowTick : Nat) (env : Env M)
    (h : Handled S M) : Prop where
  /-- Nothing is due any more. -/
  | idle (htick : timer.tickTo nowTick = .ok (h.timer, none)) (hd : h.dispatcher = d)
  /-- The timeout does not repeat. -/
  | once (mark : M) (htick : timer.tickTo nowTick = .ok (h.timer, some (mark, 0)))
      (hcall : d.handleTimeout mark false env = .ok (h.dispatcher, h.sent))
  /-- The timeout repeats. -/
  | again (mark : M) (interval : Nat) (timer' : Timer S M) (timeout : Timeout)
      (hpos : 0 < interval) (htick : timer.tickTo nowTick = .ok (timer', some (mark, interval)))
      (hagain : timer'.timeoutMs env.now interval 0 mark = .ok (h.timer, .ok timeout))
      (hcall : (d.refreshTimeout mark timeout).handleTimeout mark true env
        = .ok (h.dispatcher, h.sent))

/-- What a pass of `process_timers` leaves. -/
theorem processTimer_passed {nowTick : Nat} (hok : d.processTimer timer nowTick env = .ok h) :
    Passed d timer nowTick env h := by
  obtain ⟨⟨timer', r⟩, htick, hok⟩ := bind_eq_ok.mp hok
  cases r with
  | none =>
    cases hok
    exact .idle htick rfl
  | some due =>
    obtain ⟨mark, interval⟩ := due
    dsimp only at hok
    -- A timeout that repeats is scheduled again first. When the wheel is full, this panics.
    by_cases hpos : interval > 0
    · simp only [hpos, decide_true, if_true] at hok
      obtain ⟨⟨d₁, timer''⟩, hagain, hok⟩ := bind_eq_ok.mp hok
      obtain ⟨⟨timer₂, r⟩, htimeout, hagain⟩ := bind_eq_ok.mp hagain
      cases r with
      | error e => cases hagain
      | ok timeout =>
        cases hagain
        obtain ⟨⟨d₂, sent⟩, hcall, hok⟩ := bind_eq_ok.mp hok
        cases hok
        exact .again mark interval timer' timeout hpos htick htimeout hcall
    · simp only [hpos, decide_false, Bool.false_eq_true, if_false, ok_bind] at hok
      obtain rfl : interval = 0 := by omega
      obtain ⟨⟨d₂, sent⟩, hcall, hok⟩ := bind_eq_ok.mp hok
      cases hok
      exact .once mark htick hcall

omit [DecidableEq M] in
/-- A closure only adds to the log of its connection. -/
theorem timer_log {c : TcpConnection} {f : Closure} {as : List (Act M)} {s : Session M}
    (hok : ({ conn := c, sent := [] } : Session M).timer f as = .ok s) :
    c.log ++ [.timer f] <+: s.conn.log := by
  have hstable : Stable (fun c' => c.log ++ [.timer f] <+: c'.log) (fun _ => True)
      (fun _ => True) :=
    stable_log (fun _ _ _ hlog => hlog.trans (List.prefix_append _ _)) (fun _ => trivial)
      fun _ => trivial
  exact (hstable.acts as _ (List.prefix_refl _)).of_ok hok

end Dispatcher

/-! ### The tables -/

/-- A lookup after a replacement. -/
private theorem dlookup_kreplace {α β : Type} [DecidableEq α] (l : List (Sigma fun _ : α => β))
    (a k : α) (b : β) : (l.kreplace a b).dlookup k
      = if k = a then (l.dlookup k).map (fun _ => b) else l.dlookup k := by
  induction l with
  | nil => simp [List.kreplace]
  | cons x l ih =>
    obtain ⟨a', b'⟩ := x
    by_cases ha : a = a'
    · subst ha
      have hhead : List.kreplace a b (⟨a, b'⟩ :: l) = ⟨a, b⟩ :: l := by
        exact List.lookmap_cons_some _ _ (by simp)
      rw [hhead]
      by_cases hk : k = a
      · subst hk
        simp [List.dlookup_cons_eq]
      · rw [List.dlookup_cons_ne _ _ hk, List.dlookup_cons_ne _ _ hk, if_neg hk]
    · have hhead : List.kreplace a b (⟨a', b'⟩ :: l) = ⟨a', b'⟩ :: List.kreplace a b l := by
        exact List.lookmap_cons_none _ _ (by simp [ha])
      rw [hhead]
      by_cases hk : k = a'
      · subst hk
        rw [List.dlookup_cons_eq, List.dlookup_cons_eq, if_neg (Ne.symm ha)]
      · rw [List.dlookup_cons_ne _ _ hk, List.dlookup_cons_ne _ _ hk, ih]

namespace Dispatcher
variable {d d' d'' : Dispatcher S M} {mark : M} {env : Env M}

omit [Slab S] in
/-- With the same timers the same is kept under every mark. -/
theorem SameTimers.kept (h : SameTimers d d') (r : Bool) (k : M) : d'.kept r k = d.kept r k := by
  simp only [Dispatcher.kept, h.timers, h.timers2]

omit [Slab S] in
/-- What leaves the timers alone keeps what was kept. -/
theorem KeptAt.same {repeats : Bool} {o : Option (Timeout × Token × Closure)}
    (h : d.KeptAt d' repeats mark o) (hsame : SameTimers d' d'') : d.KeptAt d'' repeats mark o :=
  fun r k => (hsame.kept r k).trans (h r k)

omit [Slab S] in
/-- What is kept after something was taken out was kept before. -/
theorem KeptAt.of_some {repeats r : Bool} {k : M} {x : Timeout × Token × Closure}
    (h : d.KeptAt d' repeats mark none) (hx : d'.kept r k = some x) : d.kept r k = some x := by
  rw [h] at hx
  split at hx
  · cases hx
  · exact hx

omit [Slab S] in
/-- A change to one table, at one mark. -/
theorem KeptAt.of_table {repeats : Bool} {o : Option (Timeout × Token × Closure)}
    (hmark : d'.kept repeats mark = o)
    (hothers : ∀ k, k ≠ mark → d'.kept repeats k = d.kept repeats k)
    (htable : ∀ r, r ≠ repeats → ∀ k, d'.kept r k = d.kept r k) :
    d.KeptAt d' repeats mark o := by
  intro r k
  by_cases hr : r = repeats
  · subst hr
    by_cases hk : k = mark
    · rw [if_pos ⟨rfl, hk⟩, hk, hmark]
    · rw [if_neg fun h => hk h.2, hothers k hk]
  · rw [if_neg fun h => hr h.1, htable r hr]

omit [Slab S] in
/-- An insert into `timers` keeps the new timer under its mark. -/
theorem keptAt_insert (d : Dispatcher S M) (mark : M) (x : Timeout × Token × Closure) :
    d.KeptAt { d with timers := d.timers.insert mark x } false mark (some x) :=
  .of_table (by simp [kept]) (fun k hk => by simp [kept, AList.lookup_insert_ne hk])
    (by simp [kept])

omit [Slab S] in
/-- An insert into `timers2` keeps the new timer under its mark. -/
theorem keptAt_insert2 (d : Dispatcher S M) (mark : M) (x : Timeout × Token × Closure) :
    d.KeptAt { d with timers2 := d.timers2.insert mark x } true mark (some x) :=
  .of_table (by simp [kept]) (fun k hk => by simp [kept, AList.lookup_insert_ne hk])
    (by simp [kept])

omit [Slab S] in
/-- A removal from `timers` keeps nothing under its mark. -/
theorem keptAt_erase (d : Dispatcher S M) (mark : M) :
    d.KeptAt { d with timers := d.timers.erase mark } false mark none :=
  .of_table (by simp [kept]) (fun k hk => by simp [kept, AList.lookup_erase_ne hk])
    (by simp [kept])

omit [Slab S] in
/-- A removal from `timers2` keeps nothing under its mark. -/
theorem keptAt_erase2 (d : Dispatcher S M) (mark : M) :
    d.KeptAt { d with timers2 := d.timers2.erase mark } true mark none :=
  .of_table (by simp [kept]) (fun k hk => by simp [kept, AList.lookup_erase_ne hk])
    (by simp [kept])

omit [Slab S] in
/-- `refresh_timeout` looks at one table only. -/
theorem keptAt_refreshTimeout (d : Dispatcher S M) (mark : M) (timeout : Timeout) :
    d.KeptAt (d.refreshTimeout mark timeout) false mark
      ((d.kept false mark).map fun x => (timeout, x.2)) := by
  unfold refreshTimeout
  cases hlook : d.timers.lookup mark with
  | none => exact .of_table (by simp [kept, hlook]) (fun _ _ => rfl) fun _ _ _ => rfl
  | some x =>
    obtain ⟨old, token, f⟩ := x
    have hreplace : ∀ k, (d.timers.replace mark (timeout, token, f)).lookup k
        = if k = mark then (d.timers.lookup k).map (fun _ => (timeout, token, f))
          else d.timers.lookup k := fun k => dlookup_kreplace _ _ _ _
    exact .of_table (by simp [kept, hreplace, hlook])
      (fun k hk => by simp [kept, hreplace, hk]) (by simp [kept])

/-- A timer that runs once is taken out. -/
theorem handleTimeout_once {r : Dispatcher S M × List (TcpConnMessage M)}
    (hok : d.handleTimeout mark false env = .ok r) : d.KeptAt r.1 false mark none := by
  unfold handleTimeout at hok
  simp only [Bool.not_false, if_true] at hok
  split at hok
  · exact (keptAt_erase d mark).same ((withConnection_timers _ _ _).of_ok hok)
  · rename_i hlook
    cases hok
    intro r k
    split
    · rename_i hk
      obtain ⟨rfl, rfl⟩ := hk
      exact hlook
    · rfl

/-- A timer that runs once runs its closure on the connection. -/
theorem handleTimeout_once_runs [LawfulSlab S] {timeout : Timeout} {token : Token} {f : Closure}
    {c : TcpConnection} {r : Dispatcher S M × List (TcpConnMessage M)}
    (hok : d.handleTimeout mark false env = .ok r)
    (hlook : d.kept false mark = some (timeout, token, f)) (hc : d.connAt token = some c) :
    ∃ c', r.1.connAt token = some c' ∧ c.log ++ [.timer f] <+: c'.log := by
  unfold handleTimeout at hok
  replace hlook : d.timers.lookup mark = some (timeout, token, f) := hlook
  simp only [Bool.not_false, if_true, hlook] at hok
  obtain ⟨-, -, hholder⟩ := (Worker.withConnection_delivers _ token _).of_ok hok
  obtain ⟨s, hs, hat, -⟩ := hholder c hc
  exact ⟨s.conn, hat, timer_log hs⟩

/-- A timer that repeats is put back. -/
theorem handleTimeout_again {r : Dispatcher S M × List (TcpConnMessage M)}
    (hok : d.handleTimeout mark true env = .ok r) (b : Bool) (k : M) :
    r.1.kept b k = d.kept b k := by
  unfold handleTimeout at hok
  simp only [Bool.not_true, Bool.false_eq_true, if_false] at hok
  split at hok
  · rename_i timeout token f hlook
    obtain ⟨⟨d₁, sent⟩, hr, hok⟩ := bind_eq_ok.mp hok
    cases hok
    have herase := (keptAt_erase2 d mark).same ((withConnection_timers _ _ _).of_ok hr)
    refine (keptAt_insert2 d₁ mark (timeout, token, f) b k).trans ?_
    split
    · rename_i hk
      obtain ⟨rfl, rfl⟩ := hk
      exact hlook.symm
    · rename_i hk
      exact (herase b k).trans (if_neg hk)
  · cases hok
    rfl

end Dispatcher

/-! ### The steps -/

namespace Worker
variable {w w' : Worker S M} {l : WorkerLabel M}

omit [Slab S] [DecidableEq M] in
/-- A step handles one message. -/
theorem receives_unique {msg msg' : TcpConnMessage M} (h : w.Receives l msg)
    (h' : w.Receives l msg') : msg = msg' := by
  cases l with
  | receive env =>
    obtain ⟨target, queue, hqueue⟩ := h
    obtain ⟨target', queue', hqueue'⟩ := h'
    rw [hqueue] at hqueue'
    cases hqueue'
    rfl
  | _ => exact h.elim

/-- A step that changes neither the wheel nor the tables, and is not about timers. -/
theorem TimersStep.of_same (htimer : w'.timer = w.timer)
    (hsame : Dispatcher.SameTimers w.dispatcher w'.dispatcher)
    (hrecv : ∀ msg, w.Receives l msg → msg.adds = none ∧ msg.cancels = none)
    (hsilent : ∀ mark, ¬ w.Delivers l mark) : w.TimersStep l w' :=
  .other htimer hsame.kept (fun msg h => (hrecv msg h).1) (fun msg h => (hrecv msg h).2) hsilent

/-- A message that was handled. -/
private theorem timersStep_message {env : Env M} {msg : TcpConnMessage M} {r : Handled S M}
    (hrecv : w.Receives (.receive env) msg)
    (hok : w.dispatcher.handleNotify w.timer msg env = .ok r)
    (htimer : w'.timer = r.timer) (hd : w'.dispatcher = r.dispatcher) :
    w.TimersStep (.receive env) w' := by
  -- A message that is not about timers leaves the wheel and the tables alone.
  have other : r.timer = w.timer → Dispatcher.SameTimers w.dispatcher r.dispatcher →
      msg.adds = none ∧ msg.cancels = none → w.TimersStep (.receive env) w' := by
    intro ht hsame hmsg
    refine .of_same (htimer.trans ht) (hd ▸ hsame) (fun msg' h => ?_) fun _ => id
    rw [receives_unique h hrecv]
    exact hmsg
  cases Dispatcher.handleNotify_notified hok with
  | called token k r hcall hr =>
    refine other rfl ((Dispatcher.withConnection_timers _ _ _).of_ok hr) ?_
    cases msg <;> cases hcall <;> exact ⟨rfl, rfl⟩
  | added stream peerAddr cb r hmsg hr =>
    refine other rfl (Dispatcher.addConnection_timers hr) ?_
    rcases hmsg with rfl | ⟨addr, rfl, -⟩ <;> exact ⟨rfl, rfl⟩
  | waits stream addr cb e r _ _ hr =>
    exact other rfl (Dispatcher.addConnecting_timers hr) ⟨rfl, rfl⟩
  | dropped => exact other rfl (.refl _) ⟨rfl, rfl⟩
  | removed token r hr => exact other rfl (Dispatcher.removeConnection_timers hr) ⟨rfl, rfl⟩
  | addTimer token delay mark f timer' timeout hcall =>
    refine .added env _ _ timeout rfl hrecv rfl (htimer ▸ hcall) ?_
    rw [hd]
    exact Dispatcher.keptAt_insert _ _ _
  | addTimer2 token delay interval mark f timer' timeout hcall =>
    refine .added env _ _ timeout rfl hrecv rfl (htimer ▸ hcall) ?_
    rw [hd]
    exact Dispatcher.keptAt_insert2 _ _ _
  | fullTimer token delay mark f timer' err hcall
  | fullTimer2 token delay interval mark f timer' err hcall =>
    exact .full env _ _ err rfl hrecv rfl (htimer ▸ hcall) fun r k => by rw [hd]
  | cancelled token mark timeout x timer' cleared hlook hcall =>
    refine .cancelled token mark false timeout x cleared hrecv hlook (by simp)
      (htimer ▸ hcall) ?_
    rw [hd]
    exact Dispatcher.keptAt_erase _ _
  | cancelled2 token mark timeout x timer' cleared hnone hlook hcall =>
    refine .cancelled token mark true timeout x cleared hrecv hlook (fun _ => hnone)
      (htimer ▸ hcall) ?_
    rw [hd]
    exact Dispatcher.keptAt_erase2 _ _
  | unknown token mark hnone hnone2 =>
    refine .unknown token mark hrecv (fun r => ?_) htimer fun r k => by rw [hd]
    cases r
    · exact hnone
    · exact hnone2

/-- Every step does one of these things to the timers. -/
theorem step_timers (hstep : w.Step l w') : w.TimersStep l w' := by
  -- No handler runs in these steps.
  have hpassive : Passive l → w.TimersStep l w' := by
    intro hl
    obtain ⟨w₁, hw₁, hd, htimer, -⟩ := exec_passive hl hstep
    obtain rfl := Except.ok.inj hw₁
    have hnot : ∀ msg, ¬ w.Receives l msg := fun msg h => by cases l <;> first | exact h | exact hl
    refine .of_same htimer (hd ▸ .refl _) (fun msg h => absurd h (hnot msg)) fun mark h => ?_
    cases l <;> first | exact h | exact hl
  cases l with
  | enqueue | flush | lock => exact hpassive trivial
  | event token readable writable env =>
    obtain ⟨d, sent, hd, rfl⟩ := step_event hstep
    exact .of_same rfl ((Dispatcher.handleIoEvent_timers _ _ _ _ _).of_ok hd)
      (fun _ h => h.elim) fun _ => id
  | receive env =>
    obtain ⟨⟨msg, target⟩, queue, r, hqueue, hr, rfl⟩ := step_receive hstep
    cases msg with
    | stop =>
      obtain ⟨d, hd, hr⟩ := bind_eq_ok.mp hr
      cases hr
      refine .of_same rfl (Dispatcher.gracefulShutdown_timers hd) (fun msg h => ?_) fun _ => id
      obtain ⟨target', queue', hqueue'⟩ := h
      rw [hqueue] at hqueue'
      cases hqueue'
    | any msg => exact timersStep_message ⟨target, queue, hqueue⟩ hr rfl rfl
  | timer nowTick env =>
    obtain ⟨r, hr, rfl⟩ := step_timer hstep
    cases Dispatcher.processTimer_passed hr with
    | idle htick hd => exact .drained nowTick env rfl htick fun r k => by rw [after, hd]
    | once mark htick hcall =>
      exact .fired nowTick env mark rfl htick (Dispatcher.handleTimeout_once hcall)
    | again mark interval timer' timeout hpos htick hagain hcall =>
      refine .repeated nowTick env mark interval timer' timeout rfl hpos htick hagain fun r k => ?_
      exact (Dispatcher.handleTimeout_again hcall r k).trans
        (Dispatcher.keptAt_refreshTimeout w.dispatcher mark timeout r k)

end Worker

end Ruduo
