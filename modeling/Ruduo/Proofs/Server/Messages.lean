import Ruduo.Proofs.Server.Handlers

/-!
# `Ruduo.Proofs.Server.Messages`: what handling a message can do to the connections

Three messages change which connections there are. Every other one asks for a call on a connection,
or is about a timer.

* `addConnection_outcome`, `addConnecting_outcome`, `removeConnection_outcome`: the handlers that
  change which connections there are.
* `handleNotify_moves`, `handleNotify_stays`: the rules for `handle_notify`, with its faults.
* `Notified`: what comes of a message. What later modules say of `handle_notify` is read off it.
-/

set_option autoImplicit false

namespace Ruduo

open Lib (Outcome Slab LawfulSlab)

namespace Dispatcher
variable {S : Type → Type} [Slab S] {M : Type} [DecidableEq M]
variable {d d' d'' : Dispatcher S M} {token : Token} {key : Nat} {c c' : TcpConnection}

/-! ### Handlers that change which connections there are -/

/-- A connection as it is made: without interests, and with nothing to write. -/
structure Newborn (c : TcpConnection) (id : Nat) (token : Token) (registered : Option Interest)
    (log : List ConnEvent) : Prop where
  id : c.id = id
  token : c.token = token
  registered : c.io.registered = registered
  output : c.output.Holds []
  interests : c.interests = none
  log : c.log = log

/-- `make` never faults. -/
theorem make_outcome (id : Nat) (token : Token) (stream : TcpStream) :
    Outcome (TcpConnection.make id token stream)
      (fun c => Newborn c id token stream.registered []) BufferFault := by
  have hnew : ∀ b, Buffer.new = .ok b → b.Holds [] := by
    intro b hb
    have hagrees := (@Buffer.build_represents _ K_INITIAL_SIZE hb).agrees
    exact ⟨hagrees.peek, hagrees.cheapPrepend_le⟩
  cases hb : Buffer.new with
  | error f => cases hb
  | ok b =>
    simp only [TcpConnection.make, hb, ok_bind, Outcome.ok]
    exact ⟨rfl, rfl, rfl, hnew b hb, rfl, rfl⟩

section Arrivals
variable {E : Fault → Prop} {stream : TcpStream} {cb : Closure} {env : Env M}

omit [DecidableEq M] in
/-- The new connection is established before it enters the slab. -/
theorem addConnection_outcome {P : TcpConnection → Prop} (hE : Covers E) (peerAddr : SocketAddr)
    (hcall : ∀ c,
      Newborn c d.made (d.offset + Slab.vacantKey d.localConnections) stream.registered [] →
      Outcome (({ conn := c, sent := [] } : Session M).call (.established cb env.msgs env.acts))
        (fun s => P s.conn) E) :
    Outcome (d.addConnection stream peerAddr cb env)
      (fun r => ∃ c, P c ∧
        r.1 = { d with localConnections := Slab.insert d.localConnections c
                       made := d.made + 1 } ∧
        r.2.2 = .add (d.offset + Slab.vacantKey d.localConnections) d.localNotifier) E := by
  refine ((rejectIfFull_registered d stream id env).mono (fun _ => id) hE).bind
    fun stream' hstream' => ?_
  have htoken : Outcome (u64Add d.offset (Slab.vacantKey d.localConnections))
      (fun token => token = d.offset + Slab.vacantKey d.localConnections) E :=
    Outcome.intro (fun token h => (u64Add_eq_ok.mp h).2.symm)
      fun f h => hE f ((u64Add_fault _ _).of_error h)
  refine htoken.bind fun token htoken => ?_
  refine ((make_outcome d.made token stream').mono (fun _ => id) hE).bind fun c hc => ?_
  refine (hcall c ⟨hc.id, hc.token.trans htoken, hc.registered.trans hstream', hc.output,
    hc.interests, hc.log⟩).bind fun s hs => ?_
  exact ⟨s.conn, hs, rfl, by rw [htoken]⟩

omit [DecidableEq M] in
/-- The new connection waits, and its stream is registered. -/
theorem addConnecting_outcome (hE : Covers E) (addr : SocketAddr)
    (hstream : stream.registered = none ∨ ∀ f, E f) :
    Outcome (d.addConnecting stream addr cb env)
      (fun r => ∃ c token, token = d.offset + Slab.vacantKey d.localConnections ∧
        Newborn c d.made token (some .READABLE) [.connecting cb] ∧
        r.1 = { d with localConnections := Slab.insert d.localConnections c
                       pendings := d.pendings.insert token cb
                       made := d.made + 1 } ∧
        r.2 = .add token d.localNotifier) E := by
  refine ((rejectIfFull_registered d stream id env).mono (fun _ => id) hE).bind
    fun stream' hstream' => ?_
  have htoken : Outcome (u64Add d.offset (Slab.vacantKey d.localConnections))
      (fun token => token = d.offset + Slab.vacantKey d.localConnections) E :=
    Outcome.intro (fun token h => (u64Add_eq_ok.mp h).2.symm)
      fun f h => hE f ((u64Add_fault _ _).of_error h)
  refine htoken.bind fun token htoken => ?_
  -- The poll accepts a stream that it does not know. Otherwise every fault is allowed.
  have hregister :
      Outcome (expect (.registerConnecting token) (Registry.register stream' .READABLE))
      (fun stream => stream.registered = some .READABLE) E := by
    unfold Registry.register
    cases hr : stream'.registered with
    | none => exact rfl
    | some i =>
      rcases hstream with hnone | hall
      · rw [hr, hnone] at hstream'
        cases hstream'
      · exact hall _
  refine hregister.bind fun stream'' hstream'' => ?_
  refine ((make_outcome d.made token stream'').mono (fun _ => id) hE).bind fun c hc => ?_
  have hlog : (c.record (.connecting cb)).log = [.connecting cb] := by
    show c.log ++ [.connecting cb] = _
    rw [hc.log, List.nil_append]
  exact ⟨c.record (.connecting cb), token, htoken, ⟨hc.id, hc.token,
    hc.registered.trans hstream'', hc.output, hc.interests, hlog⟩, rfl, rfl⟩

omit [DecidableEq M] in
/-- A token that is not live faults. -/
theorem removeConnection_outcome (hE : Covers E) :
    Outcome (d.removeConnection token env)
      (fun r => ∃ key c, token = d.offset + key ∧ Slab.get d.localConnections key = some c ∧
        r.1 = { d with localConnections := Slab.remove d.localConnections key } ∧
        r.2 = .remove token env.peerAddr) E := by
  unfold removeConnection
  cases hkey : d.restoreKey token with
  | error f => exact hE _ (restoreKey_fault hkey)
  | ok key =>
    simp only [ok_bind, Slab.tryRemove]
    cases hget : Slab.get d.localConnections key with
    | none => exact hE _ id
    | some c => exact ⟨key, c, restoreKey_eq_ok.mp hkey, hget, rfl, rfl⟩

omit [DecidableEq M] in
/-- The message adds or removes a connection. -/
def MovesConnection : TcpConnMessage M → Prop
  | .established .. | .connecting .. | .removed _ => True
  | _ => False

/-- What a message that adds or removes a connection does to the connections. -/
inductive Moved (d d' : Dispatcher S M) : Option Locked → Prop where
  /-- The peer of a connecting stream cannot be reached. -/
  | dropped (hsame : SameTable d d') : Moved d d' none
  /-- A connection was made, under the vacant key. -/
  | added (c : TcpConnection)
    (hconns : d'.localConnections = Slab.insert d.localConnections c)
    (hpend : ∀ token, token ≠ d.offset + Slab.vacantKey d.localConnections →
      d'.pendings.lookup token = d.pendings.lookup token)
    (hoffset : d'.offset = d.offset) (hnoti : d'.localNotifier = d.localNotifier)
    (hmade : d'.made = d.made + 1) :
    Moved d d' (some (.add (d.offset + Slab.vacantKey d.localConnections) d.localNotifier))
  /-- A connection was taken out. -/
  | removed (key : Nat) (c : TcpConnection) (peerAddr : Except IoError SocketAddr)
    (hget : Slab.get d.localConnections key = some c)
    (hsame : SameTable { d with localConnections := Slab.remove d.localConnections key } d') :
    Moved d d' (some (.remove (d.offset + key) peerAddr))

section
variable {P : Option Closure → Token → TcpConnection → Prop} {timer : Timer S M}
  {msg : TcpConnMessage M}

variable [LawfulSlab S] in
/-- A message that adds or removes a connection. A new connection is established at once, or
waits. -/
theorem handleNotify_moves (hE : Covers E) (h : d.All P) (hmsg : MovesConnection msg)
    (hfresh : msg.StreamFresh ∨ ∀ f, E f)
    (hestablished : ∀ c cb registered, (msg.StreamFresh → registered = none) →
      Newborn c d.made (d.offset + Slab.vacantKey d.localConnections) registered [] →
      Outcome (({ conn := c, sent := [] } : Session M).call (.established cb env.msgs env.acts))
        (fun s => P (d.pendings.lookup (d.offset + Slab.vacantKey d.localConnections))
          (d.offset + Slab.vacantKey d.localConnections) s.conn) E)
    (hwaiting : ∀ c cb,
      Newborn c d.made (d.offset + Slab.vacantKey d.localConnections) (some .READABLE)
        [.connecting cb] →
      P (some cb) (d.offset + Slab.vacantKey d.localConnections) c) :
    Outcome (d.handleNotify timer msg env)
      (fun r => r.dispatcher.All P ∧ Moved d r.dispatcher r.locked) E := by
  have hadd : ∀ (stream : TcpStream) addr cb, (msg.StreamFresh → stream.registered = none) →
      Outcome (d.addConnection stream addr cb env >>= fun r =>
          .ok { dispatcher := r.1, timer, sent := r.2.1, locked := some r.2.2 })
        (fun r : Handled S M => r.dispatcher.All P ∧ Moved d r.dispatcher r.locked) E := by
    intro stream addr cb hstream
    refine (addConnection_outcome hE addr fun c hc => hestablished c cb _ hstream hc).bind
      fun r hr => ?_
    obtain ⟨c, hc, hd', hlocked⟩ := hr
    rw [Outcome.ok, hd', hlocked]
    exact ⟨h.insert rfl (fun _ _ => rfl) rfl hc, .added c rfl (fun _ _ => rfl) rfl rfl rfl⟩
  cases msg with
  | established stream peerAddr cb => exact hadd stream peerAddr cb id
  | connecting stream addr cb =>
    cases hpeer : env.peerAddr with
    | ok peerAddr =>
      -- The stream has connected in the meantime.
      simp only [handleNotify, hpeer]
      exact hadd stream peerAddr cb id
    | error e =>
      -- It waits for its first event when it is not connected yet, and is dropped otherwise.
      simp only [handleNotify, hpeer]
      refine Outcome.ite (fun _ => ?_) fun _ => ⟨h, .dropped (SameTable.refl d)⟩
      refine (addConnecting_outcome hE addr hfresh).bind fun r hr => ?_
      obtain ⟨c, token, rfl, hc, hd', hlocked⟩ := hr
      rw [Outcome.ok, hd', hlocked]
      have hpend : ∀ token, token ≠ d.offset + Slab.vacantKey d.localConnections →
          (d.pendings.insert (d.offset + Slab.vacantKey d.localConnections) cb).lookup token
            = d.pendings.lookup token := fun _ hne => AList.lookup_insert_ne hne
      refine ⟨h.insert rfl hpend rfl ?_, .added c rfl hpend rfl rfl rfl⟩
      rw [show ({ d with
        localConnections := Slab.insert d.localConnections c
        pendings := d.pendings.insert (d.offset + Slab.vacantKey d.localConnections) cb
        made := d.made + 1 } : Dispatcher S M).pendings
          = d.pendings.insert (d.offset + Slab.vacantKey d.localConnections) cb from rfl,
        AList.lookup_insert]
      exact hwaiting c cb hc
  | removed token =>
    refine (removeConnection_outcome hE).bind fun r hr => ?_
    obtain ⟨key, c, rfl, hget, hd', hlocked⟩ := hr
    rw [Outcome.ok, hd', hlocked]
    refine ⟨fun key' c' hget' => ?_, .removed key c env.peerAddr hget (SameTable.refl _)⟩
    rw [LawfulSlab.get_remove] at hget'
    split at hget'
    · cases hget'
    · exact h key' c' hget'
  | _ => exact hmsg.elim

variable [LawfulSlab S] in
/-- Every other message makes the call that it asks for, or is about a timer. -/
theorem handleNotify_stays {C : Prop} (h : d.All P) (hmsg : ¬ MovesConnection msg)
    (hrule : CallRule P E C d (msg.call env)) :
    Outcome (d.handleNotify timer msg env)
      (fun r => r.dispatcher.All P ∧ Kept d r.dispatcher ∧ C ∧ r.locked = none) E := by
  cases hk : msg.call env with
  | none =>
    rw [hk] at hrule
    have hC := hrule.of_none
    have htimers := @handleNotify_timer S _ M _ d timer msg env
    cases msg with
    | addTimer | addTimer2 | cancelTimer =>
      refine (htimers trivial).mono (fun r hr => ?_) (hrule.covers hC)
      exact ⟨h.sameTable hr.1, hr.1.kept, hC, hr.2⟩
    | established | connecting | removed => exact absurd trivial hmsg
    | _ => cases hk
  | some call =>
    obtain ⟨token, k⟩ := call
    rw [hk] at hrule
    have hpend : d.pendingsAfter token k = d.pendings := by
      cases msg <;> cases hk <;> rfl
    rw [handleNotify_of_call hk]
    refine (call_outcome h hrule hpend).bind fun r hr => ?_
    exact ⟨hr.1, hr.2.1, hr.2.2, rfl⟩

end

end Arrivals

/-! ### A message that was handled -/

/-- What comes of a message, one constructor for each way through `handle_notify`. -/
inductive Notified (d : Dispatcher S M) (timer : Timer S M) (env : Env M) :
    TcpConnMessage M → Handled S M → Prop where
  /-- The message asks for a call on a connection. -/
  | called {msg : TcpConnMessage M} (token : Token) (k : ConnCall M)
    (r : Dispatcher S M × List (TcpConnMessage M)) (hcall : msg.call env = some (token, k))
    (hr : (d.withConnection token fun s => s.call k) = .ok r) :
    Notified d timer env msg { dispatcher := r.1, timer, sent := r.2, locked := none }
  /-- The stream is connected. -/
  | added {msg : TcpConnMessage M} (stream : TcpStream) (peerAddr : SocketAddr) (cb : Closure)
    (r : Dispatcher S M × List (TcpConnMessage M) × Locked)
    (hmsg : msg = .established stream peerAddr cb ∨
      ∃ addr, msg = .connecting stream addr cb ∧ env.peerAddr = .ok peerAddr)
    (hr : d.addConnection stream peerAddr cb env = .ok r) :
    Notified d timer env msg
      { dispatcher := r.1, timer, sent := r.2.1, locked := some r.2.2 }
  /-- The stream is still connecting. -/
  | waits (stream : TcpStream) (addr : SocketAddr) (cb : Closure) (e : IoError)
    (r : Dispatcher S M × Locked) (hpeer : env.peerAddr = .error e)
    (hwaits : e.kind = .notConnected ∨ e.rawOsError = some EINPROGRESS)
    (hr : d.addConnecting stream addr cb env = .ok r) :
    Notified d timer env (.connecting stream addr cb)
      { dispatcher := r.1, timer, sent := [], locked := some r.2 }
  /-- The attempt to connect has failed. -/
  | dropped (stream : TcpStream) (addr : SocketAddr) (cb : Closure) (e : IoError)
    (hpeer : env.peerAddr = .error e)
    (hdropped : ¬ (e.kind = .notConnected ∨ e.rawOsError = some EINPROGRESS)) :
    Notified d timer env (.connecting stream addr cb)
      { dispatcher := d, timer, sent := [], locked := none }
  | removed (token : Token) (r : Dispatcher S M × Locked)
    (hr : d.removeConnection token env = .ok r) :
    Notified d timer env (.removed token)
      { dispatcher := r.1, timer, sent := [], locked := some r.2 }
  /-- The wheel has room. -/
  | addTimer (token : Token) (delay : Nat) (mark : M) (f : Closure) (timer' : Timer S M)
    (timeout : Timeout)
    (hcall : timer.timeoutMs env.now delay 0 mark = .ok (timer', .ok timeout)) :
    Notified d timer env (.addTimer token delay mark f)
      { dispatcher := { d with timers := d.timers.insert mark (timeout, token, f) }
        timer := timer', sent := [], locked := none }
  /-- The wheel has room for the periodic timer. -/
  | addTimer2 (token : Token) (delay interval : Nat) (mark : M) (f : Closure)
    (timer' : Timer S M) (timeout : Timeout)
    (hcall : timer.timeoutMs env.now delay interval mark = .ok (timer', .ok timeout)) :
    Notified d timer env (.addTimer2 token delay interval mark f)
      { dispatcher := { d with timers2 := d.timers2.insert mark (timeout, token, f) }
        timer := timer', sent := [], locked := none }
  /-- The wheel is full. -/
  | fullTimer (token : Token) (delay : Nat) (mark : M) (f : Closure) (timer' : Timer S M)
    (err : TimerError)
    (hcall : timer.timeoutMs env.now delay 0 mark = .ok (timer', .error err)) :
    Notified d timer env (.addTimer token delay mark f)
      { dispatcher := d, timer := timer', sent := [], locked := none }
  /-- The wheel is full for the periodic timer. -/
  | fullTimer2 (token : Token) (delay interval : Nat) (mark : M) (f : Closure)
    (timer' : Timer S M) (err : TimerError)
    (hcall : timer.timeoutMs env.now delay interval mark = .ok (timer', .error err)) :
    Notified d timer env (.addTimer2 token delay interval mark f)
      { dispatcher := d, timer := timer', sent := [], locked := none }
  /-- The timer runs once. -/
  | cancelled (token : Token) (mark : M) (timeout : Timeout) (x : Token × Closure)
    (timer' : Timer S M) (cleared : Bool) (hlook : d.timers.lookup mark = some (timeout, x))
    (hcall : timer.clear timeout = .ok (timer', cleared)) :
    Notified d timer env (.cancelTimer token mark)
      { dispatcher := { d with timers := d.timers.erase mark }
        timer := timer', sent := [], locked := none }
  /-- The timer repeats. These are looked at only where none runs once. -/
  | cancelled2 (token : Token) (mark : M) (timeout : Timeout) (x : Token × Closure)
    (timer' : Timer S M) (cleared : Bool) (hnone : d.timers.lookup mark = none)
    (hlook : d.timers2.lookup mark = some (timeout, x))
    (hcall : timer.clear timeout = .ok (timer', cleared)) :
    Notified d timer env (.cancelTimer token mark)
      { dispatcher := { d with timers2 := d.timers2.erase mark }
        timer := timer', sent := [], locked := none }
  /-- There is no timer to cancel. -/
  | unknown (token : Token) (mark : M) (hnone : d.timers.lookup mark = none)
    (hnone2 : d.timers2.lookup mark = none) :
    Notified d timer env (.cancelTimer token mark)
      { dispatcher := d, timer, sent := [], locked := none }

/-- What the call for a message leaves. -/
theorem handleNotify_notified {timer : Timer S M} {msg : TcpConnMessage M} {env : Env M}
    {h : Handled S M} (hok : d.handleNotify timer msg env = .ok h) :
    Notified d timer env msg h := by
  -- All messages that ask for a call are handled alike. The others have a handler of their own.
  cases hcall : msg.call env with
  | some call =>
    obtain ⟨token, k⟩ := call
    rw [handleNotify_of_call hcall] at hok
    obtain ⟨r, hr, hh⟩ := bind_eq_ok.mp hok
    cases hh
    exact .called token k r hcall hr
  | none =>
    cases msg with
    | established stream peerAddr cb =>
      obtain ⟨r, hr, hh⟩ := bind_eq_ok.mp hok
      cases hh
      exact .added stream peerAddr cb r (Or.inl rfl) hr
    | connecting stream addr cb =>
      cases hpeer : env.peerAddr with
      | ok peerAddr =>
        simp only [handleNotify, hpeer] at hok
        obtain ⟨r, hr, hh⟩ := bind_eq_ok.mp hok
        cases hh
        exact .added stream peerAddr cb r (Or.inr ⟨addr, rfl, hpeer⟩) hr
      | error e =>
        simp only [handleNotify, hpeer] at hok
        split at hok
        · rename_i hwaits
          obtain ⟨r, hr, hh⟩ := bind_eq_ok.mp hok
          cases hh
          exact .waits stream addr cb e r hpeer hwaits hr
        · rename_i hdropped
          cases hok
          exact .dropped stream addr cb e hpeer hdropped
    | removed token =>
      obtain ⟨r, hr, hh⟩ := bind_eq_ok.mp hok
      cases hh
      exact .removed token r hr
    | addTimer token delay mark f =>
      obtain ⟨⟨timer', result⟩, hcall, hh⟩ := bind_eq_ok.mp hok
      cases result with
      | ok timeout =>
        cases hh
        exact .addTimer token delay mark f timer' timeout hcall
      | error err =>
        cases hh
        exact .fullTimer token delay mark f timer' err hcall
    | addTimer2 token delay interval mark f =>
      obtain ⟨⟨timer', result⟩, hcall, hh⟩ := bind_eq_ok.mp hok
      cases result with
      | ok timeout =>
        cases hh
        exact .addTimer2 token delay interval mark f timer' timeout hcall
      | error err =>
        cases hh
        exact .fullTimer2 token delay interval mark f timer' err hcall
    | cancelTimer token mark =>
      unfold handleNotify at hok
      dsimp only at hok
      split at hok
      · rename_i timeout token' f hlook
        obtain ⟨⟨timer', cleared⟩, hcall, hh⟩ := bind_eq_ok.mp hok
        cases hh
        exact .cancelled token mark timeout (token', f) timer' cleared hlook hcall
      · rename_i hnone
        split at hok
        · rename_i timeout token' f hlook
          obtain ⟨⟨timer', cleared⟩, hcall, hh⟩ := bind_eq_ok.mp hok
          cases hh
          exact .cancelled2 token mark timeout (token', f) timer' cleared hnone hlook hcall
        · rename_i hnone2
          cases hok
          exact .unknown token mark hnone hnone2
    | _ => cases hcall

end Dispatcher

end Ruduo
