import Ruduo.Proofs.Server.Delivery
import Ruduo.Proofs.Server.Lifecycle
import Ruduo.Proofs.Server.OneShot
import Ruduo.Proofs.Server.Turnover
import Ruduo.Spec.Removal

/-!
# `Ruduo.Proofs.Server.Removal`: when nothing is left of a removed connection

`remove_connection` takes the connection out of the slab, and its token out of `Shared`. It leaves
the setup callbacks and the timers alone, which name the connection by its token. So nothing is left
exactly when nothing was there before (`removesAll_iff`).

* `Owned`: all timers with the closure `f` are for one live connection. `Owned.step` keeps it as
  long as no connection is removed that a timer is for.
* `Attached`: a setup callback waits under the token of the connection that it was handed over
  with. `Attached.step` keeps it in the same way.
* `removalContract_of_leavesNothing`: runs. `timer_runs_on_next_client`: a timer that outlives its
  connection. `late_timer_runs_on_next_client`: one that is added after its connection has gone.
-/

set_option autoImplicit false

namespace Ruduo

open Lib (Run Slab LawfulSlab Always Each)

namespace Worker
variable {S : Type → Type} [Slab S] [LawfulSlab S] {M : Type} [DecidableEq M]
  {w w' : Worker S M} {l : WorkerLabel M} {token : Token} {f : Closure} {id : Nat}

/-- A connection that is not removed stays live. -/
theorem step_live (hstep : w.Step l w') {c : TcpConnection}
    (hc : w.dispatcher.connAt token = some c) (hnot : ¬ w.Receives l (.removed token)) :
    ∃ c', w'.dispatcher.connAt token = some c' ∧ c'.id = c.id := by
  cases step_conns hstep with
  | kept hlive => exact hlive token c hc
  | added token' new hnone hconns =>
    refine ⟨c, ?_, rfl⟩
    rw [hconns, if_neg]
    · exact hc
    · rintro rfl
      cases hnone.symm.trans hc
  | removed token' gone peerAddr hrecv hlive hconns =>
    refine ⟨c, ?_, rfl⟩
    rw [hconns, if_neg]
    · exact hc
    · rintro rfl
      exact hnot hrecv

/-! ### What a removal leaves -/

/-- A removal leaves nothing behind exactly when there was nothing to leave. -/
theorem removesAll_iff (hstep : w.Step l w') :
    w.RemovesAll l w' ↔ ∀ token, w.Receives l (.removed token) → w.Unreferenced token := by
  refine forall_congr' fun token => forall_congr' fun hrecv => ?_
  cases step_conns hstep with
  | kept _ _ _ _ hnot | added _ _ _ _ _ _ _ hnot => exact absurd hrecv (hnot token)
  | removed token' gone peerAddr hrecv' hlive hconns hmade hpend hkept hlocked =>
    obtain rfl := TcpConnMessage.removed.inj (receives_unique hrecv hrecv')
    have hsame : w'.Unreferenced token ↔ w.Unreferenced token := by
      simp only [Unreferenced, hpend, hkept]
    rw [hsame, and_iff_left_iff_imp]
    intro _
    refine ⟨_, hlocked, fun s s' hrun => ?_⟩
    obtain ⟨_, -, hs'⟩ := bind_eq_ok.mp hrun
    cases hs'
    simp [Shared.removeConnection]

/-! ### The timers -/

/-- All timers with the closure are for the connection `id`, which is live and holds the token. -/
def Owned (w : Worker S M) (f : Closure) (token : Token) (id : Nat) : Prop :=
  ∀ r k timeout t, w.dispatcher.kept r k = some (timeout, t, f) →
    t = token ∧ ∃ c, w.dispatcher.connAt token = some c ∧ c.id = id

/-- A step keeps this that removes no connection which a timer is for. -/
theorem Owned.step (h : w.Owned f token id) (hstep : w.FreshStep f l w')
    (hclean : ∀ t, w.Receives l (.removed t) → w.Unreferenced t) : w'.Owned f token id := by
  intro r k timeout t hx
  obtain ⟨timeout', hx'⟩ := hstep.kept hx
  obtain ⟨rfl, c, hc, rfl⟩ := h r k timeout' t hx'
  exact ⟨rfl, step_live hstep.1 hc fun hrecv => (hclean t hrecv).2 r k timeout' f hx'⟩

/-- The closure runs on this connection only. -/
theorem Owned.runs (h : w.Owned f token id) (hstep : w.Step l w') {t : Token} {c : TcpConnection}
    (hc : w.dispatcher.connAt t = some c) (hran : w.RanTimer w' t f) : c.id = id := by
  obtain ⟨nowTick, env, mark, interval, timer, timeout, -, -, hkept⟩ := runs_delivered hstep hran
  obtain ⟨rfl, c', hc', hid⟩ := h _ _ _ _ hkept
  obtain rfl := Option.some.inj (hc.symm.trans hc')
  exact hid

omit [Slab S] [LawfulSlab S] [DecidableEq M] in
/-- A message that adds a timer designates the connection of the timer. -/
theorem designee_of_request {msg : TcpConnMessage M} {q : TimerRequest M}
    (hq : msg.request = some q) : msg.designee = some q.token := by
  cases msg <;> cases hq <;> rfl

/-- A message that adds a timer for a live connection. -/
theorem Dropped.registers (h : w.Dropped f) (htraced : Traced w) (hstep : w.Step l w')
    (hreg : w.Registers l id f) (hlive : w.Live id) : ∃ token, w'.Owned f token id := by
  cases l with
  | receive env =>
    obtain ⟨msg, q, queue, hqueue, hq, rfl⟩ := hreg
    have hrecv : w.Receives (.receive env) msg := ⟨_, queue, hqueue⟩
    -- The connection still holds the token of the message.
    obtain ⟨c, hc, rfl⟩ := htraced.holds (hqueue ▸ List.mem_cons_self) rfl rfl
      (designee_of_request hq) hlive
    refine ⟨q.token, fun r k timeout t hx => ?_⟩
    rcases kept_of_step hstep hx with ⟨timeout', hx'⟩ | ⟨msg', q', hrecv', hq', rfl, -⟩
    · exact absurd hx' (h r k timeout' t)
    · obtain rfl := receives_unique hrecv hrecv'
      obtain rfl := Option.some.inj (hq.symm.trans hq')
      refine ⟨rfl, step_live hstep hc fun hremoved => ?_⟩
      obtain rfl := receives_unique hrecv hremoved
      cases hq
  | _ => exact hreg.elim

/-! ### The setup callbacks -/

/-- A setup callback waits under the token of a live connection that was handed over with it. -/
def Attached (w : Worker S M) : Prop :=
  ∀ token f, w.dispatcher.pendings.lookup token = some f →
    ∃ c, w.dispatcher.connAt token = some c ∧ .connecting f ∈ c.log

/-- A step keeps this that removes no connection which a callback waits for. -/
theorem Attached.step (h : w.Attached) (hstep : w.Step l w')
    (hclean : ∀ t, w.Receives l (.removed t) → w.Unreferenced t) : w'.Attached := by
  intro token f hlook
  cases step_conns hstep with
  | kept hlive _ hpend =>
    obtain ⟨c, hc, hlog⟩ := h token f (hpend token f hlook)
    obtain ⟨c', hc', -⟩ := hlive token c hc
    obtain ⟨events, heq, -⟩ := step_log (e := .connecting f) hstep hc hc' (by simp)
      fun k _ hrec => hrec.ne_connecting f rfl
    exact ⟨c', hc', by simp [heq, hlog]⟩
  | added token' new hnone hconns hid hmade hpend =>
    -- The callback was there before, or it came with the new connection.
    rcases hpend token f hlook with hold | ⟨rfl, hlog⟩
    · obtain ⟨c, hc, hlog⟩ := h token f hold
      refine ⟨c, ?_, hlog⟩
      rw [hconns, if_neg]
      · exact hc
      · rintro rfl
        cases hnone.symm.trans hc
    · exact ⟨new, by rw [hconns, if_pos rfl], hlog⟩
  | removed token' gone peerAddr hrecv hlive hconns hmade hpend =>
    rw [hpend] at hlook
    obtain ⟨c, hc, hlog⟩ := h token f hlook
    refine ⟨c, ?_, hlog⟩
    rw [hconns, if_neg]
    · exact hc
    · -- No callback waits for the connection that is removed.
      rintro rfl
      have hnone := AList.lookup_eq_none.mpr (hclean token hrecv).1
      cases hnone.symm.trans hlook

/-- A setup callback that runs on a live connection waited for it. -/
theorem Attached.runs (h : w.Attached) (hstep : w.Step l w') {c c' : TcpConnection}
    (hc : w.dispatcher.connAt token = some c) (hc' : w'.dispatcher.connAt token = some c')
    (hran : c.log ++ [.setup f] <+: c'.log) : .connecting f ∈ c.log := by
  obtain ⟨k, hcall, hrecords⟩ := step_records hstep hc hc' (by simp) hran
  cases k with
  | established cb msgs as =>
    obtain rfl : f = cb := by simpa [ConnCall.Records] using hrecords
    rcases callOf_cases hcall with hplain | ⟨writable, env, rfl, hreadable⟩
    · exact hplain.elim
    · rcases Dispatcher.readableCall_cases hreadable with ⟨-, hk⟩ | ⟨cb, addr, hlook, -, hk⟩
      · cases hk
      · cases hk
        obtain ⟨c₀, hc₀, hlog⟩ := h token f hlook
        obtain rfl := Option.some.inj (hc.symm.trans hc₀)
        exact hlog
  | _ => simp [ConnCall.Records] at hrecords

/-! ### Runs -/

/-- **When nothing is left of a removed connection.** Take any worker with a new dispatcher and any
run of it. When no connection is removed while a setup callback or a timer is there for it, and no
timer is added for a connection that has gone, every removal removes everything, and no closure or
setup callback of one connection runs on another one. The first of the two is also necessary. -/
theorem removalContract_of_leavesNothing (cap offset noti : Nat) (timer : Timer S M)
    (ls : List (WorkerLabel M)) :
    ((Worker.new cap offset noti timer).LeavesNothing ls →
      (Worker.new cap offset noti timer).RemovalContract ls) ∧
    ((Worker.new cap offset noti timer).RemovalContract ls →
      (Worker.new cap offset noti timer).RemovesUnreferenced ls) := by
  constructor
  · rintro ⟨hclean, hadds⟩
    refine ⟨?_, ?_, ?_⟩
    · intro ls₁ l ls₂ w w' hls hrun hstep
      exact (removesAll_iff hstep).mpr (hclean ls₁ l ls₂ w w' hls hrun hstep)
    · intro ls₁ l ls₂ w w₁ id f hls hbefore hstep hreg
      have hrun : Run Step (Worker.new cap offset noti timer) ls₁ w :=
        hbefore.mono fun _ _ _ h => h.1
      have hdropped : w.Dropped f :=
        hbefore.invariant (P := fun w => w.Dropped f) (fun _ _ _ hs hst => hs.step hst)
          (Dropped.new cap offset noti timer f)
      have hlive : w.Live id := hadds ls₁ l ls₂ w w₁ hls hrun hstep id f hreg
      obtain ⟨token, howned⟩ := hdropped.registers (run_traced hrun) hstep hreg hlive
      -- The rest of the run, in which the closure stays with its connection.
      have hrest : Each (FreshStep f) (fun w l _ => ∀ t, w.Receives l (.removed t) →
          w.Unreferenced t) w₁ ls₂ := by
        intro ms₁ l' ms₂ t u hms hrun' hst
        refine hclean (ls₁ ++ l :: ms₁) l' ms₂ t u (by simp [hls, hms]) ?_ hst.1
        exact hrun.append (.cons hstep (hrun'.mono fun _ _ _ h => h.1))
      have halways := hrest.always (I := fun w => w.Owned f token id)
        (fun _ _ _ hs hno hst => hs.step hst hno) howned
      exact halways.each fun _ _ _ hs hst _ _ hc hran => hs.runs hst.1 hc hran
    · have hattached : Always Step Attached (Worker.new cap offset noti timer) ls := by
        refine hclean.always (fun _ _ _ hs hno hst => hs.step hst hno) ?_
        intro token f hlook
        simp [Worker.new, Dispatcher.new] at hlook
      exact hattached.each fun _ _ _ hs hst _ _ _ _ hc hc' hran => hs.runs hst hc hc' hran
  · rintro ⟨hremoves, -, -⟩
    intro ls₁ l ls₂ w w' hls hrun hstep
    exact (removesAll_iff hstep).mp (hremoves ls₁ l ls₂ w w' hls hrun hstep)

section Example

/-- The client 0 closes, and another client gets its key. -/
def nextClientRun : List (WorkerLabel String) :=
  [.event 0 true false { quietEnv with reads := [.ok []] }, .flush,
    .enqueue (.any (.established .fresh 8 1)), .receive quietEnv, .lock, .receive quietEnv, .lock]

/-- A thread asks for the closure 5 to run on the client 0 in 100 ms. -/
def timedClientRun : List (WorkerLabel String) :=
  [.enqueue (.any (.established .fresh 7 0)), .receive quietEnv, .lock,
    .enqueue (.any (.addTimer 0 100 "m" 5)), .receive quietEnv]

set_option maxRecDepth 8000 in
/-- The closure runs before the client closes, and nothing is left of it for the next one. -/
theorem removalContract_of_leavesNothing_fired :
    (Worker.new 4 0 0 (emptyTimer : Timer Lib.FreeListSlab String)).RemovalContract
      (timedClientRun ++ .timer 1 { quietEnv with now := 100 } :: nextClientRun) := by
  have hrun : Run (fun w l w' => w.Step l w' ∧
      (∀ t, w.Receives l (.removed t) → w.Unreferenced t) ∧ ∀ id f, w.Registers l id f → w.Live id)
      (Worker.new 4 0 0 (emptyTimer : Timer Lib.FreeListSlab String))
      (timedClientRun ++ .timer 1 { quietEnv with now := 100 } :: nextClientRun) _ :=
    .cons ⟨rfl, nofun, nofun⟩
      (.cons ⟨rfl, by rintro t ⟨_, _, ⟨⟩⟩, by rintro id f ⟨_, _, _, ⟨⟩, ⟨⟩, -⟩⟩
        (.cons ⟨rfl, nofun, nofun⟩ (.cons ⟨rfl, nofun, nofun⟩
      (.cons ⟨rfl, by rintro t ⟨_, _, ⟨⟩⟩, by
          rintro id f ⟨_, _, _, ⟨⟩, -, -⟩
          exact ⟨0, _, rfl, rfl⟩⟩
        (.cons ⟨rfl, nofun, nofun⟩ (.cons ⟨rfl, nofun, nofun⟩ (.cons ⟨rfl, nofun, nofun⟩
          (.cons ⟨rfl, nofun, nofun⟩
      (.cons ⟨rfl, by
          rintro t ⟨_, _, ⟨⟩⟩
          exact ⟨by decide, by rintro (_ | _) mark timeout f ⟨⟩⟩, by
          rintro id f ⟨_, _, _, ⟨⟩, ⟨⟩, -⟩⟩
        (.cons ⟨rfl, nofun, nofun⟩
      (.cons ⟨rfl, by rintro t ⟨_, _, ⟨⟩⟩, by rintro id f ⟨_, _, _, ⟨⟩, ⟨⟩, -⟩⟩
        (.cons ⟨rfl, nofun, nofun⟩ (.nil _)))))))))))))
  have hclean := hrun.each step_deterministic
  exact (removalContract_of_leavesNothing 4 0 0 emptyTimer _).1
    ⟨hclean.mono fun _ _ _ h => h.1, hclean.mono fun _ _ _ h => h.2⟩

set_option maxRecDepth 8000 in
/-- **The closure of the first client runs on the second one.** -/
theorem timer_runs_on_next_client : ¬ (Worker.new 4 0 0 emptyTimer).RemovalContract
    ([.enqueue (.any (.established .fresh 7 0)), .receive quietEnv, .lock,
      .enqueue (.any (.addTimer 0 100 "m" 5))] ++ .receive quietEnv ::
      (nextClientRun ++ [.timer 1 { quietEnv with now := 100 }])) := by
  intro hcontract
  have hbefore : Run (FreshStep 5) (Worker.new 4 0 0 (emptyTimer : Timer Lib.FreeListSlab String))
      [.enqueue (.any (.established .fresh 7 0)), .receive quietEnv, .lock,
        .enqueue (.any (.addTimer 0 100 "m" 5))] _ :=
    .cons ⟨rfl, nofun⟩ (.cons ⟨rfl, request_ne_of_queue rfl (by rintro msg r ⟨⟩ ⟨⟩)⟩
      (.cons ⟨rfl, nofun⟩ (.cons ⟨rfl, nofun⟩ (.nil _))))
  have hstays := hcontract.timers _ _ _ _ _ 0 5 rfl hbefore rfl ⟨_, _, _, rfl, rfl, rfl⟩
  have hid := hstays nextClientRun _ [] _ _ rfl
    (.cons ⟨rfl, nofun⟩ (.cons ⟨rfl, nofun⟩ (.cons ⟨rfl, nofun⟩
      (.cons ⟨rfl, request_ne_of_queue rfl (by rintro msg r ⟨⟩ ⟨⟩)⟩ (.cons ⟨rfl, nofun⟩
        (.cons ⟨rfl, request_ne_of_queue rfl (by rintro msg r ⟨⟩ ⟨⟩)⟩
          (.cons ⟨rfl, nofun⟩ (.nil _))))))))
    ⟨rfl, nofun⟩ 0 _ rfl ⟨_, _, rfl, rfl, by decide⟩
  revert hid
  decide

/-- The client 0 closes. Before its `Removed` message is handled, a thread asks for the closure 5 to
run on it, and another client arrives. -/
def lateRun : List (WorkerLabel String) :=
  [.enqueue (.any (.established .fresh 7 0)), .receive quietEnv, .lock,
    .event 0 true false { quietEnv with reads := [.ok []] }, .flush,
    .enqueue (.any (.addTimer 0 100 "m" 5)), .enqueue (.any (.established .fresh 8 1)),
    .receive quietEnv, .lock]

set_option maxRecDepth 8000 in
/-- **A timer that is added late runs on the next client**, although nothing was there when the
first one was removed. -/
theorem late_timer_runs_on_next_client :
    (Worker.new 4 0 0 (emptyTimer : Timer Lib.FreeListSlab String)).RemovesUnreferenced
      (lateRun ++ .receive quietEnv ::
        ([.receive quietEnv, .lock] ++ [.timer 1 { quietEnv with now := 100 }])) ∧
    ¬ (Worker.new 4 0 0 (emptyTimer : Timer Lib.FreeListSlab String)).RemovalContract
      (lateRun ++ .receive quietEnv ::
        ([.receive quietEnv, .lock] ++ [.timer 1 { quietEnv with now := 100 }])) := by
  constructor
  · have hrun : Run (fun w l w' => w.Step l w' ∧
        ∀ t, w.Receives l (.removed t) → w.Unreferenced t)
        (Worker.new 4 0 0 (emptyTimer : Timer Lib.FreeListSlab String))
        (lateRun ++ .receive quietEnv ::
          ([.receive quietEnv, .lock] ++ [.timer 1 { quietEnv with now := 100 }])) _ :=
      .cons ⟨rfl, nofun⟩ (.cons ⟨rfl, by rintro t ⟨_, _, ⟨⟩⟩⟩ (.cons ⟨rfl, nofun⟩
        (.cons ⟨rfl, nofun⟩ (.cons ⟨rfl, nofun⟩ (.cons ⟨rfl, nofun⟩ (.cons ⟨rfl, nofun⟩
        (.cons ⟨rfl, by
            rintro t ⟨_, _, ⟨⟩⟩
            exact ⟨by decide, by rintro (_ | _) mark timeout f ⟨⟩⟩⟩
          (.cons ⟨rfl, nofun⟩
        (.cons ⟨rfl, by rintro t ⟨_, _, ⟨⟩⟩⟩ (.cons ⟨rfl, by rintro t ⟨_, _, ⟨⟩⟩⟩
          (.cons ⟨rfl, nofun⟩ (.cons ⟨rfl, nofun⟩ (.nil _)))))))))))))
    exact hrun.each step_deterministic
  · intro hcontract
    have hbefore : Run (FreshStep 5)
        (Worker.new 4 0 0 (emptyTimer : Timer Lib.FreeListSlab String)) lateRun _ :=
      .cons ⟨rfl, nofun⟩ (.cons ⟨rfl, request_ne_of_queue rfl (by rintro msg r ⟨⟩ ⟨⟩)⟩
        (.cons ⟨rfl, nofun⟩ (.cons ⟨rfl, nofun⟩ (.cons ⟨rfl, nofun⟩ (.cons ⟨rfl, nofun⟩
          (.cons ⟨rfl, nofun⟩
            (.cons ⟨rfl, request_ne_of_queue rfl (by rintro msg r ⟨⟩ ⟨⟩)⟩
              (.cons ⟨rfl, nofun⟩ (.nil _)))))))))
    have hstays := hcontract.timers _ _ _ _ _ 0 5 rfl hbefore rfl ⟨_, _, _, rfl, rfl, rfl⟩
    have hid := hstays [.receive quietEnv, .lock] _ [] _ _ rfl
      (.cons ⟨rfl, request_ne_of_queue rfl (by rintro msg r ⟨⟩ ⟨⟩)⟩
        (.cons ⟨rfl, nofun⟩ (.nil _)))
      ⟨rfl, nofun⟩ 0 _ rfl ⟨_, _, rfl, rfl, by decide⟩
    revert hid
    decide

end Example

end Worker

end Ruduo
