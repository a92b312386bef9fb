import Ruduo.Proofs.Server.Sent
import Ruduo.Proofs.Server.Shares
import Ruduo.Spec.Chat

/-!
# `Ruduo.Proofs.Chat.Steps`: what a step of the chat server does

`Reacts` lists the callbacks that a handler call may make, and `Chat.Stepped` the steps. What
`Reacts` says of each callback is all that the rest of the development needs of their texts.
`said_of_run` says what the broadcasts of a run are.
-/

set_option autoImplicit false

namespace Ruduo

open Lib (Emits Run Slab)

variable {S : Type → Type} [Slab S] {display : SocketAddr → List Char}

/-! ### The callbacks -/

/-- What a callback may do with its own connection. -/
def Act.IsModest {M : Type} : Act M → Prop
  | .enableIo mode => mode = .READABLE
  | .disableIo mode => mode = .WRITABLE
  | .retrieve _ => True
  | _ => False

/-- A callback of the connection runs when this message is handled. -/
def TcpConnMessage.CallsBack {M : Type} : TcpConnMessage M → Prop
  | .established .. | .writeComplete _ => True
  | _ => False

/-- The callback that a handler call makes. -/
inductive Reacts (display : SocketAddr → List Char) (w : Worker S TimeoutQuit) :
    WorkerLabel TimeoutQuit → Reaction → Prop where
  /-- No callback runs, or it does nothing. -/
  | silent (l : WorkerLabel TimeoutQuit)
    (hl : ∀ env msg target queue, l = .receive env →
      w.queue = { msg := .any msg, target } :: queue → ¬ msg.CallsBack) :
    Reacts display w l UserConnection.silent
  /-- `on_established`, right after the connection was made. -/
  | established (env : Env TimeoutQuit) (a : Arrival) (target : Option Nat)
    (queue : List (Queued TimeoutQuit)) (addr : SocketAddr)
    (hqueue : w.queue = { msg := .any a.msg, target } :: queue) :
    Reacts display w (.receive env) (UserConnection.onEstablished display
      (w.dispatcher.offset + Slab.vacantKey w.dispatcher.localConnections)
      w.dispatcher.localNotifier addr)
  /-- `on_write_complete`. -/
  | writeComplete (env : Env TimeoutQuit) (token : Token) (target : Option Nat)
    (queue : List (Queued TimeoutQuit))
    (hqueue : w.queue = { msg := .any (.writeComplete token), target } :: queue) :
    Reacts display w (.receive env) UserConnection.onWriteComplete
  /-- `on_read_complete`, `on_close` or the heartbeat. -/
  | speaks (l : WorkerLabel TimeoutQuit) (r : Reaction) (speaker : Token) (text : List Char)
    (hl : ∀ env, l ≠ .receive env) (hbroadcast : r.broadcast = some (speaker, text))
    (hacts : ∀ a ∈ r.acts, ∃ size, a = .retrieve size) (hafter : r.after = []) :
    Reacts display w l r

namespace UserConnection
variable {w : Worker S TimeoutQuit} {l : WorkerLabel TimeoutQuit} {r : Reaction}

/-- The callback of `handle_read`, by induction on what the socket answers. -/
theorem readReaction_speaks {peerAddr : Except IoError SocketAddr}
    (outcomes : List (Except IoError (List UInt8))) : ∀ {c : TcpConnection},
    readReaction display peerAddr outcomes c = .ok r → r = silent ∨
      ∃ speaker text, r.broadcast = some (speaker, text) ∧
        (∀ a ∈ r.acts, ∃ size, a = .retrieve size) ∧ r.after = [] := by
  induction outcomes with
  | nil => intro c h; cases h
  | cons outcome outcomes ih =>
    intro c h
    obtain ⟨⟨c', res⟩, -, h⟩ := bind_eq_ok.mp h
    dsimp only at h
    split at h
    · split at h
      · exact ih h
      · obtain ⟨addr, -, h⟩ := bind_eq_ok.mp h
        cases h
        exact Or.inr ⟨_, _, rfl, by simp [onClose], rfl⟩
    · split at h
      · obtain ⟨addr, -, h⟩ := bind_eq_ok.mp h
        obtain ⟨readable, -, h⟩ := bind_eq_ok.mp h
        obtain ⟨⟨b, text⟩, -, h⟩ := bind_eq_ok.mp h
        cases h
        exact Or.inr ⟨_, _, rfl, by simp, rfl⟩
      · cases h
        exact Or.inl rfl

/-- Every handler call makes one of these callbacks, or none. -/
theorem reaction_reacts (h : reaction display w l = .ok r) : Reacts display w l r := by
  unfold reaction at h
  cases l with
  | event token readable writable env =>
    cases readable with
    | false =>
      cases h
      exact .silent _ (by simp)
    | true =>
      dsimp only at h
      split at h
      · rcases readReaction_speaks _ h with rfl | ⟨speaker, text, hbroadcast, hacts, hafter⟩
        · exact .silent _ (by simp)
        · exact .speaks _ r speaker text (by simp) hbroadcast hacts hafter
      · cases h
        exact .silent _ (by simp)
  | receive env =>
    dsimp only at h
    split at h
    · rename_i msg target queue hqueue
      have hsilent : ¬ msg.CallsBack → Reacts display w (.receive env) silent := by
        refine fun hmsg => .silent _ fun env' msg' target' queue' _ hqueue' => ?_
        rw [hqueue] at hqueue'
        cases hqueue'
        exact hmsg
      cases msg with
      | established stream peerAddr cb =>
        obtain ⟨token, htoken, h⟩ := bind_eq_ok.mp h
        obtain ⟨addr, -, h⟩ := bind_eq_ok.mp h
        cases h
        obtain ⟨-, rfl⟩ := u64Add_eq_ok.mp htoken
        exact .established _ ⟨stream, peerAddr, cb⟩ target queue addr hqueue
      | writeComplete token =>
        cases h
        exact .writeComplete _ _ target queue hqueue
      | _ =>
        cases h
        exact hsilent id
    · rename_i hqueue
      cases h
      exact .silent _ fun _ msg target queue _ hqueue' => absurd hqueue' (hqueue msg target queue)
  | timer nowTick env =>
    dsimp only at h
    unfold timerReaction at h
    split at h
    · split at h
      · obtain ⟨addr, -, h⟩ := bind_eq_ok.mp h
        cases h
        exact .speaks _ _ _ _ (by simp) rfl (by simp [heartbeat]) rfl
      · cases h
        exact .silent _ (by simp)
    · cases h
      exact .silent _ (by simp)
  | _ =>
    cases h
    exact .silent _ (by simp)

end UserConnection

namespace Reacts
variable {w : Worker S TimeoutQuit} {l : WorkerLabel TimeoutQuit} {r : Reaction}

/-- A callback starts to read, stops to write, or takes bytes out, and nothing else. -/
theorem modest (h : Reacts display w l r) : ∀ a ∈ r.acts, a.IsModest := by
  cases h with
  | silent => simp [UserConnection.silent]
  | established => simp [UserConnection.onEstablished, Act.IsModest]
  | writeComplete => simp [UserConnection.onWriteComplete, Act.IsModest]
  | speaks _ _ _ _ _ _ hacts _ =>
    intro a ha
    obtain ⟨size, rfl⟩ := hacts a ha
    trivial

/-- A callback that broadcasts nothing does nothing afterwards. -/
theorem after_eq_nil (h : Reacts display w l r) (hnone : r.broadcast = none) : r.after = [] := by
  cases h with
  | silent | writeComplete => rfl
  | established => cases hnone
  | speaks _ _ _ _ _ _ _ hafter => exact hafter

end Reacts

/-- A callback sends no message to its own loop by itself, all of them are mail. -/
theorem WorkerLabel.withActs_sends {M : Type} {P : TcpConnMessage M → Prop} {acts : List (Act M)}
    (hacts : ∀ a ∈ acts, a.IsModest) {l : WorkerLabel M} (hl : l.isCall = true) :
    (l.withActs acts).Sends P := by
  have henv : ∀ env : Env M, ({ env with acts, msgs := [] } : Env M).Sends P :=
    fun env => ⟨by simp, fun msg hmsg => (hacts _ hmsg).elim⟩
  cases l with
  | event token readable writable env => exact henv env
  | receive env => exact henv env
  | timer nowTick env => exact henv env
  | _ => cases hl

/-! ### The steps -/

namespace Chat
variable {poolSize : Nat}

/-- What a step of the chat server does. -/
inductive Stepped (display : SocketAddr → List Char) (s : Chat S poolSize) :
    ChatLabel poolSize → Chat S poolSize → Prop where
  /-- A step of the service's thread. -/
  | service (l : ServerLabel TimeoutQuit poolSize) (server : Server S TimeoutQuit poolSize)
    (hl : l.ofService = true) (hserver : s.server.Step l server) :
    Stepped display s (.service l) { s with server }
  /-- A handler call without a broadcast. -/
  | call (seq : Fin poolSize) (l : WorkerLabel TimeoutQuit)
    (users : List (Sigma fun _ : Token => Nat)) (r : Reaction)
    (server : Server S TimeoutQuit poolSize) (hl : l.isCall = true) (hmail : s.mail seq = [])
    (hreaction : UserConnection.reaction display (s.server.pool.workers seq) l = .ok r)
    (hr : Reacts display (s.server.pool.workers seq) l r) (hnone : r.broadcast = none)
    (hserver : s.server.Step (.worker seq (l.withActs r.acts)) server) :
    Stepped display s (.call seq l users) { s with server }
  /-- A handler call that begins a broadcast. -/
  | broadcast (seq : Fin poolSize) (l : WorkerLabel TimeoutQuit) (r : Reaction) (speech : Speech)
    (server : Server S TimeoutQuit poolSize) (hl : l.isCall = true) (hmail : s.mail seq = [])
    (hreaction : UserConnection.reaction display (s.server.pool.workers seq) l = .ok r)
    (hr : Reacts display (s.server.pool.workers seq) l r) (hholder : s.holder = none)
    (husers : speech.users.Perm s.users.entries)
    (hserver : s.server.Step (.worker seq (l.withActs r.acts)) server)
    (hspeech : s.spoken display (.call seq l speech.users) = [speech]) :
    Stepped display s (.call seq l speech.users)
      { s with
        server
        holder := some seq
        mail := Function.update s.mail seq (speech.mail ++ .unlock :: r.after)
        said := s.said ++ [speech] }
  /-- The next message of the broadcast is sent. -/
  | notify (seq : Fin poolSize) (peer : Nat) (msg : TcpConnMessage TimeoutQuit) (mail : List Mail)
    (hmail : s.mail seq = .notify peer msg :: mail) :
    Stepped display s (.mail seq)
      { s with
        server := { s.server with pool := s.server.pool.notify peer (.any msg) }
        mail := Function.update s.mail seq mail }
  /-- The broadcast has ended, and gives the lock back. -/
  | unlock (seq : Fin poolSize) (mail : List Mail) (hmail : s.mail seq = .unlock :: mail) :
    Stepped display s (.mail seq)
      { s with holder := none, mail := Function.update s.mail seq mail }
  /-- The connection enters itself among the users. -/
  | insert (seq : Fin poolSize) (token : Token) (notifier : Nat) (mail : List Mail)
    (hmail : s.mail seq = .insert token notifier :: mail) (hholder : s.holder = none) :
    Stepped display s (.mail seq)
      { s with users := s.users.insert token notifier, mail := Function.update s.mail seq mail }
  /-- The handler call enqueues its next message. -/
  | flush (seq : Fin poolSize) (server : Server S TimeoutQuit poolSize)
    (hserver : s.server.Step (.worker seq .flush) server) :
    Stepped display s (.flush seq) { s with server }
  /-- The handler call does its work under the lock of `Shared`. -/
  | lock (seq : Fin poolSize) (server : Server S TimeoutQuit poolSize)
    (hserver : s.server.Step (.worker seq .lock) server) :
    Stepped display s (.lock seq) { s with server }

/-- The part of a step that is a step of the server. -/
theorem serve_eq_some {s s' : Chat S poolSize} {l : ServerLabel TimeoutQuit poolSize}
    {next : Server S TimeoutQuit poolSize → Chat S poolSize}
    (h : s.serve l next = some (.ok s')) : ∃ server, s.server.Step l server ∧ s' = next server := by
  obtain ⟨r, hr, hs'⟩ := Option.map_eq_some_iff.mp h
  cases r with
  | error f => cases hs'
  | ok server =>
    cases hs'
    exact ⟨server, hr, rfl⟩

/-- Every step does one of these things. -/
theorem step_cases {s s' : Chat S poolSize} {l : ChatLabel poolSize}
    (hstep : s.Step display l s') : Stepped display s l s' := by
  unfold Step exec at hstep
  cases l with
  | service l =>
    obtain ⟨hl, hstep⟩ := Option.ite_none_right_eq_some.mp hstep
    obtain ⟨server, hserver, rfl⟩ := serve_eq_some hstep
    exact .service l server hl hserver
  | call seq l users =>
    obtain ⟨⟨hl, hmail, -⟩, hstep⟩ := Option.ite_none_right_eq_some.mp hstep
    dsimp only at hstep
    split at hstep
    · cases hstep
    rename_i r hr
    have hreacts := UserConnection.reaction_reacts hr
    split at hstep
    · rename_i hnone
      obtain ⟨server, hserver, rfl⟩ := serve_eq_some hstep
      have hsame : Function.update s.mail seq r.after = s.mail := by
        rw [hreacts.after_eq_nil hnone, ← hmail, Function.update_eq_self]
      rw [hsame]
      exact .call seq l users r server hl hmail hr hreacts hnone hserver
    · rename_i token text hbroadcast
      obtain ⟨⟨hholder, husers⟩, hstep⟩ := Option.ite_none_right_eq_some.mp hstep
      obtain ⟨server, hserver, rfl⟩ := serve_eq_some hstep
      exact .broadcast seq l r { token, data := Lib.utf8Encode text, users } server hl hmail hr
        hreacts (Option.isNone_iff_eq_none.mp hholder) husers hserver
        (by simp only [spoken, hr, hbroadcast, Option.toList_some, List.map_cons, List.map_nil])
  | mail seq =>
    dsimp only at hstep
    split at hstep
    · rename_i m mail hmail
      obtain ⟨t, ht, hs'⟩ := Option.map_eq_some_iff.mp hstep
      cases hs'
      unfold deliver at ht
      cases m with
      | notify peer msg =>
        cases ht
        exact .notify seq peer msg mail hmail
      | unlock =>
        cases ht
        exact .unlock seq mail hmail
      | insert token notifier =>
        obtain ⟨hholder, ht⟩ := Option.ite_none_right_eq_some.mp ht
        cases ht
        exact .insert seq token notifier mail hmail (Option.isNone_iff_eq_none.mp hholder)
    · cases hstep
  | flush seq =>
    obtain ⟨-, hstep⟩ := Option.ite_none_right_eq_some.mp hstep
    obtain ⟨server, hserver, rfl⟩ := serve_eq_some hstep
    exact .flush seq server hserver
  | lock seq =>
    obtain ⟨-, hstep⟩ := Option.ite_none_right_eq_some.mp hstep
    obtain ⟨server, hserver, rfl⟩ := serve_eq_some hstep
    exact .lock seq server hserver

/-! ### The broadcasts -/

/-- The broadcast that a step begins is the next one, and it goes to the users of the moment. -/
theorem step_said {s s' : Chat S poolSize} {l : ChatLabel poolSize}
    (hstep : s.Step display l s') :
    s.TellsStep display l s' ∧ s'.said = s.said ++ s.spoken display l := by
  have hquiet : ∀ {t : Chat S poolSize}, s.spoken display l = [] → t.said = s.said →
      (s.Step display l s' ∧ ∀ speech ∈ s.spoken display l, speech.users.Perm s.users.entries) ∧
        t.said = s.said ++ s.spoken display l := by
    intro t hnone hsaid
    rw [hnone, hsaid, List.append_nil]
    exact ⟨⟨hstep, fun speech hmem => absurd hmem List.not_mem_nil⟩, rfl⟩
  cases step_cases hstep with
  | call seq l users r server _ _ hreaction _ hnone _ =>
    refine hquiet ?_ rfl
    simp only [spoken, hreaction, hnone, Option.toList_none, List.map_nil]
  | broadcast seq l r speech server _ _ _ _ _ husers _ hspeech =>
    rw [TellsStep, hspeech]
    refine ⟨⟨hstep, fun speech' hmem => ?_⟩, rfl⟩
    obtain rfl := List.mem_singleton.mp hmem
    exact husers
  | _ => exact hquiet rfl rfl

/-- The broadcasts so far are those that the steps of the run began, each to the users of its
moment. -/
theorem said_of_run {s₀ s : Chat S poolSize} {ls : List (ChatLabel poolSize)}
    (h₀ : s₀.said = []) (hrun : Run (Step display) s₀ ls s) :
    Emits (TellsStep display) (spoken display) s₀ ls s.said s := by
  obtain ⟨speeches, hspeeches⟩ :
    ∃ os, Emits (Step display) (spoken display) s₀ ls os s := hrun.emits
  have hsaid : s.said = speeches := by
    refine hspeeches.invariant (P := fun os s => s.said = os) ?_ h₀
    intro os s l s' hos hstep
    rw [(step_said hstep).2, hos]
  rw [hsaid]
  exact hspeeches.mono fun s l s' hstep => (step_said hstep).1

/-! ### What is left of the mail -/

section
variable {s : Chat S poolSize} {seq seq' : Fin poolSize} {m x : Mail} {mail : List Mail}

omit [Slab S] in
/-- What is left of the mail was there before. -/
theorem mem_of_tail (hmail : s.mail seq = m :: mail)
    (hx : x ∈ Function.update s.mail seq mail seq') : x ∈ s.mail seq' := by
  by_cases hseq : seq' = seq
  · subst hseq
    rw [Function.update_self] at hx
    exact hmail ▸ List.mem_cons_of_mem m hx
  · rwa [Function.update_of_ne hseq] at hx

omit [Slab S] in
/-- What is not the first piece of mail is left. -/
theorem mem_tail (hmail : s.mail seq = m :: mail) (hx : x ∈ s.mail seq') (hne : x ≠ m) :
    x ∈ Function.update s.mail seq mail seq' := by
  by_cases hseq : seq' = seq
  · subst hseq
    rw [Function.update_self]
    rw [hmail] at hx
    exact (List.mem_cons.mp hx).resolve_left hne
  · rwa [Function.update_of_ne hseq]

end

end Chat

/-- A worker makes a step, and the others stay as they are. -/
theorem Server.step_worker {poolSize : Nat} {M : Type} [DecidableEq M]
    {s s' : Server S M poolSize} {seq : Fin poolSize} {l : WorkerLabel M}
    (hstep : s.Step (.worker seq l) s') : (s.pool.workers seq).Step l (s'.pool.workers seq) ∧
      ∀ seq', seq' ≠ seq → s'.pool.workers seq' = s.pool.workers seq' := by
  cases Server.step_cases hstep with
  | worker _ _ pool hpool _ =>
    obtain ⟨w, hw, hworkers, -⟩ := Pool.step_cases hpool
    show (s.pool.workers seq).Step l (pool.workers seq) ∧ _
    rw [hworkers, Function.update_self]
    exact ⟨hw, fun seq' hne => Function.update_of_ne hne _ _⟩

end Ruduo
