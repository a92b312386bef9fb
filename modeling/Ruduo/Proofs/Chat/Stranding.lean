import Ruduo.Proofs.Chat.Hearing
import Ruduo.Proofs.Connection.Stranding

/-!
# `Ruduo.Proofs.Chat.Stranding`: what the chat server leaves behind

`on_write_complete` of the chat server withdraws `WRITABLE`. But the `WriteComplete` message comes
through the queue of the loop, and the `Write` messages of later broadcasts may be in front of it.
When one of them has met a full socket, its bytes wait, and the callback leaves them behind.

* `step_expected`: nobody enables `WRITABLE` by a message, so all calls on a connection are steady.
* `stranded_of_run`: when a user's output is left behind, and that it stays so until the next
  broadcast.
-/

set_option autoImplicit false

namespace Ruduo

open Lib (Emits Run Slab LawfulSlab SetSince)

variable {S : Type → Type} [Slab S] {display : SocketAddr → List Char} {poolSize : Nat}

/-! ### The calls are steady -/

/-- What comes to a loop of the chat server. -/
def Queued.IsExpected (q : Queued TimeoutQuit) : Prop :=
  match q.msg with
  | .any (.established ..) | .stop => True
  | .any msg => msg.IsUsual

/-- A usual message is expected. -/
theorem TcpConnMessage.IsUsual.expected {msg : TcpConnMessage TimeoutQuit} (h : msg.IsUsual)
    (target : Option Nat) : Queued.IsExpected { msg := .any msg, target } := by
  cases msg <;> first | exact h | exact h.elim

/-- A callback of the chat server never enables `WRITABLE` itself. -/
theorem Act.IsModest.steady {a : Act TimeoutQuit} (h : a.IsModest) : a.Steady := by
  cases a with
  | enableIo mode =>
    obtain rfl : mode = .READABLE := h
    rfl
  | disableIo | retrieve => trivial
  | _ => exact h.elim

/-- A handler call makes only steady calls. -/
theorem Worker.steady_withActs {w : Worker S TimeoutQuit} {k : WorkerLabel TimeoutQuit}
    {acts : List (Act TimeoutQuit)} (hacts : ∀ a ∈ acts, a.IsModest) (hk : k.isCall = true)
    (hqueue : ∀ q ∈ w.queue, q.IsExpected) (token : Token) :
    ∀ call ∈ w.callsOn token (k.withActs acts), call.Steady := by
  have hsteady : ∀ a ∈ acts, a.Steady := fun a ha => (hacts a ha).steady
  refine Worker.forall_callsOn ?_ ?_
  · intro call hcall
    unfold callOf at hcall
    obtain ⟨-, hcall⟩ := Option.ite_none_right_eq_some.mp hcall
    cases k with
    | event t readable writable env =>
      cases readable with
      | false => cases hcall
      | true =>
        obtain ⟨k', hk', hcall⟩ := Option.map_eq_some_iff.mp hcall
        cases hcall
        rcases Dispatcher.readableCall_cases hk' with ⟨-, rfl⟩ | ⟨cb, addr, -, -, rfl⟩ <;>
          exact hsteady
    | receive env =>
      dsimp only [WorkerLabel.withActs] at hcall
      split at hcall
      · rename_i msg target queue hq
        have hmsg := hqueue _ (hq ▸ List.mem_cons_self)
        cases msg with
        | write =>
          cases hcall
          trivial
        | writeComplete =>
          cases hcall
          exact hsteady
        | established | removed | addTimer => cases hcall
        | _ => exact hmsg.elim
      · cases hcall
    | timer nowTick env =>
      obtain ⟨f, rfl⟩ := Dispatcher.timerCall_eq hcall
      exact hsteady
    | _ => cases hk
  · intro call hcall
    cases k with
    | event t readable writable env =>
      cases writable with
      | false => cases hcall
      | true =>
        obtain ⟨-, hcall⟩ := List.mem_ite_nil_right.mp hcall
        rw [List.mem_singleton.mp hcall]
        trivial
    | receive env =>
      dsimp only [WorkerLabel.withActs, laterCalls] at hcall
      split at hcall
      · rw [List.mem_singleton.mp hcall]
        trivial
      · cases hcall
    | timer => cases hcall
    | _ => cases hk

/-- A message at the end of the queue keeps what is in it expected, if it is expected itself. -/
theorem Worker.push_expected {w : Worker S TimeoutQuit}
    {msg : Message (TcpConnMessage TimeoutQuit)} (hw : ∀ q ∈ w.queue, q.IsExpected)
    (hmsg : ∀ target, Queued.IsExpected { msg, target }) :
    ∀ q ∈ (w.push msg).queue, q.IsExpected := by
  intro q hq
  rcases List.mem_append.mp hq with hq | hq
  · exact hw q hq
  · rw [List.mem_singleton.mp hq]
    exact hmsg _

/-- A worker enqueues to itself only what is usual. -/
theorem Worker.step_expected {w w' : Worker S TimeoutQuit} {l : WorkerLabel TimeoutQuit}
    (hw : ∀ q ∈ w.queue, q.IsExpected) (houtbox : ∀ msg ∈ w.outbox, msg.IsUsual)
    (hl : ∀ msg, l ≠ .enqueue msg) (hstep : w.Step l w') : ∀ q ∈ w'.queue, q.IsExpected := by
  rcases step_queue_cases hstep with ⟨msg, rfl, -⟩ | ⟨msg, outbox, -, hmsg, rfl⟩ |
    ⟨env, q, queue, -, hqueue, hqueue'⟩ | ⟨-, hqueue⟩
  · exact absurd rfl (hl msg)
  · exact push_expected hw (houtbox msg (hmsg ▸ List.mem_cons_self)).expected
  · rw [hqueue']
    exact fun q' hq' => hw q' (hqueue ▸ List.mem_cons_of_mem q hq')
  · rwa [hqueue]

/-- A handler call enqueues nothing by itself. -/
theorem WorkerLabel.withActs_ne {M : Type} {acts : List (Act M)} {l : WorkerLabel M}
    (hl : l.isCall = true) (msg : Message (TcpConnMessage M)) : l.withActs acts ≠ .enqueue msg := by
  intro h
  cases l with
  | event | receive | timer => cases h
  | _ => cases hl

namespace Chat
variable {s s' : Chat S poolSize} {l : ChatLabel poolSize} {seq : Fin poolSize} {token : Token}

/-- The queues hold nothing else. -/
def Expected (s : Chat S poolSize) : Prop :=
  ∀ seq, ∀ q ∈ (s.server.pool.workers seq).queue, q.IsExpected

/-- Only expected messages are ever queued. -/
theorem step_expected (h : s.Expected) (horderly : s.Orderly) (hstep : s.Step display l s') :
    s'.Expected := by
  have hnotify : ∀ n msg, (∀ target, Queued.IsExpected { msg, target }) → ∀ seq,
      ∀ q ∈ ((s.server.pool.notify n msg).workers seq).queue, q.IsExpected := by
    intro n msg hmsg seq
    rw [Pool.notify_workers]
    split
    · exact Worker.push_expected (h seq) hmsg
    · exact h seq
  have hworker : ∀ {caller k} {server : Server S TimeoutQuit poolSize},
      s.server.Step (.worker caller k) server → (∀ msg, k ≠ .enqueue msg) →
      ∀ seq, ∀ q ∈ (server.pool.workers seq).queue, q.IsExpected := by
    intro caller k server hserver hk seq
    obtain ⟨hw, hrest⟩ := Server.step_worker hserver
    by_cases hseq : seq = caller
    · subst hseq
      exact Worker.step_expected (h seq) (fun msg hmsg => (horderly.outbox seq msg hmsg).2) hk hw
    · rw [hrest seq hseq]
      exact h seq
  cases step_cases hstep with
  | service k server hl hserver =>
    cases Server.step_cases hserver with
    | worker => cases hl
    | accept a threads n => exact hnotify n _ fun _ => trivial
    | letter n => exact hnotify n _ fun _ => trivial
    | shutdown | endShutdown => exact h
  | call caller k users r server hl hmail hreaction hr hnone hserver =>
    exact hworker hserver (WorkerLabel.withActs_ne hl)
  | broadcast caller k r speech server hl hmail hreaction hr hholder husers hserver =>
    exact hworker hserver (WorkerLabel.withActs_ne hl)
  | notify caller peer msg mail hmail =>
    have hmsg := horderly.usual caller peer msg (hmail ▸ List.mem_cons_self)
    exact hnotify peer _ hmsg.expected
  | unlock | insert => exact h
  | flush caller server hserver | lock caller server hserver => exact hworker hserver (by simp)

/-- The calls on a connection of the chat server never enable `WRITABLE`, `send` apart. -/
theorem step_steady (h : s.Expected) (hstep : s.Step display l s') :
    ∀ k ∈ s.callsOn display seq token l, k.Steady := by
  have hcall : ∀ {caller k users r}, k.isCall = true →
      UserConnection.reaction display (s.server.pool.workers caller) k = .ok r →
      Reacts display (s.server.pool.workers caller) k r →
      ∀ call ∈ s.callsOn display seq token (.call caller k users), call.Steady := by
    intro caller k users r hk hreaction hr
    rw [callsOn_call users hreaction]
    by_cases hseq : caller = seq
    · subst hseq
      rw [if_pos rfl]
      exact Worker.steady_withActs hr.modest hk (h caller) token
    · rw [if_neg hseq]
      simp
  cases step_cases hstep with
  | call caller k users r server hl hmail hreaction hr hnone hserver =>
    exact hcall hl hreaction hr
  | broadcast caller k r speech server hl hmail hreaction hr hholder husers hserver =>
    exact hcall hl hreaction hr
  | _ => simp [callsOn]

/-! ### Runs -/

variable {s₀ : Chat S poolSize} {ls₀ ls : List (ChatLabel poolSize)} {cap : Nat}
  {ks : List (ConnCall TimeoutQuit)} {c c' : TcpConnection}

/-- At the start nothing is queued. -/
theorem Started.expected (h : s₀.Started cap) : s₀.Expected := by
  intro seq
  obtain ⟨offset, timer, -, hw⟩ := h.server.pool.worker seq
  rw [hw]
  simp [Worker.new]

/-- The invariant rule, over two parts of a run. -/
theorem run_steady (h₀ : s₀.Started cap) (hrun₀ : Run (Step display) s₀ ls₀ s)
    (hrun : Emits (Step display) (callsOn display seq token) s ls ks s') :
    ∀ k ∈ ks, k.Steady := by
  have hstep : ∀ {t t' : Chat S poolSize} {l}, t.Orderly ∧ t.Expected → t.Step display l t' →
      t'.Orderly ∧ t'.Expected := fun h hstep =>
    ⟨step_orderly h.1 hstep, step_expected h.2 h.1 hstep⟩
  have hs : s.Orderly ∧ s.Expected := hrun₀.invariant
    (P := fun t => t.Orderly ∧ t.Expected) (fun _ _ _ => hstep) ⟨h₀.orderly, h₀.expected⟩
  have hall := hrun.invariant
    (P := fun ks t => (t.Orderly ∧ t.Expected) ∧ ∀ k ∈ ks, k.Steady) ?_ ⟨hs, by simp⟩
  · exact hall.2
  · rintro ks t l t' ⟨ht, hks⟩ hl
    exact ⟨hstep ht hl, List.forall_mem_append.mpr ⟨hks, step_steady ht.2 hl⟩⟩

variable [LawfulSlab S]

/-- **When the output of a user is left behind.** Take any run of a chat server from a reachable
state, and a user whose connection is live at both ends, with the calls on this connection in the
run. At the end bytes wait without an interest in `WRITABLE` when one of these calls has withdrawn
the interest while bytes waited and nothing was sent to the user since, or when it was so at the
start and nothing was sent in the run, and in no other case. `on_write_complete` is such a call, the
end of the stream is another, and the third is the end of the loop. What is left behind stays there
until the next broadcast reaches the user: the socket gets nothing. -/
theorem stranded_of_run (h₀ : s₀.Started cap) (hrun₀ : Run (Step display) s₀ ls₀ s)
    (hrun : Emits (Step display) (callsOn display seq token) s ls ks s')
    (hc : (s.server.pool.workers seq).dispatcher.connAt token = some c)
    (hc' : (s'.server.pool.workers seq).dispatcher.connAt token = some c') (hid : c'.id = c.id) :
    (Stranded c' ↔
      SetSince TcpConnection.Called (fun c k => k.Withdraws ∧ Waits c) ConnCall.IsSend c ks c' ∨
        Stranded c ∧ ∀ k ∈ ks, ¬ k.IsSend) ∧
      (Stranded c → (∀ k ∈ ks, ¬ k.IsSend) → c'.io.accepted = c.io.accepted) := by
  obtain ⟨offset, timer, ms₀, hms₀⟩ := h₀.worker hrun₀ seq
  obtain ⟨ms, hms⟩ := run_calls hrun
  have hcalls := Worker.connection_run cap offset seq timer hms₀ hms hc hc' hid
  have hserviceable : Serviceable c := by
    obtain ⟨c₀, ks₀, hmade, hks₀⟩ := Worker.run_born hms₀ hc
    exact hks₀.invariant (P := Serviceable) (fun _ _ _ hc h => h.serviceable hc)
      (.of_asMade hmade)
  have hsteady := run_steady h₀ hrun₀ hrun
  exact ⟨TcpConnection.run_stranded hserviceable hsteady hcalls,
    TcpConnection.run_silent hserviceable hsteady hcalls⟩

end Chat

section Example

/-- The second guest comes and goes before the first one is told. The socket of the first one has
room for the first message only. -/
def shortVisit : List (ChatLabel 2) :=
  [.call ⟨1, Nat.one_lt_two⟩ (.receive chatEnv) [⟨0, 0⟩], .mail ⟨1, Nat.one_lt_two⟩,
    .mail ⟨1, Nat.one_lt_two⟩, .mail ⟨1, Nat.one_lt_two⟩, .mail ⟨1, Nat.one_lt_two⟩,
    .lock ⟨1, Nat.one_lt_two⟩,
    .call ⟨1, Nat.one_lt_two⟩ (.event 4 true false { chatEnv with reads := [.ok []] })
      [⟨4, 1⟩, ⟨0, 0⟩],
    .mail ⟨1, Nat.one_lt_two⟩,
    .call ⟨0, Nat.zero_lt_two⟩ (.receive chatEnv) [],
    .call ⟨0, Nat.zero_lt_two⟩ (.receive chatEnv) [], .flush ⟨0, Nat.zero_lt_two⟩,
    .call ⟨0, Nat.zero_lt_two⟩ (.receive { chatEnv with writes := [.error wouldBlock] }) [],
    .call ⟨0, Nat.zero_lt_two⟩ (.receive chatEnv) []]

set_option maxRecDepth 8000 in
/-- What the first guest is told last is left behind: its `on_write_complete` for the first message
withdraws the interest. -/
theorem stranded_of_run_visit : ∃ s s' : Chat Lib.FreeListSlab 2, ∃ ks, ∃ c c' : TcpConnection,
    Emits (Chat.Step fun _ => [])
      (Chat.callsOn (fun _ => []) ⟨0, Nat.zero_lt_two⟩ 0) s shortVisit ks s' ∧ Stranded c' ∧
    (SetSince TcpConnection.Called (fun c k => k.Withdraws ∧ Waits c) ConnCall.IsSend c ks c' ∨
      Stranded c ∧ ∀ k ∈ ks, ¬ k.IsSend) := by
  have hsteps : ∃ s s' : Chat Lib.FreeListSlab 2, ∃ ks, ∃ c c' : TcpConnection,
      Run (Chat.Step fun _ => []) newChat firstGuest s ∧
      Emits (Chat.Step fun _ => [])
        (Chat.callsOn (fun _ => []) ⟨0, Nat.zero_lt_two⟩ 0) s shortVisit ks s' ∧
      (s.server.pool.workers ⟨0, Nat.zero_lt_two⟩).dispatcher.connAt 0 = some c ∧
      (s'.server.pool.workers ⟨0, Nat.zero_lt_two⟩).dispatcher.connAt 0 = some c' ∧
      c'.id = c.id ∧ Stranded c' :=
    ⟨_, _, _, _, _, .cons rfl (.cons rfl (.cons rfl (.cons rfl (.cons rfl (.cons rfl (.cons rfl
      (.nil _))))))),
      .cons rfl (.cons rfl (.cons rfl (.cons rfl (.cons rfl (.cons rfl (.cons rfl (.cons rfl
        (.cons rfl (.cons rfl (.cons rfl (.cons rfl (.cons rfl (.nil _))))))))))))), rfl, rfl, rfl,
      ⟨⟨_, rfl, List.cons_ne_nil _ _⟩, rfl⟩⟩
  obtain ⟨s, s', ks, c, c', hrun₀, hrun, hc, hc', hid, hstranded⟩ := hsteps
  exact ⟨s, s', ks, c, c', hrun, hstranded,
    (Chat.stranded_of_run newChat_started hrun₀ hrun hc hc' hid).1.mp hstranded⟩

end Example

end Ruduo
