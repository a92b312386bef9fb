import Ruduo.Proofs.Chat.Users

/-!
# `Ruduo.Proofs.Chat.Progress`: the chat server has no deadlock

A worker waits for the lock of `users` to enter its new connection, and for the lock of `Shared`,
which a shutdown holds while it sends its letters. Who has one of these locks waits for nobody.

* `step_work`: every step that goes on with what has begun leaves one less to do.
* `step_possible`: as long as something is to do, one of them is possible.
* `settles_of_run`: so whatever has begun comes to an end, in any order.
-/

set_option autoImplicit false

namespace Ruduo

open Lib (Run Slab LawfulSlab)

variable {S : Type → Type} [Slab S] {display : SocketAddr → List Char} {poolSize : Nat}

/-- One of the summands is less by one. -/
private theorem sum_eq_succ {n : Nat} {f f' : Fin n → Nat} (i : Fin n) (hi : f i = f' i + 1)
    (hrest : ∀ j, j ≠ i → f j = f' j) : ∑ j, f j = ∑ j, f' j + 1 := by
  have hsum : ∑ j ∈ Finset.univ.erase i, f j = ∑ j ∈ Finset.univ.erase i, f' j :=
    Finset.sum_congr rfl fun j hj => hrest j (Finset.ne_of_mem_erase hj)
  rw [← Finset.add_sum_erase _ f (Finset.mem_univ i),
    ← Finset.add_sum_erase _ f' (Finset.mem_univ i), hsum, hi]
  omega

namespace Chat
variable {s s' : Chat S poolSize} {l : ChatLabel poolSize} {cap : Nat}

/-- What a worker has to do. -/
def workOf (s : Chat S poolSize) (seq : Fin poolSize) : Nat :=
  (s.mail seq).length + (s.server.pool.workers seq).work

omit [Slab S] in
/-- The work to do is that of the workers and of the shutdown. -/
theorem work_eq (s : Chat S poolSize) : s.work =
    ∑ seq, s.workOf seq + s.server.letters.elim 0 fun letters => letters.length + 1 := rfl

/-- A notification adds no work. -/
private theorem notify_work (p : Pool S TimeoutQuit poolSize) (n : Nat)
    (msg : Message (TcpConnMessage TimeoutQuit)) (seq : Fin poolSize) :
    ((p.notify n msg).workers seq).work = (p.workers seq).work := by
  rw [Pool.notify_workers]
  split <;> rfl

omit [Slab S] in
/-- A piece of mail that is done. -/
private theorem work_tail {t : Chat S poolSize} {seq : Fin poolSize} {m : Mail} {mail : List Mail}
    (hmail : s.mail seq = m :: mail) (htail : t.mail = Function.update s.mail seq mail)
    (hworkers : ∀ seq, (t.server.pool.workers seq).work = (s.server.pool.workers seq).work)
    (hletters : t.server.letters = s.server.letters) : s.work = t.work + 1 := by
  have hsum : ∑ seq, s.workOf seq = ∑ seq, t.workOf seq + 1 := by
    refine sum_eq_succ seq ?_ fun j hj => ?_
    · unfold workOf
      rw [htail, Function.update_self, hworkers, hmail, List.length_cons]
      omega
    · unfold workOf
      rw [htail, Function.update_of_ne hj, hworkers]
  rw [work_eq, work_eq, hsum, hletters]
  omega

/-- A worker that goes on with its handler call. -/
private theorem work_worker {server : Server S TimeoutQuit poolSize} {seq : Fin poolSize}
    {k : WorkerLabel TimeoutQuit} (hserver : s.server.Step (.worker seq k) server)
    (hk : ∀ w, (s.server.pool.workers seq).Step k w →
      (s.server.pool.workers seq).work = w.work + 1) :
    s.work = Chat.work { s with server } + 1 := by
  obtain ⟨hw, hrest⟩ := Server.step_worker hserver
  have hletters : server.letters = s.server.letters := by
    cases Server.step_cases hserver with
    | worker => rfl
  have hsum : ∑ seq, s.workOf seq = ∑ seq, Chat.workOf { s with server } seq + 1 := by
    refine sum_eq_succ seq ?_ fun j hj => ?_
    · unfold workOf
      rw [hk _ hw]
      rfl
    · unfold workOf
      rw [hrest j hj]
  rw [work_eq, work_eq, hsum, hletters]
  omega

/-- One less to do. -/
theorem step_work (hl : l.Finishes) (hstep : s.Step display l s') : s.work = s'.work + 1 := by
  cases step_cases hstep with
  | service k server hk hserver =>
    cases Server.step_cases hserver with
    | letter n letters hletters =>
      have hsum : ∑ seq, s.workOf seq = ∑ seq, Chat.workOf { s with
          server := { s.server with
            pool := s.server.pool.notify n .stop, letters := some letters } } seq :=
        Finset.sum_congr rfl fun seq _ => congrArg _ (notify_work _ n .stop seq).symm
      rw [work_eq, work_eq, hsum, hletters]
      rfl
    | endShutdown hletters =>
      rw [work_eq, work_eq, hletters]
      rfl
    | _ => exact hl.elim
  | call | broadcast => exact hl.elim
  | notify seq peer msg mail hmail => exact work_tail hmail rfl (notify_work _ peer _) rfl
  | unlock seq mail hmail | insert seq token noti mail hmail =>
    exact work_tail hmail rfl (fun _ => rfl) rfl
  | flush seq server hserver =>
    refine work_worker hserver fun w hw => ?_
    unfold Worker.Step Worker.exec at hw
    dsimp only at hw
    split at hw
    · rename_i msg outbox houtbox
      cases hw
      rw [Worker.work, houtbox, List.length_cons, Nat.add_right_comm]
      rfl
    · cases hw
  | lock seq server hserver =>
    refine work_worker hserver fun w hw => ?_
    unfold Worker.Step Worker.exec at hw
    dsimp only at hw
    split at hw
    · rename_i hlocked
      cases hw
      rw [Worker.work, hlocked]
      rfl
    · cases hw

/-! ### Something is possible -/

/-- The holder of the lock goes on with its broadcast, and then the lock is free for the others. -/
private theorem mail_possible (h : s.Orderly) {caller : Fin poolSize} (hcaller : s.mail caller ≠ [])
    (hfree : s.holder = none ∨ s.holder = some caller) :
    ∃ s', s.Step display (.mail caller) s' := by
  obtain ⟨m, mail, hmail⟩ := List.exists_cons_of_ne_nil hcaller
  unfold Step exec
  simp only [hmail]
  cases m with
  | notify | unlock => exact ⟨_, rfl⟩
  | insert token noti =>
    have hnone : s.holder = none := by
      refine hfree.resolve_right fun hholder => ?_
      -- The holder has a message to send, or the lock to release.
      obtain ⟨writes, after, hwrites, hnotify, -⟩ := h.holding caller hholder
      rw [hmail] at hwrites
      cases writes with
      | nil => cases hwrites
      | cons m writes =>
        cases hwrites
        exact hnotify _ List.mem_cons_self
    simp only [deliver, hnone, Option.isNone_none, if_true]
    exact ⟨_, rfl⟩

/-- The messages of a handler call. -/
private theorem flush_possible {seq : Fin poolSize} (hmail : s.mail seq = [])
    (houtbox : (s.server.pool.workers seq).outbox ≠ []) :
    ∃ s', s.Step display (.flush seq) s' := by
  obtain ⟨msg, outbox, hcons⟩ := List.exists_cons_of_ne_nil houtbox
  have hw : ∃ w, (s.server.pool.workers seq).exec .flush = some (.ok w) := by
    simp only [Worker.exec, hcons]
    exact ⟨_, rfl⟩
  obtain ⟨w, hw⟩ := hw
  unfold Step exec
  simp only [if_pos hmail, serve, Server.exec, Pool.exec, hw]
  exact ⟨_, rfl⟩

/-- Its work under the lock of `Shared`, when no shutdown has it. -/
private theorem lock_possible [LawfulSlab S] (h : s.server.pool.Agreement cap) {seq : Fin poolSize}
    (hmail : s.mail seq = [])
    (houtbox : (s.server.pool.workers seq).outbox = []) (hletters : s.server.letters = none)
    (hlocked : (s.server.pool.workers seq).locked ≠ none) :
    (∃ s', s.Step display (.lock seq) s') ∨ s.LosesPeer display := by
  obtain ⟨locked, hsome⟩ := Option.ne_none_iff_exists'.mp hlocked
  have hw : ∃ w, (s.server.pool.workers seq).exec .lock = some (.ok w) := by
    simp only [Worker.exec, houtbox, hsome]
    exact ⟨_, rfl⟩
  obtain ⟨w, hw⟩ := hw
  have hok : (∃ shared, locked.run s.server.pool.shared = .ok shared) →
      ∃ s', s.Step display (.lock seq) s' := by
    rintro ⟨shared, hrun⟩
    unfold Step exec
    simp only [if_pos hmail, serve, Server.exec, hletters, Option.isSome_none, Bool.false_eq_true,
      and_false, if_false, Pool.exec, hw, hsome, hrun]
    exact ⟨_, rfl⟩
  have herror : ∀ f, locked.run s.server.pool.shared = .error f →
      s.exec display (.lock seq) = some (.error (.fault f)) := by
    intro f hrun
    unfold exec
    simp only [if_pos hmail, serve, Server.exec, hletters, Option.isSome_none, Bool.false_eq_true,
      and_false, if_false, Pool.exec, hw, hsome, hrun]
    rfl
  cases locked with
  | add token noti => exact Or.inl (hok ⟨_, if_neg (h.not_mem hsome)⟩)
  | remove token peerAddr =>
    cases peerAddr with
    | ok addr => exact Or.inl (hok ⟨_, rfl⟩)
    | error e => exact Or.inr ⟨seq, herror _ rfl⟩

/-- A shutdown that is going on can send its next letter, or end. -/
private theorem letters_possible (hletters : s.server.letters ≠ none) :
    ∃ l s', ChatLabel.Finishes l ∧ s.Step display l s' := by
  obtain ⟨letters, hsome⟩ := Option.ne_none_iff_exists'.mp hletters
  cases letters with
  | nil =>
    have hstep : ∃ s', s.Step display (.service .endShutdown) s' := by
      unfold Step exec serve Server.exec
      simp only [ServerLabel.ofService, if_true, hsome]
      exact ⟨_, rfl⟩
    exact ⟨.service .endShutdown, hstep.imp fun s' h => ⟨trivial, h⟩⟩
  | cons n letters =>
    have hstep : ∃ s', s.Step display (.service .letter) s' := by
      unfold Step exec serve Server.exec
      simp only [ServerLabel.ofService, if_true, hsome]
      exact ⟨_, rfl⟩
    exact ⟨.service .letter, hstep.imp fun s' h => ⟨trivial, h⟩⟩

/-- As long as something has begun, something is possible. -/
theorem step_possible [LawfulSlab S] (h : s.Tidy cap) : s.Settled ∨ s.LosesPeer display ∨
    ∃ l s', ChatLabel.Finishes l ∧ s.Step display l s' := by
  have horderly := h.dealing.1
  have hgoes : ∀ l : ChatLabel poolSize, l.Finishes → (∃ s', s.Step display l s') →
      ∃ l s', ChatLabel.Finishes l ∧ s.Step display l s' :=
    fun l hl ⟨s', hstep⟩ => ⟨l, s', hl, hstep⟩
  by_cases hmail : ∀ seq, s.mail seq = []
  · have hholder : s.holder = none := by
      refine Option.eq_none_iff_forall_ne_some.mpr fun seq hseq => ?_
      obtain ⟨writes, after, hcons, -⟩ := horderly.holding seq hseq
      simp [hmail seq] at hcons
    by_cases houtbox : ∀ seq, (s.server.pool.workers seq).outbox = []
    · by_cases hletters : s.server.letters = none
      · by_cases hlocked : ∀ seq, (s.server.pool.workers seq).locked = none
        · refine Or.inl ⟨hholder, hletters, hmail, fun seq => ?_⟩
          exact ⟨List.isEmpty_iff.mpr (houtbox seq), Option.isNone_iff_eq_none.mpr (hlocked seq)⟩
        · obtain ⟨seq, hseq⟩ := not_forall.mp hlocked
          rcases lock_possible h.agreement (hmail seq) (houtbox seq) hletters hseq with
            hstep | hloses
          · exact Or.inr (Or.inr (hgoes (.lock seq) trivial hstep))
          · exact Or.inr (Or.inl hloses)
      · exact Or.inr (Or.inr (letters_possible hletters))
    · obtain ⟨seq, hseq⟩ := not_forall.mp houtbox
      exact Or.inr (Or.inr (hgoes (.flush seq) trivial (flush_possible (hmail seq) hseq)))
  · obtain ⟨seq, hseq⟩ := not_forall.mp hmail
    refine Or.inr (Or.inr ?_)
    cases hholder : s.holder with
    | none => exact hgoes (.mail seq) trivial (mail_possible horderly hseq (Or.inl hholder))
    | some caller =>
      -- The others may have to wait, but the holder of the lock does not.
      obtain ⟨writes, after, hcons, -⟩ := horderly.holding caller hholder
      have hcaller : s.mail caller ≠ [] := by simp [hcons]
      exact hgoes (.mail caller) trivial (mail_possible horderly hcaller (Or.inr hholder))

/-- **The chat server has no deadlock.** Take any reachable state, and any steps from there that go
on with handler calls and with a shutdown, in any order: mail, messages to the own loop, work under
the lock of `Shared`, letters. There are exactly `work` of them. At each point either all is
settled, with no lock taken and no handler call going on, or one more of them is possible, or a
worker panics over the address of a peer that is gone. -/
theorem settles_of_run [LawfulSlab S] {s₀ : Chat S poolSize} {ls₀ ls : List (ChatLabel poolSize)}
    (h₀ : s₀.Started cap) (hrun₀ : Run (RoomyStep display) s₀ ls₀ s)
    (hrun : Run (Step display) s ls s') (hls : ∀ l ∈ ls, ChatLabel.Finishes l) :
    s.work = s'.work + ls.length ∧ (s'.Settled ∨ s'.LosesPeer display ∨
      ∃ l t, ChatLabel.Finishes l ∧ s'.Step display l t) := by
  have htidy := run_tidy h₀ hrun₀
  clear hrun₀
  induction hrun with
  | nil s => exact ⟨rfl, step_possible htidy⟩
  | cons hstep _ ih =>
    rw [List.forall_mem_cons] at hls
    have hroomy : RoomyStep display _ _ _ := ⟨hstep, by
      rintro seq k users rfl
      exact hls.1.elim⟩
    obtain ⟨hwork, hpossible⟩ := ih hls.2 (step_tidy htidy hroomy)
    refine ⟨?_, hpossible⟩
    rw [step_work hls.1 hstep, hwork]
    rfl

end Chat

section Example

/-- The first of two guests is on its way to `users`. -/
def guestAtDoor : List (ChatLabel 2) :=
  [.service (.accept .fresh 5 0), .service (.accept .fresh 6 0),
    .call ⟨0, Nat.zero_lt_two⟩ (.receive chatEnv) []]

set_option maxRecDepth 8000 in
/-- The lock of `users` is released, and taken again to enter it. -/
theorem settles_of_run_guest : ∃ s s' : Chat Lib.FreeListSlab 2,
    Run (Chat.Step fun _ => []) s [.mail ⟨0, Nat.zero_lt_two⟩, .mail ⟨0, Nat.zero_lt_two⟩] s' ∧
    s.work = s'.work + 2 ∧ (s'.Settled ∨ s'.LosesPeer (fun _ => []) ∨
      ∃ l t, ChatLabel.Finishes l ∧ s'.Step (fun _ => []) l t) := by
  have hsteps : ∃ s s' : Chat Lib.FreeListSlab 2,
      Run (Chat.RoomyStep fun _ => []) newChat guestAtDoor s ∧
      Run (Chat.Step fun _ => []) s
        [.mail ⟨0, Nat.zero_lt_two⟩, .mail ⟨0, Nat.zero_lt_two⟩] s' := by
    refine ⟨_, _, .cons ⟨rfl, ?_⟩ (.cons ⟨rfl, ?_⟩ (.cons ⟨rfl, ?_⟩ (.nil _))),
      .cons rfl (.cons rfl (.nil _))⟩
    all_goals
      intro seq k users hl
      cases hl
    exact fun _ => by decide
  obtain ⟨s, s', hrun₀, hrun⟩ := hsteps
  exact ⟨s, s', hrun, Chat.settles_of_run newChat_started hrun₀ hrun (by simp [ChatLabel.Finishes])⟩

end Example

end Ruduo
