import Ruduo.Proofs.Server.Steps
import Ruduo.Spec.Directory

/-!
# `Ruduo.Proofs.Server.Placement`: the tokens of one worker

Each dispatcher issues tokens of its own range, because a vacant key is below the capacity as
long as the slab is not full. So two workers never meet in the directory.

* `Placed`: a worker has its place in a pool: its offset, its notifier, and keys below the
  capacity. The tokens that the directory holds for it are in its range
  (`Placed.listed_inRange`).
* `Placed.kept`, `Placed.added`, `Placed.removed`: a handler call changes the slab, and not what
  the directory should hold.
* `step_placed`: so does every step but the work under the lock.
-/

set_option autoImplicit false

namespace Ruduo

open Lib (Slab LawfulSlab)

variable {S : Type → Type} [Slab S] {M : Type}

namespace Locked

/-- The token that is added or removed. -/
def token : Locked → Token
  | .add token _ => token
  | .remove token _ => token

/-- What the directory maps the token to afterwards. -/
def entry : Locked → Option Nat
  | .add _ noti => some noti
  | .remove _ _ => none

/-- The work under the lock changes one entry of the directory. -/
theorem run_lookup {locked : Locked} {s s' : Shared} (hrun : locked.run s = .ok s') :
    s'.getLoopNotifier locked.token = locked.entry ∧
      ∀ t, t ≠ locked.token → s'.getLoopNotifier t = s.getLoopNotifier t := by
  cases locked with
  | add added noti =>
    have hshared : s.addConnection added noti = .ok s' := hrun
    unfold Shared.addConnection at hshared
    split at hshared
    · cases hshared
    · obtain rfl := Except.ok.inj hshared
      exact ⟨AList.lookup_insert _, fun t hne => AList.lookup_insert_ne hne⟩
  | remove removed peerAddr =>
    obtain ⟨_, -, hok⟩ := bind_eq_ok.mp hrun
    obtain rfl := Except.ok.inj hok
    exact ⟨AList.lookup_erase _ _, fun t hne => AList.lookup_erase_ne hne⟩

end Locked

namespace Worker
variable {w w' : Worker S M} {token : Token} {cap seq : Nat}

/-- A live token is the offset and an occupied key. -/
theorem hasToken_iff : w.HasToken token ↔ ∃ key, token = w.dispatcher.offset + key ∧
    (Slab.get w.dispatcher.localConnections key).isSome := by
  constructor
  · rintro ⟨c, hc⟩
    obtain ⟨key, htoken, hget⟩ := Dispatcher.connAt_eq_some.mp hc
    exact ⟨key, htoken, hget ▸ rfl⟩
  · rintro ⟨key, htoken, hsome⟩
    obtain ⟨c, hget⟩ := Option.isSome_iff_exists.mp hsome
    exact ⟨c, Dispatcher.connAt_eq_some.mpr ⟨key, htoken, hget⟩⟩

/-- The live tokens depend on the offset and the keys in use. -/
theorem hasToken_congr (hoffset : w'.dispatcher.offset = w.dispatcher.offset)
    (hkeys : ∀ key, (Slab.get w'.dispatcher.localConnections key).isSome
      = (Slab.get w.dispatcher.localConnections key).isSome) :
    w'.HasToken token ↔ w.HasToken token := by
  rw [hasToken_iff, hasToken_iff, hoffset]
  exact exists_congr fun key => and_congr_right fun _ => by rw [hkeys key]

/-- With the same tokens and the same work under the lock, the same tokens are listed. -/
theorem listed_congr (hlocked : w'.locked = w.locked)
    (htokens : ∀ token, w'.HasToken token ↔ w.HasToken token) :
    w'.Listed token ↔ w.Listed token := by
  unfold Listed
  rw [hlocked]
  split
  · exact htokens token
  · exact and_congr_left fun _ => htokens token
  · exact or_congr_left (htokens token)

/-- Without work under the lock, the live tokens are listed. -/
theorem listed_of_none (h : w.locked = none) : w.Listed token ↔ w.HasToken token := by
  unfold Listed
  rw [h]

/-- A token that is still to be entered is not listed yet. -/
theorem listed_of_add {added : Token} {noti : Nat} (h : w.locked = some (.add added noti)) :
    w.Listed token ↔ w.HasToken token ∧ token ≠ added := by
  unfold Listed
  rw [h]

/-- A token that is still to be taken out is listed still. -/
theorem listed_of_remove {removed : Token} {peerAddr : Except IoError SocketAddr}
    (h : w.locked = some (.remove removed peerAddr)) :
    w.Listed token ↔ w.HasToken token ∨ token = removed := by
  unfold Listed
  rw [h]

/-- Only the token that is added or removed is listed in another way. -/
theorem listed_of_ne {locked : Locked} (h : w.locked = some locked) (hne : token ≠ locked.token) :
    w.Listed token ↔ w.HasToken token := by
  cases locked with
  | add added noti => exact (listed_of_add h).trans (and_iff_left hne)
  | remove removed peerAddr => exact (listed_of_remove h).trans (or_iff_left hne)

/-- The next token is not live yet. -/
theorem not_hasToken_vacant [LawfulSlab S] (w : Worker S M) :
    ¬ w.HasToken (w.dispatcher.offset + Slab.vacantKey w.dispatcher.localConnections) := by
  rw [hasToken_iff]
  rintro ⟨key, heq, hsome⟩
  obtain rfl := Nat.add_left_cancel heq
  rw [LawfulSlab.get_vacantKey] at hsome
  cases hsome

/-- A connection was inserted, and its token is live. -/
theorem hasToken_insert [LawfulSlab S] {c : TcpConnection}
    (hoffset : w'.dispatcher.offset = w.dispatcher.offset)
    (hconns : w'.dispatcher.localConnections = Slab.insert w.dispatcher.localConnections c)
    (token : Token) :
    w'.HasToken token ↔ w.HasToken token ∨
      token = w.dispatcher.offset + Slab.vacantKey w.dispatcher.localConnections := by
  have hget : ∀ key, Slab.get w'.dispatcher.localConnections key
      = if key = Slab.vacantKey w.dispatcher.localConnections then some c
        else Slab.get w.dispatcher.localConnections key := by
    intro key
    rw [hconns, LawfulSlab.get_insert]
  rw [hasToken_iff, hasToken_iff, hoffset]
  constructor
  · rintro ⟨key, rfl, hsome⟩
    rw [hget] at hsome
    split at hsome
    · rename_i heq
      exact Or.inr (by rw [heq])
    · exact Or.inl ⟨key, rfl, hsome⟩
  · rintro (⟨key, rfl, hsome⟩ | rfl)
    · refine ⟨key, rfl, ?_⟩
      rw [hget]
      split
      · rfl
      · exact hsome
    · exact ⟨_, rfl, by rw [hget, if_pos rfl]; rfl⟩

/-- A connection was removed: its token is not live any more. -/
theorem hasToken_remove [LawfulSlab S] {key₀ : Nat}
    (hoffset : w'.dispatcher.offset = w.dispatcher.offset)
    (hconns : w'.dispatcher.localConnections = Slab.remove w.dispatcher.localConnections key₀)
    (token : Token) :
    w'.HasToken token ↔ w.HasToken token ∧ token ≠ w.dispatcher.offset + key₀ := by
  have hget : ∀ key, Slab.get w'.dispatcher.localConnections key
      = if key = key₀ then none else Slab.get w.dispatcher.localConnections key := by
    intro key
    rw [hconns, LawfulSlab.get_remove]
  rw [hasToken_iff, hasToken_iff, hoffset]
  constructor
  · rintro ⟨key, rfl, hsome⟩
    rw [hget] at hsome
    split at hsome
    · cases hsome
    · rename_i hne
      exact ⟨⟨key, rfl, hsome⟩, fun heq => hne (Nat.add_left_cancel heq)⟩
  · rintro ⟨⟨key, rfl, hsome⟩, hne⟩
    refine ⟨key, rfl, ?_⟩
    rw [hget, if_neg fun heq => hne (by rw [heq])]
    exact hsome

/-- The worker has its place in a pool: its offset, its notifier, and keys below the
capacity. -/
structure Placed (cap seq : Nat) (w : Worker S M) : Prop where
  offset : w.dispatcher.offset = seq * cap
  localNotifier : w.dispatcher.localNotifier = seq
  capacity : Slab.capacity w.dispatcher.localConnections = cap
  key_lt : ∀ key, (Slab.get w.dispatcher.localConnections key).isSome → key < cap
  token : w.dispatcher.All fun _ token c => c.token = token
  /-- A token that is to be entered in the directory is that of a connection. -/
  adding : ∀ token noti, w.locked = some (.add token noti) → noti = seq ∧ w.HasToken token
  /-- A token that is to be taken out is free again, and one of this worker. -/
  removing : ∀ token peerAddr, w.locked = some (.remove token peerAddr) →
    ¬ w.HasToken token ∧ ∃ key, key < cap ∧ token = w.dispatcher.offset + key

/-- The tokens of the dispatcher with the number `seq`. -/
def InRange (cap seq token : Nat) : Prop := seq * cap ≤ token ∧ token < (seq + 1) * cap

/-- The ranges of two dispatchers have no token in common. -/
theorem InRange.unique {seq' : Nat} (h : InRange cap seq token) (h' : InRange cap seq' token) :
    seq = seq' := by
  have hle : ∀ a b : Nat, a * cap ≤ token → token < (b + 1) * cap → a ≤ b := by
    intro a b ha hb
    by_contra hab
    have hmul : (b + 1) * cap ≤ a * cap := Nat.mul_le_mul_right cap (by omega)
    exact absurd (Nat.lt_of_lt_of_le hb (Nat.le_trans hmul ha)) (Nat.lt_irrefl _)
  exact Nat.le_antisymm (hle _ _ h.1 h'.2) (hle _ _ h'.1 h.2)

/-- A key below the capacity is in the range of the worker. -/
theorem Placed.key_inRange (h : Placed cap seq w) {key : Nat} (hkey : key < cap) :
    InRange cap seq (w.dispatcher.offset + key) := by
  rw [h.offset]
  exact ⟨Nat.le_add_right _ _, by rw [Nat.add_mul, Nat.one_mul]; exact Nat.add_lt_add_left hkey _⟩

/-- A live token is in the range of its worker. -/
theorem Placed.live_inRange (h : Placed cap seq w) (htoken : w.HasToken token) :
    InRange cap seq token := by
  obtain ⟨key, rfl, hsome⟩ := hasToken_iff.mp htoken
  exact h.key_inRange (h.key_lt key hsome)

/-- The tokens that the directory holds for a worker are in its range. -/
theorem Placed.listed_inRange (h : Placed cap seq w) (hlisted : w.Listed token) :
    InRange cap seq token := by
  unfold Listed at hlisted
  split at hlisted
  · exact h.live_inRange hlisted
  · exact h.live_inRange hlisted.1
  · rename_i removed peerAddr hlocked
    rcases hlisted with htoken | rfl
    · exact h.live_inRange htoken
    · obtain ⟨-, key, hkey, rfl⟩ := h.removing _ _ hlocked
      exact h.key_inRange hkey

/-- The token that is added or removed is in the range of the worker. -/
theorem Placed.locked_inRange (h : Placed cap seq w) {locked : Locked}
    (hlocked : w.locked = some locked) : InRange cap seq locked.token := by
  cases locked with
  | add added noti => exact h.live_inRange (h.adding _ _ hlocked).2
  | remove removed peerAddr =>
    obtain ⟨-, key, hkey, htoken⟩ := h.removing _ _ hlocked
    rw [Locked.token, htoken]
    exact h.key_inRange hkey

/-- The entry that the work under the lock makes is what the worker has. -/
theorem Placed.locked_entry (h : Placed cap seq w) {locked : Locked}
    (hlocked : w.locked = some locked) (noti : Nat) :
    locked.entry = some noti ↔ noti = seq ∧ w.HasToken locked.token := by
  cases locked with
  | add added n =>
    obtain ⟨rfl, hlive⟩ := h.adding _ _ hlocked
    constructor
    · rintro ⟨rfl⟩
      exact ⟨rfl, hlive⟩
    · rintro ⟨rfl, -⟩
      rfl
  | remove removed peerAddr =>
    have hgone := (h.removing _ _ hlocked).1
    constructor
    · rintro ⟨⟩
    · rintro ⟨-, hlive⟩
      exact absurd hlive hgone

/-- A handler call that leaves the keys alone. -/
theorem Placed.kept (h : Placed cap seq w) (hidle : w.locked = none)
    (hkept : Dispatcher.Kept w.dispatcher w'.dispatcher) (hlocked : w'.locked = none)
    (htoken : w'.dispatcher.All fun _ token c => c.token = token) :
    Placed cap seq w' ∧ ∀ token, w'.Listed token ↔ w.Listed token := by
  refine ⟨⟨hkept.offset.trans h.offset, hkept.localNotifier.trans h.localNotifier,
    hkept.capacity.trans h.capacity, fun key hsome => h.key_lt key (hkept.isSome key ▸ hsome),
    htoken, fun token noti hadd => ?_, fun token peerAddr hremove => ?_⟩, fun token => ?_⟩
  · rw [hlocked] at hadd
    cases hadd
  · rw [hlocked] at hremove
    cases hremove
  · exact listed_congr (hlocked.trans hidle.symm) fun token =>
      hasToken_congr hkept.offset hkept.isSome

/-- A connection was added. Its token is live, and not yet in the directory. -/
theorem Placed.added [LawfulSlab S] (h : Placed cap seq w) (hidle : w.locked = none)
    {c : TcpConnection}
    (hconns : w'.dispatcher.localConnections = Slab.insert w.dispatcher.localConnections c)
    (hoffset : w'.dispatcher.offset = w.dispatcher.offset)
    (hnoti : w'.dispatcher.localNotifier = w.dispatcher.localNotifier)
    (hlocked : w'.locked = some (.add (w.dispatcher.offset +
      Slab.vacantKey w.dispatcher.localConnections) w.dispatcher.localNotifier))
    (hroom : Slab.len w.dispatcher.localConnections
      < Slab.capacity w.dispatcher.localConnections)
    (htoken : w'.dispatcher.All fun _ token c => c.token = token) :
    Placed cap seq w' ∧ ∀ token, w'.Listed token ↔ w.Listed token := by
  have htokens := hasToken_insert hoffset hconns
  have hfresh := not_hasToken_vacant w
  refine ⟨⟨hoffset.trans h.offset, hnoti.trans h.localNotifier, ?_, fun key hsome => ?_, htoken,
    fun token noti hadd => ?_, fun token peerAddr hremove => ?_⟩, fun token => ?_⟩
  · rw [hconns, LawfulSlab.capacity_insert _ _ hroom, h.capacity]
  · rw [hconns, LawfulSlab.get_insert] at hsome
    split at hsome
    · -- The vacant key is below the capacity because there is room.
      rename_i heq
      have hlt := LawfulSlab.vacantKey_lt _ hroom
      rw [h.capacity] at hlt
      rw [heq]
      exact hlt
    · exact h.key_lt key hsome
  · rw [hlocked] at hadd
    cases hadd
    exact ⟨h.localNotifier, (htokens _).mpr (Or.inr rfl)⟩
  · rw [hlocked] at hremove
    cases hremove
  · -- The new token is the one that is still to be added.
    rw [listed_of_none hidle, listed_of_add hlocked, htokens]
    constructor
    · rintro ⟨hold | hnew, hne⟩
      · exact hold
      · exact absurd hnew hne
    · intro hold
      exact ⟨Or.inl hold, fun heq => hfresh (heq ▸ hold)⟩

/-- A connection was removed. Its token is not live, and still in the directory. -/
theorem Placed.removed [LawfulSlab S] (h : Placed cap seq w) (hidle : w.locked = none)
    {key₀ : Nat} {c : TcpConnection} {peerAddr : Except IoError SocketAddr}
    (hget : Slab.get w.dispatcher.localConnections key₀ = some c)
    (hsame : Dispatcher.SameTable { w.dispatcher with
      localConnections := Slab.remove w.dispatcher.localConnections key₀ } w'.dispatcher)
    (hlocked : w'.locked = some (.remove (w.dispatcher.offset + key₀) peerAddr))
    (htoken : w'.dispatcher.All fun _ token c => c.token = token) :
    Placed cap seq w' ∧ ∀ token, w'.Listed token ↔ w.Listed token := by
  have hconns : w'.dispatcher.localConnections
      = Slab.remove w.dispatcher.localConnections key₀ := hsame.localConnections
  have htokens := hasToken_remove hsame.offset hconns
  have hlive : (Slab.get w.dispatcher.localConnections key₀).isSome := by
    rw [hget]
    rfl
  refine ⟨⟨hsame.offset.trans h.offset, hsame.localNotifier.trans h.localNotifier, ?_,
    fun key hsome => ?_, htoken, fun token noti hadd => ?_,
    fun token peerAddr hremove => ?_⟩, fun token => ?_⟩
  · rw [hconns, LawfulSlab.capacity_remove, h.capacity]
  · rw [hconns, LawfulSlab.get_remove] at hsome
    split at hsome
    · cases hsome
    · exact h.key_lt key hsome
  · rw [hlocked] at hadd
    cases hadd
  · rw [hlocked] at hremove
    cases hremove
    refine ⟨fun hgone => ((htokens _).mp hgone).2 rfl, key₀, h.key_lt key₀ hlive, ?_⟩
    rw [hsame.offset]
  · -- The old token is the one that is still to be removed.
    rw [listed_of_none hidle, listed_of_remove hlocked, htokens]
    constructor
    · rintro (⟨hold, -⟩ | rfl)
      · exact hold
      · exact hasToken_iff.mpr ⟨key₀, rfl, hlive⟩
    · intro hold
      by_cases heq : token = w.dispatcher.offset + key₀
      · exact Or.inr heq
      · exact Or.inl ⟨hold, heq⟩

/-- A message that adds or removes a connection: what the directory holds for the worker stays
the same until the lock is taken. -/
theorem Placed.moved [LawfulSlab S] (h : Placed cap seq w) (hidle : w.locked = none)
    (hmoved : Dispatcher.Moved w.dispatcher w'.dispatcher w'.locked)
    (hroom : ∀ token noti, w'.locked = some (.add token noti) →
      Slab.len w.dispatcher.localConnections < Slab.capacity w.dispatcher.localConnections)
    (htoken : w'.dispatcher.All fun _ token c => c.token = token) :
    Placed cap seq w' ∧ ∀ token, w'.Listed token ↔ w.Listed token := by
  generalize hlocked : w'.locked = locked at hmoved
  cases hmoved with
  | dropped hsame => exact h.kept hidle hsame.kept hlocked htoken
  | added c hconns _ hoffset hnoti _ =>
    exact h.added hidle hconns hoffset hnoti hlocked (hroom _ _ hlocked) htoken
  | removed key₀ c peerAddr hget hsame => exact h.removed hidle hget hsame hlocked htoken

variable [LawfulSlab S] [DecidableEq M] {l : WorkerLabel M}

omit [LawfulSlab S] in
/-- A connection is added for a message that hands one over. -/
theorem room_of_adding (hroom : w.HasRoom l) (hmoves : w.Moves l) (hstep : w.Step l w')
    {noti : Nat} (hadd : w'.locked = some (.add token noti)) :
    Slab.len w.dispatcher.localConnections < Slab.capacity w.dispatcher.localConnections := by
  obtain ⟨env, msg, target, queue, r, rfl, hqueue, hmsg, hr, rfl⟩ := step_moves hmoves hstep
  unfold HasRoom at hroom
  rw [hqueue] at hroom
  cases msg with
  | established | connecting => exact hroom trivial
  | removed removed =>
    obtain ⟨r', hr', hr⟩ := bind_eq_ok.mp hr
    cases hr
    have hcovers : Dispatcher.Covers fun _ => True := fun _ _ => trivial
    obtain ⟨key, c, -, -, -, hlocked⟩ := (Dispatcher.removeConnection_outcome hcovers).of_ok hr'
    have hadd' : some r'.2 = some (.add token noti) := hadd
    rw [hlocked] at hadd'
    cases hadd'
  | _ => exact hmsg.elim -- No other message moves a connection.

/-- A step other than the work under the lock keeps the worker in its place, and does not change
what the directory should hold. -/
theorem step_placed (h : Placed cap seq w) (hroom : w.HasRoom l) (hl : l ≠ .lock)
    (hstep : w.Step l w') :
    Placed cap seq w' ∧ ∀ token, w'.Listed token ↔ w.Listed token := by
  by_cases hpassive : Passive l
  · -- Another thread, or the handler call, enqueues a message.
    have hsame : w'.dispatcher = w.dispatcher ∧ w'.locked = w.locked := by
      unfold Step at hstep
      cases l with
      | enqueue msg =>
        cases hstep
        exact ⟨rfl, rfl⟩
      | flush =>
        unfold exec at hstep
        dsimp only at hstep
        split at hstep <;> cases hstep
        exact ⟨rfl, rfl⟩
      | lock => exact absurd rfl hl
      | _ => exact hpassive.elim
    obtain ⟨hd, hlocked⟩ := hsame
    have htokens : ∀ token, w'.HasToken token ↔ w.HasToken token := by
      intro token
      unfold HasToken
      rw [hd]
    refine ⟨⟨hd ▸ h.offset, hd ▸ h.localNotifier, hd ▸ h.capacity, hd ▸ h.key_lt, hd ▸ h.token,
      fun token noti hadd => ?_, fun token peerAddr hremove => ?_⟩,
      fun token => listed_congr hlocked htokens⟩
    · rw [htokens]
      exact h.adding token noti (hlocked ▸ hadd)
    · rw [htokens, hd]
      exact h.removing token peerAddr (hlocked ▸ hremove)
  · have hidle : w.locked = none := Option.isNone_iff_eq_none.mp (idle_of_exec hpassive hstep).2
    obtain ⟨htoken, hchange⟩ := step_identity (R := fun token _ t => t = token) hstep h.token rfl
    rcases hchange with ⟨-, hkept, hlocked⟩ | ⟨hmoves, -, hmoved⟩
    · exact h.kept hidle hkept (hlocked hidle) htoken
    · exact h.moved hidle hmoved (fun token noti hadd => room_of_adding hroom hmoves hstep hadd)
        htoken

omit [LawfulSlab S] in
/-- The work under the lock changes nothing in the worker. -/
theorem step_lock (hstep : w.Step .lock w') :
    ∃ locked, w.locked = some locked ∧ w'.dispatcher = w.dispatcher ∧ w'.locked = none := by
  unfold Step exec at hstep
  dsimp only at hstep
  split at hstep
  · rename_i locked _ hlocked
    cases hstep
    exact ⟨locked, hlocked, rfl, rfl⟩
  · cases hstep

end Worker

end Ruduo
