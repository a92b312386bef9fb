import Ruduo.Model.Chat
import Ruduo.Spec.ByteStreams
import Ruduo.Spec.Server
import Mathlib.Algebra.BigOperators.Fin

/-!
# `Ruduo.Spec.Chat`: who hears what

All broadcasts come in one order, that of the lock of `users`. `Chat.spoken` is the broadcast that
a step begins: what the callback says, to the users of the moment. It writes to each of them but
the speaker. `Speech.writes` are its messages to one loop, and `Chat.underway` the
messages that this loop has still to handle: those in its queue, and those that the broadcast that
is going on has still to enqueue.

A user hears what the others say. `Chat.awaiting` is what it has still to hear.

`ChatLabel.Finishes` are the steps that go on with what has begun: with a handler call, or with a
shutdown. `Chat.work` counts how many of them are to do, and `Chat.Settled` says that it is none.
-/

set_option autoImplicit false

namespace Ruduo

open Lib (Slab utf8Encode)

/-- The token and the data of a `Write` message. -/
def TcpConnMessage.written {M : Type} : TcpConnMessage M → Option (Token × List UInt8)
  | .write token data => some (token, data)
  | _ => none

/-- The token and the data of a queued `Write` message. -/
def Queued.written {M : Type} (q : Queued M) : Option (Token × List UInt8) :=
  match q.msg with
  | .any msg => msg.written
  | .stop => none

/-- The `Write` message to the loop `n`, if it is one. -/
def Mail.written (n : Nat) : Mail → Option (Token × List UInt8)
  | .notify peer msg => if peer = n then msg.written else none
  | _ => none

/-- What a broadcast writes to the loop `n`: the data once for each user there but the speaker. -/
def Speech.writes (n : Nat) (s : Speech) : List (Token × List UInt8) :=
  (s.users.filter fun user => user.1 ≠ s.token ∧ user.2 = n).map fun user => (user.1, s.data)

/-- What the user with this token hears of a broadcast. -/
def Speech.heardBy (token : Token) (s : Speech) : Option (List UInt8) :=
  if s.token = token then none else some s.data

/-- Of these `Write` messages, the data for one token. -/
def dataFor (token : Token) (writes : List (Token × List UInt8)) : List (List UInt8) :=
  (writes.filter fun x => x.1 = token).map Prod.snd

/-- The messages that a handler call has still to enqueue, and its work under the lock. -/
def Worker.work {S : Type → Type} {M : Type} (w : Worker S M) : Nat :=
  w.outbox.length + w.locked.elim 0 fun _ => 1

/-- The step goes on with what has begun. -/
def ChatLabel.Finishes {poolSize : Nat} : ChatLabel poolSize → Prop
  | .mail _ | .flush _ | .lock _ | .service .letter | .service .endShutdown => True
  | _ => False

namespace Chat
variable {S : Type → Type} [Slab S] {poolSize : Nat}

/-- A chat server right after its start. -/
structure Started (cap : Nat) (s : Chat S poolSize) : Prop where
  server : s.server.Started cap
  users : s.users = ∅
  holder : s.holder = none
  mail : ∀ seq, s.mail seq = []
  said : s.said = []

/-- The broadcast that a step begins: what the callback of its handler call says, and to whom. -/
def spoken (display : SocketAddr → List Char) (s : Chat S poolSize) :
    ChatLabel poolSize → List Speech
  | .call seq k users =>
    match UserConnection.reaction display (s.server.pool.workers seq) k with
    | .ok r => r.broadcast.toList.map fun x => { token := x.1, data := utf8Encode x.2, users }
    | .error _ => []
  | _ => []

/-- A step whose broadcast, if it begins one, goes to the users of the moment. -/
def TellsStep (display : SocketAddr → List Char) (s : Chat S poolSize) (l : ChatLabel poolSize)
    (s' : Chat S poolSize) : Prop :=
  s.Step display l s' ∧ ∀ speech ∈ s.spoken display l, speech.users.Perm s.users.entries

omit [Slab S] in
/-- The `Write` messages that the broadcast that is going on has still to enqueue to this loop. -/
def pendingWrites (s : Chat S poolSize) (seq : Fin poolSize) : List (Token × List UInt8) :=
  (s.holder.elim [] s.mail).filterMap (Mail.written seq)

omit [Slab S] in
/-- The `Write` messages that are on their way to this worker, in the order in which it will handle
them. -/
def underway (s : Chat S poolSize) (seq : Fin poolSize) : List (Token × List UInt8) :=
  (s.server.pool.workers seq).queue.filterMap Queued.written ++ s.pendingWrites seq

omit [Slab S] in
/-- The `Write` message that this worker handles in a step. -/
def handledWrites (seq : Fin poolSize) (s : Chat S poolSize) :
    ChatLabel poolSize → List (Token × List UInt8)
  | .call caller (.receive _) _ =>
    if caller = seq then
      ((s.server.pool.workers seq).queue.take 1).filterMap Queued.written
    else []
  | _ => []

/-- The calls that a step makes on the connection of this worker with this token. -/
def callsOn (display : SocketAddr → List Char) (seq : Fin poolSize) (token : Token)
    (s : Chat S poolSize) : ChatLabel poolSize → List (ConnCall TimeoutQuit)
  | .call caller k _ =>
    if caller = seq then
      match UserConnection.reaction display (s.server.pool.workers seq) k with
      | .ok r => (s.server.pool.workers seq).callsOn token (k.withActs r.acts)
      | .error _ => []
    else []
  | _ => []

omit [Slab S] in
/-- What the user with this token has still to hear. -/
def awaiting (s : Chat S poolSize) (seq : Fin poolSize) (token : Token) : List (List UInt8) :=
  dataFor token (s.underway seq)

/-- Nobody has a lock, and no handler call is going on. -/
structure Settled (s : Chat S poolSize) : Prop where
  /-- Nobody holds the lock of the users. -/
  holder : s.holder = none
  /-- No shutdown holds the lock of `Shared`. -/
  letters : s.server.letters = none
  /-- No callback has anything left to do. -/
  mail : ∀ seq, s.mail seq = []
  /-- No worker is in a handler call. -/
  idle : ∀ seq, (s.server.pool.workers seq).Idle

omit [Slab S] in
/-- How many steps there are to do in what has begun. -/
def work (s : Chat S poolSize) : Nat :=
  ∑ seq, ((s.mail seq).length + (s.server.pool.workers seq).work)
    + s.server.letters.elim 0 fun letters => letters.length + 1

/-- The worker panics in its work under the lock, because the peer of a closed connection has no
address any more. -/
def LosesPeer (display : SocketAddr → List Char) (s : Chat S poolSize) : Prop :=
  ∃ seq, s.exec display (.lock seq) = some (.error (.fault (.panicked .peerAddr)))

/-- A step in which no connection arrives at a full slab. -/
def RoomyStep (display : SocketAddr → List Char) (s : Chat S poolSize) (l : ChatLabel poolSize)
    (s' : Chat S poolSize) : Prop :=
  s.Step display l s' ∧
    ∀ seq k users, l = .call seq k users → (s.server.pool.workers seq).HasRoom k

/-- Every broadcast goes once to every user, and nobody is forgotten. -/
structure Inclusive (s : Chat S poolSize) : Prop where
  /-- A broadcast has every token once among its users. -/
  once : ∀ speech ∈ s.said, (speech.users.map Sigma.fst).Nodup
  /-- Who is a user at one broadcast is one at all later ones. -/
  later : s.said.Pairwise fun speech next => ∀ user ∈ speech.users, ∃ noti,
    (⟨user.1, noti⟩ : Sigma fun _ : Token => Nat) ∈ next.users
  /-- A live connection is a user, unless its `on_established` has still to enter it. -/
  entered : ∀ seq token, (s.server.pool.workers seq).HasToken token →
    token ∈ s.users ∨ ∃ noti, .insert token noti ∈ s.mail seq

end Chat

end Ruduo
