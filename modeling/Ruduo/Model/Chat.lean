import Ruduo.Model.Server
import Ruduo.Model.Text

/-!
# `Ruduo.Model.Chat`: the chat server

`examples/chat.rs`, a server of the crate. Its workers share the map `users`, which has a lock of
its own. A callback that broadcasts takes this lock, and under it enqueues a `Write` message to the
loop of every user but its own.

`Reaction` is what one callback does: with its connection, to the others, and after that.
`Chat.exec` makes one step of the server. A handler call takes the lock of `users` in its first
step, if its callback broadcasts at all. What the call does before that concerns its own worker
only, so it does not matter to the others that it is part of the same step. The messages of the
broadcast, the end of the lock and what `on_established` does after it are steps of their own,
`Mail`. Then the call goes on as in `Ruduo.Model.Server`.

The `Weak` in a connection is set before its first callback, and the threads end before the map is
dropped, so `upgrade` gives the map. `display` is how a `SocketAddr` is shown. `said` is a ghost
field.
-/

set_option autoImplicit false

namespace Ruduo

open Lib (Slab utf8Encode)

/-- `TimeoutQuit`, the marks of the timers. -/
abbrev TimeoutQuit : Type := Token × Nat

/-- The closure of the heartbeat. -/
def HEARTBEAT : Closure := 0

/-- What a callback does with others, one thing after the other. -/
inductive Mail where
  /-- `peer.notify(msg)`, where the notifier `peer` is the number of a loop. -/
  | notify (peer : Nat) (msg : TcpConnMessage TimeoutQuit)
  /-- The lock of `users` is released. -/
  | unlock
  /-- The lock is taken for `users.insert(token, notifier)`, and released. -/
  | insert (token : Token) (notifier : Nat)
  deriving DecidableEq

/-- What a callback does. -/
structure Reaction where
  /-- With its own connection. -/
  acts : List (Act TimeoutQuit)
  /-- The text that it broadcasts, with its own token. -/
  broadcast : Option (Token × List Char)
  /-- After the broadcast. -/
  after : List Mail

/-- A broadcast: who says what, and the users at that moment in the order of the iteration. -/
structure Speech where
  token : Token
  data : List UInt8
  users : List (Sigma fun _ : Token => Nat)

/-- The loop of `broadcast`. -/
def Speech.mail (s : Speech) : List Mail :=
  (s.users.filter fun user => user.1 ≠ s.token).map fun user =>
    .notify user.2 (.write user.1 s.data)

/-! ### The callbacks -/

namespace UserConnection
variable (display : SocketAddr → List Char)

/-- No callback runs. -/
def silent : Reaction := { acts := [], broadcast := none, after := [] }

/-- A user comes: it is announced to the others, and then entered, and its heartbeat is set up. -/
def onEstablished (token : Token) (notifier : Nat) (peerAddr : SocketAddr) : Reaction where
  acts := [.enableIo .READABLE]
  broadcast := some (token, "User(".toList ++ display peerAddr ++ ") coming!\n".toList)
  after := [.insert token notifier,
    .notify notifier (.addTimer token 1000 (token, 0) HEARTBEAT)]

/-- `retrieve_all_as_string` takes all that is readable. -/
def onReadComplete (c : TcpConnection) (peerAddr : SocketAddr) : Except Fault Reaction := do
  let readable ← c.input.readableBytes
  let (_, text) ← c.input.retrieveAllAsString
  let msg := "User(".toList ++ display peerAddr ++ "): ".toList ++ text ++ "\n".toList
  .ok { acts := [.retrieve readable], broadcast := some (c.token, msg), after := [] }

/-- Everything is written: the interest in writing ends. -/
def onWriteComplete : Reaction := { acts := [.disableIo .WRITABLE], broadcast := none, after := [] }

/-- A user goes, and the others are told. It is not taken out of `users`. -/
def onClose (c : TcpConnection) (peerAddr : SocketAddr) : Reaction where
  acts := []
  broadcast := some (c.token, "User(".toList ++ display peerAddr ++ ") leaving!\n".toList)
  after := []

/-- The closure of the timer. -/
def heartbeat (c : TcpConnection) (peerAddr : SocketAddr) : Reaction where
  acts := []
  broadcast := some (c.token, "heartbeat from ".toList ++ display peerAddr ++ "\n".toList)
  after := []

/-- The callback that `handle_read` ends with. -/
def readReaction (peerAddr : Except IoError SocketAddr) :
    List (Except IoError (List UInt8)) → TcpConnection → Except Fault Reaction
  | [], _ => .error .unfinished
  | outcome :: outcomes, c => do
    let (c, r) ← c.doRead outcome
    match r with
    | .ok n =>
      if n > 0 then readReaction peerAddr outcomes c
      else do
        let addr ← expect .peerAddr peerAddr
        .ok (onClose display c addr)
    | .error e =>
      if e.kind = .wouldBlock then do
        let addr ← expect .peerAddr peerAddr
        onReadComplete display c addr
      else .ok silent

variable {S : Type → Type} [Slab S]

/-- The callback in the call for a message. The chat server has no connector, so no connection
arrives connecting. -/
def messageReaction (d : Dispatcher S TimeoutQuit) (env : Env TimeoutQuit) :
    TcpConnMessage TimeoutQuit → Except Fault Reaction
  | .established .. => do
    let token ← u64Add d.offset (Slab.vacantKey d.localConnections)
    let addr ← expect .peerAddr env.peerAddr
    .ok (onEstablished display token d.localNotifier addr)
  | .writeComplete _ => .ok onWriteComplete
  | _ => .ok silent

/-- The callback in a pass of `process_timers`. The chat server has no timers that repeat. -/
def timerReaction (d : Dispatcher S TimeoutQuit) (timer : Timer S TimeoutQuit) (nowTick : Nat)
    (env : Env TimeoutQuit) : Except Fault Reaction :=
  match timer.tickTo nowTick with
  | .ok (_, some (mark, 0)) =>
    match (d.timers.lookup mark).bind fun x => d.connAt x.2.1 with
    | some c => do
      let addr ← expect .peerAddr env.peerAddr
      .ok (heartbeat display c addr)
    | none => .ok silent
  | _ => .ok silent

/-- The callback in a handler call. -/
def reaction (w : Worker S TimeoutQuit) : WorkerLabel TimeoutQuit → Except Fault Reaction
  | .event token true _ env =>
    match w.dispatcher.connAt token with
    | some c => readReaction display env.peerAddr env.reads c
    | none => .ok silent
  | .receive env =>
    match w.queue with
    | { msg := .any msg, .. } :: _ => messageReaction display w.dispatcher env msg
    | _ => .ok silent
  | .timer nowTick env => timerReaction display w.dispatcher w.timer nowTick env
  | _ => .ok silent

end UserConnection

/-- The call in which the callback does these acts. -/
def WorkerLabel.withActs {M : Type} (acts : List (Act M)) : WorkerLabel M → WorkerLabel M
  | .event token readable writable env =>
    .event token readable writable { env with acts, msgs := [] }
  | .receive env => .receive { env with acts, msgs := [] }
  | .timer nowTick env => .timer nowTick { env with acts, msgs := [] }
  | l => l

/-- The step begins a handler call. -/
def WorkerLabel.isCall {M : Type} : WorkerLabel M → Bool
  | .event .. | .receive .. | .timer .. => true
  | _ => false

/-! ### The server -/

/-- The chat server, and its workers. -/
structure Chat (S : Type → Type) (poolSize : Nat) where
  server : Server S TimeoutQuit poolSize
  users : AList fun _ : Token => Nat
  /-- The worker whose callback has the lock of `users`. -/
  holder : Option (Fin poolSize)
  /-- What the callback that is going on has still to do. -/
  mail : Fin poolSize → List Mail
  /-- The broadcasts so far, in the order of the lock. -/
  said : List Speech

/-- The steps. -/
inductive ChatLabel (poolSize : Nat) where
  /-- A step of the service's thread: it accepts, or shuts the server down. -/
  | service (l : ServerLabel TimeoutQuit poolSize)
  /-- A handler call, up to its mail. A broadcast goes through the users in this order. -/
  | call (seq : Fin poolSize) (l : WorkerLabel TimeoutQuit)
    (users : List (Sigma fun _ : Token => Nat))
  /-- The next piece of mail. -/
  | mail (seq : Fin poolSize)
  /-- The handler call enqueues its next message. -/
  | flush (seq : Fin poolSize)
  /-- The handler call does its work under the lock of `Shared`. -/
  | lock (seq : Fin poolSize)

/-- A step of the service's thread. -/
def ServerLabel.ofService {M : Type} {poolSize : Nat} : ServerLabel M poolSize → Bool
  | .worker .. => false
  | _ => true

namespace Chat
variable {S : Type → Type} [Slab S] {poolSize : Nat}

/-- The part of the step that is a step of the server. -/
def serve (s : Chat S poolSize) (l : ServerLabel TimeoutQuit poolSize)
    (next : Server S TimeoutQuit poolSize → Chat S poolSize) :
    Option (Except ServerFault (Chat S poolSize)) :=
  (s.server.exec l).map fun r => r.map next

/-- One piece of mail. -/
def deliver (s : Chat S poolSize) : Mail → Option (Chat S poolSize)
  | .notify peer msg =>
    some { s with server := { s.server with pool := s.server.pool.notify peer (.any msg) } }
  | .unlock => some { s with holder := none }
  | .insert token notifier =>
    if s.holder.isNone then some { s with users := s.users.insert token notifier } else none

/-- One step, or `none` when the step is not possible. -/
def exec (display : SocketAddr → List Char) (s : Chat S poolSize) :
    ChatLabel poolSize → Option (Except ServerFault (Chat S poolSize))
  | .service l => if l.ofService then s.serve l fun server => { s with server } else none
  | .call seq l users =>
    if l.isCall ∧ s.mail seq = [] ∧ (s.server.pool.workers seq).Idle then
      match UserConnection.reaction display (s.server.pool.workers seq) l with
      | .error f => some (.error (.fault f))
      | .ok r =>
        match r.broadcast with
        | none =>
          s.serve (.worker seq (l.withActs r.acts)) fun server =>
            { s with server, mail := Function.update s.mail seq r.after }
        | some (token, text) =>
          if s.holder.isNone ∧ users.Perm s.users.entries then
            let speech : Speech := { token, data := utf8Encode text, users }
            s.serve (.worker seq (l.withActs r.acts)) fun server =>
              { s with
                server
                holder := some seq
                mail := Function.update s.mail seq (speech.mail ++ .unlock :: r.after)
                said := s.said ++ [speech] }
          else none
    else none
  | .mail seq =>
    match s.mail seq with
    | m :: mail => ({ s with mail := Function.update s.mail seq mail }.deliver m).map .ok
    | [] => none
  | .flush seq =>
    if s.mail seq = [] then s.serve (.worker seq .flush) fun server => { s with server } else none
  | .lock seq =>
    if s.mail seq = [] then s.serve (.worker seq .lock) fun server => { s with server } else none

/-- A step that goes through. -/
def Step (display : SocketAddr → List Char) (s : Chat S poolSize) (l : ChatLabel poolSize)
    (s' : Chat S poolSize) : Prop := s.exec display l = some (.ok s')

end Chat

end Ruduo
