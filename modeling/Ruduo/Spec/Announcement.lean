import Ruduo.Spec.Writing

/-!
# `Ruduo.Spec.Announcement`: bytes received, and what the application hears of them

`handle_read` reads until the socket has something else than bytes. The bytes go to `input`, and
`on_read_complete` tells the application that they are there. `ReadContract` says of a run of
reads that each of them adds what it received to `input`, and that all of it was announced by
the time the connection is closed.
-/

set_option autoImplicit false

namespace Ruduo

open Lib (Run Each)

/-- The bytes that a read takes from the socket. -/
def received : List (Except IoError (List UInt8)) → List UInt8
  | .ok (b :: bs) :: outcomes => (b :: bs).take K_READ_BUF_SIZE ++ received outcomes
  | _ => []

/-- The read ends because the socket has no more bytes for now. -/
def announces : List (Except IoError (List UInt8)) → Bool
  | .ok (_ :: _) :: outcomes => announces outcomes
  | .error e :: _ => decide (e.kind = .wouldBlock)
  | _ => false

/-- A call of `handle_read`: what the socket answers, what `on_read_complete` does, and what
`on_close` notifies. -/
structure ReadCall (M : Type) where
  outcomes : List (Except IoError (List UInt8))
  as : List (Act M)
  closing : List (TcpConnMessage M)

/-- How many bytes a callback takes out of `input`. -/
def retrieved {M : Type} (as : List (Act M)) : Nat :=
  (as.map fun a => match a with
    | .retrieve size => size
    | _ => 0).sum

/-- How many bytes the callback of the call takes out of `input`. -/
def ReadCall.retrieved {M : Type} (l : ReadCall M) : Nat :=
  if announces l.outcomes then Ruduo.retrieved l.as else 0

namespace Session
variable {M : Type}

/-- A read that returned. -/
def ReadStep (s : Session M) (l : ReadCall M) (s' : Session M) : Prop :=
  s.handleRead l.outcomes l.as l.closing = .ok s'

/-- What happened to the connection since `s`. -/
def since (s s' : Session M) : List ConnEvent := s'.conn.log.drop s.conn.log.length

/-- Each read adds what it received to `input`, and only the callback takes bytes out. -/
def KeepsBytes (s₀ : Session M) (ls : List (ReadCall M)) : Prop :=
  Each ReadStep (fun s l s' => ∀ bytes, s.conn.input.peek = .ok bytes →
    s'.conn.input.peek = .ok ((bytes ++ received l.outcomes).drop l.retrieved)) s₀ ls

/-- When a read calls `on_close`, every read up to this one that received bytes has been followed
by a call of `on_read_complete`. -/
def AnnouncesBeforeClose (s₀ : Session M) (ls : List (ReadCall M)) : Prop :=
  ∀ ls₁ l ls₂ s s', ls = ls₁ ++ l :: ls₂ → Run ReadStep s₀ ls₁ s → ReadStep s l s' →
    .closed ∈ s.since s' →
      ∀ ms₁ m ms₂ t, ls₁ ++ [l] = ms₁ ++ m :: ms₂ → Run ReadStep s₀ ms₁ t →
        received m.outcomes ≠ [] → .readComplete ∈ t.since s'

/-- What a run of reads promises. -/
def ReadContract (s₀ : Session M) (ls : List (ReadCall M)) : Prop :=
  KeepsBytes s₀ ls ∧ AnnouncesBeforeClose s₀ ls

end Session

/-- The end of the stream is met alone: the read that meets it receives nothing, and since each
earlier read that received bytes one has ended because the socket had no more. -/
def EofComesAlone {M : Type} (ls : List (ReadCall M)) : Prop :=
  ∀ ls₁ l ls₂, ls = ls₁ ++ l :: ls₂ → meetsEof l.outcomes = true →
    received l.outcomes = [] ∧
      ∀ ms₁ m ms₂, ls₁ = ms₁ ++ m :: ms₂ → received m.outcomes ≠ [] →
        ∃ k ∈ m :: ms₂, announces k.outcomes = true

end Ruduo
