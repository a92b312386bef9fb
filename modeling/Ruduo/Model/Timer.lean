import Ruduo.Lib.Slab
import Ruduo.Model.Fault
import Mathlib.Data.Nat.Bitwise

/-!
# `Ruduo.Model.Timer`: the hashed timer wheel

`src/timer.rs`, function by function. A `Timer` keeps its entries in a slab. The entries of one
wheel slot form a doubly linked list: `wheel[slot]` is the key of the first one, and each entry
links to its neighbours by slab keys, with `EMPTY` for none. `tick` is the current tick, and
`next` is the key of the entry of the current slot that `tickTo` looks at next.

The clock is an argument: `now` stands for the value of `now_ms()`. The slab is a parameter of
the model (`Lib/Slab.lean`).

`tick_to` is a `while` loop. `tickToLoop` runs it with a bound on the number of passes, and
`tickTo` gives it `tickToFuel` passes.
-/

set_option autoImplicit false

namespace Ruduo

open Lib (Slab)

/-- The key that stands for "no entry", `usize::MAX`. -/
def EMPTY : Nat := u64Max

/-- The tick of an entry and its neighbours in the list of its slot. -/
structure EntryLink where
  /-- The tick at which the entry is due. -/
  tick : Nat
  /-- The key of the entry before it in the slot, or `EMPTY`. -/
  prev : Nat
  /-- The key of the entry after it in the slot, or `EMPTY`. -/
  next : Nat
  deriving DecidableEq, Repr

/-- One scheduled timeout. -/
structure Entry (T : Type) where
  token : T
  /-- The period in ms of a repeating timer, 0 for a timer that runs once. -/
  interval : Nat
  link : EntryLink
  deriving DecidableEq, Repr

/-- A new entry in front of the entry `next`. -/
def Entry.new {T : Type} (token : T) (interval tick next : Nat) : Entry T :=
  { token, interval, link := { tick, prev := EMPTY, next } }

/-- The handle of a scheduled timeout: its slab key, and its tick for the check in `clear`. -/
structure Timeout where
  key : Nat
  tick : Nat
  deriving DecidableEq, Repr

/-- What can go wrong with a timer. -/
inductive TimerErrorKind where
  | timerOverflow
  deriving DecidableEq, Repr

/-- An error, with its text. -/
structure TimerError where
  kind : TimerErrorKind
  desc : String
  deriving DecidableEq, Repr

/-- The wheel has no room. -/
def TimerError.overflow : TimerError :=
  { kind := .timerOverflow, desc := "too many timer entries" }

/-- The handle of the entry, or an error. -/
abbrev TimerResult := Except TimerError Timeout

/-- The timer wheel. -/
structure Timer (S : Type → Type) (T : Type) where
  /-- Size of each tick in ms. -/
  tickMs : Nat
  /-- The timeout entries. -/
  entries : S (Entry T)
  /-- The key of the first entry of each slot. -/
  wheel : List Nat
  /-- The time of tick 0 in ms. -/
  startMs : Nat
  /-- The current tick. -/
  tick : Nat
  /-- The next entry to possibly time out. -/
  next : Nat
  /-- Masks a tick to get its slot. -/
  mask : Nat

namespace Timer
variable {S : Type → Type} [Slab S] {T : Type}

/-- Slots and capacity are rounded up to powers of two. The capacity may not reach
`usize::MAX`. -/
def new (tickMs slots cap : Nat) : Except Fault (Timer S T) := do
  let slots ← nextPowerOfTwo slots
  let cap ← nextPowerOfTwo cap
  if cap < u64Max then
    .ok { tickMs, entries := Slab.withCapacity cap, wheel := List.replicate slots EMPTY
          startMs := 0, tick := 0, next := EMPTY, mask := slots - 1 }
  else .error .assertion

/-- Called once, when the event loop is made. -/
def setup (t : Timer S T) (now : Nat) : Timer S T := { t with startMs := now }

/-- The slot of a tick. -/
def slotFor (t : Timer S T) (tick : Nat) : Nat := tick &&& t.mask

/-- `self.wheel[slot]` -/
def wheelAt (t : Timer S T) (slot : Nat) : Except Fault Nat :=
  match t.wheel[slot]? with
  | some key => .ok key
  | none => .error .outOfRange

/-- `self.wheel[slot] = key` -/
def setWheel (t : Timer S T) (slot key : Nat) : Except Fault (Timer S T) :=
  if slot < t.wheel.length then .ok { t with wheel := t.wheel.set slot key }
  else .error .outOfRange

/-- `self.entries[key]` -/
def entryAt (t : Timer S T) (key : Nat) : Except Fault (Entry T) :=
  match Slab.get t.entries key with
  | some e => .ok e
  | none => .error .outOfRange

/-- `self.entries[key].link.prev = prev` -/
def setPrev (t : Timer S T) (key prev : Nat) : Except Fault (Timer S T) := do
  let e ← t.entryAt key
  .ok { t with entries := Slab.set t.entries key { e with link := { e.link with prev } } }

/-- `self.entries[key].link.next = next` -/
def setNext (t : Timer S T) (key next : Nat) : Except Fault (Timer S T) := do
  let e ← t.entryAt key
  .ok { t with entries := Slab.set t.entries key { e with link := { e.link with next } } }

/-- A full slab rejects the entry. Otherwise it becomes the head of the list of its slot. -/
def insert (t : Timer S T) (token : T) (tick interval : Nat) :
    Except Fault (Timer S T × TimerResult) := do
  let slot := t.slotFor tick
  let curr ← t.wheelAt slot
  if Slab.len t.entries = Slab.capacity t.entries then
    .ok (t, .error .overflow)
  else
    let key := Slab.vacantKey t.entries
    let t := { t with entries := Slab.insert t.entries (Entry.new token interval tick curr) }
    -- curr already has links
    let t ← (if curr ≠ EMPTY then t.setPrev curr key else .ok t)
    let t ← t.setWheel slot key
    .ok (t, .ok { key, tick })

/-- Take the entry with this link out of the list of its slot. The cursor moves on when it
stands on the entry. -/
def unlink (t : Timer S T) (link : EntryLink) (key : Nat) : Except Fault (Timer S T) := do
  let slot := t.slotFor link.tick
  -- first node of the slot, or a middle node
  let t ← (if link.prev = EMPTY then t.setWheel slot link.next
    else t.setNext link.prev link.next)
  -- not the last node
  if link.next ≠ EMPTY then
    let t ← t.setPrev link.next link.prev
    .ok (if key = t.next then { t with next := link.next } else t)
  else
    .ok (if key = t.next then { t with next := EMPTY } else t)

/-- Cancel a timeout. A handle whose tick is not the tick of the entry at its key is
refused. -/
def clear (t : Timer S T) (timeout : Timeout) : Except Fault (Timer S T × Bool) :=
  let refused := match Slab.get t.entries timeout.key with
    | some e => e.link.tick != timeout.tick
    | none => false
  if refused then .ok (t, false)
  else
    match Slab.tryRemove t.entries timeout.key with
    | some (e, entries) => do
      let t ← { t with entries }.unlink e.link timeout.key
      .ok (t, true)
    | none => .ok (t, false)

/-- A timeout for the time `at_`. A tick that is not after the current one is advanced by one. -/
def timeoutMsAt (t : Timer S T) (at_ interval : Nat) (token : T) :
    Except Fault (Timer S T × TimerResult) := do
  let at_ ← u64Sub at_ t.startMs
  let sum ← u64Add at_ t.tickMs
  let sum ← u64Sub sum 1
  let tick ← u64Div sum t.tickMs
  -- always advance 1 tick
  let tick ← (if tick ≤ t.tick then u64Add tick 1 else .ok tick)
  t.insert token tick interval

/-- A timeout in `delay` from now. -/
def timeoutMs (t : Timer S T) (now delay interval : Nat) (token : T) :
    Except Fault (Timer S T × TimerResult) := do
  let at_ ← u64Add now (max 0 delay)
  t.timeoutMsAt at_ interval token

/-- The tick of a time. -/
def msToTick (t : Timer S T) (ms : Nat) : Except Fault Nat := do
  let d ← u64Sub ms t.startMs
  u64Div d t.tickMs

/-- The tick of the clock. -/
def nowTick (t : Timer S T) (now : Nat) : Except Fault Nat := t.msToTick now

/-- The passes of the `while` loop of `tick_to`. An empty cursor advances the tick and loads
the head of the next slot. Otherwise the entry under the cursor fires when its tick has come,
and is passed over when it belongs to a later revolution. -/
def tickToLoop (nowTick : Nat) : Nat → Timer S T → Except Fault (Timer S T × Option (T × Nat))
  | 0, _ => .error .unfinished
  | fuel + 1, t =>
    if t.tick ≤ nowTick then
      let curr := t.next
      if curr = EMPTY then do
        let tick ← u64Add t.tick 1
        let head ← t.wheelAt (t.slotFor tick)
        tickToLoop nowTick fuel { t with tick, next := head }
      else do
        let e ← t.entryAt curr
        if e.link.tick ≤ t.tick then
          -- trigger current link
          let t ← t.unlink e.link curr
          match Slab.tryRemove t.entries curr with
          | some (entry, entries) =>
            .ok ({ t with entries }, some (entry.token, entry.interval))
          | none => .error .outOfRange
        else
          -- link not order by time, so need to iter all links
          tickToLoop nowTick fuel { t with next := e.link.next }
    else .ok (t, none)

/-- A bound on the passes of the loop: each tick up to `nowTick` walks at most the live
entries. -/
def tickToFuel (t : Timer S T) (nowTick : Nat) : Nat :=
  (nowTick + 2 - t.tick) * (Slab.len t.entries + 1) + 1

/-- The next entry that is due up to the tick `nowTick`, or none. -/
def tickTo (t : Timer S T) (nowTick : Nat) : Except Fault (Timer S T × Option (T × Nat)) :=
  tickToLoop nowTick (t.tickToFuel nowTick) t

/-- Number of ms remaining until the next tick. -/
def nextTickInMs (t : Timer S T) (now : Nat) : Except Fault (Option Nat) := do
  if Slab.len t.entries = 0 then
    .ok none
  else
    let tick ← u64Add t.tick 1
    let ms ← u64Mul tick t.tickMs
    let nxt ← u64Add t.startMs ms
    if nxt ≤ now then .ok (some 0) else .ok (some (nxt - now))

end Timer

end Ruduo
