import Mathlib.Data.List.Basic

/-!
# `Ruduo.Lib.Utf8`: UTF-8 and its lossy decoder

A text is the list of its Unicode scalar values, and `utf8Encode` its bytes. `fromUtf8Lossy` decodes
any bytes. A sequence of bytes that begins a character and is not continued, and a byte that begins
none, give one U+FFFD each.

The decoder is a machine that reads one byte after the other. Inside a character it owes a number of
continuation bytes. The window of the next one is smaller behind `E0`, `ED`, `F0` and `F4`, which
excludes overlong sequences, surrogates and values above U+10FFFF.

* `fromUtf8Lossy_encode`: an encoded text is decoded to itself.
* `fromUtf8Lossy_part`: what a part of the bytes of a character is decoded to.
* `flatMap_fromUtf8Lossy_iff`: decoded in pieces, an encoded text comes out right exactly when it
  was cut between characters.
-/

set_option autoImplicit false

namespace Ruduo.Lib

/-- U+FFFD -/
def replacement : Char := '\uFFFD'

/-- The bytes of a text. -/
def utf8Encode (text : List Char) : List UInt8 := text.flatMap String.utf8EncodeChar

/-- The empty text has no bytes. -/
@[simp] theorem utf8Encode_nil : utf8Encode [] = [] := rfl

/-- The bytes of the first character come first. -/
@[simp] theorem utf8Encode_cons (c : Char) (text : List Char) :
    utf8Encode (c :: text) = String.utf8EncodeChar c ++ utf8Encode text := rfl

/-- The bytes of two texts in sequence. -/
@[simp] theorem utf8Encode_append (text text' : List Char) :
    utf8Encode (text ++ text') = utf8Encode text ++ utf8Encode text' := List.flatMap_append

/-- Which continuation bytes may come next. -/
structure Window where
  low : Nat
  high : Nat
  le_low : 0x80 ≤ low
  high_le : high ≤ 0xBF

/-- Every continuation byte. -/
def Window.full : Window := ⟨0x80, 0xBF, by decide, by decide⟩

/-- The byte is in the window. -/
def Window.Admits (w : Window) (b : UInt8) : Prop := w.low ≤ b.toNat ∧ b.toNat ≤ w.high

/-- Whether a window admits a byte can be computed. -/
instance (w : Window) (b : UInt8) : Decidable (w.Admits b) := inferInstanceAs (Decidable (_ ∧ _))

/-- Where the decoder stands between two bytes. -/
inductive Utf8State where
  | start
  /-- Inside a character: `owed + 1` bytes are to come, and `value` is made of those read. -/
  | inside (owed : Nat) (w : Window) (value : Nat)

/-- The first byte of a character. -/
def utf8First (b : UInt8) : List Char × Utf8State :=
  let n := b.toNat
  if n < 0x80 then ([Char.ofNat n], .start)
  else if n < 0xC2 then ([replacement], .start)
  else if n < 0xE0 then ([], .inside 0 .full (n - 0xC0))
  else if n = 0xE0 then ([], .inside 1 ⟨0xA0, 0xBF, by decide, by decide⟩ 0)
  else if n = 0xED then ([], .inside 1 ⟨0x80, 0x9F, by decide, by decide⟩ 0xD)
  else if n < 0xF0 then ([], .inside 1 .full (n - 0xE0))
  else if n = 0xF0 then ([], .inside 2 ⟨0x90, 0xBF, by decide, by decide⟩ 0)
  else if n < 0xF4 then ([], .inside 2 .full (n - 0xF0))
  else if n = 0xF4 then ([], .inside 2 ⟨0x80, 0x8F, by decide, by decide⟩ 4)
  else ([replacement], .start)

/-- The characters that a byte completes, and where the decoder stands then. -/
def utf8Step : Utf8State → UInt8 → List Char × Utf8State
  | .start, b => utf8First b
  | .inside owed w value, b =>
    if w.Admits b then
      let value := value * 64 + b.toNat % 64
      match owed with
      | 0 => ([Char.ofNat value], .start)
      | owed + 1 => ([], .inside owed .full value)
    else
      -- The character breaks off, and the byte begins another one.
      (replacement :: (utf8First b).1, (utf8First b).2)

/-- The characters that some bytes complete, and where the decoder stands then. -/
def utf8Run : Utf8State → List UInt8 → List Char × Utf8State
  | s, [] => ([], s)
  | s, b :: bytes =>
    let (text, s) := utf8Step s b
    let (text', s) := utf8Run s bytes
    (text ++ text', s)

/-- A character that is not complete at the end of the bytes. -/
def Utf8State.finish : Utf8State → List Char
  | .start => []
  | .inside _ _ _ => [replacement]

/-- What is decoded from a state on. -/
def utf8From (s : Utf8State) (bytes : List UInt8) : List Char :=
  (utf8Run s bytes).1 ++ (utf8Run s bytes).2.finish

/-- Decode any bytes. -/
def fromUtf8Lossy (bytes : List UInt8) : List Char := utf8From .start bytes

/-! ### The machine -/

section
variable {s : Utf8State} {p q bytes : List UInt8} {b : UInt8} {w : Window} {owed value : Nat}

/-- Without input the decoder puts out nothing and stays where it is. -/
@[simp] theorem utf8Run_nil (s : Utf8State) : utf8Run s [] = ([], s) := rfl

/-- The first byte is one step of the decoder. -/
theorem utf8Run_cons (s : Utf8State) (b : UInt8) (bytes : List UInt8) : utf8Run s (b :: bytes) =
    ((utf8Step s b).1 ++ (utf8Run (utf8Step s b).2 bytes).1,
      (utf8Run (utf8Step s b).2 bytes).2) := rfl

/-- The decoder reads two inputs in sequence from the state that the first one leaves. -/
theorem utf8Run_append (p q : List UInt8) : ∀ s, utf8Run s (p ++ q) =
    ((utf8Run s p).1 ++ (utf8Run (utf8Run s p).2 q).1, (utf8Run (utf8Run s p).2 q).2) := by
  induction p with
  | nil => exact fun _ => rfl
  | cons b p ih =>
    intro s
    simp only [List.cons_append, utf8Run_cons, ih, List.append_assoc]

/-- Decoding goes on where the first part ends. -/
theorem utf8From_append (s : Utf8State) (p q : List UInt8) :
    utf8From s (p ++ q) = (utf8Run s p).1 ++ utf8From (utf8Run s p).2 q := by
  simp only [utf8From, utf8Run_append, List.append_assoc]

/-- The first byte of the rest is one step of the decoder. -/
theorem utf8From_cons (s : Utf8State) (b : UInt8) (bytes : List UInt8) :
    utf8From s (b :: bytes) = (utf8Step s b).1 ++ utf8From (utf8Step s b).2 bytes := by
  simp only [utf8From, utf8Run_cons, List.append_assoc]

/-- A continuation byte begins no character. -/
private theorem utf8First_of_admits (h : w.Admits b) : utf8First b = ([replacement], .start) := by
  have hlow := w.le_low
  have hhigh := w.high_le
  obtain ⟨hle, hge⟩ := h
  rw [utf8First, if_neg (by omega), if_pos (by omega)]

/-- The first byte is in the window, and all others are continuation bytes. -/
def Window.Continues (w : Window) : List UInt8 → Prop
  | [] => True
  | b :: bytes => w.Admits b ∧ Window.full.Continues bytes

/-- The bits of continuation bytes behind those of `value`. -/
def tailValue : Nat → List UInt8 → Nat
  | value, [] => value
  | value, b :: bytes => tailValue (value * 64 + b.toNat % 64) bytes

/-- The last byte of a character. -/
private theorem utf8Step_last (h : w.Admits b) :
    utf8Step (.inside 0 w value) b = ([Char.ofNat (value * 64 + b.toNat % 64)], .start) := by
  rw [utf8Step, if_pos h]

/-- A byte that is not the last one. -/
private theorem utf8Step_inside (h : w.Admits b) : utf8Step (.inside (owed + 1) w value) b =
    ([], .inside owed .full (value * 64 + b.toNat % 64)) := by
  rw [utf8Step, if_pos h]

/-- A byte outside of the window. -/
private theorem utf8Step_breaks (h : ¬ w.Admits b) : utf8Step (.inside owed w value) b =
    (replacement :: (utf8First b).1, (utf8First b).2) := by
  rw [utf8Step, if_neg h]

/-- A character is complete with its last byte. -/
private theorem utf8Run_tail : ∀ {bytes : List UInt8} {owed : Nat} {w : Window} {value : Nat},
    w.Continues bytes → bytes.length = owed + 1 →
      utf8Run (.inside owed w value) bytes = ([Char.ofNat (tailValue value bytes)], .start) := by
  intro bytes
  induction bytes with
  | nil => intro owed w value _ hlen; cases hlen
  | cons b bytes ih =>
    rintro owed w value ⟨hb, hbytes⟩ hlen
    cases owed with
    | zero =>
      obtain rfl : bytes = [] := by simpa using hlen
      rw [utf8Run_cons, utf8Step_last hb]
      rfl
    | succ owed =>
      rw [utf8Run_cons, utf8Step_inside hb, ih hbytes (Nat.succ.inj hlen), tailValue,
        List.nil_append]

/-- Before its last byte it is not. -/
private theorem utf8Run_inside : ∀ {bytes : List UInt8} {owed : Nat} {w : Window} (value : Nat),
    w.Continues bytes → bytes.length ≤ owed →
      ∃ owed' w' value', utf8Run (.inside owed w value) bytes = ([], .inside owed' w' value') := by
  intro bytes
  induction bytes with
  | nil => intro owed w value _ _; exact ⟨owed, w, value, rfl⟩
  | cons b bytes ih =>
    rintro owed w value ⟨hb, hbytes⟩ hlen
    cases owed with
    | zero => cases hlen
    | succ owed =>
      rw [utf8Run_cons, utf8Step_inside hb]
      exact ih _ hbytes (Nat.le_of_succ_le_succ hlen)

/-- On their own, continuation bytes are decoded to one U+FFFD each. -/
theorem utf8Run_continues : ∀ {bytes : List UInt8} {w : Window}, w.Continues bytes →
    utf8Run .start bytes = (List.replicate bytes.length replacement, .start) := by
  intro bytes
  induction bytes with
  | nil => exact fun _ => rfl
  | cons b bytes ih =>
    rintro w ⟨hb, hbytes⟩
    rw [utf8Run_cons, utf8Step, utf8First_of_admits hb, ih hbytes]
    rfl

/-! ### Characters -/

/-- The continuation byte with these six bits. -/
theorem toNat_tailByte (x : Nat) : (UInt8.ofNat (x % 64 + 128)).toNat = x % 64 + 128 :=
  UInt8.toNat_ofNat_of_lt (by have : UInt8.size = 256 := rfl; omega)

/-- A continuation byte is in the full window. -/
theorem full_admits_tailByte (x : Nat) : Window.full.Admits (UInt8.ofNat (x % 64 + 128)) := by
  unfold Window.Admits
  rw [toNat_tailByte]
  exact ⟨Nat.le_add_left _ _, by show x % 64 + 128 ≤ 191; omega⟩

/-- The first byte, by its value. -/
theorem utf8First_ofNat {n : Nat} (hn : n < 256) : utf8First (UInt8.ofNat n) =
    if n < 0x80 then ([Char.ofNat n], .start)
    else if n < 0xC2 then ([replacement], .start)
    else if n < 0xE0 then ([], .inside 0 .full (n - 0xC0))
    else if n = 0xE0 then ([], .inside 1 ⟨0xA0, 0xBF, by decide, by decide⟩ 0)
    else if n = 0xED then ([], .inside 1 ⟨0x80, 0x9F, by decide, by decide⟩ 0xD)
    else if n < 0xF0 then ([], .inside 1 .full (n - 0xE0))
    else if n = 0xF0 then ([], .inside 2 ⟨0x90, 0xBF, by decide, by decide⟩ 0)
    else if n < 0xF4 then ([], .inside 2 .full (n - 0xF0))
    else if n = 0xF4 then ([], .inside 2 ⟨0x80, 0x8F, by decide, by decide⟩ 4)
    else ([replacement], .start) := by
  have htoNat : (UInt8.ofNat n).toNat = n := UInt8.toNat_ofNat_of_lt hn
  simp only [utf8First, htoNat]

/-- The two continuation bytes of a character of three bytes. -/
private theorem utf8First_three {v : Nat} (hlow : 0x7FF < v) (hhigh : v ≤ 0xFFFF)
    (hvalid : v < 0xD800 ∨ 0xDFFF < v) :
    ∃ w, utf8First (UInt8.ofNat (v / 4096 % 16 + 224)) = ([], .inside 1 w (v / 4096)) ∧
      w.Admits (UInt8.ofNat (v / 64 % 64 + 128)) := by
  have hn : v / 4096 % 16 + 224 < 256 := by omega
  rw [utf8First_ofNat hn, if_neg (by omega), if_neg (by omega), if_neg (by omega)]
  unfold Window.Admits
  simp only [toNat_tailByte]
  -- The window depends on the first byte: `E0`, `ED`, or another one.
  split
  · have hv : v / 4096 = 0 := by omega
    refine ⟨_, by rw [hv], ?_⟩
    dsimp only
    omega
  · split
    · have hv : v / 4096 = 0xD := by omega
      refine ⟨_, by rw [hv], ?_⟩
      dsimp only
      omega
    · have hv : v / 4096 % 16 + 224 - 0xE0 = v / 4096 := by omega
      rw [if_pos (by omega), hv]
      refine ⟨_, rfl, ?_⟩
      dsimp only [Window.full]
      omega

/-- The first two bytes of a character of four bytes. -/
private theorem utf8First_four {v : Nat} (hlow : 0xFFFF < v) (hhigh : v < 0x110000) :
    ∃ w, utf8First (UInt8.ofNat (v / 262144 % 8 + 240)) = ([], .inside 2 w (v / 262144)) ∧
      w.Admits (UInt8.ofNat (v / 4096 % 64 + 128)) := by
  have hn : v / 262144 % 8 + 240 < 256 := by omega
  rw [utf8First_ofNat hn, if_neg (by omega), if_neg (by omega), if_neg (by omega),
    if_neg (by omega), if_neg (by omega), if_neg (by omega)]
  unfold Window.Admits
  simp only [toNat_tailByte]
  -- The window depends on the first byte: `F0`, `F4`, or another one.
  split
  · have hv : v / 262144 = 0 := by omega
    refine ⟨_, by rw [hv], ?_⟩
    dsimp only
    omega
  · split
    · have hv : v / 262144 % 8 + 240 - 0xF0 = v / 262144 := by omega
      rw [hv]
      refine ⟨_, rfl, ?_⟩
      dsimp only [Window.full]
      omega
    · have hv : v / 262144 = 4 := by omega
      rw [if_pos (by omega)]
      refine ⟨_, by rw [hv], ?_⟩
      dsimp only
      omega

/-- An encoded character is one byte, or a first byte and a tail that completes the character. -/
theorem encodeChar_cases (c : Char) :
    (∃ b, String.utf8EncodeChar c = [b] ∧ utf8First b = ([c], .start)) ∨
    ∃ b tail owed w value, String.utf8EncodeChar c = b :: tail ∧
      utf8First b = ([], .inside owed w value) ∧ tail.length = owed + 1 ∧ w.Continues tail ∧
      Char.ofNat (tailValue value tail) = c := by
  have hvalid : c.val.toNat < 0xD800 ∨ 0xDFFF < c.val.toNat ∧ c.val.toNat < 0x110000 := c.valid
  have hofNat : Char.ofNat c.val.toNat = c := Char.ofNat_toNat c
  unfold String.utf8EncodeChar
  generalize c.val.toNat = v at hvalid hofNat
  dsimp only
  split
  · refine Or.inl ⟨_, rfl, ?_⟩
    rw [utf8First_ofNat (by omega), if_pos (by omega), hofNat]
  · right
    split
    · refine ⟨_, _, 0, .full, v / 64, rfl, ?_, rfl, ⟨full_admits_tailByte v, trivial⟩, ?_⟩
      · rw [utf8First_ofNat (by omega), if_neg (by omega), if_neg (by omega), if_pos (by omega)]
        have hv : v / 64 % 32 + 192 - 0xC0 = v / 64 := by omega
        rw [hv]
      · have hv : v / 64 * 64 + (v % 64 + 128) % 64 = v := by omega
        rw [tailValue, tailValue, toNat_tailByte, hv, hofNat]
    · split
      · obtain ⟨w, hfirst, hadmits⟩ := utf8First_three (v := v) (by omega) (by omega) (by omega)
        refine ⟨_, _, 1, w, v / 4096, rfl, hfirst, rfl,
          ⟨hadmits, full_admits_tailByte v, trivial⟩, ?_⟩
        have hv : (v / 4096 * 64 + (v / 64 % 64 + 128) % 64) * 64 + (v % 64 + 128) % 64 = v := by
          omega
        rw [tailValue, tailValue, tailValue, toNat_tailByte, toNat_tailByte, hv, hofNat]
      · obtain ⟨w, hfirst, hadmits⟩ := utf8First_four (v := v) (by omega) (by omega)
        refine ⟨_, _, 2, w, v / 262144, rfl, hfirst, rfl,
          ⟨hadmits, full_admits_tailByte (v / 64), full_admits_tailByte v, trivial⟩, ?_⟩
        have hv : ((v / 262144 * 64 + (v / 4096 % 64 + 128) % 64) * 64
            + (v / 64 % 64 + 128) % 64) * 64 + (v % 64 + 128) % 64 = v := by omega
        rw [tailValue, tailValue, tailValue, tailValue, toNat_tailByte, toNat_tailByte,
          toNat_tailByte, hv, hofNat]

/-- An encoded character is decoded. -/
theorem utf8Run_encodeChar (c : Char) :
    utf8Run .start (String.utf8EncodeChar c) = ([c], .start) := by
  rcases encodeChar_cases c with ⟨b, hbytes, hfirst⟩ |
    ⟨b, tail, owed, w, value, hbytes, hfirst, hlen, htail, hchar⟩
  · rw [hbytes, utf8Run_cons, utf8Step, hfirst]
    rfl
  · rw [hbytes, utf8Run_cons, utf8Step, hfirst, utf8Run_tail htail hlen, hchar, List.nil_append]

/-- What continues a character can be cut: the first part continues it, and the second part
continues what is open then. -/
theorem Window.Continues.split : ∀ {w : Window} (p : List UInt8), w.Continues (p ++ q) →
    w.Continues p ∧ ∃ w' : Window, w'.Continues q := by
  intro w p
  induction p generalizing w with
  | nil => exact fun h => ⟨trivial, w, h⟩
  | cons b p ih =>
    rintro ⟨hb, hrest⟩
    obtain ⟨hp, hq⟩ := ih hrest
    exact ⟨⟨hb, hp⟩, hq⟩

/-- A character that was cut in two. -/
theorem encodeChar_cut {c : Char} (hcut : p ++ q = String.utf8EncodeChar c) (hp : p ≠ [])
    (hq : q ≠ []) :
    (∃ owed w value, utf8Run .start p = ([], .inside owed w value)) ∧
      ∃ w : Window, w.Continues q := by
  obtain ⟨b', p, rfl⟩ := List.exists_cons_of_ne_nil hp
  rcases encodeChar_cases c with ⟨b, hbytes, -⟩ |
    ⟨b, tail, owed, w, value, hbytes, hfirst, hlen, htail, -⟩
  · -- There is only one byte.
    rw [hbytes, List.cons_append] at hcut
    obtain ⟨-, hnil⟩ := List.cons.inj hcut
    exact absurd (List.append_eq_nil_iff.mp hnil).2 hq
  · rw [hbytes, List.cons_append] at hcut
    obtain ⟨rfl, rfl⟩ := List.cons.inj hcut
    obtain ⟨hcontinues, hrest⟩ := htail.split p
    have hshort : p.length ≤ owed := by
      have hpos := List.length_pos_of_ne_nil hq
      rw [List.length_append] at hlen
      omega
    obtain ⟨owed', w', value', hrun⟩ := utf8Run_inside value hcontinues hshort
    refine ⟨⟨owed', w', value', ?_⟩, hrest⟩
    rw [utf8Run_cons, utf8Step, hfirst, hrun, List.nil_append]

end

/-! ### Texts -/

section
variable {p q bytes : List UInt8} {text : List Char}

/-- The decoder gives an encoded text back, and is between two characters afterwards. -/
theorem utf8Run_encode (text : List Char) : utf8Run .start (utf8Encode text) = (text, .start) := by
  induction text with
  | nil => rfl
  | cons c text ih => rw [utf8Encode_cons, utf8Run_append, utf8Run_encodeChar, ih]; rfl

/-- An encoded text in front is decoded to itself. -/
theorem fromUtf8Lossy_encode_append (text : List Char) (bytes : List UInt8) :
    fromUtf8Lossy (utf8Encode text ++ bytes) = text ++ fromUtf8Lossy bytes := by
  rw [fromUtf8Lossy, utf8From_append, utf8Run_encode]
  rfl

/-- An encoded text is decoded to itself. -/
theorem fromUtf8Lossy_encode (text : List Char) : fromUtf8Lossy (utf8Encode text) = text := by
  have happend := fromUtf8Lossy_encode_append text []
  rwa [List.append_nil, show fromUtf8Lossy [] = [] from rfl, List.append_nil] at happend

/-- Different texts have different bytes. -/
theorem utf8Encode_injective : Function.Injective utf8Encode := fun text text' h => by
  rw [← fromUtf8Lossy_encode text, h, fromUtf8Lossy_encode]

/-- Where the bytes of a text are cut: between two characters, or inside of one. -/
theorem prefix_cases (hcut : p ++ q = utf8Encode text) :
    (∃ text₁ text₂, text = text₁ ++ text₂ ∧ p = utf8Encode text₁ ∧ q = utf8Encode text₂) ∨
    ∃ text₁ c text₂ part rest, text = text₁ ++ c :: text₂ ∧ p = utf8Encode text₁ ++ part ∧
      q = rest ++ utf8Encode text₂ ∧ part ++ rest = String.utf8EncodeChar c ∧ part ≠ [] ∧
      rest ≠ [] := by
  induction text generalizing p with
  | nil =>
    obtain ⟨rfl, rfl⟩ := List.append_eq_nil_iff.mp hcut
    exact Or.inl ⟨[], [], rfl, rfl, rfl⟩
  | cons c text ih =>
    rw [utf8Encode_cons] at hcut
    rcases List.append_eq_append_iff.mp hcut with ⟨rest, hchar, rfl⟩ | ⟨p', rfl, htext⟩
    · by_cases hp : p = []
      · subst hp
        exact Or.inl ⟨[], c :: text, rfl, rfl, by rw [utf8Encode_cons, hchar]; rfl⟩
      · by_cases hrest : rest = []
        · subst hrest
          rw [List.append_nil] at hchar
          exact Or.inl ⟨[c], text, rfl, by simp [hchar], rfl⟩
        · exact Or.inr ⟨[], c, text, p, rest, rfl, rfl, rfl, hchar.symm, hp, hrest⟩
    · rcases ih htext.symm with ⟨text₁, text₂, rfl, rfl, rfl⟩ |
        ⟨text₁, c', text₂, part, rest, rfl, rfl, rfl, hchar, hpart, hrest⟩
      · exact Or.inl ⟨c :: text₁, text₂, rfl, rfl, rfl⟩
      · exact Or.inr ⟨c :: text₁, c', text₂, part, rest, rfl, by simp, rfl, hchar, hpart, hrest⟩

/-- A part of a character in front of nothing is decoded to one U+FFFD. -/
theorem fromUtf8Lossy_part {c : Char} {part rest : List UInt8}
    (hchar : part ++ rest = String.utf8EncodeChar c) (hpart : part ≠ []) (hrest : rest ≠ []) :
    fromUtf8Lossy part = [replacement] := by
  obtain ⟨⟨owed, w, value, hrun⟩, -⟩ := encodeChar_cut hchar hpart hrest
  rw [fromUtf8Lossy, utf8From, hrun]
  rfl

/-- The rest of a character gives one U+FFFD for each byte. -/
theorem fromUtf8Lossy_rest {c : Char} {part rest : List UInt8}
    (hchar : part ++ rest = String.utf8EncodeChar c) (hpart : part ≠ []) (hrest : rest ≠ [])
    (bytes : List UInt8) : fromUtf8Lossy (rest ++ bytes) =
      List.replicate rest.length replacement ++ fromUtf8Lossy bytes := by
  obtain ⟨-, w, hcontinues⟩ := encodeChar_cut hchar hpart hrest
  rw [fromUtf8Lossy, utf8From_append, utf8Run_continues hcontinues]
  rfl

/-! ### Decoding in pieces -/

/-- Inside a character at most one character more comes out. -/
private theorem length_utf8From_le : ∀ {bytes : List UInt8} {owed : Nat} {w : Window} {value : Nat},
    (utf8From (.inside owed w value) bytes).length ≤ (fromUtf8Lossy bytes).length + 1 := by
  intro bytes
  induction bytes with
  | nil => exact fun {_ _ _} => Nat.le_refl 1
  | cons b bytes ih =>
    intro owed w value
    by_cases hb : w.Admits b
    · have hstart : fromUtf8Lossy (b :: bytes) = replacement :: fromUtf8Lossy bytes := by
        rw [fromUtf8Lossy, utf8From_cons, utf8Step, utf8First_of_admits hb]
        rfl
      rw [utf8From_cons, hstart, List.length_cons]
      cases owed with
      | zero =>
        rw [utf8Step_last hb]
        exact Nat.le_succ _
      | succ owed =>
        rw [utf8Step_inside hb]
        exact Nat.le_succ_of_le ih
    · -- The byte is read as the first one of a character.
      rw [fromUtf8Lossy, utf8From_cons, utf8From_cons, utf8Step_breaks hb]
      exact Nat.le_refl _

/-- A cut does not lose characters. -/
private theorem length_fromUtf8Lossy_append_le (p q : List UInt8) :
    (fromUtf8Lossy (p ++ q)).length ≤ (fromUtf8Lossy p).length + (fromUtf8Lossy q).length := by
  have hp : fromUtf8Lossy p = (utf8Run .start p).1 ++ (utf8Run .start p).2.finish := rfl
  rw [fromUtf8Lossy, utf8From_append, hp, List.length_append, List.length_append]
  cases (utf8Run .start p).2 with
  | start => exact Nat.le_refl _
  | inside owed w value =>
    have hle : (utf8From (.inside owed w value) q).length ≤ (fromUtf8Lossy q).length + 1 :=
      length_utf8From_le
    show _ ≤ _ + 1 + _
    omega

/-- Decoding in pieces never gives less characters than decoding at once. -/
theorem length_flatMap_fromUtf8Lossy (pieces : List (List UInt8)) :
    (fromUtf8Lossy pieces.flatten).length ≤ (pieces.flatMap fromUtf8Lossy).length := by
  induction pieces with
  | nil => exact Nat.le_refl 0
  | cons p pieces ih =>
    rw [List.flatten_cons, List.flatMap_cons, List.length_append]
    exact Nat.le_trans (length_fromUtf8Lossy_append_le p _) (Nat.add_le_add_left ih _)

/-- What follows an encoded text in an encoded text is one. -/
theorem exists_of_encode_append {text₁ : List Char} (h : utf8Encode text₁ ++ q = utf8Encode text) :
    ∃ text₂, text = text₁ ++ text₂ ∧ q = utf8Encode text₂ := by
  rcases prefix_cases h with ⟨text₁', text₂, rfl, heq, rfl⟩ |
    ⟨text₁', c, text₂, part, rest, -, heq, -, hchar, hpart, hrest⟩
  · obtain rfl := utf8Encode_injective heq
    exact ⟨text₂, rfl, rfl⟩
  · -- The decoder would stand inside of a character.
    obtain ⟨⟨owed, w, value, hrun⟩, -⟩ := encodeChar_cut hchar hpart hrest
    have hstart := utf8Run_encode text₁
    rw [heq, utf8Run_append, utf8Run_encode, hrun] at hstart
    cases (Prod.mk.inj hstart).2

/-- The pieces of a text were cut between characters. -/
def CutsBetween (pieces : List (List UInt8)) : Prop :=
  ∀ pieces₁ pieces₂, pieces = pieces₁ ++ pieces₂ → ∃ text, pieces₁.flatten = utf8Encode text

/-- Pieces that were cut between characters are decoded to the text. -/
theorem CutsBetween.flatMap_fromUtf8Lossy {pieces : List (List UInt8)} (h : CutsBetween pieces) :
    ∀ {text : List Char}, pieces.flatten = utf8Encode text →
      pieces.flatMap fromUtf8Lossy = text := by
  induction pieces with
  | nil => exact fun {text} htext => utf8Encode_injective htext
  | cons p pieces ih =>
    intro text htext
    obtain ⟨text₁, hp⟩ := h [p] pieces rfl
    rw [List.flatten_singleton] at hp
    subst hp
    obtain ⟨text₂, rfl, hrest⟩ := exists_of_encode_append htext
    have hcuts : CutsBetween pieces := by
      rintro pieces₁ pieces₂ rfl
      obtain ⟨text, hflat⟩ := h (utf8Encode text₁ :: pieces₁) pieces₂ rfl
      obtain ⟨text', -, hflat'⟩ := exists_of_encode_append hflat
      exact ⟨text', hflat'⟩
    rw [List.flatMap_cons, fromUtf8Lossy_encode, ih hcuts hrest]

/-- A cut inside of a character gives more characters. -/
theorem length_lt_of_not_cutsBetween {pieces : List (List UInt8)}
    (hpieces : pieces.flatten = utf8Encode text) (h : ¬ CutsBetween pieces) :
    text.length < (pieces.flatMap fromUtf8Lossy).length := by
  unfold CutsBetween at h
  push Not at h
  obtain ⟨pieces₁, pieces₂, rfl, hinside⟩ := h
  rw [List.flatten_append] at hpieces
  rcases prefix_cases hpieces with ⟨text₁, text₂, -, heq, -⟩ |
    ⟨text₁, c, text₂, part, rest, rfl, hfirst, hsecond, hchar, hpart, hrest⟩
  · exact absurd heq (hinside text₁)
  · have hlen₁ := length_flatMap_fromUtf8Lossy pieces₁
    have hlen₂ := length_flatMap_fromUtf8Lossy pieces₂
    rw [hfirst, fromUtf8Lossy_encode_append, fromUtf8Lossy_part hchar hpart hrest] at hlen₁
    rw [hsecond, fromUtf8Lossy_rest hchar hpart hrest, fromUtf8Lossy_encode] at hlen₂
    have hpos := List.length_pos_of_ne_nil hrest
    simp only [List.length_append, List.length_cons, List.length_nil, List.length_replicate,
      List.flatMap_append] at hlen₁ hlen₂ ⊢
    omega

/-- **Decoding in pieces.** An encoded text that comes in pieces is decoded to the text exactly when
it was cut between characters. -/
theorem flatMap_fromUtf8Lossy_iff {pieces : List (List UInt8)}
    (hpieces : pieces.flatten = utf8Encode text) :
    pieces.flatMap fromUtf8Lossy = text ↔ CutsBetween pieces := by
  refine ⟨fun heq => ?_, fun h => h.flatMap_fromUtf8Lossy hpieces⟩
  by_contra h
  have hlt := length_lt_of_not_cutsBetween hpieces h
  rw [heq] at hlt
  exact Nat.lt_irrefl _ hlt

end

end Ruduo.Lib
