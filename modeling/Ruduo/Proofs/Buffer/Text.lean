import Ruduo.Model.Connection
import Ruduo.Proofs.Buffer.TypedValues
import Ruduo.Spec.Text

/-!
# `Ruduo.Proofs.Buffer.Text`: strings go through a buffer unchanged

The strings are about characters, the buffer is about bytes, and `Lib.Utf8` connects the two. One
string is read by `retrieveAsString_eq`, which hands its bytes to the decoder.

* `Reachable.keepsText`: integers and strings in one stream, and strings that are cut.
* `text_in_rounds_iff`: a text that arrives in rounds comes out right exactly when no character
  arrives in two of them.
-/

set_option autoImplicit false

namespace Ruduo

open Lib (utf8Encode fromUtf8Lossy fromUtf8Lossy_encode fromUtf8Lossy_encode_append replacement
  CutsBetween prefix_cases fromUtf8Lossy_part flatMap_fromUtf8Lossy_iff)

/-- `do_read` is `read_from` on the input buffer. -/
theorem TcpConnection.doRead_eq (c : TcpConnection) (outcome : Except IoError (List UInt8)) :
    c.doRead outcome = (c.input.readFrom outcome).map fun r => ({ c with input := r.1 }, r.2) := by
  cases outcome with
  | ok chunk =>
    unfold doRead Buffer.readFrom
    dsimp only
    cases c.input.append (chunk.take K_READ_BUF_SIZE) <;> rfl
  | error e => rfl

/-- The bytes of an item. -/
def Item.bytes : Item → List UInt8
  | .int v => v.ty.bytes v.val
  | .text s => utf8Encode s

namespace Buffer

variable {b : Buffer} {bytes rest : List UInt8}

/-! ### One string -/

/-- `retrieve_as_string` decodes the first bytes, and leaves the others. -/
theorem retrieveAsString_eq (h : Holds b bytes) (len : Nat) (hlen : len ≤ bytes.length) :
    ∃ b', b.retrieveAsString len = .ok (b', fromUtf8Lossy (bytes.take len)) ∧
      Holds b' (bytes.drop len) := by
  have hslice : sliceRange bytes 0 len = .ok (bytes.take len) := by
    rw [sliceRange, if_pos ⟨Nat.zero_le _, hlen⟩]
    rfl
  obtain ⟨b', hret, h'⟩ := h.retrieve hlen
  refine ⟨b', ?_, h'⟩
  simp only [retrieveAsString, peekAsString, h.readableBytes, ok_bind, assertThat_of hlen, h.peek,
    hslice, hret]

/-- A string in front of a buffer is read back. -/
theorem retrieveAsString_encode {s : List Char} (h : Holds b (utf8Encode s ++ rest)) :
    ∃ b', b.retrieveAsString (utf8Encode s).length = .ok (b', s) ∧ Holds b' rest := by
  obtain ⟨b', hret, h'⟩ := retrieveAsString_eq h (utf8Encode s).length (by simp)
  rw [List.take_left, fromUtf8Lossy_encode] at hret
  rw [List.drop_left] at h'
  exact ⟨b', hret, h'⟩

/-- The whole content is taken as a string. -/
theorem retrieveAllAsString_eq (h : Holds b bytes) :
    ∃ b', b.retrieveAllAsString = .ok (b', fromUtf8Lossy bytes) ∧ Holds b' [] := by
  refine ⟨b.retrieveAll, ?_, .of_split (retrieveAll_spec h.cheapPrepend_le) h.cheapPrepend_le⟩
  simp only [retrieveAllAsString, h.peek, ok_bind]

/-! ### Integers and strings -/

/-- An item is appended as its bytes. -/
theorem appendItem_spec (h : Holds b bytes) (x : Item) :
    ∃ b', b.appendItem x = .ok b' ∧ Holds b' (bytes ++ x.bytes) := by
  cases x with
  | int v => exact appendAs_spec h v.ty v.val
  | text s => exact h.append (utf8Encode s)

/-- An item that comes first is read back as it was. -/
theorem readItem_spec {x : Item} (h : Holds b (x.bytes ++ rest)) :
    ∃ b', b.readItem x.ty = .ok (b', x) ∧ Holds b' rest := by
  cases x with
  | int v =>
    obtain ⟨b', hret, h'⟩ := retrieveAs_bytes h
    exact ⟨b', by simp only [Item.ty, readItem, hret, ok_bind], h'⟩
  | text s =>
    obtain ⟨b', hret, h'⟩ := retrieveAsString_encode h
    exact ⟨b', by simp only [Item.ty, readItem, hret, ok_bind], h'⟩

/-- Items are appended one behind the other, by induction on the list. -/
theorem appendItems_spec (items : List Item) :
    ∀ {b : Buffer} {bytes : List UInt8}, Holds b bytes →
      ∃ b', b.appendItems items = .ok b' ∧ Holds b' (bytes ++ items.flatMap Item.bytes) := by
  induction items with
  | nil => exact fun h => ⟨_, rfl, by simpa using h⟩
  | cons x items ih =>
    intro b bytes h
    obtain ⟨b₁, happ, h₁⟩ := appendItem_spec h x
    obtain ⟨b', hrest, h'⟩ := ih h₁
    refine ⟨b', ?_, by simpa using h'⟩
    rw [appendItems, happ, ok_bind, hrest]

/-- Items in front of a buffer are read back. -/
theorem readItems_append (items : List Item) :
    ∀ {b : Buffer}, Holds b (items.flatMap Item.bytes ++ rest) →
      ∃ b', b.readItems (items.map Item.ty) = .ok (b', items) ∧ Holds b' rest := by
  induction items with
  | nil => exact fun h => ⟨_, rfl, h⟩
  | cons x items ih =>
    intro b h
    rw [List.flatMap_cons, List.append_assoc] at h
    obtain ⟨b₁, hret, h₁⟩ := readItem_spec h
    obtain ⟨b', hrest, h'⟩ := ih h₁
    exact ⟨b', by simp only [List.map_cons, readItems, hret, ok_bind, hrest], h'⟩

/-! ### A text in rounds -/

/-- Chunks that fit in a read buffer are appended one after the other. -/
theorem readChunks_spec (chunks : List (List UInt8)) :
    ∀ {b : Buffer} {bytes : List UInt8}, Holds b bytes →
      (∀ chunk ∈ chunks, chunk.length ≤ K_READ_BUF_SIZE) →
      ∃ b', b.readChunks chunks = .ok b' ∧ Holds b' (bytes ++ chunks.flatten) := by
  induction chunks with
  | nil => exact fun h _ => ⟨_, rfl, by simpa using h⟩
  | cons chunk chunks ih =>
    intro b bytes h hfit
    obtain ⟨hchunk, hchunks⟩ := List.forall_mem_cons.mp hfit
    obtain ⟨b₁, happ, h₁⟩ := h.append chunk
    obtain ⟨b', hrest, h'⟩ := ih h₁ hchunks
    refine ⟨b', ?_, by simpa using h'⟩
    rw [readChunks, readFrom]
    simp only [List.take_of_length_le hchunk, happ, ok_bind, hrest]

/-- Every round is decoded on its own. -/
theorem readRounds_spec (rounds : List (List (List UInt8))) :
    ∀ {b : Buffer}, Holds b [] →
      (∀ chunks ∈ rounds, ∀ chunk ∈ chunks, chunk.length ≤ K_READ_BUF_SIZE) →
      ∃ b', b.readRounds rounds =
        .ok (b', (rounds.map List.flatten).flatMap fromUtf8Lossy) ∧ Holds b' [] := by
  induction rounds with
  | nil => exact fun h _ => ⟨_, rfl, h⟩
  | cons chunks rounds ih =>
    intro b h hfit
    obtain ⟨hchunks, hrounds⟩ := List.forall_mem_cons.mp hfit
    obtain ⟨b₁, hread, h₁⟩ := readChunks_spec chunks h hchunks
    obtain ⟨b₂, hall, h₂⟩ := retrieveAllAsString_eq h₁
    obtain ⟨b', hrest, h'⟩ := ih h₂ hrounds
    refine ⟨b', ?_, h'⟩
    simp only [readRounds, hread, ok_bind, hall, hrest, List.map_cons, List.flatMap_cons,
      List.nil_append]

/-! ### Reachable buffers -/

/-- What `retrieve_as_string` takes of a text in front of a buffer. -/
theorem retrieveAsString_cut {text : List Char} (h : Holds b (utf8Encode text ++ rest)) {len : Nat}
    (hlen : len ≤ (utf8Encode text).length) :
    ∃ b' text₁ text₂ s, b.retrieveAsString len = .ok (b', s) ∧ text = text₁ ++ text₂ ∧
      b'.peek = .ok ((utf8Encode text ++ rest).drop len) ∧
      ((len = (utf8Encode text₁).length ∧ s = text₁) ∨
        (∃ c text₃, text₂ = c :: text₃ ∧ (utf8Encode text₁).length < len ∧
          len < (utf8Encode (text₁ ++ [c])).length ∧ s = text₁ ++ [replacement])) := by
  obtain ⟨b', hret, h'⟩ := retrieveAsString_eq h len (by rw [List.length_append]; omega)
  rw [List.take_append_of_le_length hlen] at hret
  have htaken : ((utf8Encode text).take len).length = len := List.length_take_of_le hlen
  rcases prefix_cases (List.take_append_drop len (utf8Encode text)) with
    ⟨text₁, text₂, rfl, htake, -⟩ |
    ⟨text₁, c, text₂, part, after, rfl, htake, -, hchar, hpart, hafter⟩
  · rw [htake] at htaken
    rw [htake, fromUtf8Lossy_encode] at hret
    exact ⟨b', text₁, text₂, text₁, hret, rfl, h'.peek, Or.inl ⟨htaken.symm, rfl⟩⟩
  · -- The length ends inside of `c`.
    rw [htake, List.length_append] at htaken
    rw [htake, fromUtf8Lossy_encode_append, fromUtf8Lossy_part hchar hpart hafter] at hret
    have hpos := List.length_pos_of_ne_nil hpart
    have hpos' := List.length_pos_of_ne_nil hafter
    refine ⟨b', text₁, c :: text₂, _, hret, rfl, h'.peek,
      Or.inr ⟨c, text₂, rfl, by omega, ?_, rfl⟩⟩
    simp only [Lib.utf8Encode_append, Lib.utf8Encode_cons, Lib.utf8Encode_nil, List.append_nil,
      ← hchar, List.length_append]
    omega

/-- **Strings round trip through the buffer.** Every reachable buffer keeps integers and strings in
one stream. A string that is read at a length that ends inside of a character loses this character,
and no other. -/
theorem Reachable.keepsText (hreach : Reachable b) :
    ∃ bytes, b.peek = .ok bytes ∧ b.readableBytes = .ok bytes.length ∧ KeepsText b bytes := by
  obtain ⟨q, hq⟩ := hreach.represents
  obtain ⟨hpeek, hread, hcheap, -⟩ := hq.agrees
  have h : Holds b q.bytes := ⟨hpeek, hcheap⟩
  refine ⟨q.bytes, hpeek, hread, fun items sizes hsum => ?_, fun text rest len hbytes hlen => ?_⟩
  · obtain ⟨b₁, happ, h₁⟩ := appendItems_spec items h
    obtain ⟨b₂, hret, h₂⟩ := retrieveEach_spec sizes h₁ (by rw [hsum]; simp)
    rw [hsum, List.drop_left] at h₂
    rw [← List.append_nil (List.flatMap _ _)] at h₂
    obtain ⟨b₃, hitems, h₃⟩ := readItems_append items h₂
    exact ⟨b₁, b₂, b₃, happ, hret, hitems, h₃.readableBytes⟩
  · rw [hbytes] at h ⊢
    exact retrieveAsString_cut h hlen

/-- **A text that arrives in rounds.** Take a reachable buffer that is empty, and a text whose bytes
arrive in rounds, in chunks that fit in a read buffer. When every round is taken out as a string,
the strings together are the text exactly when no character arrives in two rounds. Where the chunks
of one round end does not matter. -/
theorem text_in_rounds_iff (hreach : Reachable b) (hempty : b.readableBytes = .ok 0)
    {rounds : List (List (List UInt8))} {text : List Char}
    (hfit : ∀ chunks ∈ rounds, ∀ chunk ∈ chunks, chunk.length ≤ K_READ_BUF_SIZE)
    (htext : rounds.flatten.flatten = utf8Encode text) :
    ∃ b' s, b.readRounds rounds = .ok (b', s) ∧ b'.readableBytes = .ok 0 ∧
      (s = text ↔ CutsBetween (rounds.map List.flatten)) := by
  obtain ⟨q, hq⟩ := hreach.represents
  obtain ⟨hpeek, hread, hcheap, -⟩ := hq.agrees
  have hnil : q.bytes = [] := List.eq_nil_of_length_eq_zero
    (Except.ok.inj (hread.symm.trans hempty))
  have h : Holds b [] := ⟨hnil ▸ hpeek, hcheap⟩
  obtain ⟨b', hrounds, h'⟩ := readRounds_spec rounds h hfit
  refine ⟨b', _, hrounds, h'.readableBytes, flatMap_fromUtf8Lossy_iff ?_⟩
  rw [← htext, List.flatten_flatten]

/-- A buffer of four bytes that has held the bytes of a euro sign. -/
theorem Reachable.keepsText_euro :
    ∃ b, Reachable b ∧ b.peek = .ok [0x82, 0xAC] ∧
      ∃ bytes, b.peek = .ok bytes ∧ b.readableBytes = .ok bytes.length ∧ KeepsText b bytes := by
  have heuro : ∃ b, Reachable b ∧ b.peek = .ok [0x82, 0xAC] :=
    ⟨_, ⟨4, _, [.append [0xE2, 0x82, 0xAC], .retrieve 1], rfl, .cons rfl (.cons rfl (.nil _))⟩, rfl⟩
  obtain ⟨b, hreach, hpeek⟩ := heuro
  exact ⟨b, hreach, hpeek, Reachable.keepsText hreach⟩

/-- A euro sign comes in two chunks of one round, and a letter in the next one. -/
def euroRounds : List (List (List UInt8)) := [[[0xE2, 0x82], [0xAC]], [[0x41]]]

/-- No character comes in two rounds. -/
theorem text_in_rounds_iff_euro : ∃ b b' s, Reachable b ∧
    b.readRounds euroRounds = .ok (b', s) ∧ b'.readableBytes = .ok 0 ∧
      (s = ['€', 'A'] ↔ CutsBetween (euroRounds.map List.flatten)) := by
  have hnew : ∃ b, Reachable b ∧ b.readableBytes = .ok 0 := ⟨_, ⟨4, _, [], rfl, .nil _⟩, rfl⟩
  obtain ⟨b, hreach, hempty⟩ := hnew
  have hfit : ∀ chunks ∈ euroRounds, ∀ chunk ∈ chunks, chunk.length ≤ K_READ_BUF_SIZE := by decide
  have htext : euroRounds.flatten.flatten = utf8Encode ['€', 'A'] := by decide
  obtain ⟨b', s, hrounds⟩ := text_in_rounds_iff hreach hempty hfit htext
  exact ⟨b, b', s, hreach, hrounds⟩

/-- In two rounds a euro sign is lost. -/
example : (([[0xE2, 0x82], [0xAC]] : List (List UInt8)).flatMap fromUtf8Lossy) =
    [replacement, replacement] := by decide

end Buffer

end Ruduo
