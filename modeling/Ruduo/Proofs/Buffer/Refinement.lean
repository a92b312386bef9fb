import Ruduo.Spec.ByteQueue

/-!
# `Ruduo.Proofs.Buffer.Refinement`: the buffer refines a byte sequence

The vector is split in three: the bytes before the content, the content, and the bytes after
it. `Split b pre bytes post` says so, and says that the two indices stand between the parts.
Each operation moves the borders, and the three parts of its result are written down:

* `ensureWritable_spec`: there is room for `len` bytes after the same content.
* `append_spec`, `prepend_spec`, `retrieve_spec`, `retrieveAll_spec`: the content changes as
  `ByteQueue.apply` says.

`buffer_follows_byteQueue` is the refinement, for every initial size and every run.
-/

set_option autoImplicit false

namespace Ruduo.Buffer

open Lib (Follows)

variable {b : Buffer} {pre bytes post : List UInt8}

/-- The parts of the vector: before the content, the content, and after it. -/
structure Split (b : Buffer) (pre bytes post : List UInt8) : Prop where
  data : b.data = pre ++ bytes ++ post
  readIdx : b.readIdx = pre.length
  writeIdx : b.writeIdx = (pre ++ bytes).length

section lists
variable {α : Type} {l₁ l₂ l₃ new : List α}

/-- A slice between two parts of a list. -/
theorem sliceRange_middle :
    sliceRange (l₁ ++ l₂ ++ l₃) l₁.length (l₁ ++ l₂).length = .ok l₂ := by
  rw [sliceRange, if_pos ⟨by simp, by simp⟩]
  simp

/-- A splice between two parts of a list. -/
theorem splice_middle :
    splice (l₁ ++ l₂ ++ l₃) l₁.length (l₁ ++ l₂).length new = .ok (l₁ ++ new ++ l₃) := by
  rw [splice, if_pos ⟨by simp, by simp⟩]
  simp

end lists

namespace Split

/-- The readable bytes are those in the middle. -/
theorem readableBytes (h : Split b pre bytes post) : b.readableBytes = .ok bytes.length := by
  rw [Buffer.readableBytes, u64Sub_eq_ok, h.readIdx, h.writeIdx]
  simp

/-- What can be written is what is behind them. -/
theorem writableBytes (h : Split b pre bytes post) : b.writableBytes = .ok post.length := by
  rw [Buffer.writableBytes, u64Sub_eq_ok, h.writeIdx, h.data]
  simp only [List.length_append]
  omega

/-- `peek` gives the bytes in the middle. -/
theorem peek (h : Split b pre bytes post) : b.peek = .ok bytes := by
  rw [Buffer.peek, h.data, h.readIdx, h.writeIdx, sliceRange_middle]

/-- The length of the vector is the sum of the parts. -/
theorem length (h : Split b pre bytes post) :
    b.data.length = pre.length + bytes.length + post.length := by
  rw [h.data, List.length_append, List.length_append]

end Split

/-- The last check of `ensureWritable` passes when there is room. -/
theorem Split.assert_room (h : Split b pre bytes post) {len : Nat} (hroom : len ≤ post.length) :
    (do
      let writable ← b.writableBytes
      assertThat (len ≤ writable)
      .ok b) = (.ok b : Except Fault Buffer) := by
  simp only [h.writableBytes, ok_bind, assertThat_of hroom]

/-- The first case of `ensureWritable`: the vector grows at its end. -/
theorem Split.grow (h : Split b pre bytes post) {len : Nat} (hgrow : post.length ≤ len) :
    Split { b with data := resize b.data (b.writeIdx + len) 0 } pre bytes
      (post ++ List.replicate (len - post.length) 0) where
  data := by
    have hlen := h.length
    have hwrite := h.writeIdx
    rw [List.length_append] at hwrite
    have hzeros : b.writeIdx + len - b.data.length = len - post.length := by omega
    show resize b.data (b.writeIdx + len) 0 = _
    rw [resize, List.take_of_length_le (by omega), hzeros, h.data]
    simp only [List.append_assoc]
  readIdx := h.readIdx
  writeIdx := h.writeIdx

/-- The second case: the content moves back to the reserve. Source and target may overlap. -/
theorem Split.slide (h : Split b pre bytes post) (hpre : K_CHEAP_PREPEND_SIZE ≤ pre.length) :
    ∃ data, copyWithin b.data b.readIdx b.writeIdx K_CHEAP_PREPEND_SIZE = .ok data ∧
      data.length = b.data.length ∧
      Split { data, readIdx := K_CHEAP_PREPEND_SIZE
              writeIdx := K_CHEAP_PREPEND_SIZE + bytes.length }
        (b.data.take K_CHEAP_PREPEND_SIZE) bytes
        (b.data.drop (K_CHEAP_PREPEND_SIZE + bytes.length)) := by
  have hlen := h.length
  have hslice : sliceRange b.data b.readIdx b.writeIdx = .ok bytes := h.peek
  have hfit : K_CHEAP_PREPEND_SIZE + bytes.length ≤ b.data.length := by omega
  have htake : (b.data.take K_CHEAP_PREPEND_SIZE).length = K_CHEAP_PREPEND_SIZE := by
    rw [List.length_take]
    omega
  refine ⟨b.data.take K_CHEAP_PREPEND_SIZE ++ bytes
      ++ b.data.drop (K_CHEAP_PREPEND_SIZE + bytes.length), ?_, ?_, rfl, ?_, ?_⟩
  · rw [copyWithin, hslice, ok_bind, splice, if_pos ⟨by omega, hfit⟩]
  · simp only [List.length_append, htake, List.length_drop]
    omega
  · exact htake.symm
  · rw [List.length_append, htake]

/-- After `ensureWritable` there is room behind the same content, and the front part is as
before or as long as the reserve. The vector has kept its length, or it has grown to hold less
than twice the content with the new bytes, and the reserve. -/
theorem ensureWritable_spec (h : Split b pre bytes post) (len : Nat)
    (hcheap : K_CHEAP_PREPEND_SIZE ≤ b.data.length) :
    ∃ b' pre' post', b.ensureWritable len = .ok b' ∧ Split b' pre' bytes post' ∧
      len ≤ post'.length ∧ b.data.length ≤ b'.data.length ∧
      (pre' = pre ∨ pre'.length = K_CHEAP_PREPEND_SIZE) ∧
      (b'.data.length = b.data.length ∨
        b'.data.length < 2 * (bytes.length + len) + K_CHEAP_PREPEND_SIZE) := by
  have hread := h.readIdx
  have hlen := h.length
  by_cases hroom : post.length < len
  · by_cases hgrow : post.length + pre.length < len + K_CHEAP_PREPEND_SIZE
    · -- Not even the room in front would do: the vector grows.
      have h' := h.grow (Nat.le_of_lt hroom)
      have hroom' : len ≤ (post ++ List.replicate (len - post.length) (0 : UInt8)).length := by
        rw [List.length_append, List.length_replicate]
        omega
      have hlen' := h'.length
      rw [List.length_append, List.length_replicate] at hlen'
      refine ⟨_, _, _, ?_, h', hroom', by omega, Or.inl rfl, Or.inr (by omega)⟩
      simp only [ensureWritable, h.writableBytes, ok_bind, if_pos hroom, prependableBytes, hread,
        if_pos hgrow]
      exact hread ▸ h'.assert_room hroom'
    · -- The content slides. The front part is longer than the reserve here, so the assertion
      -- `K_CHEAP_PREPEND_SIZE < self.read_idx` holds.
      have hpre : K_CHEAP_PREPEND_SIZE < pre.length := by omega
      obtain ⟨data, hcopy, hdata, h'⟩ := h.slide (Nat.le_of_lt hpre)
      have hroom' : len ≤ (b.data.drop (K_CHEAP_PREPEND_SIZE + bytes.length)).length := by
        rw [List.length_drop]
        omega
      have htake : (b.data.take K_CHEAP_PREPEND_SIZE).length = K_CHEAP_PREPEND_SIZE := by
        rw [List.length_take]
        omega
      refine ⟨_, _, _, ?_, h', hroom', Nat.le_of_eq hdata.symm, Or.inr htake, Or.inl hdata⟩
      simp only [ensureWritable, h.writableBytes, ok_bind, if_pos hroom, prependableBytes,
        if_neg hgrow, hread, assertThat_of hpre, h.readableBytes, hread ▸ hcopy, h'.readableBytes,
        assertThat_of trivial]
      exact h'.assert_room hroom'
  · -- There is room already.
    have hroom' : len ≤ post.length := by omega
    refine ⟨b, pre, post, ?_, h, hroom', Nat.le_refl _, Or.inl rfl, Or.inl rfl⟩
    simp only [ensureWritable, h.writableBytes, ok_bind, if_neg hroom, assertThat_of hroom']

/-- `append` puts the bytes behind the content. It makes the vector longer only up to less than
twice the new content, and the reserve. -/
theorem append_spec (h : Split b pre bytes post) (data : List UInt8)
    (hcheap : K_CHEAP_PREPEND_SIZE ≤ b.data.length) :
    ∃ b' pre' post', b.append data = .ok b' ∧ Split b' pre' (bytes ++ data) post' ∧
      b.data.length ≤ b'.data.length ∧
      (pre' = pre ∨ pre'.length = K_CHEAP_PREPEND_SIZE) ∧
      (b'.data.length = b.data.length ∨
        b'.data.length < 2 * (bytes ++ data).length + K_CHEAP_PREPEND_SIZE) := by
  obtain ⟨b₁, pre', rest, hens, h₁, hroom, hlen, hpre, hgrown⟩ :=
    ensureWritable_spec h data.length hcheap
  -- The first `data.length` bytes behind the content are overwritten.
  obtain ⟨old, post', rfl, hold⟩ : ∃ old post', rest = old ++ post' ∧ old.length = data.length :=
    ⟨rest.take data.length, rest.drop data.length, (List.take_append_drop _ _).symm, by
      rw [List.length_take]
      omega⟩
  have hsplice : splice b₁.data b₁.writeIdx (b₁.writeIdx + data.length) data
      = .ok (pre' ++ bytes ++ data ++ post') := by
    have hstop : b₁.writeIdx + data.length = (pre' ++ bytes ++ old).length := by
      rw [List.length_append, hold, h₁.writeIdx]
    rw [hstop, h₁.writeIdx, h₁.data, ← List.append_assoc, splice_middle]
  have h' : Split { data := pre' ++ bytes ++ data ++ post', readIdx := b₁.readIdx
                    writeIdx := b₁.writeIdx + data.length } pre' (bytes ++ data) post' :=
    ⟨by simp, h₁.readIdx, by simp [h₁.writeIdx, Nat.add_assoc]⟩
  -- Overwriting does not change the length.
  have hsame : (pre' ++ bytes ++ data ++ post').length = b₁.data.length := by
    have hlen₁ := h₁.length
    simp only [List.length_append] at hlen₁ ⊢
    omega
  refine ⟨_, pre', post', ?_, h', hsame ▸ hlen, hpre, ?_⟩
  · simp only [append, hens, ok_bind, hsplice]
  · show (pre' ++ bytes ++ data ++ post').length = _ ∨ (pre' ++ bytes ++ data ++ post').length < _
    rw [hsame, List.length_append]
    exact hgrown

/-- `prepend` puts the bytes in front of the content. -/
theorem prepend_spec (h : Split b pre bytes post) (data : List UInt8)
    (hfit : data.length ≤ b.prependableBytes) :
    ∃ b' pre', b.prepend data = .ok b' ∧ Split b' pre' (data ++ bytes) post ∧
      b'.data.length = b.data.length ∧ pre'.length + data.length = pre.length := by
  have hread := h.readIdx
  have hfit' : data.length ≤ pre.length := by
    rw [← hread]
    exact hfit
  -- The last `data.length` bytes before the content are overwritten.
  obtain ⟨pre', old, rfl, hold⟩ : ∃ pre' old, pre = pre' ++ old ∧ old.length = data.length :=
    ⟨pre.take (pre.length - data.length), pre.drop (pre.length - data.length),
      (List.take_append_drop _ _).symm, by
        rw [List.length_drop]
        omega⟩
  rw [List.length_append, hold] at hread
  have hsub : u64Sub b.readIdx data.length = .ok pre'.length := by
    rw [u64Sub_eq_ok]
    omega
  have hsplice : splice b.data pre'.length (pre'.length + data.length) data
      = .ok (pre' ++ data ++ (bytes ++ post)) := by
    have hstop : pre'.length + data.length = (pre' ++ old).length := by
      rw [List.length_append, hold]
    rw [hstop, h.data, List.append_assoc (pre' ++ old), splice_middle]
  have h' : Split { data := pre' ++ data ++ (bytes ++ post), readIdx := pre'.length
                    writeIdx := b.writeIdx } pre' (data ++ bytes) post :=
    ⟨by simp, rfl, by simp [h.writeIdx, hold]⟩
  refine ⟨_, pre', ?_, h', ?_, ?_⟩
  · simp only [prepend, assertThat_of hfit, ok_bind, hsub, hsplice]
  · rw [h'.length, h.length, List.length_append, List.length_append, hold]
    omega
  · rw [List.length_append, hold]

/-- `retrieveAll` empties the buffer and gives the front part its first length. -/
theorem retrieveAll_spec (hcheap : K_CHEAP_PREPEND_SIZE ≤ b.data.length) :
    Split b.retrieveAll (b.data.take K_CHEAP_PREPEND_SIZE) []
      (b.data.drop K_CHEAP_PREPEND_SIZE) where
  data := by simp [retrieveAll]
  readIdx := by simp [retrieveAll, hcheap]
  writeIdx := by simp [retrieveAll, hcheap]

/-- `retrieve` takes bytes off the front of the content. When it takes them all, the front part
has its first length again. -/
theorem retrieve_spec (h : Split b pre bytes post) {size : Nat} (hsize : size ≤ bytes.length)
    (hcheap : K_CHEAP_PREPEND_SIZE ≤ b.data.length) :
    ∃ b' pre' post', b.retrieve size = .ok b' ∧ Split b' pre' (bytes.drop size) post' ∧
      b'.data = b.data ∧
      (pre.length ≤ pre'.length ∨ pre'.length = K_CHEAP_PREPEND_SIZE) ∧
      (bytes.drop size = [] → pre'.length = K_CHEAP_PREPEND_SIZE) := by
  have htake : (b.data.take K_CHEAP_PREPEND_SIZE).length = K_CHEAP_PREPEND_SIZE := by
    rw [List.length_take]
    omega
  by_cases hlt : size < bytes.length
  · -- The retrieved bytes become part of the front.
    have h' : Split { b with readIdx := b.readIdx + size } (pre ++ bytes.take size)
        (bytes.drop size) post :=
      ⟨by simp [h.data], by simp [h.readIdx, hsize], by simp [h.writeIdx]⟩
    refine ⟨_, _, post, ?_, h', rfl, Or.inl (by simp), fun hnil => ?_⟩
    · simp only [retrieve, h.readableBytes, ok_bind, assertThat_of hsize, if_pos hlt]
    · rw [List.drop_eq_nil_iff] at hnil
      omega
  · -- Everything is retrieved, which resets both indices.
    have hnil : bytes.drop size = [] := List.drop_eq_nil_iff.mpr (by omega)
    refine ⟨b.retrieveAll, _, _, ?_, hnil ▸ retrieveAll_spec hcheap, rfl, Or.inr htake,
      fun _ => htake⟩
    simp only [retrieve, h.readableBytes, ok_bind, assertThat_of hsize, if_neg hlt]

/-! ### The operations on the bytes that a buffer holds -/

namespace Holds

/-- A buffer in three parts holds the one in the middle. -/
theorem of_split (h : Split b pre bytes post) (hcheap : K_CHEAP_PREPEND_SIZE ≤ b.data.length) :
    Holds b bytes := ⟨h.peek, hcheap⟩

/-- The parts of the vector around the bytes. -/
theorem split (h : Holds b bytes) : ∃ pre post, Split b pre bytes post := by
  have hpeek := h.peek
  unfold Buffer.peek sliceRange at hpeek
  split at hpeek
  · rename_i hle
    obtain rfl := Except.ok.inj hpeek
    refine ⟨b.data.take b.readIdx, b.data.drop b.writeIdx, ⟨?_, ?_, ?_⟩⟩
    · have hdrop : b.data.drop b.writeIdx
          = (b.data.drop b.readIdx).drop (b.writeIdx - b.readIdx) := by
        rw [List.drop_drop]
        congr 1
        omega
      rw [hdrop, List.append_assoc, List.take_append_drop, List.take_append_drop]
    · rw [List.length_take]
      omega
    · simp only [List.length_append, List.length_take, List.length_drop]
      omega
  · cases hpeek

/-- A buffer that holds these bytes has as many to read. -/
theorem readableBytes (h : Holds b bytes) : b.readableBytes = .ok bytes.length := by
  obtain ⟨pre, post, hs⟩ := h.split
  exact hs.readableBytes

/-- `append` goes through, and puts the data behind what is held. -/
theorem append (h : Holds b bytes) (data : List UInt8) :
    ∃ b', b.append data = .ok b' ∧ Holds b' (bytes ++ data) := by
  obtain ⟨pre, post, hs⟩ := h.split
  obtain ⟨b', pre', post', happ, h', hlen, -⟩ := append_spec hs data h.cheapPrepend_le
  exact ⟨b', happ, of_split h' (Nat.le_trans h.cheapPrepend_le hlen)⟩

/-- `retrieve` takes bytes from the front, as long as they are there. -/
theorem retrieve (h : Holds b bytes) {size : Nat} (hsize : size ≤ bytes.length) :
    ∃ b', b.retrieve size = .ok b' ∧ Holds b' (bytes.drop size) := by
  obtain ⟨pre, post, hs⟩ := h.split
  obtain ⟨b', pre', post', hret, h', hdata, -⟩ := retrieve_spec hs hsize h.cheapPrepend_le
  exact ⟨b', hret, of_split h' (hdata ▸ h.cheapPrepend_le)⟩

end Holds

/-- The relation that every operation keeps: the content is that of the queue, the vector has
room for the reserve, and the front part covers it while nothing was prepended. -/
def Represents (b : Buffer) (q : ByteQueue) : Prop :=
  ∃ pre post, Split b pre q.bytes post ∧ K_CHEAP_PREPEND_SIZE ≤ b.data.length ∧
    (q.pristine = true → K_CHEAP_PREPEND_SIZE ≤ pre.length)

/-- What a caller sees of a buffer that represents a queue. -/
theorem Represents.agrees {q : ByteQueue} (h : Represents b q) : Agrees b q := by
  obtain ⟨pre, post, hs, hcheap, hpre⟩ := h
  have hread := hs.readIdx
  have hwrite := hs.writeIdx
  have hlen := hs.length
  rw [List.length_append] at hwrite
  refine ⟨hs.peek, hs.readableBytes, hcheap, by omega, by omega, fun hp => ?_⟩
  rw [prependableBytes, hread]
  exact hpre hp

/-- One admitted operation does what the queue does, and keeps the relation. -/
theorem step_represents {q : ByteQueue} (op : BufferOp) (h : Represents b q)
    (hadm : Admits b q op) :
    ∃ b' out q', b.exec op = .ok (b', out) ∧ Contract b q op out b' q' ∧ Represents b' q' := by
  obtain ⟨pre, post, hs, hcheap, hpre⟩ := h
  have finish : ∀ b', b.exec op = .ok (b', ()) → b.data.length ≤ b'.data.length →
      Represents b' (q.apply op) →
      ∃ b' out q', b.exec op = .ok (b', out) ∧ Contract b q op out b' q' ∧ Represents b' q' :=
    fun b' hexec hlen hrep => ⟨b', (), _, hexec, ⟨rfl, hrep.agrees, hlen⟩, hrep⟩
  cases op with
  | append data =>
    obtain ⟨b', pre', post', happ, h', hlen, hpre', -⟩ := append_spec hs data hcheap
    refine finish b' (by simp only [exec, happ, ok_bind]) hlen
      ⟨pre', post', h', by omega, fun hp => ?_⟩
    rcases hpre' with rfl | hpre'
    · exact hpre hp
    · exact Nat.le_of_eq hpre'.symm
  | prepend data =>
    obtain ⟨b', pre', hprep, h', hlen, hpre'⟩ := prepend_spec hs data hadm
    refine finish b' (by simp only [exec, hprep, ok_bind]) (Nat.le_of_eq hlen.symm)
      ⟨pre', post, h', by omega, fun hp => ?_⟩
    -- Still pristine means that the empty slice was prepended.
    obtain ⟨hq, hdata⟩ := Bool.and_eq_true_iff.mp hp
    rw [List.isEmpty_iff.mp hdata] at hpre'
    have := hpre hq
    simp only [List.length_nil] at hpre'
    omega
  | retrieve size =>
    obtain ⟨b', pre', post', hret, h', hdata, hpre', hnil⟩ := retrieve_spec hs hadm hcheap
    refine finish b' (by simp only [exec, hret, ok_bind]) (Nat.le_of_eq (by rw [hdata]))
      ⟨pre', post', h', by rw [hdata]; exact hcheap, fun hp => ?_⟩
    -- A queue that runs empty is pristine again, and so is the front part.
    rcases Bool.or_eq_true_iff.mp hp with hq | hempty
    · have := hpre hq
      omega
    · exact Nat.le_of_eq (hnil (List.isEmpty_iff.mp hempty)).symm
  | retrieveAll =>
    refine finish b.retrieveAll rfl (Nat.le_refl _)
      ⟨_, _, retrieveAll_spec hcheap, hcheap, fun _ => ?_⟩
    rw [List.length_take]
    omega

/-- A new buffer is empty. -/
theorem build_represents {size : Nat} (h : (Builder.new.size size).build = .ok b) :
    Represents b ByteQueue.empty := by
  obtain ⟨len, hlen, hb⟩ := bind_eq_ok.mp h
  rw [u64Add_eq_ok] at hlen
  obtain rfl := Except.ok.inj hb
  have hsize : (Builder.new.size size).initialSize = size := rfl
  refine ⟨List.replicate K_CHEAP_PREPEND_SIZE 0, List.replicate size 0, ⟨?_, ?_, ?_⟩, ?_, ?_⟩
  · simp [ByteQueue.empty, ← hlen.2, hsize, List.replicate_append_replicate]
  · simp
  · simp [ByteQueue.empty]
  · simp only [List.length_replicate]
    omega
  · simp

/-- **The buffer refines a byte sequence that is open at both ends.** For every initial size
and every run of operations within their preconditions, no operation faults, the buffer holds
the bytes that `ByteQueue.apply` computes, its indices stay in order, the vector never shrinks,
and the reserve in front stays free as long as nothing is prepended. -/
theorem buffer_follows_byteQueue {size : Nat} (h : (Builder.new.size size).build = .ok b)
    (ops : List BufferOp) :
    Agrees b ByteQueue.empty ∧ Follows exec Admits Contract b ByteQueue.empty ops :=
  ⟨(build_represents h).agrees,
    Follows.of_simulation Represents (fun _ _ op hR hadm => step_represents op hR hadm) ops b
      ByteQueue.empty (build_represents h)⟩

/-- A buffer of two bytes grows, slides its content over itself, and takes a prefix. -/
theorem buffer_follows_byteQueue_small :
    ∃ b, (Builder.new.size 2).build = .ok b ∧ Agrees b ByteQueue.empty ∧
      Follows exec Admits Contract b ByteQueue.empty
        [.append [1, 2, 3, 4], .retrieve 3, .append [5, 6, 7], .prepend [0], .retrieve 5] :=
  ⟨_, rfl, @buffer_follows_byteQueue _ 2 rfl _⟩

end Ruduo.Buffer
