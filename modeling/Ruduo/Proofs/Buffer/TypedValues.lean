import Ruduo.Proofs.Buffer.Refinement
import Ruduo.Spec.TypedValues

/-!
# `Ruduo.Proofs.Buffer.TypedValues`: integers go through a buffer unchanged

Every type is an instance of the two macros, so `toBeBytes` and `fromBeBytes` at the width of the
type say all there is to know of it: `IntTy.twosComplement_bytes` is what is written, and
`peekAs_spec` what is read. The rest is about bytes, through `Holds`:

* `retrieveAs_spec`, `appendAs_spec`, `prependAs_spec`: one value.
* `appendValues_spec`, `retrieveEach_spec`, `readValues_append`, `readValues_parts`: lists, by
  induction.
* `Reachable.keepsValues`: the result, for every reachable buffer.
-/

set_option autoImplicit false

namespace Ruduo

open Lib (ofBE toBE twosComplement ofBE_toBE add_ofBE_append add_ofBE_append_ediv
  twosComplement_add_mul exists_twosComplement_eq Run)

/-! ### The bytes of an integer -/

/-- The bytes of an integer write it in two's complement. -/
theorem twosComplement_toBeBytes (n : Nat) (v : BitVec (8 * n)) :
    twosComplement n (ofBE (toBeBytes n v).1) = v.toInt := by
  have hpow : 256 ^ n = 2 ^ (8 * n) := by rw [Nat.pow_mul]
  show twosComplement n (ofBE (toBE n v.toNat)) = _
  rw [ofBE_toBE, hpow, Nat.mod_eq_of_lt v.isLt, twosComplement, hpow,
    BitVec.toInt_eq_toNat_bmod]

/-- An integer is the two's complement value of the bytes it is made from. -/
theorem toInt_fromBeBytes (n : Nat) (b : FixedBytes n) :
    (fromBeBytes n b).toInt = twosComplement n (ofBE b.1) := by
  rw [fromBeBytes, BitVec.toInt_ofNat', twosComplement, Nat.pow_mul]

namespace IntTy
variable {ty : IntTy}

/-- The bytes of a value. -/
def bytes (ty : IntTy) (v : ty.Val) : List UInt8 := (EndianWrite.asBytes v).1

/-- A value takes the bytes of its type. -/
@[simp] theorem length_bytes (ty : IntTy) (v : ty.Val) : (ty.bytes v).length = ty.size := by
  cases ty <;> exact (EndianWrite.asBytes v).2

/-- A value is known by its integer. -/
theorem toInt_inj {v w : ty.Val} (h : ty.toInt v = ty.toInt w) : v = w := by
  cases ty with
  | i8 => exact Int8.toInt_inj.mp h
  | i16 => exact Int16.toInt_inj.mp h
  | i32 => exact Int32.toInt_inj.mp h
  | i64 => exact Int64.toInt_inj.mp h

/-- The bytes of a value are its two's complement. -/
theorem twosComplement_bytes (ty : IntTy) (v : ty.Val) :
    twosComplement ty.size (ofBE (ty.bytes v)) = ty.toInt v := by
  cases ty with
  | i8 => exact twosComplement_toBeBytes 1 (Int8.toBitVec v)
  | i16 => exact twosComplement_toBeBytes 2 (Int16.toBitVec v)
  | i32 => exact twosComplement_toBeBytes 4 (Int32.toBitVec v)
  | i64 => exact twosComplement_toBeBytes 8 (Int64.toBitVec v)

end IntTy

namespace Buffer

variable {b : Buffer} {bytes rest : List UInt8}

/-! ### One value -/

/-- `peek_as` hands the first bytes to the type. -/
theorem peekAs_eq {T : Type} [EndianRead T] (h : Holds b bytes)
    (hsize : EndianRead.sizeOf T ≤ bytes.length)
    (hlen : (bytes.take (EndianRead.sizeOf T)).length = EndianRead.arrayLen T) :
    b.peekAs T = .ok (EndianRead.fromBytes ⟨bytes.take (EndianRead.sizeOf T), hlen⟩) := by
  have hslice : sliceRange bytes 0 (EndianRead.sizeOf T)
      = .ok (bytes.take (EndianRead.sizeOf T)) := by
    rw [sliceRange, if_pos ⟨Nat.zero_le _, hsize⟩]
    rfl
  simp only [peekAs, h.readableBytes, ok_bind, assertThat_of hsize, h.peek, hslice,
    FixedBytes.tryFrom, dif_pos hlen]

/-- What a type reads that implements `EndianRead` by the macro. -/
theorem peekAs_impl {T : Type} {size : Nat} {ofBits : BitVec (8 * size) → T} {toInt : T → Int}
    (hbits : ∀ v, toInt (ofBits v) = v.toInt) (h : Holds b bytes) (hsize : size ≤ bytes.length) :
    ∃ v, @peekAs T (implEndianReadForInt size ofBits) b = .ok v ∧
      toInt v = twosComplement size (ofBE (bytes.take size)) := by
  have hlen : (bytes.take size).length = size := List.length_take_of_le hsize
  refine ⟨ofBits (fromBeBytes size ⟨bytes.take size, hlen⟩), ?_, ?_⟩
  · exact @peekAs_eq b bytes T (implEndianReadForInt size ofBits) h hsize hlen
  · rw [hbits, toInt_fromBeBytes]

/-- The value that is read is the two's complement value of the first bytes. -/
theorem peekAs_spec (h : Holds b bytes) {ty : IntTy} (hsize : ty.size ≤ bytes.length) :
    ∃ v, b.peekAs ty.Val = .ok v ∧
      ty.toInt v = twosComplement ty.size (ofBE (bytes.take ty.size)) := by
  cases ty with
  | i8 => exact @peekAs_impl b bytes Int8 1 _ Int8.toInt (fun _ => rfl) h hsize
  | i16 => exact @peekAs_impl b bytes Int16 2 _ Int16.toInt (fun _ => rfl) h hsize
  | i32 => exact @peekAs_impl b bytes Int32 4 _ Int32.toInt (fun _ => rfl) h hsize
  | i64 => exact @peekAs_impl b bytes Int64 8 _ Int64.toInt (fun _ => rfl) h hsize

/-- Reading takes these bytes off. -/
theorem retrieveAs_spec (h : Holds b bytes) {ty : IntTy} (hsize : ty.size ≤ bytes.length) :
    ∃ b' v, b.retrieveAs ty.Val = .ok (b', v) ∧ Holds b' (bytes.drop ty.size) ∧
      ty.toInt v = twosComplement ty.size (ofBE (bytes.take ty.size)) := by
  have hlen : EndianRead.sizeOf ty.Val = ty.size := by cases ty <;> rfl
  obtain ⟨v, hpeek, hv⟩ := peekAs_spec h hsize
  obtain ⟨b', hret, h'⟩ := h.retrieve hsize
  exact ⟨b', v, by simp only [retrieveAs, hpeek, ok_bind, hlen, hret], h', hv⟩

/-- A value in front of a buffer is read back. -/
theorem retrieveAs_bytes {ty : IntTy} {v : ty.Val} (h : Holds b (ty.bytes v ++ rest)) :
    ∃ b', b.retrieveAs ty.Val = .ok (b', v) ∧ Holds b' rest := by
  have hlen := ty.length_bytes v
  have hsize : ty.size ≤ (ty.bytes v ++ rest).length := by simp
  obtain ⟨b', w, hret, h', hw⟩ := retrieveAs_spec h hsize
  rw [← hlen, List.take_left, hlen, ty.twosComplement_bytes] at hw
  rw [← hlen, List.drop_left] at h'
  obtain rfl := IntTy.toInt_inj hw
  exact ⟨b', hret, h'⟩

/-- A value is appended as its bytes. -/
theorem appendAs_spec (h : Holds b bytes) (ty : IntTy) (v : ty.Val) :
    ∃ b', b.appendAs v = .ok b' ∧ Holds b' (bytes ++ ty.bytes v) :=
  h.append (ty.bytes v)

/-- A value is prepended as its bytes. -/
theorem prependAs_spec (h : Holds b bytes) (ty : IntTy) (v : ty.Val)
    (hfit : ty.size ≤ b.prependableBytes) :
    ∃ b', b.prependAs v = .ok b' ∧ Holds b' (ty.bytes v ++ bytes) := by
  obtain ⟨pre, post, hs⟩ := h.split
  obtain ⟨b', pre', hprep, h', hlen, -⟩ := prepend_spec hs (ty.bytes v) (by simpa using hfit)
  exact ⟨b', hprep, .of_split h' (hlen ▸ h.cheapPrepend_le)⟩

/-! ### Lists of values -/

/-- Values are appended one behind the other, by induction on the list. -/
theorem appendValues_spec (values : List TypedValue) :
    ∀ {b : Buffer} {bytes : List UInt8}, Holds b bytes →
      ∃ b', b.appendValues values = .ok b' ∧
        Holds b' (bytes ++ values.flatMap fun v => v.ty.bytes v.val) := by
  induction values with
  | nil =>
    intro b bytes h
    exact ⟨b, rfl, by simpa using h⟩
  | cons v values ih =>
    intro b bytes h
    obtain ⟨b₁, happ, h₁⟩ := appendAs_spec h v.ty v.val
    obtain ⟨b', hrest, h'⟩ := ih h₁
    refine ⟨b', ?_, by simpa using h'⟩
    rw [appendValues, happ, ok_bind, hrest]

/-- Bytes are retrieved in pieces, by induction on their sizes. -/
theorem retrieveEach_spec (sizes : List Nat) :
    ∀ {b : Buffer} {bytes : List UInt8}, Holds b bytes → sizes.sum ≤ bytes.length →
      ∃ b', b.retrieveEach sizes = .ok b' ∧ Holds b' (bytes.drop sizes.sum) := by
  induction sizes with
  | nil => exact fun h _ => ⟨_, rfl, h⟩
  | cons size sizes ih =>
    intro b bytes h hsum
    rw [List.sum_cons] at hsum
    obtain ⟨b₁, hret, h₁⟩ := h.retrieve (show size ≤ bytes.length by omega)
    obtain ⟨b', hrest, h'⟩ := ih h₁ (by rw [List.length_drop]; omega)
    refine ⟨b', by rw [retrieveEach, hret, ok_bind, hrest], ?_⟩
    rwa [List.sum_cons, ← List.drop_drop]

/-- Values in front of a buffer are read back. -/
theorem readValues_append (values : List TypedValue) :
    ∀ {b : Buffer}, Holds b ((values.flatMap fun v => v.ty.bytes v.val) ++ rest) →
      ∃ b', b.readValues (values.map fun v => v.ty) = .ok (b', values) ∧ Holds b' rest := by
  induction values with
  | nil => exact fun h => ⟨_, rfl, h⟩
  | cons v values ih =>
    intro b h
    rw [List.flatMap_cons, List.append_assoc] at h
    obtain ⟨b₁, hret, h₁⟩ := retrieveAs_bytes h
    obtain ⟨b', hrest, h'⟩ := ih h₁
    exact ⟨b', by simp only [List.map_cons, readValues, hret, ok_bind, hrest], h'⟩

/-- What is read from the `n` bytes in front of a buffer are the parts of every number that
agrees with these bytes modulo `256 ^ n`. -/
theorem readValues_parts (tys : List IntTy) :
    ∀ {b : Buffer} {front : List UInt8} {c : Int}, Holds b (front ++ rest) →
      (tys.map fun ty => ty.size).sum ≤ front.length →
      ∃ b' values, b.readValues tys = .ok (b', values) ∧ (values.map fun v => v.ty) = tys ∧
        values.map TypedValue.toInt
          = highOrderParts front.length (c * 256 ^ front.length + ofBE front) tys := by
  induction tys with
  | nil => exact fun _ _ => ⟨_, [], rfl, rfl, rfl⟩
  | cons ty tys ih =>
    intro b front c h hsum
    rw [List.map_cons, List.sum_cons] at hsum
    obtain ⟨first, front, rfl, hfirst⟩ : ∃ l₁ l₂, front = l₁ ++ l₂ ∧ l₁.length = ty.size :=
      ⟨front.take ty.size, front.drop ty.size, (List.take_append_drop _ _).symm,
        List.length_take_of_le (by omega)⟩
    rw [List.length_append, hfirst] at hsum
    rw [List.append_assoc] at h
    have hsize : ty.size ≤ (first ++ (front ++ rest)).length := by simp [hfirst]
    obtain ⟨b₁, v, hret, h₁, hv⟩ := retrieveAs_spec h hsize
    rw [← hfirst, List.drop_left] at h₁
    rw [← hfirst, List.take_left, hfirst] at hv
    obtain ⟨b', values, hrest, htys, hparts⟩ := ih h₁ (by omega)
      (c := c * 256 ^ ty.size + ofBE first)
    have hn : (first ++ front).length - ty.size = front.length := by
      rw [List.length_append, hfirst, Nat.add_sub_cancel_left]
    refine ⟨b', { ty, val := v } :: values, ?_, by rw [List.map_cons, htys], ?_⟩
    · simp only [readValues, hret, ok_bind, hrest]
    · -- The first bytes are what is left when the others are divided off.
      rw [List.map_cons, highOrderParts, hn, add_ofBE_append_ediv, hfirst, twosComplement_add_mul,
        ← hv, add_ofBE_append, hfirst, hparts]
      rfl

/-! ### Reachable buffers -/

/-- An operation that returned was admitted. -/
theorem admits_of_step {q : ByteQueue} {op : BufferOp} {b' : Buffer} (h : Represents b q)
    (hstep : Step b op b') : Admits b q op := by
  obtain ⟨-, hread, -⟩ := h.agrees
  cases op with
  | append data => trivial
  | retrieveAll => trivial
  | prepend data =>
    show data.length ≤ b.prependableBytes
    by_contra hlt
    simp [Step, exec, prepend, assertThat, hlt] at hstep
  | retrieve size =>
    show size ≤ q.bytes.length
    by_contra hlt
    simp [Step, exec, Buffer.retrieve, hread, assertThat, hlt] at hstep

/-- A reachable buffer represents a queue. -/
theorem Reachable.represents (h : Reachable b) : ∃ q, Represents b q := by
  obtain ⟨size, b₀, ops, hbuild, hrun⟩ := h
  refine hrun.invariant (P := fun b => ∃ q, Represents b q) ?_ ⟨_, build_represents hbuild⟩
  rintro b op b' ⟨q, h⟩ hstep
  obtain ⟨b₁, out, q', hexec, -, h'⟩ := step_represents op h (admits_of_step h hstep)
  obtain ⟨rfl, -⟩ := Prod.mk.inj (Except.ok.inj (hexec.symm.trans hstep))
  exact ⟨q', h'⟩

/-- **Typed values round trip through the buffer.** Every reachable buffer keeps integers of
mixed types: appended, prepended, or read at other types than they were written. -/
theorem Reachable.keepsValues (hreach : Reachable b) :
    ∃ bytes, b.peek = .ok bytes ∧ b.readableBytes = .ok bytes.length ∧ KeepsValues b bytes := by
  obtain ⟨q, hq⟩ := hreach.represents
  obtain ⟨hpeek, hread, hcheap, -⟩ := hq.agrees
  have h : Holds b q.bytes := ⟨hpeek, hcheap⟩
  refine ⟨q.bytes, hpeek, hread, ⟨fun values sizes hsum => ?_, fun v hfit => ?_,
    fun ty hsize => ?_⟩⟩
  · obtain ⟨b₁, happ, h₁⟩ := appendValues_spec values h
    obtain ⟨b₂, hret, h₂⟩ := retrieveEach_spec sizes h₁ (by rw [hsum]; simp)
    rw [hsum, List.drop_left] at h₂
    rw [← List.append_nil (List.flatMap _ _)] at h₂
    obtain ⟨b₃, hvals, h₃⟩ := readValues_append values h₂
    exact ⟨b₁, b₂, b₃, happ, hret, hvals, h₃.readableBytes⟩
  · obtain ⟨b₁, hprep, h₁⟩ := prependAs_spec h v.ty v.val hfit
    obtain ⟨b₂, hret, h₂⟩ := retrieveAs_bytes h₁
    exact ⟨b₁, b₂, hprep, hret, h₂.peek⟩
  · obtain ⟨v, hv, hval⟩ := peekAs_spec h hsize
    refine ⟨v, hv, hval, fun tys hsum => ?_⟩
    -- The value agrees with the first bytes modulo their number.
    obtain ⟨c, hc⟩ := exists_twosComplement_eq ty.size (ofBE (q.bytes.take ty.size))
    have htake : (q.bytes.take ty.size).length = ty.size := List.length_take_of_le hsize
    rw [← List.take_append_drop ty.size q.bytes] at h
    obtain ⟨b', values, hvals, htys, hparts⟩ := readValues_parts tys (c := c) h
      (by rw [htake]; exact hsum)
    rw [htake] at hparts
    exact ⟨b', values, hvals, htys, by rw [hparts, hval, hc]⟩

/-- A buffer of two bytes that has grown and slid its content back. -/
theorem Reachable.keepsValues_slid :
    ∃ b, Reachable b ∧ b.peek = .ok [4, 5, 6, 7] ∧
      ∃ bytes, b.peek = .ok bytes ∧ b.readableBytes = .ok bytes.length ∧ KeepsValues b bytes := by
  have hslid : ∃ b, Reachable b ∧ b.peek = .ok [4, 5, 6, 7] :=
    ⟨_, ⟨2, _, [.append [1, 2, 3, 4], .retrieve 3, .append [5, 6, 7]], rfl,
      .cons rfl (.cons rfl (.cons rfl (.nil _)))⟩, rfl⟩
  obtain ⟨b, hreach, hpeek⟩ := hslid
  exact ⟨b, hreach, hpeek, Reachable.keepsValues hreach⟩

/-- The bytes of "HTTP" read as one integer, and as its two halves. -/
example :
    let b : Buffer := { data := [72, 84, 84, 80], readIdx := 0, writeIdx := 4 }
    b.peekAs Int32 = .ok 1213486160 ∧ b.peekAs Int16 = .ok 18516 ∧
      highOrderParts 4 1213486160 [.i16, .i16] = [18516, 21584] := by
  decide

end Buffer

end Ruduo
