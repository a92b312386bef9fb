import Ruduo.Proofs.Buffer.TypedValues
import Ruduo.Spec.Growth
import Mathlib.Order.Bounds.Basic

/-!
# `Ruduo.Proofs.Buffer.Growth`: the buffer does not grow without need

`append` is the only operation that makes the vector longer. It sizes it from the write index, which
counts the bytes already retrieved, but only when what is free at both ends does not suffice. Then
what was retrieved is less than what is appended, plus the reserve. So the new length is less than
twice the new backlog, plus the reserve (`step_length`), and `length_le_backlog` follows by
induction on the run.
-/

set_option autoImplicit false

namespace Ruduo.Buffer

open Lib (Run reached_nil_iff reached_snoc_iff)

variable {b b' b₀ : Buffer} {q : ByteQueue} {op : BufferOp} {ops : List BufferOp} {size n : Nat}

/-- An operation has one outcome. -/
theorem step_deterministic (b : Buffer) (op : BufferOp) (b₁ b₂ : Buffer) (h₁ : Step b op b₁)
    (h₂ : Step b op b₂) : b₁ = b₂ :=
  (Prod.mk.inj (Except.ok.inj (h₁.symm.trans h₂))).1

/-- An operation keeps the length of the vector, or makes it less than twice the backlog it
leaves, plus the reserve. -/
theorem step_length (h : Represents b q) (hstep : Step b op b') :
    b'.data.length = b.data.length ∨
      b'.data.length < 2 * (q.apply op).bytes.length + K_CHEAP_PREPEND_SIZE := by
  have hadm := admits_of_step h hstep
  obtain ⟨pre, post, hs, hcheap, -⟩ := h
  cases op with
  | append data =>
    obtain ⟨b₁, pre', post', happ, -, -, -, hgrown⟩ := append_spec hs data hcheap
    have hexec : Step b (.append data) b₁ := by simp only [Step, exec, happ, ok_bind]
    rw [step_deterministic _ _ _ _ hstep hexec]
    exact hgrown
  | prepend data =>
    obtain ⟨b₁, pre', hprep, -, hlen, -⟩ := prepend_spec hs data hadm
    have hexec : Step b (.prepend data) b₁ := by simp only [Step, exec, hprep, ok_bind]
    rw [step_deterministic _ _ _ _ hstep hexec]
    exact Or.inl hlen
  | retrieve size =>
    obtain ⟨b₁, pre', post', hret, -, hdata, -⟩ := retrieve_spec hs hadm hcheap
    have hexec : Step b (.retrieve size) b₁ := by simp only [Step, exec, hret, ok_bind]
    rw [step_deterministic _ _ _ _ hstep hexec, hdata]
    exact Or.inl rfl
  | retrieveAll =>
    rw [step_deterministic _ _ _ _ hstep (show Step b .retrieveAll b.retrieveAll from rfl)]
    exact Or.inl rfl

/-- One more operation adds the backlog that it leaves. -/
theorem backlogs_snoc (hrun : Run Step b₀ ops b) (hstep : Step b op b')
    (hread : b'.readableBytes = .ok n) :
    backlogs b₀ (ops ++ [op]) = insert n (backlogs b₀ ops) := by
  ext m
  rw [Set.mem_insert_iff]
  constructor
  · rintro ⟨v, hv, hm⟩
    rcases (reached_snoc_iff step_deterministic hrun hstep).mp hv with hv | rfl
    · exact Or.inr ⟨v, hv, hm⟩
    · exact Or.inl (Except.ok.inj (hm.symm.trans hread))
  · rintro (rfl | ⟨v, hv, hm⟩)
    · exact ⟨b', (reached_snoc_iff step_deterministic hrun hstep).mpr (Or.inr rfl), hread⟩
    · exact ⟨v, (reached_snoc_iff step_deterministic hrun hstep).mpr (Or.inl hv), hm⟩

/-- The bound holds along every run, by induction from its end. -/
theorem run_length (hbuild : (Builder.new.size size).build = .ok b₀) :
    ∀ {ops : List BufferOp} {b : Buffer}, Run Step b₀ ops b →
      ∃ q peak, Represents b q ∧ IsGreatest (backlogs b₀ ops) peak ∧
        b.data.length ≤ max (K_CHEAP_PREPEND_SIZE + size) (2 * peak + 7) := by
  intro ops
  -- The peak is that of the whole run so far, so the last operation is split off.
  induction ops using List.reverseRecOn with
  | nil =>
    rintro b ⟨⟩
    obtain ⟨len, hlen, hb⟩ := bind_eq_ok.mp hbuild
    obtain ⟨-, rfl⟩ := u64Add_eq_ok.mp hlen
    have hrep := build_represents hbuild
    refine ⟨_, 0, hrep, ⟨⟨b₀, reached_nil_iff.mpr rfl, hrep.agrees.readableBytes⟩, ?_⟩, ?_⟩
    · rintro m ⟨v, hv, hm⟩
      rw [reached_nil_iff.mp hv, hrep.agrees.readableBytes] at hm
      exact Nat.le_of_eq (Except.ok.inj hm).symm
    · rw [← Except.ok.inj hb]
      simp [Builder.size]
  | append_singleton ops op ih =>
    intro b' hall
    obtain ⟨b, hrun, hlast⟩ := hall.split ops
    obtain ⟨q, peak, hrep, hpeak, hlen⟩ := ih hrun
    cases hlast with
    | cons hstep hnil =>
      cases hnil
      obtain ⟨b₁, out, q', hexec, ⟨rfl, -, -⟩, hrep'⟩ :=
        step_represents op hrep (admits_of_step hrep hstep)
      obtain ⟨rfl, -⟩ := Prod.mk.inj (Except.ok.inj (hexec.symm.trans hstep))
      refine ⟨_, max (q.apply op).bytes.length peak, hrep', ?_, ?_⟩
      · rw [backlogs_snoc hrun hstep hrep'.agrees.readableBytes]
        exact hpeak.insert _
      · have hgrown := step_length hrep hstep
        simp only [K_CHEAP_PREPEND_SIZE] at hgrown hlen ⊢
        omega

/-- **The buffer does not grow without need.** In every run, of any length, the length of the
vector is at most the larger of its first length and twice the largest backlog so far, plus 7. -/
theorem length_le_backlog (hbuild : (Builder.new.size size).build = .ok b₀)
    (hrun : Run Step b₀ ops b) :
    ∃ peak, IsGreatest (backlogs b₀ ops) peak ∧
      b.data.length ≤ max (K_CHEAP_PREPEND_SIZE + size) (2 * peak + 7) := by
  obtain ⟨q, peak, -, hpeak, hlen⟩ := run_length hbuild hrun
  exact ⟨peak, hpeak, hlen⟩

/-- A buffer of four bytes grows once and then slides, while ten bytes go through it. -/
theorem length_le_backlog_cycle :
    ∃ b₀ b, (Builder.new.size 4).build = .ok b₀ ∧
      Run Step b₀ [.append [1, 2, 3, 4, 5, 6], .retrieve 5, .append [7, 8], .retrieve 2,
        .append [9, 10]] b ∧
      ∃ peak, IsGreatest (backlogs b₀ [.append [1, 2, 3, 4, 5, 6], .retrieve 5, .append [7, 8],
        .retrieve 2, .append [9, 10]]) peak ∧
        b.data.length ≤ max (K_CHEAP_PREPEND_SIZE + 4) (2 * peak + 7) := by
  have hrun : ∃ b₀ b, (Builder.new.size 4).build = .ok b₀ ∧
      Run Step b₀ [.append [1, 2, 3, 4, 5, 6], .retrieve 5, .append [7, 8], .retrieve 2,
        .append [9, 10]] b :=
    ⟨_, _, rfl, .cons rfl (.cons rfl (.cons rfl (.cons rfl (.cons rfl (.nil _)))))⟩
  obtain ⟨b₀, b, hbuild, hrun⟩ := hrun
  exact ⟨b₀, b, hbuild, hrun, length_le_backlog hbuild hrun⟩

end Ruduo.Buffer
