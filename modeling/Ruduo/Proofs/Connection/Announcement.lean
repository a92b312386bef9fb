import Ruduo.Proofs.Connection.Writing
import Ruduo.Spec.Announcement

/-!
# `Ruduo.Proofs.Connection.Announcement`: when received bytes are announced

The loop of `handle_read` has three exits, and only the one for `WouldBlock` calls
`on_read_complete`. Bytes that were read before the end of the stream, in the same call, are in
`input` when `on_close` is called, and nobody has heard of them.

* `readContract_iff`: a run of reads keeps the contract exactly when the end of the stream is met
  alone.
-/

set_option autoImplicit false

namespace Ruduo.Session

open Lib (Run Outcome)

variable {M : Type} {s s' s₀ t : Session M} {ls : List (ReadCall M)} {bytes : List UInt8}

/-- A read ends in one way. -/
private theorem announces_of_meetsEof {outcomes : List (Except IoError (List UInt8))}
    (h : meetsEof outcomes = true) : announces outcomes = false := by
  induction outcomes with
  | nil => rfl
  | cons outcome outcomes ih =>
    cases outcome with
    | ok chunk =>
      cases chunk with
      | nil => rfl
      | cons b bs => exact ih h
    | error e => cases h

/-! ### The bytes -/

/-- A callback takes out of `input` what it retrieves, and nothing else. -/
private theorem acts_input (as : List (Act M)) : ∀ {bytes : List UInt8} {s : Session M},
    acts as s = .ok s' → s.conn.input.Holds bytes →
      s'.conn.input.Holds (bytes.drop (retrieved as)) := by
  induction as with
  | nil =>
    intro bytes s hok h
    cases hok
    exact h
  | cons a as ih =>
    intro bytes s hok h
    obtain ⟨s₁, hact, hok⟩ := bind_eq_ok.mp hok
    have other : Outgoing s.conn s₁.conn → s'.conn.input.Holds (bytes.drop (retrieved as)) := by
      intro hsame
      exact ih hok (by rw [hsame.input]; exact h)
    cases a with
    | enableIo mode => simpa [retrieved] using other (enableIo_outgoing hact)
    | disableIo mode => simpa [retrieved] using other (disableIo_outgoing hact)
    | send data outcomes => simpa [retrieved] using other (send_outgoing hact)
    | notify msg =>
      cases hact
      simpa [retrieved] using other ⟨rfl, rfl⟩
    | shutdown outcome =>
      obtain ⟨conn, hconn, hact⟩ := bind_eq_ok.mp hact
      obtain ⟨io, -, hconn⟩ := bind_eq_ok.mp hconn
      cases hconn
      cases hact
      simpa [retrieved] using ih hok h
    | retrieve size =>
      obtain ⟨input, hret, hact⟩ := bind_eq_ok.mp hact
      cases hact
      -- The buffer asserts that the bytes are there.
      have hsize : size ≤ bytes.length := by
        obtain ⟨readable, hreadable, hret⟩ := bind_eq_ok.mp hret
        rw [h.readableBytes] at hreadable
        cases hreadable
        obtain ⟨u, hassert, -⟩ := bind_eq_ok.mp hret
        simpa [assertThat] using hassert
      obtain ⟨input', hret', h'⟩ := h.retrieve hsize
      rw [hret'] at hret
      cases hret
      have hrest := ih hok h'
      rw [List.drop_drop] at hrest
      simpa [retrieved] using hrest

/-- The loop of `handle_read`, by induction on what the socket answers. -/
private theorem handleReadLoop_input {as : List (Act M)} {closing : List (TcpConnMessage M)}
    (outcomes : List (Except IoError (List UInt8))) : ∀ {bytes : List UInt8} {s : Session M},
    handleReadLoop as closing outcomes s = .ok s' → s.conn.input.Holds bytes →
      s'.conn.input.Holds ((bytes ++ received outcomes).drop
        (if announces outcomes then retrieved as else 0)) := by
  induction outcomes with
  | nil => intro bytes s hok; cases hok
  | cons outcome outcomes ih =>
    intro bytes s hok h
    cases outcome with
    | ok chunk =>
      cases chunk with
      | nil =>
        -- The end of the stream.
        rw [handleReadLoop_eof] at hok
        obtain ⟨input, happ, hok⟩ := bind_eq_ok.mp hok
        obtain ⟨s₁, hdisable, hok⟩ := bind_eq_ok.mp hok
        cases hok
        obtain ⟨input', happ', h'⟩ := h.append []
        rw [happ'] at happ
        cases happ
        show s₁.conn.input.Holds _
        rw [(disableIo_outgoing hdisable).input]
        simpa [received, announces] using h'
      | cons b bs =>
        rw [handleReadLoop_bytes (by simp)] at hok
        obtain ⟨input, happ, hok⟩ := bind_eq_ok.mp hok
        obtain ⟨input', happ', h'⟩ := h.append ((b :: bs).take K_READ_BUF_SIZE)
        rw [happ'] at happ
        cases happ
        have hrest := ih hok h'
        rw [List.append_assoc] at hrest
        exact hrest
    | error e =>
      rw [handleReadLoop_error] at hok
      split at hok
      · rename_i hkind
        simpa [received, announces, hkind] using acts_input as hok h
      · rename_i hkind
        cases hok
        simpa [received, announces, hkind] using h

/-- A call of `handle_read` adds what was received to `input`, less what its callback takes out. -/
theorem readStep_input {l : ReadCall M} (hstep : ReadStep s l s') (h : s.conn.input.Holds bytes) :
    s'.conn.input.Holds ((bytes ++ received l.outcomes).drop l.retrieved) :=
  handleReadLoop_input l.outcomes hstep h

/-! ### The events -/

/-- The events since `s`, when they are what the log has behind its old part. -/
private theorem since_eq {events : List ConnEvent} (h : s'.conn.log = s.conn.log ++ events) :
    s.since s' = events := by
  rw [since, h, List.drop_left]

/-- A callback neither closes nor announces. -/
theorem acts_log (as : List (Act M)) (hok : acts as s = .ok s') :
    ∃ events, s'.conn.log = s.conn.log ++ events ∧ .readComplete ∉ events ∧ .closed ∉ events := by
  have hstable : Stable (fun c => ∃ events, c.log = s.conn.log ++ events ∧
      .readComplete ∉ events ∧ .closed ∉ events) (fun _ => True)
      (fun e => e ≠ .readComplete ∧ e ≠ .closed) := by
    refine stable_log (P := fun log => ∃ events, log = s.conn.log ++ events ∧
      .readComplete ∉ events ∧ .closed ∉ events)
      (A := fun e => e ≠ .readComplete ∧ e ≠ .closed) ?_ (by simp) (by simp)
    rintro log e ⟨hcomplete, hclosed⟩ ⟨events, rfl, hevents⟩
    exact ⟨events ++ [e], by simp, by simp [hevents.1, hcomplete.symm],
      by simp [hevents.2, hclosed.symm]⟩
  exact (hstable.acts as s ⟨[], by simp⟩).of_ok hok

/-- What a read records: whether it announces, and whether it closes. -/
private theorem handleReadLoop_log {as : List (Act M)} {closing : List (TcpConnMessage M)}
    (outcomes : List (Except IoError (List UInt8))) : ∀ {s : Session M},
    handleReadLoop as closing outcomes s = .ok s' →
      ∃ events, s'.conn.log = s.conn.log ++ events ∧
        (.readComplete ∈ events ↔ announces outcomes = true) ∧
        (.closed ∈ events ↔ meetsEof outcomes = true) := by
  induction outcomes with
  | nil => intro s hok; cases hok
  | cons outcome outcomes ih =>
    intro s hok
    cases outcome with
    | ok chunk =>
      cases chunk with
      | nil =>
        -- The end of the stream: the interests are disabled, and `on_close` is called.
        rw [handleReadLoop_eof] at hok
        obtain ⟨input, -, hok⟩ := bind_eq_ok.mp hok
        obtain ⟨s₁, hdisable, hok⟩ := bind_eq_ok.mp hok
        obtain ⟨conn, hconn, hs₁⟩ := bind_eq_ok.mp hdisable
        cases hs₁
        cases hok
        refine ⟨[.disabled (Interest.READABLE.add .WRITABLE), .closed], ?_, by simp [announces],
          by simp [meetsEof]⟩
        show conn.log ++ [.closed] = _
        rw [TcpConnection.disableIo_log hconn, List.append_assoc]
        rfl
      | cons b bs =>
        rw [handleReadLoop_bytes (by simp)] at hok
        obtain ⟨input, -, hok⟩ := bind_eq_ok.mp hok
        exact ih (s := { s with conn := { s.conn with input } }) hok
    | error e =>
      -- `WouldBlock` announces what was read, and any other error records nothing.
      rw [handleReadLoop_error] at hok
      split at hok
      · rename_i hkind
        obtain ⟨events, hlog, hcomplete, hclosed⟩ := acts_log as hok
        refine ⟨.readComplete :: events, ?_, by simp [announces, hkind],
          by simp [meetsEof, hclosed]⟩
        rw [hlog]
        show s.conn.log ++ [.readComplete] ++ events = _
        rw [List.append_assoc, List.singleton_append]
      · rename_i hkind
        cases hok
        exact ⟨[], by simp, by simp [announces, hkind], by simp [meetsEof]⟩

/-- What a call of `handle_read` adds to the log: an announcement and a closing, each where the
answers of the socket call for it. -/
theorem readStep_log {l : ReadCall M} (hstep : ReadStep s l s') :
    ∃ events, s'.conn.log = s.conn.log ++ events ∧
      (.readComplete ∈ events ↔ announces l.outcomes = true) ∧
      (.closed ∈ events ↔ meetsEof l.outcomes = true) := by
  obtain ⟨events, hlog, hcomplete, hclosed⟩ := handleReadLoop_log l.outcomes hstep
  refine ⟨.reading :: events, ?_, by simp [hcomplete], by simp [hclosed]⟩
  rw [hlog]
  show s.conn.log ++ [.reading] ++ events = _
  rw [List.append_assoc, List.singleton_append]

/-- What a run of reads records: whether one of them announces. -/
theorem run_log (hrun : Run ReadStep s ls s') :
    ∃ events, s'.conn.log = s.conn.log ++ events ∧
      (.readComplete ∈ events ↔ ∃ k ∈ ls, announces k.outcomes = true) := by
  induction hrun with
  | nil s => exact ⟨[], by simp, by simp⟩
  | cons hstep _ ih =>
    obtain ⟨events, hlog, hcomplete, -⟩ := readStep_log hstep
    obtain ⟨events', hlog', hcomplete'⟩ := ih
    refine ⟨events ++ events', by rw [hlog', hlog, List.append_assoc], ?_⟩
    simp [hcomplete, hcomplete']

/-- A read calls `on_close` when it meets the end of the stream. -/
private theorem closed_since_iff {l : ReadCall M} (hstep : ReadStep s l s') :
    .closed ∈ s.since s' ↔ meetsEof l.outcomes = true := by
  obtain ⟨events, hlog, -, hclosed⟩ := readStep_log hstep
  rw [since_eq hlog, hclosed]

/-- A run of reads calls `on_read_complete` when one of them announces. -/
private theorem readComplete_since_iff (hrun : Run ReadStep s ls s') :
    .readComplete ∈ s.since s' ↔ ∃ k ∈ ls, announces k.outcomes = true := by
  obtain ⟨events, hlog, hcomplete⟩ := run_log hrun
  rw [since_eq hlog, hcomplete]

/-! ### Runs -/

/-- A call of `handle_read` has one outcome. -/
theorem readStep_deterministic (s : Session M) (l : ReadCall M) (t u : Session M)
    (h : ReadStep s l t) (h' : ReadStep s l u) : t = u := Except.ok.inj (h.symm.trans h')

/-- The bytes of a run of reads stay in order. -/
theorem keepsBytes (hin : s₀.conn.input.Holds bytes) (ls : List (ReadCall M)) :
    KeepsBytes s₀ ls := by
  intro ls₁ l ls₂ s s' _ hrun hstep bytes' hpeek
  have hs : ∃ bytes, s.conn.input.Holds bytes := by
    refine hrun.invariant (P := fun s => ∃ bytes, s.conn.input.Holds bytes) ?_ ⟨bytes, hin⟩
    rintro s l s' ⟨bytes, h⟩ hstep
    exact ⟨_, readStep_input hstep h⟩
  obtain ⟨bytes'', h⟩ := hs
  obtain rfl : bytes'' = bytes' := Except.ok.inj (h.peek.symm.trans hpeek)
  exact (readStep_input hstep h).peek

/-- **When received bytes are announced.** For every run of reads that return, whatever the
socket answers and the callbacks do, the contract holds exactly when the end of the stream is met
alone. -/
theorem readContract_iff (hin : s₀.conn.input.Holds bytes) (hrun : Run ReadStep s₀ ls s) :
    ReadContract s₀ ls ↔ EofComesAlone ls := by
  constructor
  · rintro ⟨-, hannounces⟩ ls₁ l ls₂ rfl heof
    obtain ⟨t, hrun₁, hrest⟩ := Run.split ls₁ hrun
    cases hrest with
    | @cons _ u _ _ _ hstep _ =>
      have hsilent : announces l.outcomes ≠ true := by simp [announces_of_meetsEof heof]
      have hall := hannounces ls₁ l ls₂ t u rfl hrun₁ hstep ((closed_since_iff hstep).mpr heof)
      refine ⟨?_, fun ms₁ m ms₂ hls hreceived => ?_⟩
      · -- The read that meets the end of the stream does not announce.
        by_contra hreceived
        have hmem := hall ls₁ l [] t rfl hrun₁ hreceived
        obtain ⟨k, hk, hannounce⟩ := (readComplete_since_iff (.cons hstep (.nil u))).mp hmem
        exact hsilent (List.mem_singleton.mp hk ▸ hannounce)
      · -- So it is one of the reads before that announces.
        subst hls
        obtain ⟨v, hrun₂, hrun₃⟩ := Run.split ms₁ hrun₁
        have hmem := hall ms₁ m (ms₂ ++ [l]) v (by simp) hrun₂ hreceived
        obtain ⟨k, hk, hannounce⟩ := (readComplete_since_iff (hrun₃.snoc hstep)).mp hmem
        rcases List.mem_append.mp hk with hk | hk
        · exact ⟨k, hk, hannounce⟩
        · exact absurd (List.mem_singleton.mp hk ▸ hannounce) hsilent
  · intro halone
    refine ⟨keepsBytes hin ls, ?_⟩
    intro ls₁ l ls₂ t u hls hrun₁ hstep hclosed ms₁ m ms₂ v hms hrun₂ hreceived
    obtain ⟨hnothing, hearlier⟩ := halone ls₁ l ls₂ hls ((closed_since_iff hstep).mp hclosed)
    rcases List.eq_nil_or_concat ms₂ with rfl | ⟨ms₃, l', rfl⟩
    · -- The read that meets the end of the stream receives nothing.
      cases List.append_inj_right' hms rfl
      exact absurd hnothing hreceived
    · -- An earlier read was announced before this one.
      rw [List.concat_eq_append, ← List.cons_append, ← List.append_assoc] at hms
      obtain ⟨hls₁, hl⟩ := List.append_inj' hms rfl
      cases hl
      obtain ⟨k, hk, hannounce⟩ := hearlier ms₁ m ms₃ hls₁ hreceived
      rw [hls₁] at hrun₁
      obtain ⟨v', hrun₂', hrun₃⟩ := Run.split ms₁ hrun₁
      obtain rfl := hrun₂.deterministic readStep_deterministic hrun₂'
      exact (readComplete_since_iff (hrun₃.snoc hstep)).mpr
        ⟨k, List.mem_append_left _ hk, hannounce⟩

section Example

/-- Its input buffer is empty at first. -/
theorem establishedSession_input : establishedSession.conn.input.Holds [] := ⟨rfl, by decide⟩

/-- Two bytes, announced, and then the end of the stream. -/
def politeReads : List (ReadCall String) :=
  [{ outcomes := [.ok [5, 6], .error { kind := .wouldBlock, rawOsError := none }]
     as := [.retrieve 1], closing := [] },
    { outcomes := [.ok []], as := [], closing := [] }]

/-- A client that closes after its last bytes were read is served as promised. -/
theorem readContract_iff_polite :
    ReadContract establishedSession politeReads ↔ EofComesAlone politeReads := by
  have hrun : Run ReadStep establishedSession politeReads _ := .cons rfl (.cons rfl (.nil _))
  exact readContract_iff establishedSession_input hrun

/-- The peer sends two bytes and closes, and the socket has both at once: the connection is closed
and its removal enqueued, and the two bytes were never announced. -/
theorem bytes_before_eof_unannounced :
    ¬ ReadContract establishedSession
        [{ outcomes := [.ok [5, 6], .ok []], as := [], closing := [] }] := by
  rintro ⟨-, hannounces⟩
  have hmem := hannounces [] _ [] establishedSession _ rfl (.nil _) rfl (by decide) [] _ []
    establishedSession rfl (.nil _) (by decide)
  revert hmem
  decide

end Example

end Ruduo.Session
