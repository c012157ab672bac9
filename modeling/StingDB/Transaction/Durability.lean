import Mathlib.Data.List.Perm.Subperm
import StingDB.Lib.Machine
import StingDB.Transaction.LogManager

/-!
# Which log records have been handed to I/O

The log on its own, as a machine that appends and flushes.  A record is handed to I/O by the first
`Flush` after it, unless its buffer has been swapped out by an append before that: then it never
is.  `handedUpTo_iff` says what that means for a whole stretch of the log, of all records up to
some LSN, and it needs no bound on the size of a record.
-/

set_option autoImplicit false

namespace StingDB

namespace LogManager

open Machine

/-! ## The log as a machine -/

/-- A call of the log. -/
inductive Call where
  | appendLogRecord (r : LogRecord)
  | flush
  deriving DecidableEq

/-- One call: the LSN returned, if any, and the log after it. -/
def step (m : LogManager) : Call → Option (Option ℕ × LogManager)
  | .appendLogRecord r => some (some (m.appendLogRecord r).1, (m.appendLogRecord r).2)
  | .flush => some (none, m.flush)

/-- The call swaps out no record without handing it to I/O: a record that is appended fits, or
there is none in the buffer to be swapped out. -/
def Keeps (m : LogManager) : Call → Prop
  | .appendLogRecord r => m.Overflows r → m.live = []
  | .flush => True

/-- How many records the calls append. -/
def appends (cs : List Call) : ℕ := cs.countP (· ≠ .flush)

/-- All records with LSNs up to `lsn` have been handed to I/O. -/
def HandedUpTo (m : LogManager) (lsn : ℕ) : Prop :=
  ∀ l, 1 ≤ l → l ≤ lsn → l ∈ m.handed.map LogEntry.lsn

/-- Since the record with this LSN was appended there has been a `Flush`, and up to that `Flush` no
append swapped out records. -/
def Forced (cs : List Call) (lsn : ℕ) : Prop :=
  ∃ pre post, cs = pre ++ .flush :: post ∧ lsn ≤ appends pre ∧ Along step Keeps {} pre

/-! ## What an append keeps -/

/-- The log buffer holds the last of the records. -/
structure Tail (m : LogManager) : Prop where
  recorded : m.Recorded
  suffix : m.live <:+ m.appended

namespace Tail

variable {m : LogManager} (h : m.Tail)

include h

theorem place (r : LogRecord) : (m.place r).Tail where
  recorded := h.recorded.place r
  suffix := by
    obtain ⟨pre, hpre⟩ := h.suffix
    rw [live_place h.recorded.records_le]
    refine ⟨pre, ?_⟩
    rw [← List.append_assoc, hpre]
    rfl

theorem appendLogRecord (r : LogRecord) : (m.appendLogRecord r).2.Tail := by
  have hswap : m.swapBuffers.Tail := ⟨h.recorded.swapBuffers, List.nil_suffix⟩
  rw [LogManager.appendLogRecord]
  split
  · exact hswap.place r
  · exact h.place r

theorem flush : m.flush.Tail where
  recorded := h.recorded.flush
  suffix := List.nil_suffix

/-- A `Flush` hands all records up to `lsn` to I/O if that had been done before, or if none has been
lost so far. -/
theorem handedUpTo_flush_iff {lsn : ℕ} (hlsn : 0 < lsn) :
    m.flush.HandedUpTo lsn ↔ m.HandedUpTo lsn ∨ lsn ≤ m.appended.length ∧ m.Complete := by
  have hlsns : ∀ l, l ∈ m.appended.map LogEntry.lsn ↔ 1 ≤ l ∧ l ≤ m.appended.length := by
    intro l
    rw [h.recorded.lsns, List.mem_range'_1]
    omega
  refine ⟨fun hall ↦ ?_, ?_⟩
  · by_cases hbefore : m.HandedUpTo lsn
    · exact Or.inl hbefore
    right
    have hle : lsn ≤ m.appended.length :=
      ((hlsns lsn).mp ((h.recorded.sublist.map _).subset (hall lsn hlsn le_rfl))).2
    refine ⟨hle, ?_⟩
    -- the record that is new among these is in the log buffer, so those before the log buffer
    -- have been handed to I/O
    obtain ⟨l, hl₁, hl, hnot⟩ : ∃ l, 1 ≤ l ∧ l ≤ lsn ∧ l ∉ m.handed.map LogEntry.lsn := by
      simpa [HandedUpTo] using hbefore
    obtain ⟨pre, hpre⟩ := h.suffix
    have hsub : m.handed.Sublist pre := by
      have hsub := h.recorded.sublist
      rwa [← hpre, List.append_sublist_append_right] at hsub
    have hsplit := h.recorded.lsns
    rw [← hpre, List.map_append, List.length_append, ← List.range'_append_1] at hsplit
    obtain ⟨hpre₁, hlive⟩ := List.append_inj hsplit (by simp)
    have hlpos : pre.length < l := by
      have hmem : l ∈ m.live.map LogEntry.lsn := by
        have hmem := hall l hl₁ hl
        rw [handed_flush, List.map_append, List.mem_append] at hmem
        exact hmem.resolve_left hnot
      rw [hlive, List.mem_range'_1] at hmem
      omega
    have hsubset : pre.map LogEntry.lsn ⊆ m.handed.map LogEntry.lsn := by
      intro l' hl'
      rw [hpre₁, List.mem_range'_1] at hl'
      have hmem := hall l' hl'.1 (by omega)
      rw [handed_flush, List.map_append, List.mem_append] at hmem
      refine hmem.resolve_right fun hmem ↦ ?_
      rw [hlive, List.mem_range'_1] at hmem
      omega
    have hnodup : (pre.map LogEntry.lsn).Nodup := hpre₁ ▸ List.nodup_range' ..
    have hlen : pre.length ≤ m.handed.length := by
      simpa using (List.subperm_of_subset hnodup hsubset).length_le
    rw [Complete, hsub.eq_of_length_le hlen, hpre]
  · rintro (hbefore | ⟨hle, hc⟩) l hl₁ hl
    · rw [handed_flush, List.map_append]
      exact List.mem_append_left _ (hbefore l hl₁ hl)
    · rw [handed_flush, show m.handed ++ m.live = m.appended from hc, hlsns]
      exact ⟨hl₁, hl.trans hle⟩

end Tail

/-! ## Runs -/

theorem tail_step {m m' : LogManager} {c : Call} {o : Option ℕ} (h : m.Tail)
    (hs : step m c = some (o, m')) : m'.Tail := by
  cases c with
  | appendLogRecord r => cases hs; exact h.appendLogRecord r
  | flush => cases hs; exact h.flush

theorem tail_of_run {m : LogManager} {cs : List Call} {os : List (Option ℕ)}
    (hr : run step {} cs = some (os, m)) : m.Tail :=
  run_invariant (P := fun _ _ ↦ True) (I := Tail) (fun _ _ _ _ h _ hs ↦ tail_step h hs)
    ⟨recorded_init, List.nil_suffix⟩ along_true hr

theorem appends_of_run {m : LogManager} {cs : List Call} {os : List (Option ℕ)}
    (hr : run step {} cs = some (os, m)) : m.appended.length = appends cs := by
  refine run_history (P := fun _ _ ↦ True)
    (I := fun cs _ (m : LogManager) ↦ m.appended.length = appends cs) rfl ?_ along_true hr
  intro cs _ m c o m' _ ih _ hs
  rw [appends, List.countP_append, ← appends, ← ih]
  cases c with
  | appendLogRecord r => cases hs; simp [appendLogRecord_appended]
  | flush => cases hs; simp

/-- A run of the log loses no record exactly when no append swaps any out. -/
theorem complete_iff_keeps {m : LogManager} {cs : List Call} {os : List (Option ℕ)}
    (hr : run step {} cs = some (os, m)) : m.Complete ↔ Along step Keeps {} cs := by
  induction cs using List.reverseRecOn generalizing m os with
  | nil =>
    cases hr
    exact iff_of_true rfl trivial
  | append_singleton cs c ih =>
    obtain ⟨m₁, os₁, o, hr₁, hs, rfl⟩ := run_concat.mp hr
    have hstep : m.Complete ↔ m₁.Complete ∧ m₁.Keeps c := by
      cases c with
      | appendLogRecord r =>
        cases hs
        exact (tail_of_run hr₁).recorded.complete_appendLogRecord_iff_live r
      | flush => cases hs; exact (complete_flush_iff m₁).trans (and_iff_left trivial).symm
    rw [hstep, ih hr₁, along_concat]
    refine and_congr_right fun _ ↦ ⟨fun hk os' m' hr' ↦ ?_, fun hk ↦ hk os₁ m₁ hr₁⟩
    rw [hr₁] at hr'
    cases hr'
    exact hk

theorem forced_concat_appendLogRecord (cs : List Call) (r : LogRecord) (lsn : ℕ) :
    Forced (cs ++ [.appendLogRecord r]) lsn ↔ Forced cs lsn := by
  constructor
  · rintro ⟨pre, post, heq, h⟩
    rcases concat_eq_append_cons.mp heq with ⟨post, -, heq⟩ | ⟨-, -, hc⟩
    · exact ⟨pre, post, heq, h⟩
    · exact absurd hc (by simp)
  · rintro ⟨pre, post, heq, h⟩
    exact ⟨pre, _, concat_eq_append_cons.mpr (Or.inl ⟨post, rfl, heq⟩), h⟩

theorem forced_concat_flush (cs : List Call) (lsn : ℕ) :
    Forced (cs ++ [.flush]) lsn ↔ Forced cs lsn ∨ lsn ≤ appends cs ∧ Along step Keeps {} cs := by
  constructor
  · rintro ⟨pre, post, heq, h⟩
    rcases concat_eq_append_cons.mp heq with ⟨post, -, heq⟩ | ⟨-, rfl, -⟩
    · exact Or.inl ⟨pre, post, heq, h⟩
    · exact Or.inr h
  · rintro (⟨pre, post, heq, h⟩ | h)
    · exact ⟨pre, _, concat_eq_append_cons.mpr (Or.inl ⟨post, rfl, heq⟩), h⟩
    · exact ⟨cs, [], rfl, h⟩

/-- **When the log is on its way to disk up to some record.**  After any calls of the log, all
records up to an LSN have been handed to I/O exactly when there has been a `Flush` since the last of
them was appended, up to which no append swapped out records. -/
theorem handedUpTo_iff {m : LogManager} {cs : List Call} {os : List (Option ℕ)} {lsn : ℕ}
    (hlsn : 0 < lsn) (hr : run step {} cs = some (os, m)) : m.HandedUpTo lsn ↔ Forced cs lsn := by
  induction cs using List.reverseRecOn generalizing m os with
  | nil =>
    cases hr
    refine iff_of_false (fun h ↦ ?_) fun ⟨pre, post, heq, _⟩ ↦ ?_
    · simpa using h 1 le_rfl hlsn
    · simp at heq
  | append_singleton cs c ih =>
    obtain ⟨m₁, os₁, o, hr₁, hs, rfl⟩ := run_concat.mp hr
    cases c with
    | appendLogRecord r =>
      cases hs
      rw [forced_concat_appendLogRecord, ← ih hr₁, HandedUpTo, appendLogRecord_handed, HandedUpTo]
    | flush =>
      cases hs
      rw [forced_concat_flush, ← ih hr₁, ← appends_of_run hr₁, ← complete_iff_keeps hr₁]
      exact (tail_of_run hr₁).handedUpTo_flush_iff hlsn

end LogManager

end StingDB
