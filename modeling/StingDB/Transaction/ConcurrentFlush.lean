import StingDB.Lib.Machine
import StingDB.Transaction.LogManager

/-!
# Threads that flush the log

`Flush` releases the latch between its two steps: it swaps the buffers under the latch, and then
writes out the first `flush_size_` bytes of `flush_buffer_`, as it finds them, and sets
`flush_size_` to zero.  Meanwhile other threads can append, and flush.  There are no more than two
buffers and one `flush_size_`, so the next swap, whoever makes it, gives the buffer that is being
written out back to those who append, and lets the `Flush` that was about to write it out find
another.

`undisturbed_iff_alone` says that a second swap is all that can go wrong: as long as none is made
while a `Flush` is between its steps, each `Flush` writes out what it has swapped out.
-/

set_option autoImplicit false

namespace StingDB

open Machine

/-- The second step of `Flush`. -/
def LogManager.writeOut (m : LogManager) : LogManager :=
  { m with flushSize := {}, handed := m.handed ++ m.flushBuffer.take m.flushSize.records }

theorem LogManager.flush_eq (m : LogManager) : m.flush = m.swapBuffers.writeOut := rfl

/-- A `Flush` that is between its two steps, and what its swap has installed. -/
structure Flushing where
  /-- Which `Flush` it is. -/
  ticket : ℕ
  /-- The memory of `flush_buffer_`. -/
  storage : ℕ
  /-- `flush_size_` -/
  size : Extent
  /-- The first `flush_size_` bytes of `flush_buffer_`. -/
  entries : List LogEntry

/-- The log, and the threads that are in the middle of a `Flush`.  Which thread it is that appends
or begins to flush makes no difference, so threads have no names. -/
structure LogThreads where
  /-- The log. -/
  manager : LogManager := {}
  /-- Which of the two vectors' memory is `log_buffer_`. -/
  logStorage : ℕ := 0
  /-- Which is `flush_buffer_`. -/
  flushStorage : ℕ := 1
  /-- The number of `Flush`es that have begun. -/
  tickets : ℕ := 0
  /-- Those of them that are between their steps. -/
  flushing : List Flushing := []

namespace LogThreads

/-- `SwapBuffers`: `std::swap` of two vectors exchanges their memory. -/
def swapBuffers (s : LogThreads) : LogThreads :=
  { s with
    manager := s.manager.swapBuffers
    logStorage := s.flushStorage
    flushStorage := s.logStorage }

/-- `AppendLogRecord`, which holds the latch to its end. -/
def appendLogRecord (s : LogThreads) (r : LogRecord) : LogThreads :=
  let s := if s.manager.Overflows r then s.swapBuffers else s
  { s with manager := s.manager.place r }

theorem appendLogRecord_manager (s : LogThreads) (r : LogRecord) :
    (s.appendLogRecord r).manager = (s.manager.appendLogRecord r).2 := by
  rw [appendLogRecord, LogManager.appendLogRecord]
  split <;> rfl

/-- What a `Flush` would find now. -/
def found (s : LogThreads) (ticket : ℕ) : Flushing :=
  { ticket
    storage := s.flushStorage
    size := s.manager.flushSize
    entries := s.manager.flushBuffer.take s.manager.flushSize.records }

/-- The first step of `Flush`. -/
def beginFlush (s : LogThreads) : LogThreads :=
  let s := s.swapBuffers
  { s with tickets := s.tickets + 1, flushing := s.flushing ++ [s.found s.tickets] }

/-- The second step of a `Flush`. -/
def endFlush (s : LogThreads) (ticket : ℕ) : LogThreads :=
  { s with
    manager := s.manager.writeOut
    flushing := s.flushing.filter (·.ticket ≠ ticket) }

/-- An atomic step of some thread. -/
inductive Event where
  | append (r : LogRecord)
  | beginFlush
  | endFlush (ticket : ℕ)

/-- One step, and what has been written out by it. -/
def step (s : LogThreads) : Event → Option (List LogEntry × LogThreads)
  | .append r => some ([], s.appendLogRecord r)
  | .beginFlush => some ([], s.beginFlush)
  | .endFlush ticket =>
    if ∃ f ∈ s.flushing, f.ticket = ticket then some ((s.found ticket).entries, s.endFlush ticket)
    else none

/-- No buffer that a `Flush` is to write out is the one that records are appended to. -/
def Apart (s : LogThreads) : Prop := ∀ f ∈ s.flushing, f.storage ≠ s.logStorage

/-- A `Flush` that writes finds what it has installed: the buffer, its size and the bytes. -/
def FindsOwn (s : LogThreads) : Event → Prop
  | .endFlush ticket => ∀ f ∈ s.flushing, f.ticket = ticket → s.found ticket = f
  | _ => True

/-- The step swaps the buffers. -/
def Swaps (s : LogThreads) : Event → Prop
  | .append r => s.manager.Overflows r
  | .beginFlush => True
  | .endFlush _ => False

/-- No swap comes while a `Flush` is between its steps. -/
def Alone (s : LogThreads) (e : Event) : Prop := s.Swaps e → s.flushing = []

/-! ## What one swap at a time comes to -/

/-- At most one `Flush` is between its steps, and what it has installed is still there. -/
structure Undisturbed (s : LogThreads) : Prop where
  storage_ne : s.logStorage ≠ s.flushStorage
  found_eq : ∀ f ∈ s.flushing, s.found f.ticket = f
  length_le : s.flushing.length ≤ 1

theorem undisturbed_init : Undisturbed {} where
  storage_ne := by decide
  found_eq := by simp
  length_le := by simp

namespace Undisturbed

variable {s s' : LogThreads} (h : s.Undisturbed)

include h

theorem apart : s.Apart := by
  intro f hf heq
  have hfound := congrArg Flushing.storage (h.found_eq f hf)
  exact h.storage_ne (heq.symm.trans hfound.symm)

theorem findsOwn (e : Event) : s.FindsOwn e := by
  cases e with
  | endFlush ticket =>
    rintro f hf rfl
    exact h.found_eq f hf
  | append r => trivial
  | beginFlush => trivial

theorem append {r : LogRecord} (ha : s.Alone (.append r)) :
    (s.appendLogRecord r).Undisturbed := by
  rw [appendLogRecord]
  by_cases hov : s.manager.Overflows r
  · rw [if_pos hov]
    have hnil : s.flushing = [] := ha hov
    exact
      { storage_ne := h.storage_ne.symm
        found_eq := fun f hf ↦ absurd (hnil ▸ hf : f ∈ []) List.not_mem_nil
        length_le := h.length_le }
  · rw [if_neg hov]
    exact { h with }

theorem beginFlush (ha : s.Alone .beginFlush) : s.beginFlush.Undisturbed := by
  have hnil : s.flushing = [] := ha trivial
  have hflushing : s.beginFlush.flushing = [s.swapBuffers.found s.tickets] := by
    show s.flushing ++ _ = _
    rw [hnil, List.nil_append]
    rfl
  exact
    { storage_ne := h.storage_ne.symm
      found_eq := by
        rw [hflushing]
        rintro f hf
        rw [List.mem_singleton.mp hf]
        rfl
      length_le := by rw [hflushing, List.length_singleton] }

theorem endFlush {ticket : ℕ} (hmem : ∃ f ∈ s.flushing, f.ticket = ticket) :
    (s.endFlush ticket).Undisturbed := by
  obtain ⟨f, hf, rfl⟩ := hmem
  have hone : s.flushing = [f] := by
    obtain ⟨g, hg⟩ := List.length_eq_one_iff.mp
      (le_antisymm h.length_le (List.length_pos_of_mem hf))
    rw [hg] at hf ⊢
    rw [List.mem_singleton.mp hf]
  have hnil : (s.endFlush f.ticket).flushing = [] := by
    show s.flushing.filter _ = []
    simp [hone]
  exact
    { storage_ne := h.storage_ne
      found_eq := fun g hg ↦ absurd (hnil ▸ hg : g ∈ []) List.not_mem_nil
      length_le := by simp [hnil] }

theorem step {e : Event} {o : List LogEntry} (ha : s.Alone e) (hs : s.step e = some (o, s')) :
    s'.Undisturbed := by
  cases e with
  | append r =>
    cases hs
    exact h.append ha
  | beginFlush =>
    cases hs
    exact h.beginFlush ha
  | endFlush ticket =>
    rw [LogThreads.step] at hs
    split at hs
    · rename_i hmem
      cases hs
      exact h.endFlush hmem
    · exact absurd hs (by simp)

/-- A swap gives the buffer of a `Flush` that is between its steps to those who append. -/
theorem alone {e : Event} {o : List LogEntry} (hs : s.step e = some (o, s')) (ha : s'.Apart) :
    s.Alone e := by
  intro hsw
  rw [List.eq_nil_iff_forall_not_mem]
  intro f hf
  have hstorage : f.storage = s.flushStorage :=
    congrArg Flushing.storage (h.found_eq f hf).symm
  cases e with
  | append r =>
    cases hs
    have hov : s.manager.Overflows r := hsw
    rw [appendLogRecord, if_pos hov] at ha
    exact ha f hf hstorage
  | beginFlush =>
    cases hs
    exact ha f (List.mem_append_left _ hf) hstorage
  | endFlush ticket => exact hsw

end Undisturbed

/-- **Concurrent flushes, over every run.**  In every interleaving of the steps of any number of
threads: no buffer that a `Flush` has swapped out and not yet written is ever the one that records
are appended to, and each `Flush` finds, when it writes, the buffer, the size and the bytes that its
own swap has installed, exactly when no swap is made while a `Flush` is between its steps. -/
theorem undisturbed_iff_alone (es : List Event) :
    Always step Apart {} es ∧ Along step FindsOwn {} es ↔ Along step Alone {} es := by
  have hiff : Always step Apart {} es ↔ Along step Alone {} es :=
    always_iff_along (K := Undisturbed) (fun _ h ↦ h.apart) (fun _ _ _ _ h hs ha ↦ h.alone hs ha)
      (fun _ _ _ _ h ha hs ↦ h.step ha hs)
      (fun s e _ hs ↦ by
        cases e with
        | append r => exact absurd hs (by simp [step])
        | beginFlush => exact absurd hs (by simp [step])
        | endFlush ticket => exact fun hsw ↦ absurd hsw id)
      undisturbed_init
  refine ⟨fun h ↦ hiff.mp h.1, fun h ↦ ⟨hiff.mpr h, ?_⟩⟩
  exact along_of_invariant (fun s e hs _ ↦ hs.findsOwn e) (fun _ _ _ _ h ha hs ↦ h.step ha hs)
    undisturbed_init h

/-- Two threads flush at the same time.  The first has swapped out the record of a BEGIN; after the
swap of the second it is the first buffer that records are appended to, and the first writes out
nothing. -/
theorem flush_disturbed :
    ∃ s os s', run step {} [.append (.ofType 1 0 .begin), .beginFlush, .beginFlush] =
        some (os, s) ∧
      (∃ f ∈ s.flushing, f.ticket = 0 ∧ f.storage = s.logStorage ∧
        f.entries = [⟨1, .ofType 1 0 .begin⟩]) ∧
      step s (.endFlush 0) = some ([], s') :=
  ⟨_, _, _, rfl, ⟨_, List.mem_cons_self, rfl, rfl, rfl⟩, rfl⟩

end LogThreads

end StingDB
