import StingDB.Transaction.ConcurrentFlush

/-!
# Group commit

Many threads append to the log and many flush it, and a `Flush` writes out what it finds: its own
records or those of another thread, or nothing at all, if another has written them already.  So
whether a thread writes its own records is not what durability depends on (`ConcurrentFlush.lean`
has that), but whether some thread does.

A record is in one of three places: it has been handed to I/O, or it has been swapped out and waits
for that, or it is in the log buffer.  It can be lost in one way, when there is a swap while records
wait, be it by a `Flush` or by an append that overflows.  `kept_iff_clear` says that this is the
only one, in every interleaving, and that without it a `Flush` is a barrier: once it returns, all
that had been appended before it began has been written out, in order.
-/

set_option autoImplicit false

namespace StingDB

open Machine

namespace LogManager

/-! ## Where the records are -/

/-- What has been swapped out and not written: the first `flush_size_` bytes of
`flush_buffer_`. -/
def waiting (m : LogManager) : List LogEntry := m.flushBuffer.take m.flushSize.records

/-- What has left the log buffer, written out or about to be. -/
def departed (m : LogManager) : List LogEntry := m.handed ++ m.waiting

/-- The records that are in one of the three places, as they were appended. -/
structure Shelved (m : LogManager) : Prop where
  recorded : m.Recorded
  sublist : (m.departed ++ m.live).Sublist m.appended

theorem shelved_init : Shelved {} where
  recorded := recorded_init
  sublist := List.Sublist.refl _

@[simp] theorem departed_swapBuffers (m : LogManager) :
    m.swapBuffers.departed = m.handed ++ m.live := rfl

@[simp] theorem departed_writeOut (m : LogManager) : m.writeOut.departed = m.departed :=
  List.append_nil _

@[simp] theorem departed_place (m : LogManager) (r : LogRecord) :
    (m.place r).departed = m.departed := rfl

@[simp] theorem handed_writeOut (m : LogManager) : m.writeOut.handed = m.departed := rfl

namespace Shelved

variable {m : LogManager} (h : m.Shelved)

include h

theorem swapBuffers : m.swapBuffers.Shelved where
  recorded := h.recorded.swapBuffers
  sublist := by
    rw [departed_swapBuffers, live_swapBuffers, List.append_nil]
    exact h.recorded.sublist

theorem place (r : LogRecord) : (m.place r).Shelved where
  recorded := h.recorded.place r
  sublist := by
    rw [departed_place, live_place h.recorded.records_le, ← List.append_assoc]
    exact h.sublist.append_right _

theorem writeOut : m.writeOut.Shelved where
  recorded := { h.recorded with sublist := h.sublist }
  sublist := by
    rw [departed_writeOut]
    exact h.sublist

/-- **A swap loses what waits.** -/
theorem swapBuffers_iff :
    m.swapBuffers.departed ++ m.swapBuffers.live = m.appended ↔
      m.departed ++ m.live = m.appended ∧ m.waiting = [] := by
  rw [departed_swapBuffers, live_swapBuffers, List.append_nil]
  refine ⟨fun hall ↦ ?_, ?_⟩
  · have hlen := h.sublist.length_le
    rw [← hall, departed, List.length_append, List.length_append, List.length_append] at hlen
    have hnil : m.waiting = [] := List.length_eq_zero_iff.mp (by omega)
    exact ⟨by rw [departed, hnil, List.append_nil, hall], hnil⟩
  · rintro ⟨hall, hnil⟩
    rwa [departed, hnil, List.append_nil] at hall

theorem place_iff (r : LogRecord) :
    (m.place r).departed ++ (m.place r).live = (m.place r).appended ↔
      m.departed ++ m.live = m.appended := by
  rw [departed_place, live_place h.recorded.records_le, ← List.append_assoc]
  exact List.append_left_inj _

end Shelved

end LogManager

namespace LogThreads

variable {s s' : LogThreads} {e : Event} {o : List LogEntry}

/-- No record has been lost. -/
def Kept (s : LogThreads) : Prop :=
  s.manager.departed ++ s.manager.live = s.manager.appended

/-- There is no swap while records wait to be written. -/
def Clear (s : LogThreads) (e : Event) : Prop := s.Swaps e → s.manager.waiting = []

/-! ## One step -/

/-- What a step does to the log. -/
theorem step_manager (hs : step s e = some (o, s')) :
    (∃ r, e = .append r ∧ o = [] ∧ s'.manager =
        (if s.manager.Overflows r then s.manager.swapBuffers else s.manager).place r) ∨
      (e = .beginFlush ∧ o = [] ∧ s'.manager = s.manager.swapBuffers) ∨
      ∃ t, e = .endFlush t ∧ o = s.manager.waiting ∧ s'.manager = s.manager.writeOut := by
  cases e with
  | append r =>
    cases hs
    exact Or.inl ⟨r, rfl, rfl, s.appendLogRecord_manager r⟩
  | beginFlush =>
    cases hs
    exact Or.inr (Or.inl ⟨rfl, rfl, rfl⟩)
  | endFlush ticket =>
    rw [step] at hs
    split at hs
    · cases hs
      exact Or.inr (Or.inr ⟨ticket, rfl, rfl, rfl⟩)
    · exact absurd hs (by simp)

theorem step_shelved (h : s.manager.Shelved) (hs : step s e = some (o, s')) :
    s'.manager.Shelved := by
  obtain ⟨r, -, -, heq⟩ | ⟨-, -, heq⟩ | ⟨t, -, -, heq⟩ := step_manager hs
  · rw [heq]
    split
    · exact h.swapBuffers.place r
    · exact h.place r
  · rw [heq]
    exact h.swapBuffers
  · rw [heq]
    exact h.writeOut

/-- A step loses no record exactly when it is clear. -/
theorem step_kept_iff (h : s.manager.Shelved) (hs : step s e = some (o, s')) :
    s'.Kept ↔ s.Kept ∧ s.Clear e := by
  rw [Kept]
  obtain ⟨r, rfl, -, heq⟩ | ⟨rfl, -, heq⟩ | ⟨t, rfl, -, heq⟩ := step_manager hs
  · rw [heq]
    by_cases hov : s.manager.Overflows r
    · rw [if_pos hov, h.swapBuffers.place_iff]
      exact h.swapBuffers_iff.trans (and_congr_right fun _ ↦ ⟨fun hnil _ ↦ hnil, fun hc ↦ hc hov⟩)
    · rw [if_neg hov, h.place_iff]
      exact (and_iff_left fun hsw ↦ absurd hsw hov).symm
  · rw [heq]
    exact h.swapBuffers_iff.trans (and_congr_right fun _ ↦ ⟨fun hnil _ ↦ hnil, fun hc ↦ hc trivial⟩)
  · rw [heq, LogManager.departed_writeOut]
    exact (and_iff_left fun hsw ↦ absurd hsw id).symm

/-- What has left the log buffer stays in its place. -/
theorem step_departed (hc : s.Clear e) (hs : step s e = some (o, s')) :
    s.manager.departed <+: s'.manager.departed := by
  have hswap : s.manager.waiting = [] →
      s.manager.departed <+: s.manager.swapBuffers.departed := by
    intro hnil
    rw [LogManager.departed, hnil, List.append_nil]
    exact List.prefix_append _ _
  obtain ⟨r, rfl, -, heq⟩ | ⟨rfl, -, heq⟩ | ⟨t, rfl, -, heq⟩ := step_manager hs
  · rw [heq, LogManager.departed_place]
    split
    · rename_i hov
      exact hswap (hc hov)
    · exact List.prefix_rfl
  · rw [heq]
    exact hswap (hc trivial)
  · exact (congrArg LogManager.departed heq).trans (LogManager.departed_writeOut _) ▸
      List.prefix_rfl

/-! ## Runs -/

variable {es : List Event} {os : List (List LogEntry)}

theorem shelved_of_run (hr : run step {} es = some (os, s)) : s.manager.Shelved :=
  run_invariant (P := fun _ _ ↦ True) (I := fun s : LogThreads ↦ s.manager.Shelved)
    (fun _ _ _ _ h _ hs ↦ step_shelved h hs) LogManager.shelved_init along_true hr

/-- What the `Flush`es have written out, one after the other. -/
theorem handed_of_run (hr : run step {} es = some (os, s)) : s.manager.handed = os.flatten := by
  refine run_history (P := fun _ _ ↦ True)
    (I := fun _ os (s : LogThreads) ↦ s.manager.handed = os.flatten) rfl ?_ along_true hr
  intro es os s e o s' _ ih _ hs
  rw [List.flatten_append, List.flatten_singleton, ← ih]
  obtain ⟨r, -, rfl, heq⟩ | ⟨-, rfl, heq⟩ | ⟨t, -, rfl, heq⟩ := step_manager hs
  · rw [heq, List.append_nil]
    split <;> rfl
  · rw [heq, List.append_nil]
    rfl
  · rw [heq]
    rfl

/-- A run loses no record exactly when its steps are clear. -/
theorem kept_iff_along (hr : run step {} es = some (os, s)) : s.Kept ↔ Along step Clear {} es := by
  induction es using List.reverseRecOn generalizing s os with
  | nil =>
    cases hr
    exact iff_of_true rfl trivial
  | append_singleton es e ih =>
    obtain ⟨s₁, os₁, o, hr₁, hs, rfl⟩ := run_concat.mp hr
    rw [step_kept_iff (shelved_of_run hr₁) hs, along_concat, ih hr₁]
    refine and_congr_right fun _ ↦ ⟨fun hc os' s' hr' ↦ ?_, fun hc ↦ hc os₁ s₁ hr₁⟩
    rw [hr₁] at hr'
    cases hr'
    exact hc

theorem departed_of_run (hc : Along step Clear s es) (hr : run step s es = some (os, s')) :
    s.manager.departed <+: s'.manager.departed :=
  run_invariant (P := Clear) (I := fun s' : LogThreads ↦ s.manager.departed <+: s'.manager.departed)
    (fun _ _ _ _ h hc hs ↦ h.trans (step_departed hc hs)) List.prefix_rfl hc hr

/-- **No log record is lost among threads, and when, and what a `Flush` is worth.**  In every
interleaving of the steps of any number of threads: each record appended has been written out or
waits for it or is in the log buffer, in the order of appending, exactly when no swap has come while
records waited.  And then, when a `Flush` ends, all that had been appended before it began has been
written out, first and in order, whichever threads have done so. -/
theorem kept_iff_clear (hr : run step {} es = some (os, s)) :
    (os.flatten ++ s.manager.waiting ++ s.manager.live = s.manager.appended ↔
        Along step Clear {} es) ∧
      ∀ es₁ es₂ os₁ s₁, es = es₁ ++ .beginFlush :: es₂ ++ [.endFlush s₁.tickets] →
        run step {} es₁ = some (os₁, s₁) → Along step Clear {} es →
          s₁.manager.appended <+: os.flatten := by
  refine ⟨?_, ?_⟩
  · rw [← kept_iff_along hr, Kept, LogManager.departed, handed_of_run hr]
  · rintro es₁ es₂ os₁ s₁ rfl hr₁ hc
    rw [← handed_of_run hr]
    obtain ⟨s₃, os₃, o, hr₃, hs, -⟩ := run_concat.mp hr
    obtain ⟨s₁', os₁', os₂, hr₁', hr₂, -⟩ := run_append.mp hr₃
    rw [hr₁] at hr₁'
    cases hr₁'
    obtain ⟨o₁, s₂, os₂', hs₂, hr₂', -⟩ := run_cons.mp hr₂
    cases hs₂
    have hc₃ := (along_concat.mp hc).1
    have hkept : s₁.Kept := (kept_iff_along hr₁).mpr (along_append.mp hc₃).1
    have hc₂ := (along_append.mp hc₃).2 os₁ s₁ hr₁
    have hwaiting : s₁.manager.waiting = [] := hc₂.1 trivial
    -- at the swap of this `Flush` everything has left the log buffer
    have hdeparted : s₁.beginFlush.manager.departed = s₁.manager.appended := by
      show s₁.manager.handed ++ s₁.manager.live = _
      rw [← hkept, LogManager.departed, hwaiting, List.append_nil]
    obtain ⟨r, heq, -, -⟩ | ⟨heq, -, -⟩ | ⟨t, -, -, hm⟩ := step_manager hs
    · exact absurd heq (by simp)
    · exact absurd heq (by simp)
    · rw [hm, LogManager.handed_writeOut, ← hdeparted]
      exact departed_of_run (hc₂.2 _ _ rfl) hr₂'

/-- Two threads flush, and the first writes out what the second has swapped out. -/
theorem kept_iff_clear_two :
    ∃ os s, run step {} [.beginFlush, .append (.ofType 1 0 .begin), .beginFlush, .endFlush 0,
        .endFlush 1] = some (os, s) ∧
      (os.flatten ++ s.manager.waiting ++ s.manager.live = s.manager.appended ↔
        Along step Clear {} [.beginFlush, .append (.ofType 1 0 .begin), .beginFlush, .endFlush 0,
          .endFlush 1]) ∧
      ∀ es₁ es₂ os₁ s₁, [.beginFlush, .append (.ofType 1 0 .begin), .beginFlush, .endFlush 0,
          .endFlush 1] = es₁ ++ .beginFlush :: es₂ ++ [.endFlush s₁.tickets] →
        run step {} es₁ = some (os₁, s₁) → Along step Clear {} [.beginFlush,
          .append (.ofType 1 0 .begin), .beginFlush, .endFlush 0, .endFlush 1] →
          s₁.manager.appended <+: os.flatten :=
  ⟨_, _, rfl, kept_iff_clear (rfl : run step {} [.beginFlush, .append (.ofType 1 0 .begin),
    .beginFlush, .endFlush 0, .endFlush 1] = some _)⟩

end LogThreads

end StingDB
