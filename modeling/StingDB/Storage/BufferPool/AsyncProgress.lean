import StingDB.Storage.BufferPool.AsyncWrites

/-!
# Calls over asynchronous writes return

A call takes several steps, and in the loop after the write of a dirty victim it waits for the
kernel.  Whatever the kernel and the clients do in between, the number of steps that a call takes is
known when it begins (`left`), a round of the loop changes nothing, and the loop goes round only
while there is a write in flight: what the call waits for can always come.  So it returns after so
many steps of its own (`returns_of_run`), unless the kernel performs no write at all.
-/

set_option autoImplicit false

namespace StingDB

open Machine

/-- How many steps it takes at most to get a frame and to do with it what it is wanted for. -/
def Target.steps : Target → ℕ
  | .fetch _ => 3
  | .new => 2

namespace AsyncStore

/-- The loop on `RetrieveAsyncCompletions` is about to go round. -/
def spins (s : AsyncStore) : Bool :=
  match s.pc with
  | .waiting _ _ => s.posted = 0
  | _ => false

/-- How many steps the call has still to take, rounds of that loop apart. -/
def left (s : AsyncStore) : ℕ :=
  match s.pc with
  | .idle => 0
  | .waiting _ t => t.steps
  | .loading _ t => t.steps - 1
  | .reading _ _ => 1
  | .flushing rest => rest.length + 1

/-- How many that can be. -/
def bound (s : AsyncStore) : Call → ℕ
  | .fetchPage p => (Target.fetch p).steps
  | .newPage => Target.new.steps
  | .flushAllPages => s.pool.pageTable.entries.length + 1
  | .unpinPage _ _ | .flushPage _ => 0

/-- Whether an event is a step of the pool, and not a round of the loop. -/
def advances (s : AsyncStore) : Event → Bool
  | .resume => !s.spins
  | _ => false

/-- How many such steps there are along a run. -/
def turns : AsyncStore → List Event → ℕ
  | _, [] => 0
  | s, e :: es =>
    match s.step e with
    | none => 0
    | some (_, s') => (s.advances e).toNat + turns s' es

variable {s s' : AsyncStore} {c : Call} {e : Event} {o : Unit}

theorem turns_cons (hs : s.step e = some (o, s')) (es : List Event) :
    turns s (e :: es) = (s.advances e).toNat + turns s' es := by
  rw [turns, hs]

theorem left_eq_zero_iff : s.left = 0 ↔ s.pc = .idle := by
  rw [left]
  cases s.pc with
  | idle => simp
  | waiting f t => cases t <;> simp [Target.steps]
  | loading f t => cases t <;> simp [Target.steps]
  | reading f p => simp
  | flushing rest => simp

theorem left_le_of_idle (hpc : s.pc = .idle) (n : ℕ) : s.left ≤ n :=
  (left_eq_zero_iff.mpr hpc).le.trans (Nat.zero_le n)

theorem left_acquire (hpc : s.pc = .idle) (t : Target) : (s.acquire t).left ≤ t.steps := by
  rw [acquire]
  split
  · exact left_le_of_idle hpc _
  · exact Nat.sub_le ..
  · dsimp only
    split
    · exact le_rfl
    · exact Nat.sub_le ..

theorem left_call (hpc : s.pc = .idle) (c : Call) : (s.call c).left ≤ s.bound c := by
  cases c with
  | fetchPage p =>
    rw [call]
    split
    · exact left_le_of_idle hpc _
    · exact left_acquire hpc _
  | newPage => exact left_acquire hpc _
  | unpinPage p isDirty =>
    rw [call]
    split
    · exact left_le_of_idle hpc _
    · exact left_le_of_idle hpc _
  | flushPage p =>
    rw [call]
    split
    · exact left_le_of_idle ((flushFrame_pc ..).trans hpc) _
    · exact left_le_of_idle hpc _
  | flushAllPages => exact le_rfl

/-! ## One step -/

/-- A round of the loop changes nothing. -/
theorem resume_of_spins (h : s.spins = true) : s.resume = some s := by
  rw [spins] at h
  rw [resume]
  split at h
  · rename_i hpc
    rw [hpc]
    exact if_pos (of_decide_eq_true h)
  · cases h

theorem resume_isSome (hpc : s.pc ≠ .idle) : s.resume.isSome = true := by
  rw [resume]
  split
  · exact absurd ‹_› hpc
  · split <;> rfl
  · rfl
  · rfl
  · rfl
  · rfl
  · rfl

/-- Any other step of the pool takes the call on. -/
theorem left_resume (h : s.spins = false) (hs : s.resume = some s') : s'.left + 1 = s.left := by
  rw [spins] at h
  rw [resume] at hs
  rw [left.eq_def s]
  split at hs
  · cases hs
  · rename_i f t hpc
    rw [hpc] at h ⊢
    rw [if_neg (of_decide_eq_false h)] at hs
    cases hs
    cases t <;> rfl
  · rename_i f p hpc
    rw [hpc]
    cases hs
    rfl
  · rename_i f hpc
    rw [hpc]
    cases hs
    rfl
  · rename_i f p hpc
    rw [hpc]
    cases hs
    rfl
  · rename_i p f rest hpc
    rw [hpc]
    cases hs
    rfl
  · rename_i hpc
    rw [hpc]
    cases hs
    rfl

/-- **One step.**  What the kernel and the clients do makes no difference to the call. -/
theorem advances_add_left (he : ∀ c, e ≠ .call c) (hs : s.step e = some (o, s')) :
    (s.advances e).toNat + s'.left = s.left := by
  obtain ⟨c, rfl, -⟩ | ⟨rfl, hres⟩ | ⟨w, rfl, -, rfl⟩ | ⟨f, data, rfl, rfl⟩ := step_cases hs
  · exact absurd rfl (he c)
  · rw [advances]
    cases hspin : s.spins with
    | true =>
      obtain rfl : s = s' := Option.some.inj ((resume_of_spins hspin).symm.trans hres)
      exact Nat.zero_add _
    | false => exact (Nat.add_comm ..).trans (left_resume hspin hres)
  · exact Nat.zero_add _
  · exact Nat.zero_add _

/-! ## What a call waits for -/

/-- While a call waits there is a completion to reap, or one to come. -/
def Supplied (s : AsyncStore) : Prop :=
  ∀ f t, s.pc = .waiting f t → s.inflight ≠ [] ∨ s.posted ≠ 0

theorem supplied_of_idle (hpc : s.pc = .idle) : s.Supplied := by
  intro f t heq
  rw [hpc] at heq
  cases heq

theorem supplied_acquire (hpc : s.pc = .idle) (t : Target) : (s.acquire t).Supplied := by
  rw [acquire]
  split
  · exact supplied_of_idle hpc
  · rintro f t ⟨⟩
  · dsimp only
    split
    · exact fun _ _ _ ↦ Or.inl (List.append_ne_nil_of_right_ne_nil _ (List.cons_ne_nil _ _))
    · rintro f t ⟨⟩

theorem supplied_call (hpc : s.pc = .idle) (c : Call) : (s.call c).Supplied := by
  cases c with
  | fetchPage p =>
    rw [call]
    split
    · exact supplied_of_idle hpc
    · exact supplied_acquire hpc _
  | newPage => exact supplied_acquire hpc _
  | unpinPage p isDirty =>
    rw [call]
    split
    · exact supplied_of_idle hpc
    · exact supplied_of_idle hpc
  | flushPage p =>
    rw [call]
    split
    · exact supplied_of_idle ((flushFrame_pc ..).trans hpc)
    · exact supplied_of_idle hpc
  | flushAllPages => rintro f t ⟨⟩

theorem Supplied.resume (h : s.Supplied) (hs : s.resume = some s') : s'.Supplied := by
  rw [AsyncStore.resume] at hs
  split at hs
  · cases hs
  · split at hs
    · cases hs
      exact h
    · cases hs
      rintro f t ⟨⟩
  · cases hs
    rintro f t ⟨⟩
  · cases hs
    rintro f t ⟨⟩
  · cases hs
    rintro f t ⟨⟩
  · cases hs
    rintro f t ⟨⟩
  · cases hs
    rintro f t ⟨⟩

theorem Supplied.step (h : s.Supplied) (hs : s.step e = some (o, s')) : s'.Supplied := by
  obtain ⟨c, rfl, hpc, rfl⟩ | ⟨rfl, hres⟩ | ⟨w, rfl, -, rfl⟩ | ⟨f, data, rfl, rfl⟩ := step_cases hs
  · exact supplied_call hpc c
  · exact h.resume hres
  · exact fun _ _ _ ↦ Or.inr (Nat.succ_ne_zero _)
  · exact h

theorem Supplied.inflight_ne_nil (h : s.Supplied) (hspin : s.spins = true) : s.inflight ≠ [] := by
  rw [spins] at hspin
  split at hspin
  · rename_i f t hpc
    exact (h f t hpc).resolve_right (not_not.mpr (of_decide_eq_true hspin))
  · cases hspin

/-! ## Runs -/

variable {poolSize : ℕ} {file : PageId → Option PageData} {es fs : List Event} {os os' : List Unit}

theorem turns_add_left (hfs : ∀ e ∈ fs, ∀ c, e ≠ .call c) (hr : run step s fs = some (os, s')) :
    turns s fs + s'.left = s.left := by
  induction fs generalizing s os with
  | nil =>
    cases hr
    exact Nat.zero_add _
  | cons e fs ih =>
    obtain ⟨o, s₁, os', hs, hr', rfl⟩ := run_cons.mp hr
    have hstep := advances_add_left (hfs e List.mem_cons_self) hs
    have hrest := ih (fun e he ↦ hfs e (List.mem_cons_of_mem _ he)) hr'
    rw [turns_cons hs, Nat.add_assoc, hrest, hstep]

/-- **Calls return.**  Let a call begin in any reachable state, and let the kernel perform writes
and the clients write to frames in any order while it is executed.  The number of steps that it
takes is known when it begins, rounds of its loop apart: it has returned exactly when it has taken
them, and they are no more than three for `FetchPage`, two for `NewPage`, and one more than there
are resident pages for `FlushAllPages`.  As long as it has not returned it can go on; and when its
loop is about to go round, which changes nothing, there is a write in flight that the kernel can
perform. -/
theorem returns_of_run (hr : run step (start poolSize file) es = some (os, s))
    (hfs : ∀ e ∈ fs, ∀ c, e ≠ .call c) (hcall : run step s (.call c :: fs) = some (os', s')) :
    (s.call c).left ≤ s.bound c ∧ turns (s.call c) fs ≤ (s.call c).left ∧
      (s'.pc = .idle ↔ turns (s.call c) fs = (s.call c).left) ∧
      (s'.pc ≠ .idle → s'.resume.isSome = true) ∧
      (s'.spins = true → s'.resume = some s' ∧ s'.inflight ≠ []) := by
  obtain ⟨o, s₁, os₁, hs, hr', -⟩ := run_cons.mp hcall
  obtain ⟨hpc, rfl⟩ := step_call hs
  have hturns := turns_add_left hfs hr'
  have hsupplied : s'.Supplied := by
    have hstart : (start poolSize file).Supplied := supplied_of_idle rfl
    have hrun : ∀ {s s' : AsyncStore} {es : List Event} {os : List Unit}, s.Supplied →
        run step s es = some (os, s') → s'.Supplied := fun h hr ↦
      run_invariant (fun _ _ _ _ h _ hs ↦ h.step hs) h along_true hr
    exact hrun (hrun hstart hr) hcall
  refine ⟨left_call hpc c, by omega, ?_, resume_isSome, fun hspin ↦
    ⟨resume_of_spins hspin, hsupplied.inflight_ne_nil hspin⟩⟩
  rw [← left_eq_zero_iff]
  omega

/-- A dirty page is evicted for a new one, and its write is performed after two rounds. -/
theorem returns_of_run_one :
    ∃ s os s' os', run step (start 1 fun _ ↦ none) [.call .newPage, .resume,
        .call (.unpinPage 0 true)] = some (os, s) ∧
      run step s [.call .newPage, .resume, .resume, .kernel ⟨0, 0⟩, .resume, .resume] =
        some (os', s') ∧
      (s'.pc = .idle ↔ turns (s.call .newPage) [.resume, .resume, .kernel ⟨0, 0⟩, .resume,
        .resume] = (s.call .newPage).left) := by
  obtain ⟨s, os, s', os', hr, hcall⟩ : ∃ s os s' os', run step (start 1 fun _ ↦ none)
      [.call .newPage, .resume, .call (.unpinPage 0 true)] = some (os, s) ∧
      run step s [.call .newPage, .resume, .resume, .kernel ⟨0, 0⟩, .resume, .resume] =
        some (os', s') := ⟨_, _, _, _, rfl, rfl⟩
  exact ⟨s, os, s', os', hr, hcall, (returns_of_run hr (by simp) hcall).2.2.1⟩

end AsyncStore

end StingDB
