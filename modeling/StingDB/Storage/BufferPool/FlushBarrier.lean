import StingDB.Storage.BufferPool.AsyncContents
import StingDB.Storage.BufferPool.Frames

/-!
# What `FlushAllPages` waits for

`FlushAllPages` submits a write of every dirty page and then calls `RetrieveAsyncCompletions` in a
loop, to wait for all asynchronous operations.  But the loop ends as soon as the number of reaped
completions is not negative, and it never is: the first call ends the loop, whatever is still in
flight.  `~BufferPoolManager` has nothing but this call before it frees the frames.

So `FlushAllPages` is a `Barrier` under every schedule of the kernel only where there is nothing to
wait for (`Quiet`).  Otherwise it depends on the schedule, and it is a barrier exactly under those
in which the kernel happens to perform all writes in time (`flush_barrier`).
-/

set_option autoImplicit false

namespace StingDB

open Machine BufferPoolManager

namespace AsyncStore

/-! ## Returning, and what should hold then -/

/-- `FlushAllPages`, called in `s`, returns in `s'`, with these events in between. -/
def Returns (s : AsyncStore) (schedule : List Event) (s' : AsyncStore) : Prop :=
  (∀ e ∈ schedule, e.Internal) ∧ s'.pc = .idle ∧
    ∃ os, run step s (.call .flushAllPages :: (schedule ++ [.resume])) = some (os, s')

/-- A pool opened anew on the same file. -/
def reopen (s : AsyncStore) (poolSize : ℕ) : Store :=
  { pool := .create poolSize, disk := { file := s.disk.file } }

/-- What `FlushAllPages`, called in `s`, is to have achieved when it returns in `s'`. -/
structure Barrier (s s' : AsyncStore) : Prop where
  /-- What was dirty is in the file. -/
  stored : ∀ p f, s.pool.pageTable.lookup p = some f → (s.pool.pages f).isDirty = true →
    s'.disk.file p = some (s.pool.pages f).data
  /-- No write is in flight out of any frame. -/
  settled : s'.inflight = []
  /-- What was dirty is what a pool opened anew fetches. -/
  reopened : ∀ p f, s.pool.pageTable.lookup p = some f → (s.pool.pages f).isDirty = true →
    ∀ poolSize, 0 < poolSize → ∃ g t, (s'.reopen poolSize).fetchPage p = (some g, t) ∧
      (t.pool.pages g).data = (s.pool.pages f).data

/-- There is nothing to wait for. -/
def Quiet (s : AsyncStore) : Prop :=
  s.inflight = [] ∧
    ∀ p f, s.pool.pageTable.lookup p = some f → (s.pool.pages f).isDirty = false

/-- The number of the resident dirty pages. -/
def dirtyCount (s : AsyncStore) : ℕ :=
  s.pool.pageTable.entries.countP fun e ↦ (s.pool.pages e.2).isDirty

/-- Whether the kernel performs a write. -/
def Event.isKernel : Event → Bool
  | .kernel _ => true
  | _ => false

/-- The writes in flight are of pages that are still in the frames they were submitted from. -/
def InPlace (s : AsyncStore) : Prop :=
  ∀ w ∈ s.inflight, s.pool.pageTable.lookup w.page = some w.frame

/-- A pool opened anew fetches what is in the file. -/
theorem fetchPage_reopen (s : AsyncStore) {p : PageId} {data : PageData}
    (h : s.disk.file p = some data) {poolSize : ℕ} (hpos : 0 < poolSize) :
    ∃ g t, (s.reopen poolSize).fetchPage p = (some g, t) ∧ (t.pool.pages g).data = data := by
  obtain ⟨n, rfl⟩ := Nat.exists_eq_succ_of_ne_zero hpos.ne'
  have hacq : (s.reopen n.succ).acquireFrame = some (0, { s.reopen n.succ with
      pool := { (s.reopen n.succ).pool with freeList := (List.range n).map Nat.succ } }) := by
    simp [Store.acquireFrame, takeFrame, reopen, create, List.range_succ_eq_map]
  have hl : (s.reopen n.succ).pool.pageTable.lookup p = none := AList.lookup_empty p
  refine ⟨0, _, by rw [Store.fetchPage, hl, hacq], ?_⟩
  rw [install_pages_self]
  simp [reopen, DiskManager.readPage, h]

theorem barrier_of_stored {s s' : AsyncStore} (hsettled : s'.inflight = [])
    (h : ∀ p f, s.pool.pageTable.lookup p = some f → (s.pool.pages f).isDirty = true →
      s'.disk.file p = some (s.pool.pages f).data) : s.Barrier s' where
  stored := h
  settled := hsettled
  reopened p f hp hd _ hpos := s'.fetchPage_reopen (h p f hp hd) hpos

theorem quiet_iff {s : AsyncStore} : s.Quiet ↔ s.inflight.length + s.dirtyCount = 0 := by
  rw [Quiet, Nat.add_eq_zero_iff, List.length_eq_zero_iff, dirtyCount, List.countP_eq_zero]
  refine and_congr_right' ⟨fun h e he ↦ ?_, fun h p f hp ↦ ?_⟩
  · rw [h e.1 e.2 (AList.mem_lookup_iff.mpr he)]
    exact Bool.false_ne_true
  · exact Bool.eq_false_of_not_eq_true (h ⟨p, f⟩ (AList.mem_lookup_iff.mp hp))

/-! ## No frame is mapped twice -/

/-- Where the frames are in a pool that may be in the middle of a call. -/
def Steady (s : AsyncStore) : Prop :=
  s.pool.Placed s.pc.limbo ∧ ∀ f t, s.pc = .waiting f t → f ∉ s.pool.freeList

theorem steady_start (poolSize : ℕ) (file : PageId → Option PageData) :
    (start poolSize file).Steady :=
  ⟨placed_create poolSize, fun _ _ h ↦ by cases h⟩

theorem Steady.of_idle {s : AsyncStore} (h : s.pool.Placed none) (hpc : s.pc = .idle) :
    s.Steady := by
  refine ⟨?_, fun f t hw ↦ ?_⟩
  · rw [hpc]
    exact h
  · rw [hpc] at hw
    cases hw

theorem Steady.idle {s : AsyncStore} (h : s.Steady) (hpc : s.pc = .idle) : s.pool.Placed none := by
  have hplaced := h.1
  rwa [hpc] at hplaced

theorem placed_flushFrame {s : AsyncStore} {limbo : Option ℕ} (h : s.pool.Placed limbo)
    (p : PageId) (f : ℕ) : (s.flushFrame p f).pool.Placed limbo := by
  rw [flushFrame]
  split
  · exact h.setPage rfl
  · exact h

theorem steady_acquire {s : AsyncStore} (h : s.pool.Placed none) (hpc : s.pc = .idle)
    (t : Target) : (s.acquire t).Steady := by
  rw [acquire]
  cases ht : s.pool.takeFrame with
  | none => exact .of_idle h hpc
  | some r =>
    obtain ⟨f, victim, pool⟩ := r
    obtain ⟨rfl, rest, hf, rfl⟩ | ⟨rfl, hf, rest, hl, rfl⟩ := takeFrame_eq_some.mp ht
    · exact ⟨h.takeFree hf, fun _ _ hw ↦ by cases hw⟩
    · have hfree : f ∉ s.pool.freeList := by simp [hf]
      dsimp only
      split
      · exact ⟨h.takeBack hl, fun _ _ hw ↦ by cases hw; exact hfree⟩
      · exact ⟨(h.takeBack hl).unmapVictim hfree, fun _ _ hw ↦ by cases hw⟩

theorem Steady.call {s : AsyncStore} (h : s.Steady) (hpc : s.pc = .idle) (c : Call) :
    (s.call c).Steady := by
  have hplaced := h.idle hpc
  cases c with
  | fetchPage p =>
    rw [AsyncStore.call]
    split
    · exact .of_idle hplaced.pin hpc
    · exact steady_acquire hplaced hpc _
  | newPage => exact steady_acquire hplaced hpc _
  | unpinPage p d =>
    rw [AsyncStore.call]
    split
    · rename_i f hp
      exact .of_idle (hplaced.unpin hp d) hpc
    · exact h
  | flushPage p =>
    rw [AsyncStore.call]
    split
    · exact .of_idle (placed_flushFrame hplaced p _) ((flushFrame_pc ..).trans hpc)
    · exact h
  | flushAllPages => exact ⟨hplaced, fun _ _ hw ↦ by cases hw⟩

theorem Steady.resume {s s' : AsyncStore} (h : s.Steady) (hs : s.resume = some s') :
    s'.Steady := by
  have hplaced := h.1
  rw [AsyncStore.resume] at hs
  split at hs <;> rename_i hpc <;> rw [hpc] at hplaced
  · exact absurd hs (by simp)
  · split at hs
    · cases hs
      exact h
    · cases hs
      exact ⟨hplaced.unmapVictim (h.2 _ _ hpc), fun _ _ hw ↦ by cases hw⟩
  · cases hs
    exact ⟨hplaced.setPage rfl, fun _ _ hw ↦ by cases hw⟩
  · cases hs
    exact .of_idle (hplaced.install _ _) rfl
  · cases hs
    exact .of_idle (hplaced.install _ _) rfl
  · cases hs
    exact ⟨placed_flushFrame hplaced _ _, fun _ _ hw ↦ by cases hw⟩
  · cases hs
    exact .of_idle hplaced rfl

theorem Steady.step {s s' : AsyncStore} {e : Event} {o : Unit} (h : s.Steady)
    (hs : s.step e = some (o, s')) : s'.Steady := by
  obtain ⟨c, rfl, hpc, rfl⟩ | ⟨rfl, hres⟩ | ⟨w, rfl, -, rfl⟩ | ⟨f, data, rfl, rfl⟩ := step_cases hs
  · exact h.call hpc c
  · exact h.resume hres
  · exact h
  · exact ⟨h.1.setPage rfl, h.2⟩

/-! ## The loop of `FlushAllPages` -/

/-- How far `FlushAllPages`, called in `s`, has come in `t`: these entries of the table are still to
come, and the kernel has performed `n` writes meanwhile. -/
structure Progress (s t : AsyncStore) (rest : List (Sigma fun _ : PageId ↦ ℕ)) (n : ℕ) : Prop where
  pageTable_eq : t.pool.pageTable = s.pool.pageTable
  data_eq : ∀ g, (t.pool.pages g).data = (s.pool.pages g).data
  dirty_eq : ∀ e ∈ rest, (t.pool.pages e.2).isDirty = (s.pool.pages e.2).isDirty
  mapped : ∀ e ∈ rest, s.pool.pageTable.lookup e.1 = some e.2
  distinct : (rest.map Sigma.snd).Nodup
  /-- Every write that there is to perform is performed, in flight or still to be submitted. -/
  count : n + t.inflight.length + rest.countP (fun e ↦ (s.pool.pages e.2).isDirty) =
    s.inflight.length + s.dirtyCount
  inPlace : s.InPlace → ∀ w ∈ t.inflight, s.pool.pageTable.lookup w.page = some w.frame
  /-- A page that was dirty is still to come, in flight or in the file. -/
  covered : s.InPlace → ∀ e ∈ s.pool.pageTable.entries, (s.pool.pages e.2).isDirty = true →
    e ∈ rest ∨ Submission.mk e.1 e.2 ∈ t.inflight ∨
      t.disk.file e.1 = some (s.pool.pages e.2).data

namespace Progress

variable {s t : AsyncStore} {rest : List (Sigma fun _ : PageId ↦ ℕ)} {n : ℕ}

theorem init (h : s.pool.Placed none) :
    Progress s (s.call .flushAllPages) s.pool.pageTable.entries 0 where
  pageTable_eq := rfl
  data_eq _ := rfl
  dirty_eq _ _ := rfl
  mapped _ he := AList.mem_lookup_iff.mpr he
  distinct := nodup_frames h.injective
  count := by
    rw [Nat.zero_add]
    rfl
  inPlace h := h
  covered _ _ he _ := Or.inl he

/-- The loop comes to the next page. -/
theorem flushFrame {p : PageId} {f : ℕ} (h : Progress s t (⟨p, f⟩ :: rest) n) :
    Progress s { t.flushFrame p f with pc := .flushing rest } rest n := by
  have hdirty : (t.pool.pages f).isDirty = (s.pool.pages f).isDirty :=
    h.dirty_eq ⟨p, f⟩ List.mem_cons_self
  have hmem : ∀ e ∈ rest, e ∈ Sigma.mk p f :: rest := fun _ he ↦ List.mem_cons_of_mem _ he
  obtain ⟨hnot, hdistinct⟩ := List.nodup_cons.mp h.distinct
  have hcount := h.count
  rw [List.countP_cons] at hcount
  rw [AsyncStore.flushFrame]
  by_cases hd : (t.pool.pages f).isDirty
  · rw [if_pos hd]
    rw [if_pos (hdirty ▸ hd)] at hcount
    have hother : ∀ e ∈ rest,
        (t.pool.setPage f ((t.pool.pages f).setDirty false)).pages e.2 = t.pool.pages e.2 := by
      intro e he
      refine t.pool.setPage_pages_of_ne f _ ?_
      rintro rfl
      exact hnot (List.mem_map.mpr ⟨e, he, rfl⟩)
    exact
      { pageTable_eq := h.pageTable_eq
        data_eq := by
          intro g
          by_cases hg : g = f
          · subst hg
            exact (congrArg Page.data (t.pool.setPage_pages_self g _)).trans (h.data_eq g)
          · exact (congrArg Page.data (t.pool.setPage_pages_of_ne f _ hg)).trans (h.data_eq g)
        dirty_eq := fun e he ↦
          (congrArg Page.isDirty (hother e he)).trans (h.dirty_eq e (hmem e he))
        mapped := fun e he ↦ h.mapped e (hmem e he)
        distinct := hdistinct
        count := by
          show n + (t.inflight ++ [Submission.mk p f]).length + _ = _
          rw [List.length_append, List.length_singleton]
          omega
        inPlace := by
          intro hs w hw
          rcases List.mem_append.mp hw with hw | hw
          · exact h.inPlace hs w hw
          · rw [List.mem_singleton.mp hw]
            exact h.mapped ⟨p, f⟩ List.mem_cons_self
        covered := by
          intro hs e he hde
          rcases h.covered hs e he hde with hrest | hflight | hfile
          · rcases List.mem_cons.mp hrest with rfl | hrest
            · exact Or.inr (Or.inl (List.mem_append_right _ List.mem_cons_self))
            · exact Or.inl hrest
          · exact Or.inr (Or.inl (List.mem_append_left _ hflight))
          · exact Or.inr (Or.inr hfile) }
  · rw [if_neg hd]
    rw [if_neg (hdirty ▸ hd)] at hcount
    exact { h with
      dirty_eq := fun e he ↦ h.dirty_eq e (hmem e he)
      mapped := fun e he ↦ h.mapped e (hmem e he)
      distinct := hdistinct
      count := hcount
      covered := by
        intro hs e he hde
        refine (h.covered hs e he hde).imp_left fun hrest ↦ ?_
        refine (List.mem_cons.mp hrest).resolve_left ?_
        rintro rfl
        exact hd (hdirty.trans hde) }

/-- The kernel performs a write meanwhile. -/
theorem perform (h : Progress s t rest n) {w : Submission} (hw : w ∈ t.inflight) :
    Progress s (t.perform w) rest (n + 1) :=
  { h with
    count := by
      have hlen := List.length_erase_add_one hw
      have hcount := h.count
      show n + 1 + (t.inflight.erase w).length + _ = _
      omega
    inPlace := fun hs v hv ↦ h.inPlace hs v (List.mem_of_mem_erase hv)
    covered := by
      intro hs e he hde
      by_cases hpage : e.1 = w.page
      · -- the bytes are those of the one frame that the page is in
        have hframe : w.frame = e.2 := by
          have hmap := h.inPlace hs w hw
          rw [← hpage, AList.mem_lookup_iff.mpr he] at hmap
          exact (Option.some.inj hmap).symm
        refine Or.inr (Or.inr ?_)
        show Function.update t.disk.file w.page (some (t.pool.pages w.frame).data) e.1 = _
        rw [hpage, Function.update_self, hframe, h.data_eq]
      · refine (h.covered hs e he hde).imp_right (Or.imp (fun hflight ↦ ?_) fun hfile ↦ ?_)
        · refine (List.mem_erase_of_ne ?_).mpr hflight
          rintro rfl
          exact hpage rfl
        · show Function.update t.disk.file w.page (some (t.pool.pages w.frame).data) e.1 = _
          rw [Function.update_of_ne hpage]
          exact hfile }

end Progress

/-- Nothing but the kernel acts after the return. -/
theorem run_idle {t : AsyncStore} (hpc : t.pc = .idle) {es : List Event}
    (hes : ∀ e ∈ es, e.Internal) : run step t (es ++ [.resume]) = none := by
  induction es generalizing t with
  | nil => simp [run, step, resume, hpc]
  | cons e es ih =>
    have htail : ∀ e' ∈ es, e'.Internal := fun e' he' ↦ hes e' (List.mem_cons_of_mem _ he')
    rw [List.cons_append, run]
    obtain rfl | ⟨w, rfl⟩ := hes e List.mem_cons_self
    · simp [step, resume, hpc]
    · rw [step]
      by_cases hw : w ∈ t.inflight
      · rw [if_pos hw]
        simp [ih (t := t.perform w) hpc htail]
      · rw [if_neg hw]

/-- Where `FlushAllPages` stands when it returns: the writes that are not performed are in
flight. -/
theorem Progress.run {s t s' : AsyncStore} {rest : List (Sigma fun _ : PageId ↦ ℕ)} {n : ℕ}
    {es : List Event} {os : List Unit} (h : Progress s t rest n) (hpc : t.pc = .flushing rest)
    (hes : ∀ e ∈ es, e.Internal) (hr : Machine.run step t (es ++ [.resume]) = some (os, s'))
    (hidle : s'.pc = .idle) : Progress s s' [] (n + es.countP Event.isKernel) := by
  induction es generalizing t rest n os with
  | nil =>
    obtain ⟨o, t', os', hs, hn, -⟩ := run_cons.mp hr
    cases hn
    cases rest with
    | nil =>
      simp only [step, resume, hpc, Option.map_some, Option.some.injEq, Prod.mk.injEq] at hs
      obtain ⟨-, rfl⟩ := hs
      exact { h with }
    | cons e rest =>
      simp only [step, resume, hpc, Option.map_some, Option.some.injEq, Prod.mk.injEq] at hs
      obtain ⟨-, rfl⟩ := hs
      cases hidle
  | cons e es ih =>
    have htail : ∀ e' ∈ es, e'.Internal := fun e' he' ↦ hes e' (List.mem_cons_of_mem _ he')
    obtain ⟨o, t', os', hs, hr', -⟩ := run_cons.mp hr
    obtain rfl | ⟨w, rfl⟩ := hes e List.mem_cons_self
    · cases rest with
      | nil =>
        simp only [step, resume, hpc, Option.map_some, Option.some.injEq, Prod.mk.injEq] at hs
        obtain ⟨-, rfl⟩ := hs
        have hnone := run_idle (t := { t with posted := 0, pc := .idle }) rfl htail
        exact absurd (hr'.symm.trans hnone) (by simp)
      | cons e rest =>
        simp only [step, resume, hpc, Option.map_some, Option.some.injEq, Prod.mk.injEq] at hs
        obtain ⟨-, rfl⟩ := hs
        exact ih h.flushFrame rfl htail hr'
    · obtain ⟨_, ⟨⟩, -⟩ | ⟨⟨⟩, -⟩ | ⟨_, ⟨⟩, hw, rfl⟩ | ⟨_, _, ⟨⟩, -⟩ := step_cases hs
      have hend := ih (h.perform hw) hpc htail hr'
      rw [List.countP_cons_of_pos rfl, ← Nat.add_assoc, Nat.add_right_comm]
      exact hend

theorem Returns.progress {s s' : AsyncStore} {es : List Event} (hplaced : s.pool.Placed none)
    (h : s.Returns es s') : Progress s s' [] (es.countP Event.isKernel) := by
  obtain ⟨hes, hidle, os, hr⟩ := h
  obtain ⟨o, t, os', hs, hr', -⟩ := run_cons.mp hr
  obtain ⟨c, ⟨⟩, -, rfl⟩ | ⟨⟨⟩, -⟩ | ⟨_, ⟨⟩, -⟩ | ⟨_, _, ⟨⟩, -⟩ := step_cases hs
  simpa using (Progress.init hplaced).run rfl hes hr' hidle

/-- `FlushAllPages` returns even if the kernel performs nothing meanwhile. -/
theorem exists_returns {s : AsyncStore} (hpc : s.pc = .idle) :
    ∃ n s', s.Returns (List.replicate n .resume) s' := by
  have hloop : ∀ (rest : List (Sigma fun _ : PageId ↦ ℕ)) (t : AsyncStore),
      t.pc = .flushing rest → ∃ os s', s'.pc = .idle ∧
        run step t (List.replicate rest.length .resume ++ [.resume]) = some (os, s') := by
    intro rest
    induction rest with
    | nil =>
      intro t ht
      refine ⟨[()], { t with posted := 0, pc := .idle }, rfl, ?_⟩
      simp [run, step, resume, ht]
    | cons e rest ih =>
      intro t ht
      obtain ⟨os, s', hidle, hr⟩ :=
        ih { t.flushFrame e.1 e.2 with pc := .flushing rest } rfl
      refine ⟨() :: os, s', hidle, run_cons.mpr ⟨(), _, os, ?_, hr, rfl⟩⟩
      simp [step, resume, ht]
  obtain ⟨os, s', hidle, hr⟩ := hloop s.pool.pageTable.entries (s.call .flushAllPages) rfl
  refine ⟨s.pool.pageTable.entries.length, s',
    fun e he ↦ Or.inl (List.eq_of_mem_replicate he), hidle, () :: os, ?_⟩
  exact run_cons.mpr ⟨(), _, os, by rw [step, hpc], hr, rfl⟩

variable {poolSize : ℕ} {file : PageId → Option PageData}

/-- **When `FlushAllPages` is a barrier.**  From every reachable state between two calls:

* it is one under every schedule of the kernel if and only if nothing is in flight and no resident
  page is dirty when it is called;
* where the writes in flight are of pages that are still in their frames, it is one under exactly
  those schedules in which the kernel performs as many writes, before the return, as are in flight
  and to be submitted at the call. -/
theorem flush_barrier {s : AsyncStore} {es : List Event} {os : List Unit}
    (hr : run step (start poolSize file) es = some (os, s)) (hpc : s.pc = .idle) :
    ((∀ schedule s', s.Returns schedule s' → s.Barrier s') ↔ s.Quiet) ∧
      (s.InPlace → ∀ schedule s', s.Returns schedule s' →
        (s.Barrier s' ↔
          schedule.countP Event.isKernel = s.inflight.length + s.dirtyCount)) := by
  have hsteady : s.Steady :=
    run_invariant (fun _ _ _ _ hI _ hs ↦ hI.step hs) (steady_start poolSize file) along_true hr
  have hplaced := hsteady.idle hpc
  refine ⟨⟨fun hall ↦ ?_, fun hquiet schedule s' hret ↦ ?_⟩, fun hin schedule s' hret ↦ ?_⟩
  · obtain ⟨n, s', hret⟩ := exists_returns hpc
    have hcount := (hret.progress hplaced).count
    rw [(hall _ s' hret).settled] at hcount
    rw [quiet_iff, ← hcount]
    simp [Event.isKernel]
  · have hcount := (hret.progress hplaced).count
    rw [quiet_iff.mp hquiet] at hcount
    refine barrier_of_stored (List.length_eq_zero_iff.mp (by omega)) fun p f hp hd ↦ ?_
    rw [hquiet.2 p f hp] at hd
    cases hd
  · have hprogress := hret.progress hplaced
    have hcount := hprogress.count
    rw [List.countP_nil, Nat.add_zero] at hcount
    refine ⟨fun hbarrier ↦ ?_, fun heq ↦ ?_⟩
    · rw [hbarrier.settled] at hcount
      exact hcount
    · have hsettled : s'.inflight = [] := List.length_eq_zero_iff.mp (by omega)
      refine barrier_of_stored hsettled fun p f hp hd ↦ ?_
      have hcovered := hprogress.covered hin ⟨p, f⟩ (AList.mem_lookup_iff.mp hp) hd
      simpa [hsettled] using hcovered

/-- The write of a page that was created and released as dirty is performed between two steps of
`FlushAllPages`: nothing is in flight before the call. -/
theorem flush_barrier_one :
    ∃ s os, run step (start 1 fun _ ↦ none)
        [.call .newPage, .resume, .call (.unpinPage 0 true)] = some (os, s) ∧
      ((∀ schedule s', s.Returns schedule s' → s.Barrier s') ↔ s.Quiet) ∧
      (s.InPlace → ∀ schedule s', s.Returns schedule s' →
        (s.Barrier s' ↔
          schedule.countP Event.isKernel = s.inflight.length + s.dirtyCount)) := by
  obtain ⟨s, os, hr, hpc⟩ : ∃ s os, run step (start 1 fun _ ↦ none)
      [.call .newPage, .resume, .call (.unpinPage 0 true)] = some (os, s) ∧ s.pc = .idle :=
    ⟨_, _, rfl, rfl⟩
  exact ⟨s, os, hr, flush_barrier hr hpc⟩

/-- A page is created and released as dirty, and `FlushAllPages` is called.  The kernel performs
nothing until it has returned: the write is in flight then, and the file is empty. -/
theorem flush_not_barrier :
    ∃ s s' os, run step (start 1 fun _ ↦ none)
        [.call .newPage, .resume, .call (.unpinPage 0 true)] = some (os, s) ∧
      s.Returns [.resume] s' ∧ s'.inflight = [⟨0, 0⟩] ∧ s'.disk.file 0 = none ∧ ¬ s.Barrier s' := by
  refine ⟨_, _, _, rfl, ⟨fun e he ↦ Or.inl (List.mem_singleton.mp he), ?_, _, rfl⟩, ?_⟩
  · rfl
  · exact ⟨rfl, rfl, fun hbarrier ↦ absurd hbarrier.settled (List.cons_ne_nil _ _)⟩

end AsyncStore

end StingDB
