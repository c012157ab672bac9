import StingDB.Storage.BufferPool.FreshIds
import StingDB.Storage.BufferPool.Frames

/-!
# A disk that fails

The functions of the pool over a disk manager that may fail in each of the ways the source provides
for.  `WritePageAsync` throws if the submission queue is full; a write that was submitted may
complete with a negative result, which `RetrieveAsyncCompletions` reports to `std::cerr` and to
nobody else; and `ReadPage` throws if `pread` fails.  What the disk does in a call is given by
`Faults`.  Without faults these are the functions of `Store` (`tryFetchPage_noFaults`).

No function of the pool catches an exception, and none undoes what it has done before one.  When
`FetchPage` or `NewPage` is left by an exception, it has taken a frame out of its list and has not
put it anywhere else: that frame is neither free, nor a candidate for eviction, nor pinned
(`disk_exceptions`, in the next module).
-/

set_option autoImplicit false

namespace StingDB

open Machine BufferPoolManager

/-! ## The disk manager -/

/-- What becomes of a write. -/
inductive WriteResult where
  | written
  /-- It completes with a negative result. -/
  | failed
  /-- It is not submitted. -/
  | queueFull
  deriving DecidableEq

/-- What the disk does in one call.  No call writes a page twice, or reads more than one. -/
structure Faults where
  /-- The writes, by pages. -/
  write : PageId → WriteResult := fun _ ↦ .written
  /-- `pread` fails. -/
  readFails : Bool := false

/-- The exceptions of the disk manager. -/
inductive DiskError where
  | queueFull
  | readFailed
  deriving DecidableEq

/-- Their texts. -/
def DiskError.what : DiskError → String
  | .queueFull => "DiskManager: io_uring submission queue is full"
  | .readFailed => "DiskManager: failed to read page"

namespace DiskManager

/-- `WritePageAsync`, and what becomes of the write. -/
def tryWritePageAsync (d : DiskManager) (faults : Faults) (pageId : PageId) (pageData : PageData) :
    Except DiskError DiskManager :=
  match faults.write pageId with
  | .written => .ok (d.writePageAsync pageId pageData)
  | .failed => .ok { d with issued := d.issued ++ [(pageId, pageData)] }
  | .queueFull => .error .queueFull

/-- `ReadPage`. -/
def tryReadPage (d : DiskManager) (faults : Faults) (pageId : PageId) :
    Except DiskError PageData :=
  if faults.readFails then .error .readFailed else .ok (d.readPage pageId)

end DiskManager

/-! ## The pool -/

namespace Store

/-- How `FetchPage` and `NewPage` find a frame. -/
def tryAcquireFrame (s : Store) (faults : Faults) : Except DiskError (Option ℕ) × Store :=
  match s.pool.takeFrame with
  | none => (.ok none, s)
  | some (frameId, false, pool) => (.ok (some frameId), { s with pool })
  | some (frameId, true, pool) =>
    let victimPage := pool.pages frameId
    if victimPage.isDirty then
      match s.disk.tryWritePageAsync faults victimPage.pageId victimPage.data with
      | .error e => (.error e, { s with pool })
      | .ok disk => (.ok (some frameId), { pool := pool.unmapVictim frameId, disk })
    else (.ok (some frameId), { s with pool := pool.unmapVictim frameId })

/-- `FetchPage`. -/
def tryFetchPage (s : Store) (faults : Faults) (pageId : PageId) :
    Except DiskError (Option ℕ) × Store :=
  match s.pool.pageTable.lookup pageId with
  | some frameId => (.ok (some frameId), { s with pool := s.pool.pin frameId })
  | none =>
    match s.tryAcquireFrame faults with
    | (.ok (some frameId), s) =>
      let pool := s.pool.setPage frameId (s.pool.pages frameId).resetMemory
      match s.disk.tryReadPage faults pageId with
      | .error e => (.error e, { s with pool })
      | .ok data => (.ok (some frameId), { s with pool := pool.install frameId pageId data })
    | (.ok none, s) => (.ok none, s)
    | (.error e, s) => (.error e, s)

/-- `NewPage`. -/
def tryNewPage (s : Store) (faults : Faults) : Except DiskError (Option (PageId × ℕ)) × Store :=
  match s.tryAcquireFrame faults with
  | (.ok (some frameId), s) =>
    let (newPageId, disk) := s.disk.allocatePage
    (.ok (some (newPageId, frameId)),
      { pool := s.pool.install frameId newPageId Block.zero, disk })
  | (.ok none, s) => (.ok none, s)
  | (.error e, s) => (.error e, s)

/-- What `FlushPage` and `FlushAllPages` do to a resident page. -/
def tryFlushFrame (s : Store) (faults : Faults) (pageId : PageId) (frameId : ℕ) :
    Except DiskError Unit × Store :=
  let page := s.pool.pages frameId
  if page.isDirty then
    match s.disk.tryWritePageAsync faults pageId page.data with
    | .error e => (.error e, s)
    | .ok disk => (.ok (), { pool := s.pool.setPage frameId (page.setDirty false), disk })
  else (.ok (), s)

/-- `FlushPage`. -/
def tryFlushPage (s : Store) (faults : Faults) (pageId : PageId) : Except DiskError Bool × Store :=
  match s.pool.pageTable.lookup pageId with
  | none => (.ok false, s)
  | some frameId =>
    match s.tryFlushFrame faults pageId frameId with
    | (.ok (), s) => (.ok true, s)
    | (.error e, s) => (.error e, s)

/-- The loop of `FlushAllPages`, over these entries of the table. -/
def tryFlushEntries (s : Store) (faults : Faults) :
    List (Sigma fun _ : PageId ↦ ℕ) → Except DiskError Unit × Store
  | [] => (.ok (), s)
  | ⟨pageId, frameId⟩ :: rest =>
    match s.tryFlushFrame faults pageId frameId with
    | (.ok (), s) => s.tryFlushEntries faults rest
    | (.error e, s) => (.error e, s)

/-- `FlushAllPages`. -/
def tryFlushAllPages (s : Store) (faults : Faults) : Except DiskError Unit × Store :=
  s.tryFlushEntries faults s.pool.pageTable.entries

/-! ### Without faults -/

theorem tryAcquireFrame_noFaults (s : Store) :
    s.tryAcquireFrame {} =
      match s.acquireFrame with
      | some (frameId, s') => (.ok (some frameId), s')
      | none => (.ok none, s) := by
  rw [tryAcquireFrame, acquireFrame]
  cases s.pool.takeFrame with
  | none => rfl
  | some r =>
    obtain ⟨f, victim, pool⟩ := r
    cases victim with
    | false => rfl
    | true =>
      cases hd : (pool.pages f).isDirty <;> simp [hd, DiskManager.tryWritePageAsync]

theorem tryFetchPage_noFaults (s : Store) (p : PageId) :
    s.tryFetchPage {} p = (.ok (s.fetchPage p).1, (s.fetchPage p).2) := by
  rw [tryFetchPage, fetchPage]
  cases s.pool.pageTable.lookup p with
  | some f => rfl
  | none =>
    rw [tryAcquireFrame_noFaults]
    cases s.acquireFrame with
    | none => rfl
    | some r =>
      obtain ⟨f, s'⟩ := r
      simp [DiskManager.tryReadPage, BufferPoolManager.install, BufferPoolManager.setPage]

theorem tryNewPage_noFaults (s : Store) :
    s.tryNewPage {} = (.ok s.newPage.1, s.newPage.2) := by
  rw [tryNewPage, newPage, tryAcquireFrame_noFaults]
  cases s.acquireFrame with
  | none => rfl
  | some r => rfl

theorem tryFlushFrame_noFaults (s : Store) (p : PageId) (f : ℕ) :
    s.tryFlushFrame {} p f = (.ok (), s.flushFrame p f) := by
  rw [tryFlushFrame, flushFrame]
  cases hd : (s.pool.pages f).isDirty <;> simp [DiskManager.tryWritePageAsync]

theorem tryFlushPage_noFaults (s : Store) (p : PageId) :
    s.tryFlushPage {} p = (.ok (s.flushPage p).1, (s.flushPage p).2) := by
  rw [tryFlushPage, flushPage]
  cases s.pool.pageTable.lookup p with
  | none => rfl
  | some f => simp [tryFlushFrame_noFaults]

theorem tryFlushAllPages_noFaults (s : Store) :
    s.tryFlushAllPages {} = (.ok (), s.flushAllPages) := by
  have hloop : ∀ (l : List (Sigma fun _ : PageId ↦ ℕ)) (t : Store),
      t.tryFlushEntries {} l = (.ok (), l.foldl (fun s e ↦ s.flushFrame e.1 e.2) t) := by
    intro l
    induction l with
    | nil => exact fun t ↦ rfl
    | cons e l ih =>
      intro t
      rw [tryFlushEntries, tryFlushFrame_noFaults]
      exact ih _
  exact hloop _ s

/-! ### What a call does -/

theorem tryAcquireFrame_cases {s s' : Store} {faults : Faults} {r : Except DiskError (Option ℕ)}
    (h : s.tryAcquireFrame faults = (r, s')) :
    (s.pool.takeFrame = none ∧ r = .ok none ∧ s' = s) ∨
      (∃ f rest, s.pool.freeList = f :: rest ∧ r = .ok (some f) ∧
        s' = { s with pool := { s.pool with freeList := rest } }) ∨
      (s.pool.freeList = [] ∧ ∃ f rest, s.pool.lruReplacer = rest ++ [f] ∧
        ((r = .error .queueFull ∧ faults.write (s.pool.pages f).pageId = .queueFull ∧
            s' = { s with pool := { s.pool with lruReplacer := rest } }) ∨
          (r = .ok (some f) ∧ ∃ disk,
            s' = { pool := { s.pool with lruReplacer := rest }.unmapVictim f, disk } ∧
            ((s.pool.pages f).isDirty = false ∧ disk = s.disk ∨
              (s.pool.pages f).isDirty = true ∧ s.disk.tryWritePageAsync faults
                (s.pool.pages f).pageId (s.pool.pages f).data = .ok disk)))) := by
  rw [tryAcquireFrame] at h
  split at h
  · rename_i ht
    cases h
    exact Or.inl ⟨ht, rfl, rfl⟩
  · rename_i f pool ht
    cases h
    obtain ⟨-, rest, hf, rfl⟩ | ⟨hv, -⟩ := takeFrame_eq_some.mp ht
    · exact Or.inr (Or.inl ⟨f, rest, hf, rfl, rfl⟩)
    · cases hv
  · rename_i f pool ht
    obtain ⟨hv, -⟩ | ⟨-, hf, rest, hl, rfl⟩ := takeFrame_eq_some.mp ht
    · cases hv
    refine Or.inr (Or.inr ⟨hf, f, rest, hl, ?_⟩)
    dsimp only at h
    split at h
    · rename_i hd
      split at h
      · rename_i e hw
        cases h
        rw [DiskManager.tryWritePageAsync] at hw
        split at hw
        · cases hw
        · cases hw
        · rename_i hfull
          cases hw
          exact Or.inl ⟨rfl, hfull, rfl⟩
      · rename_i disk hw
        cases h
        exact Or.inr ⟨rfl, disk, rfl, Or.inr ⟨hd, hw⟩⟩
    · rename_i hd
      cases h
      exact Or.inr ⟨rfl, s.disk, rfl, Or.inl ⟨Bool.eq_false_of_not_eq_true hd, rfl⟩⟩

theorem tryFetchPage_cases {s s' : Store} {faults : Faults} {p : PageId}
    {r : Except DiskError (Option ℕ)} (h : s.tryFetchPage faults p = (r, s')) :
    (∃ f, s.pool.pageTable.lookup p = some f ∧ r = .ok (some f) ∧
        s' = { s with pool := s.pool.pin f }) ∨
      (s.pool.pageTable.lookup p = none ∧
        ((s.tryAcquireFrame faults = (r, s') ∧ ∀ f, r ≠ .ok (some f)) ∨
          ∃ f s₁, s.tryAcquireFrame faults = (.ok (some f), s₁) ∧
            ((r = .error .readFailed ∧ faults.readFails = true ∧ s' =
                { s₁ with pool := s₁.pool.setPage f (s₁.pool.pages f).resetMemory }) ∨
              (r = .ok (some f) ∧ s' =
                { s₁ with pool := s₁.pool.install f p (s₁.disk.readPage p) })))) := by
  rw [tryFetchPage] at h
  split at h
  · rename_i f hp
    cases h
    exact Or.inl ⟨f, hp, rfl, rfl⟩
  · rename_i hp
    refine Or.inr ⟨hp, ?_⟩
    split at h
    · rename_i f s₁ ha
      refine Or.inr ⟨f, s₁, ha, ?_⟩
      cases hread : faults.readFails with
      | true =>
        simp only [DiskManager.tryReadPage, hread, if_true] at h
        cases h
        exact Or.inl ⟨rfl, rfl, rfl⟩
      | false =>
        simp only [DiskManager.tryReadPage, hread, Bool.false_eq_true, if_false] at h
        cases h
        -- the reset is overwritten
        exact Or.inr ⟨rfl, by simp [BufferPoolManager.install, BufferPoolManager.setPage]⟩
    · rename_i s₁ ha
      cases h
      exact Or.inl ⟨ha, by simp⟩
    · rename_i e s₁ ha
      cases h
      exact Or.inl ⟨ha, by simp⟩

theorem tryNewPage_cases {s s' : Store} {faults : Faults}
    {r : Except DiskError (Option (PageId × ℕ))} (h : s.tryNewPage faults = (r, s')) :
    (∃ r', s.tryAcquireFrame faults = (r', s') ∧
        (r = .ok none ∧ r' = .ok none ∨ ∃ e, r = .error e ∧ r' = .error e)) ∨
      ∃ f s₁, s.tryAcquireFrame faults = (.ok (some f), s₁) ∧
        r = .ok (some (s₁.disk.nextPageId, f)) ∧
        s' = { pool := s₁.pool.install f s₁.disk.nextPageId Block.zero
               disk := s₁.disk.allocatePage.2 } := by
  rw [tryNewPage] at h
  split at h
  · rename_i f s₁ ha
    cases h
    exact Or.inr ⟨f, s₁, ha, rfl, rfl⟩
  · rename_i s₁ ha
    cases h
    exact Or.inl ⟨_, ha, Or.inl ⟨rfl, rfl⟩⟩
  · rename_i e s₁ ha
    cases h
    exact Or.inl ⟨_, ha, Or.inr ⟨e, rfl, rfl⟩⟩

theorem tryFlushFrame_cases {s s' : Store} {faults : Faults} {p : PageId} {f : ℕ}
    {r : Except DiskError Unit} (h : s.tryFlushFrame faults p f = (r, s')) :
    s' = s ∧ ((s.pool.pages f).isDirty = false ∧ r = .ok () ∨
        r = .error .queueFull ∧ faults.write p = .queueFull) ∨
      (s.pool.pages f).isDirty = true ∧ r = .ok () ∧ ∃ disk,
        s.disk.tryWritePageAsync faults p (s.pool.pages f).data = .ok disk ∧
        s' = { pool := s.pool.setPage f ((s.pool.pages f).setDirty false), disk } := by
  rw [tryFlushFrame] at h
  split at h
  · rename_i hd
    rw [DiskManager.tryWritePageAsync] at h ⊢
    cases hw : faults.write p <;> rw [hw] at h <;> cases h
    · exact Or.inr ⟨hd, rfl, _, rfl, rfl⟩
    · exact Or.inr ⟨hd, rfl, _, rfl, rfl⟩
    · exact Or.inl ⟨rfl, Or.inr ⟨rfl, rfl⟩⟩
  · rename_i hd
    cases h
    exact Or.inl ⟨rfl, Or.inl ⟨Bool.eq_false_of_not_eq_true hd, rfl⟩⟩

/-- What every flush of a resident page keeps, `FlushAllPages` keeps. -/
theorem tryFlushEntries_induction {P : Store → Prop} {faults : Faults}
    {l : List (Sigma fun _ : PageId ↦ ℕ)}
    (hstep : ∀ s, ∀ e ∈ l, P s → P (s.tryFlushFrame faults e.1 e.2).2) {s : Store} (h : P s) :
    P (s.tryFlushEntries faults l).2 := by
  induction l generalizing s with
  | nil => exact h
  | cons e l ih =>
    have hhead := hstep s e List.mem_cons_self h
    have htail := fun t e' he' ↦ hstep t e' (List.mem_cons_of_mem _ he')
    rw [tryFlushEntries]
    split
    · rename_i s₁ hs₁
      rw [hs₁] at hhead
      exact ih htail hhead
    · rename_i err s₁ hs₁
      rw [hs₁] at hhead
      exact hhead

/-! ## Calls, one after another -/

/-- The exception, if a call was left by one. -/
def thrown {α : Type} : Except DiskError α → Option DiskError
  | .ok _ => none
  | .error e => some e

/-- One call, and what the disk does in it. -/
def tryStep (s : Store) : Faults × Call → Option (Option DiskError × Store)
  | (faults, .fetchPage pageId) =>
    let (r, s) := s.tryFetchPage faults pageId
    some (thrown r, s)
  | (_, .unpinPage pageId isDirty) =>
    -- `assert(previous_pin_count > 0 && "Unpinning an unpinned page.")`
    if ∀ frameId ∈ s.pool.pageTable.lookup pageId, 0 < (s.pool.pages frameId).pinCount then
      some (none, (s.unpinPage pageId isDirty).2)
    else none
  | (faults, .flushPage pageId) =>
    let (r, s) := s.tryFlushPage faults pageId
    some (thrown r, s)
  | (faults, .flushAllPages) =>
    let (r, s) := s.tryFlushAllPages faults
    some (thrown r, s)
  | (faults, .newPage) =>
    let (r, s) := s.tryNewPage faults
    some (thrown r, s)
  | (_, .write frameId data) => some (none, s.writeFrame frameId data)

/-! ### What every call keeps -/

/-- A predicate of the pool, and of the frame that has been taken for a page to come, that is kept
by everything the calls are made of.  The frame may be forgotten: that is what an exception does. -/
structure StepRules (P : Option ℕ → BufferPoolManager → Prop) : Prop where
  setPage : ∀ {limbo b f} {page : Page}, P limbo b → page.pageId = (b.pages f).pageId →
    page.pinCount = (b.pages f).pinCount → P limbo (b.setPage f page)
  pin : ∀ {b p f}, P none b → b.pageTable.lookup p = some f → P none (b.pin f)
  unpin : ∀ {b p f d}, P none b → b.pageTable.lookup p = some f → 0 < (b.pages f).pinCount →
    P none (b.unpin f d)
  takeFree : ∀ {b f rest}, P none b → b.freeList = f :: rest →
    P (some f) { b with freeList := rest }
  takeBack : ∀ {b f rest}, P none b → b.freeList = [] → b.lruReplacer = rest ++ [f] →
    P none { b with lruReplacer := rest }
  takeVictim : ∀ {b f rest}, P none b → b.freeList = [] → b.lruReplacer = rest ++ [f] →
    P (some f) ({ b with lruReplacer := rest }.unmapVictim f)
  install : ∀ {b f p data}, P (some f) b → P none (b.install f p data)
  forget : ∀ {b f}, P (some f) b → P none b

namespace StepRules

variable {P : Option ℕ → BufferPoolManager → Prop}

theorem acquire (hP : StepRules P) {s s' : Store} {faults : Faults}
    {r : Except DiskError (Option ℕ)} (h : P none s.pool)
    (ha : s.tryAcquireFrame faults = (r, s')) :
    (∃ f, r = .ok (some f) ∧ P (some f) s'.pool) ∨ (∀ f, r ≠ .ok (some f)) ∧ P none s'.pool := by
  obtain ⟨-, rfl, rfl⟩ | ⟨f, rest, hf, rfl, rfl⟩ |
    ⟨hf, f, rest, hl, ⟨rfl, -, rfl⟩ | ⟨rfl, disk, rfl, -⟩⟩ := tryAcquireFrame_cases ha
  · exact Or.inr ⟨by simp, h⟩
  · exact Or.inl ⟨f, rfl, hP.takeFree h hf⟩
  · exact Or.inr ⟨by simp, hP.takeBack h hf hl⟩
  · exact Or.inl ⟨f, rfl, hP.takeVictim h hf hl⟩

theorem flushFrame (hP : StepRules P) {s : Store} (h : P none s.pool) (faults : Faults)
    (p : PageId) (f : ℕ) : P none (s.tryFlushFrame faults p f).2.pool := by
  obtain ⟨hs, -⟩ | ⟨-, -, disk, -, hs⟩ :=
    tryFlushFrame_cases (Prod.mk.eta (p := s.tryFlushFrame faults p f)).symm
  · rw [hs]
    exact h
  · rw [hs]
    exact hP.setPage h rfl rfl

/-- **One call keeps it**, also when it is left by an exception. -/
theorem tryStep (hP : StepRules P) {s s' : Store} {e : Faults × Call} {o : Option DiskError}
    (h : P none s.pool) (hs : s.tryStep e = some (o, s')) : P none s'.pool := by
  obtain ⟨faults, c⟩ := e
  cases c with
  | fetchPage p =>
    rcases hc : s.tryFetchPage faults p with ⟨r, t⟩
    simp only [Store.tryStep, hc, Option.some.injEq, Prod.mk.injEq] at hs
    obtain ⟨-, rfl⟩ := hs
    obtain ⟨f, hp, -, rfl⟩ | ⟨-, ⟨ha, hne⟩ | ⟨f, s₁, ha, hrest⟩⟩ := tryFetchPage_cases hc
    · exact hP.pin h hp
    · obtain ⟨f, rfl, -⟩ | ⟨-, hnone⟩ := hP.acquire h ha
      · exact absurd rfl (hne f)
      · exact hnone
    · obtain ⟨f', hf', hlimbo⟩ | ⟨hne, -⟩ := hP.acquire h ha
      · cases hf'
        obtain ⟨-, -, rfl⟩ | ⟨-, rfl⟩ := hrest
        · exact hP.forget (hP.setPage hlimbo rfl rfl)
        · exact hP.install hlimbo
      · exact absurd rfl (hne f)
  | unpinPage p d =>
    rw [Store.tryStep] at hs
    split at hs
    · rename_i hpos
      cases hs
      rw [unpinPage]
      split
      · exact h
      · rename_i f hp
        exact hP.unpin h hp (hpos f hp)
    · cases hs
  | flushPage p =>
    rcases hc : s.tryFlushPage faults p with ⟨r, t⟩
    simp only [Store.tryStep, hc, Option.some.injEq, Prod.mk.injEq] at hs
    obtain ⟨-, rfl⟩ := hs
    rw [tryFlushPage] at hc
    split at hc
    · cases hc
      exact h
    · rename_i f hp
      have hflush := hP.flushFrame h faults p f
      split at hc
      all_goals
        rename_i heq
        cases hc
        rwa [heq] at hflush
  | flushAllPages =>
    rcases hc : s.tryFlushAllPages faults with ⟨r, t⟩
    simp only [Store.tryStep, hc, Option.some.injEq, Prod.mk.injEq] at hs
    obtain ⟨-, rfl⟩ := hs
    have hflush : P none (s.tryFlushAllPages faults).2.pool :=
      tryFlushEntries_induction (P := fun t ↦ P none t.pool)
        (fun t e _ ht ↦ hP.flushFrame ht faults e.1 e.2) h
    rwa [hc] at hflush
  | newPage =>
    rcases hc : s.tryNewPage faults with ⟨r, t⟩
    simp only [Store.tryStep, hc, Option.some.injEq, Prod.mk.injEq] at hs
    obtain ⟨-, rfl⟩ := hs
    obtain ⟨r', ha, hr'⟩ | ⟨f, s₁, ha, -, rfl⟩ := tryNewPage_cases hc
    · obtain ⟨f, rfl, -⟩ | ⟨-, hnone⟩ := hP.acquire h ha
      · obtain ⟨-, hr'⟩ | ⟨_, -, hr'⟩ := hr' <;> cases hr'
      · exact hnone
    · obtain ⟨f', hf', hlimbo⟩ | ⟨hne, -⟩ := hP.acquire h ha
      · cases hf'
        exact hP.install hlimbo
      · exact absurd rfl (hne f)
  | write f data =>
    cases hs
    exact hP.setPage h rfl rfl

end StepRules

end Store

end StingDB
