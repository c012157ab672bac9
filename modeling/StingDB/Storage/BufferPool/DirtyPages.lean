import StingDB.Storage.BufferPool.DiskExceptions

/-!
# Pages that were released as dirty

A write that was submitted may complete with a negative result, and leave the file as it was.  The
pool does not ask: `RetrieveAsyncCompletions` counts such a completion as any other, and by then the
page has been marked clean, or is about to be evicted.

Here are the buffer pool over such a disk, what must not be lost (`DirtyPages.since`), and what each
call does to the pages that were dirty before it (`step_spec`).  What follows for whole runs is in
the next module.

A write has its result at once, and is of the bytes that were passed.  What else may happen before
its completion is posted is the subject of `AsyncWrites`.
-/

set_option autoImplicit false

namespace StingDB

open Machine BufferPoolManager

/-- A buffer pool, its file, and what must not be lost. -/
structure DirtyPages where
  /-- The pool and its disk manager. -/
  store : Store
  /-- Nothing reads this: for each page that has been released as dirty, what it held the last time
  that happened, and all that clients have written to it since. -/
  since : PageId → Option (List PageData) := fun _ ↦ none

namespace DirtyPages

/-- A pool that has just been constructed, over a file. -/
def start (poolSize : ℕ) (file : PageId → Option PageData) : DirtyPages :=
  { store := .opened poolSize file }

/-- A disk in which these writes complete with a negative result, and all others are performed. -/
def completing (fails : PageId → Bool) : Faults :=
  { write := fun p ↦ if fails p then .failed else .written }

/-- What must not be lost after a call. -/
def record (s : DirtyPages) : Store.Call → PageId → Option (List PageData)
  | .unpinPage pageId true =>
    match s.store.pool.pageTable.lookup pageId with
    | some frameId =>
      Function.update s.since pageId (some [(s.store.pool.pages frameId).data])
    | none => s.since
  | .write frameId data =>
    let pageId := (s.store.pool.pages frameId).pageId
    if s.store.pool.pageTable.lookup pageId = some frameId then
      Function.update s.since pageId ((s.since pageId).map (data :: ·))
    else s.since
  | _ => s.since

/-- One call, and which writes fail in it. -/
def step (s : DirtyPages) : (PageId → Bool) × Store.Call → Option (Option DiskError × DirtyPages)
  | (fails, c) =>
    match s.store.tryStep (completing fails, c) with
    | none => none
    | some (o, store) => some (o, { store, since := s.record c })

/-- What must not be lost is in a resident frame that is marked dirty, or in the file. -/
def Kept (s : DirtyPages) : Prop :=
  ∀ p l, s.since p = some l →
    (∃ f, s.store.pool.pageTable.lookup p = some f ∧ (s.store.pool.pages f).isDirty = true ∧
      (s.store.pool.pages f).data ∈ l) ∨ s.store.disk.readPage p ∈ l

/-- A page that is dirty before a call is so after it, or the file holds what it held. -/
def Secured (s : DirtyPages) (e : (PageId → Bool) × Store.Call) : Prop :=
  ∀ o s', s.step e = some (o, s') →
    ∀ p f, s.store.pool.pageTable.lookup p = some f → (s.store.pool.pages f).isDirty = true →
      s'.store.pool.pageTable.lookup p = some f ∧ (s'.store.pool.pages f).isDirty = true ∨
        s'.store.disk.readPage p = (s.store.pool.pages f).data

/-- The call evicts this page, which is resident in this frame. -/
def Evicts (s : DirtyPages) (p : PageId) (f : ℕ) : Prop :=
  (∃ pool, s.store.pool.takeFrame = some (f, true, pool)) ∧ (s.store.pool.pages f).pageId = p

/-- The call passes this page, which is in this frame, to `WritePageAsync`. -/
def Writes (s : DirtyPages) (p : PageId) (f : ℕ) (c : Store.Call) : Prop :=
  s.store.pool.pageTable.lookup p = some f ∧ (s.store.pool.pages f).isDirty = true ∧
    match c with
    | .fetchPage q => s.store.pool.pageTable.lookup q = none ∧ s.Evicts p f
    | .newPage => s.Evicts p f
    | .flushPage q => p = q
    | .flushAllPages => True
    | _ => False

/-- If a write fails, the file holds the bytes already. -/
def Harmless (s : DirtyPages) (e : (PageId → Bool) × Store.Call) : Prop :=
  ∀ p f, s.Writes p f e.2 → e.1 p = true →
    s.store.disk.readPage p = (s.store.pool.pages f).data

/-- `NewPage` is called only when the id it is going to return is not that of a resident page. -/
def Fresh (s : DirtyPages) (e : (PageId → Bool) × Store.Call) : Prop :=
  e.2 = .newPage → s.store.pool.pageTable.lookup s.store.disk.nextPageId = none

/-! ## The candidates for eviction are mapped -/

/-- Besides `Usable`: a candidate for eviction carries the id of the page that is mapped to it. -/
def Mapped (b : BufferPoolManager) (limbo : Option ℕ) : Prop :=
  b.Usable limbo ∧ ∀ f ∈ b.lruReplacer, b.pageTable.lookup (b.pages f).pageId = some f

theorem mapped_create (poolSize : ℕ) : Mapped (create poolSize) none :=
  ⟨usable_create poolSize, fun _ hf ↦ absurd hf List.not_mem_nil⟩

namespace Mapped

variable {b : BufferPoolManager} {limbo : Option ℕ} {p : PageId} {f : ℕ}

theorem setPage (h : Mapped b limbo) {page : Page} (hid : page.pageId = (b.pages f).pageId)
    (hpin : page.pinCount = (b.pages f).pinCount) : Mapped (b.setPage f page) limbo := by
  refine ⟨h.1.setPage hid hpin, fun g hg ↦ ?_⟩
  by_cases hgf : g = f
  · subst hgf
    rw [setPage_pages_self, hid]
    exact h.2 g hg
  · rw [setPage_pages_of_ne _ _ _ hgf]
    exact h.2 g hg

theorem pin (h : Mapped b limbo) : Mapped (b.pin f) limbo := by
  refine ⟨h.1.pin, fun g hg ↦ ?_⟩
  obtain ⟨hmem, hne⟩ := List.mem_filter.mp hg
  rw [show (b.pin f).pages g = b.pages g from
    setPage_pages_of_ne _ _ _ (of_decide_eq_true hne)]
  exact h.2 g hmem

theorem unpin (h : Mapped b limbo) (hp : b.pageTable.lookup p = some f)
    (hpos : 0 < (b.pages f).pinCount) (d : Bool) : Mapped (b.unpin f d) limbo := by
  refine ⟨h.1.unpin hp hpos d, fun g hg ↦ ?_⟩
  rw [unpin_pageId, unpin_pageTable]
  rcases b.mem_lruReplacer_unpin f d hg with rfl | hg
  · rw [h.1.pageId_eq hp]
    exact hp
  · exact h.2 g hg

theorem takeFree (h : Mapped b none) {rest : List ℕ} (hf : b.freeList = f :: rest) :
    Mapped { b with freeList := rest } (some f) :=
  ⟨h.1.takeFree hf, h.2⟩

theorem takeVictim (h : Mapped b none) {rest : List ℕ} (hf : b.freeList = [])
    (hl : b.lruReplacer = rest ++ [f]) :
    Mapped ({ b with lruReplacer := rest }.unmapVictim f) (some f) ∧
      b.pageTable.lookup (b.pages f).pageId = some f := by
  have hvictim : f ∈ b.lruReplacer := hl ▸ List.mem_append_right _ List.mem_cons_self
  obtain ⟨hback, hlt, hnot, -⟩ := h.1.takeBack hl
  refine ⟨⟨hback.unmapVictim (by simp [hf]) hnot hlt, fun g hg ↦ ?_⟩, h.2 f hvictim⟩
  have hmap := h.2 g (hl ▸ List.mem_append_left _ hg)
  refine lookup_unmapVictim.mpr ⟨fun heq ↦ ?_, hmap⟩
  rw [show (b.pages g).pageId = (b.pages f).pageId from heq, h.2 f hvictim] at hmap
  rw [Option.some.inj hmap] at hnot
  exact hnot hg

theorem victim (h : Mapped b none) {b' : BufferPoolManager}
    (ht : b.takeFrame = some (f, true, b')) : b.pageTable.lookup (b.pages f).pageId = some f := by
  obtain ⟨hv, -⟩ | ⟨-, -, rest, hl, -⟩ := takeFrame_eq_some.mp ht
  · cases hv
  · exact h.2 f (hl ▸ List.mem_append_right _ List.mem_cons_self)

theorem install (h : Mapped b (some f)) (hp : b.pageTable.lookup p = none) (data : PageData) :
    Mapped (b.install f p data) none := by
  refine ⟨h.1.install p data, fun g hg ↦ ?_⟩
  have hgf : g ≠ f := by
    rintro rfl
    exact h.1.limbo_lru rfl hg
  have hmap := h.2 g hg
  rw [install_pages_of_ne _ _ _ hgf]
  refine lookup_install.mpr (Or.inr ⟨?_, hmap⟩)
  rintro rfl
  rw [hp] at hmap
  cases hmap

end Mapped

/-! ## What a call does to the pages that are dirty before it -/

/-- A page that is dirty after some steps was so before them, with the same bytes; and the file has
changed only where a page was dirty, whose bytes it holds now. -/
structure Secures (s s' : Store) : Prop where
  dirty : ∀ {p f}, s'.pool.pageTable.lookup p = some f → (s'.pool.pages f).isDirty = true →
    s.pool.pageTable.lookup p = some f ∧ (s.pool.pages f).isDirty = true ∧
      (s'.pool.pages f).data = (s.pool.pages f).data
  read : ∀ p, (s'.disk.readPage p = s.disk.readPage p ∧
      ∀ f, s.pool.pageTable.lookup p = some f → (s.pool.pages f).isDirty = true →
        s'.pool.pageTable.lookup p = some f ∧ (s'.pool.pages f).isDirty = true) ∨
    ∃ f, s.pool.pageTable.lookup p = some f ∧ (s.pool.pages f).isDirty = true ∧
      s'.disk.readPage p = (s.pool.pages f).data

namespace Secures

variable {s t u : Store}

/-- Only pins and candidates for eviction have changed. -/
theorem of_pool {pool : BufferPoolManager} (htable : pool.pageTable = s.pool.pageTable)
    (hpage : ∀ g, (pool.pages g).isDirty = (s.pool.pages g).isDirty ∧
      (pool.pages g).data = (s.pool.pages g).data) : Secures s { s with pool } where
  dirty hp hd := by
    dsimp only at hp hd
    rw [htable] at hp
    rw [(hpage _).1] at hd
    exact ⟨hp, hd, (hpage _).2⟩
  read p := by
    refine Or.inl ⟨rfl, fun f hp hd ↦ ?_⟩
    dsimp only
    rw [htable, (hpage f).1]
    exact ⟨hp, hd⟩

theorem refl (s : Store) : Secures s s := of_pool rfl fun _ ↦ ⟨rfl, rfl⟩

theorem trans (h₁ : Secures s t) (h₂ : Secures t u) : Secures s u where
  dirty hp hd := by
    obtain ⟨hp₁, hd₁, hdata₁⟩ := h₂.dirty hp hd
    obtain ⟨hp₀, hd₀, hdata₀⟩ := h₁.dirty hp₁ hd₁
    exact ⟨hp₀, hd₀, hdata₁.trans hdata₀⟩
  read p := by
    rcases h₂.read p with ⟨heq, hstay⟩ | ⟨f, hp₁, hd₁, heq⟩
    · rcases h₁.read p with ⟨heq₀, hstay₀⟩ | ⟨f, hp₀, hd₀, heq₀⟩
      · refine Or.inl ⟨heq.trans heq₀, fun f hp hd ↦ ?_⟩
        obtain ⟨hp₁, hd₁⟩ := hstay₀ f hp hd
        exact hstay f hp₁ hd₁
      · exact Or.inr ⟨f, hp₀, hd₀, heq.trans heq₀⟩
    · obtain ⟨hp₀, hd₀, hdata₀⟩ := h₁.dirty hp₁ hd₁
      exact Or.inr ⟨f, hp₀, hd₀, heq.trans hdata₀⟩

/-- A page comes in that was not resident. -/
theorem install {f : ℕ} {p : PageId} (h : s.pool.Usable (some f))
    (hp : s.pool.pageTable.lookup p = none) (data : PageData) {disk : DiskManager}
    (hdisk : ∀ q, disk.readPage q = s.disk.readPage q) :
    Secures s { pool := s.pool.install f p data, disk } where
  dirty := by
    intro q g hq hd
    rcases lookup_install.mp hq with ⟨rfl, rfl⟩ | ⟨-, hold⟩
    · dsimp only at hd
      rw [install_pages_self] at hd
      cases hd
    · have hgf : g ≠ f := by
        rintro rfl
        exact h.limbo_unmapped rfl hold
      dsimp only at hd ⊢
      rw [install_pages_of_ne _ _ _ hgf] at hd ⊢
      exact ⟨hold, hd, rfl⟩
  read := by
    refine fun q ↦ Or.inl ⟨hdisk q, fun g hq hd ↦ ?_⟩
    have hgf : g ≠ f := by
      rintro rfl
      exact h.limbo_unmapped rfl hq
    dsimp only
    rw [install_pages_of_ne _ _ _ hgf]
    refine ⟨lookup_install.mpr (Or.inr ⟨?_, hq⟩), hd⟩
    rintro rfl
    rw [hp] at hq
    cases hq

end Secures

theorem completing_ne_queueFull (fails : PageId → Bool) (p : PageId) :
    (completing fails).write p ≠ .queueFull := by
  rw [completing]
  dsimp only
  split <;> simp

/-- A write has one of the two results. -/
theorem tryWritePageAsync_completing {d disk : DiskManager} {fails : PageId → Bool} {p : PageId}
    {data : PageData} (h : d.tryWritePageAsync (completing fails) p data = .ok disk) :
    disk.nextPageId = d.nextPageId ∧ (∀ q, q ≠ p → disk.readPage q = d.readPage q) ∧
      disk.readPage p = if fails p then d.readPage p else data := by
  rw [DiskManager.tryWritePageAsync, completing] at h
  cases hf : fails p with
  | true =>
    simp only [hf, if_true, Except.ok.injEq] at h
    subst h
    exact ⟨rfl, fun _ _ ↦ rfl, rfl⟩
  | false =>
    simp only [hf, Bool.false_eq_true, if_false, Except.ok.injEq] at h
    subst h
    exact ⟨rfl, fun q hq ↦ d.readPage_writePageAsync_of_ne data hq,
      d.readPage_writePageAsync_self p data⟩

/-! ## The steps that calls are made of -/

/-- What the disk is after the eviction of the page in this frame: a page that is dirty is passed to
`WritePageAsync` first. -/
def WritesVictim (s : Store) (fails : PageId → Bool) (f : ℕ) (disk : DiskManager) : Prop :=
  (s.pool.pages f).isDirty = false ∧ disk = s.disk ∨
    (s.pool.pages f).isDirty = true ∧ s.disk.tryWritePageAsync (completing fails)
      (s.pool.pages f).pageId (s.pool.pages f).data = .ok disk

namespace WritesVictim

variable {s : Store} {fails : PageId → Bool} {f : ℕ} {disk : DiskManager}

theorem nextPageId_eq (h : WritesVictim s fails f disk) :
    disk.nextPageId = s.disk.nextPageId := by
  rcases h with ⟨-, rfl⟩ | ⟨-, hw⟩
  · rfl
  · exact (tryWritePageAsync_completing hw).1

theorem read_of_ne (h : WritesVictim s fails f disk) {q : PageId}
    (hq : q ≠ (s.pool.pages f).pageId) : disk.readPage q = s.disk.readPage q := by
  rcases h with ⟨-, rfl⟩ | ⟨-, hw⟩
  · rfl
  · exact (tryWritePageAsync_completing hw).2.1 q hq

theorem read_of_fails (h : WritesVictim s fails f disk)
    (hf : fails (s.pool.pages f).pageId = true) :
    disk.readPage (s.pool.pages f).pageId = s.disk.readPage (s.pool.pages f).pageId := by
  rcases h with ⟨-, rfl⟩ | ⟨-, hw⟩
  · rfl
  · rw [(tryWritePageAsync_completing hw).2.2, if_pos hf]

/-- If the write does not fail, or does no harm, nothing is lost by the eviction. -/
theorem secures {s' : Store} (h : WritesVictim s fails f s'.disk)
    (hself : s.pool.pageTable.lookup (s.pool.pages f).pageId = some f)
    (hlook : ∀ {q g}, s'.pool.pageTable.lookup q = some g ↔
      q ≠ (s.pool.pages f).pageId ∧ s.pool.pageTable.lookup q = some g)
    (hpages : s'.pool.pages = s.pool.pages)
    (hharm : (s.pool.pages f).isDirty = true → fails (s.pool.pages f).pageId = true →
      s.disk.readPage (s.pool.pages f).pageId = (s.pool.pages f).data) : Secures s s' where
  dirty hq hd := by
    rw [hpages] at hd ⊢
    exact ⟨(hlook.mp hq).2, hd, rfl⟩
  read q := by
    by_cases hq : q = (s.pool.pages f).pageId
    · subst hq
      obtain ⟨hclean, hd⟩ | ⟨hd, hw⟩ := h
      · refine Or.inl ⟨by rw [hd], fun g hg hdg ↦ ?_⟩
        rw [Option.some.inj (hg.symm.trans hself), hclean] at hdg
        cases hdg
      · refine Or.inr ⟨f, hself, hd, ?_⟩
        rw [(tryWritePageAsync_completing hw).2.2]
        split
        · rename_i hfails
          exact hharm hd hfails
        · rfl
    · refine Or.inl ⟨h.read_of_ne hq, fun g hg hdg ↦ ?_⟩
      rw [hpages]
      exact ⟨hlook.mpr ⟨hq, hg⟩, hdg⟩

end WritesVictim

/-- The search for a frame, where no write throws: there is none, or a free one, or that of a
victim, which is passed to `WritePageAsync` if it is dirty. -/
theorem acquire_completing {s s' : Store} {fails : PageId → Bool}
    {r : Except DiskError (Option ℕ)} (h : Mapped s.pool none)
    (ha : s.tryAcquireFrame (completing fails) = (r, s')) :
    (s.pool.takeFrame = none ∧ r = .ok none ∧ s' = s) ∨
      ∃ f, r = .ok (some f) ∧ Mapped s'.pool (some f) ∧
        s'.disk.nextPageId = s.disk.nextPageId ∧ s'.pool.pages = s.pool.pages ∧
        ((s'.disk = s.disk ∧ s'.pool.pageTable = s.pool.pageTable ∧
            ∀ g pool, s.pool.takeFrame ≠ some (g, true, pool)) ∨
          (∃ pool, s.pool.takeFrame = some (f, true, pool)) ∧
            s.pool.pageTable.lookup (s.pool.pages f).pageId = some f ∧
            (∀ {q g}, s'.pool.pageTable.lookup q = some g ↔
              q ≠ (s.pool.pages f).pageId ∧ s.pool.pageTable.lookup q = some g) ∧
            WritesVictim s fails f s'.disk) := by
  obtain ⟨hnone, rfl, rfl⟩ | ⟨f, rest, hf, rfl, rfl⟩ | ⟨hf, f, rest, hl, hrest⟩ :=
    Store.tryAcquireFrame_cases ha
  · exact Or.inl ⟨hnone, rfl, rfl⟩
  · refine Or.inr ⟨f, rfl, h.takeFree hf, rfl, rfl, Or.inl ⟨rfl, rfl, fun g pool ht ↦ ?_⟩⟩
    obtain ⟨hv, -⟩ | ⟨-, hnil, -⟩ := takeFrame_eq_some.mp ht
    · cases hv
    · rw [hf] at hnil
      cases hnil
  · have htake : s.pool.takeFrame = some (f, true, { s.pool with lruReplacer := rest }) :=
      takeFrame_eq_some.mpr (Or.inr ⟨rfl, hf, rest, hl, rfl⟩)
    obtain ⟨hmapped, hself⟩ := h.takeVictim hf hl
    obtain ⟨-, hfull, -⟩ | ⟨rfl, disk, rfl, hdisk⟩ := hrest
    · exact absurd hfull (completing_ne_queueFull fails _)
    · have hwrite : WritesVictim s fails f disk := hdisk
      exact Or.inr ⟨f, rfl, hmapped, hwrite.nextPageId_eq, rfl,
        Or.inr ⟨⟨_, htake⟩, hself, lookup_unmapVictim, hwrite⟩⟩

/-- A page that was not resident comes into the frame that was found. -/
structure Loads (s : Store) (fails : PageId → Bool) (s' : Store) : Prop where
  mapped : Mapped s'.pool none
  /-- If the write of a dirty victim does not fail, or does no harm, nothing is lost. -/
  secures : (∀ f pool, s.pool.takeFrame = some (f, true, pool) → (s.pool.pages f).isDirty = true →
      fails (s.pool.pages f).pageId = true →
      s.disk.readPage (s.pool.pages f).pageId = (s.pool.pages f).data) → Secures s s'
  /-- The victim is not resident any more, and the file has it only if the write did not fail. -/
  evicted : ∀ f pool, s.pool.takeFrame = some (f, true, pool) →
    s'.pool.pageTable.lookup (s.pool.pages f).pageId = none ∧
      (fails (s.pool.pages f).pageId = true →
        s'.disk.readPage (s.pool.pages f).pageId = s.disk.readPage (s.pool.pages f).pageId)

theorem loads {s s₁ : Store} {fails : PageId → Bool} {f : ℕ} {p : PageId} {data : PageData}
    {disk : DiskManager} (h : Mapped s.pool none) (hp : s.pool.pageTable.lookup p = none)
    (ha : s.tryAcquireFrame (completing fails) = (.ok (some f), s₁))
    (hdisk : ∀ q, disk.readPage q = s₁.disk.readPage q) :
    Loads s fails { pool := s₁.pool.install f p data, disk } := by
  obtain ⟨-, hr, -⟩ |
    ⟨f', hf', hmapped, -, hpages, hfree | ⟨⟨pool, htake⟩, hself, hlook, hwrite⟩⟩ :=
    acquire_completing h ha
  · cases hr
  · cases hf'
    obtain ⟨hd, htable, hnone⟩ := hfree
    have hp₁ : s₁.pool.pageTable.lookup p = none := htable ▸ hp
    have hsecures : Secures s s₁ :=
      { dirty := fun hq hd' ↦ by
          rw [htable] at hq
          rw [hpages] at hd' ⊢
          exact ⟨hq, hd', rfl⟩
        read := fun q ↦
          Or.inl ⟨by rw [hd], fun g hq hd' ↦ by rw [htable, hpages]; exact ⟨hq, hd'⟩⟩ }
    exact
      { mapped := hmapped.install hp₁ data
        secures := fun _ ↦ hsecures.trans (Secures.install hmapped.1 hp₁ data hdisk)
        evicted := fun g pool ht ↦ absurd ht (hnone g pool) }
  · cases hf'
    have hp₁ : s₁.pool.pageTable.lookup p = none := by
      rw [Option.eq_none_iff_forall_ne_some]
      intro g hg
      rw [(hlook.mp hg).2] at hp
      cases hp
    have hne : (s.pool.pages f).pageId ≠ p := by
      rintro rfl
      rw [hp] at hself
      cases hself
    exact
      { mapped := hmapped.install hp₁ data
        secures := fun hharm ↦ (hwrite.secures hself hlook hpages (hharm f pool htake)).trans
          (Secures.install hmapped.1 hp₁ data hdisk)
        evicted := by
          intro g pool' ht
          rw [htake] at ht
          cases ht
          refine ⟨?_, fun hfails ↦ (hdisk _).trans (hwrite.read_of_fails hfails)⟩
          rw [Option.eq_none_iff_forall_ne_some]
          intro g hg
          rcases lookup_install.mp hg with ⟨hq, -⟩ | ⟨-, hold⟩
          · exact hne hq
          · exact (hlook.mp hold).1 rfl }

/-- Whatever write of a page in these frames fails does no harm. -/
def Redundant (s : Store) (fails : PageId → Bool) (frames : List ℕ) : Prop :=
  ∀ p, ∀ f ∈ frames, s.pool.pageTable.lookup p = some f → (s.pool.pages f).isDirty = true →
    fails p = true → s.disk.readPage p = (s.pool.pages f).data

/-- The pages in these frames are flushed. -/
structure Flushes (s : Store) (fails : PageId → Bool) (frames : List ℕ) (s' : Store) : Prop where
  mapped : Mapped s'.pool none
  pageTable_eq : s'.pool.pageTable = s.pool.pageTable
  secures : Redundant s fails frames → Secures s s'
  clean : ∀ f ∈ frames, (s'.pool.pages f).isDirty = false
  clean_of_clean : ∀ f, (s.pool.pages f).isDirty = false → (s'.pool.pages f).isDirty = false
  /-- Where a write fails, the file is as it was. -/
  read_eq : ∀ p, fails p = true → s'.disk.readPage p = s.disk.readPage p

theorem Flushes.refl {s : Store} (h : Mapped s.pool none) (fails : PageId → Bool) :
    Flushes s fails [] s where
  mapped := h
  pageTable_eq := rfl
  secures _ := Secures.refl s
  clean _ hf := absurd hf List.not_mem_nil
  clean_of_clean _ hf := hf
  read_eq _ _ := rfl

theorem Flushes.trans {s t u : Store} {fails : PageId → Bool} {f : ℕ} {frames : List ℕ}
    (h₁ : Flushes s fails [f] t) (h₂ : Flushes t fails frames u) :
    Flushes s fails (f :: frames) u where
  mapped := h₂.mapped
  pageTable_eq := h₂.pageTable_eq.trans h₁.pageTable_eq
  secures := by
    intro hred
    have hst := h₁.secures fun p g hg ↦ hred p g (by simp_all)
    refine hst.trans (h₂.secures fun p g hg hp hd hfails ↦ ?_)
    obtain ⟨hp₀, hd₀, hdata⟩ := hst.dirty hp hd
    rw [h₁.read_eq p hfails, hdata]
    exact hred p g (List.mem_cons_of_mem _ hg) hp₀ hd₀ hfails
  clean := by
    intro g hg
    rcases List.mem_cons.mp hg with rfl | hg
    · exact h₂.clean_of_clean g (h₁.clean g List.mem_cons_self)
    · exact h₂.clean g hg
  clean_of_clean f hf := h₂.clean_of_clean f (h₁.clean_of_clean f hf)
  read_eq p hp := (h₂.read_eq p hp).trans (h₁.read_eq p hp)

/-- One page is flushed. -/
theorem flushFrame_completing {s : Store} (fails : PageId → Bool) {p : PageId} {f : ℕ}
    (h : Mapped s.pool none) (hp : s.pool.pageTable.lookup p = some f) :
    ∃ s', s.tryFlushFrame (completing fails) p f = (.ok (), s') ∧ Flushes s fails [f] s' := by
  rcases hc : s.tryFlushFrame (completing fails) p f with ⟨r, s'⟩
  obtain ⟨rfl, ⟨hclean, rfl⟩ | ⟨-, hfull⟩⟩ | ⟨hd, rfl, disk, hw, rfl⟩ :=
    Store.tryFlushFrame_cases hc
  · exact ⟨s', rfl,
      { Flushes.refl h fails with
        secures := fun _ ↦ Secures.refl s'
        clean := fun g hg ↦ by rw [List.mem_singleton.mp hg]; exact hclean }⟩
  · exact absurd hfull (completing_ne_queueFull fails p)
  · obtain ⟨-, hother, hself⟩ := tryWritePageAsync_completing hw
    have hdata : ∀ g,
        ((s.pool.setPage f ((s.pool.pages f).setDirty false)).pages g).data =
          (s.pool.pages g).data := by
      intro g
      by_cases hg : g = f
      · subst hg
        simp
      · rw [setPage_pages_of_ne _ _ _ hg]
    have hdirty : ∀ g,
        ((s.pool.setPage f ((s.pool.pages f).setDirty false)).pages g).isDirty = true ↔
          g ≠ f ∧ (s.pool.pages g).isDirty = true := by
      intro g
      by_cases hg : g = f
      · subst hg
        simp
      · simp [setPage_pages_of_ne _ _ _ hg, hg]
    refine ⟨_, rfl, h.setPage rfl rfl, rfl, fun hred ↦ ⟨fun {q g} hq hd' ↦ ?_, fun q ↦ ?_⟩,
      ?_, ?_, ?_⟩
    · exact ⟨hq, ((hdirty g).mp hd').2, hdata g⟩
    · by_cases hqp : q = p
      · subst hqp
        refine Or.inr ⟨f, hp, hd, ?_⟩
        rw [hself]
        split
        · rename_i hfails
          exact hred q f List.mem_cons_self hp hd hfails
        · rfl
      · refine Or.inl ⟨hother q hqp, fun g hq hd' ↦ ⟨hq, (hdirty g).mpr ⟨?_, hd'⟩⟩⟩
        rintro rfl
        exact hqp (h.1.injective hq hp)
    · intro g hg
      rw [List.mem_singleton.mp hg]
      simp
    · intro g hg
      refine Bool.eq_false_of_not_eq_true fun hd' ↦ ?_
      rw [((hdirty g).mp hd').2] at hg
      cases hg
    · intro q hfails
      by_cases hqp : q = p
      · subst hqp
        rw [hself, if_pos hfails]
      · exact hother q hqp

/-- All pages are flushed. -/
theorem flushAllPages_completing {s : Store} (fails : PageId → Bool) (h : Mapped s.pool none) :
    ∃ s', s.tryFlushAllPages (completing fails) = (.ok (), s') ∧
      Flushes s fails (s.pool.pageTable.entries.map Sigma.snd) s' := by
  have hloop : ∀ (l : List (Sigma fun _ : PageId ↦ ℕ)) (t : Store), Mapped t.pool none →
      (∀ e ∈ l, t.pool.pageTable.lookup e.1 = some e.2) →
      ∃ u, t.tryFlushEntries (completing fails) l = (.ok (), u) ∧
        Flushes t fails (l.map Sigma.snd) u := by
    intro l
    induction l with
    | nil => exact fun t ht _ ↦ ⟨t, rfl, Flushes.refl ht fails⟩
    | cons e l ih =>
      intro t ht hl
      obtain ⟨u, hu, hflush⟩ := flushFrame_completing fails ht (hl e List.mem_cons_self)
      obtain ⟨v, hv, hrest⟩ := ih u hflush.mapped fun e' he' ↦ by
        rw [hflush.pageTable_eq]
        exact hl e' (List.mem_cons_of_mem _ he')
      exact ⟨v, by rw [Store.tryFlushEntries, hu]; exact hv, hflush.trans hrest⟩
  exact hloop _ s h fun e he ↦ AList.mem_lookup_iff.mpr he

/-! ## One call -/

/-- The call changes what must not be lost. -/
def Marks (c : Store.Call) : Prop := (∃ p, c = .unpinPage p true) ∨ ∃ f data, c = .write f data

theorem record_of_not_marks {s : DirtyPages} {c : Store.Call} (h : ¬ Marks c) :
    s.record c = s.since := by
  cases c with
  | unpinPage p d =>
    cases d with
    | true => exact absurd (Or.inl ⟨p, rfl⟩) h
    | false => rfl
  | write f data => exact absurd (Or.inr ⟨f, data, rfl⟩) h
  | _ => rfl

theorem step_eq_some {s s' : DirtyPages} {fails : PageId → Bool} {c : Store.Call}
    {o : Option DiskError} :
    s.step (fails, c) = some (o, s') ↔
      s.store.tryStep (completing fails, c) = some (o, s'.store) ∧ s'.since = s.record c := by
  rw [step]
  cases s.store.tryStep (completing fails, c) with
  | none => simp
  | some r =>
    obtain ⟨o', t⟩ := r
    obtain ⟨store, since⟩ := s'
    simp only [Option.some.injEq, Prod.mk.injEq, DirtyPages.mk.injEq]
    exact ⟨fun ⟨h₁, h₂, h₃⟩ ↦ ⟨⟨h₁, h₂⟩, h₃.symm⟩, fun ⟨⟨h₁, h₂⟩, h₃⟩ ↦ ⟨h₁, h₂, h₃.symm⟩⟩

/-- `FetchPage` of a page that is not resident. -/
theorem fetchPage_completing {s s' : Store} {fails : PageId → Bool} {p : PageId}
    {r : Except DiskError (Option ℕ)} (h : Mapped s.pool none)
    (hp : s.pool.pageTable.lookup p = none)
    (hc : s.tryFetchPage (completing fails) p = (r, s')) :
    s.pool.takeFrame = none ∧ s' = s ∨ Loads s fails s' := by
  obtain ⟨f, hp', -⟩ | ⟨-, ⟨ha, hne⟩ | ⟨f, s₁, ha, ⟨-, hfails, -⟩ | ⟨-, rfl⟩⟩⟩ :=
    Store.tryFetchPage_cases hc
  · rw [hp] at hp'
    cases hp'
  · obtain ⟨hnone, -, rfl⟩ | ⟨f, rfl, -⟩ := acquire_completing h ha
    · exact Or.inl ⟨hnone, rfl⟩
    · exact absurd rfl (hne f)
  · exact absurd hfails Bool.false_ne_true
  · exact Or.inr (loads h hp ha fun _ ↦ rfl)

/-- `NewPage`, whose id is that of no resident page. -/
theorem newPage_completing {s s' : Store} {fails : PageId → Bool}
    {r : Except DiskError (Option (PageId × ℕ))} (h : Mapped s.pool none)
    (hfresh : s.pool.pageTable.lookup s.disk.nextPageId = none)
    (hc : s.tryNewPage (completing fails) = (r, s')) :
    s.pool.takeFrame = none ∧ s' = s ∨ Loads s fails s' := by
  obtain ⟨r', ha, hr⟩ | ⟨f, s₁, ha, -, rfl⟩ := Store.tryNewPage_cases hc
  · obtain ⟨hnone, -, rfl⟩ | ⟨f, rfl, -⟩ := acquire_completing h ha
    · exact Or.inl ⟨hnone, rfl⟩
    · obtain ⟨-, hr'⟩ | ⟨_, -, hr'⟩ := hr <;> cases hr'
  · obtain ⟨-, hr', -⟩ | ⟨-, -, -, hnext, -⟩ := acquire_completing h ha
    · cases hr'
    · rw [hnext]
      exact Or.inr (loads h hfresh ha fun _ ↦ rfl)

/-- `FlushPage`. -/
theorem flushPage_completing {s : Store} (fails : PageId → Bool) {p : PageId} {f : ℕ}
    (h : Mapped s.pool none) (hp : s.pool.pageTable.lookup p = some f) :
    ∃ s', s.tryFlushPage (completing fails) p = (.ok true, s') ∧ Flushes s fails [f] s' := by
  obtain ⟨s', hs', hflush⟩ := flushFrame_completing fails h hp
  exact ⟨s', by rw [Store.tryFlushPage, hp]; dsimp only; rw [hs'], hflush⟩

/-- What one call does to the lists and to the pages that were dirty. -/
theorem step_spec {s s' : DirtyPages} {e : (PageId → Bool) × Store.Call} {o : Option DiskError}
    (h : Mapped s.store.pool none) (hfresh : s.Fresh e) (hs : s.step e = some (o, s')) :
    Mapped s'.store.pool none ∧ (¬ Marks e.2 → s'.since = s.since ∧
      (s.Harmless e → Secures s.store s'.store)) := by
  obtain ⟨fails, c⟩ := e
  obtain ⟨t, since⟩ := s'
  obtain ⟨hstep, hsince⟩ := step_eq_some.mp hs
  suffices hspec : Mapped t.pool none ∧
      (¬ Marks c → s.Harmless (fails, c) → Secures s.store t) from
    ⟨hspec.1, fun hc ↦ ⟨hsince.trans (record_of_not_marks hc), hspec.2 hc⟩⟩
  dsimp only at hstep
  cases c with
  | fetchPage p =>
    rcases hc : s.store.tryFetchPage (completing fails) p with ⟨r, u⟩
    simp only [Store.tryStep, hc, Option.some.injEq, Prod.mk.injEq] at hstep
    obtain ⟨-, rfl⟩ := hstep
    cases hp : s.store.pool.pageTable.lookup p with
    | some f =>
      rw [Store.tryFetchPage, hp] at hc
      cases hc
      exact ⟨h.pin, fun _ _ ↦ Secures.of_pool rfl fun g ↦
        ⟨s.store.pool.pin_isDirty f g, s.store.pool.pin_data f g⟩⟩
    | none =>
      obtain ⟨-, rfl⟩ | hload := fetchPage_completing h hp hc
      · exact ⟨h, fun _ _ ↦ Secures.refl _⟩
      · refine ⟨hload.mapped, fun _ hharm ↦ hload.secures fun f pool ht hd hfails ↦ ?_⟩
        exact hharm _ f ⟨h.victim ht, hd, hp, ⟨pool, ht⟩, rfl⟩ hfails
  | unpinPage p d =>
    rw [Store.tryStep] at hstep
    split at hstep
    · rename_i hpos
      cases hstep
      rw [Store.unpinPage]
      split
      · exact ⟨h, fun _ _ ↦ Secures.refl _⟩
      · rename_i f hp
        refine ⟨h.unpin hp (hpos f hp) d, fun hmarks _ ↦ ?_⟩
        cases d with
        | true => exact absurd (Or.inl ⟨p, rfl⟩) hmarks
        | false =>
          exact Secures.of_pool (by simp) fun g ↦
            ⟨by simp [unpin_isDirty], s.store.pool.unpin_data f false g⟩
    · cases hstep
  | flushPage p =>
    cases hp : s.store.pool.pageTable.lookup p with
    | none =>
      simp only [Store.tryStep, Store.tryFlushPage, hp, Option.some.injEq, Prod.mk.injEq] at hstep
      obtain ⟨-, rfl⟩ := hstep
      exact ⟨h, fun _ _ ↦ Secures.refl _⟩
    | some f =>
      obtain ⟨u, hu, hflush⟩ := flushPage_completing fails h hp
      simp only [Store.tryStep, hu, Option.some.injEq, Prod.mk.injEq] at hstep
      obtain ⟨-, rfl⟩ := hstep
      refine ⟨hflush.mapped, fun _ hharm ↦ hflush.secures fun q g hg hq hd hfails ↦ ?_⟩
      rw [List.mem_singleton] at hg
      subst hg
      exact hharm q g ⟨hq, hd, h.1.injective hq hp⟩ hfails
  | flushAllPages =>
    obtain ⟨u, hu, hflush⟩ := flushAllPages_completing fails h
    simp only [Store.tryStep, hu, Option.some.injEq, Prod.mk.injEq] at hstep
    obtain ⟨-, rfl⟩ := hstep
    exact ⟨hflush.mapped, fun _ hharm ↦ hflush.secures fun q g _ hq hd hfails ↦
      hharm q g ⟨hq, hd, trivial⟩ hfails⟩
  | newPage =>
    rcases hc : s.store.tryNewPage (completing fails) with ⟨r, u⟩
    simp only [Store.tryStep, hc, Option.some.injEq, Prod.mk.injEq] at hstep
    obtain ⟨-, rfl⟩ := hstep
    obtain ⟨-, rfl⟩ | hload := newPage_completing h (hfresh rfl) hc
    · exact ⟨h, fun _ _ ↦ Secures.refl _⟩
    · refine ⟨hload.mapped, fun _ hharm ↦ hload.secures fun f pool ht hd hfails ↦ ?_⟩
      exact hharm _ f ⟨h.victim ht, hd, ⟨pool, ht⟩, rfl⟩ hfails
  | write f data =>
    cases hstep
    exact ⟨h.setPage rfl rfl, fun hmarks ↦ absurd (Or.inr ⟨f, data, rfl⟩) hmarks⟩

end DirtyPages

end StingDB
