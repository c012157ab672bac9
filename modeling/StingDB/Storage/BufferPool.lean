import Mathlib.Data.List.AList
import Mathlib.Logic.Function.Basic
import StingDB.Storage.Page

/-!
# The buffer pool

`storage/disk/disk_manager.{h,cpp}` and `storage/buffer_pool/buffer_pool_manager.{h,cpp}`: a file
of pages, and a pool of frames that caches them.

`FetchPage` and `NewPage` are the same but for where the page comes from.  What they share is a
definition of its own here: finding a frame (`takeFrame`), which is the front of `free_list_` or
else the back of `lru_replacer_`; forgetting the page that was in it (`unmapVictim`); and putting
another page in it (`install`).  These are functions of the pool alone.  What the pool does to the
file meanwhile is in the second half, for a file that takes each write at once: this is the pool
as its clients see it if no asynchronous write is still in flight when the next call comes.

A `Page*` is the frame it points to.  Frame ids are `int32_t` and taken as natural numbers;
`lru_replacer_` and `free_list_` are lists of them, front first.
-/

set_option autoImplicit false

namespace StingDB

/-! ## The disk manager -/

/-- `DiskManager`, and the file behind it. -/
structure DiskManager where
  /-- The file by pages, `none` where nothing has been written. -/
  file : PageId → Option PageData := fun _ ↦ none
  /-- `next_page_id_` -/
  nextPageId : PageId := 0
  /-- Not in the source, and read by none of its functions: the writes issued so far. -/
  issued : List (PageId × PageData) := []

namespace DiskManager

/-- `ReadPage`: what is not in the file reads as zeros. -/
def readPage (d : DiskManager) (pageId : PageId) : PageData := (d.file pageId).getD Block.zero

/-- `WritePageAsync`, of a write that takes effect at once. -/
def writePageAsync (d : DiskManager) (pageId : PageId) (pageData : PageData) : DiskManager :=
  { d with
    file := Function.update d.file pageId (some pageData)
    issued := d.issued ++ [(pageId, pageData)] }

/-- `AllocatePage`. -/
def allocatePage (d : DiskManager) : PageId × DiskManager :=
  (d.nextPageId, { d with nextPageId := d.nextPageId + 1 })

variable (d : DiskManager) (p : PageId) (data : PageData)

@[simp] theorem writePageAsync_nextPageId : (d.writePageAsync p data).nextPageId = d.nextPageId :=
  rfl

theorem readPage_writePageAsync_self : (d.writePageAsync p data).readPage p = data := by
  simp [readPage, writePageAsync]

theorem readPage_writePageAsync_of_ne {p q : PageId} (h : q ≠ p) :
    (d.writePageAsync p data).readPage q = d.readPage q := by
  simp [readPage, writePageAsync, h]

end DiskManager

/-! ## The pool -/

/-- `page_table_` -/
abbrev PageTable := AList fun _ : PageId ↦ ℕ

/-- `BufferPoolManager`. -/
structure BufferPoolManager where
  /-- `pool_size_` -/
  poolSize : ℕ
  /-- `pages_` -/
  pages : ℕ → Page := fun _ ↦ {}
  /-- `page_table_` -/
  pageTable : PageTable := ∅
  /-- `lru_replacer_` -/
  lruReplacer : List ℕ := []
  /-- `free_list_` -/
  freeList : List ℕ

namespace BufferPoolManager

/-- The constructor. -/
def create (poolSize : ℕ) : BufferPoolManager := { poolSize, freeList := List.range poolSize }

/-- An assignment to `pages_[frame_id]`. -/
def setPage (b : BufferPoolManager) (frameId : ℕ) (page : Page) : BufferPoolManager :=
  { b with pages := Function.update b.pages frameId page }

/-- One more pin on a frame, which is no candidate for eviction then. -/
def pin (b : BufferPoolManager) (frameId : ℕ) : BufferPoolManager :=
  let page := b.pages frameId
  let b := b.setPage frameId { page with pinCount := i32 (page.pinCount + 1) }
  { b with lruReplacer := b.lruReplacer.filter (· ≠ frameId) }

/-- One pin less, and a candidate for eviction if that was the last. -/
def unpin (b : BufferPoolManager) (frameId : ℕ) (isDirty : Bool) : BufferPoolManager :=
  let page := b.pages frameId
  let page := if isDirty then page.setDirty true else page
  let previousPinCount := page.pinCount
  let b := b.setPage frameId { page with pinCount := i32 (previousPinCount - 1) }
  if previousPinCount = 1 then { b with lruReplacer := frameId :: b.lruReplacer } else b

/-- A frame for a page to come, and whether a page has to make room for it there. -/
def takeFrame (b : BufferPoolManager) : Option (ℕ × Bool × BufferPoolManager) :=
  match b.freeList with
  | frameId :: rest => some (frameId, false, { b with freeList := rest })
  | [] =>
    match b.lruReplacer.getLast? with
    | some frameId => some (frameId, true, { b with lruReplacer := b.lruReplacer.dropLast })
    | none => none

/-- `page_table_.erase(victim_page->GetPageId())` -/
def unmapVictim (b : BufferPoolManager) (frameId : ℕ) : BufferPoolManager :=
  { b with pageTable := b.pageTable.erase (b.pages frameId).pageId }

/-- A page in a frame, with its metadata and one pin. -/
def install (b : BufferPoolManager) (frameId : ℕ) (pageId : PageId) (data : PageData) :
    BufferPoolManager :=
  let b := b.setPage frameId { data, pageId, pinCount := 1, isDirty := false }
  { b with pageTable := b.pageTable.insert pageId frameId }

section

variable (b : BufferPoolManager) (f : ℕ) (page : Page) (d : Bool)

@[simp] theorem setPage_pageTable : (b.setPage f page).pageTable = b.pageTable := rfl

@[simp] theorem setPage_pages_self : (b.setPage f page).pages f = page :=
  Function.update_self ..

theorem setPage_pages_of_ne {g : ℕ} (h : g ≠ f) : (b.setPage f page).pages g = b.pages g :=
  Function.update_of_ne h ..

@[simp] theorem pin_pageTable : (b.pin f).pageTable = b.pageTable := rfl

/-- Taking a pin changes no byte of any page. -/
theorem pin_data (g : ℕ) : ((b.pin f).pages g).data = (b.pages g).data := by
  by_cases hg : g = f
  · subst hg
    simp [pin, setPage]
  · simp [pin, setPage, hg]

theorem pin_isDirty (g : ℕ) : ((b.pin f).pages g).isDirty = (b.pages g).isDirty := by
  by_cases hg : g = f
  · subst hg
    simp [pin, setPage]
  · simp [pin, setPage, hg]

@[simp] theorem unpin_pageTable : (b.unpin f d).pageTable = b.pageTable := by
  rw [unpin]
  split_ifs <;> rfl

@[simp] theorem unpin_freeList : (b.unpin f d).freeList = b.freeList := by
  rw [unpin]
  split_ifs <;> rfl

/-- Releasing a pin changes no byte of any page. -/
theorem unpin_data (g : ℕ) : ((b.unpin f d).pages g).data = (b.pages g).data := by
  by_cases hg : g = f
  · subst hg
    rw [unpin]
    split_ifs <;> simp [setPage]
  · rw [unpin]
    split_ifs <;> simp [setPage, hg]

theorem pin_pages_of_ne {g : ℕ} (h : g ≠ f) : (b.pin f).pages g = b.pages g :=
  setPage_pages_of_ne _ _ _ h

theorem pin_pinCount_self : ((b.pin f).pages f).pinCount = i32 ((b.pages f).pinCount + 1) :=
  congrArg Page.pinCount (setPage_pages_self ..)

theorem unpin_pinCount_self :
    ((b.unpin f d).pages f).pinCount = i32 ((b.pages f).pinCount - 1) := by
  rw [unpin]
  split_ifs <;> simp [setPage]

theorem unpin_pages_of_ne {g : ℕ} (h : g ≠ f) : (b.unpin f d).pages g = b.pages g := by
  rw [unpin]
  split_ifs <;> exact setPage_pages_of_ne _ _ _ h

@[simp] theorem unpin_pageId (g : ℕ) : ((b.unpin f d).pages g).pageId = (b.pages g).pageId := by
  by_cases hg : g = f
  · subst hg
    rw [unpin]
    split_ifs <;> simp [setPage]
  · rw [unpin]
    split_ifs <;> simp [setPage, hg]

theorem mem_lruReplacer_unpin {g : ℕ} (h : g ∈ (b.unpin f d).lruReplacer) :
    g = f ∨ g ∈ b.lruReplacer := by
  rw [unpin] at h
  split_ifs at h
  · exact List.mem_cons.mp h
  · exact Or.inr h
  · exact List.mem_cons.mp h
  · exact Or.inr h

/-- A released page is dirty if it was before or is said to be now. -/
theorem unpin_isDirty (g : ℕ) :
    ((b.unpin f d).pages g).isDirty = ((b.pages g).isDirty || (d && decide (g = f))) := by
  by_cases hg : g = f
  · subst hg
    rw [unpin]
    split_ifs <;> simp_all [setPage]
  · rw [unpin]
    split_ifs <;> simp [setPage, hg]

end

/-- The ways to find a frame. -/
theorem takeFrame_eq_some {b b' : BufferPoolManager} {frameId : ℕ} {victim : Bool} :
    b.takeFrame = some (frameId, victim, b') ↔
      (victim = false ∧ ∃ rest, b.freeList = frameId :: rest ∧ b' = { b with freeList := rest }) ∨
        (victim = true ∧ b.freeList = [] ∧
          ∃ rest, b.lruReplacer = rest ++ [frameId] ∧ b' = { b with lruReplacer := rest }) := by
  rw [takeFrame]
  cases hf : b.freeList with
  | cons f rest => simp; grind
  | nil =>
    cases hl : b.lruReplacer.getLast? with
    | none =>
      have hnil : b.lruReplacer = [] := List.getLast?_eq_none_iff.mp hl
      simp [hnil]
    | some f =>
      obtain ⟨rest, hrest⟩ := List.getLast?_eq_some_iff.mp hl
      simp [hrest]
      grind

theorem takeFrame_eq_none {b : BufferPoolManager} :
    b.takeFrame = none ↔ b.freeList = [] ∧ b.lruReplacer = [] := by
  rw [takeFrame]
  cases hf : b.freeList with
  | cons f rest => simp
  | nil =>
    cases hl : b.lruReplacer.getLast? with
    | none => simpa using hl
    | some f =>
      obtain ⟨rest, hrest⟩ := List.getLast?_eq_some_iff.mp hl
      simp [hrest]

/-- Where a page is once another one has been mapped to a frame. -/
theorem lookup_install {b : BufferPoolManager} {p q : PageId} {f g : ℕ} {data : PageData} :
    (b.install f p data).pageTable.lookup q = some g ↔
      q = p ∧ g = f ∨ q ≠ p ∧ b.pageTable.lookup q = some g := by
  show (b.pageTable.insert p f).lookup q = some g ↔ _
  by_cases hq : q = p
  · subst hq
    simp [AList.lookup_insert, eq_comm]
  · simp [AList.lookup_insert_ne hq, hq]

theorem install_pages_self (b : BufferPoolManager) (f : ℕ) (p : PageId) (data : PageData) :
    (b.install f p data).pages f = { data, pageId := p, pinCount := 1, isDirty := false } :=
  b.setPage_pages_self f _

theorem install_pages_of_ne (b : BufferPoolManager) {f g : ℕ} (p : PageId) (data : PageData)
    (h : g ≠ f) : (b.install f p data).pages g = b.pages g :=
  b.setPage_pages_of_ne f _ h

/-- Where a page is once the victim in a frame has been forgotten. -/
theorem lookup_unmapVictim {b : BufferPoolManager} {q : PageId} {f g : ℕ} :
    (b.unmapVictim f).pageTable.lookup q = some g ↔
      q ≠ (b.pages f).pageId ∧ b.pageTable.lookup q = some g := by
  show (b.pageTable.erase (b.pages f).pageId).lookup q = some g ↔ _
  by_cases hq : q = (b.pages f).pageId
  · subst hq
    simp [AList.lookup_erase]
  · simp [AList.lookup_erase_ne hq, hq]

/-- Where no frame is mapped twice, the table lists no frame twice. -/
theorem nodup_frames {t : PageTable}
    (h : ∀ {p q f}, t.lookup p = some f → t.lookup q = some f → p = q) :
    (t.entries.map Sigma.snd).Nodup := by
  refine (List.NodupKeys.nodup t.nodupKeys).map_on ?_
  rintro ⟨p, f⟩ hp ⟨q, g⟩ hq rfl
  rw [h (AList.mem_lookup_iff.mpr hp) (AList.mem_lookup_iff.mpr hq)]

end BufferPoolManager

/-! ## The pool and the file -/

/-- A buffer pool and its disk manager. -/
structure Store where
  /-- The pool. -/
  pool : BufferPoolManager
  /-- Its `disk_manager_`. -/
  disk : DiskManager := {}

namespace Store

/-- How `FetchPage` and `NewPage` find a frame: the victim, if there is one, is written back if it
is dirty, and forgotten.  `none` if every frame is pinned. -/
def acquireFrame (s : Store) : Option (ℕ × Store) :=
  match s.pool.takeFrame with
  | none => none
  | some (frameId, false, pool) => some (frameId, { s with pool })
  | some (frameId, true, pool) =>
    let victimPage := pool.pages frameId
    let disk :=
      if victimPage.isDirty then s.disk.writePageAsync victimPage.pageId victimPage.data
      else s.disk
    some (frameId, { pool := pool.unmapVictim frameId, disk })

/-- `FetchPage`: the frame of the page, or `none` for `nullptr`. -/
def fetchPage (s : Store) (pageId : PageId) : Option ℕ × Store :=
  match s.pool.pageTable.lookup pageId with
  | some frameId => (some frameId, { s with pool := s.pool.pin frameId })
  | none =>
    match s.acquireFrame with
    | none => (none, s)
    | some (frameId, s) =>
      (some frameId, { s with pool := s.pool.install frameId pageId (s.disk.readPage pageId) })

/-- `UnpinPage`. -/
def unpinPage (s : Store) (pageId : PageId) (isDirty : Bool) : Bool × Store :=
  match s.pool.pageTable.lookup pageId with
  | none => (false, s)
  | some frameId => (true, { s with pool := s.pool.unpin frameId isDirty })

/-- What `FlushPage` and `FlushAllPages` do to a resident page. -/
def flushFrame (s : Store) (pageId : PageId) (frameId : ℕ) : Store :=
  let page := s.pool.pages frameId
  if page.isDirty then
    { pool := s.pool.setPage frameId (page.setDirty false)
      disk := s.disk.writePageAsync pageId page.data }
  else s

/-- `FlushPage`. -/
def flushPage (s : Store) (pageId : PageId) : Bool × Store :=
  match s.pool.pageTable.lookup pageId with
  | none => (false, s)
  | some frameId => (true, s.flushFrame pageId frameId)

/-- `FlushAllPages`.  The order in which the pages come is not specified in the source. -/
def flushAllPages (s : Store) : Store :=
  s.pool.pageTable.entries.foldl (fun s e ↦ s.flushFrame e.1 e.2) s

/-- `NewPage`: the id and the frame of the page, or `none` for `nullptr`. -/
def newPage (s : Store) : Option (PageId × ℕ) × Store :=
  match s.acquireFrame with
  | none => (none, s)
  | some (frameId, s) =>
    let (newPageId, disk) := s.disk.allocatePage
    (some (newPageId, frameId), { pool := s.pool.install frameId newPageId Block.zero, disk })

/-- A client's writes to the frame it holds a pointer to. -/
def writeFrame (s : Store) (frameId : ℕ) (data : PageData) : Store :=
  { s with pool := s.pool.setPage frameId { s.pool.pages frameId with data } }

/-! ### What a call does -/

theorem acquireFrame_eq_some {s s' : Store} {frameId : ℕ}
    (h : s.acquireFrame = some (frameId, s')) :
    (∃ rest, s.pool.freeList = frameId :: rest ∧
        s' = { s with pool := { s.pool with freeList := rest } }) ∨
      (s.pool.freeList = [] ∧ ∃ rest, s.pool.lruReplacer = rest ++ [frameId] ∧
        s' = { pool := { s.pool with lruReplacer := rest }.unmapVictim frameId
               disk := if (s.pool.pages frameId).isDirty then s.disk.writePageAsync
                   (s.pool.pages frameId).pageId (s.pool.pages frameId).data
                 else s.disk }) := by
  rw [acquireFrame] at h
  split at h
  · exact absurd h (by simp)
  · rename_i hb
    cases h
    obtain ⟨-, rest, hrest, rfl⟩ | ⟨hf, -⟩ := BufferPoolManager.takeFrame_eq_some.mp hb
    · exact Or.inl ⟨rest, hrest, rfl⟩
    · exact absurd hf (by simp)
  · rename_i hb
    cases h
    obtain ⟨hf, -⟩ | ⟨-, hnil, rest, hrest, rfl⟩ := BufferPoolManager.takeFrame_eq_some.mp hb
    · exact absurd hf (by simp)
    · exact Or.inr ⟨hnil, rest, hrest, rfl⟩

/-- There is no frame to be had if none is free and none may be evicted. -/
theorem acquireFrame_eq_none {s : Store} :
    s.acquireFrame = none ↔ s.pool.freeList = [] ∧ s.pool.lruReplacer = [] := by
  rw [← BufferPoolManager.takeFrame_eq_none, acquireFrame]
  split <;> simp_all

theorem fetchPage_cases {s s' : Store} {pageId : PageId} {o : Option ℕ}
    (h : s.fetchPage pageId = (o, s')) :
    (∃ frameId, s.pool.pageTable.lookup pageId = some frameId ∧ o = some frameId ∧
        s' = { s with pool := s.pool.pin frameId }) ∨
      (s.pool.pageTable.lookup pageId = none ∧ s.acquireFrame = none ∧ o = none ∧ s' = s) ∨
      (s.pool.pageTable.lookup pageId = none ∧ ∃ frameId s₁,
        s.acquireFrame = some (frameId, s₁) ∧ o = some frameId ∧
        s' = { s₁ with pool := s₁.pool.install frameId pageId (s₁.disk.readPage pageId) }) := by
  rw [fetchPage] at h
  split at h
  · rename_i frameId hl
    cases h
    exact Or.inl ⟨frameId, hl, rfl, rfl⟩
  · rename_i hl
    split at h
    · rename_i ha
      cases h
      exact Or.inr (Or.inl ⟨hl, ha, rfl, rfl⟩)
    · rename_i frameId s₁ ha
      cases h
      exact Or.inr (Or.inr ⟨hl, frameId, s₁, ha, rfl, rfl⟩)

theorem newPage_cases {s s' : Store} {o : Option (PageId × ℕ)} (h : s.newPage = (o, s')) :
    (s.acquireFrame = none ∧ o = none ∧ s' = s) ∨
      ∃ frameId s₁, s.acquireFrame = some (frameId, s₁) ∧
        o = some (s₁.disk.nextPageId, frameId) ∧
        s' = { pool := s₁.pool.install frameId s₁.disk.nextPageId Block.zero
               disk := s₁.disk.allocatePage.2 } := by
  rw [newPage] at h
  split at h
  · rename_i ha
    cases h
    exact Or.inl ⟨ha, rfl, rfl⟩
  · rename_i frameId s₁ ha
    cases h
    exact Or.inr ⟨frameId, s₁, ha, rfl, rfl⟩

theorem fetchPage_of_resident {s : Store} {pageId : PageId} {frameId : ℕ}
    (hl : s.pool.pageTable.lookup pageId = some frameId) :
    s.fetchPage pageId = (some frameId, { s with pool := s.pool.pin frameId }) := by
  rw [fetchPage, hl]

/-- A page that has been fetched is resident. -/
theorem fetchPage_resident {s s' : Store} {p : PageId} {f : ℕ}
    (h : s.fetchPage p = (some f, s')) : s'.pool.pageTable.lookup p = some f := by
  obtain ⟨g, hl, ho, rfl⟩ | ⟨-, -, ho, -⟩ | ⟨-, g, s₁, -, ho, rfl⟩ := fetchPage_cases h
  · cases ho
    exact hl
  · cases ho
  · cases ho
    exact AList.lookup_insert _

/-- A new page is resident. -/
theorem newPage_resident {s s' : Store} {p : PageId} {f : ℕ} (h : s.newPage = (some (p, f), s')) :
    s'.pool.pageTable.lookup p = some f := by
  obtain ⟨-, ho, -⟩ | ⟨g, s₁, -, ho, rfl⟩ := newPage_cases h
  · exact absurd ho (by simp)
  · cases ho
    exact AList.lookup_insert _

/-- Its frame says which page it is. -/
theorem newPage_pageId {s s' : Store} {p : PageId} {f : ℕ} (h : s.newPage = (some (p, f), s')) :
    (s'.pool.pages f).pageId = p := by
  obtain ⟨-, ho, -⟩ | ⟨g, s₁, -, ho, rfl⟩ := newPage_cases h
  · exact absurd ho (by simp)
  · cases ho
    exact congrArg Page.pageId (BufferPoolManager.install_pages_self ..)

theorem unpinPage_of_resident {s : Store} {pageId : PageId} {frameId : ℕ}
    (hl : s.pool.pageTable.lookup pageId = some frameId) (isDirty : Bool) :
    (s.unpinPage pageId isDirty).2 = { s with pool := s.pool.unpin frameId isDirty } := by
  rw [unpinPage, hl]

theorem unpinPage_disk (s : Store) (pageId : PageId) (isDirty : Bool) :
    (s.unpinPage pageId isDirty).2.disk = s.disk := by
  rw [unpinPage]
  split <;> rfl

theorem unpinPage_data (s : Store) (pageId : PageId) (isDirty : Bool) (frameId : ℕ) :
    ((s.unpinPage pageId isDirty).2.pool.pages frameId).data = (s.pool.pages frameId).data := by
  rw [unpinPage]
  split
  · rfl
  · exact BufferPoolManager.unpin_data _ _ _ _

/-- Finding a frame leaves the id counter alone. -/
theorem acquireFrame_nextPageId {s s' : Store} {frameId : ℕ}
    (h : s.acquireFrame = some (frameId, s')) : s'.disk.nextPageId = s.disk.nextPageId := by
  obtain ⟨_, -, rfl⟩ | ⟨-, _, -, rfl⟩ := acquireFrame_eq_some h
  · rfl
  · dsimp only
    split <;> rfl

/-- Finding a frame maps no page to a frame it was not mapped to. -/
theorem acquireFrame_lookup {s s' : Store} {frameId : ℕ}
    (h : s.acquireFrame = some (frameId, s')) (p : PageId) :
    s'.pool.pageTable.lookup p = s.pool.pageTable.lookup p ∨
      s'.pool.pageTable.lookup p = none := by
  obtain ⟨_, -, rfl⟩ | ⟨-, _, -, rfl⟩ := acquireFrame_eq_some h
  · exact Or.inl rfl
  · by_cases hp : p = (s.pool.pages frameId).pageId
    · subst hp
      exact Or.inr (AList.lookup_erase _ _)
    · exact Or.inl (AList.lookup_erase_ne hp)

@[simp] theorem flushFrame_pageTable (s : Store) (p : PageId) (f : ℕ) :
    (s.flushFrame p f).pool.pageTable = s.pool.pageTable := by
  rw [flushFrame]
  split <;> rfl

@[simp] theorem flushFrame_nextPageId (s : Store) (p : PageId) (f : ℕ) :
    (s.flushFrame p f).disk.nextPageId = s.disk.nextPageId := by
  rw [flushFrame]
  split <;> rfl

/-- An invariant of `flushFrame` on resident pages is one of `FlushAllPages`. -/
theorem flushAllPages_induction {P : Store → Prop} {s : Store} (h₀ : P s)
    (hstep : ∀ s' p f, s'.pool.pageTable = s.pool.pageTable → P s' →
      s.pool.pageTable.lookup p = some f → P (s'.flushFrame p f)) : P s.flushAllPages := by
  suffices hall : ∀ l : List (Sigma fun _ : PageId ↦ ℕ), (∀ e ∈ l, e ∈ s.pool.pageTable.entries) →
      ∀ s', s'.pool.pageTable = s.pool.pageTable → P s' →
        P (l.foldl (fun s e ↦ s.flushFrame e.1 e.2) s') from
    hall _ (fun _ he ↦ he) s rfl h₀
  intro l
  induction l with
  | nil => exact fun _ s' _ hs' ↦ hs'
  | cons e l ih =>
    intro hmem s' hpt hs'
    have hl : s.pool.pageTable.lookup e.1 = some e.2 :=
      AList.mem_lookup_iff.mpr (hmem e List.mem_cons_self)
    exact ih (fun e' he' ↦ hmem e' (List.mem_cons_of_mem _ he')) _
      ((flushFrame_pageTable s' e.1 e.2).trans hpt) (hstep s' _ _ hpt hs' hl)

@[simp] theorem flushAllPages_pageTable (s : Store) :
    s.flushAllPages.pool.pageTable = s.pool.pageTable :=
  flushAllPages_induction (P := fun s' ↦ s'.pool.pageTable = s.pool.pageTable) rfl
    fun s' p f _ hs' _ ↦ (flushFrame_pageTable s' p f).trans hs'

@[simp] theorem flushAllPages_nextPageId (s : Store) :
    s.flushAllPages.disk.nextPageId = s.disk.nextPageId :=
  flushAllPages_induction (P := fun s' ↦ s'.disk.nextPageId = s.disk.nextPageId) rfl
    fun s' p f _ hs' _ ↦ (flushFrame_nextPageId s' p f).trans hs'

end Store

end StingDB
