import StingDB.Lib.ByteFile
import StingDB.Storage.BufferPool.Restarts

/-!
# The file, byte for byte

To the pool, and to everything above it, the file is a map from pages to their bytes
(`DiskManager`).  What there is on the disk is one sequence of bytes, from which `ReadPage` reads 8
KB at an offset, fewer at the end and then zeros, and which the writes of `WritePageAsync` make
longer, with a gap before them perhaps.  `DiskFile` is `storage/disk/disk_manager.cpp` over such a
file, of any length to begin with.

`FileLives` are the clients of `PoolLives`, over the bytes of a file and nothing else: at each event
the pool sees the pages as they are in the file, and what it writes goes there.  `lives_of_run` has
their runs be those of `PoolLives`, so that what holds of these holds over a file of bytes.
-/

set_option autoImplicit false

namespace StingDB

open Machine

/-! ## Pages in a file -/

namespace DiskFile

/-- `offset`, which is far below `2 ^ 63`. -/
def offset (pageId : PageId) : ℕ := pageId.toNat * pageSize

/-- `ReadPage` into the buffer `pageData`, when `pread` does not fail. -/
def readPage (file : ByteFile) (pageId : PageId) (pageData : PageData) : PageData :=
  let bytesRead := file.pread pageSize (offset pageId)
  let pageData := pageData.write ⟨0, bytesRead⟩
  if bytesRead.length < pageSize then
    pageData.write ⟨bytesRead.length, List.replicate (pageSize - bytesRead.length) 0⟩
  else pageData

/-- The write that `WritePageAsync` submits, when it is performed. -/
def writePageAsync (file : ByteFile) (pageId : PageId) (pageData : PageData) : ByteFile :=
  file.pwrite (List.ofFn pageData) (offset pageId)

/-- Such writes, one after another. -/
def writeAll (file : ByteFile) (ws : List (PageId × PageData)) : ByteFile :=
  ws.foldl (fun file w ↦ writePageAsync file w.1 w.2) file

/-- The bytes of a page, as they are in the file. -/
def page (file : ByteFile) (pageId : PageId) : PageData := fun i ↦ file.byte (offset pageId + i)

variable {file : ByteFile} {p q : PageId} {data : PageData} {i : ℕ}

/-- **What `ReadPage` reads**, whatever was in the buffer. -/
theorem readPage_eq (file : ByteFile) (p : PageId) (buffer : PageData) :
    readPage file p buffer = page file p := by
  have hlen : (file.pread pageSize (offset p)).length = min pageSize (file.length - offset p) :=
    ByteFile.length_pread
  funext ⟨i, hi⟩
  have hget : (file.pread pageSize (offset p)).getD i 0 = file.byte (offset p + i) :=
    ByteFile.getD_pread hi
  rw [readPage, page, ← hget]
  rcases Nat.lt_or_ge i (file.pread pageSize (offset p)).length with hlt | hge
  · -- a byte of the file
    have hread : buffer.write ⟨0, file.pread pageSize (offset p)⟩ ⟨i, hi⟩ =
        (file.pread pageSize (offset p)).getD i 0 := by
      simp [Block.write, List.getD_eq_getElem?_getD, hlt]
    split_ifs
    · rw [← hread, Block.write, if_neg (by simpa using hlt)]
    · exact hread
  · -- beyond its end
    rw [if_pos (hge.trans_lt hi), Block.write, if_pos hge, List.getD_eq_getElem?_getD,
      List.getElem?_replicate, if_pos (Nat.sub_lt_sub_right hge hi), Option.getD_some,
      List.getD_eq_getElem?_getD, List.getElem?_eq_none hge, Option.getD_none]

/-- The pages are apart. -/
theorem offset_add_inj (hi : i < pageSize) {j : ℕ} (hj : j < pageSize)
    (h : offset p + i = offset q + j) : p = q := by
  rw [offset, offset] at h
  refine UInt32.toNat_inj.mp ?_
  have hdiv := congrArg (· / pageSize) h
  simp only [Nat.mul_comm _ pageSize, Nat.mul_add_div (by decide : 0 < pageSize),
    Nat.div_eq_of_lt hi, Nat.div_eq_of_lt hj] at hdiv
  exact hdiv

theorem byte_writePageAsync : (writePageAsync file p data).byte i =
    if offset p ≤ i ∧ i < offset p + pageSize then (List.ofFn data).getD (i - offset p) 0
    else file.byte i := by
  rw [writePageAsync, ByteFile.byte_pwrite, List.length_ofFn]

theorem page_writePageAsync_self : page (writePageAsync file p data) p = data := by
  funext ⟨i, hi⟩
  rw [page, byte_writePageAsync, if_pos ⟨Nat.le_add_right .., Nat.add_lt_add_left hi _⟩,
    Nat.add_sub_cancel_left, List.getD_eq_getElem?_getD, List.getElem?_ofFn, dif_pos hi]
  rfl

theorem page_writePageAsync_of_ne (h : q ≠ p) :
    page (writePageAsync file p data) q = page file q := by
  funext ⟨i, hi⟩
  rw [page, byte_writePageAsync, if_neg, page]
  rintro ⟨hle, hlt⟩
  obtain ⟨j, hj⟩ := Nat.exists_eq_add_of_le hle
  exact h (offset_add_inj hi (by omega) hj)

end DiskFile

/-! ## Two pools over one file -/

/-- Both see the pages as they are in `file` after the writes of the first. -/
structure DiskManager.Shares (file : ByteFile) (d d' : DiskManager) : Prop where
  nextPageId : d'.nextPageId = d.nextPageId
  left : ∀ p, d.readPage p = DiskFile.page (DiskFile.writeAll file d.issued) p
  right : ∀ p, d'.readPage p = DiskFile.page (DiskFile.writeAll file d.issued) p

namespace DiskManager

variable {file : ByteFile} {d d' : DiskManager}

theorem Shares.readPage (h : Shares file d d') (p : PageId) : d'.readPage p = d.readPage p :=
  (h.right p).trans (h.left p).symm

theorem Shares.writePageAsync (h : Shares file d d') (p : PageId) (data : PageData) :
    Shares file (d.writePageAsync p data) (d'.writePageAsync p data) := by
  have hfile : DiskFile.writeAll file (d.writePageAsync p data).issued =
      DiskFile.writePageAsync (DiskFile.writeAll file d.issued) p data := by
    rw [DiskFile.writeAll, DiskManager.writePageAsync, List.foldl_append]
    rfl
  have hread : ∀ d'' : DiskManager,
      (∀ q, d''.readPage q = DiskFile.page (DiskFile.writeAll file d.issued) q) → ∀ q,
        (d''.writePageAsync p data).readPage q =
          DiskFile.page (DiskFile.writeAll file (d.writePageAsync p data).issued) q := by
    intro d'' h'' q
    rw [hfile]
    by_cases hq : q = p
    · rw [hq, readPage_writePageAsync_self, DiskFile.page_writePageAsync_self]
    · rw [readPage_writePageAsync_of_ne _ _ hq, DiskFile.page_writePageAsync_of_ne hq, h'']
  exact ⟨h.nextPageId, hread d h.left, hread d' h.right⟩

theorem Shares.allocatePage (h : Shares file d d') :
    d'.allocatePage.1 = d.allocatePage.1 ∧ Shares file d.allocatePage.2 d'.allocatePage.2 :=
  ⟨h.nextPageId, congrArg (· + 1) h.nextPageId, h.left, h.right⟩

end DiskManager

/-- The pools are the same too. -/
structure Store.Shares (file : ByteFile) (s t : Store) : Prop where
  pool : t.pool = s.pool
  disk : s.disk.Shares file t.disk

namespace Store.Shares

variable {file : ByteFile} {s t : Store}

theorem setPool (h : Shares file s t) (pool : BufferPoolManager) :
    Shares file { s with pool } { t with pool } := ⟨rfl, h.disk⟩

theorem acquireFrame (h : Shares file s t) :
    s.acquireFrame = none ∧ t.acquireFrame = none ∨ ∃ f s₁ t₁,
      s.acquireFrame = some (f, s₁) ∧ t.acquireFrame = some (f, t₁) ∧ Shares file s₁ t₁ := by
  have hdisk := h.disk
  simp only [Store.acquireFrame, h.pool]
  rcases s.pool.takeFrame with _ | ⟨f, _ | _, pool⟩
  · exact Or.inl ⟨rfl, rfl⟩
  · exact Or.inr ⟨f, _, _, rfl, rfl, rfl, hdisk⟩
  · refine Or.inr ⟨f, _, _, rfl, rfl, rfl, ?_⟩
    split_ifs
    · exact hdisk.writePageAsync _ _
    · exact hdisk

theorem fetchPage (h : Shares file s t) (p : PageId) :
    (t.fetchPage p).1 = (s.fetchPage p).1 ∧ Shares file (s.fetchPage p).2 (t.fetchPage p).2 := by
  rw [Store.fetchPage, Store.fetchPage, h.pool]
  cases s.pool.pageTable.lookup p with
  | some f => exact ⟨rfl, h.setPool _⟩
  | none =>
    obtain ⟨hs, ht⟩ | ⟨f, s₁, t₁, hs, ht, h₁⟩ := h.acquireFrame
    · rw [hs, ht]
      exact ⟨rfl, h⟩
    · rw [hs, ht]
      dsimp only
      rw [h₁.pool, h₁.disk.readPage]
      exact ⟨rfl, h₁.setPool _⟩

theorem newPage (h : Shares file s t) :
    t.newPage.1 = s.newPage.1 ∧ Shares file s.newPage.2 t.newPage.2 := by
  rw [Store.newPage, Store.newPage]
  obtain ⟨hs, ht⟩ | ⟨f, s₁, t₁, hs, ht, h₁⟩ := h.acquireFrame
  · rw [hs, ht]
    exact ⟨rfl, h⟩
  · obtain ⟨hid, hdisk⟩ := h₁.disk.allocatePage
    rw [hs, ht]
    dsimp only
    rw [h₁.pool, hid]
    exact ⟨rfl, rfl, hdisk⟩

theorem unpinPage (h : Shares file s t) (p : PageId) (isDirty : Bool) :
    Shares file (s.unpinPage p isDirty).2 (t.unpinPage p isDirty).2 := by
  rw [Store.unpinPage, Store.unpinPage, h.pool]
  cases s.pool.pageTable.lookup p with
  | none => exact h
  | some f => exact h.setPool _

theorem flushFrame (h : Shares file s t) (p : PageId) (f : ℕ) :
    Shares file (s.flushFrame p f) (t.flushFrame p f) := by
  simp only [Store.flushFrame, h.pool]
  split_ifs
  · exact ⟨rfl, h.disk.writePageAsync _ _⟩
  · exact h

theorem flushPage (h : Shares file s t) (p : PageId) :
    Shares file (s.flushPage p).2 (t.flushPage p).2 := by
  rw [Store.flushPage, Store.flushPage, h.pool]
  cases s.pool.pageTable.lookup p with
  | none => exact h
  | some f => exact h.flushFrame p f

theorem flushAllPages (h : Shares file s t) : Shares file s.flushAllPages t.flushAllPages := by
  rw [Store.flushAllPages, Store.flushAllPages, h.pool]
  generalize s.pool.pageTable.entries = l
  induction l generalizing s t with
  | nil => exact h
  | cons e l ih => exact ih (h.flushFrame e.1 e.2)

theorem writeFrame (h : Shares file s t) (f : ℕ) (data : PageData) :
    Shares file (s.writeFrame f data) (t.writeFrame f data) := by
  rw [Store.writeFrame, Store.writeFrame, h.pool]
  exact h.setPool _

end Store.Shares

/-! ## Clients over a file of bytes -/

/-- The clients of `PoolLives`, over a file of bytes. -/
structure FileLives where
  pool : BufferPoolManager
  /-- `next_page_id_` -/
  nextPageId : PageId := 0
  /-- The bytes of the file. -/
  file : ByteFile
  /-- The pins that have been taken and not released. -/
  pins : List Pin := []
  /-- For each page the last bytes that a client has written to it.  Nothing reads this. -/
  memory : PageId → PageData

namespace FileLives

/-- What the clients and the pool see. -/
def view (s : FileLives) : PoolLives where
  store :=
    { pool := s.pool
      disk := { file := fun p ↦ some (DiskFile.page s.file p), nextPageId := s.nextPageId } }
  pins := s.pins
  memory := s.memory

/-- A pool that has just been constructed, over a file. -/
def opened (poolSize : ℕ) (file : ByteFile) : FileLives where
  pool := .create poolSize
  file := file
  memory := DiskFile.page file

/-- What is written to the file meanwhile. -/
def writes (s : FileLives) (t : PoolLives) : PoolLives.Event → List (PageId × PageData)
  | .restart _ => s.view.store.flushAllPages.disk.issued
  | _ => t.store.disk.issued

/-- What is left of the clients and the pool over a file: their pages are those of the file. -/
def leftIn (file : ByteFile) (t : PoolLives) : FileLives where
  pool := t.store.pool
  nextPageId := t.store.disk.nextPageId
  file := file
  pins := t.pins
  memory := t.memory

/-- One event. -/
def step (s : FileLives) (e : PoolLives.Event) : Option (PoolLives.Result × FileLives) :=
  (PoolLives.step s.view e).map fun (o, t) ↦
    (o, leftIn (DiskFile.writeAll s.file (s.writes t e)) t)

/-- `t` has the pages that are in the file of `s`, and is the same otherwise. -/
structure Sees (s : FileLives) (t : PoolLives) : Prop where
  pool : t.store.pool = s.pool
  nextPageId : t.store.disk.nextPageId = s.nextPageId
  read : ∀ p, t.store.disk.readPage p = DiskFile.page s.file p
  pins : t.pins = s.pins
  memory : t.memory = s.memory

variable {s s' : FileLives} {t u : PoolLives} {poolSize : ℕ} {file : ByteFile}

theorem sees_opened (poolSize : ℕ) (file : ByteFile) :
    Sees (opened poolSize file) (.opened poolSize fun p ↦ some (DiskFile.page file p)) where
  pool := rfl
  nextPageId := rfl
  read _ := rfl
  pins := rfl
  memory := rfl

namespace Sees

theorem shares (h : Sees s t) : Store.Shares s.file s.view.store t.store :=
  ⟨h.pool, h.nextPageId, fun _ ↦ rfl, h.read⟩

/-- Both pools have come through an event with the same writes. -/
theorem of_shares (h : Store.Shares file u.store t.store) (hpins : t.pins = u.pins)
    (hmemory : t.memory = u.memory) :
    Sees (leftIn (DiskFile.writeAll file u.store.disk.issued) u) t where
  pool := h.pool
  nextPageId := h.disk.nextPageId
  read := h.disk.right
  pins := hpins
  memory := hmemory

/-- Both return a page. -/
theorem take {store store' : Store} (h : Store.Shares file store store') (hpins : t.pins = u.pins)
    (hmemory : t.memory = u.memory) (p : PageId) (f : ℕ) :
    (t.take store' p f).1 = (u.take store p f).1 ∧
      Sees (leftIn (DiskFile.writeAll file store.disk.issued) (u.take store p f).2)
        (t.take store' p f).2 := by
  refine ⟨by rw [PoolLives.take, PoolLives.take, h.pool], h.pool, h.disk.nextPageId, h.disk.right,
    ?_, hmemory⟩
  rw [PoolLives.take, leftIn, PoolLives.take, hpins]

/-- **One event**: what the file has is what the pages have. -/
theorem step (h : Sees s t) {e : PoolLives.Event} {o : PoolLives.Result}
    (hs : s.step e = some (o, s')) : ∃ t', PoolLives.step t e = some (o, t') ∧ Sees s' t' := by
  obtain ⟨⟨o', u⟩, hu, heq⟩ := Option.map_eq_some_iff.mp hs
  cases heq
  have hshares := h.shares
  have hpins : t.pins = s.view.pins := h.pins
  have hmemory : t.memory = s.view.memory := h.memory
  cases e with
  | newPage =>
    obtain ⟨heq, hnew⟩ := hshares.newPage
    rw [PoolLives.step] at hu ⊢
    rcases ht : t.store.newPage with ⟨r, store'⟩
    rw [ht] at heq hnew
    rcases hn : s.view.store.newPage with ⟨_ | ⟨p, f⟩, store⟩ <;> rw [hn] at hu heq hnew
    · cases hu
      cases heq
      exact ⟨_, rfl, of_shares hnew hpins hmemory⟩
    · cases heq
      obtain ⟨hout, hsees⟩ := take hnew hpins hmemory p f
      cases hu
      exact ⟨(t.take store' p f).2, congrArg some (Prod.ext hout rfl), hsees⟩
  | fetchPage q =>
    obtain ⟨heq, hfetch⟩ := hshares.fetchPage q
    rw [PoolLives.step] at hu ⊢
    rcases ht : t.store.fetchPage q with ⟨r, store'⟩
    rw [ht] at heq hfetch
    rcases hf : s.view.store.fetchPage q with ⟨_ | f, store⟩ <;> rw [hf] at hu heq hfetch
    · cases hu
      cases heq
      exact ⟨_, rfl, of_shares hfetch hpins hmemory⟩
    · cases heq
      obtain ⟨hout, hsees⟩ := take hfetch hpins hmemory q f
      cases hu
      exact ⟨(t.take store' q f).2, congrArg some (Prod.ext hout rfl), hsees⟩
  | write pin data =>
    rw [PoolLives.step] at hu ⊢
    rw [hpins, hmemory]
    split_ifs at hu ⊢
    cases hu
    exact ⟨_, rfl, of_shares (hshares.writeFrame pin.frame data) rfl rfl⟩
  | unpinPage pin isDirty =>
    rw [PoolLives.step] at hu ⊢
    rw [hpins]
    split_ifs at hu ⊢
    cases hu
    exact ⟨_, rfl, of_shares (hshares.unpinPage pin.page isDirty) rfl hmemory⟩
  | flushPage p =>
    cases hu
    exact ⟨_, rfl, of_shares (hshares.flushPage p) hpins hmemory⟩
  | flushAllPages =>
    cases hu
    exact ⟨_, rfl, of_shares hshares.flushAllPages hpins hmemory⟩
  | restart poolSize =>
    cases hu
    exact ⟨_, rfl, rfl, rfl, hshares.flushAllPages.disk.right, rfl, hmemory⟩

end Sees

/-- **Over a file of bytes the pool is what it is over pages.**  For every file, of any length, and
every run of the clients with any number of restarts: the run is one of the clients over the pages
that there are in the file, with the same results, and at its end `ReadPage` of any page, into any
buffer, reads from the file what the pages have.  Each write is in the file before the next call. -/
theorem lives_of_run {es : List PoolLives.Event} {os : List PoolLives.Result}
    (hr : run step (opened poolSize file) es = some (os, s)) :
    ∃ t, run PoolLives.step (.opened poolSize fun p ↦ some (DiskFile.page file p)) es =
        some (os, t) ∧ t.store.pool = s.pool ∧
      ∀ p buffer, DiskFile.readPage s.file p buffer = t.store.disk.readPage p := by
  have hstep : ∀ s t e o s', Sees s t → True → step s e = some (o, s') →
      ∃ t', PoolLives.step t e = some (o, t') ∧ Sees s' t' := fun _ _ _ _ _ h _ hs ↦ h.step hs
  obtain ⟨t, ht, h⟩ := run_simulation hstep (sees_opened poolSize file) along_true hr
  exact ⟨t, ht, h.pool, fun p buffer ↦ (DiskFile.readPage_eq s.file p buffer).trans (h.read p).symm⟩

/-- A page in a file of three bytes that is read, written and read again after a restart. -/
def readWritten (data : PageData) : List PoolLives.Event :=
  [.fetchPage 0, .write ⟨0, 0, false⟩ data, .unpinPage ⟨0, 0, true⟩ true, .restart 2, .fetchPage 0]

theorem lives_of_run_three :
    ∃ os s t, run step (opened 1 [1, 2, 3]) (readWritten fun _ ↦ 4) = some (os, s) ∧
      run PoolLives.step (.opened 1 fun p ↦ some (DiskFile.page [1, 2, 3] p))
        (readWritten fun _ ↦ 4) = some (os, t) ∧
      ∀ p buffer, DiskFile.readPage s.file p buffer = t.store.disk.readPage p := by
  obtain ⟨⟨os, s⟩, hr⟩ := Option.isSome_iff_exists.mp
    (rfl : (run step (opened 1 [1, 2, 3]) (readWritten fun _ ↦ 4)).isSome = true)
  obtain ⟨t, ht, -, hread⟩ := lives_of_run hr
  exact ⟨os, s, t, hr, ht, hread⟩

end FileLives

end StingDB
