import StingDB.Execution.Executors
import StingDB.Storage.SlottedPage.Capacity

/-!
# The one page of a table

What inserts and scans come to on a page of equal rows.  The page takes `capacity` rows of a length,
and no more; an insert puts as many of its rows there as the page takes, and reports nothing about
the rest; a scan counts the rows that are there.

All of this is about a page that is resident, which the page of a table is from the first insert on
for as long as nothing evicts it.
-/

set_option autoImplicit false

namespace StingDB

/-! ## Pages of equal rows -/

namespace SlottedPage

/-- How many rows of `len` bytes a page takes. -/
def capacity (len : ℕ) : ℕ := (pageSize - headerSize) / (len + slotSize)

/-- The page has `n` rows of `len` bytes and nothing else. -/
structure Filled (p : Page) (len n : ℕ) : Prop where
  layout : Layout p
  count_eq : getTupleCount p = n
  pointer_eq : getFreeSpacePointer p + n * len = pageSize

namespace Filled

variable {p : Page} {len n : ℕ} {t : List UInt8}

theorem iff_occupied : Filled p len n ↔ Occupied p n (n * len) :=
  ⟨fun h ↦ ⟨h.layout, h.count_eq, h.pointer_eq⟩, fun h ↦ ⟨h.layout, h.count_eq, h.pointer_eq⟩⟩

theorem of_data_eq {q : Page} (h : Filled p len n) (hd : q.data = p.data) : Filled q len n :=
  iff_occupied.mpr ((iff_occupied.mp h).of_data_eq hd)

theorem setLSN (h : Filled p len n) (lsn : ℕ) : Filled (SlottedPage.setLSN p lsn) len n :=
  iff_occupied.mpr ((iff_occupied.mp h).setLSN lsn)

/-- So many rows fit in a page exactly if it takes them. -/
theorem occupation_le_iff : occupation n (n * len) ≤ pageSize ↔ n ≤ capacity len := by
  rw [capacity, Nat.le_div_iff_mul_le (Nat.add_pos_right len (by decide)), occupation,
    Nat.le_sub_iff_add_le (by decide), Nat.mul_add, Nat.mul_comm slotSize]
  omega

/-- There is room for one more row as long as there are fewer than the page takes. -/
theorem room_iff (h : Filled p len n) (ht : t.length = len) : Room p t ↔ n < capacity len := by
  rw [(iff_occupied.mp h).room_iff, ht, ← Nat.succ_mul, occupation_le_iff, Nat.succ_le_iff]

theorem admits_iff (h : Filled p len n) (ht : t.length = len) (hlen : len + slotSize < 2 ^ 16) :
    Admits p t ↔ n < capacity len := by
  rw [h.layout.admits_iff_room (ht ▸ hlen), h.room_iff ht]

theorem le_capacity (h : Filled p len n) : n ≤ capacity len :=
  occupation_le_iff.mp (iff_occupied.mp h).occupation_le

/-- One more row. -/
theorem insert (h : Filled p len n) (ht : t.length = len) (hn : n < capacity len) :
    Filled ((inserted p t).setDirty true) len (n + 1) := by
  have hinsert := (iff_occupied.mp h).insert ((h.room_iff ht).mpr hn)
  rw [ht, ← Nat.succ_mul] at hinsert
  exact iff_occupied.mpr hinsert

end Filled

theorem filled_init (p : Page) (len : ℕ) : Filled (init p) len 0 := by
  rw [Filled.iff_occupied, Nat.zero_mul]
  exact occupied_init p

end SlottedPage

open SlottedPage

/-! ## Resident pages -/

namespace Store

variable {s : Store} {p : PageId}

/-- The page is resident and has `n` rows of `len` bytes. -/
def Rows (s : Store) (p : PageId) (len n : ℕ) : Prop :=
  ∃ f, s.pool.pageTable.lookup p = some f ∧ Filled (s.pool.pages f) len n

theorem Rows.unpin {len n : ℕ} (h : s.Rows p len n) (isDirty : Bool) :
    (s.unpinPage p isDirty).2.Rows p len n := by
  obtain ⟨f, hl, hf⟩ := h
  rw [unpinPage_of_resident hl]
  exact ⟨f, by rwa [BufferPoolManager.unpin_pageTable],
    hf.of_data_eq (BufferPoolManager.unpin_data _ _ _ _)⟩

end Store

/-! ## Inserts -/

/-- From `s` to `s'` the catalog is the same and so are the resident pages, and the transactions
that had begun are there still. -/
structure Extends (s s' : StingInstance) : Prop where
  catalogManager : s'.catalogManager = s.catalogManager
  pageTable : s'.bpm.pool.pageTable = s.bpm.pool.pageTable
  nextTxnId : s'.txnManager.nextTxnId = s.txnManager.nextTxnId
  begun : ∀ t, (s.txnManager.txnMap t).isSome → (s'.txnManager.txnMap t).isSome

namespace Extends

variable {s s₁ s₂ : StingInstance}

theorem refl (s : StingInstance) : Extends s s := ⟨rfl, rfl, rfl, fun _ ↦ id⟩

theorem trans (h₁ : Extends s s₁) (h₂ : Extends s₁ s₂) : Extends s s₂ where
  catalogManager := h₂.catalogManager.trans h₁.catalogManager
  pageTable := h₂.pageTable.trans h₁.pageTable
  nextTxnId := h₂.nextTxnId.trans h₁.nextTxnId
  begun t ht := h₂.begun t (h₁.begun t ht)

theorem setPage (s : StingInstance) (f : ℕ) (page : Page) : Extends s (s.setPage f page) :=
  ⟨rfl, rfl, rfl, fun _ ↦ id⟩

/-- A change to one of the transactions. -/
theorem setTxn (s : StingInstance) {m : TransactionManager} (t : Transaction)
    (hmap : m.txnMap = s.txnManager.txnMap) (hnext : m.nextTxnId = s.txnManager.nextTxnId) :
    Extends s { s with txnManager := m.setTxn t } where
  catalogManager := rfl
  pageTable := rfl
  nextTxnId := hnext
  begun _ ht := TransactionManager.setTxn_isSome t (hmap ▸ ht)

end Extends

namespace InsertExecutor

variable {txn : Option TxnId} {f len n : ℕ} {tuple : List UInt8}

theorem logRow_extends (s : StingInstance) (rid : RID) : Extends s (logRow txn s f rid tuple) := by
  rw [logRow]
  split
  · exact .refl s
  · rename_i t _
    let record := rowRecord t (s.bpm.pool.pages f) rid tuple
    let appended := s.txnManager.appendLogRecord record
    have hset : Extends s { s with
        txnManager := appended.2.setTxn (t.appendWriteSet appended.1) } := .setTxn s _ rfl rfl
    exact hset.trans (.setPage _ f _)

/-- The `RID` of the next tuple of a page. -/
def nextRid (p : Page) : RID := ⟨p.pageId, .ofNat (getTupleCount p)⟩

/-- A row that is admitted is put on the page, and the loop goes on. -/
theorem insertRows_of_admits {s : StingInstance} (rows : ℕ)
    (ha : Admits (s.bpm.pool.pages f) tuple) :
    insertRows txn f tuple (rows + 1) s =
      insertRows txn f tuple rows
        (logRow txn (s.setPage f ((inserted (s.bpm.pool.pages f) tuple).setDirty true)) f
          (nextRid (s.bpm.pool.pages f)) tuple) := by
  rw [insertRows, insertTuple, if_pos ha]
  rfl

/-- The loop stops at a row that is not. -/
theorem insertRows_of_not_admits {s : StingInstance} (rows : ℕ)
    (ha : ¬ Admits (s.bpm.pool.pages f) tuple) : insertRows txn f tuple (rows + 1) s = s := by
  rw [insertRows, insertTuple, if_neg ha]

/-- What a row that is admitted preserves, the loop over a batch preserves. -/
theorem insertRows_induction {P : StingInstance → Prop} (rows : ℕ) {s : StingInstance} (h₀ : P s)
    (hrow : ∀ s rid, P s → P (logRow txn
      (s.setPage f ((inserted (s.bpm.pool.pages f) tuple).setDirty true)) f rid tuple)) :
    P (insertRows txn f tuple rows s) := by
  induction rows generalizing s with
  | zero => exact h₀
  | succ rows ih =>
    by_cases ha : Admits (s.bpm.pool.pages f) tuple
    · rw [insertRows_of_admits rows ha]
      exact ih (hrow s _ h₀)
    · rwa [insertRows_of_not_admits rows ha]

theorem insertRows_extends (s : StingInstance) (rows : ℕ) :
    Extends s (insertRows txn f tuple rows s) :=
  insertRows_induction rows (.refl s) fun _ rid h ↦
    h.trans ((Extends.setPage _ f _).trans (logRow_extends _ rid))

theorem logRow_filled (s : StingInstance) (rid : RID) (hf : Filled (s.bpm.pool.pages f) len n) :
    Filled ((logRow txn s f rid tuple).bpm.pool.pages f) len n := by
  rw [logRow]
  split
  · exact hf
  · simpa [StingInstance.setPage] using hf.setLSN _

variable (txn) in
/-- **What an insert stores.**  Of the rows of a batch the page takes as many as there is room
for. -/
theorem insertRows_filled (ht : tuple.length = len) (hlen : len + slotSize < 2 ^ 16) (rows : ℕ)
    (s : StingInstance) (hf : Filled (s.bpm.pool.pages f) len n) :
    Filled ((insertRows txn f tuple rows s).bpm.pool.pages f) len
      (min (n + rows) (capacity len)) := by
  induction rows generalizing s n with
  | zero => rwa [insertRows, Nat.add_zero, Nat.min_eq_left hf.le_capacity]
  | succ rows ih =>
    by_cases hn : n < capacity len
    · have hadmits := (hf.admits_iff ht hlen).mpr hn
      let s₁ := s.setPage f ((inserted (s.bpm.pool.pages f) tuple).setDirty true)
      have hf₁ : Filled (s₁.bpm.pool.pages f) len (n + 1) := by
        simpa [s₁, StingInstance.setPage] using hf.insert ht hn
      let rid := nextRid (s.bpm.pool.pages f)
      have hf' := ih (logRow txn s₁ f rid tuple) (logRow_filled s₁ rid hf₁)
      rw [insertRows_of_admits rows hadmits]
      rwa [Nat.add_assoc, Nat.add_comm 1] at hf'
    · have hfull : n = capacity len := le_antisymm hf.le_capacity (not_lt.mp hn)
      rw [insertRows_of_not_admits rows (mt (hf.admits_iff ht hlen).mp hn)]
      rwa [Nat.min_eq_right (hfull ▸ Nat.le_add_right _ _), ← hfull]

variable {e : InsertExecutor} {s : StingInstance} {table : TableId} {info : TableInfo} {rows : ℕ}
  {child : List ℕ}

/-- The page that has been found for a batch: it is resident, the table has it for its first, and
it is empty if it is new.  Nothing has been logged. -/
theorem targetPage_found {p : PageId} {s₁ : StingInstance}
    (hinfo : s.catalogManager.tables table = some info)
    (h : targetPage s table info.firstPageId = some (some f, p, s₁)) :
    s₁.txnManager = s.txnManager ∧ s₁.bpm.pool.pageTable.lookup p = some f ∧
      (s₁.catalogManager.tables table).map TableInfo.firstPageId = some p ∧
      (info.firstPageId = invalidPageId →
        ∃ page, s₁.bpm.pool.pages f = SlottedPage.init page) := by
  rw [targetPage] at h
  by_cases hid : info.firstPageId = invalidPageId
  · rw [if_pos hid] at h
    split at h
    · cases h
    · rename_i bpm hnew
      cases h
      have hl := Store.newPage_resident hnew
      refine ⟨rfl, hl, ?_, fun _ ↦ ⟨bpm.pool.pages f, ?_⟩⟩
      · simp [StingInstance.setPage, CatalogManager.updateFirstPageId, hinfo]
      · exact BufferPoolManager.setPage_pages_self ..
  · rw [if_neg hid] at h
    rcases hfetch : s.bpm.fetchPage info.firstPageId with ⟨o, bpm⟩
    rw [hfetch] at h
    cases h
    exact ⟨rfl, Store.fetchPage_resident hfetch, by rw [hinfo, Option.map_some],
      fun hinvalid ↦ absurd hinvalid hid⟩

/-- What `Next` does with it. -/
theorem next_of_found {p : PageId} {s₁ : StingInstance} (ht : e.tableInfo = some table)
    (hc : e.child = rows :: child) (hinfo : s.catalogManager.tables table = some info)
    (htarget : targetPage s table info.firstPageId = some (some f, p, s₁)) :
    let s₂ := insertRows e.txn f (List.replicate info.schema.getTupleFixedLength 0) rows s₁
    e.next s = some ({ e with child }, { s₂ with bpm := (s₂.bpm.unpinPage p true).2 }) := by
  rw [next, ht, hc]
  simp only [hinfo, htarget, insertBatch, Option.bind_eq_bind, Option.bind_some]

section

variable (ht : e.tableInfo = some table) (hc : e.child = rows :: child)
  (hinfo : s.catalogManager.tables table = some info)
  (hlen : info.schema.getTupleFixedLength = len) (hsmall : len + slotSize < 2 ^ 16)

include ht hc hinfo hlen hsmall

/-- `Next`, once the page to insert into has been found. -/
theorem next_of_targetPage {p : PageId} {s₁ : StingInstance}
    (htarget : targetPage s table info.firstPageId = some (some f, p, s₁))
    (hl : s₁.bpm.pool.pageTable.lookup p = some f) (hf : Filled (s₁.bpm.pool.pages f) len n) :
    ∃ s', e.next s = some ({ e with child }, s') ∧ Extends s₁ s' ∧
      s'.bpm.Rows p len (min (n + rows) (capacity len)) := by
  let tuple := List.replicate info.schema.getTupleFixedLength (0 : UInt8)
  have htuple : tuple.length = len := by rw [List.length_replicate, hlen]
  let s₂ := insertRows e.txn f tuple rows s₁
  have hext : Extends s₁ s₂ := insertRows_extends s₁ rows
  have hl₂ : s₂.bpm.pool.pageTable.lookup p = some f := by rw [hext.pageTable, hl]
  have hrows : s₂.bpm.Rows p len (min (n + rows) (capacity len)) :=
    ⟨f, hl₂, insertRows_filled e.txn htuple hsmall rows s₁ hf⟩
  refine ⟨_, next_of_found ht hc hinfo htarget, hext.trans ⟨rfl, ?_, rfl, fun _ ↦ id⟩,
    hrows.unpin true⟩
  dsimp only
  rw [Store.unpinPage_of_resident hl₂, BufferPoolManager.unpin_pageTable]

/-- `Next` on a table whose page is resident. -/
theorem next_of_resident (hid : info.firstPageId ≠ invalidPageId)
    (hrows : s.bpm.Rows info.firstPageId len n) :
    ∃ s', e.next s = some ({ e with child }, s') ∧ Extends s s' ∧
      s'.bpm.Rows info.firstPageId len (min (n + rows) (capacity len)) := by
  obtain ⟨f, hl, hf⟩ := hrows
  let s₁ : StingInstance := { s with bpm := { s.bpm with pool := s.bpm.pool.pin f } }
  have htarget : targetPage s table info.firstPageId = some (some f, info.firstPageId, s₁) := by
    rw [targetPage, if_neg hid, Store.fetchPage_of_resident hl]
  have hf₁ : Filled (s₁.bpm.pool.pages f) len n := hf.of_data_eq (BufferPoolManager.pin_data _ _ _)
  obtain ⟨s', hnext, hext, hrows⟩ :=
    next_of_targetPage ht hc hinfo hlen hsmall htarget hl hf₁
  have hpin : Extends s s₁ := ⟨rfl, rfl, rfl, fun _ ↦ id⟩
  exact ⟨s', hnext, hpin.trans hext, hrows⟩

/-- `Next` on a table that has no page yet, when the pool has a frame for one. -/
theorem next_of_newPage {p : PageId} {bpm : Store} (hid : info.firstPageId = invalidPageId)
    (hnew : s.bpm.newPage = (some (p, f), bpm)) :
    ∃ s', e.next s = some ({ e with child }, s') ∧
      Extends { s with bpm, catalogManager := s.catalogManager.updateFirstPageId table p } s' ∧
      s'.bpm.Rows p len (min rows (capacity len)) := by
  let s₀ : StingInstance :=
    { s with bpm, catalogManager := s.catalogManager.updateFirstPageId table p }
  let s₁ := s₀.setPage f (SlottedPage.init (bpm.pool.pages f))
  have htarget : targetPage s table info.firstPageId = some (some f, p, s₁) := by
    rw [targetPage, if_pos hid, hnew]
  have hl : bpm.pool.pageTable.lookup p = some f := Store.newPage_resident hnew
  have hf₁ : Filled (s₁.bpm.pool.pages f) len 0 := by
    simpa [s₁, StingInstance.setPage] using filled_init (bpm.pool.pages f) len
  obtain ⟨s', hnext, hext, hrows⟩ :=
    next_of_targetPage ht hc hinfo hlen hsmall htarget hl hf₁
  rw [Nat.zero_add] at hrows
  exact ⟨s', hnext, (Extends.setPage s₀ f _).trans hext, hrows⟩

end

end InsertExecutor

/-! ## Scans -/

namespace SeqScanExecutor

variable {e : SeqScanExecutor} {s : Store} {len n : ℕ}

/-- `Next` on a table whose page is resident: there is a row as long as the slot is one of the
page's. -/
theorem next_of_resident (ht : e.tableInfo ≠ none) (hid : e.currentPageId ≠ invalidPageId)
    (hrows : s.Rows e.currentPageId len n) :
    ∃ s', s'.pool.pageTable = s.pool.pageTable ∧ s'.Rows e.currentPageId len n ∧
      e.next s = if n ≤ e.currentSlot.toNat then (false, e, s')
        else (true, { e with currentSlot := e.currentSlot + 1 }, s') := by
  obtain ⟨f, hl, hf⟩ := hrows
  let s₁ : Store := { s with pool := s.pool.pin f }
  have hf₁ : Filled (s₁.pool.pages f) len n := hf.of_data_eq (BufferPoolManager.pin_data _ _ _)
  have hrows₁ : s₁.Rows e.currentPageId len n := ⟨f, hl, hf₁⟩
  refine ⟨(s₁.unpinPage e.currentPageId false).2, ?_, hrows₁.unpin false, ?_⟩
  · have hl₁ : s₁.pool.pageTable.lookup e.currentPageId = some f := hl
    rw [Store.unpinPage_of_resident hl₁, BufferPoolManager.unpin_pageTable]
    rfl
  · rw [next, if_neg (by simp [ht, hid]), Store.fetchPage_of_resident hl]
    simp only [hf₁.count_eq, s₁]

/-- **What a scan counts**: the rows of the page from the current slot on.  `fuel` calls are enough
if there is one more of them than of these. -/
theorem count_of_resident {fuel : ℕ} (ht : e.tableInfo ≠ none)
    (hid : e.currentPageId ≠ invalidPageId) (hrows : s.Rows e.currentPageId len n)
    (hslot : e.currentSlot.toNat ≤ n) (hfuel : n < fuel + e.currentSlot.toNat) :
    ∃ s', count fuel e s = some (n - e.currentSlot.toNat, s') ∧
      s'.pool.pageTable = s.pool.pageTable ∧ s'.Rows e.currentPageId len n := by
  induction fuel generalizing e s with
  | zero => omega
  | succ fuel ih =>
    obtain ⟨s₁, hp₁, hrows₁, hnext⟩ := next_of_resident ht hid hrows
    rw [count, hnext]
    by_cases hend : n ≤ e.currentSlot.toNat
    · rw [if_pos hend, Nat.sub_eq_zero_of_le hend]
      exact ⟨s₁, rfl, hp₁, hrows₁⟩
    · -- a slot number of a page does not wrap
      have hsucc : (e.currentSlot + 1).toNat = e.currentSlot.toNat + 1 := by
        obtain ⟨f, -, hf⟩ := hrows
        have hle := hf.layout.tupleCount_le
        rw [hf.count_eq] at hle
        rw [UInt32.toNat_add]
        simp only [UInt32.toNat_one]
        omega
      obtain ⟨s', hcount, hp', hrows'⟩ :=
        ih (e := { e with currentSlot := e.currentSlot + 1 }) ht hid hrows₁
          (by change (e.currentSlot + 1).toNat ≤ n; omega)
          (by change n < fuel + (e.currentSlot + 1).toNat; omega)
      rw [if_neg hend]
      refine ⟨s', ?_, hp'.trans hp₁, hrows'⟩
      dsimp only
      rw [hcount, Option.map_some]
      show some (n - (e.currentSlot + 1).toNat + 1, s') = _
      rw [hsucc, show n - (e.currentSlot.toNat + 1) + 1 = n - e.currentSlot.toNat by omega]

end SeqScanExecutor

end StingDB
