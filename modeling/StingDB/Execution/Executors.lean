import StingDB.System.Instance

/-!
# The executors

`execution/insert_executor.h` and `execution/seq_scan_executor.h`.  Both know one page of their
table, the first, and neither looks further: an insert that finds the page full stops without a
word, and a scan ends where the page does.

The child of an insert is any operator that does nothing but give batches, so it is the list of
their numbers of rows; what is in a row is never read.  What a scan reads of a tuple is thrown away
again.  A null pointer that is dereferenced ends the program: `none`.
-/

set_option autoImplicit false

namespace StingDB

/-! ## Insert -/

/-- `InsertExecutor` -/
structure InsertExecutor where
  /-- `context_->GetTransaction()` -/
  txn : Option TxnId
  /-- `child_`, by the rows of the batches it has yet to give. -/
  child : List ℕ
  /-- `table_name_` -/
  tableName : String
  /-- `table_info_` -/
  tableInfo : Option TableId := none

namespace InsertExecutor

/-- `Init`. -/
def init (e : InsertExecutor) (s : StingInstance) : Except String InsertExecutor :=
  match s.catalogManager.getTable e.tableName with
  | none => .error ("Table not found for INSERT: " ++ e.tableName)
  | some table => .ok { e with tableInfo := some table }

/-- The page to insert into: `raw_page`, which may be null, and `page_id`.  A table that has no
page yet gets one, and a null pointer from `NewPage` does not survive `Init`. -/
def targetPage (s : StingInstance) (table : TableId) (pageId : PageId) :
    Option (Option ℕ × PageId × StingInstance) :=
  if pageId = invalidPageId then
    match s.bpm.newPage with
    | (none, _) => none
    | (some (pageId, frameId), bpm) =>
      let s := { s with bpm, catalogManager := s.catalogManager.updateFirstPageId table pageId }
      some (some frameId, pageId, s.setPage frameId (SlottedPage.init (s.bpm.pool.pages frameId)))
  else
    let (rawPage, bpm) := s.bpm.fetchPage pageId
    some (rawPage, pageId, { s with bpm })

/-- The record of a row that the transaction has inserted into `page`. -/
def rowRecord (t : Transaction) (page : Page) (rid : RID) (tuple : List UInt8) : LogRecord :=
  .ofTuple t.txnId (SlottedPage.getLSN page) .insert rid tuple

/-- What is done about a row that has been inserted, if there is a transaction: the record goes to
the log, and its LSN into the write set and onto the page. -/
def logRow (txn : Option TxnId) (s : StingInstance) (frameId : ℕ) (rid : RID)
    (tuple : List UInt8) : StingInstance :=
  match txn.bind s.txnManager.txnMap with
  | none => s
  | some t =>
    let page := s.bpm.pool.pages frameId
    let (lsn, txnManager) := s.txnManager.appendLogRecord (rowRecord t page rid tuple)
    { s with txnManager := txnManager.setTxn (t.appendWriteSet lsn) }.setPage frameId
      (SlottedPage.setLSN page lsn)

/-- The loop over the rows of a batch.  Bytes of a row that is copied past its page are dropped, as
by `SlottedPage.insertTuple`. -/
def insertRows (txn : Option TxnId) (frameId : ℕ) (tuple : List UInt8) :
    ℕ → StingInstance → StingInstance
  | 0, s => s
  | rows + 1, s =>
    match SlottedPage.insertTuple (s.bpm.pool.pages frameId) tuple {} with
    | (true, rid, page) =>
      insertRows txn frameId tuple rows (logRow txn (s.setPage frameId page) frameId rid tuple)
    | (false, _, _) => s

/-- The same on a `raw_page` that may be null.  It is dereferenced by the first `InsertTuple`,
unless the tuple is too large for that to look at the page. -/
def insertBatch (txn : Option TxnId) (rawPage : Option ℕ) (tuple : List UInt8) (rows : ℕ)
    (s : StingInstance) : Option StingInstance :=
  match rawPage with
  | some frameId => some (insertRows txn frameId tuple rows s)
  | none => if rows = 0 ∨ 65535 < tuple.length then some s else none

/-- `Next`: the executor and the instance.  The result is always `false`. -/
def next (e : InsertExecutor) (s : StingInstance) : Option (InsertExecutor × StingInstance) :=
  match e.tableInfo, e.child with
  | some table, rows :: child => do
    let info ← s.catalogManager.tables table
    let (rawPage, pageId, s) ← targetPage s table info.firstPageId
    let serializedTuple := List.replicate info.schema.getTupleFixedLength (0 : UInt8)
    let s ← insertBatch e.txn rawPage serializedTuple rows s
    some ({ e with child }, { s with bpm := (s.bpm.unpinPage pageId true).2 })
  | _, _ => some (e, s)

/-- A `Next` that is not the end of the program: there was nothing to do, or a batch was inserted
into the page. -/
theorem next_eq_some {e e' : InsertExecutor} {s s' : StingInstance} (h : e.next s = some (e', s')) :
    ((e.tableInfo = none ∨ e.child = []) ∧ e' = e ∧ s' = s) ∨
      ∃ table rows child info rawPage pageId s₁ s₂, e.tableInfo = some table ∧
        e.child = rows :: child ∧ s.catalogManager.tables table = some info ∧
        targetPage s table info.firstPageId = some (rawPage, pageId, s₁) ∧
        insertBatch e.txn rawPage (List.replicate info.schema.getTupleFixedLength 0) rows s₁ =
          some s₂ ∧
        e' = { e with child } ∧ s' = { s₂ with bpm := (s₂.bpm.unpinPage pageId true).2 } := by
  rw [next] at h
  split at h
  · rename_i table rows child ht hc
    simp only [Option.bind_eq_bind, Option.bind_eq_some_iff, Option.some.injEq, Prod.mk.injEq] at h
    obtain ⟨info, hinfo, ⟨rawPage, pageId, s₁⟩, htarget, s₂, hbatch, rfl, rfl⟩ := h
    exact Or.inr ⟨table, rows, child, info, rawPage, pageId, s₁, s₂, ht, hc, hinfo, htarget, hbatch,
      rfl, rfl⟩
  · rename_i hnot
    cases h
    refine Or.inl ⟨?_, rfl, rfl⟩
    by_cases ht : e.tableInfo = none
    · exact Or.inl ht
    obtain ⟨table, ht⟩ := Option.ne_none_iff_exists'.mp ht
    rcases hc : e.child with _ | ⟨rows, child⟩
    · exact Or.inr rfl
    · exact absurd hc (hnot table rows child ht)

end InsertExecutor

/-! ## Sequential scan -/

/-- `SeqScanExecutor` -/
structure SeqScanExecutor where
  /-- `table_name_` -/
  tableName : String
  /-- `table_info_` -/
  tableInfo : Option TableId := none
  /-- `current_page_id_` -/
  currentPageId : PageId := invalidPageId
  /-- `current_slot_` -/
  currentSlot : UInt32 := 0

namespace SeqScanExecutor

/-- `Init`. -/
def init (e : SeqScanExecutor) (s : StingInstance) : Except String SeqScanExecutor :=
  match s.catalogManager.getTable e.tableName with
  | none => .error ("Table not found: " ++ e.tableName)
  | some table =>
    let page := (s.catalogManager.tables table).elim invalidPageId TableInfo.firstPageId
    .ok { e with tableInfo := some table, currentPageId := page, currentSlot := 0 }

/-- `Next`: whether there was a row, the executor and the pool. -/
def next (e : SeqScanExecutor) (s : Store) : Bool × SeqScanExecutor × Store :=
  if e.tableInfo = none ∨ e.currentPageId = invalidPageId then (false, e, s)
  else
    match s.fetchPage e.currentPageId with
    | (none, s) => (false, e, s)
    | (some frameId, s) =>
      let unpinned := (s.unpinPage e.currentPageId false).2
      if SlottedPage.getTupleCount (s.pool.pages frameId) ≤ e.currentSlot.toNat then
        (false, e, unpinned)
      else (true, { e with currentSlot := e.currentSlot + 1 }, unpinned)

/-- `while (scan_exec.Next(&out)) { count++; }`: the count and the pool, or `none` if `fuel` calls
were not enough. -/
def count : ℕ → SeqScanExecutor → Store → Option (ℕ × Store)
  | 0, _, _ => none
  | fuel + 1, e, s =>
    match e.next s with
    | (false, _, s) => some (0, s)
    | (true, e, s) => (count fuel e s).map fun r ↦ (r.1 + 1, r.2)

/-- A page has less than `2 ^ 16` tuples, so a scan is over after that many calls and one more. -/
def countFuel : ℕ := 2 ^ 16 + 1

end SeqScanExecutor

end StingDB
