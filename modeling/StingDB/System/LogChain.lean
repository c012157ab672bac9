import StingDB.Execution.PageRecords
import StingDB.System.WriteAhead
import StingDB.Transaction.WriteSets

/-!
# Log, page headers and write sets

The row loop of `InsertExecutor::Next` writes down what it does in three places: the log, the LSN in
the header of the page, and the write set of the transaction.  Undo and redo would go from one to
the other, so the three have to tell the same story, and `records_agree` says that they do: the
INSERT records of the log are the rows that were stored, one for one; the LSN in the header of a
page is the end of the chain of the page's INSERT records (`Chain.follow`); and a write set is made
of the LSNs of the transaction's BEGIN and INSERT records.

The runs are those of `StingInstance.Call` without appends from outside.  What a page is meant to
hold is kept beside the instance (`Traced`), and that the buffer pool supplies it is an assumption
on the run (`Supplied`).  The chains and the write sets are those of fewer than 2^64 records;
`lsn_exhausted` is what becomes of a page after that.
-/

set_option autoImplicit false

namespace StingDB

open Machine SlottedPage Chain

/-! ## Runs with a memory -/

namespace InsertExecutor

/-- The rows that the loop over a batch stores: what `InsertTuple` accepted, where it put it. -/
def acceptedRows (txn : Option TxnId) (frameId : ℕ) (tuple : List UInt8) :
    ℕ → StingInstance → List (RID × List UInt8)
  | 0, _ => []
  | rows + 1, s =>
    match SlottedPage.insertTuple (s.bpm.pool.pages frameId) tuple {} with
    | (true, rid, page) =>
      (rid, tuple) :: acceptedRows txn frameId tuple rows
        (logRow txn (s.setPage frameId page) frameId rid tuple)
    | (false, _, _) => []

/-- A batch, when the page for it has been found. -/
structure Batch where
  /-- `raw_page` -/
  frameId : ℕ
  /-- `page_id` -/
  pageId : PageId
  /-- `serialized_tuple` -/
  tuple : List UInt8
  /-- `input_batch.GetNumRows()` -/
  rows : ℕ
  inst : StingInstance

/-- The batch that a `Next` inserts, if there is one. -/
def batch (e : InsertExecutor) (s : StingInstance) : Option Batch := do
  let table ← e.tableInfo
  let rows ← e.child.head?
  let info ← s.catalogManager.tables table
  let (rawPage, pageId, inst) ← targetPage s table info.firstPageId
  let frameId ← rawPage
  some { frameId, pageId, tuple := .replicate info.schema.getTupleFixedLength 0, rows, inst }

end InsertExecutor

/-- The instance, and what its table pages are meant to hold. -/
structure Traced where
  inst : StingInstance
  /-- The pages that rows have been inserted into, as the last insert left them. -/
  memory : PageId → Option PageData := fun _ ↦ none

namespace Traced

open StingInstance (Call)

/-- The records appended so far. -/
def log (g : Traced) : List LogEntry := g.inst.getLogManager.appended

/-- The rows that a call stores. -/
def accepted (g : Traced) : Call → List (RID × List UInt8)
  | .insert e =>
    (e.batch g.inst).elim [] fun b ↦
      InsertExecutor.acceptedRows e.txn b.frameId b.tuple b.rows b.inst
  | _ => []

/-- The memory after a call that has taken the instance to `inst`. -/
def remember (g : Traced) (inst : StingInstance) : Call → PageId → Option PageData
  | .insert e =>
    (e.batch g.inst).elim g.memory fun b ↦
      Function.update g.memory b.pageId (some (inst.bpm.pool.pages b.frameId).data)
  | _ => g.memory

/-- One call: the rows it has stored, and what comes after it. -/
def step (g : Traced) (c : Call) : Option (List (RID × List UInt8) × Traced) :=
  (g.inst.next c).map fun inst ↦ (g.accepted c, { inst, memory := g.remember inst c })

/-- A new instance. -/
def start (poolSize : ℕ) (file : PageId → Option PageData) : Traced :=
  { inst := .start poolSize file }

/-- What the pool does for an insert into a table with this first page: it supplies the page, with
the contents it is meant to have, or else a page with a new id. -/
def Supplied (g : Traced) (firstPageId : PageId) : Prop :=
  if firstPageId = invalidPageId then
    ∀ new ∈ g.inst.bpm.newPage.1, g.memory new.1 = none
  else
    ∃ f ∈ (g.inst.bpm.fetchPage firstPageId).1,
      ((g.inst.bpm.fetchPage firstPageId).2.pool.pages f).pageId = firstPageId ∧
      g.memory firstPageId = some ((g.inst.bpm.fetchPage firstPageId).2.pool.pages f).data

/-- What is assumed of the calls of a run.  The log is appended to from inside only; and an insert
has a transaction in its context, tuples of 1 to `PAGE_SIZE` bytes, and its page from the pool. -/
def Assumed (g : Traced) : Call → Prop
  | .txn (.appendLogRecord _) => False
  | .insert e =>
    e.txn ≠ none ∧ ∀ table ∈ e.tableInfo, ∀ info ∈ g.inst.catalogManager.tables table,
      1 ≤ info.schema.getTupleFixedLength ∧ info.schema.getTupleFixedLength ≤ pageSize ∧
        g.Supplied info.firstPageId
  | _ => True

end Traced

/-! ## Batches -/

/-- What the three records have to do with each other. -/
structure RecordsAgree (m : TransactionManager) (rows : List (RID × List UInt8))
    (memory : PageId → Option PageData) : Prop where
  txns : m.TxnsAgree
  rows : RowsAgree m.logManager.appended rows memory

/-- The records that the transaction manager makes of itself are none of rows. -/
theorem TransactionManager.logged_type {m : TransactionManager} {c : TransactionManager.Call}
    (hc : ∀ r, c ≠ .appendLogRecord r) {r : LogRecord} (hr : m.logged c = some r) :
    r.type ≠ .insert := by
  cases c with
  | begin isoLevel => cases hr; simp [LogRecord.ofType]
  | appendLogRecord r' => exact absurd rfl (hc r')
  | flush => cases hr
  | commit txn => obtain ⟨t, -, rfl⟩ := Option.map_eq_some_iff.mp hr; simp [LogRecord.ofType]
  | abort txn => obtain ⟨t, -, rfl⟩ := Option.map_eq_some_iff.mp hr; simp [LogRecord.ofType]

/-- Begin, Commit, Abort and a Flush of the log. -/
theorem RecordsAgree.txn {m m' : TransactionManager} {rows : List (RID × List UInt8)}
    {memory : PageId → Option PageData} (h : RecordsAgree m rows memory)
    {c : TransactionManager.Call} {o : Option ℕ} (hc : ∀ r, c ≠ .appendLogRecord r)
    (hs : m.step c = some (o, m')) : RecordsAgree m' rows memory := by
  constructor
  · cases c with
    | begin isoLevel => cases hs; exact h.txns.begin isoLevel
    | appendLogRecord r => exact absurd rfl (hc r)
    | flush => cases hs; exact h.txns.flush
    | commit txn =>
      obtain ⟨t, ht, heq⟩ := Option.map_eq_some_iff.mp hs
      cases heq
      exact h.txns.commit ht
    | abort txn =>
      obtain ⟨t, ht, heq⟩ := Option.map_eq_some_iff.mp hs
      cases heq
      exact h.txns.abort ht
  · obtain ⟨log, happ, hfl⟩ := TransactionManager.step_log hs
    have hlog : m'.logManager.appended = log.appended := by
      obtain ⟨-, heq⟩ | ⟨-, heq⟩ := hfl
      · rw [heq]
      · rw [heq, LogManager.appended_flush]
    rw [hlog]
    obtain ⟨-, rfl⟩ | ⟨r, hr, rfl⟩ := happ
    · exact h.rows
    · rw [LogManager.appendLogRecord_appended]
      exact h.rows.concat (TransactionManager.logged_type hc hr)

namespace InsertExecutor

variable {id : TxnId} {t : Transaction} {f : ℕ} {tuple : List UInt8}
  {memory : PageId → Option PageData} {rows : List (RID × List UInt8)}

/-- What is written down about a row, where there is a transaction. -/
theorem logRow_of_begun {s : StingInstance} (ht : s.txnManager.txnMap id = some t) (rid : RID) :
    (logRow (some id) s f rid tuple).txnManager =
        (s.txnManager.appendLogRecord (rowRecord t (s.bpm.pool.pages f) rid tuple)).2.setTxn
          (t.appendWriteSet s.txnManager.logManager.nextLsn) ∧
      (logRow (some id) s f rid tuple).bpm.pool.pages f =
        setLSN (s.bpm.pool.pages f) s.txnManager.logManager.nextLsn := by
  rw [logRow, Option.bind_some, ht]
  exact ⟨rfl, BufferPoolManager.setPage_pages_self ..⟩

/-- A batch of one row that the page admits. -/
theorem insertRows_one {s : StingInstance} (ht : s.txnManager.txnMap id = some t)
    (hadmits : Admits (s.bpm.pool.pages f) tuple) :
    acceptedRows (some id) f tuple 1 s =
        [(⟨(s.bpm.pool.pages f).pageId, .ofNat (getTupleCount (s.bpm.pool.pages f))⟩, tuple)] ∧
      (insertRows (some id) f tuple 1 s).bpm.pool.pages f =
        setLSN ((inserted (s.bpm.pool.pages f) tuple).setDirty true)
          s.txnManager.logManager.nextLsn := by
  let page := (inserted (s.bpm.pool.pages f) tuple).setDirty true
  have ht' : (s.setPage f page).txnManager.txnMap id = some t := ht
  rw [acceptedRows, insertRows, SlottedPage.insertTuple, if_pos hadmits]
  refine ⟨rfl, (@logRow_of_begun id t f tuple _ ht' _).2.trans ?_⟩
  exact congrArg₂ setLSN (BufferPoolManager.setPage_pages_self ..) rfl

/-- **One row** that the page takes. -/
theorem logRow_agrees {s : StingInstance} (ht : s.txnManager.txnMap id = some t)
    (hroom : Room (s.bpm.pool.pages f) tuple) (hpos : 1 ≤ tuple.length)
    (h : RecordsAgree s.txnManager rows (Function.update memory (s.bpm.pool.pages f).pageId
      (some (s.bpm.pool.pages f).data))) :
    let rid : RID := ⟨(s.bpm.pool.pages f).pageId, .ofNat (getTupleCount (s.bpm.pool.pages f))⟩
    let s' := logRow (some id)
      (s.setPage f ((inserted (s.bpm.pool.pages f) tuple).setDirty true)) f rid tuple
    (s'.bpm.pool.pages f).pageId = (s.bpm.pool.pages f).pageId ∧
      (s'.txnManager.txnMap id).isSome ∧
      RecordsAgree s'.txnManager (rows ++ [(rid, tuple)])
        (Function.update memory (s.bpm.pool.pages f).pageId (some (s'.bpm.pool.pages f).data)) := by
  intro rid s'
  let page := s.bpm.pool.pages f
  let page' := (inserted page tuple).setDirty true
  let lsn := s.txnManager.logManager.nextLsn
  let r := rowRecord t page' rid tuple
  have hlayout : Layout page :=
    (h.rows.page page.pageId page.data (Function.update_self ..)).layout.of_data_eq rfl
  have hlsn : getLSN page' = getLSN page := insert_getLSN hlayout hroom
  have hself : (s.setPage f page').bpm.pool.pages f = page' :=
    BufferPoolManager.setPage_pages_self ..
  have ht' : (s.setPage f page').txnManager.txnMap id = some t := ht
  obtain ⟨hm, hpage⟩ := @logRow_of_begun id t f tuple _ ht' rid
  rw [hself] at hm hpage
  have happ : s'.txnManager.logManager.appended =
      s.txnManager.logManager.appended ++ [⟨lsn, r⟩] := by
    rw [hm]
    exact LogManager.appendLogRecord_appended _ _
  let e : LogEntry := ⟨lsn, r⟩
  have hrow := h.rows.insert (e := e) hroom hpos
    h.txns.recorded.nextLsn_eq (by rw [← hlsn]; rfl)
  refine ⟨?_, ?_, ?_, ?_⟩
  · rw [hpage]
    rfl
  · rw [hm]
    exact TransactionManager.setTxn_isSome _ (Option.isSome_iff_exists.mpr ⟨t, ht⟩)
  · rw [hm]
    exact h.txns.insert ht rfl rfl
  · rw [happ, hpage]
    exact hrow

/-- **The loop over a batch** keeps the three records together. -/
theorem insertRows_agrees (hpos : 1 ≤ tuple.length) (hle : tuple.length ≤ pageSize) (n : ℕ)
    {s : StingInstance} {p : PageId} (hp : (s.bpm.pool.pages f).pageId = p)
    (ht : (s.txnManager.txnMap id).isSome)
    (h : RecordsAgree s.txnManager rows
      (Function.update memory p (some (s.bpm.pool.pages f).data))) :
    RecordsAgree (insertRows (some id) f tuple n s).txnManager
      (rows ++ acceptedRows (some id) f tuple n s)
      (Function.update memory p
        (some ((insertRows (some id) f tuple n s).bpm.pool.pages f).data)) := by
  induction n generalizing s rows with
  | zero =>
    rw [insertRows, acceptedRows, List.append_nil]
    exact h
  | succ n ih =>
    subst hp
    obtain ⟨t, ht⟩ := Option.isSome_iff_exists.mp ht
    have hlayout : Layout (s.bpm.pool.pages f) :=
      (h.rows.page _ _ (Function.update_self ..)).layout.of_data_eq rfl
    have hroom : Admits (s.bpm.pool.pages f) tuple ↔ Room (s.bpm.pool.pages f) tuple :=
      hlayout.admits_iff_room (by simp only [slotSize, pageSize] at *; omega)
    rw [insertRows, acceptedRows, SlottedPage.insertTuple]
    by_cases hadmits : Admits (s.bpm.pool.pages f) tuple
    · obtain ⟨hp, ht', h'⟩ := logRow_agrees ht (hroom.mp hadmits) hpos h
      have hrest := ih hp ht' h'
      rw [if_pos hadmits, List.append_cons]
      exact hrest
    · rw [if_neg hadmits, List.append_nil]
      exact h

end InsertExecutor

/-! ## Calls -/

namespace Traced

open StingInstance (Call)

variable {g g' : Traced} {rows : List (RID × List UInt8)}

/-- The page that a batch goes into. -/
theorem supplied_target {table : TableId} {firstPageId p : PageId} {rawPage : Option ℕ}
    {s : StingInstance} (hsup : g.Supplied firstPageId)
    (htarget : InsertExecutor.targetPage g.inst table firstPageId = some (rawPage, p, s))
    (h : RecordsAgree g.inst.txnManager rows g.memory) :
    ∃ f, rawPage = some f ∧ s.txnManager = g.inst.txnManager ∧
      (s.bpm.pool.pages f).pageId = p ∧
      RecordsAgree s.txnManager rows
        (Function.update g.memory p (some (s.bpm.pool.pages f).data)) := by
  rw [InsertExecutor.targetPage] at htarget
  by_cases hid : firstPageId = invalidPageId
  · rw [if_pos hid] at htarget
    rw [Supplied, if_pos hid] at hsup
    rcases hnew : g.inst.bpm.newPage with ⟨_ | ⟨q, f⟩, bpm⟩
    · rw [hnew] at htarget
      exact absurd htarget (by simp)
    · rw [hnew] at htarget
      cases htarget
      have hself : (bpm.pool.setPage f (SlottedPage.init (bpm.pool.pages f))).pages f =
          SlottedPage.init (bpm.pool.pages f) := BufferPoolManager.setPage_pages_self ..
      refine ⟨f, rfl, rfl, ?_, h.txns, ?_⟩
      · exact (congrArg Page.pageId hself).trans (Store.newPage_pageId hnew)
      · show RowsAgree _ _ (Function.update g.memory p (some ((bpm.pool.setPage f _).pages f).data))
        rw [hself]
        exact h.rows.init (hsup (p, f) (by rw [hnew]; rfl))
  · rw [if_neg hid] at htarget
    rw [Supplied, if_neg hid] at hsup
    obtain ⟨f, hf, hp, hdata⟩ := hsup
    rcases hfetch : g.inst.bpm.fetchPage firstPageId with ⟨rawPage, bpm⟩
    rw [hfetch] at htarget hf hp hdata
    cases hf
    cases htarget
    refine ⟨f, rfl, rfl, hp, h.txns, ?_⟩
    show RowsAgree _ _ (Function.update g.memory firstPageId (some (bpm.pool.pages f).data))
    rw [← hdata, Function.update_eq_self]
    exact h.rows

/-- A batch, from the page to the answer. -/
theorem insert_agrees {e : InsertExecutor} {s : StingInstance} (hA : g.Assumed (.insert e))
    (hs : g.inst.next (.insert e) = some s) (h : RecordsAgree g.inst.txnManager rows g.memory) :
    RecordsAgree s.txnManager (rows ++ g.accepted (.insert e)) (g.remember s (.insert e)) := by
  obtain ⟨htxn, hA⟩ := hA
  obtain ⟨id, htxn⟩ := Option.ne_none_iff_exists'.mp htxn
  rw [StingInstance.next] at hs
  split at hs
  swap
  · exact absurd hs (by simp)
  rename_i hbegun
  obtain ⟨⟨e', s'⟩, hnext, rfl⟩ := Option.map_eq_some_iff.mp hs
  obtain ⟨hnone, -, rfl⟩ | ⟨table, n, child, info, rawPage, p, s₁, s₂, ht, hc, hinfo, htarget,
    hbatch, -, rfl⟩ := InsertExecutor.next_eq_some hnext
  · have hb : e.batch g.inst = none := by
      rw [InsertExecutor.batch]
      rcases hnone with hnone | hnone
      · rw [hnone]
        rfl
      · rw [hnone]
        cases e.tableInfo <;> rfl
    rw [accepted, remember, hb]
    simpa using h
  · obtain ⟨hpos, hle, hsup⟩ := hA table ht info hinfo
    obtain ⟨f, rfl, hm, hp, h₁⟩ := supplied_target hsup htarget h
    let tuple := List.replicate info.schema.getTupleFixedLength (0 : UInt8)
    have hb : e.batch g.inst = some ⟨f, p, tuple, n, s₁⟩ := by
      rw [InsertExecutor.batch, ht, hc]
      simp only [List.head?_cons, Option.bind_eq_bind, Option.bind_some, hinfo, htarget, tuple]
    have hlen : tuple.length = info.schema.getTupleFixedLength := List.length_replicate
    have hid : (s₁.txnManager.txnMap id).isSome := by
      rw [hm]
      exact hbegun id htxn
    have hrows := InsertExecutor.insertRows_agrees (hlen ▸ hpos) (hlen ▸ hle) n hp hid h₁
    cases hbatch
    rw [accepted, remember, hb, htxn]
    simp only [Option.elim_some]
    rw [Store.unpinPage_data]
    exact hrows

/-- **One call.** -/
theorem step_agrees {c : Call} {o : List (RID × List UInt8)} (hA : g.Assumed c)
    (hs : g.step c = some (o, g')) (h : RecordsAgree g.inst.txnManager rows g.memory) :
    RecordsAgree g'.inst.txnManager (rows ++ o) g'.memory := by
  obtain ⟨s, hnext, heq⟩ := Option.map_eq_some_iff.mp hs
  cases heq
  cases c with
  | insert e => exact insert_agrees hA hnext h
  | txn c =>
    obtain ⟨⟨o, m⟩, hm, rfl⟩ := Option.map_eq_some_iff.mp hnext
    have hc : ∀ r, c ≠ .appendLogRecord r := by
      rintro r rfl
      exact hA
    have hagree := h.txn hc hm
    simpa [accepted, remember] using hagree
  | createTable tableName schema firstPage =>
    rw [StingInstance.next] at hnext
    split at hnext
    · cases hnext
      simpa [accepted, remember] using h
    · cases hnext
      simpa [accepted, remember] using h
  | fetchPage pageId => cases hnext; simpa [accepted, remember] using h
  | newPage => cases hnext; simpa [accepted, remember] using h
  | unpinPage pageId isDirty => cases hnext; simpa [accepted, remember] using h
  | flushPage pageId => cases hnext; simpa [accepted, remember] using h
  | flushAllPages => cases hnext; simpa [accepted, remember] using h

/-! ## Runs -/

theorem recordsAgree_start : RecordsAgree {} [] fun _ ↦ none where
  txns := TransactionManager.txnsAgree_init
  rows :=
    { rows_eq := rfl
      blank := fun _ _ ↦ rfl
      page := nofun }

section

variable {poolSize : ℕ} {file : PageId → Option PageData} {cs : List Call}
  {os : List (List (RID × List UInt8))}

theorem recordsAgree_of_run (hA : Along step Assumed (start poolSize file) cs)
    (hr : run step (start poolSize file) cs = some (os, g)) :
    RecordsAgree g.inst.txnManager os.flatten g.memory := by
  refine run_history
    (I := fun _ os (g : Traced) ↦ RecordsAgree g.inst.txnManager os.flatten g.memory)
    recordsAgree_start (fun _ os g c o g' _ h hc hs ↦ ?_) hA hr
  rw [List.flatten_append, List.flatten_singleton]
  exact step_agrees hc hs h

/-- The INSERT records are the rows that were stored, one for one; and the tuples of a table page
are those of its records, the slots of which are 0, 1, 2 and so on. -/
structure RowsLogged (g : Traced) (rows : List (RID × List UInt8)) : Prop where
  records : (g.log.filter (·.IsInsert)).map LogEntry.row = rows
  tuples : ∀ p data, g.memory p = some data →
    (contents { data }).tuples = (insertsOn g.log p).map fun e ↦ some e.record.insertTuple
  rids : ∀ p, (insertsOn g.log p).map (fun e ↦ e.record.insertRid) =
    (List.range (insertsOn g.log p).length).map fun k ↦ ⟨p, .ofNat k⟩

/-- The LSN of a table page is that of its last INSERT record, 0 if it has none, and going back
through `prev_lsn_` from there comes through the INSERT records of the page, latest first. -/
def PagesChained (g : Traced) : Prop :=
  ∀ p data, g.memory p = some data →
    getLSN { data } = lastKey LogEntry.lsn (insertsOn g.log p) ∧
      follow LogEntry.lsn LogEntry.prevLsn g.log g.log.length (getLSN { data }) =
        some (insertsOn g.log p).reverse

/-- A write set has the LSNs of the transaction's own BEGIN and INSERT records, in order, and none
that is in another write set. -/
structure WriteSetsOwn (g : Traced) : Prop where
  own : ∀ id t, g.inst.txnManager.txnMap id = some t →
    t.writeSet = writeLsns g.log id ∧ t.writeSet.Pairwise (· < ·)
  disjoint : ∀ id t id' t', g.inst.txnManager.txnMap id = some t →
    g.inst.txnManager.txnMap id' = some t' → id ≠ id' → t.writeSet.Disjoint t'.writeSet

end

end Traced

namespace RecordsAgree

variable {g : Traced} {rows : List (RID × List UInt8)}
  (h : RecordsAgree g.inst.txnManager rows g.memory)

include h

theorem rowsLogged : g.RowsLogged rows where
  records := h.rows.rows_eq
  tuples p data hp := (h.rows.page p data hp).tuples
  rids p := by
    cases hp : g.memory p with
    | none =>
      have hnil : insertsOn g.log p = [] := h.rows.blank p hp
      rw [hnil]
      rfl
    | some data => exact (h.rows.page p data hp).rids

theorem pagesChained (hlen : g.log.length < 2 ^ 64) : g.PagesChained := by
  intro p data hp
  obtain ⟨hlast, hlinked⟩ := (h.rows.page p data hp).chain hlen
  have hhead : getLSN { data } = lastKey LogEntry.lsn (insertsOn g.log p) := hlast
  have hsub : (insertsOn g.log p).Sublist g.log := List.filter_sublist
  have hfollow := follow_lastKey h.txns.recorded.pairwise_lsn
    (fun _ ↦ h.txns.recorded.lsn_pos) (fun _ he ↦ hsub.subset he) hlinked hsub.length_le
  rw [← hhead] at hfollow
  exact ⟨hhead, hfollow⟩

theorem writeSetsOwn : g.WriteSetsOwn where
  own id t ht := ⟨h.txns.writeSet id t ht, h.txns.pairwise ht⟩
  disjoint _ _ _ _ ht ht' hne := h.txns.disjoint ht ht' hne

end RecordsAgree

namespace Traced

section

variable {g : Traced} {poolSize : ℕ} {file : PageId → Option PageData}
  {cs : List StingInstance.Call} {os : List (List (RID × List UInt8))}

/-- **Log, page headers and write sets agree.**  In every run on which the buffer pool supplies the
pages of the inserts, in whatever order transactions begin, insert and end: the INSERT records are
the rows that were stored; and as long as fewer than 2^64 records have been appended, the header of
a table page is the end of the chain of its INSERT records, and a write set has the LSNs of the
transaction's own records. -/
theorem records_agree (hA : Along step Assumed (start poolSize file) cs)
    (hr : run step (start poolSize file) cs = some (os, g)) :
    g.RowsLogged os.flatten ∧ (g.log.length < 2 ^ 64 → g.PagesChained ∧ g.WriteSetsOwn) := by
  have h := recordsAgree_of_run hA hr
  refine ⟨h.rowsLogged, fun hlen ↦ ⟨h.pagesChained hlen, h.writeSetsOwn⟩⟩

end

/-! ## Two runs -/

section

variable {g : Traced}

theorem supplied_new {p : PageId} (hp : p = invalidPageId)
    (hnew : ∀ new ∈ g.inst.bpm.newPage.1, g.memory new.1 = none) : g.Supplied p := by
  rw [Supplied, if_pos hp]
  exact hnew

theorem supplied_old {p : PageId} {f : ℕ} (hp : p ≠ invalidPageId)
    (hf : (g.inst.bpm.fetchPage p).1 = some f)
    (hid : ((g.inst.bpm.fetchPage p).2.pool.pages f).pageId = p)
    (hmem : g.memory p = some ((g.inst.bpm.fetchPage p).2.pool.pages f).data) : g.Supplied p := by
  rw [Supplied, if_neg hp]
  exact ⟨f, hf, hid, hmem⟩

theorem assumed_insert {e : InsertExecutor} {id : TxnId} {table : TableId} {info : TableInfo}
    (ht : e.txn = some id) (htable : e.tableInfo = some table)
    (hinfo : g.inst.catalogManager.tables table = some info)
    (hpos : 1 ≤ info.schema.getTupleFixedLength)
    (hle : info.schema.getTupleFixedLength ≤ pageSize) (hsup : g.Supplied info.firstPageId) :
    g.Assumed (.insert e) := by
  refine ⟨by simp [ht], fun table' ht' info' hinfo' ↦ ?_⟩
  cases Option.some.inj (htable.symm.trans ht')
  cases Option.some.inj (hinfo.symm.trans hinfo')
  exact ⟨hpos, hle, hsup⟩

end

/-- A transaction inserts a row into a new table, and another one two more. -/
def twoInserts : List StingInstance.Call :=
  StingInstance.insertOnly ++ [.txn (.begin .snapshotIsolation),
    .insert { txn := some 2, child := [2], tableName := "t", tableInfo := some 0 }]

theorem records_agree_two :
    ∃ os g, run step (start 1 fun _ ↦ none) twoInserts = some (os, g) ∧
      g.RowsLogged os.flatten ∧ (g.log.length < 2 ^ 64 → g.PagesChained ∧ g.WriteSetsOwn) := by
  have hr : run step (start 1 fun _ ↦ none) twoInserts = some (_, _) := rfl
  refine ⟨_, _, hr, records_agree ?_ hr⟩
  refine .cons trivial rfl (.cons trivial rfl (.cons ?_ rfl (.cons trivial rfl ?_)))
  · refine assumed_insert rfl rfl rfl (by decide +kernel) (by decide +kernel) (supplied_new rfl ?_)
    intro new hnew
    cases hnew
    rfl
  · refine .cons ?_ rfl trivial
    exact assumed_insert rfl rfl rfl (by decide +kernel) (by decide +kernel)
      (supplied_old (f := 0) (by decide +kernel) rfl rfl rfl)

/-! ## When the LSNs run out -/

/-- An insert of one row into the table "t". -/
def oneRow : InsertExecutor :=
  { txn := some 1, child := [1], tableName := "t", tableInfo := some 0 }

/-- The instance with one table, and this transaction manager. -/
def withTable (m : TransactionManager) : StingInstance :=
  { StingInstance.start 1 fun _ ↦ none with
    txnManager := m
    catalogManager :=
      { nextTableId := 1
        tables := Function.update (fun _ ↦ none) 0
          (some ⟨0, "t", .create [.create "id" .integer], invalidPageId⟩)
        tableNames := Function.update (fun _ ↦ none) "t" (some 0) } }

/-- The page that the table gets. -/
def firstPage : Page := init { pageId := 0, pinCount := 1 }

/-- The instance when the table has the page. -/
def withPage (m : TransactionManager) : StingInstance :=
  { withTable m with
    bpm := (withTable m).bpm.newPage.2
    catalogManager := (withTable m).catalogManager.updateFirstPageId 0 0 }.setPage 0 firstPage

/-- The bytes of the row. -/
def rowBytes : List UInt8 :=
  .replicate (Schema.create [.create "id" .integer]).getTupleFixedLength 0

theorem batch_oneRow (m : TransactionManager) :
    oneRow.batch (withTable m) = some ⟨0, 0, rowBytes, 1, withPage m⟩ := rfl

theorem next_oneRow {m : TransactionManager} (ht : (m.txnMap 1).isSome) :
    let s := InsertExecutor.insertRows (some 1) 0 rowBytes 1 (withPage m)
    (withTable m).next (.insert oneRow) = some { s with bpm := (s.bpm.unpinPage 0 true).2 } := by
  have hall : ∀ id ∈ oneRow.txn, ((withTable m).txnManager.txnMap id).isSome := by
    rintro id ⟨⟩
    exact ht
  intro s
  have hrun : oneRow.next (withTable m) =
      some ({ oneRow with child := [] }, { s with bpm := (s.bpm.unpinPage 0 true).2 }) := rfl
  rw [StingInstance.next, if_pos hall, hrun]
  rfl

theorem step_oneRow {m : TransactionManager} {t : Transaction} (ht : m.txnMap 1 = some t) :
    ∃ g' data, step { inst := withTable m } (.insert oneRow) = some ([(⟨0, 0⟩, rowBytes)], g') ∧
      g'.memory 0 = some data ∧ getLSN { data } = m.logManager.nextLsn % 2 ^ 64 := by
  have hpage : (withPage m).bpm.pool.pages 0 = firstPage := rfl
  have hrid : (⟨firstPage.pageId, .ofNat (getTupleCount firstPage)⟩ : RID) = ⟨0, 0⟩ := by
    decide +kernel
  have hadmits : Admits ((withPage m).bpm.pool.pages 0) rowBytes := by
    rw [hpage]
    decide +kernel
  obtain ⟨hrows, hlsn⟩ := InsertExecutor.insertRows_one (s := withPage m) ht hadmits
  rw [hpage, hrid] at hrows
  have hnext := next_oneRow (Option.isSome_iff_exists.mpr ⟨t, ht⟩)
  generalize hs : InsertExecutor.insertRows (some 1) 0 rowBytes 1 (withPage m) = s at hlsn hnext
  let s' := { s with bpm := (s.bpm.unpinPage 0 true).2 }
  let data := (s'.bpm.pool.pages 0).data
  refine ⟨⟨s', Function.update (fun _ ↦ none) 0 (some data)⟩, data, ?_, by simp, ?_⟩
  · rw [step, hnext, Option.map_some, accepted, remember, batch_oneRow]
    simp only [Option.elim_some]
    rw [show oneRow.txn = some 1 from rfl, hrows]
  · have hdata : ({ data } : Page).data = (s.bpm.pool.pages 0).data := Store.unpinPage_data ..
    calc getLSN { data } = getLSN (s.bpm.pool.pages 0) := getLSN_of_data_eq hdata
      _ = m.logManager.nextLsn % 2 ^ 64 := by rw [hlsn]; exact setLSN_getLSN _ _

/-- `n` more transactions begin. -/
theorem run_begins (n : ℕ) (m : TransactionManager) :
    ∃ os m', run step { inst := withTable m }
        (List.replicate n (.txn (.begin .snapshotIsolation))) =
          some (os, { inst := withTable m' }) ∧
      m'.logManager.nextLsn = m.logManager.nextLsn + n ∧
      ∀ id, (m.txnMap id).isSome → (m'.txnMap id).isSome := by
  induction n generalizing m with
  | zero => exact ⟨[], m, rfl, rfl, fun _ ↦ id⟩
  | succ n ih =>
    obtain ⟨os, m', hr, hlsn, hmap⟩ := ih (m.begin .snapshotIsolation).2
    refine ⟨[] :: os, m', run_cons.mpr ⟨[], _, os, rfl, hr, rfl⟩, ?_, fun id hid ↦ hmap id ?_⟩
    · rw [hlsn]
      show (m.logManager.appendLogRecord _).2.nextLsn + n = _
      rw [LogManager.appendLogRecord_nextLsn]
      omega
    · exact TransactionManager.setTxn_isSome _ hid

/-- `n + 1` transactions begin, and then the first one inserts a row into a new table. -/
def rowAfter (n : ℕ) : List StingInstance.Call :=
  [.createTable "t" (.create [.create "id" .integer]) invalidPageId,
    .txn (.begin .snapshotIsolation)] ++
    List.replicate n (.txn (.begin .snapshotIsolation)) ++ [.insert oneRow]

/-- The LSN that the page is given is the number of its record, in eight bytes. -/
theorem run_rowAfter (n : ℕ) :
    ∃ os g data, run step (start 1 fun _ ↦ none) (rowAfter n) = some (os, g) ∧
      Along step Assumed (start 1 fun _ ↦ none) (rowAfter n) ∧
      (⟨0, 0⟩, rowBytes) ∈ os.flatten ∧
      g.memory 0 = some data ∧ getLSN { data } = (n + 2) % 2 ^ 64 := by
  let m₁ := (({} : TransactionManager).begin .snapshotIsolation).2
  have hr₁ : run step (start 1 fun _ ↦ none)
      [.createTable "t" (.create [.create "id" .integer]) invalidPageId,
        .txn (.begin .snapshotIsolation)] = some ([[], []], { inst := withTable m₁ }) := rfl
  obtain ⟨os₂, m₂, hr₂, hlsn, hmap⟩ := run_begins n m₁
  obtain ⟨t, ht⟩ := Option.isSome_iff_exists.mp (hmap 1 rfl)
  obtain ⟨g, data, hs, hmem, hget⟩ := step_oneRow ht
  have hr := run_append.mpr ⟨_, _, _, hr₁, hr₂, rfl⟩
  refine ⟨_, g, data, run_concat.mpr ⟨_, _, _, hr, hs, rfl⟩, along_concat.mpr ⟨?_, ?_⟩, ?_, hmem,
    ?_⟩
  · refine along_of_forall fun c hc g ↦ ?_
    simp only [List.mem_append, List.mem_cons, List.not_mem_nil, or_false, List.mem_replicate] at hc
    obtain (rfl | rfl) | ⟨-, rfl⟩ := hc <;> trivial
  · intro os g' hr'
    rw [hr] at hr'
    cases hr'
    refine assumed_insert rfl rfl rfl (by decide +kernel) (by decide +kernel) (supplied_new rfl ?_)
    intro new hnew
    cases hnew
    rfl
  · simp
  · rw [hget, hlsn]
    exact congrArg (· % 2 ^ 64) (Nat.add_comm 2 n)

/-- When 2^64 - 1 records have been appended, the page of the next row says that it has no record:
its LSN is 0, and nothing is come through from there. -/
theorem lsn_exhausted :
    ∃ os g data, run step (start 1 fun _ ↦ none) (rowAfter (2 ^ 64 - 2)) = some (os, g) ∧
      Along step Assumed (start 1 fun _ ↦ none) (rowAfter (2 ^ 64 - 2)) ∧
      g.memory 0 = some data ∧ insertsOn g.log 0 ≠ [] ∧ getLSN { data } = 0 ∧
      ¬ g.PagesChained := by
  obtain ⟨os, g, data, hr, hA, hos, hmem, hget⟩ := run_rowAfter (2 ^ 64 - 2)
  have hagree := recordsAgree_of_run hA hr
  have hzero : getLSN { data } = 0 := by
    rw [hget, Nat.sub_add_cancel (by norm_num), Nat.mod_self]
  have hsome : insertsOn g.log 0 ≠ [] := by
    rw [← hagree.rows.rows_eq] at hos
    obtain ⟨e, he, hrow⟩ := List.mem_map.mp hos
    obtain ⟨hin, hins⟩ := List.mem_filter.mp he
    have hpage : e.record.insertRid.pageId = 0 := congrArg (fun r : RID × _ ↦ r.1.pageId) hrow
    exact List.ne_nil_of_mem (List.mem_filter.mpr ⟨hin, by simpa [hpage] using hins⟩)
  refine ⟨os, g, data, hr, hA, hmem, hsome, hzero, fun hchained ↦ ?_⟩
  obtain ⟨-, hfollow⟩ := hchained 0 data hmem
  rw [hzero, follow_zero] at hfollow
  exact hsome (List.reverse_eq_nil_iff.mp (Option.some.inj hfollow).symm)

end Traced

end StingDB
