import StingDB.Execution.TablePage
import StingDB.Storage.SlottedPage.Refinement

/-!
# What a batch insert stores

The row loop of `InsertExecutor::Next` stops at the first row that the page has no room for, and
says so to nobody.  So of a batch it stores as many rows from the front as fit (`SlottedPage.fits`),
and the page, the log and the write set of the transaction have these rows and no others
(`next_stored_iff`): all rows only if all of them fit, and none only if not one does.

Here the page may have any mix of tuples, deleted and empty ones included, and the rows any length
but those for which the admission test wraps.
-/

set_option autoImplicit false

namespace StingDB

open SlottedPage

namespace SlottedPage

/-! ## How many rows fit -/

/-- The bytes between the slots and the tuples. -/
def freeSpace (p : Page) : ℕ := getFreeSpacePointer p - (headerSize + getTupleCount p * slotSize)

/-- How many more rows of `len` bytes fit. -/
def fits (p : Page) (len : ℕ) : ℕ := freeSpace p / (len + slotSize)

/-- The admission test does not wrap for rows of this length. -/
def Plain (len : ℕ) : Prop := len + slotSize < 2 ^ 16 ∨ 2 ^ 16 ≤ len

instance : DecidablePred Plain := fun _ ↦ inferInstanceAs (Decidable (_ ∨ _))

variable {p : Page} {t : List UInt8} {len : ℕ}

theorem Layout.room_iff (h : Layout p) : Room p t ↔ t.length + slotSize ≤ freeSpace p := by
  have hs := h.slots_le
  rw [Room, freeSpace, Nat.add_mul]
  simp only [headerSize, slotSize] at *
  omega

/-- A row is admitted as long as one fits. -/
theorem Layout.admits_iff_fits (h : Layout p) (ht : t.length = len) (hplain : Plain len) :
    Admits p t ↔ fits p len ≠ 0 := by
  have hf := h.free_le
  have hroom : fits p len ≠ 0 ↔ Room p t := by
    rw [fits, h.room_iff, ht, ← Nat.pos_iff_ne_zero, Nat.div_pos_iff]
    exact and_iff_right (Nat.add_pos_right len (by decide))
  rw [hroom]
  rcases hplain with hlt | hge
  · exact h.admits_iff_room (ht ▸ hlt)
  · refine iff_of_false (fun ha ↦ ?_) fun hr ↦ ?_
    · have hsmall := ha.1
      omega
    · rw [Room] at hr
      simp only [pageSize] at hf
      omega

theorem freeSpace_setLSN (lsn : ℕ) : freeSpace (setLSN p lsn) = freeSpace p := by
  rw [freeSpace, setLSN_getFreeSpacePointer, setLSN_getTupleCount, freeSpace]

theorem Layout.freeSpace_inserted (h : Layout p) (hr : Room p t) :
    freeSpace (inserted p t) = freeSpace p - (t.length + slotSize) := by
  rw [freeSpace, insert_getFreeSpacePointer h hr, insert_getTupleCount h hr, freeSpace, Nat.add_mul]
  omega

theorem fits_init (p : Page) (len : ℕ) : fits (init p) len = capacity len := by
  rw [fits, freeSpace, init_getFreeSpacePointer, init_getTupleCount, capacity, Nat.zero_mul]

/-- After a row there is room for one less. -/
theorem Layout.fits_inserted (h : Layout p) (hr : Room p t) :
    fits (inserted p t) t.length = fits p t.length - 1 := by
  have hdiv := Nat.sub_mul_div (freeSpace p) (t.length + slotSize) 1
  rwa [Nat.mul_one, ← h.freeSpace_inserted hr] at hdiv

end SlottedPage

/-! ## What is written down about the rows -/

/-- The transaction with the LSNs of these records in its write set. -/
def Transaction.registered (t : Transaction) (entries : List LogEntry) : Transaction :=
  { t with writeSet := t.writeSet ++ entries.map LogEntry.lsn }

theorem Transaction.registered_registered (t : Transaction) (entries entries' : List LogEntry) :
    (t.registered entries).registered entries' = t.registered (entries ++ entries') := by
  rw [registered, registered, registered, List.map_append, ← List.append_assoc]

/-- From `s` to `s'` the page in frame `f` has got `k` more rows, and the log and the write set of
the transaction, if there is one, the `k` records `entries` of them; nothing else was written. -/
structure Stored (txn : Option Transaction) (f : ℕ) (tuple : List UInt8) (k : ℕ)
    (entries : List LogEntry) (s s' : StingInstance) : Prop where
  tuples : (contents (s'.bpm.pool.pages f)).tuples =
    (contents (s.bpm.pool.pages f)).tuples ++ List.replicate k (cell tuple)
  others : ∀ g, g ≠ f → s'.bpm.pool.pages g = s.bpm.pool.pages g
  log_eq : s'.getLogManager.appended = s.getLogManager.appended ++ entries
  length_eq : entries.length = if txn.isSome then k else 0
  records : ∀ e ∈ entries, ∃ t ∈ txn,
    e.record.type = .insert ∧ e.record.txnId = t.txnId ∧ e.record.insertTuple = tuple
  writeSet : ∀ t ∈ txn, s'.txnManager.txnMap t.txnId = some (t.registered entries)

/-- The context has this transaction, which has begun, or none. -/
def InContext (txn : Option Transaction) (s : StingInstance) : Prop :=
  ∀ t ∈ txn, s.txnManager.txnMap t.txnId = some t

namespace Stored

variable {txn : Option Transaction} {f k k' : ℕ} {tuple : List UInt8}
  {entries entries' : List LogEntry} {s s₁ s' : StingInstance}

theorem refl (htxn : InContext txn s) : Stored txn f tuple 0 [] s s where
  tuples := (List.append_nil _).symm
  others _ _ := rfl
  log_eq := (List.append_nil _).symm
  length_eq := by split <;> rfl
  records _ he := absurd he List.not_mem_nil
  writeSet t ht := by
    rw [Transaction.registered, List.map_nil, List.append_nil]
    exact htxn t ht

theorem inContext (h : Stored txn f tuple k entries s s') :
    InContext (txn.map (·.registered entries)) s' := by
  intro t ht
  obtain ⟨t₀, ht₀, rfl⟩ := Option.map_eq_some_iff.mp ht
  exact h.writeSet t₀ ht₀

theorem trans (h : Stored txn f tuple k entries s s₁)
    (h' : Stored (txn.map (·.registered entries)) f tuple k' entries' s₁ s') :
    Stored txn f tuple (k + k') (entries ++ entries') s s' where
  tuples := by rw [h'.tuples, h.tuples, List.append_assoc, List.replicate_add]
  others g hg := (h'.others g hg).trans (h.others g hg)
  log_eq := by rw [h'.log_eq, h.log_eq, List.append_assoc]
  length_eq := by
    have hlen' := h'.length_eq
    rw [Option.isSome_map] at hlen'
    rw [List.length_append, h.length_eq, hlen']
    split <;> rfl
  records e he := by
    rcases List.mem_append.mp he with he | he
    · exact h.records e he
    · obtain ⟨t, ht, htype, hid, htuple⟩ := h'.records e he
      obtain ⟨t₀, ht₀, rfl⟩ := Option.map_eq_some_iff.mp ht
      exact ⟨t₀, ht₀, htype, hid, htuple⟩
  writeSet t ht := by
    have hset := h'.writeSet (t.registered entries) (Option.map_eq_some_iff.mpr ⟨t, ht, rfl⟩)
    rwa [Transaction.registered_registered] at hset

/-- Releasing the page afterwards changes none of this. -/
theorem unpin (h : Stored txn f tuple k entries s s') {p : PageId}
    (hl : s'.bpm.pool.pageTable.lookup p = some f) (isDirty : Bool) :
    Stored txn f tuple k entries s { s' with bpm := (s'.bpm.unpinPage p isDirty).2 } where
  tuples := by
    rw [← h.tuples]
    exact congrArg _ (contents_of_data_eq (Store.unpinPage_data ..))
  others g hg := by
    rw [← h.others g hg, Store.unpinPage_of_resident hl]
    exact BufferPoolManager.unpin_pages_of_ne _ _ _ hg
  log_eq := h.log_eq
  length_eq := h.length_eq
  records := h.records
  writeSet := h.writeSet

/-- How many rows were stored can be read off the page. -/
theorem eq_of_stored (h : Stored txn f tuple k entries s s')
    (h' : Stored txn f tuple k' entries' s s') : k = k' := by
  have hlen := congrArg List.length (h.tuples.symm.trans h'.tuples)
  rw [List.length_append, List.length_append, List.length_replicate, List.length_replicate] at hlen
  omega

end Stored

/-- All rows of a batch were stored, or none was. -/
def AllOrNothing (txn : Option Transaction) (f : ℕ) (tuple : List UInt8) (rows : ℕ)
    (s s' : StingInstance) : Prop :=
  (∃ entries, Stored txn f tuple rows entries s s') ∨ ∃ entries, Stored txn f tuple 0 entries s s'

namespace InsertExecutor

variable {txn : Option Transaction} {f : ℕ} {tuple : List UInt8} {s : StingInstance}

/-- What is done about a row for a transaction that has begun. -/
theorem logRow_eq {t : Transaction} (ht : s.txnManager.txnMap t.txnId = some t) (rid : RID) :
    logRow (some t.txnId) s f rid tuple =
      { s with
        txnManager := (s.txnManager.appendLogRecord
          (rowRecord t (s.bpm.pool.pages f) rid tuple)).2.setTxn
            (t.appendWriteSet s.txnManager.logManager.nextLsn) }.setPage f
        (setLSN (s.bpm.pool.pages f) s.txnManager.logManager.nextLsn) := by
  rw [logRow, Option.bind_some, ht]
  rfl

/-- **One row** that the page has room for: the page and what is done about it. -/
theorem row_stored (htxn : InContext txn s) (hl : Layout (s.bpm.pool.pages f))
    (hr : Room (s.bpm.pool.pages f) tuple) (rid : RID) {s' : StingInstance}
    (hs' : s' = logRow (txn.map Transaction.txnId)
      (s.setPage f ((inserted (s.bpm.pool.pages f) tuple).setDirty true)) f rid tuple) :
    Layout (s'.bpm.pool.pages f) ∧
      freeSpace (s'.bpm.pool.pages f) = freeSpace (inserted (s.bpm.pool.pages f) tuple) ∧
      ∃ entries, Stored txn f tuple 1 entries s s' := by
  let page := (inserted (s.bpm.pool.pages f) tuple).setDirty true
  have hpage : Layout page := (insert_layout hl hr).of_data_eq rfl
  have hself : (s.setPage f page).bpm.pool.pages f = page :=
    BufferPoolManager.setPage_pages_self ..
  have htuples : (contents page).tuples =
      (contents (s.bpm.pool.pages f)).tuples ++ List.replicate 1 (cell tuple) := by
    rw [contents_of_data_eq (q := page) (p := inserted (s.bpm.pool.pages f) tuple) rfl,
      hl.contents_inserted_cell hr]
    rfl
  have hothers : ∀ g, g ≠ f → (s.setPage f page).bpm.pool.pages g = s.bpm.pool.pages g :=
    fun g hg ↦ BufferPoolManager.setPage_pages_of_ne _ _ _ hg
  rcases txn with _ | t
  · have heq : s' = s.setPage f page := hs'
    have hpf : s'.bpm.pool.pages f = page := by rw [heq, hself]
    refine ⟨hpf ▸ hpage, by rw [hpf]; rfl, [], ?_⟩
    exact
      { tuples := by rw [hpf, htuples]
        others := heq ▸ hothers
        log_eq := by
          rw [heq, List.append_nil]
          rfl
        length_eq := rfl
        records := fun _ he ↦ absurd he List.not_mem_nil
        writeSet := fun _ ht ↦ absurd ht (Option.not_mem_none _) }
  · have ht : (s.setPage f page).txnManager.txnMap t.txnId = some t := htxn t rfl
    have heq := hs'.trans (logRow_eq ht rid)
    let lsn := s.txnManager.logManager.nextLsn
    have hpf : s'.bpm.pool.pages f = setLSN page lsn := by
      rw [heq]
      exact (BufferPoolManager.setPage_pages_self ..).trans (congrArg (setLSN · lsn) hself)
    let entry : LogEntry := ⟨lsn, rowRecord t page rid tuple⟩
    refine ⟨hpf ▸ hpage.of_setLSN lsn, ?_, [entry], ?_⟩
    · rw [hpf, freeSpace_setLSN]
      rfl
    · exact
        { tuples := by rw [hpf, hpage.contents_setLSN, htuples]
          others := fun g hg ↦ by
            rw [heq]
            exact (BufferPoolManager.setPage_pages_of_ne _ _ _ hg).trans (hothers g hg)
          log_eq := by
            have happ := LogManager.appendLogRecord_appended s.txnManager.logManager
              (rowRecord t page rid tuple)
            rw [heq, hself]
            exact happ
          length_eq := rfl
          records := fun e he ↦ by
            rw [List.mem_singleton.mp he]
            exact ⟨t, rfl, rfl, rfl, rfl⟩
          writeSet := fun t' ht' ↦ by
            cases ht'
            rw [heq]
            exact Function.update_self .. }

/-- **The loop over a batch** stores as many rows as fit. -/
theorem insertRows_stored (hplain : Plain tuple.length) (rows : ℕ) (htxn : InContext txn s)
    (hl : Layout (s.bpm.pool.pages f)) :
    ∃ entries, Stored txn f tuple (min rows (fits (s.bpm.pool.pages f) tuple.length)) entries s
      (insertRows (txn.map Transaction.txnId) f tuple rows s) := by
  induction rows generalizing s txn with
  | zero =>
    rw [Nat.zero_min]
    exact ⟨[], Stored.refl htxn⟩
  | succ rows ih =>
    have hadmits := hl.admits_iff_fits rfl hplain
    by_cases hfit : fits (s.bpm.pool.pages f) tuple.length = 0
    · rw [insertRows_of_not_admits rows (fun ha ↦ hadmits.mp ha hfit), hfit, Nat.min_zero]
      exact ⟨[], Stored.refl htxn⟩
    · have ha := hadmits.mpr hfit
      have hr : Room (s.bpm.pool.pages f) tuple := by
        rw [hl.room_iff]
        rw [fits] at hfit
        exact Nat.le_of_not_lt fun hlt ↦ hfit (Nat.div_eq_of_lt hlt)
      let rid := nextRid (s.bpm.pool.pages f)
      let s₁ := logRow (txn.map Transaction.txnId)
        (s.setPage f ((inserted (s.bpm.pool.pages f) tuple).setDirty true)) f rid tuple
      obtain ⟨hl₁, hspace, entries, hone⟩ := row_stored htxn hl hr rid (rfl : s₁ = _)
      have hfits₁ : fits (s₁.bpm.pool.pages f) tuple.length =
          fits (s.bpm.pool.pages f) tuple.length - 1 := by
        rw [← hl.fits_inserted hr, fits, hspace, fits]
      obtain ⟨entries', hrest⟩ := ih hone.inContext hl₁
      have hid : (txn.map (·.registered entries)).map Transaction.txnId =
          txn.map Transaction.txnId := by
        rw [Option.map_map]
        rfl
      rw [hid, hfits₁] at hrest
      rw [insertRows_of_admits rows ha,
        show min (rows + 1) (fits (s.bpm.pool.pages f) tuple.length) =
          1 + min rows (fits (s.bpm.pool.pages f) tuple.length - 1) by omega]
      exact ⟨entries ++ entries', hone.trans hrest⟩

/-! ## `Next` -/

section

variable {e : InsertExecutor} {table : TableId} {info : TableInfo} {rows : ℕ} {child : List ℕ}
  {p : PageId} {s₁ : StingInstance}

variable (ht : e.tableInfo = some table) (hc : e.child = rows :: child)
  (hinfo : s.catalogManager.tables table = some info)
  (hplain : Plain info.schema.getTupleFixedLength) (htxn : e.txn = txn.map Transaction.txnId)
  (hctx : InContext txn s) (htarget : targetPage s table info.firstPageId = some (some f, p, s₁))
  (hpage : info.firstPageId ≠ invalidPageId → Layout (s₁.bpm.pool.pages f))

include ht hc hinfo hplain htxn hctx htarget hpage

/-- `Next` stores as many rows of the batch as fit. -/
theorem next_stored :
    ∃ s' entries, e.next s = some ({ e with child }, s') ∧
      s'.bpm.pool.pageTable.lookup p = some f ∧
      (s'.catalogManager.tables table).map TableInfo.firstPageId = some p ∧
      Stored txn f (List.replicate info.schema.getTupleFixedLength 0)
        (min rows (fits (s₁.bpm.pool.pages f) info.schema.getTupleFixedLength)) entries s₁ s' := by
  let tuple := List.replicate info.schema.getTupleFixedLength (0 : UInt8)
  have hlen : tuple.length = info.schema.getTupleFixedLength := List.length_replicate
  obtain ⟨hm, hl, hfirst, hnew⟩ := targetPage_found hinfo htarget
  have hlayout : Layout (s₁.bpm.pool.pages f) := by
    by_cases hid : info.firstPageId = invalidPageId
    · obtain ⟨page, hinit⟩ := hnew hid
      rw [hinit]
      exact init_layout page
    · exact hpage hid
  have hctx₁ : InContext txn s₁ := by
    rw [InContext, hm]
    exact hctx
  obtain ⟨entries, h⟩ := insertRows_stored (hlen ▸ hplain) rows hctx₁ hlayout
  rw [hlen] at h
  let s₂ := insertRows (txn.map Transaction.txnId) f tuple rows s₁
  have hextends : Extends s₁ s₂ := insertRows_extends s₁ rows
  have hl₂ : s₂.bpm.pool.pageTable.lookup p = some f := by rw [hextends.pageTable, hl]
  have hunpin := Store.unpinPage_of_resident hl₂ true
  refine ⟨{ s₂ with bpm := (s₂.bpm.unpinPage p true).2 }, entries, ?_, ?_, ?_, ?_⟩
  · rw [next_of_found ht hc hinfo htarget, htxn]
  · rw [hunpin]
    exact (congrArg (AList.lookup p) (BufferPoolManager.unpin_pageTable ..)).trans hl₂
  · rw [hextends.catalogManager]
    exact hfirst
  · exact h.unpin hl₂ true

/-- **What a batch insert stores.**  Given the page, `Next` stores as many rows as fit on it, and
logs just these; so it is all or nothing exactly if all rows fit or none does. -/
theorem next_stored_iff :
    s₁.txnManager = s.txnManager ∧ ∃ s' entries, e.next s = some ({ e with child }, s') ∧
      s'.bpm.pool.pageTable.lookup p = some f ∧
      (s'.catalogManager.tables table).map TableInfo.firstPageId = some p ∧
      Stored txn f (List.replicate info.schema.getTupleFixedLength 0)
        (min rows (fits (s₁.bpm.pool.pages f) info.schema.getTupleFixedLength)) entries s₁ s' ∧
      (AllOrNothing txn f (List.replicate info.schema.getTupleFixedLength 0) rows s₁ s' ↔
        rows ≤ fits (s₁.bpm.pool.pages f) info.schema.getTupleFixedLength ∨
          fits (s₁.bpm.pool.pages f) info.schema.getTupleFixedLength = 0) := by
  obtain ⟨s', entries, hnext, hl, hfirst, h⟩ :=
    next_stored ht hc hinfo hplain htxn hctx htarget hpage
  refine ⟨(targetPage_found hinfo htarget).1, s', entries, hnext, hl, hfirst, h, ?_, ?_⟩
  · rintro (⟨_, hall⟩ | ⟨_, hnone⟩)
    · exact Or.inl (min_eq_left_iff.mp (h.eq_of_stored hall))
    · have hzero := h.eq_of_stored hnone
      omega
  · rintro (hle | hzero)
    · exact Or.inl ⟨entries, min_eq_left hle ▸ h⟩
    · rw [hzero, Nat.min_zero] at h
      exact Or.inr ⟨entries, h⟩

end

/-- An instance with one table of one column, which has no page, and a transaction. -/
def varcharTable : StingInstance :=
  (StingInstance.begin
    { StingInstance.start 1 fun _ ↦ none with
      catalogManager :=
        { nextTableId := 1
          tables := Function.update (fun _ ↦ none) 0
            (some ⟨0, "t", .create [.create "name" .varchar], invalidPageId⟩)
          tableNames := Function.update (fun _ ↦ none) "t" (some 0) } } .snapshotIsolation).2

/-- The transaction. -/
def firstTxn : Transaction := ((TransactionManager.begin {} .snapshotIsolation).1)

/-- An insert of so many rows into the table. -/
def rowsInto (rows : ℕ) : InsertExecutor :=
  { txn := some firstTxn.txnId, child := [rows], tableName := "t", tableInfo := some 0 }

/-- The instance when the table has got its page. -/
def varcharPage : StingInstance :=
  { varcharTable with
    bpm := varcharTable.bpm.newPage.2
    catalogManager := varcharTable.catalogManager.updateFirstPageId 0 0 }.setPage 0
      (SlottedPage.init (varcharTable.bpm.newPage.2.pool.pages 0))

theorem tableInfo_rowsInto (rows : ℕ) : (rowsInto rows).tableInfo = some 0 := rfl

theorem tables_varchar : varcharTable.catalogManager.tables 0 =
    some ⟨0, "t", .create [.create "name" .varchar], invalidPageId⟩ := rfl

theorem targetPage_varchar :
    targetPage varcharTable 0 invalidPageId = some (some 0, 0, varcharPage) := rfl

theorem inContext_varchar : InContext (some firstTxn) varcharTable := by
  rintro _ ⟨⟩
  rfl

theorem fits_varchar : fits (varcharPage.bpm.pool.pages 0) 255 = 31 := by
  have hpage : varcharPage.bpm.pool.pages 0 =
      SlottedPage.init (varcharTable.bpm.newPage.2.pool.pages 0) :=
    BufferPoolManager.setPage_pages_self ..
  rw [hpage, fits_init]
  decide

/-- All of 20 rows are stored. -/
theorem next_stored_iff_twenty :
    ∃ s' entries, (rowsInto 20).next varcharTable = some ({ rowsInto 20 with child := [] }, s') ∧
      Stored (some firstTxn) 0 (.replicate 255 0) 20 entries varcharPage s' ∧
      AllOrNothing (some firstTxn) 0 (.replicate 255 0) 20 varcharPage s' := by
  obtain ⟨-, s', entries, hnext, -, -, h, hiff⟩ := next_stored_iff (tableInfo_rowsInto 20) rfl
    tables_varchar (by decide) rfl inContext_varchar targetPage_varchar fun hne ↦ absurd rfl hne
  have hlen : (Schema.create [.create "name" .varchar]).getTupleFixedLength = 255 := rfl
  rw [hlen, fits_varchar] at h hiff
  exact ⟨s', entries, hnext, h, hiff.mpr (Or.inl (by decide))⟩

/-- Of 32 rows 31 are stored, and nobody is told. -/
theorem not_allOrNothing :
    ∃ s' entries, (rowsInto 32).next varcharTable = some ({ rowsInto 32 with child := [] }, s') ∧
      Stored (some firstTxn) 0 (.replicate 255 0) 31 entries varcharPage s' ∧
      ¬ AllOrNothing (some firstTxn) 0 (.replicate 255 0) 32 varcharPage s' := by
  obtain ⟨s', entries, hnext, -, -, h⟩ := next_stored (tableInfo_rowsInto 32) rfl
    tables_varchar (by decide) rfl inContext_varchar targetPage_varchar fun hne ↦ absurd rfl hne
  have hlen : (Schema.create [.create "name" .varchar]).getTupleFixedLength = 255 := rfl
  rw [hlen, fits_varchar] at h
  refine ⟨s', entries, hnext, h, ?_⟩
  rintro (⟨_, hall⟩ | ⟨_, hnone⟩)
  · exact absurd (h.eq_of_stored hall) (by decide)
  · exact absurd (h.eq_of_stored hnone) (by decide)

end InsertExecutor

end StingDB
