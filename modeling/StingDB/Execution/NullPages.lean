import StingDB.Execution.TablePage
import StingDB.Storage.BufferPool.FreshIds

/-!
# Inserts without a page

`NewPage` and `FetchPage` return a null pointer when every frame is pinned.  A scan looks at what it
gets before it goes on; an insert does not.  `pageCalls` lists what `InsertExecutor::Next` does with
the pointer, and `clean_iff` says that none of it is done to a null pointer exactly if the pool can
supply the page (`Store.Supplies`).  Where it cannot, the call is the end of the program, but for
empty batches and rows that are too large for any page; these change nothing
(`next_of_not_supplies`).
-/

set_option autoImplicit false

namespace StingDB

open SlottedPage

namespace Store

variable {s : Store} {p : PageId}

/-- There is a frame for the page: its own or another one. -/
def Supplies (s : Store) (p : PageId) : Prop :=
  (p ≠ invalidPageId ∧ (s.pool.pageTable.lookup p).isSome) ∨ s.pool.freeList ≠ [] ∨
    s.pool.lruReplacer ≠ []

theorem acquireFrame_isSome_iff :
    s.acquireFrame.isSome ↔ s.pool.freeList ≠ [] ∨ s.pool.lruReplacer ≠ [] := by
  rw [Option.isSome_iff_ne_none, Ne, acquireFrame_eq_none, not_and_or]

theorem newPage_isSome_iff : s.newPage.1.isSome ↔ s.Supplies invalidPageId := by
  rw [Supplies, ← acquireFrame_isSome_iff, newPage]
  cases s.acquireFrame <;> simp

theorem fetchPage_isSome_iff (hp : p ≠ invalidPageId) :
    (s.fetchPage p).1.isSome ↔ s.Supplies p := by
  rw [Supplies, ← acquireFrame_isSome_iff, fetchPage]
  cases s.pool.pageTable.lookup p with
  | some f => simp [hp]
  | none => cases s.acquireFrame <;> simp

/-- A page that is not supplied leaves the pool as it was. -/
theorem fetchPage_of_not_supplies (hp : p ≠ invalidPageId) (h : ¬ s.Supplies p) :
    s.fetchPage p = (none, s) := by
  rw [← fetchPage_isSome_iff hp, Option.not_isSome_iff_eq_none] at h
  rcases hfetch : s.fetchPage p with ⟨o, s'⟩
  rw [hfetch] at h
  obtain ⟨f, -, ho, -⟩ | ⟨-, -, ho, hs⟩ | ⟨-, f, s₁, -, ho, -⟩ := fetchPage_cases hfetch
  · exact absurd (ho.symm.trans h) (by simp)
  · rw [ho, hs]
  · exact absurd (ho.symm.trans h) (by simp)

end Store

/-! ## What is done with the pointer -/

/-- The calls of `Next` on a `Page*`, which may be null. -/
inductive PageCall where
  /-- `new_slotted.Init()` -/
  | init (rawPage : Option ℕ)
  /-- `target_page.InsertTuple(serialized_tuple, &inserted_rid)` -/
  | insertTuple (rawPage : Option ℕ)
  /-- `bpm->UnpinPage(page_id, true)`, which is for the page that `raw_page` points to. -/
  | unpinPage (rawPage : Option ℕ)

/-- The pointer. -/
def PageCall.rawPage : PageCall → Option ℕ
  | .init rawPage | .insertTuple rawPage | .unpinPage rawPage => rawPage

namespace InsertExecutor

/-- The calls of the loop over the rows of a batch. -/
def rowCalls (txn : Option TxnId) (frameId : ℕ) (tuple : List UInt8) :
    ℕ → StingInstance → List PageCall
  | 0, _ => []
  | rows + 1, s =>
    .insertTuple (some frameId) ::
      match SlottedPage.insertTuple (s.bpm.pool.pages frameId) tuple {} with
      | (true, rid, page) =>
        rowCalls txn frameId tuple rows (logRow txn (s.setPage frameId page) frameId rid tuple)
      | (false, _, _) => []

/-- The same on a `raw_page` that may be null, where the first call is the last. -/
def batchCalls (txn : Option TxnId) (rawPage : Option ℕ) (tuple : List UInt8) (rows : ℕ)
    (s : StingInstance) : List PageCall :=
  match rawPage with
  | some frameId => rowCalls txn frameId tuple rows s
  | none => if rows = 0 then [] else [.insertTuple none]

/-- The call of a table that has no page yet. -/
def initCalls (s : StingInstance) (pageId : PageId) : List PageCall :=
  if pageId = invalidPageId then [.init (s.bpm.newPage.1.map Prod.snd)] else []

/-- What `Next` does with the pointers to pages that it gets. -/
def pageCalls (e : InsertExecutor) (s : StingInstance) : List PageCall :=
  match e.tableInfo, e.child with
  | some table, rows :: _ =>
    (s.catalogManager.tables table).elim [] fun info ↦
      initCalls s info.firstPageId ++
        (targetPage s table info.firstPageId).elim [] fun (rawPage, _, s) ↦
          let serializedTuple := List.replicate info.schema.getTupleFixedLength (0 : UInt8)
          batchCalls e.txn rawPage serializedTuple rows s ++
            (insertBatch e.txn rawPage serializedTuple rows s).elim [] fun _ ↦ [.unpinPage rawPage]
  | _, _ => []

/-- Nothing has been stored, and the table, the log and the transactions are the same. -/
structure Kept (s s' : StingInstance) : Prop where
  pages : s'.bpm.pool.pages = s.bpm.pool.pages
  file : s'.bpm.disk.file = s.bpm.disk.file
  catalogManager : s'.catalogManager = s.catalogManager
  txnManager : s'.txnManager = s.txnManager

/-- `Next` has a batch of so many rows for a table. -/
def HasBatch (e : InsertExecutor) (s : StingInstance) (info : TableInfo) (rows : ℕ) : Prop :=
  ∃ table child, e.tableInfo = some table ∧ e.child = rows :: child ∧
    s.catalogManager.tables table = some info

/-- `Next` leaves null pointers alone; and where there is no page to be had, everything. -/
structure Clean (e : InsertExecutor) (s : StingInstance) : Prop where
  calls : ∀ c ∈ e.pageCalls s, c.rawPage ≠ none
  kept : ∀ info rows, e.HasBatch s info rows → ¬ s.bpm.Supplies info.firstPageId →
    ∃ e' s', e.next s = some (e', s') ∧ Kept s s'

/-! ## When the pool can supply the page -/

variable {e : InsertExecutor} {s : StingInstance} {info : TableInfo} {table : TableId} {p : PageId}
  {rows : ℕ}

theorem rowCalls_rawPage {txn : Option TxnId} {f : ℕ} {tuple : List UInt8} {c : PageCall}
    (hc : c ∈ rowCalls txn f tuple rows s) : c.rawPage = some f := by
  induction rows generalizing s with
  | zero => exact absurd hc List.not_mem_nil
  | succ rows ih =>
    rw [rowCalls] at hc
    rcases List.mem_cons.mp hc with rfl | hc
    · rfl
    · split at hc
      · exact ih hc
      · exact absurd hc List.not_mem_nil

variable (table) in
theorem targetPage_of_supplies (h : s.bpm.Supplies p) :
    ∃ f q s₁, targetPage s table p = some (some f, q, s₁) ∧
      ∀ c ∈ initCalls s p, c.rawPage = some f := by
  rw [targetPage, initCalls]
  by_cases hp : p = invalidPageId
  · rw [if_pos hp, if_pos hp]
    rcases hnew : s.bpm.newPage with ⟨_ | ⟨q, f⟩, bpm⟩
    · have hsome := Store.newPage_isSome_iff.mpr (hp ▸ h)
      rw [hnew] at hsome
      cases hsome
    · refine ⟨f, q, _, rfl, fun c hc ↦ ?_⟩
      rw [List.mem_singleton.mp hc]
      rfl
  · rw [if_neg hp, if_neg hp]
    obtain ⟨f, hf⟩ := Option.isSome_iff_exists.mp ((Store.fetchPage_isSome_iff hp).mpr h)
    exact ⟨f, p, _, by rw [← hf], fun c hc ↦ absurd hc List.not_mem_nil⟩

variable (table) in
/-- What happens otherwise. -/
theorem targetPage_of_not_supplies (h : ¬ s.bpm.Supplies p) :
    (p = invalidPageId ∧ targetPage s table p = none ∧ initCalls s p = [.init none]) ∨
      (p ≠ invalidPageId ∧ targetPage s table p = some (none, p, s)) := by
  rw [targetPage, initCalls]
  by_cases hp : p = invalidPageId
  · have hnone : s.bpm.newPage.1 = none := by
      rw [← Option.not_isSome_iff_eq_none, Store.newPage_isSome_iff, ← hp]
      exact h
    rw [if_pos hp, if_pos hp, hnone]
    refine Or.inl ⟨hp, ?_, rfl⟩
    split
    · rfl
    · rename_i hnew
      rw [hnew] at hnone
      cases hnone
  · rw [if_neg hp, Store.fetchPage_of_not_supplies hp h]
    exact Or.inr ⟨hp, rfl⟩

theorem pageCalls_of_no_batch (h : ∀ info rows, ¬ e.HasBatch s info rows) :
    e.pageCalls s = [] := by
  rw [pageCalls]
  split
  · rename_i table rows child ht hc
    rcases hinfo : s.catalogManager.tables table with _ | info
    · rfl
    · exact absurd ⟨table, child, ht, hc, hinfo⟩ (h info rows)
  · rfl

theorem pageCalls_of_supplies (hb : e.HasBatch s info rows) (h : s.bpm.Supplies info.firstPageId)
    {c : PageCall} (hc : c ∈ e.pageCalls s) : c.rawPage ≠ none := by
  obtain ⟨table, child, ht, hchild, hinfo⟩ := hb
  obtain ⟨f, q, s₁, htarget, hinit⟩ := targetPage_of_supplies table h
  rw [pageCalls, ht, hchild] at hc
  simp only [hinfo, htarget, Option.elim_some, batchCalls, insertBatch] at hc
  have hf : c.rawPage = some f := by
    rcases List.mem_append.mp hc with hc | hc
    · exact hinit c hc
    · rcases List.mem_append.mp hc with hc | hc
      · exact rowCalls_rawPage hc
      · rw [List.mem_singleton.mp hc]
        rfl
  rw [hf]
  exact Option.some_ne_none f

/-- Without a page, something is done to a null pointer. -/
theorem pageCalls_of_not_supplies (hb : e.HasBatch s info rows)
    (h : ¬ s.bpm.Supplies info.firstPageId) : ∃ c ∈ e.pageCalls s, c.rawPage = none := by
  obtain ⟨table, child, ht, hchild, hinfo⟩ := hb
  rw [pageCalls, ht, hchild]
  simp only [hinfo, Option.elim_some]
  obtain ⟨-, -, hinit⟩ | ⟨-, htarget⟩ := targetPage_of_not_supplies table h
  · rw [hinit]
    exact ⟨.init none, List.mem_append_left _ (List.mem_singleton_self _), rfl⟩
  · rw [htarget, Option.elim_some, batchCalls, insertBatch]
    by_cases hrows : rows = 0
    · refine ⟨.unpinPage none, List.mem_append_right _ (List.mem_append_right _ ?_), rfl⟩
      rw [if_pos (Or.inl hrows)]
      exact List.mem_singleton_self _
    · refine ⟨.insertTuple none, List.mem_append_right _ (List.mem_append_left _ ?_), rfl⟩
      rw [if_neg hrows]
      exact List.mem_singleton_self _

/-- **Inserts into an exhausted pool.**  `Next` fails cleanly exactly if it does not come to that:
there is no batch to insert, or the pool can supply the page.  (The bytes that a row may have behind
its page, `SlottedPage.insertTuple`, are no matter here: a page that was found is not null.) -/
theorem clean_iff (e : InsertExecutor) (s : StingInstance) :
    e.Clean s ↔ ∀ info rows, e.HasBatch s info rows → s.bpm.Supplies info.firstPageId := by
  constructor
  · intro hclean info rows hb
    by_contra h
    obtain ⟨c, hc, hnull⟩ := pageCalls_of_not_supplies hb h
    exact hclean.calls c hc hnull
  · intro hall
    refine ⟨fun c hc ↦ ?_, fun info rows hb h ↦ absurd (hall info rows hb) h⟩
    by_cases hb : ∃ info rows, e.HasBatch s info rows
    · obtain ⟨info, rows, hb⟩ := hb
      exact pageCalls_of_supplies hb (hall info rows hb) hc
    · rw [pageCalls_of_no_batch fun info rows h ↦ hb ⟨info, rows, h⟩] at hc
      exact absurd hc List.not_mem_nil

/-- What becomes of the program where the pool cannot: it is at its end, unless the batch is empty
or its rows are too large for any page; and then nothing has changed. -/
theorem next_of_not_supplies (hb : e.HasBatch s info rows) (h : ¬ s.bpm.Supplies info.firstPageId) :
    (e.next s = none ↔ info.firstPageId = invalidPageId ∨
        rows ≠ 0 ∧ info.schema.getTupleFixedLength ≤ 65535) ∧
      ∀ e' s', e.next s = some (e', s') → s' = s := by
  obtain ⟨table, child, ht, hchild, hinfo⟩ := hb
  rw [next, ht, hchild]
  simp only [hinfo, Option.bind_eq_bind, Option.bind_some]
  obtain ⟨hid, htarget, -⟩ | ⟨hid, htarget⟩ := targetPage_of_not_supplies table h
  · rw [htarget]
    exact ⟨iff_of_true rfl (Or.inl hid), by rintro _ _ ⟨⟩⟩
  · have hunpin : (s.bpm.unpinPage info.firstPageId true).2 = s.bpm := by
      rw [Store.unpinPage]
      split
      · rfl
      · rename_i f hl
        exact absurd (Or.inl ⟨hid, Option.isSome_iff_exists.mpr ⟨f, hl⟩⟩) h
    rw [htarget, Option.bind_some, insertBatch, List.length_replicate]
    by_cases hsurvives : rows = 0 ∨ 65535 < info.schema.getTupleFixedLength
    · rw [if_pos hsurvives, Option.bind_some, hunpin]
      refine ⟨iff_of_false (by simp) ?_, ?_⟩
      · rintro (hinvalid | ⟨hrows, hlen⟩)
        · exact hid hinvalid
        · rcases hsurvives with hzero | hlarge
          · exact hrows hzero
          · omega
      · rintro _ _ ⟨⟩
        rfl
    · rw [if_neg hsurvives]
      rw [not_or, not_lt] at hsurvives
      exact ⟨iff_of_true rfl (Or.inr hsurvives), by rintro _ _ ⟨⟩⟩

/-- An instance with this pool and one table, which has this page. -/
def oneTable (bpm : Store) (firstPageId : PageId) : StingInstance where
  bpm := bpm
  catalogManager :=
    { nextTableId := 1
      tables := Function.update (fun _ ↦ none) 0
        (some ⟨0, "t", .create [.create "id" .integer], firstPageId⟩)
      tableNames := Function.update (fun _ ↦ none) "t" (some 0) }

/-- An insert of one row into the table. -/
def oneInsert : InsertExecutor :=
  { txn := none, child := [1], tableName := "t", tableInfo := some 0 }

/-- While a client has the one page of a pool, an insert initialises a null page if its table has
none yet, and inserts a row into a null page if the table has another. -/
theorem not_clean :
    ∃ os bpm, Machine.run Store.step (Store.opened 1 fun _ ↦ none) [.newPage] = some (os, bpm) ∧
      (oneInsert.pageCalls (oneTable bpm invalidPageId) = [.init none] ∧
        oneInsert.next (oneTable bpm invalidPageId) = none ∧
        ¬ oneInsert.Clean (oneTable bpm invalidPageId)) ∧
      (oneInsert.pageCalls (oneTable bpm 7) = [.insertTuple none] ∧
        oneInsert.next (oneTable bpm 7) = none ∧ ¬ oneInsert.Clean (oneTable bpm 7)) := by
  refine ⟨_, _, rfl, ⟨rfl, rfl, fun h ↦ ?_⟩, rfl, rfl, fun h ↦ ?_⟩
  · exact h.calls (.init none) (List.mem_singleton_self _) rfl
  · exact h.calls (.insertTuple none) (List.mem_singleton_self _) rfl

end InsertExecutor

end StingDB
