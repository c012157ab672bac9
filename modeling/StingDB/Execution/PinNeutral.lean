import StingDB.Execution.NullPages
import StingDB.Storage.BufferPool.Pins

/-!
# The pins of the executors

Each call of `InsertExecutor::Next` and `SeqScanExecutor::Next` pins one page and releases it before
it returns, on every path; so it leaves the pin counts as it found them, whatever pins others have
(`Store.PinNeutral`), and no frame stays pinned by a statement (`Store.Released`).

There is one case where it does not: a first page is allocated, and the id that `NewPage` returns is
that of a page which somebody has pinned.  The page of that id is then the new one, which nobody has
pinned (`Collides`).

And there is one that is left out.  Behind the bytes of a page are its pin count and the frames that
follow, so a row that is copied past the end of its page (`Overruns`) overwrites the pins of others,
and nothing can be said of the instance from there on.  On a page with the slotted layout only rows
of 65532 to 65535 bytes do that (`overruns_iff`).

The pool may be any that clients can reach, with unmatched calls of `UnpinPage` as well.
-/

set_option autoImplicit false

namespace StingDB

open Machine

/-! ## Rows that do not stay on their page -/

namespace InsertExecutor

open SlottedPage

variable {e : InsertExecutor} {s : StingInstance} {txn : Option TxnId} {tuple : List UInt8}
  {rows f : ℕ}

/-- What the `InsertTuple`s of the loop over a batch write. -/
def rowStores (txn : Option TxnId) (frameId : ℕ) (tuple : List UInt8) :
    ℕ → StingInstance → List Memcpy
  | 0, _ => []
  | rows + 1, s =>
    writes (s.bpm.pool.pages frameId) (.insertTuple tuple) ++
      match SlottedPage.insertTuple (s.bpm.pool.pages frameId) tuple {} with
      | (true, rid, page) =>
        rowStores txn frameId tuple rows (logRow txn (s.setPage frameId page) frameId rid tuple)
      | (false, _, _) => []

/-- What those of `Next` write. -/
def stores (e : InsertExecutor) (s : StingInstance) : List Memcpy :=
  match e.tableInfo, e.child with
  | some table, rows :: _ =>
    (s.catalogManager.tables table).elim [] fun info ↦
      (targetPage s table info.firstPageId).elim [] fun (rawPage, _, s) ↦
        rawPage.elim [] fun frameId ↦
          rowStores e.txn frameId (List.replicate info.schema.getTupleFixedLength 0) rows s
  | _, _ => []

/-- Something is written past the end of the page. -/
def Overruns (e : InsertExecutor) (s : StingInstance) : Prop :=
  ∃ w ∈ e.stores s, pageSize < w.stop

instance (e : InsertExecutor) (s : StingInstance) : Decidable (e.Overruns s) :=
  inferInstanceAs (Decidable (∃ w ∈ e.stores s, pageSize < w.stop))

theorem rowStores_of_admits (rows : ℕ) (ha : Admits (s.bpm.pool.pages f) tuple) :
    rowStores txn f tuple (rows + 1) s =
      writes (s.bpm.pool.pages f) (.insertTuple tuple) ++
        rowStores txn f tuple rows
          (logRow txn (s.setPage f ((inserted (s.bpm.pool.pages f) tuple).setDirty true)) f
            (nextRid (s.bpm.pool.pages f)) tuple) := by
  rw [rowStores, insertTuple, if_pos ha]
  rfl

theorem rowStores_of_not_admits (rows : ℕ) (ha : ¬ Admits (s.bpm.pool.pages f) tuple) :
    rowStores txn f tuple (rows + 1) s = [] := by
  rw [rowStores, insertTuple, if_neg ha, writes, if_neg ha, List.append_nil]

theorem logRow_layout (txn : Option TxnId) (rid : RID) (tuple : List UInt8)
    (hl : Layout (s.bpm.pool.pages f)) : Layout ((logRow txn s f rid tuple).bpm.pool.pages f) := by
  rw [logRow]
  split
  · exact hl
  · simpa [StingInstance.setPage] using hl.of_setLSN _

/-- Rows of other sizes stay on their page. -/
theorem rowStores_inside (hno : tuple.length + slotSize < 2 ^ 16 ∨ 2 ^ 16 ≤ tuple.length)
    (hl : Layout (s.bpm.pool.pages f)) :
    ∀ w ∈ rowStores txn f tuple rows s, w.stop ≤ pageSize := by
  induction rows generalizing s with
  | zero => exact fun w hw ↦ absurd hw List.not_mem_nil
  | succ rows ih =>
    have hsafe : SafeCall (s.bpm.pool.pages f) (.insertTuple tuple) :=
      (hl.safeCall_iff_noWrap _).mpr (hno.imp_right Or.inl)
    by_cases ha : Admits (s.bpm.pool.pages f) tuple
    · have hnext : SlottedPage.next (s.bpm.pool.pages f) (.insertTuple tuple) =
          (inserted (s.bpm.pool.pages f) tuple).setDirty true := by
        rw [SlottedPage.next, insertTuple, if_pos ha, inserted]
      have hlayout := hsafe.layout
      rw [hnext] at hlayout
      rw [rowStores_of_admits rows ha]
      refine List.forall_mem_append.mpr ⟨hsafe.inside, ih (logRow_layout txn _ tuple ?_)⟩
      simpa [StingInstance.setPage] using hlayout
    · rw [rowStores_of_not_admits rows ha]
      exact fun w hw ↦ absurd hw List.not_mem_nil

/-- **Which batches overrun a page with the slotted layout**: those of rows of 65532 to 65535 bytes,
if the page admits the first of them. -/
theorem overruns_iff {info : TableInfo} {table : TableId} {child : List ℕ} {p : PageId}
    {s₁ : StingInstance} (ht : e.tableInfo = some table) (hc : e.child = rows :: child)
    (hinfo : s.catalogManager.tables table = some info)
    (htarget : targetPage s table info.firstPageId = some (some f, p, s₁))
    (hl : Layout (s₁.bpm.pool.pages f)) :
    e.Overruns s ↔ rows ≠ 0 ∧
      2 ^ 16 ≤ info.schema.getTupleFixedLength + slotSize ∧
      info.schema.getTupleFixedLength < 2 ^ 16 ∧
      Admits (s₁.bpm.pool.pages f) (List.replicate info.schema.getTupleFixedLength 0) := by
  let tuple := List.replicate info.schema.getTupleFixedLength (0 : UInt8)
  have hlen : tuple.length = info.schema.getTupleFixedLength := List.length_replicate
  have hstores : e.stores s = rowStores e.txn f tuple rows s₁ := by
    rw [stores, ht, hc]
    simp only [hinfo, htarget, Option.elim_some, tuple]
  rw [Overruns, hstores]
  constructor
  · rintro ⟨w, hw, hout⟩
    have hrows : rows ≠ 0 := by
      rintro rfl
      exact absurd hw List.not_mem_nil
    obtain ⟨n, rfl⟩ := Nat.exists_eq_succ_of_ne_zero hrows
    have hadmits : Admits (s₁.bpm.pool.pages f) tuple := by
      by_contra ha
      rw [rowStores_of_not_admits n ha] at hw
      exact absurd hw List.not_mem_nil
    by_contra hnot
    have hno : tuple.length + slotSize < 2 ^ 16 ∨ 2 ^ 16 ≤ tuple.length := by
      by_contra hwrap
      rw [not_or, not_lt, not_le, hlen] at hwrap
      exact hnot ⟨hrows, hwrap.1, hwrap.2, hadmits⟩
    exact absurd hout (not_lt.mpr (rowStores_inside hno hl w hw))
  · rintro ⟨hrows, hlow, hhigh, hadmits⟩
    obtain ⟨n, rfl⟩ := Nat.exists_eq_succ_of_ne_zero hrows
    rw [← hlen] at hlow hhigh
    obtain ⟨w, hw, hout⟩ := hl.insert_escapes hlow hhigh
    rw [rowStores_of_admits n hadmits, writes, if_pos hadmits]
    exact ⟨w, List.mem_append_left _ hw, hout⟩

end InsertExecutor

/-! ## Inserts -/

namespace InsertExecutor

open Store SlottedPage

variable {e e' : InsertExecutor} {s s' s₁ : StingInstance} {info : TableInfo} {table : TableId}
  {rows f : ℕ} {p q : PageId}

/-- The loop over a batch changes bytes and dirty flags. -/
theorem insertRows_samePins (txn : Option TxnId) (f : ℕ) (tuple : List UInt8) (rows : ℕ)
    (s : StingInstance) : SamePins s.bpm (insertRows txn f tuple rows s).bpm := by
  refine insertRows_induction (P := fun t ↦ SamePins s.bpm t.bpm) rows (.refl _) fun t rid h ↦ ?_
  have hset : SamePins t.bpm
      (t.setPage f ((inserted (t.bpm.pool.pages f) tuple).setDirty true)).bpm :=
    .setPage ((inserted (t.bpm.pool.pages f) tuple).setDirty true) rfl rfl _
  refine h.trans (hset.trans ?_)
  rw [logRow]
  split
  · exact .refl _
  · exact .setPage (setLSN _ _) rfl rfl _

/-- A batch for a table without a page, where the id that `NewPage` returns is that of a resident
page which has pins. -/
def Collides (e : InsertExecutor) (s : StingInstance) : Prop :=
  ∃ info rows, e.HasBatch s info rows ∧ info.firstPageId = invalidPageId ∧
    s.bpm.pinCount s.bpm.disk.nextPageId ≠ 0

theorem collides_iff (hb : e.HasBatch s info rows) :
    e.Collides s ↔ info.firstPageId = invalidPageId ∧
      s.bpm.pinCount s.bpm.disk.nextPageId ≠ 0 := by
  constructor
  · rintro ⟨info', rows', ⟨table', child', ht', -, hinfo'⟩, hid, hne⟩
    obtain ⟨table, child, ht, -, hinfo⟩ := hb
    cases ht.symm.trans ht'
    cases hinfo.symm.trans hinfo'
    exact ⟨hid, hne⟩
  · exact fun h ↦ ⟨info, rows, hb, h⟩

/-- The page to insert into has one pin more, which it had not before if it is new. -/
theorem targetPage_takesPin (h : s.bpm.Settled)
    (htarget : targetPage s table p = some (some f, q, s₁)) :
    s₁.bpm.Settled ∧ ∃ c, TakesPin q f c s.bpm s₁.bpm ∧
      (s.bpm.pinCount q = c ↔ (p = invalidPageId → s.bpm.pinCount s.bpm.disk.nextPageId = 0)) := by
  rw [targetPage] at htarget
  by_cases hp : p = invalidPageId
  · rw [if_pos hp] at htarget
    split at htarget
    · cases htarget
    · rename_i bpm hnew
      cases htarget
      obtain ⟨hq, hpin⟩ := h.newPage_takesPin hnew
      have hinit : SamePins bpm
          { bpm with pool := bpm.pool.setPage f (SlottedPage.init (bpm.pool.pages f)) } :=
        .setPage (SlottedPage.init (bpm.pool.pages f)) rfl rfl _
      have hbpm := h.newPage
      rw [hnew] at hbpm
      refine ⟨hbpm.of_samePins hinit, 0, hpin.of_samePins hinit, ?_⟩
      rw [hq]
      exact ⟨fun hzero _ ↦ hzero, fun hzero ↦ hzero hp⟩
  · rw [if_neg hp] at htarget
    rcases hfetch : s.bpm.fetchPage p with ⟨o, bpm⟩
    rw [hfetch] at htarget
    cases htarget
    have hbpm := h.fetchPage p
    rw [hfetch] at hbpm
    exact ⟨hbpm, s.bpm.pinCount p, h.fetchPage_takesPin hfetch,
      iff_of_true rfl fun hinvalid ↦ absurd hinvalid hp⟩

/-- The first page of the table is resident and dirty. -/
def LeavesDirty (e : InsertExecutor) (s : StingInstance) : Prop :=
  ∃ table p f, e.tableInfo = some table ∧
    (s.catalogManager.tables table).map TableInfo.firstPageId = some p ∧
    s.bpm.pool.pageTable.lookup p = some f ∧ (s.bpm.pool.pages f).isDirty = true

/-- **`Next` with a batch and a page for it.**  It returns, the page is dirty then, and the pins are
as before unless the page is new and its id is that of a page with pins. -/
theorem next_of_supplies (h : s.bpm.Settled) (hb : e.HasBatch s info rows)
    (hs : s.bpm.Supplies info.firstPageId) :
    ∃ e' s', e.next s = some (e', s') ∧ s'.bpm.Settled ∧ e.LeavesDirty s' ∧
      (PinNeutral s.bpm s'.bpm ↔ ¬ e.Collides s) ∧ Released s.bpm s'.bpm := by
  have hcollides := collides_iff hb
  obtain ⟨table, child, ht, hc, hinfo⟩ := hb
  obtain ⟨f, p, s₁, htarget, -⟩ := targetPage_of_supplies table hs
  obtain ⟨hsettled, c, hpin, hiff⟩ := targetPage_takesPin h htarget
  obtain ⟨-, hl, hfirst, -⟩ := targetPage_found hinfo htarget
  let tuple := List.replicate info.schema.getTupleFixedLength (0 : UInt8)
  let s₂ := insertRows e.txn f tuple rows s₁
  have hsame : SamePins s₁.bpm s₂.bpm := insertRows_samePins _ _ _ _ _
  have hpin₂ := hpin.of_samePins hsame
  refine ⟨_, _, next_of_found ht hc hinfo htarget, (hsettled.of_samePins hsame).unpinPage p true,
    ⟨table, p, f, ht, ?_, ?_, ?_⟩, ?_, (hpin₂.unpinPage true).2.2⟩
  · rw [(insertRows_extends s₁ rows).catalogManager]
    exact hfirst
  · rw [unpinPage_of_resident hpin₂.lookup, BufferPoolManager.unpin_pageTable]
    exact hpin₂.lookup
  · rw [unpinPage_of_resident hpin₂.lookup, BufferPoolManager.unpin_isDirty]
    simp
  · rw [hcollides, not_and_not_right, ← hiff]
    exact hpin₂.pinNeutral_iff true

/-- **`Next`**, on every path on which it returns. -/
theorem next_pins (h : s.bpm.Settled) (hn : e.next s = some (e', s')) :
    s'.bpm.Settled ∧ (PinNeutral s.bpm s'.bpm ↔ ¬ e.Collides s) ∧ Released s.bpm s'.bpm := by
  by_cases hb : ∃ info rows, e.HasBatch s info rows
  · obtain ⟨info, rows, hb⟩ := hb
    by_cases hs : s.bpm.Supplies info.firstPageId
    · obtain ⟨e₁, s₂, hnext, hsettled, -, hiff, hrel⟩ := next_of_supplies h hb hs
      cases hn.symm.trans hnext
      exact ⟨hsettled, hiff, hrel⟩
    · obtain ⟨hnone, hsame⟩ := next_of_not_supplies hb hs
      rw [hsame e' s' hn]
      refine ⟨h, iff_of_true (.refl _) fun hcollides ↦ ?_, .refl _⟩
      have hid := ((collides_iff hb).mp hcollides).1
      rw [hnone.mpr (Or.inl hid)] at hn
      cases hn
  · obtain ⟨-, -, rfl⟩ | ⟨table, rows, child, info, _, _, _, _, ht, hc, hinfo, -⟩ := next_eq_some hn
    · refine ⟨h, iff_of_true (.refl _) ?_, .refl _⟩
      exact fun ⟨info, rows, hbatch, _⟩ ↦ hb ⟨info, rows, hbatch⟩
    · exact absurd ⟨info, rows, table, child, ht, hc, hinfo⟩ hb

end InsertExecutor

/-! ## Scans -/

namespace SeqScanExecutor

/-- **`Next`**, on every path. -/
theorem next_pins {s : Store} (h : s.Settled) (e : SeqScanExecutor) :
    (e.next s).2.2.Settled ∧ s.PinNeutral (e.next s).2.2 ∧ s.Released (e.next s).2.2 := by
  rw [next]
  split
  · exact ⟨h, .refl s, .refl s⟩
  · have hfetched := h.fetchPage e.currentPageId
    rcases hfetch : s.fetchPage e.currentPageId with ⟨_ | f, s₁⟩
    · obtain ⟨f, -, ho, -⟩ | ⟨-, -, -, rfl⟩ | ⟨-, f, _, -, ho, -⟩ := Store.fetchPage_cases hfetch
      · cases ho
      · exact ⟨h, .refl _, .refl _⟩
      · cases ho
    · rw [hfetch] at hfetched
      have hpin := h.fetchPage_takesPin hfetch
      have hpins : (s₁.unpinPage e.currentPageId false).2.Settled ∧
          s.PinNeutral (s₁.unpinPage e.currentPageId false).2 ∧
          s.Released (s₁.unpinPage e.currentPageId false).2 :=
        ⟨hfetched.unpinPage _ _, (hpin.pinNeutral_iff false).mpr rfl, (hpin.unpinPage false).2.2⟩
      dsimp only
      split <;> exact hpins

end SeqScanExecutor

/-! ## Runs -/

/-- What happens to an instance. -/
inductive PinEvent where
  /-- Another client of the pool. -/
  | call (c : Store.Call)
  | insert (e : InsertExecutor)
  | scan (e : SeqScanExecutor)
  /-- Whatever else becomes of the catalog and the transactions. -/
  | others (catalogManager : CatalogManager) (txnManager : TransactionManager)

/-- The event is a call of an executor. -/
def PinEvent.IsExecutor : PinEvent → Prop
  | .insert _ | .scan _ => True
  | .call _ | .others _ _ => False

namespace StingInstance

variable {s s' : StingInstance}

/-- One event.  A row that is copied past its page ends the program. -/
def pinStep (s : StingInstance) : PinEvent → Option (Unit × StingInstance)
  | .call c => (Store.step s.bpm c).map fun r ↦ ((), { s with bpm := r.2 })
  | .insert e => if e.Overruns s then none else (e.next s).map fun r ↦ ((), r.2)
  | .scan e => some ((), { s with bpm := (e.next s.bpm).2.2 })
  | .others catalogManager txnManager => some ((), { s with catalogManager, txnManager })

theorem pinStep_insert {e : InsertExecutor} {o : Unit} (hs : s.pinStep (.insert e) = some (o, s')) :
    ∃ e', e.next s = some (e', s') := by
  rw [pinStep] at hs
  split at hs
  · cases hs
  · obtain ⟨⟨e', s''⟩, hnext, heq⟩ := Option.map_eq_some_iff.mp hs
    cases heq
    exact ⟨e', hnext⟩

theorem pinStep_settled (h : s.bpm.Settled) {ev : PinEvent} {o : Unit}
    (hs : s.pinStep ev = some (o, s')) : s'.bpm.Settled := by
  cases ev with
  | call c =>
    obtain ⟨⟨_, bpm⟩, hstep, heq⟩ := Option.map_eq_some_iff.mp hs
    cases heq
    exact h.step hstep
  | insert e =>
    obtain ⟨e', hnext⟩ := pinStep_insert hs
    exact (InsertExecutor.next_pins h hnext).1
  | scan e =>
    cases hs
    exact (SeqScanExecutor.next_pins h e).1
  | others catalogManager txnManager =>
    cases hs
    exact h

theorem settled_of_run {poolSize : ℕ} {file : PageId → Option PageData} {evs : List PinEvent}
    {os : List Unit} (hr : run pinStep (start poolSize file) evs = some (os, s)) :
    s.bpm.Settled :=
  run_invariant (I := fun s ↦ s.bpm.Settled) (P := fun _ _ ↦ True)
    (fun _ _ _ _ h _ hs ↦ pinStep_settled h hs) (Store.settled_opened poolSize file) along_true hr

/-- However many statements are executed, no frame stays pinned by them. -/
theorem released_of_run {evs : List PinEvent} {os : List Unit} (h : s.bpm.Settled)
    (hevs : ∀ ev ∈ evs, ev.IsExecutor) (hr : run pinStep s evs = some (os, s')) :
    s.bpm.Released s'.bpm := by
  refine (run_invariant (I := fun t ↦ t.bpm.Settled ∧ s.bpm.Released t.bpm)
    (P := fun _ ev ↦ ev.IsExecutor) ?_ ⟨h, .refl _⟩
    (along_of_forall fun ev hev _ ↦ hevs ev hev) hr).2
  rintro t ev o t' ⟨ht, hrel⟩ hev hs
  refine ⟨pinStep_settled ht hs, hrel.trans ?_⟩
  cases ev with
  | call c => exact hev.elim
  | insert e =>
    obtain ⟨e', hnext⟩ := pinStep_insert hs
    exact (InsertExecutor.next_pins ht hnext).2.2
  | scan e =>
    cases hs
    exact (SeqScanExecutor.next_pins ht e).2.2
  | others catalogManager txnManager => exact hev.elim

/-- **Pin-neutral executors, and when.**  In every state that the clients of a pool and the
executors can reach: a scan leaves all pins as they were; an insert none of whose rows is copied
past its page does so, on every path, exactly if it does not allocate a page whose id is that of a
resident page with pins, and the page it inserted into is dirty then; and however many calls of
executors follow, each frame has the pins it had, or none. -/
theorem executors_pinNeutral {poolSize : ℕ} {file : PageId → Option PageData}
    {evs : List PinEvent} {os : List Unit}
    (hr : run pinStep (start poolSize file) evs = some (os, s)) :
    (∀ e : SeqScanExecutor, s.bpm.PinNeutral (e.next s.bpm).2.2) ∧
      (∀ (e : InsertExecutor) e' s', ¬ e.Overruns s → e.next s = some (e', s') →
        (s.bpm.PinNeutral s'.bpm ↔ ¬ e.Collides s)) ∧
      (∀ e : InsertExecutor, e.tableInfo = none ∨ e.child = [] → e.next s = some (e, s)) ∧
      (∀ (e : InsertExecutor) info rows, ¬ e.Overruns s → e.HasBatch s info rows →
        s.bpm.Supplies info.firstPageId →
        ∃ e' s', e.next s = some (e', s') ∧ e.LeavesDirty s') ∧
      ∀ evs' os' s', (∀ ev ∈ evs', ev.IsExecutor) → run pinStep s evs' = some (os', s') →
        s.bpm.Released s'.bpm := by
  have h := settled_of_run hr
  refine ⟨fun e ↦ (SeqScanExecutor.next_pins h e).2.1, fun e e' s' _ hn ↦
    (InsertExecutor.next_pins h hn).2.1, fun e hnone ↦ ?_, fun e info rows _ hb hs ↦ ?_,
    fun evs' os' s' hevs hr' ↦ released_of_run h hevs hr'⟩
  · rcases hnone with hnone | hnone
    · rw [InsertExecutor.next, hnone]
    · rw [InsertExecutor.next, hnone]
      split
      · rename_i hc
        cases hc
      · rfl
  · obtain ⟨e', s', hnext, -, hdirty, -, -⟩ := InsertExecutor.next_of_supplies h hb hs
    exact ⟨e', s', hnext, hdirty⟩

/-- The catalog of one table, which has no page yet. -/
def oneCatalog : CatalogManager := (InsertExecutor.oneTable (.opened 2 fun _ ↦ none)
  invalidPageId).catalogManager

/-- A client has page 0 of a pool of two. -/
def oneClient : StingInstance :=
  InsertExecutor.oneTable (Store.opened 2 fun _ ↦ none).newPage.2 invalidPageId

theorem oneInsert_not_overruns : ¬ InsertExecutor.oneInsert.Overruns oneClient := by
  have hlayout := SlottedPage.init_layout (oneClient.bpm.newPage.2.pool.pages 1)
  rw [InsertExecutor.overruns_iff (f := 1) (p := 1) rfl rfl rfl rfl hlayout]
  rintro ⟨-, hlow, -⟩
  exact absurd hlow (by decide)

/-- The page that the client has keeps its pin while the table gets its first page and a row. -/
theorem executors_pinNeutral_one :
    ∃ os e' s', run pinStep (start 2 fun _ ↦ none) [.others oneCatalog {}, .call .newPage] =
        some (os, oneClient) ∧ oneClient.bpm.pinCount 0 = 1 ∧
      (∀ e : SeqScanExecutor, oneClient.bpm.PinNeutral (e.next oneClient.bpm).2.2) ∧
      InsertExecutor.oneInsert.next oneClient = some (e', s') ∧
      oneClient.bpm.PinNeutral s'.bpm ∧ InsertExecutor.oneInsert.LeavesDirty s' ∧
      oneClient.bpm.Released s'.bpm ∧
      InsertExecutor.next { InsertExecutor.oneInsert with child := [] } oneClient =
        some ({ InsertExecutor.oneInsert with child := [] }, oneClient) := by
  have hr : run pinStep (start 2 fun _ ↦ none) [.others oneCatalog {}, .call .newPage] =
      some ([(), ()], oneClient) := rfl
  obtain ⟨hscan, hinsert, hnothing, hdirty, hreleased⟩ := executors_pinNeutral hr
  have hb : InsertExecutor.oneInsert.HasBatch oneClient
      ⟨0, "t", .create [.create "id" .integer], invalidPageId⟩ 1 := ⟨0, [], rfl, rfl, rfl⟩
  have hno := oneInsert_not_overruns
  obtain ⟨e', s', hnext, hleaves⟩ := hdirty _ _ _ hno hb (Or.inr (Or.inl (by decide)))
  have hrun : run pinStep oneClient [.insert InsertExecutor.oneInsert] = some ([()], s') := by
    refine run_cons.mpr ⟨(), s', [], ?_, rfl, rfl⟩
    rw [pinStep, if_neg hno, hnext]
    rfl
  have hcollides : ¬ InsertExecutor.oneInsert.Collides oneClient := by
    rw [InsertExecutor.collides_iff hb]
    exact fun h ↦ h.2 rfl
  refine ⟨_, e', s', hr, rfl, hscan, hnext, (hinsert _ _ _ hno hnext).mpr hcollides, hleaves,
    hreleased _ _ _ (fun ev hev ↦ ?_) hrun, hnothing _ (Or.inr rfl)⟩
  rw [List.mem_singleton.mp hev]
  trivial

/-- While a client has page 0 from the file, a table gets a page of the same id; and of page 0 no
pin is left. -/
theorem not_pinNeutral :
    ∃ os s e' s', run pinStep (start 2 fun _ ↦ none) [.others oneCatalog {},
        .call (.fetchPage 0)] = some (os, s) ∧ InsertExecutor.oneInsert.next s = some (e', s') ∧
      s.bpm.pinCount 0 = 1 ∧ s'.bpm.pinCount 0 = 0 ∧ ¬ s.bpm.PinNeutral s'.bpm := by
  refine ⟨_, _, _, _, rfl, rfl, rfl, rfl, fun h ↦ ?_⟩
  exact absurd (h 0 rfl) (by decide)

end StingInstance

end StingDB
