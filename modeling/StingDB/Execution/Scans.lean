import StingDB.Execution.Executors
import StingDB.Storage.SlottedPage.Refinement

/-!
# What a scan reads

A scan goes through the slots of its page in order, each once, and is over after the last
(`reads_of_gives`).  It reads live tuples and dead ones alike: where `GetTuple` finds none, `Next`
says that there was a row all the same.  So the rows a SELECT counts are the slots of the page, and
these are the live tuples exactly if nothing was ever deleted from it (`count_live_iff`).

The page may be in the pool or in the file, as long as the pool gives it out when it is fetched;
once it has, it stays.
-/

set_option autoImplicit false

namespace StingDB

open Machine SlottedPage

/-! ## Deleted tuples -/

namespace SlottedPage

/-- A cell becomes a tombstone by a delete that finds its slot, and in no other way. -/
theorem TupleList.none_mem_observe {a a' : TupleList} {x : Op × Out} {u : Unit}
    (h : a.observe x = some (u, a')) :
    none ∈ a'.tuples ↔ none ∈ a.tuples ∨ x.2 = .deleted true := by
  revert h
  fun_cases observe a x <;> rintro ⟨⟩
  case case4 rid =>
    -- the delete reports whether there is such a slot
    by_cases hlt : rid.slotNum.toNat < a.tuples.length
    · simpa [hlt] using List.mem_set hlt none
    · simp [hlt, List.set_eq_of_length_le (not_lt.mp hlt)]
  all_goals simp

theorem TupleList.none_mem_of_run {a a' : TupleList} {obs : List (Op × Out)} {us : List Unit}
    (hr : run observe a obs = some (us, a')) :
    none ∈ a'.tuples ↔ none ∈ a.tuples ∨ .deleted true ∈ obs.map Prod.snd := by
  induction obs generalizing a us with
  | nil =>
    cases hr
    simp
  | cons x obs ih =>
    obtain ⟨u, a₁, us', hx, hr', rfl⟩ := run_cons.mp hr
    rw [ih hr', none_mem_observe hx, List.map_cons, List.mem_cons, or_assoc, eq_comm (a := x.2)]

/-- After a run on an initialised page: all its tuples are live exactly if no delete has found its
slot. -/
theorem live_iff_none_deleted {p₀ q : Page} {ops : List Op} {os : List Out}
    (hops : ∀ op ∈ ops, Sized op) (hr : run step (init p₀) ops = some (os, q)) :
    Layout q ∧ (none ∉ (contents q).tuples ↔ .deleted true ∉ os) := by
  obtain ⟨hlayout, us, hobs⟩ := (init_layout p₀).run_refines hops hr
  refine ⟨hlayout, ?_⟩
  have hsnd : (ops.zip os).map Prod.snd = os := List.map_snd_zip (run_length hr).le
  rw [contents_init] at hobs
  rw [TupleList.none_mem_of_run hobs, hsnd, TupleList.empty]
  simp

end SlottedPage

/-! ## Where the page is -/

namespace Store

/-- `FetchPage` finds the page with these bytes, in the pool or in the file. -/
def Gives (s : Store) (p : PageId) (data : PageData) : Prop :=
  ∃ f s', s.fetchPage p = (some f, s') ∧ (s'.pool.pages f).data = data

/-- It will find it again, once it has been released. -/
theorem gives_unpin {s s' : Store} {p : PageId} {f : ℕ} (hf : s.fetchPage p = (some f, s')) :
    (s'.unpinPage p false).2.Gives p (s'.pool.pages f).data := by
  have hl := fetchPage_resident hf
  have hl' : (s'.unpinPage p false).2.pool.pageTable.lookup p = some f := by
    rw [unpinPage_of_resident hl, BufferPoolManager.unpin_pageTable, hl]
  refine ⟨f, _, fetchPage_of_resident hl', ?_⟩
  exact (BufferPoolManager.pin_data ..).trans (unpinPage_data ..)

end Store

/-! ## Scans -/

namespace SeqScanExecutor

variable {e : SeqScanExecutor} {s : Store} {data : PageData}

/-- What `Next` reads, if it comes to a slot: `rid`, and the tuple if `GetTuple` finds one. -/
def readTuple (e : SeqScanExecutor) (s : Store) : RID × Option (List UInt8) :=
  let rid : RID := ⟨e.currentPageId, e.currentSlot⟩
  let (rawPage, s) := s.fetchPage e.currentPageId
  (rid, rawPage.bind fun frameId ↦ SlottedPage.getTuple (s.pool.pages frameId) rid)

/-- What the calls of `Next` read that return `true`, up to the first that does not, and the pool;
or `none` if `fuel` calls were not enough. -/
def reads : ℕ → SeqScanExecutor → Store → Option (List (RID × Option (List UInt8)) × Store)
  | 0, _, _ => none
  | fuel + 1, e, s =>
    match e.next s with
    | (false, _, s) => some ([], s)
    | (true, e', s') => (reads fuel e' s').map fun r ↦ (e.readTuple s :: r.1, r.2)

/-- The count is the number of the calls. -/
theorem count_eq_reads (fuel : ℕ) (e : SeqScanExecutor) (s : Store) :
    count fuel e s = (reads fuel e s).map fun r ↦ (r.1.length, r.2) := by
  induction fuel generalizing e s with
  | zero => rfl
  | succ fuel ih =>
    rw [count, reads]
    rcases e.next s with ⟨_ | _, e', s'⟩
    · rfl
    · dsimp only
      rw [ih, Option.map_map, Option.map_map]
      rfl

/-- One call on a page with these bytes. -/
theorem next_of_gives (ht : e.tableInfo ≠ none) (hid : e.currentPageId ≠ invalidPageId)
    (hg : s.Gives e.currentPageId data) :
    ∃ s', s'.Gives e.currentPageId data ∧
      (e.next s = if SlottedPage.getTupleCount { data } ≤ e.currentSlot.toNat then (false, e, s')
        else (true, { e with currentSlot := e.currentSlot + 1 }, s')) ∧
      e.readTuple s = (⟨e.currentPageId, e.currentSlot⟩,
        SlottedPage.getTuple { data } ⟨e.currentPageId, e.currentSlot⟩) := by
  obtain ⟨f, s₁, hf, rfl⟩ := hg
  refine ⟨(s₁.unpinPage e.currentPageId false).2, Store.gives_unpin hf, ?_, ?_⟩
  · rw [next, if_neg (by simp [ht, hid]), hf]
    rfl
  · rw [readTuple, hf]
    rfl

/-- **What a scan reads**: the slots of the page from the current one on, each once and in order.
`fuel` calls are enough if there is one more of them than of these. -/
theorem reads_of_gives {fuel n : ℕ} (ht : e.tableInfo ≠ none)
    (hid : e.currentPageId ≠ invalidPageId) (hg : s.Gives e.currentPageId data)
    (hn : SlottedPage.getTupleCount { data } = n) (hsmall : n < 2 ^ 32)
    (hslot : e.currentSlot.toNat ≤ n) (hfuel : n < fuel + e.currentSlot.toNat) :
    ∃ s', reads fuel e s = some
      ((List.range' e.currentSlot.toNat (n - e.currentSlot.toNat)).map fun k ↦
        (⟨e.currentPageId, .ofNat k⟩,
          SlottedPage.getTuple { data } ⟨e.currentPageId, .ofNat k⟩), s') := by
  induction fuel generalizing e s with
  | zero => omega
  | succ fuel ih =>
    obtain ⟨s₁, hg₁, hnext, hread⟩ := next_of_gives ht hid hg
    rw [reads, hnext, hn]
    by_cases hend : n ≤ e.currentSlot.toNat
    · rw [if_pos hend, Nat.sub_eq_zero_of_le hend]
      exact ⟨s₁, rfl⟩
    · have hsucc : (e.currentSlot + 1).toNat = e.currentSlot.toNat + 1 := by
        rw [UInt32.toNat_add]
        exact Nat.mod_eq_of_lt (by simpa using by omega)
      obtain ⟨s', hrest⟩ := ih (e := { e with currentSlot := e.currentSlot + 1 }) ht hid hg₁
        (by dsimp only; omega) (by dsimp only; omega)
      refine ⟨s', ?_⟩
      rw [if_neg hend]
      dsimp only at hrest ⊢
      rw [hrest, Option.map_some, hread, hsucc,
        show n - e.currentSlot.toNat = n - (e.currentSlot.toNat + 1) + 1 by omega,
        List.range'_succ, List.map_cons, UInt32.ofNat_toNat]

/-- The slots of page `p` with what they hold, in order. -/
def slots (p : PageId) (tuples : List (Option (List UInt8))) : List (RID × Option (List UInt8)) :=
  tuples.zipIdx.map fun (t, k) ↦ (⟨p, .ofNat k⟩, t)

theorem slots_contents {q : Page} (h : Layout q) (p : PageId) :
    slots p (contents q).tuples = (List.range' 0 (SlottedPage.getTupleCount q)).map fun k ↦
      (⟨p, .ofNat k⟩, SlottedPage.getTuple q ⟨p, .ofNat k⟩) := by
  refine List.ext_getElem (by simp [slots]) fun k hk _ ↦ ?_
  have hlt : k < (contents q).tuples.length := by simpa [slots] using hk
  have hcount := h.tupleCount_le
  rw [length_contents] at hlt
  have hmod : k % 4294967296 = k := Nat.mod_eq_of_lt (by omega)
  simp [slots, getTuple_eq, TupleList.get, hmod, hlt]

section

variable {q : Page} {inst : StingInstance} {name : String} {table : TableId} {info : TableInfo}

/-- `Init`, and `Next` until there is no more. -/
theorem scan_eq (hq : Layout q) (hname : inst.catalogManager.getTable name = some table)
    (hinfo : inst.catalogManager.tables table = some info)
    (hid : info.firstPageId ≠ invalidPageId) (hgives : inst.bpm.Gives info.firstPageId q.data) :
    ∃ e s', init { tableName := name } inst = .ok e ∧
      reads countFuel e inst.bpm = some (slots info.firstPageId (contents q).tuples, s') ∧
      count countFuel e inst.bpm = some ((contents q).tuples.length, s') := by
  let e : SeqScanExecutor :=
    { tableName := name, tableInfo := some table, currentPageId := info.firstPageId }
  have hcount := hq.tupleCount_le
  have hdata : SlottedPage.getTupleCount { data := q.data } = SlottedPage.getTupleCount q := rfl
  have hfuel : SlottedPage.getTupleCount q < countFuel + e.currentSlot.toNat := by
    simp only [countFuel]
    omega
  obtain ⟨s', hreads⟩ := reads_of_gives (e := e)
    (Option.some_ne_none table) hid hgives hdata (by omega) (Nat.zero_le _) hfuel
  have hall : reads countFuel e inst.bpm =
      some (slots info.firstPageId (contents q).tuples, s') := by
    rw [hreads, slots_contents hq]
    rfl
  refine ⟨e, s', ?_, hall, ?_⟩
  · rw [init, hname]
    simp only [hinfo, Option.elim_some, e]
  · rw [count_eq_reads, hall, Option.map_some, slots]
    simp

/-- **What a scan counts.**  On a page that any calls have made of an initialised one, `Init` and
repeated `Next` come to an end, having read each slot once and in order, the deleted ones too; and
there were as many rows as live tuples exactly if no delete has found its slot. -/
theorem count_live_iff (p₀ : Page) {ops : List Op} {os : List Out}
    (hops : ∀ op ∈ ops, Sized op)
    (hr : run SlottedPage.step (SlottedPage.init p₀) ops = some (os, q))
    (hname : inst.catalogManager.getTable name = some table)
    (hinfo : inst.catalogManager.tables table = some info)
    (hid : info.firstPageId ≠ invalidPageId) (hgives : inst.bpm.Gives info.firstPageId q.data) :
    ∃ us a e n s', run TupleList.observe .empty (ops.zip os) = some (us, a) ∧
      init { tableName := name } inst = .ok e ∧
      reads countFuel e inst.bpm = some (slots info.firstPageId a.tuples, s') ∧
      count countFuel e inst.bpm = some (n, s') ∧
      (n = a.tuples.countP Option.isSome ↔ .deleted true ∉ os) := by
  obtain ⟨hlayout, hlive⟩ := live_iff_none_deleted hops hr
  obtain ⟨-, us, hobs⟩ := (init_layout p₀).run_refines hops hr
  rw [contents_init] at hobs
  obtain ⟨e, s', hinit, hreads, hcount⟩ := scan_eq hlayout hname hinfo hid hgives
  refine ⟨us, contents q, e, _, s', hobs, hinit, hreads, hcount, ?_⟩
  rw [← hlive, eq_comm, List.countP_eq_length]
  simp only [Option.isSome_iff_ne_none]
  exact ⟨fun h hmem ↦ h none hmem rfl, fun h t ht hnone ↦ h (hnone ▸ ht)⟩

end

/-- A table that has a page. -/
def storedInfo : TableInfo := ⟨0, "t", .create [.create "id" .integer], 0⟩

/-- An instance with the table, whose page is in the file and has these bytes. -/
def storedTable (data : PageData) : StingInstance where
  bpm := { pool := .create 1, disk := { file := fun p ↦ if p = 0 then some data else none } }
  catalogManager :=
    { nextTableId := 1
      tables := Function.update (fun _ ↦ none) 0 (some storedInfo)
      tableNames := Function.update (fun _ ↦ none) "t" (some 0) }

theorem getTable_stored (data : PageData) :
    (storedTable data).catalogManager.getTable "t" = some 0 := rfl

theorem tables_stored (data : PageData) :
    (storedTable data).catalogManager.tables 0 = some storedInfo := rfl

theorem gives_stored (data : PageData) :
    (storedTable data).bpm.Gives storedInfo.firstPageId data := ⟨0, _, rfl, rfl⟩

/-- A scan of two rows. -/
theorem count_live_iff_two :
    ∃ os q, run SlottedPage.step (SlottedPage.init {}) [.insertTuple [7], .insertTuple [8, 9]] =
        some (os, q) ∧
      ∃ us a e n s', run TupleList.observe .empty
          ([Op.insertTuple [7], .insertTuple [8, 9]].zip os) = some (us, a) ∧
        init { tableName := "t" } (storedTable q.data) = .ok e ∧
        reads countFuel e (storedTable q.data).bpm =
          some (slots storedInfo.firstPageId a.tuples, s') ∧
        count countFuel e (storedTable q.data).bpm = some (n, s') ∧
        (n = a.tuples.countP Option.isSome ↔ .deleted true ∉ os) := by
  have hsized : ∀ op ∈ [Op.insertTuple [7], .insertTuple [8, 9]], Sized op := by
    simp [Sized, pageSize]
  obtain ⟨os, q, hr⟩ := run_eq_some (SlottedPage.init {}) [.insertTuple [7], .insertTuple [8, 9]]
  exact ⟨os, q, hr, count_live_iff {} hsized hr (getTable_stored q.data) (tables_stored q.data)
    (by decide) (gives_stored q.data)⟩

/-- A row is inserted and deleted again, and a scan counts one. -/
theorem count_ne_live :
    ∃ os q e s', run SlottedPage.step (SlottedPage.init {}) [.insertTuple [7], .markDelete ⟨0, 0⟩] =
        some (os, q) ∧ (contents q).tuples = [none] ∧
      init { tableName := "t" } (storedTable q.data) = .ok e ∧
      count countFuel e (storedTable q.data).bpm = some (1, s') ∧
      1 ≠ (contents q).tuples.countP Option.isSome := by
  have hsized : ∀ op ∈ [Op.insertTuple [7], .markDelete ⟨0, 0⟩], Sized op := by
    simp [Sized, pageSize]
  let q := SlottedPage.next (SlottedPage.next (SlottedPage.init {}) (.insertTuple [7]))
    (.markDelete ⟨0, 0⟩)
  have hr : run SlottedPage.step (SlottedPage.init {}) [.insertTuple [7], .markDelete ⟨0, 0⟩] =
      some (_, q) := rfl
  have htuples : (contents q).tuples = [none] := by decide +kernel
  obtain ⟨e, s', hinit, -, hcount⟩ := scan_eq (live_iff_none_deleted hsized hr).1
    (getTable_stored q.data) (tables_stored q.data) (by decide) (gives_stored q.data)
  rw [htuples] at hcount
  exact ⟨_, q, e, s', hr, htuples, hinit, hcount, by simp [htuples]⟩

end SeqScanExecutor

end StingDB
