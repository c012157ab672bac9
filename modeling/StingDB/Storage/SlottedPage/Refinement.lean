import StingDB.Storage.SlottedPage.Layout

/-!
# A slotted page is an append-only list of optional tuples

What a slotted page is for: `TupleList` is a list of cells, each a tuple or a tombstone, with an
LSN beside it.  Inserting appends a cell, deleting turns one into a tombstone, and nothing else
ever changes a cell.  Whether an insert is accepted is left to the page; the list only says what an
accepted one does.  So the abstract machine `TupleList.observe` runs on *observed* calls, each
paired with what it returned, and refuses an observation that the list does not explain.

* `contents` reads a whole page's bytes as such a list.
* `contents_next` is the step lemma: a call on a page with the layout moves `contents` as
  `observe` says, and returns what `observe` expects.
* `refines_tupleList` is the result for runs from `Init`.

Tuples have at least one byte here, because a slot of size zero is how the page marks a
tombstone, and at most `pageSize` bytes, which keeps every call away from the wrap-around described
in the previous file.
-/

set_option autoImplicit false

namespace StingDB

namespace SlottedPage

open Machine

/-! ## The abstract list -/

/-- A list of tuples, `none` for a deleted one, and an LSN. -/
structure TupleList where
  /-- The cells in the order of their insertion. -/
  tuples : List (Option (List UInt8))
  /-- The log sequence number of the last change. -/
  lsn : ℕ

/-- The list of an initialised page. -/
def TupleList.empty : TupleList := ⟨[], 0⟩

/-- The cell of a slot number; there is nothing beyond the last cell. -/
def TupleList.get (a : TupleList) (k : ℕ) : Option (List UInt8) := (a.tuples[k]?).join

/-- One observed call: the list after it, or `none` if the list does not explain what the call
returned. -/
def TupleList.observe (a : TupleList) : Op × Out → Option (Unit × TupleList)
  | (.insertTuple t, .inserted true rid) =>
    if rid.slotNum.toNat = a.tuples.length then
      some ((), { a with tuples := a.tuples ++ [some t] })
    else none
  | (.insertTuple _, .inserted false _) => some ((), a)
  | (.markDelete rid, .deleted found) =>
    if found = decide (rid.slotNum.toNat < a.tuples.length) then
      some ((), { a with tuples := a.tuples.set rid.slotNum.toNat none })
    else none
  | (.setLSN lsn, .done) => some ((), { a with lsn := lsn.toNat })
  | (.getTuple rid, .tuple result) =>
    if result = a.get rid.slotNum.toNat then some ((), a) else none
  | (.getLSN, .lsn lsn) => if lsn = a.lsn then some ((), a) else none
  | _ => none

/-- The calls considered here: tuples of 1 to `PAGE_SIZE` bytes. -/
def Sized : Op → Prop
  | .insertTuple t => 1 ≤ t.length ∧ t.length ≤ pageSize
  | _ => True

/-! ## Reading a page as a list -/

/-- What slot `k` holds. -/
def slotContents (p : Page) (k : ℕ) : Option (List UInt8) :=
  if tupleSize p k = 0 then none else some (p.data.read (tupleOffset p k) (tupleSize p k))

/-- The list a page stores. -/
def contents (p : Page) : TupleList :=
  ⟨(List.range (getTupleCount p)).map (slotContents p), getLSN p⟩

variable {p : Page} {t : List UInt8}

@[simp] theorem length_contents : (contents p).tuples.length = getTupleCount p := by
  simp [contents]

theorem contents_get_of_lt {k : ℕ} (hk : k < getTupleCount p) :
    (contents p).get k = slotContents p k := by
  simp [TupleList.get, contents, hk]

theorem contents_get_of_le {k : ℕ} (hk : getTupleCount p ≤ k) : (contents p).get k = none := by
  simp [TupleList.get, contents, hk]

theorem getTuple_eq (p : Page) (rid : RID) :
    getTuple p rid = (contents p).get rid.slotNum.toNat := by
  rw [getTuple]
  split
  · rename_i hk
    rw [contents_get_of_le hk]
  · rename_i hk
    rw [contents_get_of_lt (not_le.mp hk), slotContents]

theorem contents_init (p : Page) : contents (init p) = TupleList.empty := by
  rw [contents, init_getTupleCount, init_getLSN]
  rfl

/-- A slot whose fields and extent read the same holds the same. -/
theorem slotContents_congr {q : Page} {k : ℕ} (ho : tupleOffset q k = tupleOffset p k)
    (hs : tupleSize q k = tupleSize p k)
    (hr : q.data.read (tupleOffset p k) (tupleSize p k) =
      p.data.read (tupleOffset p k) (tupleSize p k)) : slotContents q k = slotContents p k := by
  rw [slotContents, slotContents, ho, hs, hr]

theorem getLSN_of_data_eq {q : Page} (h : q.data = p.data) : getLSN q = getLSN p := by
  rw [getLSN, h, getLSN]

/-- The list is a matter of the page's bytes alone. -/
theorem contents_of_data_eq {q : Page} (h : q.data = p.data) : contents q = contents p := by
  have hslot : ∀ k, slotContents q k = slotContents p k := fun k ↦ by
    rw [slotContents, tupleSize, tupleOffset, h, slotContents, tupleSize, tupleOffset]
  simp only [contents, getTupleCount, getLSN, h, funext hslot]

/-- What the cell of an inserted tuple reads as: an empty tuple looks like a deleted one. -/
def cell (t : List UInt8) : Option (List UInt8) := if t.length = 0 then none else some t

theorem Layout.contents_inserted_cell (h : Layout p) (hr : Room p t) :
    contents (inserted p t) = { contents p with tuples := (contents p).tuples ++ [cell t] } := by
  have hlast : slotContents (inserted p t) (getTupleCount p) = cell t := by
    rw [slotContents, insert_tupleSize_self h hr, insert_tupleOffset_self h hr,
      insert_read_self h hr, cell]
  have hold : ∀ k ∈ List.range (getTupleCount p),
      slotContents (inserted p t) k = slotContents p k := by
    intro k hk
    have hk := List.mem_range.mp hk
    exact slotContents_congr (insert_tupleOffset_of_lt h hr hk) (insert_tupleSize_of_lt h hr hk)
      (insert_read h hr (h.extent k hk).1)
  rw [contents, insert_getTupleCount h hr, insert_getLSN h hr, List.range_succ, List.map_append,
    List.map_congr_left hold, List.map_singleton, hlast]
  rfl

theorem Layout.contents_inserted (h : Layout p) (hr : Room p t) (ht : 1 ≤ t.length) :
    contents (inserted p t) = { contents p with tuples := (contents p).tuples ++ [some t] } := by
  rw [h.contents_inserted_cell hr, cell, if_neg (by omega)]

theorem Layout.contents_deleted (h : Layout p) {rid : RID}
    (hk : rid.slotNum.toNat < getTupleCount p) :
    contents (deleted p rid) =
      { contents p with tuples := (contents p).tuples.set rid.slotNum.toNat none } := by
  have hcell : ∀ k < getTupleCount p, slotContents (deleted p rid) k =
      if rid.slotNum.toNat = k then none else slotContents p k := by
    intro k hlt
    split
    · rename_i heq
      rw [← heq, slotContents, if_pos (delete_tupleSize_self h hk)]
    · rename_i hne
      exact slotContents_congr (delete_tupleOffset h hk hlt)
        (delete_tupleSize_of_ne h hk hlt (Ne.symm hne)) (delete_read h hk (h.extent k hlt).1)
  rw [contents, delete_getTupleCount h hk, delete_getLSN h hk]
  congr 1
  refine List.ext_getElem (by simp) fun k hk₁ hk₂ ↦ ?_
  have hlt : k < getTupleCount p := by simpa using hk₁
  rw [List.getElem_set, List.getElem_map, List.getElem_range, hcell k hlt]
  simp [contents]

theorem Layout.contents_setLSN (h : Layout p) (v : ℕ) :
    contents (setLSN p v) = { contents p with lsn := v % 2 ^ 64 } := by
  have hcell : ∀ k ∈ List.range (getTupleCount p),
      slotContents (setLSN p v) k = slotContents p k := by
    intro k hk
    have hk := List.mem_range.mp hk
    exact slotContents_congr (h.setLSN_tupleOffset _ hk) (h.setLSN_tupleSize _ hk)
      (h.setLSN_read _ (h.extent k hk).1)
  rw [contents, setLSN_getTupleCount, setLSN_getLSN, List.map_congr_left hcell]
  rfl

/-! ## One call -/

/-- A tuple of at most a page's size is far from the wrap-around. -/
theorem Sized.noWrap {op : Op} (hs : Sized op) : NoWrap p op := by
  cases op with
  | insertTuple t =>
    have hle := hs.2
    simp only [pageSize] at hle
    exact Or.inl (by simp only [slotSize]; omega)
  | _ => trivial

/-- The slot number an insert hands out is the number of tuples before it. -/
theorem Layout.slotNum_eq (h : Layout p) : (UInt32.ofNat (getTupleCount p)).toNat =
    (contents p).tuples.length := by
  have hn := h.tupleCount_le
  rw [length_contents, UInt32.toNat_ofNat']
  exact Nat.mod_eq_of_lt (by omega)

/-- **One call**: the list explains what the call returned, and what it did to the page. -/
theorem Layout.contents_next (h : Layout p) {op : Op} (hs : Sized op) :
    (contents p).observe (op, out p op) = some ((), contents (next p op)) := by
  cases op with
  | insertTuple t =>
    by_cases ha : Admits p t
    · have hr : Room p t := (h.admits_iff_room (by
        have hle := hs.2
        simp only [slotSize, pageSize] at *
        omega)).mp ha
      have hnext : contents (next p (.insertTuple t)) = contents (inserted p t) := by
        rw [next, insertTuple, if_pos ha]
        rfl
      rw [hnext, out, insertTuple, if_pos ha, TupleList.observe, if_pos h.slotNum_eq,
        h.contents_inserted hr hs.1]
    · rw [next, out, insertTuple, if_neg ha, TupleList.observe]
  | markDelete rid =>
    by_cases hk : getTupleCount p ≤ rid.slotNum.toNat
    · have hset : (contents p).tuples.set rid.slotNum.toNat none = (contents p).tuples :=
        List.set_eq_of_length_le (by simpa using hk)
      rw [next, out, markDelete, if_pos hk, TupleList.observe, if_pos (by simpa using hk), hset]
    · have hlt := not_le.mp hk
      have hnext : contents (next p (.markDelete rid)) = contents (deleted p rid) := by
        rw [next, markDelete, if_neg hk]
        rfl
      rw [hnext, out, markDelete, if_neg hk, TupleList.observe, if_pos (by simpa using hlt),
        h.contents_deleted hlt]
  | setLSN v =>
    rw [out, TupleList.observe, next, h.contents_setLSN, Nat.mod_eq_of_lt v.toNat_lt]
  | getTuple rid => rw [out, TupleList.observe, if_pos (getTuple_eq p rid), next]
  | getLSN => rw [out, TupleList.observe, if_pos (show getLSN p = (contents p).lsn from rfl), next]

/-- A call that does not delete slot `k` leaves what `GetTuple` returns for it as it was. -/
theorem Layout.getTuple_next (h : Layout p) {op : Op} (hs : Sized op) {rid : RID}
    (hk : rid.slotNum.toNat < getTupleCount p)
    (hop : ∀ r, op = .markDelete r → r.slotNum ≠ rid.slotNum) :
    getTuple (next p op) rid = getTuple p rid := by
  have hobs := h.contents_next hs
  rw [getTuple_eq, getTuple_eq]
  generalize contents (next p op) = a at hobs
  have hlt : rid.slotNum.toNat < (contents p).tuples.length := by rwa [length_contents]
  cases op with
  | insertTuple t =>
    rw [out, insertTuple] at hobs
    split at hobs
    · rw [TupleList.observe, if_pos h.slotNum_eq] at hobs
      obtain rfl := (Prod.mk.inj (Option.some.inj hobs)).2
      simp [TupleList.get, List.getElem?_append_left hlt]
    · rw [TupleList.observe] at hobs
      rw [(Prod.mk.inj (Option.some.inj hobs)).2]
  | markDelete r =>
    have hne : r.slotNum.toNat ≠ rid.slotNum.toNat :=
      fun heq ↦ hop r rfl (UInt32.toNat_inj.mp heq)
    rw [out, TupleList.observe] at hobs
    split at hobs
    · obtain rfl := (Prod.mk.inj (Option.some.inj hobs)).2
      simp [TupleList.get, List.getElem?_set_ne hne]
    · exact absurd hobs (by simp)
  | setLSN v =>
    rw [out, TupleList.observe] at hobs
    obtain rfl := (Prod.mk.inj (Option.some.inj hobs)).2
    rw [TupleList.get, TupleList.get]
  | getTuple r =>
    rw [out, TupleList.observe, if_pos (getTuple_eq p r)] at hobs
    rw [(Prod.mk.inj (Option.some.inj hobs)).2]
  | getLSN =>
    rw [out, TupleList.observe, if_pos (show getLSN p = (contents p).lsn from rfl)] at hobs
    rw [(Prod.mk.inj (Option.some.inj hobs)).2]

/-! ## Runs -/

theorem run_eq_some (p : Page) (ops : List Op) : ∃ os q, run step p ops = some (os, q) := by
  induction ops generalizing p with
  | nil => exact ⟨[], p, rfl⟩
  | cons op ops ih =>
    obtain ⟨os, q, hr⟩ := ih (next p op)
    exact ⟨out p op :: os, q, run_cons.mpr ⟨_, _, os, rfl, hr, rfl⟩⟩

/-- A run of sized calls keeps the layout, and the list explains every observation of it. -/
theorem Layout.run_refines (h : Layout p) {ops : List Op} (hops : ∀ op ∈ ops, Sized op)
    {os : List Out} {q : Page} (hr : run step p ops = some (os, q)) :
    Layout q ∧ ∃ us, run TupleList.observe (contents p) (ops.zip os) = some (us, contents q) := by
  induction ops generalizing p os with
  | nil =>
    cases hr
    exact ⟨h, [], rfl⟩
  | cons op ops ih =>
    obtain ⟨o, p', os', hs, hr', rfl⟩ := run_cons.mp hr
    cases hs
    have hop : Sized op := hops op (List.mem_cons_self ..)
    have hsafe : SafeCall p op := (h.safeCall_iff_noWrap op).mpr hop.noWrap
    obtain ⟨hq, us, hus⟩ := ih hsafe.layout (fun o ho ↦ hops o (List.mem_cons_of_mem _ ho)) hr'
    exact ⟨hq, () :: us, run_cons.mpr ⟨(), _, us, h.contents_next hop, hus, rfl⟩⟩

/-- **A slotted page refines an append-only list of optional tuples with an LSN.**  After any run
of sized calls from `Init`: the list explains everything the calls returned, starting from the
empty list and ending in what the page's bytes say; `GetTuple` reads that list; a slot number that
was never handed out is refused and nothing changes; a delete of one that was is accepted; and a
further call changes what `GetTuple` returns for no slot but the one it deletes. -/
theorem refines_tupleList (p₀ : Page) {ops : List Op} (hops : ∀ op ∈ ops, Sized op) :
    ∃ os p, run step (init p₀) ops = some (os, p) ∧
      (∃ us, run TupleList.observe .empty (ops.zip os) = some (us, contents p)) ∧
      (∀ rid, getTuple p rid = (contents p).get rid.slotNum.toNat) ∧
      (∀ rid, (contents p).tuples.length ≤ rid.slotNum.toNat →
        getTuple p rid = none ∧ markDelete p rid = (false, p)) ∧
      (∀ rid, rid.slotNum.toNat < (contents p).tuples.length → (markDelete p rid).1 = true) ∧
      ∀ op rid, Sized op → rid.slotNum.toNat < (contents p).tuples.length →
        (∀ r, op = .markDelete r → r.slotNum ≠ rid.slotNum) →
        getTuple (next p op) rid = getTuple p rid := by
  obtain ⟨os, p, hr⟩ := run_eq_some (init p₀) ops
  obtain ⟨hp, us, hus⟩ := (init_layout p₀).run_refines hops hr
  rw [contents_init] at hus
  refine ⟨os, p, hr, ⟨us, hus⟩, getTuple_eq p, fun rid hk ↦ ⟨?_, ?_⟩, fun rid hk ↦ ?_,
    fun op rid hs hk hop ↦ ?_⟩
  · rw [length_contents] at hk
    rw [getTuple_eq, contents_get_of_le hk]
  · rw [length_contents] at hk
    rw [markDelete, if_pos hk]
  · rw [length_contents] at hk
    rw [markDelete, if_neg (not_le.mpr hk)]
  · rw [length_contents] at hk
    exact hp.getTuple_next hs hk hop

/-- An insert, a delete of it and an insert again, on a blank page. -/
theorem refines_tupleList_three :
    ∃ os p, run step (init {}) [.insertTuple [7], .markDelete ⟨0, 0⟩, .insertTuple [8, 9]] =
        some (os, p) ∧
      ∃ us, run TupleList.observe .empty
        ([Op.insertTuple [7], .markDelete ⟨0, 0⟩, .insertTuple [8, 9]].zip os) =
          some (us, contents p) := by
  have hsized : ∀ op ∈ [Op.insertTuple [7], .markDelete ⟨0, 0⟩, .insertTuple [8, 9]], Sized op := by
    simp [Sized, pageSize]
  obtain ⟨os, p, hr, hus, -⟩ := refines_tupleList {} hsized
  exact ⟨os, p, hr, hus⟩

end SlottedPage

end StingDB
