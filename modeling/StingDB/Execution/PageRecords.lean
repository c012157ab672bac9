import StingDB.Lib.Chain
import StingDB.Storage.SlottedPage.Refinement
import StingDB.Transaction.LogManager

/-!
# The log records of a page

What a table page has to do with the log: its tuples are those of its INSERT records, in order, and
its header is the end of a chain of these records, each of which names the one before it
(`PageAgrees`).  `RowsAgree` is the same of all table pages at once, with the rows that were stored;
`RowsAgree.insert` is the row loop's part in it.

A header has eight bytes for its LSN, so what it says is right as long as fewer than 2^64 records
have been appended.
-/

set_option autoImplicit false

namespace StingDB

open SlottedPage Chain

/-! ## Records -/

namespace LogEntry

/-- The record of a row that was stored. -/
def IsInsert (e : LogEntry) : Prop := e.record.type = .insert

instance : DecidablePred IsInsert := fun e ↦ inferInstanceAs (Decidable (e.record.type = _))

/-- `prev_lsn_` -/
def prevLsn (e : LogEntry) : ℕ := e.record.prevLsn

/-- The row that the record is about: where it is and its bytes. -/
def row (e : LogEntry) : RID × List UInt8 := (e.record.insertRid, e.record.insertTuple)

end LogEntry

/-- The INSERT records of a page. -/
def insertsOn (log : List LogEntry) (p : PageId) : List LogEntry :=
  log.filter fun e ↦ e.IsInsert ∧ e.record.insertRid.pageId = p

theorem insertsOn_concat {log : List LogEntry} {e : LogEntry} {p : PageId} :
    insertsOn (log ++ [e]) p =
      insertsOn log p ++ if e.IsInsert ∧ e.record.insertRid.pageId = p then [e] else [] := by
  by_cases he : e.IsInsert ∧ e.record.insertRid.pageId = p <;>
    simp [insertsOn, List.filter_append, he]

/-! ## One page -/

/-- What the log has to do with a table page. -/
structure PageAgrees (log : List LogEntry) (p : PageId) (page : Page) : Prop where
  layout : Layout page
  /-- The tuples are those of the page's records, in order. -/
  tuples : (contents page).tuples = (insertsOn log p).map fun e ↦ some e.record.insertTuple
  /-- The records are of slots 0, 1, 2 and so on. -/
  rids : (insertsOn log p).map (fun e ↦ e.record.insertRid) =
    (List.range (insertsOn log p).length).map fun k ↦ ⟨p, .ofNat k⟩
  /-- The header names the last record, and each record the one before it. -/
  chain : log.length < 2 ^ 64 → getLSN page = lastKey LogEntry.lsn (insertsOn log p) ∧
    Linked LogEntry.lsn LogEntry.prevLsn (insertsOn log p)

namespace PageAgrees

variable {log : List LogEntry} {p : PageId} {page : Page} {e : LogEntry} {t : List UInt8}
  {txn : TxnId}

theorem of_data_eq {q : Page} (h : PageAgrees log p page) (hd : q.data = page.data) :
    PageAgrees log p q where
  layout := h.layout.of_data_eq hd
  tuples := by rw [contents_of_data_eq hd, h.tuples]
  rids := h.rids
  chain hlen := by
    rw [getLSN_of_data_eq hd]
    exact h.chain hlen

/-- A page that has just been initialised. -/
theorem init (hnone : insertsOn log p = []) (page : Page) :
    PageAgrees log p (SlottedPage.init page) where
  layout := init_layout page
  tuples := by rw [contents_init, hnone]; rfl
  rids := by rw [hnone]; rfl
  chain _ := by
    rw [init_getLSN, hnone]
    exact ⟨rfl, linked_nil⟩

/-- A record of something else. -/
theorem concat (h : PageAgrees log p page) (he : ¬ (e.IsInsert ∧ e.record.insertRid.pageId = p)) :
    PageAgrees (log ++ [e]) p page := by
  have hon : insertsOn (log ++ [e]) p = insertsOn log p := by
    rw [insertsOn_concat, if_neg he, List.append_nil]
  exact
    { layout := h.layout
      tuples := by rw [hon, h.tuples]
      rids := by rw [hon, h.rids]
      chain := fun hlen ↦ by
        rw [List.length_append] at hlen
        rw [hon]
        exact h.chain (Nat.lt_of_add_right_lt hlen) }

theorem length_eq (h : PageAgrees log p page) :
    (insertsOn log p).length = getTupleCount page := by
  rw [← length_contents, h.tuples, List.length_map]

/-- A row, and its record. -/
theorem insert (h : PageAgrees log p page) (hroom : Room page t) (ht : 1 ≤ t.length)
    (hlsn : e.lsn = log.length + 1)
    (he : e.record = .ofTuple txn (getLSN page) .insert ⟨p, .ofNat (getTupleCount page)⟩ t) :
    PageAgrees (log ++ [e]) p (setLSN ((inserted page t).setDirty true) e.lsn) := by
  have hnew : Layout ((inserted page t).setDirty true) :=
    (insert_layout h.layout hroom).of_data_eq rfl
  have hon : insertsOn (log ++ [e]) p = insertsOn log p ++ [e] := by
    rw [insertsOn_concat, if_pos (by rw [LogEntry.IsInsert, he]; exact ⟨rfl, rfl⟩)]
  have hcontents : contents ((inserted page t).setDirty true) =
      { contents page with tuples := (contents page).tuples ++ [some t] } :=
    (contents_of_data_eq rfl).trans (h.layout.contents_inserted hroom ht)
  refine ⟨hnew.of_setLSN _, ?_, ?_, fun hlen ↦ ?_⟩
  · rw [hnew.contents_setLSN, hcontents, hon, h.tuples, List.map_append, List.map_singleton, he]
    rfl
  · rw [hon, List.map_append, h.rids, List.length_append, List.length_singleton, List.range_succ,
      List.map_append, h.length_eq, List.map_singleton, List.map_singleton, he]
    rfl
  · rw [List.length_append, List.length_singleton] at hlen
    obtain ⟨hlast, hlinked⟩ := h.chain (Nat.lt_of_succ_lt hlen)
    rw [hon, lastKey_concat, setLSN_getLSN, hlsn, Nat.mod_eq_of_lt hlen, linked_concat]
    refine ⟨rfl, hlinked, ?_⟩
    rw [LogEntry.prevLsn, he, ← hlast]
    rfl

end PageAgrees

/-! ## All pages -/

/-- What the log has to do with the rows that were stored and with the table pages. -/
structure RowsAgree (log : List LogEntry) (rows : List (RID × List UInt8))
    (memory : PageId → Option PageData) : Prop where
  rows_eq : (log.filter (·.IsInsert)).map LogEntry.row = rows
  /-- There are no records of other pages. -/
  blank : ∀ p, memory p = none → insertsOn log p = []
  page : ∀ p data, memory p = some data → PageAgrees log p { data }

namespace RowsAgree

variable {log : List LogEntry} {rows : List (RID × List UInt8)}
  {memory : PageId → Option PageData} {e : LogEntry}

/-- A record that is no INSERT record. -/
theorem concat (h : RowsAgree log rows memory) (he : ¬ e.IsInsert) :
    RowsAgree (log ++ [e]) rows memory where
  rows_eq := by rw [List.filter_append, List.filter_singleton]; simp [he, h.rows_eq]
  blank p hp := by rw [insertsOn_concat, h.blank p hp, if_neg (mt And.left he)]; rfl
  page p data hp := (h.page p data hp).concat (mt And.left he)

/-- A page that has just been initialised, and that no row has been inserted into. -/
theorem init (h : RowsAgree log rows memory) {p : PageId} (hp : memory p = none) {page : Page} :
    RowsAgree log rows (Function.update memory p (some (SlottedPage.init page).data)) where
  rows_eq := h.rows_eq
  blank q hq := by
    by_cases hqp : q = p
    · simp [hqp] at hq
    · exact h.blank q (by simpa [hqp] using hq)
  page q data hq := by
    by_cases hqp : q = p
    · subst hqp
      rw [Function.update_self] at hq
      cases hq
      exact (PageAgrees.init (h.blank q hp) page).of_data_eq rfl
    · exact h.page q data (by simpa [hqp] using hq)

/-- A row that goes into a page, and its record. -/
theorem insert {p : PageId} {page : Page} {t : List UInt8} {txn : TxnId}
    (h : RowsAgree log rows (Function.update memory p (some page.data))) (hroom : Room page t)
    (ht : 1 ≤ t.length) (hlsn : e.lsn = log.length + 1)
    (he : e.record = .ofTuple txn (getLSN page) .insert ⟨p, .ofNat (getTupleCount page)⟩ t) :
    RowsAgree (log ++ [e]) (rows ++ [(⟨p, .ofNat (getTupleCount page)⟩, t)])
      (Function.update memory p (some (setLSN ((inserted page t).setDirty true) e.lsn).data)) := by
  have hins : e.IsInsert := by rw [LogEntry.IsInsert, he]; rfl
  have hpage := (h.page p page.data (Function.update_self ..)).of_data_eq (q := page) rfl
  refine ⟨?_, fun q hq ↦ ?_, fun q data hq ↦ ?_⟩
  · rw [List.filter_append, List.filter_singleton, List.map_append, h.rows_eq]
    simp [hins, LogEntry.row, he, LogRecord.ofTuple]
  · by_cases hqp : q = p
    · simp [hqp] at hq
    · have hother : ¬ (e.IsInsert ∧ e.record.insertRid.pageId = q) := by
        rw [he]
        exact fun hand ↦ hqp hand.2.symm
      rw [insertsOn_concat, if_neg hother, h.blank q (by simpa [hqp] using hq)]
      rfl
  · by_cases hqp : q = p
    · subst hqp
      rw [Function.update_self] at hq
      cases hq
      exact (hpage.insert hroom ht hlsn he).of_data_eq rfl
    · have hother : ¬ (e.IsInsert ∧ e.record.insertRid.pageId = q) := by
        rw [he]
        exact fun hand ↦ hqp hand.2.symm
      exact (h.page q data (by simpa [hqp] using hq)).concat hother

end RowsAgree

end StingDB
