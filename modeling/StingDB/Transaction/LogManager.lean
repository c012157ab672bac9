import Mathlib.Data.List.Sublists
import StingDB.Storage.SlottedPage

/-!
# The write-ahead log

`transaction/log_record.h` and `transaction/log_manager.h`: log records, and a log of two buffers
that change places, one to append to and one to hand to I/O.

The buffers change places in two functions.  `Flush` swaps them and hands the one that was
appended to to I/O; `AppendLogRecord` swaps them when the record does not fit, and hands nothing.
The offset of the buffer swapped in is reset, so what an append swapped out is overwritten after
the next swap: it is lost unless nothing was in it.  `Complete` says that nothing has been lost,
and `Recorded.complete_appendLogRecord_iff` that an append keeps it exactly when the record fits.

The serialisation of a record into the buffer is a comment in the source; a buffer is modelled by
the records placed in it, in the order of their offsets, *including* those left over from before
its offset was reset.  LSNs are `uint64_t` and taken as unbounded.
-/

set_option autoImplicit false

namespace StingDB

/-- `TxnId` -/
abbrev TxnId := ℕ

/-- `LogRecordType` -/
inductive LogRecordType where
  | invalid
  | insert
  | markDelete
  | applyDelete
  | update
  | begin
  | commit
  | abort
  deriving DecidableEq

/-- `LogRecord` -/
structure LogRecord where
  /-- `size_`, a `uint32_t` -/
  size : ℕ := 0
  /-- `type_` -/
  type : LogRecordType := .invalid
  /-- `txn_id_` -/
  txnId : TxnId := 0
  /-- `prev_lsn_` -/
  prevLsn : ℕ := 0
  /-- `insert_rid_` -/
  insertRid : RID := {}
  /-- `insert_tuple_` -/
  insertTuple : List UInt8 := []
  deriving DecidableEq

namespace LogRecord

/-- `HeaderSize()` -/
abbrev headerSize : ℕ := 20

/-- `sizeof(storage::RID)` -/
abbrev ridSize : ℕ := 8

/-- `LogRecord(txn_id, lsn, type)` -/
def ofType (txnId : TxnId) (lsn : ℕ) (type : LogRecordType) : LogRecord :=
  { size := headerSize, type, txnId, prevLsn := lsn }

/-- `LogRecord(txn_id, lsn, type, rid, tuple)` -/
def ofTuple (txnId : TxnId) (lsn : ℕ) (type : LogRecordType) (rid : RID) (tuple : List UInt8) :
    LogRecord :=
  { size := u32 (headerSize + ridSize + tuple.length), type, txnId, prevLsn := lsn,
    insertRid := rid, insertTuple := tuple }

end LogRecord

/-! ## The log manager -/

/-- A record in a log buffer, with the LSN it was given. -/
structure LogEntry where
  /-- What `AppendLogRecord` returned. -/
  lsn : ℕ
  /-- The record. -/
  record : LogRecord
  deriving DecidableEq

/-- An initial piece of a log buffer, which `log_buffer_offset_` and `flush_size_` give by its
number of bytes. -/
structure Extent where
  /-- The records it is made of. -/
  records : ℕ := 0
  /-- Its length in bytes. -/
  bytes : ℕ := 0

/-- `LogManager`. -/
structure LogManager where
  /-- `log_buffer_` -/
  logBuffer : List LogEntry := []
  /-- `flush_buffer_` -/
  flushBuffer : List LogEntry := []
  /-- `log_buffer_offset_` -/
  logBufferOffset : Extent := {}
  /-- `flush_size_` -/
  flushSize : Extent := {}
  /-- `next_lsn_` -/
  nextLsn : ℕ := 1
  /-- Not in the source, and read by none of its functions: all records appended so far. -/
  appended : List LogEntry := []
  /-- Not in the source, and read by none of its functions: all records handed to I/O so far, in
  the order in which they were. -/
  handed : List LogEntry := []

namespace LogManager

/-- The size of either buffer. -/
abbrev bufferSize : ℕ := pageSize * 2

/-- `SwapBuffers`. -/
def swapBuffers (m : LogManager) : LogManager :=
  { m with
    logBuffer := m.flushBuffer
    flushBuffer := m.logBuffer
    flushSize := m.logBufferOffset
    logBufferOffset := {} }

/-- The test that guards the swap in `AppendLogRecord`. -/
def Overflows (m : LogManager) (r : LogRecord) : Prop :=
  bufferSize < m.logBufferOffset.bytes + r.size

instance (m : LogManager) (r : LogRecord) : Decidable (m.Overflows r) := by
  unfold Overflows
  infer_instance

/-- The rest of `AppendLogRecord`: the record is written at the offset, over what was there. -/
def place (m : LogManager) (r : LogRecord) : LogManager :=
  { m with
    logBuffer := m.logBuffer.take m.logBufferOffset.records ++ [⟨m.nextLsn, r⟩]
    logBufferOffset := ⟨m.logBufferOffset.records + 1, m.logBufferOffset.bytes + r.size⟩
    nextLsn := m.nextLsn + 1
    appended := m.appended ++ [⟨m.nextLsn, r⟩] }

/-- `AppendLogRecord`: the LSN returned and the log. -/
def appendLogRecord (m : LogManager) (r : LogRecord) : ℕ × LogManager :=
  (m.nextLsn, (if m.Overflows r then m.swapBuffers else m).place r)

/-- `Flush`.  The first `flush_size_` bytes of `flush_buffer_` go to I/O. -/
def flush (m : LogManager) : LogManager :=
  let m := m.swapBuffers
  { m with flushSize := {}, handed := m.handed ++ m.flushBuffer.take m.flushSize.records }

/-! ## What the log buffer holds -/

/-- The records in the first `log_buffer_offset_` bytes of `log_buffer_`. -/
def live (m : LogManager) : List LogEntry := m.logBuffer.take m.logBufferOffset.records

/-- What holds of the log at all times. -/
structure Recorded (m : LogManager) : Prop where
  /-- The offset lies in the buffer. -/
  records_le : m.logBufferOffset.records ≤ m.logBuffer.length
  /-- The offset in bytes is the size of the records before it. -/
  bytes_eq : m.logBufferOffset.bytes = (m.live.map fun e ↦ e.record.size).sum
  /-- LSNs are given in order, from 1 on. -/
  lsns : m.appended.map LogEntry.lsn = List.range' 1 m.appended.length
  /-- The next LSN. -/
  nextLsn_eq : m.nextLsn = m.appended.length + 1
  /-- What was handed to I/O and what is in the log buffer was appended in that order. -/
  sublist : (m.handed ++ m.live).Sublist m.appended

/-- No record has been lost: each one appended was handed to I/O or is in the log buffer. -/
def Complete (m : LogManager) : Prop := m.handed ++ m.live = m.appended

/-- The records stand in the log in the order of their LSNs. -/
theorem Recorded.pairwise_lsn {m : LogManager} (h : m.Recorded) :
    m.appended.Pairwise fun e e' ↦ e.lsn < e'.lsn := by
  rw [← List.pairwise_map (f := LogEntry.lsn) (R := (· < ·)), h.lsns]
  exact List.pairwise_lt_range'

/-- No record has the LSN 0. -/
theorem Recorded.lsn_pos {m : LogManager} (h : m.Recorded) {e : LogEntry} (he : e ∈ m.appended) :
    0 < e.lsn := by
  have hmem : e.lsn ∈ m.appended.map LogEntry.lsn := List.mem_map_of_mem he
  rw [h.lsns, List.mem_range'_1] at hmem
  exact hmem.1

theorem recorded_init : Recorded {} where
  records_le := le_rfl
  bytes_eq := rfl
  lsns := rfl
  nextLsn_eq := rfl
  sublist := List.Sublist.refl _

@[simp] theorem live_swapBuffers (m : LogManager) : m.swapBuffers.live = [] := rfl

@[simp] theorem live_flush (m : LogManager) : m.flush.live = [] := rfl

@[simp] theorem handed_flush (m : LogManager) : m.flush.handed = m.handed ++ m.live := rfl

@[simp] theorem appended_flush (m : LogManager) : m.flush.appended = m.appended := rfl

theorem appendLogRecord_handed (m : LogManager) (r : LogRecord) :
    (m.appendLogRecord r).2.handed = m.handed := by
  rw [appendLogRecord]
  split <;> rfl

theorem appendLogRecord_appended (m : LogManager) (r : LogRecord) :
    (m.appendLogRecord r).2.appended = m.appended ++ [⟨m.nextLsn, r⟩] := by
  rw [appendLogRecord]
  split <;> rfl

theorem appendLogRecord_nextLsn (m : LogManager) (r : LogRecord) :
    (m.appendLogRecord r).2.nextLsn = m.nextLsn + 1 := by
  rw [appendLogRecord]
  split <;> rfl

theorem live_place {m : LogManager} (h : m.logBufferOffset.records ≤ m.logBuffer.length)
    (r : LogRecord) : (m.place r).live = m.live ++ [⟨m.nextLsn, r⟩] := by
  have hlen : (m.live ++ [LogEntry.mk m.nextLsn r]).length = m.logBufferOffset.records + 1 := by
    simp [live, h]
  exact List.take_of_length_le hlen.le

namespace Recorded

variable {m : LogManager} (h : m.Recorded)

include h

theorem swapBuffers : m.swapBuffers.Recorded where
  records_le := Nat.zero_le _
  bytes_eq := rfl
  lsns := h.lsns
  nextLsn_eq := h.nextLsn_eq
  sublist := by
    rw [live_swapBuffers, List.append_nil]
    exact (List.sublist_append_left _ _).trans h.sublist

theorem place (r : LogRecord) : (m.place r).Recorded where
  records_le := by
    have hlive : m.live.length = m.logBufferOffset.records := List.length_take_of_le h.records_le
    show _ + 1 ≤ (m.live ++ [LogEntry.mk m.nextLsn r]).length
    rw [List.length_append, hlive, List.length_singleton]
  bytes_eq := by
    rw [live_place h.records_le, List.map_append, List.sum_append, ← h.bytes_eq]
    simp [LogManager.place]
  lsns := by
    have happ : (m.place r).appended = m.appended ++ [LogEntry.mk m.nextLsn r] := rfl
    rw [happ, List.map_append, List.length_append, h.lsns]
    simp [List.range'_concat, h.nextLsn_eq, Nat.add_comm]
  nextLsn_eq := by simp [LogManager.place, h.nextLsn_eq]
  sublist := by
    rw [live_place h.records_le, ← List.append_assoc]
    exact h.sublist.append_right _

theorem appendLogRecord (r : LogRecord) : (m.appendLogRecord r).2.Recorded := by
  rw [LogManager.appendLogRecord]
  split
  · exact h.swapBuffers.place r
  · exact h.place r

theorem flush : m.flush.Recorded where
  records_le := Nat.zero_le _
  bytes_eq := rfl
  lsns := h.lsns
  nextLsn_eq := h.nextLsn_eq
  sublist := by
    rw [live_flush, List.append_nil]
    exact h.sublist

/-- A record that fits is added to the log buffer. -/
theorem complete_place_iff (r : LogRecord) : (m.place r).Complete ↔ m.Complete := by
  rw [Complete, live_place h.records_le, ← List.append_assoc]
  exact List.append_left_inj _

/-- Nothing is lost by an append exactly when it swaps out no records: no later step brings them
back. -/
theorem complete_appendLogRecord_iff_live (r : LogRecord) :
    (m.appendLogRecord r).2.Complete ↔ m.Complete ∧ (m.Overflows r → m.live = []) := by
  rw [LogManager.appendLogRecord]
  by_cases hov : m.Overflows r
  · rw [if_pos hov, h.swapBuffers.complete_place_iff, Complete, live_swapBuffers, List.append_nil]
    show m.handed = m.appended ↔ _
    refine ⟨fun hall ↦ ?_, ?_⟩
    · have hlen := h.sublist.length_le
      rw [← hall] at hlen
      have hnil : m.live = [] := by simpa using hlen
      exact ⟨by rw [Complete, hnil, List.append_nil, hall], fun _ ↦ hnil⟩
    · rintro ⟨hc, hlive⟩
      rwa [Complete, hlive hov, List.append_nil] at hc
  · rw [if_neg hov, h.complete_place_iff]
    exact (and_iff_left fun hov' ↦ absurd hov' hov).symm

/-- A record that is no larger than the buffer fits if there are none before it. -/
theorem live_ne_nil_of_overflows {r : LogRecord} (hr : r.size ≤ bufferSize) (hov : m.Overflows r) :
    m.live ≠ [] := by
  intro hlive
  have hbytes := h.bytes_eq
  rw [hlive] at hbytes
  rw [Overflows, hbytes] at hov
  exact absurd hov (by simpa using hr)

/-- **Nothing is lost by an append exactly when the record fits**, if it is no larger than the
buffer. -/
theorem complete_appendLogRecord_iff {r : LogRecord} (hr : r.size ≤ bufferSize) :
    (m.appendLogRecord r).2.Complete ↔ m.Complete ∧ ¬ m.Overflows r := by
  rw [h.complete_appendLogRecord_iff_live]
  refine and_congr_right fun _ ↦ ⟨fun hlive hov ↦ ?_, fun hfits hov ↦ absurd hov hfits⟩
  exact h.live_ne_nil_of_overflows hr hov (hlive hov)

end Recorded

theorem complete_flush_iff (m : LogManager) : m.flush.Complete ↔ m.Complete := by
  rw [Complete, live_flush, List.append_nil]
  rfl

end LogManager

end StingDB
