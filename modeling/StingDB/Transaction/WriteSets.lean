import StingDB.Transaction.TransactionManager

/-!
# Write sets

What a transaction's write set has to do with the log: it is made of the LSNs of the transaction's
own BEGIN and INSERT records.  `TransactionManager.TxnsAgree` is the invariant; `change` says what
one record and what becomes of its transaction have to be for it to be kept, and the calls of the
manager and the record of a row are instances of it.
-/

set_option autoImplicit false

namespace StingDB

namespace LogEntry

/-- The record of a transaction's own that goes into its write set. -/
def IsWrite (e : LogEntry) (txn : TxnId) : Prop :=
  e.record.txnId = txn ∧ (e.record.type = .begin ∨ e.record.type = .insert)

instance (txn : TxnId) : DecidablePred (IsWrite · txn) :=
  fun _ ↦ inferInstanceAs (Decidable (_ ∧ (_ ∨ _)))

end LogEntry

/-- The LSNs of a transaction's BEGIN and INSERT records. -/
def writeLsns (log : List LogEntry) (txn : TxnId) : List ℕ :=
  (log.filter fun e ↦ e.IsWrite txn).map LogEntry.lsn

theorem writeLsns_concat {log : List LogEntry} {e : LogEntry} (txn : TxnId) :
    writeLsns (log ++ [e]) txn =
      writeLsns log txn ++ if e.IsWrite txn then [e.lsn] else [] := by
  by_cases he : e.IsWrite txn <;> simp [writeLsns, List.filter_append, he]

namespace TransactionManager

/-- What the log has to do with the transactions. -/
structure TxnsAgree (m : TransactionManager) : Prop where
  recorded : m.logManager.Recorded
  /-- Only transactions that have begun have records. -/
  txnId_lt : ∀ e ∈ m.logManager.appended, e.record.txnId < m.nextTxnId
  txnId_eq : ∀ id t, m.txnMap id = some t → t.txnId = id
  known : ∀ id t, m.txnMap id = some t → id < m.nextTxnId
  writeSet : ∀ id t, m.txnMap id = some t → t.writeSet = writeLsns m.logManager.appended id

theorem txnsAgree_init : TxnsAgree {} where
  recorded := LogManager.recorded_init
  txnId_lt e he := absurd he List.not_mem_nil
  txnId_eq id t ht := absurd ht (by simp)
  known id t ht := absurd ht (by simp)
  writeSet id t ht := absurd ht (by simp)

namespace TxnsAgree

variable {m m' : TransactionManager} {t : Transaction} {e : LogEntry}

/-- A record of a transaction, and what the transaction is after it. -/
theorem change (h : m.TxnsAgree) (hrec : m'.logManager.Recorded)
    (hlog : m'.logManager.appended = m.logManager.appended ++ [e])
    (hid : e.record.txnId = t.txnId)
    (hmap : m'.txnMap = Function.update m.txnMap t.txnId (some t))
    (hle : m.nextTxnId ≤ m'.nextTxnId) (hlt : t.txnId < m'.nextTxnId)
    (hset : t.writeSet = writeLsns m'.logManager.appended t.txnId) : m'.TxnsAgree := by
  have hcases : ∀ id t', m'.txnMap id = some t' →
      id = t.txnId ∧ t' = t ∨ id ≠ t.txnId ∧ m.txnMap id = some t' := by
    intro id t' ht'
    rw [hmap] at ht'
    by_cases hne : id = t.txnId
    · subst hne
      rw [Function.update_self] at ht'
      exact Or.inl ⟨rfl, (Option.some.inj ht').symm⟩
    · rw [Function.update_of_ne hne] at ht'
      exact Or.inr ⟨hne, ht'⟩
  refine ⟨hrec, fun e' he' ↦ ?_, fun id t' ht' ↦ ?_, fun id t' ht' ↦ ?_, fun id t' ht' ↦ ?_⟩
  · rw [hlog] at he'
    rcases List.mem_append.mp he' with he' | he'
    · exact Nat.lt_of_lt_of_le (h.txnId_lt e' he') hle
    · rw [List.mem_singleton.mp he', hid]
      exact hlt
  · obtain ⟨rfl, rfl⟩ | ⟨-, ht⟩ := hcases id t' ht'
    · rfl
    · exact h.txnId_eq id t' ht
  · obtain ⟨rfl, rfl⟩ | ⟨-, ht⟩ := hcases id t' ht'
    · exact hlt
    · exact Nat.lt_of_lt_of_le (h.known id t' ht) hle
  · obtain ⟨rfl, rfl⟩ | ⟨hne, ht⟩ := hcases id t' ht'
    · exact hset
    · rw [hlog, writeLsns_concat, if_neg, List.append_nil, h.writeSet id t' ht]
      exact fun hw ↦ hne (hw.1.symm.trans hid)

theorem begin (h : m.TxnsAgree) (isoLevel : IsolationLevel) : (m.begin isoLevel).2.TxnsAgree := by
  let e : LogEntry := ⟨m.logManager.nextLsn, .ofType m.nextTxnId 0 .begin⟩
  have hlog : (m.begin isoLevel).2.logManager.appended = m.logManager.appended ++ [e] :=
    LogManager.appendLogRecord_appended _ _
  refine h.change (t := (m.begin isoLevel).1) (h.recorded.appendLogRecord _) hlog rfl rfl
    (Nat.le_succ _) (Nat.lt_succ_self _) ?_
  have hnone : writeLsns m.logManager.appended m.nextTxnId = [] := by
    rw [writeLsns, List.map_eq_nil_iff, List.filter_eq_nil_iff]
    intro e' he' hw
    exact (h.txnId_lt e' he').ne (of_decide_eq_true hw).1
  have hwrite : e.IsWrite m.nextTxnId := ⟨rfl, Or.inl rfl⟩
  show [m.logManager.nextLsn] = writeLsns _ m.nextTxnId
  rw [hlog, writeLsns_concat, hnone, if_pos hwrite, List.nil_append]

theorem flush (h : m.TxnsAgree) :
    ({ m with logManager := m.logManager.flush } : TransactionManager).TxnsAgree where
  recorded := h.recorded.flush
  txnId_lt := h.txnId_lt
  txnId_eq := h.txnId_eq
  known := h.known
  writeSet := h.writeSet

/-- A record that is neither a BEGIN nor an INSERT record does not go into a write set. -/
theorem finish (h : m.TxnsAgree) {id : TxnId} {t' : Transaction} (ht : m.txnMap id = some t)
    (hrec : m'.logManager.Recorded)
    (hlog : m'.logManager.appended = m.logManager.appended ++ [e])
    (hid : e.record.txnId = t.txnId) (hk : ¬ (e.record.type = .begin ∨ e.record.type = .insert))
    (hmap : m'.txnMap = Function.update m.txnMap t.txnId (some t'))
    (hnext : m'.nextTxnId = m.nextTxnId) (hid' : t'.txnId = t.txnId)
    (hset : t'.writeSet = t.writeSet) : m'.TxnsAgree := by
  have heq := h.txnId_eq id t ht
  refine h.change hrec hlog (hid.trans hid'.symm) (hid' ▸ hmap) hnext.ge ?_ ?_
  · rw [hid', heq, hnext]
    exact h.known id t ht
  · have hw : ¬ e.IsWrite id := mt And.right hk
    rw [hset, hid', heq, h.writeSet id t ht, hlog, writeLsns_concat, if_neg hw, List.append_nil]

theorem commit (h : m.TxnsAgree) {id : TxnId} (ht : m.txnMap id = some t) :
    (m.commit t).TxnsAgree := by
  rw [TransactionManager.commit]
  split
  · exact h
  · have hrec := (h.recorded.appendLogRecord (.ofType t.txnId 0 .commit)).flush
    exact h.finish ht hrec (LogManager.appendLogRecord_appended _ _) rfl
      (by simp [LogRecord.ofType]) rfl rfl rfl rfl

theorem abort (h : m.TxnsAgree) {id : TxnId} (ht : m.txnMap id = some t) :
    (m.abort t).TxnsAgree := by
  rw [TransactionManager.abort]
  split
  · exact h
  · have hrec := h.recorded.appendLogRecord (.ofType t.txnId 0 .abort)
    exact h.finish ht hrec (LogManager.appendLogRecord_appended _ _) rfl
      (by simp [LogRecord.ofType]) rfl rfl rfl rfl

/-- The record of a row, which goes into the write set. -/
theorem insert (h : m.TxnsAgree) {id : TxnId} (ht : m.txnMap id = some t) {r : LogRecord}
    (hr : r.txnId = t.txnId) (hk : r.type = .insert) :
    ((m.appendLogRecord r).2.setTxn (t.appendWriteSet (m.appendLogRecord r).1)).TxnsAgree := by
  let e : LogEntry := ⟨m.logManager.nextLsn, r⟩
  have hlog : (m.logManager.appendLogRecord r).2.appended = m.logManager.appended ++ [e] :=
    LogManager.appendLogRecord_appended _ _
  have heq := h.txnId_eq id t ht
  have hw : e.IsWrite t.txnId := ⟨hr, Or.inr hk⟩
  refine h.change (t := t.appendWriteSet (m.appendLogRecord r).1) (h.recorded.appendLogRecord r)
    hlog hr rfl le_rfl ?_ ?_
  · show t.txnId < m.nextTxnId
    rw [heq]
    exact h.known id t ht
  · show t.writeSet ++ [e.lsn] = writeLsns (m.logManager.appendLogRecord r).2.appended t.txnId
    rw [hlog, writeLsns_concat, if_pos hw, h.writeSet id t ht, heq]

/-- The LSNs of a write set increase. -/
theorem pairwise (h : m.TxnsAgree) {id : TxnId} (ht : m.txnMap id = some t) :
    t.writeSet.Pairwise (· < ·) := by
  rw [h.writeSet id t ht, writeLsns, List.pairwise_map]
  exact h.recorded.pairwise_lsn.sublist List.filter_sublist

/-- No LSN is in two write sets. -/
theorem disjoint (h : m.TxnsAgree) {id id' : TxnId} {t' : Transaction} (ht : m.txnMap id = some t)
    (ht' : m.txnMap id' = some t') (hne : id ≠ id') : t.writeSet.Disjoint t'.writeSet := by
  intro lsn hmem hmem'
  rw [h.writeSet id t ht] at hmem
  rw [h.writeSet id' t' ht'] at hmem'
  obtain ⟨e, he, rfl⟩ := List.mem_map.mp hmem
  obtain ⟨e', he', heq⟩ := List.mem_map.mp hmem'
  obtain ⟨hin, hw⟩ := List.mem_filter.mp he
  obtain ⟨hin', hw'⟩ := List.mem_filter.mp he'
  have hnodup : (m.logManager.appended.map LogEntry.lsn).Nodup := by
    rw [h.recorded.lsns]
    exact List.nodup_range'
  rw [List.inj_on_of_nodup_map hnodup hin' hin heq] at hw'
  exact hne ((of_decide_eq_true hw).1.symm.trans (of_decide_eq_true hw').1)

end TxnsAgree

end TransactionManager

end StingDB
