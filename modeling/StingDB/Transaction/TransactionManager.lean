import StingDB.Transaction.EpochManager
import StingDB.Transaction.LogManager

/-!
# Transactions

`transaction/transaction.h` and `transaction/transaction_manager.h`: transactions, which read in
an epoch and register the LSNs of their log records, and their manager, which gives out ids and
writes BEGIN, COMMIT and ABORT to the log.  `Commit` forces the log, for durability.

`handed_eq_appended_iff` is what that comes to, over every sequence of calls: when a `Flush`
returns, the one inside `Commit` or another, the log records appended so far have been handed to
I/O, each once and in LSN order, exactly when no append since the start has overflowed its buffer.

A `Transaction*` is the transaction it points to, and what is done to that is stored back in
`txn_map_` under the transaction's id.  Ids are `uint64_t` and taken as unbounded.
-/

set_option autoImplicit false

namespace StingDB

/-- `TransactionState` -/
inductive TransactionState where
  | active
  | committed
  | preAbort
  | aborted
  deriving DecidableEq

/-- `IsolationLevel` -/
inductive IsolationLevel where
  | readUncommitted
  | readCommitted
  | repeatableRead
  | serializable
  | snapshotIsolation
  deriving DecidableEq

/-- `Transaction`. -/
structure Transaction where
  /-- `state_` -/
  state : TransactionState := .active
  /-- `isolation_level_` -/
  isolationLevel : IsolationLevel := .repeatableRead
  /-- `txn_id_` -/
  txnId : TxnId
  /-- `read_epoch_` -/
  readEpoch : ℕ := 0
  /-- `manager_` is not null. -/
  hasManager : Bool := false
  /-- `write_set_` -/
  writeSet : List ℕ := []

namespace Transaction

/-- `EnterReadEpoch`. -/
def enterReadEpoch (t : Transaction) (epochs : EpochManager) : Transaction × EpochManager :=
  ({ t with readEpoch := epochs.enterEpoch.1, hasManager := true }, epochs.enterEpoch.2)

/-- `if (manager_) { manager_->ExitEpoch(read_epoch_); }` -/
def exitReadEpoch (t : Transaction) (epochs : EpochManager) : EpochManager :=
  if t.hasManager then epochs.exitEpoch t.readEpoch else epochs

/-- `Commit`. -/
def commit (t : Transaction) (epochs : EpochManager) : Transaction × EpochManager :=
  ({ t with state := .committed }, t.exitReadEpoch epochs)

/-- `Abort`. -/
def abort (t : Transaction) (epochs : EpochManager) : Transaction × EpochManager :=
  ({ t with state := .aborted }, t.exitReadEpoch epochs)

/-- `AppendWriteSet`. -/
def appendWriteSet (t : Transaction) (lsn : ℕ) : Transaction :=
  { t with writeSet := t.writeSet ++ [lsn] }

end Transaction

/-- `TransactionManager`. -/
structure TransactionManager where
  /-- `next_txn_id_` -/
  nextTxnId : TxnId := 1
  /-- `log_manager_` -/
  logManager : LogManager := {}
  /-- `epoch_manager_` -/
  epochManager : EpochManager := {}
  /-- `txn_map_` -/
  txnMap : TxnId → Option Transaction := fun _ ↦ none

namespace TransactionManager

open Machine

/-- What the transaction a pointer points to has become. -/
def setTxn (m : TransactionManager) (t : Transaction) : TransactionManager :=
  { m with txnMap := Function.update m.txnMap t.txnId (some t) }

/-- A transaction that is there stays there. -/
theorem setTxn_isSome {m : TransactionManager} (t : Transaction) {id : TxnId}
    (h : (m.txnMap id).isSome) : ((m.setTxn t).txnMap id).isSome := by
  by_cases hid : id = t.txnId
  · simp [setTxn, hid]
  · simpa [setTxn, hid] using h

/-- `Begin`: the transaction and the manager. -/
def begin (m : TransactionManager) (isoLevel : IsolationLevel) : Transaction × TransactionManager :=
  let newId := m.nextTxnId
  let txn : Transaction := { txnId := newId, isolationLevel := isoLevel }
  let (txn, epochs) := txn.enterReadEpoch m.epochManager
  let (beginLsn, log) := m.logManager.appendLogRecord (.ofType newId 0 .begin)
  let txn := txn.appendWriteSet beginLsn
  (txn, { m with nextTxnId := newId + 1, logManager := log, epochManager := epochs }.setTxn txn)

/-- `Commit`. -/
def commit (m : TransactionManager) (txn : Transaction) : TransactionManager :=
  if txn.state = .aborted then m
  else
    let log := (m.logManager.appendLogRecord (.ofType txn.txnId 0 .commit)).2
    let log := log.flush
    let (txn, epochs) := txn.commit m.epochManager
    { m with logManager := log, epochManager := epochs }.setTxn txn

/-- `Abort`. -/
def abort (m : TransactionManager) (txn : Transaction) : TransactionManager :=
  if txn.state = .committed then m
  else
    let log := (m.logManager.appendLogRecord (.ofType txn.txnId 0 .abort)).2
    let (txn, epochs) := txn.abort m.epochManager
    { m with logManager := log, epochManager := epochs }.setTxn txn

/-- `GetLogManager()->AppendLogRecord(&record)`: the LSN and the manager. -/
def appendLogRecord (m : TransactionManager) (r : LogRecord) : ℕ × TransactionManager :=
  let (lsn, log) := m.logManager.appendLogRecord r
  (lsn, { m with logManager := log })

/-! ## Runs -/

/-- A call that writes the log. -/
inductive Call where
  | begin (isoLevel : IsolationLevel)
  | appendLogRecord (r : LogRecord)
  | flush
  | commit (txn : TxnId)
  | abort (txn : TxnId)

/-- One call: the transaction id or the LSN returned, if any, and the manager after it.  Only a
transaction that has begun can be committed or aborted. -/
def step (m : TransactionManager) : Call → Option (Option ℕ × TransactionManager)
  | .begin isoLevel => some (some (m.begin isoLevel).1.txnId, (m.begin isoLevel).2)
  | .appendLogRecord r => some (some (m.appendLogRecord r).1, (m.appendLogRecord r).2)
  | .flush => some (none, { m with logManager := m.logManager.flush })
  | .commit txn => (m.txnMap txn).map fun t ↦ (none, m.commit t)
  | .abort txn => (m.txnMap txn).map fun t ↦ (none, m.abort t)

/-- The record that a call appends to the log. -/
def logged (m : TransactionManager) : Call → Option LogRecord
  | .begin _ => some (.ofType m.nextTxnId 0 .begin)
  | .appendLogRecord r => some r
  | .flush => none
  | .commit txn =>
    ((m.txnMap txn).filter (·.state ≠ .aborted)).map fun t ↦ .ofType t.txnId 0 .commit
  | .abort txn =>
    ((m.txnMap txn).filter (·.state ≠ .committed)).map fun t ↦ .ofType t.txnId 0 .abort

/-- The call makes a `Flush`: it is one, or the `Commit` of a transaction that was not aborted. -/
def Flushes (m : TransactionManager) : Call → Prop
  | .flush => True
  | .commit txn => ∃ t ∈ m.txnMap txn, t.state ≠ .aborted
  | _ => False

/-- The record that the call appends, if any, fits in the log buffer as it is. -/
def Fits (m : TransactionManager) (c : Call) : Prop :=
  ∀ r ∈ m.logged c, ¬ m.logManager.Overflows r

/-- What a call does to the log: it appends a record or not, and then flushes or not. -/
theorem step_log {m m' : TransactionManager} {c : Call} {o : Option ℕ}
    (hs : step m c = some (o, m')) :
    ∃ log : LogManager,
      (m.logged c = none ∧ log = m.logManager ∨
        ∃ r, m.logged c = some r ∧ log = (m.logManager.appendLogRecord r).2) ∧
      (¬ m.Flushes c ∧ m'.logManager = log ∨ m.Flushes c ∧ m'.logManager = log.flush) := by
  cases c with
  | begin isoLevel =>
    cases hs
    exact ⟨_, Or.inr ⟨_, rfl, rfl⟩, Or.inl ⟨id, rfl⟩⟩
  | appendLogRecord r =>
    cases hs
    exact ⟨_, Or.inr ⟨_, rfl, rfl⟩, Or.inl ⟨id, rfl⟩⟩
  | flush =>
    cases hs
    exact ⟨_, Or.inl ⟨rfl, rfl⟩, Or.inr ⟨trivial, rfl⟩⟩
  | commit txn =>
    obtain ⟨t, ht, hm⟩ := Option.map_eq_some_iff.mp hs
    cases hm
    by_cases hst : t.state = .aborted
    · refine ⟨_, Or.inl ⟨by simp [logged, ht, hst], rfl⟩, Or.inl ⟨?_, by simp [commit, hst]⟩⟩
      rintro ⟨t', ht', hne⟩
      rw [ht] at ht'
      cases ht'
      exact hne hst
    · exact ⟨_, Or.inr ⟨.ofType t.txnId 0 .commit, by simp [logged, ht, hst], rfl⟩,
        Or.inr ⟨⟨t, ht, hst⟩, by simp [commit, hst, setTxn]⟩⟩
  | abort txn =>
    obtain ⟨t, ht, hm⟩ := Option.map_eq_some_iff.mp hs
    cases hm
    by_cases hst : t.state = .committed
    · exact ⟨_, Or.inl ⟨by simp [logged, ht, hst], rfl⟩, Or.inl ⟨id, by simp [abort, hst]⟩⟩
    · exact ⟨_, Or.inr ⟨.ofType t.txnId 0 .abort, by simp [logged, ht, hst], rfl⟩,
        Or.inl ⟨id, by simp [abort, hst, setTxn]⟩⟩

theorem step_recorded {m m' : TransactionManager} {c : Call} {o : Option ℕ}
    (h : m.logManager.Recorded) (hs : step m c = some (o, m')) : m'.logManager.Recorded := by
  obtain ⟨log, happ, hfl⟩ := step_log hs
  have hlog : log.Recorded := by
    rcases happ with ⟨-, rfl⟩ | ⟨r, -, rfl⟩
    · exact h
    · exact h.appendLogRecord r
  rcases hfl with ⟨-, heq⟩ | ⟨-, heq⟩
  · rw [heq]; exact hlog
  · rw [heq]; exact hlog.flush

/-- The records that the calls of the manager itself make are far smaller than the buffer. -/
theorem logged_size_le {m : TransactionManager} {c : Call} {r : LogRecord}
    (hc : ∀ r', c = .appendLogRecord r' → r'.size ≤ LogManager.bufferSize)
    (hr : m.logged c = some r) : r.size ≤ LogManager.bufferSize := by
  have hheader : LogRecord.headerSize ≤ LogManager.bufferSize := by decide
  cases c with
  | begin isoLevel => cases hr; exact hheader
  | appendLogRecord r' => cases hr; exact hc r rfl
  | flush => cases hr
  | commit txn => obtain ⟨t, -, rfl⟩ := Option.map_eq_some_iff.mp hr; exact hheader
  | abort txn => obtain ⟨t, -, rfl⟩ := Option.map_eq_some_iff.mp hr; exact hheader

/-- A call loses no record exactly when the one it appends fits. -/
theorem step_complete_iff {m m' : TransactionManager} {c : Call} {o : Option ℕ}
    (h : m.logManager.Recorded)
    (hc : ∀ r, c = .appendLogRecord r → r.size ≤ LogManager.bufferSize)
    (hs : step m c = some (o, m')) :
    m'.logManager.Complete ↔ m.logManager.Complete ∧ m.Fits c := by
  obtain ⟨log, happ, hfl⟩ := step_log hs
  have hlog : log.Complete ↔ m.logManager.Complete ∧ m.Fits c := by
    rcases happ with ⟨hnone, rfl⟩ | ⟨r, hr, rfl⟩
    · simp [Fits, hnone]
    · rw [h.complete_appendLogRecord_iff (logged_size_le hc hr)]
      simp [Fits, hr]
  rw [← hlog]
  rcases hfl with ⟨-, heq⟩ | ⟨-, heq⟩
  · rw [heq]
  · rw [heq, LogManager.complete_flush_iff]

theorem recorded_of_run {m : TransactionManager} {cs : List Call} {os : List (Option ℕ)}
    (hr : run step {} cs = some (os, m)) : m.logManager.Recorded :=
  run_invariant (P := fun _ _ ↦ True) (I := fun m : TransactionManager ↦ m.logManager.Recorded)
    (fun _ _ _ _ h _ hs ↦ step_recorded h hs) LogManager.recorded_init along_true hr

/-- **A run loses no record exactly when every record fits where it comes.** -/
theorem complete_iff_fits {m : TransactionManager} {cs : List Call} {os : List (Option ℕ)}
    (hsize : ∀ r, .appendLogRecord r ∈ cs → r.size ≤ LogManager.bufferSize)
    (hr : run step {} cs = some (os, m)) :
    m.logManager.Complete ↔ Along step Fits {} cs := by
  induction cs using List.reverseRecOn generalizing m os with
  | nil =>
    cases hr
    exact iff_of_true rfl trivial
  | append_singleton cs c ih =>
    obtain ⟨m₁, os₁, o, hr₁, hs, rfl⟩ := run_concat.mp hr
    have hc : ∀ r, c = .appendLogRecord r → r.size ≤ LogManager.bufferSize := by
      rintro r rfl
      exact hsize r (by simp)
    rw [step_complete_iff (recorded_of_run hr₁) hc hs, along_concat,
      ih (fun r hmem ↦ hsize r (List.mem_append_left _ hmem)) hr₁]
    refine and_congr_right fun _ ↦ ⟨fun hfit os' m' hr' ↦ ?_, fun hfit ↦ hfit os₁ m₁ hr₁⟩
    rw [hr₁] at hr'
    cases hr'
    exact hfit

/-- **No log record is lost, and when.**  After any run of calls and one more that makes a
`Flush`: what has been handed to I/O, in the order in which it was, is all that was appended, whose
LSNs are 1, 2, 3 and so on, exactly when every record of the run fitted in the log buffer as the
buffer was when it came. -/
theorem handed_eq_appended_iff {m m' : TransactionManager} {cs : List Call} {c : Call}
    {os : List (Option ℕ)} {o : Option ℕ}
    (hsize : ∀ r, .appendLogRecord r ∈ cs → r.size ≤ LogManager.bufferSize)
    (hr : run step {} cs = some (os, m)) (hs : step m c = some (o, m')) (hc : m.Flushes c) :
    (m'.logManager.handed = m'.logManager.appended ↔ Along step Fits {} (cs ++ [c])) ∧
      m'.logManager.appended.map LogEntry.lsn =
        List.range' 1 m'.logManager.appended.length := by
  have hr' : run step {} (cs ++ [c]) = some (os ++ [o], m') :=
    run_concat.mpr ⟨m, os, o, hr, hs, rfl⟩
  have hlive : m'.logManager.live = [] := by
    obtain ⟨log, -, ⟨hnot, -⟩ | ⟨-, heq⟩⟩ := step_log hs
    · exact absurd hc hnot
    · rw [heq, LogManager.live_flush]
  refine ⟨?_, (recorded_of_run hr').lsns⟩
  rw [← complete_iff_fits ?_ hr', LogManager.Complete, hlive, List.append_nil]
  intro r hmem
  rcases List.mem_append.mp hmem with hmem | hmem
  · exact hsize r hmem
  · rw [← List.mem_singleton.mp hmem] at hc
    exact hc.elim

/-- The log record of an INSERT of 8176 zero bytes by transaction 1. -/
def largeInsert : LogRecord :=
  { size := 8204, type := .insert, txnId := 1, insertTuple := List.replicate 8176 0 }

theorem largeInsert_eq : largeInsert = .ofTuple 1 0 .insert {} (List.replicate 8176 0) := by
  rw [LogRecord.ofTuple, List.length_replicate]
  rfl

/-- Transaction 1 begins and inserts one large tuple. -/
def inserting : List Call := [.begin .snapshotIsolation, .appendLogRecord largeInsert]

theorem handed_eq_appended_iff_commit :
    ∃ m os m' o, run step {} inserting = some (os, m) ∧ step m (.commit 1) = some (o, m') ∧
      m'.logManager.handed = m'.logManager.appended ∧
      m'.logManager.appended.map LogEntry.lsn = List.range' 1 m'.logManager.appended.length := by
  have hsize : ∀ r, .appendLogRecord r ∈ inserting → r.size ≤ LogManager.bufferSize := by
    intro r hr
    obtain rfl : r = largeInsert := by simpa [inserting] using hr
    decide
  have hfits : Along step Fits {} (inserting ++ [.commit 1]) := by
    refine .cons ?_ rfl (.cons ?_ rfl (.cons ?_ rfl trivial)) <;>
      · rintro r hr
        cases hr
        decide
  obtain ⟨hiff, hlsns⟩ := handed_eq_appended_iff hsize (rfl : run step {} inserting = some _)
    (rfl : step _ (.commit 1) = some _) ⟨_, rfl, by decide⟩
  exact ⟨_, _, _, _, rfl, rfl, hiff.mpr hfits, hlsns⟩

/-- Transaction 1 inserts two large tuples and commits: its BEGIN and its first INSERT, with LSNs
1 and 2, are never handed to I/O. -/
theorem begin_lost :
    ∃ m os m' o, run step {} [.begin .snapshotIsolation, .appendLogRecord largeInsert,
        .appendLogRecord largeInsert] = some (os, m) ∧ m.Flushes (.commit 1) ∧
      step m (.commit 1) = some (o, m') ∧
      m'.logManager.appended.map LogEntry.lsn = [1, 2, 3, 4] ∧
      m'.logManager.handed.map LogEntry.lsn = [3, 4] := by
  exact ⟨_, _, _, _, rfl, ⟨_, rfl, by decide⟩, rfl, rfl, rfl⟩

end TransactionManager

end StingDB
