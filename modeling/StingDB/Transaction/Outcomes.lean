import Mathlib.Data.List.ReduceOption
import StingDB.Transaction.TransactionManager

/-!
# How transactions end, in their states and in the log

The calls on the transaction manager that begin and end transactions, in any order and as often as
one likes: a transaction can be committed twice, or aborted after it has been committed.  The
guards of `Commit` and `Abort` are not the same, but each keeps a transaction that has ended the
other way as it is.

So the log alone tells how each transaction ended (`outcomes_of_run`).  `History` is what there can
be in the log of one transaction: its BEGIN and then, once it has ended, records of that end only,
one for each time that it was ended.
-/

set_option autoImplicit false

namespace StingDB

namespace TransactionManager

open Machine

/-! ## The calls -/

/-- A call that moves transactions or epochs. -/
inductive Transition where
  | begin (isoLevel : IsolationLevel)
  | commit (txn : TxnId)
  | abort (txn : TxnId)
  /-- `AdvanceEpoch` of the epoch manager. -/
  | advanceEpoch
  deriving DecidableEq

/-- One call: the id of the transaction that has begun, if it was a `Begin`, and the manager after
it.  Only a transaction that has begun can be committed or aborted. -/
def transition (m : TransactionManager) : Transition → Option (Option TxnId × TransactionManager)
  | .begin isoLevel => some (some (m.begin isoLevel).1.txnId, (m.begin isoLevel).2)
  | .commit txn => (m.txnMap txn).map fun t ↦ (none, m.commit t)
  | .abort txn => (m.txnMap txn).map fun t ↦ (none, m.abort t)
  | .advanceEpoch => some (none, { m with epochManager := m.epochManager.advanceEpoch })

/-! ## Records and histories -/

/-- The log records of a transaction. -/
def records (m : TransactionManager) (id : TxnId) : List LogEntry :=
  m.logManager.appended.filter (·.record.txnId = id)

/-- Their types. -/
def recordTypes (m : TransactionManager) (id : TxnId) : List LogRecordType :=
  (m.records id).map (·.record.type)

/-- What a transaction has in the log, by its state. -/
inductive History : Option TransactionState → List LogRecordType → Prop where
  | unknown : History none []
  | active : History (some .active) [.begin]
  | committed (n : ℕ) : History (some .committed) (.begin :: List.replicate (n + 1) .commit)
  | aborted (n : ℕ) : History (some .aborted) (.begin :: List.replicate (n + 1) .abort)

/-- What ties the transactions to the log. -/
structure Chronicled (m : TransactionManager) : Prop where
  recorded : m.logManager.Recorded
  next_pos : 1 ≤ m.nextTxnId
  /-- Ids are given from 1 on. -/
  known : ∀ id : ℕ, m.txnMap id ≠ none ↔ 1 ≤ id ∧ id < m.nextTxnId
  txnId_eq : ∀ id t, m.txnMap id = some t → t.txnId = id
  history : ∀ id, History ((m.txnMap id).map (·.state)) (m.recordTypes id)

theorem chronicled_init : Chronicled {} where
  recorded := LogManager.recorded_init
  next_pos := le_rfl
  known id := by
    show (none : Option Transaction) ≠ none ↔ 1 ≤ id ∧ id < 1
    simp only [ne_eq, not_true, false_iff]
    omega
  txnId_eq id t h := absurd h (by simp)
  history id := .unknown

/-- The types of the records of each transaction, when one more record has been appended. -/
theorem recordTypes_of_appended {m m' : TransactionManager} {r : LogRecord} {lsn : ℕ}
    (h : m'.logManager.appended = m.logManager.appended ++ [⟨lsn, r⟩]) (id : TxnId) :
    m'.recordTypes id = m.recordTypes id ++ if r.txnId = id then [r.type] else [] := by
  by_cases hid : r.txnId = id <;> simp [recordTypes, records, h, List.filter_append, hid]

section

variable {m : TransactionManager} {t : Transaction}

theorem commit_txnMap (hst : t.state ≠ .aborted) : (m.commit t).txnMap =
    Function.update m.txnMap t.txnId (some { t with state := .committed }) := by
  rw [commit, if_neg hst]
  rfl

theorem abort_txnMap (hst : t.state ≠ .committed) : (m.abort t).txnMap =
    Function.update m.txnMap t.txnId (some { t with state := .aborted }) := by
  rw [abort, if_neg hst]
  rfl

@[simp] theorem commit_nextTxnId : (m.commit t).nextTxnId = m.nextTxnId := by
  rw [commit]
  split <;> rfl

@[simp] theorem abort_nextTxnId : (m.abort t).nextTxnId = m.nextTxnId := by
  rw [abort]
  split <;> rfl

end

/-- What a call does to the transactions and to the log: nothing, or one transaction becomes
another and one record of it is appended. -/
theorem transition_cases {m m' : TransactionManager} {c : Transition} {o : Option TxnId}
    (hs : m.transition c = some (o, m')) :
    (o = none ∧ m'.txnMap = m.txnMap ∧ m'.nextTxnId = m.nextTxnId ∧
        m'.logManager = m.logManager ∧
        m'.epochManager.activeEpochs = m.epochManager.activeEpochs) ∨
      (∃ isoLevel, c = .begin isoLevel ∧ o = some m.nextTxnId ∧ m' = (m.begin isoLevel).2) ∨
      (∃ id t, c = .commit id ∧ o = none ∧ m.txnMap id = some t ∧ t.state ≠ .aborted ∧
        m' = m.commit t) ∨
      ∃ id t, c = .abort id ∧ o = none ∧ m.txnMap id = some t ∧ t.state ≠ .committed ∧
        m' = m.abort t := by
  cases c with
  | begin isoLevel =>
    cases hs
    exact Or.inr (Or.inl ⟨isoLevel, rfl, rfl, rfl⟩)
  | commit id =>
    obtain ⟨t, ht, heq⟩ := Option.map_eq_some_iff.mp hs
    cases heq
    by_cases hst : t.state = .aborted
    · rw [commit, if_pos hst]
      exact Or.inl ⟨rfl, rfl, rfl, rfl, rfl⟩
    · exact Or.inr (Or.inr (Or.inl ⟨id, t, rfl, rfl, ht, hst, rfl⟩))
  | abort id =>
    obtain ⟨t, ht, heq⟩ := Option.map_eq_some_iff.mp hs
    cases heq
    by_cases hst : t.state = .committed
    · rw [abort, if_pos hst]
      exact Or.inl ⟨rfl, rfl, rfl, rfl, rfl⟩
    · exact Or.inr (Or.inr (Or.inr ⟨id, t, rfl, rfl, ht, hst, rfl⟩))
  | advanceEpoch =>
    cases hs
    exact Or.inl ⟨rfl, rfl, rfl, rfl, rfl⟩

theorem History.commit {state : TransactionState} {types : List LogRecordType}
    (h : History (some state) types) (hst : state ≠ .aborted) :
    History (some .committed) (types ++ [.commit]) := by
  cases h with
  | active => exact .committed 0
  | committed n =>
    rw [List.cons_append, ← List.replicate_succ']
    exact .committed (n + 1)
  | aborted n => exact absurd rfl hst

theorem History.abort {state : TransactionState} {types : List LogRecordType}
    (h : History (some state) types) (hst : state ≠ .committed) :
    History (some .aborted) (types ++ [.abort]) := by
  cases h with
  | active => exact .aborted 0
  | committed n => exact absurd rfl hst
  | aborted n =>
    rw [List.cons_append, ← List.replicate_succ']
    exact .aborted (n + 1)

namespace Chronicled

variable {m m' : TransactionManager} (h : m.Chronicled)

include h

theorem txnMap_nextTxnId : m.txnMap m.nextTxnId = none :=
  not_not.mp fun hne ↦ absurd ((h.known _).mp hne).2 (lt_irrefl _)

/-- One transaction becomes `t`, and a record of it, of the type `k`, is appended. -/
theorem change {t : Transaction} {k : LogRecordType} {lsn : ℕ}
    (hlog : m'.logManager.Recorded)
    (happ : m'.logManager.appended =
      m.logManager.appended ++ [⟨lsn, .ofType t.txnId 0 k⟩])
    (hmap : m'.txnMap = Function.update m.txnMap t.txnId (some t)) (hpos : 1 ≤ m'.nextTxnId)
    (hknown : ∀ id : ℕ, id = t.txnId ∨ m.txnMap id ≠ none ↔ 1 ≤ id ∧ id < m'.nextTxnId)
    (hhist : History (some t.state) (m.recordTypes t.txnId ++ [k])) : m'.Chronicled where
  recorded := hlog
  next_pos := hpos
  known id := by
    rw [← hknown, hmap]
    by_cases hid : id = t.txnId
    · simp [hid]
    · simp [hid]
  txnId_eq id t' ht' := by
    rw [hmap] at ht'
    by_cases hid : id = t.txnId
    · subst hid
      rw [Function.update_self] at ht'
      cases ht'
      rfl
    · rw [Function.update_of_ne hid] at ht'
      exact h.txnId_eq id t' ht'
  history id := by
    have htypes : m'.recordTypes id = m.recordTypes id ++ if t.txnId = id then [k] else [] :=
      recordTypes_of_appended happ id
    rw [htypes, hmap]
    by_cases hid : id = t.txnId
    · subst hid
      rw [Function.update_self, if_pos rfl]
      exact hhist
    · rw [Function.update_of_ne hid, if_neg (Ne.symm hid), List.append_nil]
      exact h.history id

theorem begin (isoLevel : IsolationLevel) : (m.begin isoLevel).2.Chronicled := by
  refine h.change (t := (m.begin isoLevel).1) (k := .begin)
    (h.recorded.appendLogRecord _) (LogManager.appendLogRecord_appended _ _) rfl
    (Nat.succ_le_succ (Nat.zero_le _)) (fun id ↦ ?_) ?_
  · rw [h.known id]
    have hsucc : ∀ n : ℕ, 1 ≤ n → (id = n ∨ 1 ≤ id ∧ id < n ↔ 1 ≤ id ∧ id < n + 1) := by omega
    exact hsucc m.nextTxnId h.next_pos
  · have hnone := h.history m.nextTxnId
    rw [h.txnMap_nextTxnId] at hnone
    generalize htypes : m.recordTypes m.nextTxnId = types at hnone
    cases hnone
    show History (some .active) (m.recordTypes m.nextTxnId ++ [.begin])
    rw [htypes]
    exact .active

/-- The calls that end a transaction know it. -/
theorem known_of_eq {id : TxnId} {t : Transaction} (ht : m.txnMap id = some t) (id' : ℕ) :
    id' = t.txnId ∨ m.txnMap id' ≠ none ↔ 1 ≤ id' ∧ id' < m.nextTxnId := by
  rw [← h.known id']
  refine ⟨?_, Or.inr⟩
  rintro (rfl | hne)
  · rw [h.txnId_eq id t ht, ht]
    simp
  · exact hne

theorem history_of_eq {id : TxnId} {t : Transaction} (ht : m.txnMap id = some t) :
    History (some t.state) (m.recordTypes t.txnId) := by
  have hid := h.history id
  rwa [ht, ← h.txnId_eq id t ht] at hid

theorem commit {id : TxnId} {t : Transaction} (ht : m.txnMap id = some t)
    (hst : t.state ≠ .aborted) : (m.commit t).Chronicled := by
  rw [TransactionManager.commit, if_neg hst]
  exact h.change (t := { t with state := .committed }) (k := .commit)
    (h.recorded.appendLogRecord _).flush (LogManager.appendLogRecord_appended _ _) rfl h.next_pos
    (fun id' ↦ h.known_of_eq ht id') ((h.history_of_eq ht).commit hst)

theorem abort {id : TxnId} {t : Transaction} (ht : m.txnMap id = some t)
    (hst : t.state ≠ .committed) : (m.abort t).Chronicled := by
  rw [TransactionManager.abort, if_neg hst]
  exact h.change (t := { t with state := .aborted }) (k := .abort)
    (h.recorded.appendLogRecord _) (LogManager.appendLogRecord_appended _ _) rfl h.next_pos
    (fun id' ↦ h.known_of_eq ht id') ((h.history_of_eq ht).abort hst)

theorem transition {c : Transition} {o : Option TxnId} (hs : m.transition c = some (o, m')) :
    m'.Chronicled := by
  obtain ⟨-, hmap, hnext, hlog, -⟩ | ⟨isoLevel, -, -, rfl⟩ | ⟨id, t, -, -, ht, hst, rfl⟩ |
    ⟨id, t, -, -, ht, hst, rfl⟩ := transition_cases hs
  · exact
      { recorded := hlog ▸ h.recorded
        next_pos := hnext ▸ h.next_pos
        known := fun id ↦ by rw [hmap, hnext]; exact h.known id
        txnId_eq := fun id t ht ↦ h.txnId_eq id t (hmap ▸ ht)
        history := fun id ↦ by rw [hmap, recordTypes, records, hlog]; exact h.history id }
  · exact h.begin isoLevel
  · exact h.commit ht hst
  · exact h.abort ht hst

/-- A transaction that has ended stays as it has ended. -/
theorem state_eq_of_transition {c : Transition} {o : Option TxnId}
    (hs : m.transition c = some (o, m')) {id : TxnId} {t : Transaction}
    (ht : m.txnMap id = some t) (hend : t.state = .committed ∨ t.state = .aborted) :
    ∃ t', m'.txnMap id = some t' ∧ t'.state = t.state := by
  obtain ⟨-, hmap, -⟩ | ⟨isoLevel, -, -, rfl⟩ | ⟨id₁, t₁, -, -, ht₁, hst, rfl⟩ |
    ⟨id₁, t₁, -, -, ht₁, hst, rfl⟩ := transition_cases hs
  · exact ⟨t, hmap ▸ ht, rfl⟩
  · have hne : id ≠ m.nextTxnId := by
      rintro rfl
      rw [h.txnMap_nextTxnId] at ht
      exact absurd ht (by simp)
    exact ⟨t, (Function.update_of_ne hne ..).trans ht, rfl⟩
  · rw [commit_txnMap hst]
    by_cases hid : id = t₁.txnId
    · -- the call is about this transaction, so it had been committed before
      rw [h.txnId_eq id₁ t₁ ht₁] at hid
      subst hid
      cases ht₁.symm.trans ht
      rw [h.txnId_eq id t ht, Function.update_self]
      exact ⟨_, rfl, (hend.resolve_right hst).symm⟩
    · exact ⟨t, (Function.update_of_ne hid ..).trans ht, rfl⟩
  · rw [abort_txnMap hst]
    by_cases hid : id = t₁.txnId
    · rw [h.txnId_eq id₁ t₁ ht₁] at hid
      subst hid
      cases ht₁.symm.trans ht
      rw [h.txnId_eq id t ht, Function.update_self]
      exact ⟨_, rfl, (hend.resolve_left hst).symm⟩
    · exact ⟨t, (Function.update_of_ne hid ..).trans ht, rfl⟩

end Chronicled

theorem chronicled_of_run {m : TransactionManager} {cs : List Transition}
    {os : List (Option TxnId)} (hr : run transition {} cs = some (os, m)) : m.Chronicled :=
  run_invariant (P := fun _ _ ↦ True) (fun _ _ _ _ h _ hs ↦ h.transition hs) chronicled_init
    along_true hr

/-! ## What the log tells -/

/-- The log has a record of the transaction, of this type. -/
def Logged (m : TransactionManager) (id : TxnId) (type : LogRecordType) : Prop :=
  ∃ e ∈ m.records id, e.record.type = type

/-- What the state of a transaction is by the log, and where its BEGIN record stands there. -/
structure Outcome (m : TransactionManager) (id : TxnId) (t : Transaction) : Prop where
  committed_iff : t.state = .committed ↔ m.Logged id .commit
  aborted_iff : t.state = .aborted ↔ m.Logged id .abort
  active_iff : t.state = .active ↔ ¬ m.Logged id .commit ∧ ¬ m.Logged id .abort
  begin_first : ∃ b es, m.records id = b :: es ∧ b.record.type = .begin ∧
    ∀ e ∈ es, e.record.type ≠ .begin ∧ b.lsn < e.lsn

theorem logged_iff_mem {m : TransactionManager} {id : TxnId} {type : LogRecordType} :
    m.Logged id type ↔ type ∈ m.recordTypes id := by
  simp [Logged, recordTypes]

theorem History.commit_mem_iff {state : Option TransactionState} {types : List LogRecordType}
    (h : History state types) : .commit ∈ types ↔ state = some .committed := by
  cases h <;> simp

theorem History.abort_mem_iff {state : Option TransactionState} {types : List LogRecordType}
    (h : History state types) : .abort ∈ types ↔ state = some .aborted := by
  cases h <;> simp

theorem History.active_iff {state : TransactionState} {types : List LogRecordType}
    (h : History (some state) types) :
    state = .active ↔ state ≠ .committed ∧ state ≠ .aborted := by
  cases h <;> simp

theorem History.begin_cons {state : TransactionState} {types : List LogRecordType}
    (h : History (some state) types) : ∃ rest, types = .begin :: rest ∧ .begin ∉ rest := by
  cases h
  · exact ⟨_, rfl, by simp⟩
  · exact ⟨_, rfl, by simp⟩
  · exact ⟨_, rfl, by simp⟩

/-- The records of a transaction stand in the log in the order of their LSNs. -/
theorem Chronicled.pairwise_lsn {m : TransactionManager} (h : m.Chronicled) (id : TxnId) :
    (m.records id).Pairwise fun e e' ↦ e.lsn < e'.lsn :=
  h.recorded.pairwise_lsn.sublist List.filter_sublist

theorem Chronicled.outcome {m : TransactionManager} (h : m.Chronicled) {id : TxnId}
    {t : Transaction} (ht : m.txnMap id = some t) : m.Outcome id t := by
  have hhist : History (some t.state) (m.recordTypes id) := by
    have hid := h.history id
    rwa [ht] at hid
  have hcommit : t.state = .committed ↔ m.Logged id .commit := by
    rw [logged_iff_mem, hhist.commit_mem_iff, Option.some.injEq]
  have habort : t.state = .aborted ↔ m.Logged id .abort := by
    rw [logged_iff_mem, hhist.abort_mem_iff, Option.some.injEq]
  refine ⟨hcommit, habort, ?_, ?_⟩
  · rw [hhist.active_iff, ← hcommit, ← habort]
  · obtain ⟨rest, hrest, hnot⟩ := hhist.begin_cons
    obtain ⟨b, es, hrec, hb, rfl⟩ := List.map_eq_cons_iff.mp hrest
    have hlt := h.pairwise_lsn id
    rw [hrec, List.pairwise_cons] at hlt
    refine ⟨b, es, hrec, hb, fun e he ↦ ⟨?_, hlt.1 e he⟩⟩
    intro htype
    exact hnot (htype ▸ List.mem_map_of_mem he)

/-- The ids that the `Begin`s of a run have returned. -/
theorem begun_of_run {m : TransactionManager} {cs : List Transition} {os : List (Option TxnId)}
    (hr : run transition {} cs = some (os, m)) :
    os.reduceOption = List.range' 1 (m.nextTxnId - 1) := by
  refine run_history (P := fun _ _ ↦ True)
    (I := fun _ os m ↦ os.reduceOption = List.range' 1 (m.nextTxnId - 1)) rfl ?_ along_true hr
  intro cs os m c o m' hr hos _ hs
  have hpos := (chronicled_of_run hr).next_pos
  rw [List.reduceOption_append, hos]
  obtain ⟨rfl, -, hnext, -⟩ | ⟨isoLevel, -, rfl, rfl⟩ | ⟨id, t, -, rfl, -, hst, rfl⟩ |
    ⟨id, t, -, rfl, -, hst, rfl⟩ := transition_cases hs
  · simp [hnext]
  · show _ ++ [m.nextTxnId] = List.range' 1 (m.nextTxnId + 1 - 1)
    obtain ⟨n, hn⟩ := Nat.exists_eq_add_of_le' hpos
    rw [hn]
    simp [List.range'_concat, Nat.add_comm]
  · simp
  · simp

/-- **Commit and abort exclude each other, in the states and in the log.**  After any sequence of
calls: the ids that the `Begin`s returned are pairwise different, and they are those of the
transactions there are; no transaction has both a COMMIT and an ABORT record; each one's state is
what the log says, and its one BEGIN record comes before all its others; and whatever is called
afterwards, a transaction that has been committed or aborted stays so. -/
theorem outcomes_of_run {m : TransactionManager} {cs : List Transition}
    {os : List (Option TxnId)} (hr : run transition {} cs = some (os, m)) :
    os.reduceOption.Nodup ∧ (∀ id, id ∈ os.reduceOption ↔ m.txnMap id ≠ none) ∧
      (∀ id, ¬ (m.Logged id .commit ∧ m.Logged id .abort)) ∧
      (∀ id t, m.txnMap id = some t → m.Outcome id t) ∧
      ∀ cs' os' m', run transition m cs' = some (os', m') → ∀ id t, m.txnMap id = some t →
        t.state = .committed ∨ t.state = .aborted →
          ∃ t', m'.txnMap id = some t' ∧ t'.state = t.state := by
  have h := chronicled_of_run hr
  refine ⟨?_, fun id ↦ ?_, fun id ↦ ?_, fun id t ht ↦ h.outcome ht, ?_⟩
  · rw [begun_of_run hr]
    exact List.nodup_range'
  · have hpos := h.next_pos
    rw [begun_of_run hr, List.mem_range'_1, h.known id]
    omega
  · rw [logged_iff_mem, logged_iff_mem, (h.history id).commit_mem_iff,
      (h.history id).abort_mem_iff]
    rintro ⟨hc, ha⟩
    rw [hc] at ha
    exact absurd ha (by simp)
  · intro cs' os' m' hr' id t ht hend
    have hkeep := run_invariant (P := fun _ _ ↦ True)
      (I := fun m' : TransactionManager ↦
        m'.Chronicled ∧ ∃ t', m'.txnMap id = some t' ∧ t'.state = t.state)
      ?_ ⟨h, t, ht, rfl⟩ along_true hr'
    · exact hkeep.2
    rintro m₁ c o m₂ ⟨h₁, t₁, ht₁, hst₁⟩ - hs
    obtain ⟨t₂, ht₂, hst₂⟩ := h₁.state_eq_of_transition hs ht₁ (hst₁ ▸ hend)
    exact ⟨h₁.transition hs, t₂, ht₂, hst₂.trans hst₁⟩

/-- Two transactions: the first is committed twice with an `Abort` in between, the second is
aborted. -/
theorem outcomes_of_run_two :
    ∃ m os, run transition {} [.begin .snapshotIsolation, .begin .snapshotIsolation, .commit 1,
        .abort 1, .abort 2, .commit 1] = some (os, m) ∧
      os.reduceOption.Nodup ∧ (∀ id, id ∈ os.reduceOption ↔ m.txnMap id ≠ none) ∧
      (∀ id, ¬ (m.Logged id .commit ∧ m.Logged id .abort)) ∧
      (∀ id t, m.txnMap id = some t → m.Outcome id t) ∧
      ∀ cs' os' m', run transition m cs' = some (os', m') → ∀ id t, m.txnMap id = some t →
        t.state = .committed ∨ t.state = .aborted →
          ∃ t', m'.txnMap id = some t' ∧ t'.state = t.state :=
  ⟨_, _, rfl, outcomes_of_run
    (rfl : run transition {} [.begin .snapshotIsolation, .begin .snapshotIsolation, .commit 1,
        .abort 1, .abort 2, .commit 1] = some _)⟩

end TransactionManager

end StingDB
