import StingDB.Transaction.ThreadEpochs

/-!
# Log and states among threads

A call writes its record first and sets the state of its transaction later, and a `Commit` flushes
the log in between.  So while threads are in their calls the log is ahead of the states, by one
record for each thread that is there (`Ledger`), and where no thread is, the two agree:
`outcomes_of_orderly` says that the log of a transaction then has its BEGIN, and after it the COMMIT
or the ABORT that its state tells, once.

`committed_handed` is about the `Flush`: as long as no swap comes while records wait to be written,
a transaction is committed only when its COMMIT has been handed to I/O, and all that was logged
before it.
-/

set_option autoImplicit false

namespace StingDB

open Machine

/-- The thread has written a record of this type for the transaction, and what it does to the
transaction itself is still to come. -/
def TxnPc.logged (id : TxnId) (type : LogRecordType) : TxnPc → Bool
  | begun txn => txn.txnId = id ∧ type = .begin
  | commitLogged txn | flushing txn _ | flushed txn => txn = id ∧ type = .commit
  | abortLogged txn => txn = id ∧ type = .abort
  | _ => false

namespace TxnThreads

/-- What is in the log of a transaction, but for the tuples that it has inserted. -/
def outcomes (s : TxnThreads) (id : TxnId) : List LogRecordType :=
  (s.manager.recordTypes id).filter (· ≠ .insert)

/-- What a record of this type says of the transaction is so. -/
def shows (s : TxnThreads) (id : TxnId) : LogRecordType → Bool
  | .begin => (s.txnMap id).isSome
  | .commit => (s.txnMap id).any (·.state = .committed)
  | .abort => (s.txnMap id).any (·.state = .aborted)
  | _ => false

/-- The log is ahead of the transactions by what the threads have written. -/
structure Ledger (s : TxnThreads) : Prop where
  placed : s.Placed
  count : ∀ id type, (s.outcomes id).count type =
    s.threads (TxnPc.logged id type) + if s.shows id type then 1 else 0
  first : ∀ id, s.outcomes id = [] ∨ ∃ rest, s.outcomes id = .begin :: rest

variable {s s' : TxnThreads} {thread : ℕ}

theorem ledger_init (poolSize : ℕ) : Ledger { poolSize } where
  placed := placed_init poolSize
  count id type := by
    have hthreads : threads { poolSize } (TxnPc.logged id type) = 0 :=
      List.countP_eq_zero.mpr fun i _ ↦ by simp [TxnPc.logged]
    rw [hthreads]
    cases type <;> rfl
  first id := Or.inl rfl

/-- One more record in the log. -/
theorem outcomes_append (r : LogRecord) (id : TxnId) :
    { s with log := s.log.appendLogRecord r }.outcomes id =
      s.outcomes id ++ if r.txnId = id ∧ r.type ≠ .insert then [r.type] else [] := by
  have happ : (manager { s with log := s.log.appendLogRecord r }).logManager.appended =
      s.manager.logManager.appended ++ [⟨s.log.manager.nextLsn, r⟩] := by
    show (s.log.appendLogRecord r).manager.appended = _
    rw [LogThreads.appendLogRecord_manager]
    exact LogManager.appendLogRecord_appended _ _
  have htypes := TransactionManager.recordTypes_of_appended happ id
  rw [outcomes, htypes, List.filter_append]
  by_cases hid : r.txnId = id <;> by_cases hk : r.type = .insert <;> simp [hid, hk, outcomes]

theorem goto_outcomes (pc : TxnPc) : (s.goto thread pc).outcomes = s.outcomes := rfl

/-- A thread logs a record and goes on. -/
theorem outcomes_log (id : TxnId) {type : LogRecordType} (hins : type ≠ .insert) (pc : TxnPc)
    (id' : TxnId) :
    ({ s with log := s.log.appendLogRecord (.ofType id 0 type) }.goto thread pc).outcomes id' =
      s.outcomes id' ++ if id = id' then [type] else [] := by
  rw [goto_outcomes, outcomes_append]
  simp only [LogRecord.ofType, ne_eq, hins, not_false_eq_true, and_true]

/-- A change that leaves the state of a transaction as it is. -/
theorem shows_modify (id : TxnId) (f : Transaction → Transaction)
    (hf : ∀ t, (f t).state = t.state) : (s.modify id f).shows = s.shows := by
  funext id' type
  have hmap : (s.modify id f).txnMap id' =
      (s.txnMap id').map (if id' = id then f else fun t ↦ t) := by
    by_cases hid : id' = id
    · subst hid
      rw [if_pos rfl, modify_txnMap_self]
    · rw [if_neg hid, Option.map_id', modify_txnMap_of_ne hid]
  have hstate : ∀ t, ((if id' = id then f else fun t ↦ t) t).state = t.state := by
    intro t
    split
    · exact hf t
    · rfl
  cases type <;> simp [shows, hmap, Option.any_map, hstate]

namespace Ledger

variable (h : s.Ledger)

include h

/-- Nothing is changed that is in the ledger. -/
theorem of_same (hp : s'.Placed) (hcalls : s'.calls = s.calls) (hpool : s'.poolSize = s.poolSize)
    (hout : s'.outcomes = s.outcomes) (hshows : s'.shows = s.shows) : s'.Ledger where
  placed := hp
  count id type := by
    rw [hout, hshows, h.count id type, threads, threads, hcalls, hpool]
  first id := by
    rw [hout]
    exact h.first id

/-- A thread goes on, and logs no record. -/
theorem goto (hi : thread < s.poolSize) {pc : TxnPc} (hp : (s.goto thread pc).Placed)
    (hpc : ∀ id type, pc.logged id type = (s.calls thread).logged id type) :
    (s.goto thread pc).Ledger where
  placed := hp
  count id type := by
    have hthreads := threads_goto hi pc (TxnPc.logged id type)
    rw [hpc] at hthreads
    rw [Nat.add_right_cancel hthreads]
    exact h.count id type
  first := h.first

/-- A thread logs a record. -/
theorem append (hi : thread < s.poolSize) {pc : TxnPc} {id : TxnId} {type : LogRecordType}
    (hp : ({ s with log := s.log.appendLogRecord (.ofType id 0 type) }.goto thread pc).Placed)
    (hold : ∀ id' type', (s.calls thread).logged id' type' = false)
    (hnew : ∀ id' type', pc.logged id' type' = decide (id = id' ∧ type = type'))
    (hins : type ≠ .insert) (hfirst : type ≠ .begin → s.shows id .begin) :
    ({ s with log := s.log.appendLogRecord (.ofType id 0 type) }.goto thread pc).Ledger where
  placed := hp
  count id' type' := by
    have hthreads := threads_goto (s := { s with log := s.log.appendLogRecord (.ofType id 0 type) })
      hi pc (TxnPc.logged id' type')
    have hcount := h.count id' type'
    have hold' := hold id' type'
    simp only [hold', hnew, decide_eq_true_eq, Bool.false_eq_true, if_false, Nat.add_zero]
      at hthreads
    rw [hthreads, outcomes_log id hins, List.count_append, hcount]
    have hone : List.count type' (if id = id' then [type] else []) =
        if id = id' ∧ type = type' then 1 else 0 := by
      by_cases hid : id = id' <;> simp [hid, List.count_singleton]
    rw [hone]
    exact Nat.add_right_comm ..
  first id' := by
    rw [outcomes_log id hins]
    rcases h.first id' with hnil | ⟨rest, hrest⟩
    · rw [hnil, List.nil_append]
      by_cases hid : id = id'
      · -- the first record of a transaction is its BEGIN: others are for those that are known
        rw [if_pos hid]
        refine Or.inr ⟨[], ?_⟩
        by_contra hne
        have hcount := h.count id' .begin
        rw [hnil, ← hid, hfirst (by simpa using hne)] at hcount
        simp at hcount
      · exact Or.inl (if_neg hid)
    · rw [hrest]
      exact Or.inr ⟨_, rfl⟩

/-- What a record says of a transaction becomes so, and the thread goes on. -/
theorem settle (hi : thread < s.poolSize) {pc : TxnPc} (id : TxnId) (type : LogRecordType)
    (hp : s'.Placed) (hcalls : s'.calls = Function.update s.calls thread pc)
    (hpool : s'.poolSize = s.poolSize) (hlog : s'.log = s.log)
    (hold : ∀ id' type', (s.calls thread).logged id' type' = decide (id = id' ∧ type = type'))
    (hnew : ∀ id' type', pc.logged id' type' = false)
    (hshows : ∀ id' type', s'.shows id' type' =
      (s.shows id' type' || decide (id = id' ∧ type = type')))
    (hfresh : s.shows id type = false) : s'.Ledger where
  placed := hp
  count id' type' := by
    have hthreads := threads_goto hi pc (TxnPc.logged id' type')
    have hcount := h.count id' type'
    have hsame : s'.threads (TxnPc.logged id' type') =
        (s.goto thread pc).threads (TxnPc.logged id' type') := by
      rw [threads, threads, hcalls, hpool]
      rfl
    have hout : s'.outcomes id' = s.outcomes id' := by
      rw [outcomes, outcomes, manager, manager, hlog]
      rfl
    rw [hold, hnew] at hthreads
    rw [hout, hcount, hsame, hshows]
    by_cases heq : id = id' ∧ type = type'
    · obtain ⟨rfl, rfl⟩ := heq
      simp only [hfresh, and_self, decide_true, if_true, Bool.false_eq_true, if_false,
        Nat.add_zero, Bool.false_or] at hthreads ⊢
      omega
    · simp only [heq, decide_false, Bool.false_eq_true, if_false, Nat.add_zero,
        Bool.or_false] at hthreads ⊢
      rw [hthreads]
  first id' := by
    have hout : s'.outcomes id' = s.outcomes id' := by
      rw [outcomes, outcomes, manager, manager, hlog]
      rfl
    rw [hout]
    exact h.first id'

/-- The state of a transaction is set that was active. -/
theorem settle_state (hi : thread < s.poolSize) {txn : TxnId} {t : Transaction}
    {state : TransactionState} {type : LogRecordType} (ht : s.txnMap txn = some t)
    (hact : t.state = .active)
    (hkind : state = .committed ∧ type = .commit ∨ state = .aborted ∧ type = .abort)
    (hp : ((s.modify txn fun t ↦ { t with state }).goto thread (.leaving txn)).Placed)
    (hold : ∀ id type', (s.calls thread).logged id type' = decide (txn = id ∧ type = type')) :
    ((s.modify txn fun t ↦ { t with state }).goto thread (.leaving txn)).Ledger := by
  refine h.settle hi txn type hp rfl rfl rfl hold (fun _ _ ↦ rfl) (fun id type' ↦ ?_) ?_
  · by_cases hid : id = txn
    · subst hid
      have hmap : ((s.modify id fun t ↦ { t with state }).goto thread (.leaving id)).txnMap id =
          some { t with state } := (modify_txnMap_self id _).trans (by rw [ht, Option.map_some])
      rcases hkind with ⟨rfl, rfl⟩ | ⟨rfl, rfl⟩ <;> cases type' <;> simp [shows, hmap, ht, hact]
    · have hmap : ((s.modify txn fun t ↦ { t with state }).goto thread (.leaving txn)).txnMap id =
          s.txnMap id := modify_txnMap_of_ne hid _
      have hne : ¬ (txn = id ∧ type = type') := fun heq ↦ hid heq.1.symm
      rw [decide_eq_false hne, Bool.or_false]
      cases type' <;> simp [shows, hmap]
  · rcases hkind with ⟨-, rfl⟩ | ⟨-, rfl⟩ <;> simp [shows, ht, hact]

theorem next {o : Option TxnId} (hi : thread < s.poolSize) (hord : s.Orderly (.next thread))
    (hn : s.next thread (s.calls thread) = some (o, s')) : s'.Ledger := by
  have hp := h.placed.next hn
  have hord' := hord hi
  generalize hpc : s.calls thread = pc at hn hord'
  cases pc with
  | idle => cases hn
  | numbered txn =>
    cases hn
    exact h.goto hi hp fun id type ↦ by rw [hpc]; rfl
  | loaded txn epoch =>
    cases hn
    have hmid : Ledger { s with epochManager := s.epochManager.addCount epoch 1 } :=
      h.of_same (h.placed.addCount epoch 1) rfl rfl rfl rfl
    exact hmid.goto hi hp fun id type ↦ by rw [hpc]; rfl
  | entered txn =>
    cases hn
    exact h.append hi hp (fun id type ↦ by rw [hpc]; rfl)
      (fun id type ↦ by simp [TxnPc.logged, Transaction.appendWriteSet, eq_comm]) (by decide)
      (fun hne ↦ absurd rfl hne)
  | begun txn =>
    obtain ⟨hst, hnone, -⟩ := h.placed.starting thread txn (by rw [hpc]; rfl)
    cases hn
    refine h.settle hi txn.txnId .begin hp rfl rfl rfl
      (fun id type ↦ by rw [hpc]; simp [TxnPc.logged, eq_comm]) (fun _ _ ↦ rfl)
      (fun id type ↦ ?_) (by simp [shows, hnone])
    by_cases hid : id = txn.txnId
    · subst hid
      have hmap : ({ s with txnMap := Function.update s.txnMap txn.txnId (some txn) }.goto thread
          .idle).txnMap txn.txnId = some txn := Function.update_self ..
      cases type <;> simp [shows, hmap, hnone, hst]
    · have hmap : ({ s with txnMap := Function.update s.txnMap txn.txnId (some txn) }.goto thread
          .idle).txnMap id = s.txnMap id := Function.update_of_ne hid ..
      rw [decide_eq_false fun heq ↦ hid heq.1.symm, Bool.or_false]
      cases type <;> simp [shows, hmap]
  | commit txn =>
    have hmap := h.placed.ending thread txn (by rw [hpc]; rfl)
    cases hn
    exact h.append hi hp (fun id type ↦ by rw [hpc]; rfl)
      (fun id type ↦ by simp [TxnPc.logged, eq_comm]) (by decide)
      (fun _ ↦ Option.isSome_iff_ne_none.mpr hmap)
  | commitLogged txn =>
    cases hn
    have hmid : Ledger { s with log := s.log.beginFlush } :=
      h.of_same (h.placed.setLog _) rfl rfl rfl rfl
    exact hmid.goto hi hp fun id type ↦ by rw [hpc]; rfl
  | flushing txn ticket =>
    cases hn
    have hmid : Ledger { s with log := s.log.endFlush ticket } :=
      h.of_same (h.placed.setLog _) rfl rfl rfl rfl
    exact hmid.goto hi hp fun id type ↦ by rw [hpc]; rfl
  | flushed txn =>
    obtain ⟨t, ht⟩ := Option.ne_none_iff_exists'.mp
      (h.placed.ending thread txn (by rw [hpc]; rfl))
    cases hn
    exact h.settle_state hi ht (hord' t ht) (Or.inl ⟨rfl, rfl⟩) hp
      fun id type ↦ by rw [hpc]; simp [TxnPc.logged, eq_comm]
  | abort txn =>
    have hmap := h.placed.ending thread txn (by rw [hpc]; rfl)
    cases hn
    exact h.append hi hp (fun id type ↦ by rw [hpc]; rfl)
      (fun id type ↦ by simp [TxnPc.logged, eq_comm]) (by decide)
      (fun _ ↦ Option.isSome_iff_ne_none.mpr hmap)
  | abortLogged txn =>
    obtain ⟨t, ht⟩ := Option.ne_none_iff_exists'.mp
      (h.placed.ending thread txn (by rw [hpc]; rfl))
    cases hn
    exact h.settle_state hi ht (hord' t ht) (Or.inr ⟨rfl, rfl⟩) hp
      fun id type ↦ by rw [hpc]; simp [TxnPc.logged, eq_comm]
  | leaving txn =>
    obtain ⟨t, ht⟩ := Option.ne_none_iff_exists'.mp
      (h.placed.ending thread txn (by rw [hpc]; rfl))
    rw [TxnThreads.next, ht, Option.elim_some, Transaction.exitReadEpoch,
      if_pos (h.placed.known txn t ht).2.2] at hn
    cases hn
    have hmid : Ledger { s with epochManager := s.epochManager.addCount t.readEpoch (-1) } :=
      h.of_same (h.placed.addCount t.readEpoch (-1)) rfl rfl rfl rfl
    exact hmid.goto hi hp fun id type ↦ by rw [hpc]; rfl

theorem step {e : Event} {o : Option TxnId} (hord : s.Orderly e)
    (hs : s.step e = some (o, s')) : s'.Ledger := by
  have hp := h.placed.step hs
  cases e with
  | begin thread isoLevel =>
    rw [TxnThreads.step] at hs
    split at hs
    · rename_i hfree
      cases hs
      have hmid : Ledger { s with nextTxnId := s.nextTxnId + 1 } :=
        h.of_same h.placed.number rfl rfl rfl rfl
      exact hmid.goto hfree.1 hp fun id type ↦ by rw [hfree.2]; rfl
    · cases hs
  | commit thread txn =>
    rw [TxnThreads.step] at hs
    split at hs
    · rename_i hfree
      obtain ⟨t, ht, heq⟩ := Option.map_eq_some_iff.mp hs
      cases heq
      split
      · exact h
      · rename_i hst
        rw [if_neg hst] at hp
        exact h.goto hfree.1 hp fun id type ↦ by rw [hfree.2]; rfl
    · cases hs
  | abort thread txn =>
    rw [TxnThreads.step] at hs
    split at hs
    · rename_i hfree
      obtain ⟨t, ht, heq⟩ := Option.map_eq_some_iff.mp hs
      cases heq
      split
      · exact h
      · rename_i hst
        rw [if_neg hst] at hp
        exact h.goto hfree.1 hp fun id type ↦ by rw [hfree.2]; rfl
    · cases hs
  | next thread =>
    rw [TxnThreads.step] at hs
    split at hs
    · rename_i hi
      exact h.next hi hord hs
    · cases hs
  | insert txn prevLsn rid tuple =>
    obtain ⟨t, ht, heq⟩ := Option.map_eq_some_iff.mp hs
    cases heq
    refine h.of_same hp rfl rfl (funext fun id ↦ ?_)
      (shows_modify txn (·.appendWriteSet s.log.manager.nextLsn) fun _ ↦ rfl)
    refine (outcomes_append (s := s) (.ofTuple txn prevLsn .insert rid tuple) id).trans ?_
    simp [LogRecord.ofTuple]
  | advanceEpoch =>
    cases hs
    exact h.of_same hp rfl rfl rfl rfl

end Ledger

/-! ## Runs -/

variable {poolSize : ℕ} {es : List Event} {os : List (Option TxnId)}

theorem ledger_of_run (hr : run step { poolSize } es = some (os, s))
    (hord : Along step Orderly { poolSize } es) : s.Ledger :=
  run_invariant (fun _ _ _ _ h hord hs ↦ h.step hord hs) (ledger_init poolSize) hord hr

/-- How a transaction has ended, by its state. -/
def ended : TransactionState → Option LogRecordType
  | .committed => some .commit
  | .aborted => some .abort
  | _ => none

/-- A list that has each element as often as an option has it. -/
theorem eq_toList_of_count {l : List LogRecordType} {o : Option LogRecordType}
    (h : ∀ k, l.count k = if o = some k then 1 else 0) : l = o.toList := by
  cases o with
  | none =>
    refine List.eq_nil_iff_forall_not_mem.mpr fun k hk ↦ ?_
    have hcount := h k
    rw [if_neg (by simp)] at hcount
    exact List.count_eq_zero.mp hcount hk
  | some a =>
    have hall : ∀ k ∈ l, k = a := by
      intro k hk
      by_contra hne
      have hcount := h k
      rw [if_neg (by simpa using Ne.symm hne)] at hcount
      exact List.count_eq_zero.mp hcount hk
    have hrep := List.eq_replicate_of_mem hall
    have hone := h a
    rw [if_pos rfl, hrep, List.count_replicate_self] at hone
    rw [hrep, hone]
    rfl

/-- Where no thread is between a record of a transaction and what it says, the log has what the
transaction has come to. -/
theorem Ledger.outcomes_eq (h : s.Ledger) {id : TxnId}
    (hquiet : ∀ i, i < s.poolSize → ∀ type, (s.calls i).logged id type = false) :
    s.outcomes id = ((s.txnMap id).map fun t ↦ .begin :: (ended t.state).toList).getD [] := by
  have hcount : ∀ type, (s.outcomes id).count type = if s.shows id type then 1 else 0 := by
    intro type
    have hthreads : s.threads (TxnPc.logged id type) = 0 :=
      List.countP_eq_zero.mpr fun i hi ↦ by simp [hquiet i (List.mem_range.mp hi) type]
    rw [h.count, hthreads, Nat.zero_add]
  cases ht : s.txnMap id with
  | none =>
    refine List.eq_nil_iff_forall_not_mem.mpr fun type htype ↦ ?_
    have hnone := hcount type
    rw [if_neg (by cases type <;> simp [shows, ht])] at hnone
    exact List.count_eq_zero.mp hnone htype
  | some t =>
    have hone := hcount .begin
    rw [if_pos (by simp [shows, ht])] at hone
    rcases h.first id with hnil | ⟨rest, hrest⟩
    · rw [hnil] at hone
      simp at hone
    · rw [hrest]
      refine congrArg _ (eq_toList_of_count fun type ↦ ?_)
      have htype := hcount type
      rw [hrest] at hone htype
      cases type <;> cases hst : t.state <;>
        simp [shows, ht, ended, hst] at hone htype ⊢ <;> omega

/-- A step returns the id of a transaction that becomes known by it, or none does. -/
theorem step_known (h : s.Placed) {e : Event} {o : Option TxnId} (hs : s.step e = some (o, s')) :
    (∀ id, s'.txnMap id ≠ none ↔ s.txnMap id ≠ none ∨ o = some id) ∧
      ∀ id, o = some id → s.txnMap id = none := by
  have hmodify (id : TxnId) (f : Transaction → Transaction) (id' : TxnId) :
      (s.modify id f).txnMap id' ≠ none ↔ s.txnMap id' ≠ none := by
    by_cases hid : id' = id
    · subst hid
      rw [modify_txnMap_self, ne_eq, Option.map_eq_none_iff]
    · rw [modify_txnMap_of_ne hid]
  cases e with
  | begin thread isoLevel =>
    rw [step] at hs
    split at hs
    · cases hs
      exact ⟨fun id ↦ (or_iff_left (by simp)).symm, by simp⟩
    · cases hs
  | commit thread txn =>
    rw [step] at hs
    split at hs
    · obtain ⟨t, ht, heq⟩ := Option.map_eq_some_iff.mp hs
      cases heq
      refine ⟨fun id ↦ ?_, by simp⟩
      split <;> exact (or_iff_left (by simp)).symm
    · cases hs
  | abort thread txn =>
    rw [step] at hs
    split at hs
    · obtain ⟨t, ht, heq⟩ := Option.map_eq_some_iff.mp hs
      cases heq
      refine ⟨fun id ↦ ?_, by simp⟩
      split <;> exact (or_iff_left (by simp)).symm
    · cases hs
  | next thread =>
    rw [step] at hs
    split at hs
    · generalize hpc : s.calls thread = pc at hs
      cases pc with
      | idle => cases hs
      | begun txn =>
        obtain ⟨-, hnone, -⟩ := h.starting thread txn (by rw [hpc]; rfl)
        cases hs
        refine ⟨fun id ↦ ?_, fun id hid ↦ by cases hid; exact hnone⟩
        by_cases hid : id = txn.txnId
        · subst hid
          exact iff_of_true (by simp [goto]) (Or.inr rfl)
        · simp [goto, Function.update_of_ne hid, Ne.symm hid]
      | flushed txn =>
        cases hs
        exact ⟨fun id ↦ (hmodify txn _ id).trans (or_iff_left (by simp)).symm, by simp⟩
      | abortLogged txn =>
        cases hs
        exact ⟨fun id ↦ (hmodify txn _ id).trans (or_iff_left (by simp)).symm, by simp⟩
      | _ =>
        cases hs
        exact ⟨fun id ↦ (or_iff_left (by simp)).symm, by simp⟩
    · cases hs
  | insert txn prevLsn rid tuple =>
    obtain ⟨t, ht, heq⟩ := Option.map_eq_some_iff.mp hs
    cases heq
    exact ⟨fun id ↦ (hmodify txn _ id).trans (or_iff_left (by simp)).symm, by simp⟩
  | advanceEpoch =>
    cases hs
    exact ⟨fun id ↦ (or_iff_left (by simp)).symm, by simp⟩

theorem placed_of_run (hr : run step { poolSize } es = some (os, s)) : s.Placed :=
  run_invariant (P := fun _ _ ↦ True) (fun _ _ _ _ h _ hs ↦ h.step hs) (placed_init poolSize)
    along_true hr

/-- The ids that the `Begin`s have returned. -/
theorem returned_of_run (hr : run step { poolSize } es = some (os, s)) :
    os.reduceOption.Nodup ∧ ∀ id, id ∈ os.reduceOption ↔ s.txnMap id ≠ none := by
  refine run_history (P := fun _ _ ↦ True) (I := fun _ os (s : TxnThreads) ↦
    os.reduceOption.Nodup ∧ ∀ id, id ∈ os.reduceOption ↔ s.txnMap id ≠ none) ?_ ?_ along_true hr
  · exact ⟨List.nodup_nil, fun id ↦ by simp⟩
  intro es os s e o s' hr ⟨hnodup, hmem⟩ _ hs
  obtain ⟨hknown, hfresh⟩ := step_known (placed_of_run hr) hs
  rw [List.reduceOption_append]
  cases o with
  | none =>
    refine ⟨by simpa using hnodup, fun id ↦ ?_⟩
    rw [hknown]
    simpa using hmem id
  | some id =>
    have hnot : id ∉ os.reduceOption := fun hid ↦ (hmem id).mp hid (hfresh id rfl)
    rw [List.reduceOption_singleton]
    refine ⟨List.nodup_append.mpr ⟨hnodup, List.nodup_singleton _, ?_⟩, fun id' ↦ ?_⟩
    · rintro a ha b hb rfl
      exact hnot (List.mem_singleton.mp hb ▸ ha)
    · rw [hknown, List.mem_append, hmem]
      simp [eq_comm]

/-- **Transactions among threads.**  In every interleaving in which no step sets the state of a
transaction that is not active any more, and none counts one that is the `2 ^ 31`st in its slot
(`Orderly`): the ids that the `Begin`s have returned are pairwise different, and those of the
transactions there are; where no thread is between a record of a transaction and what it says, the
log has the BEGIN of the transaction, first, and then the record of the end that its state tells,
once, and nothing if it is active; and when no thread is in a call, each counter of the ring is the
number of active transactions of its slot. -/
theorem outcomes_of_orderly (hr : run step { poolSize } es = some (os, s))
    (hord : Along step Orderly { poolSize } es) :
    os.reduceOption.Nodup ∧ (∀ id, id ∈ os.reduceOption ↔ s.txnMap id ≠ none) ∧
      (∀ id, (∀ i, i < s.poolSize → ∀ type, (s.calls i).logged id type = false) →
        s.outcomes id = ((s.txnMap id).map fun t ↦ .begin :: (ended t.state).toList).getD []) ∧
      ((∀ i, i < s.poolSize → s.calls i = .idle) → ∀ slot, slot < maxEpochs →
        s.epochManager.activeEpochs slot = s.manager.activeIn slot) := by
  obtain ⟨hnodup, hmem⟩ := returned_of_run hr
  refine ⟨hnodup, hmem, fun id ↦ (ledger_of_run hr hord).outcomes_eq, fun hrest slot hslot ↦ ?_⟩
  have hmatch := run_invariant (I := fun s : TxnThreads ↦ s.Placed ∧ s.EpochsMatch)
    (fun _ _ _ _ h hord hs ↦ ⟨h.1.step hs, (step_epochsMatch_iff h.1 h.2 hs).mpr hord⟩)
    ⟨placed_init poolSize, epochsMatch_init poolSize⟩ hord hr
  rw [hmatch.2 slot hslot, inside_of_rest hrest]

/-- Two threads begin at the same time; the one commits and the other aborts. -/
def twoThreads : List Event :=
  [.begin 0 .snapshotIsolation, .begin 1 .snapshotIsolation, .next 1, .advanceEpoch, .next 0,
    .next 0, .next 1, .next 1, .next 0, .next 1, .next 0, .commit 0 1, .abort 1 2, .next 0,
    .next 1, .next 0, .next 0, .next 1, .next 0, .next 1, .next 0]

theorem outcomes_of_orderly_two :
    ∃ os s, run step { poolSize := 2 } twoThreads = some (os, s) ∧
      os.reduceOption.Nodup ∧ (∀ id, id ∈ os.reduceOption ↔ s.txnMap id ≠ none) ∧
      (∀ id, (∀ i, i < s.poolSize → ∀ type, (s.calls i).logged id type = false) →
        s.outcomes id = ((s.txnMap id).map fun t ↦ .begin :: (ended t.state).toList).getD []) ∧
      ((∀ i, i < s.poolSize → s.calls i = .idle) → ∀ slot, slot < maxEpochs →
        s.epochManager.activeEpochs slot = s.manager.activeIn slot) :=
  ⟨_, _, rfl, outcomes_of_orderly (rfl : run step { poolSize := 2 } twoThreads = some _)
    (by decide)⟩

end TxnThreads

end StingDB
