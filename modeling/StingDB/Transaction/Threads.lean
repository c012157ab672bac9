import StingDB.Transaction.EpochAccounting
import StingDB.Transaction.GroupCommit

/-!
# Transactions on many threads

`Begin`, `Commit` and `Abort` hold no latch from their beginning to their end.  Here they are taken
apart into their atomic steps (a `fetch_add`, a load, an append to the log, the two halves of a
`Flush`, a change of `state_`), and any number of threads take theirs in any order.  So a
transaction can get its id before another one and its epoch and its LSN after it, and two threads
can be in a `Commit` or an `Abort` of one transaction at the same time.

The epoch counters are to tell how many transactions are inside an epoch, and they do in the
middle of all calls as well: a transaction is inside from the `fetch_add` of its `Begin` to the
`fetch_sub` of the call that ends it.  `counted_iff_orderly` says how long: until a call sets the
state of a transaction that is not active any more.

What a thread does by itself is what the manager does (`begin_alone`, `commit_alone`,
`abort_alone`).
-/

set_option autoImplicit false

namespace StingDB

open Machine

deriving instance DecidableEq for Transaction

/-! ## The threads -/

/-- Where a thread is in a call of the transaction manager. -/
inductive TxnPc where
  /-- In none. -/
  | idle
  /-- `Begin` has an id. -/
  | numbered (txn : Transaction)
  /-- `EnterEpoch` has loaded the global epoch. -/
  | loaded (txn : Transaction) (epoch : ℕ)
  /-- It has counted the transaction. -/
  | entered (txn : Transaction)
  /-- BEGIN is in the log. -/
  | begun (txn : Transaction)
  /-- `Commit` is past its test. -/
  | commit (txn : TxnId)
  /-- COMMIT is in the log. -/
  | commitLogged (txn : TxnId)
  /-- `Flush` has swapped the buffers. -/
  | flushing (txn : TxnId) (ticket : ℕ)
  /-- It has returned. -/
  | flushed (txn : TxnId)
  /-- `Abort` is past its test. -/
  | abort (txn : TxnId)
  /-- ABORT is in the log. -/
  | abortLogged (txn : TxnId)
  /-- `state_` is set, and the epoch is still to be left. -/
  | leaving (txn : TxnId)
  deriving DecidableEq

namespace TxnPc

/-- The transaction that is beginning. -/
def starts : TxnPc → Option Transaction
  | numbered txn | loaded txn _ | entered txn | begun txn => some txn
  | _ => none

/-- The transaction that is beginning and has been counted. -/
def registered : TxnPc → Option Transaction
  | entered txn | begun txn => some txn
  | _ => none

/-- The transaction that is being ended. -/
def ends : TxnPc → Option TxnId
  | commit txn | commitLogged txn | flushing txn _ | flushed txn | abort txn | abortLogged txn
  | leaving txn => some txn
  | _ => none

end TxnPc

/-- The transaction manager and the threads that call it. -/
structure TxnThreads where
  /-- The number of threads. -/
  poolSize : ℕ
  /-- `next_txn_id_` -/
  nextTxnId : TxnId := 1
  /-- `epoch_manager_` -/
  epochManager : EpochManager := {}
  /-- `log_manager_` -/
  log : LogThreads := {}
  /-- `txn_map_` -/
  txnMap : TxnId → Option Transaction := fun _ ↦ none
  /-- Where each thread is. -/
  calls : ℕ → TxnPc := fun _ ↦ .idle

namespace TxnThreads

/-- The transaction manager alone. -/
def manager (s : TxnThreads) : TransactionManager :=
  ⟨s.nextTxnId, s.log.manager, s.epochManager, s.txnMap⟩

/-- A thread goes on to another place. -/
def goto (s : TxnThreads) (thread : ℕ) (pc : TxnPc) : TxnThreads :=
  { s with calls := Function.update s.calls thread pc }

/-- What the transaction a pointer points to becomes. -/
def modify (s : TxnThreads) (txn : TxnId) (f : Transaction → Transaction) : TxnThreads :=
  { s with txnMap := Function.update s.txnMap txn ((s.txnMap txn).map f) }

/-- An atomic step of some thread. -/
inductive Event where
  /-- The first of a `Begin`: its id. -/
  | begin (thread : ℕ) (isoLevel : IsolationLevel)
  /-- The first of a `Commit`: its test. -/
  | commit (thread : ℕ) (txn : TxnId)
  /-- The first of an `Abort`: its test. -/
  | abort (thread : ℕ) (txn : TxnId)
  /-- The next of the call that the thread is in. -/
  | next (thread : ℕ)
  /-- An executor logs a tuple that it has inserted, and registers the LSN. -/
  | insert (txn : TxnId) (prevLsn : ℕ) (rid : RID) (tuple : List UInt8)
  | advanceEpoch

/-- The next step of a thread: the id that is returned, at the end of a `Begin`, and the state. -/
def next (s : TxnThreads) (thread : ℕ) : TxnPc → Option (Option TxnId × TxnThreads)
  | .idle => none
  | .numbered txn => some (none, s.goto thread (.loaded txn s.epochManager.globalEpoch))
  | .loaded txn epoch =>
    some (none, { s with epochManager := s.epochManager.addCount epoch 1 }.goto thread
      (.entered { txn with readEpoch := epoch, hasManager := true }))
  | .entered txn =>
    some (none, { s with log := s.log.appendLogRecord (.ofType txn.txnId 0 .begin) }.goto thread
      (.begun (txn.appendWriteSet s.log.manager.nextLsn)))
  | .begun txn =>
    some (some txn.txnId, { s with
      txnMap := Function.update s.txnMap txn.txnId (some txn) }.goto thread .idle)
  | .commit txn =>
    some (none, { s with log := s.log.appendLogRecord (.ofType txn 0 .commit) }.goto thread
      (.commitLogged txn))
  | .commitLogged txn =>
    some (none, { s with log := s.log.beginFlush }.goto thread (.flushing txn s.log.tickets))
  | .flushing txn ticket =>
    some (none, { s with log := s.log.endFlush ticket }.goto thread (.flushed txn))
  | .flushed txn =>
    some (none, (s.modify txn fun t ↦ { t with state := .committed }).goto thread (.leaving txn))
  | .abort txn =>
    some (none, { s with log := s.log.appendLogRecord (.ofType txn 0 .abort) }.goto thread
      (.abortLogged txn))
  | .abortLogged txn =>
    some (none, (s.modify txn fun t ↦ { t with state := .aborted }).goto thread (.leaving txn))
  | .leaving txn =>
    some (none, { s with
      epochManager := (s.txnMap txn).elim s.epochManager (·.exitReadEpoch s.epochManager) }.goto
        thread .idle)

/-- The thread is in no call. -/
def Free (s : TxnThreads) (thread : ℕ) : Prop := thread < s.poolSize ∧ s.calls thread = .idle

instance (s : TxnThreads) (thread : ℕ) : Decidable (s.Free thread) :=
  inferInstanceAs (Decidable (_ ∧ _))

/-- One step.  Only a transaction that a `Begin` has returned can be committed or aborted, or insert
tuples. -/
def step (s : TxnThreads) : Event → Option (Option TxnId × TxnThreads)
  | .begin thread isoLevel =>
    if s.Free thread then
      some (none, { s with nextTxnId := s.nextTxnId + 1 }.goto thread
        (.numbered { txnId := s.nextTxnId, isolationLevel := isoLevel }))
    else none
  | .commit thread txn =>
    if s.Free thread then (s.txnMap txn).map fun t ↦
      (none, if t.state = .aborted then s else s.goto thread (.commit txn))
    else none
  | .abort thread txn =>
    if s.Free thread then (s.txnMap txn).map fun t ↦
      (none, if t.state = .committed then s else s.goto thread (.abort txn))
    else none
  | .next thread => if thread < s.poolSize then s.next thread (s.calls thread) else none
  | .insert txn prevLsn rid tuple => (s.txnMap txn).map fun _ ↦
      (none, { s.modify txn (·.appendWriteSet s.log.manager.nextLsn) with
        log := s.log.appendLogRecord (.ofTuple txn prevLsn .insert rid tuple) })
  | .advanceEpoch => some (none, { s with epochManager := s.epochManager.advanceEpoch })

/-! ## One thread by itself -/

variable {s s' : TxnThreads} {thread : ℕ}

@[simp] theorem goto_calls_self (pc : TxnPc) : (s.goto thread pc).calls thread = pc :=
  Function.update_self ..

theorem goto_calls_of_ne {i : ℕ} (h : i ≠ thread) (pc : TxnPc) :
    (s.goto thread pc).calls i = s.calls i :=
  Function.update_of_ne h ..

theorem modify_txnMap_self (txn : TxnId) (f : Transaction → Transaction) :
    (s.modify txn f).txnMap txn = (s.txnMap txn).map f :=
  Function.update_self ..

theorem modify_txnMap_of_ne {txn txn' : TxnId} (h : txn' ≠ txn) (f : Transaction → Transaction) :
    (s.modify txn f).txnMap txn' = s.txnMap txn' :=
  Function.update_of_ne h ..

theorem step_next (hi : thread < s.poolSize) :
    s.step (.next thread) = s.next thread (s.calls thread) :=
  if_pos hi

/-- A thread that is at a place and takes its steps from there. -/
theorem run_next {pc : TxnPc} {o : Option TxnId} {os : List (Option TxnId)} {s₁ : TxnThreads}
    {n : ℕ} (hi : thread < s.poolSize) (hpc : s.calls thread = pc)
    (hn : s.next thread pc = some (o, s₁))
    (hr : run step s₁ (List.replicate n (.next thread)) = some (os, s')) :
    run step s (List.replicate (n + 1) (.next thread)) = some (o :: os, s') :=
  run_cons.mpr ⟨o, s₁, os, by rw [step_next hi, hpc, hn], hr, rfl⟩

/-- `Begin`. -/
theorem begin_alone (hf : s.Free thread) (isoLevel : IsolationLevel) :
    ∃ s', run step s (.begin thread isoLevel :: List.replicate 4 (.next thread)) =
        some ([none, none, none, none, some s.nextTxnId], s') ∧
      s'.manager = (s.manager.begin isoLevel).2 ∧ s'.Free thread := by
  refine ⟨_, run_cons.mpr ⟨_, _, [none, none, none, some s.nextTxnId], if_pos hf,
    run_next hf.1 (goto_calls_self _) rfl (run_next hf.1 (goto_calls_self _) rfl
      (run_next hf.1 (goto_calls_self _) rfl (run_next hf.1 (goto_calls_self _) rfl rfl))), rfl⟩,
    ?_, hf.1, goto_calls_self _⟩
  show TransactionManager.mk _ (s.log.appendLogRecord _).manager _ _ = _
  rw [LogThreads.appendLogRecord_manager]
  rfl

/-- A step that writes the log and goes on. -/
theorem next_log {pc pc' : TxnPc} {log : LogThreads} (hpc : s.calls thread = pc)
    (hn : s.next thread pc = some (none, { s with log := log }.goto thread pc')) :
    ∃ s₁, s.next thread (s.calls thread) = some (none, s₁) ∧ s₁.calls thread = pc' ∧
      s₁.log = log ∧ s₁.poolSize = s.poolSize ∧ s₁.nextTxnId = s.nextTxnId ∧
      s₁.epochManager = s.epochManager ∧ s₁.txnMap = s.txnMap :=
  ⟨{ s with log := log }.goto thread pc', hpc ▸ hn, goto_calls_self _, rfl, rfl, rfl, rfl, rfl⟩

/-- The end of a `Commit` or an `Abort`. -/
theorem end_alone {pc : TxnPc} {t : Transaction} {state : TransactionState}
    (hi : thread < s.poolSize) (hpc : s.calls thread = pc) (ht : s.txnMap t.txnId = some t)
    (hn : s.next thread pc = some (none,
      (s.modify t.txnId fun t ↦ { t with state }).goto thread (.leaving t.txnId))) :
    ∃ s', run step s (List.replicate 2 (.next thread)) = some (List.replicate 2 none, s') ∧
      s'.manager = .mk s.nextTxnId s.log.manager (t.exitReadEpoch s.epochManager)
        (Function.update s.txnMap t.txnId (some { t with state })) ∧
      s'.Free thread := by
  refine ⟨_, run_next hi hpc hn (run_next hi (goto_calls_self _) rfl rfl), ?_, hi,
    goto_calls_self _⟩
  simp only [manager, goto, modify, ht, Function.update_self, Option.map_some, Option.elim_some]
  rfl

/-- `Commit` of a transaction that has not been aborted. -/
theorem commit_alone (hf : s.Free thread) {t : Transaction} (ht : s.txnMap t.txnId = some t)
    (hst : t.state ≠ .aborted) :
    ∃ s', run step s (.commit thread t.txnId :: List.replicate 5 (.next thread)) =
        some (List.replicate 6 none, s') ∧
      s'.manager = s.manager.commit t ∧ s'.Free thread := by
  have hs : s.step (.commit thread t.txnId) = some (none, s.goto thread (.commit t.txnId)) := by
    rw [step, if_pos hf, ht, Option.map_some, if_neg hst]
  obtain ⟨s₁, hn₁, hpc₁, hlog₁, hpool₁, hnext₁, hep₁, hmap₁⟩ :=
    next_log (s := s.goto thread (.commit t.txnId)) (goto_calls_self _) rfl
  obtain ⟨s₂, hn₂, hpc₂, hlog₂, hpool₂, hnext₂, hep₂, hmap₂⟩ := next_log hpc₁ rfl
  obtain ⟨s₃, hn₃, hpc₃, hlog₃, hpool₃, hnext₃, hep₃, hmap₃⟩ := next_log hpc₂ rfl
  have hi₁ : thread < s₁.poolSize := hpool₁ ▸ hf.1
  have hi₂ : thread < s₂.poolSize := hpool₂ ▸ hi₁
  have hi₃ : thread < s₃.poolSize := hpool₃ ▸ hi₂
  have ht₃ : s₃.txnMap t.txnId = some t := by rw [hmap₃, hmap₂, hmap₁]; exact ht
  obtain ⟨s', hr, hm, hf'⟩ := end_alone hi₃ hpc₃ ht₃ rfl
  refine ⟨s', run_cons.mpr ⟨none, _, _, hs, run_next hf.1 rfl hn₁ (run_next hi₁ rfl hn₂
    (run_next hi₂ rfl hn₃ hr)), rfl⟩, ?_, hf'⟩
  rw [hm, hlog₃, hlog₂, hlog₁, hnext₃, hnext₂, hnext₁, hep₃, hep₂, hep₁, hmap₃, hmap₂, hmap₁,
    TransactionManager.commit, if_neg hst]
  have hflush (l : LogThreads) : (l.beginFlush.endFlush l.tickets).manager = l.manager.flush := rfl
  rw [hflush, LogThreads.appendLogRecord_manager]
  rfl

/-- `Abort` of a transaction that has not been committed. -/
theorem abort_alone (hf : s.Free thread) {t : Transaction} (ht : s.txnMap t.txnId = some t)
    (hst : t.state ≠ .committed) :
    ∃ s', run step s (.abort thread t.txnId :: List.replicate 3 (.next thread)) =
        some (List.replicate 4 none, s') ∧
      s'.manager = s.manager.abort t ∧ s'.Free thread := by
  have hs : s.step (.abort thread t.txnId) = some (none, s.goto thread (.abort t.txnId)) := by
    rw [step, if_pos hf, ht, Option.map_some, if_neg hst]
  obtain ⟨s₁, hn₁, hpc₁, hlog₁, hpool₁, hnext₁, hep₁, hmap₁⟩ :=
    next_log (s := s.goto thread (.abort t.txnId)) (goto_calls_self _) rfl
  have hi₁ : thread < s₁.poolSize := hpool₁ ▸ hf.1
  obtain ⟨s', hr, hm, hf'⟩ := end_alone (t := t) hi₁ hpc₁ (by rw [hmap₁]; exact ht) rfl
  refine ⟨s', run_cons.mpr ⟨none, _, _, hs, run_next hf.1 rfl hn₁ hr, rfl⟩, ?_, hf'⟩
  rw [hm, hlog₁, hnext₁, hep₁, hmap₁, LogThreads.appendLogRecord_manager,
    TransactionManager.abort, if_neg hst]
  rfl

/-! ## Where the transactions are -/

/-- What holds of the threads and the transactions at all times. -/
structure Placed (s : TxnThreads) : Prop where
  /-- The transactions that a `Begin` has returned. -/
  known : ∀ id t, s.txnMap id = some t →
    t.txnId = id ∧ id < s.nextTxnId ∧ t.hasManager = true
  /-- Those that are beginning. -/
  starting : ∀ i t, (s.calls i).starts = some t →
    t.state = .active ∧ s.txnMap t.txnId = none ∧ t.txnId < s.nextTxnId
  registered : ∀ i t, (s.calls i).registered = some t → t.hasManager = true
  distinct : ∀ i j t t', (s.calls i).starts = some t → (s.calls j).starts = some t' →
    t.txnId = t'.txnId → i = j
  ending : ∀ i id, (s.calls i).ends = some id → s.txnMap id ≠ none
  count_lt : ∀ slot, s.epochManager.activeEpochs slot < 2 ^ 31

theorem placed_init (poolSize : ℕ) : Placed { poolSize } where
  known id t ht := absurd ht (by simp)
  starting i t ht := absurd ht (by simp [TxnPc.starts])
  registered i t ht := absurd ht (by simp [TxnPc.registered])
  distinct i j t t' ht := absurd ht (by simp [TxnPc.starts])
  ending i id hid := absurd hid (by simp [TxnPc.ends])
  count_lt slot := by
    show (0 : ℤ) < 2 ^ 31
    decide

namespace Placed

variable (h : s.Placed)

include h

/-- A thread goes on. -/
theorem goto {pc : TxnPc}
    (hstarts : ∀ t, pc.starts = some t → (t.state = .active ∧ s.txnMap t.txnId = none ∧
      t.txnId < s.nextTxnId) ∧ ∀ i, i ≠ thread → ∀ t', (s.calls i).starts = some t' →
        t'.txnId ≠ t.txnId)
    (hreg : ∀ t, pc.registered = some t → t.hasManager = true)
    (hends : ∀ id, pc.ends = some id → s.txnMap id ≠ none) : (s.goto thread pc).Placed where
  known := h.known
  starting i t ht := by
    by_cases hi : i = thread
    · rw [hi, goto_calls_self] at ht
      exact (hstarts t ht).1
    · rw [goto_calls_of_ne hi] at ht
      exact h.starting i t ht
  registered i t ht := by
    by_cases hi : i = thread
    · rw [hi, goto_calls_self] at ht
      exact hreg t ht
    · rw [goto_calls_of_ne hi] at ht
      exact h.registered i t ht
  distinct i j t t' ht ht' heq := by
    by_cases hi : i = thread <;> by_cases hj : j = thread
    · rw [hi, hj]
    · rw [hi, goto_calls_self] at ht
      rw [goto_calls_of_ne hj] at ht'
      exact absurd heq.symm ((hstarts t ht).2 j hj t' ht')
    · rw [goto_calls_of_ne hi] at ht
      rw [hj, goto_calls_self] at ht'
      exact absurd heq ((hstarts t' ht').2 i hi t ht)
    · rw [goto_calls_of_ne hi] at ht
      rw [goto_calls_of_ne hj] at ht'
      exact h.distinct i j t t' ht ht' heq
  ending i id hid := by
    by_cases hi : i = thread
    · rw [hi, goto_calls_self] at hid
      exact hends id hid
    · rw [goto_calls_of_ne hi] at hid
      exact h.ending i id hid
  count_lt := h.count_lt

/-- A thread goes on in a `Begin`: only what is in the transaction changes. -/
theorem goto_starts {t t' : Transaction} {pc : TxnPc} (ht : (s.calls thread).starts = some t)
    (hpc : pc.starts = some t') (hid : t'.txnId = t.txnId) (hst : t'.state = t.state)
    (hreg : ∀ t, pc.registered = some t → t.hasManager = true) (hends : pc.ends = none) :
    (s.goto thread pc).Placed := by
  refine h.goto (fun t₁ ht₁ ↦ ?_) hreg (fun id hid ↦ absurd hid (by simp [hends]))
  rw [hpc] at ht₁
  cases ht₁
  rw [hid, hst]
  refine ⟨h.starting thread t ht, fun i hi t₂ ht₂ heq ↦ hi ?_⟩
  exact h.distinct i thread t₂ t ht₂ ht heq

/-- A thread goes on in a `Commit` or an `Abort`, or begins one. -/
theorem goto_ends {id : TxnId} {pc : TxnPc} (hmap : s.txnMap id ≠ none)
    (hpc : pc.ends = some id) (hstarts : pc.starts = none) (hreg : pc.registered = none) :
    (s.goto thread pc).Placed := by
  refine h.goto (fun t ht ↦ absurd ht (by simp [hstarts]))
    (fun t ht ↦ absurd ht (by simp [hreg])) (fun id' hid' ↦ ?_)
  rw [hpc] at hid'
  cases hid'
  exact hmap

theorem goto_idle (thread : ℕ) : (s.goto thread .idle).Placed :=
  h.goto (fun t ht ↦ absurd ht (by simp [TxnPc.starts]))
    (fun t ht ↦ absurd ht (by simp [TxnPc.registered]))
    (fun id hid ↦ absurd hid (by simp [TxnPc.ends]))

/-- The log is written. -/
theorem setLog (log : LogThreads) : Placed { s with log } := { h with }

/-- A counter is changed. -/
theorem addCount (epoch : ℕ) (v : ℤ) :
    Placed { s with epochManager := s.epochManager.addCount epoch v } :=
  { h with count_lt := TransactionManager.addCount_lt h.count_lt epoch v }

theorem advanceEpoch : Placed { s with epochManager := s.epochManager.advanceEpoch } := { h with }

/-- A transaction changes. -/
theorem modify (id : TxnId) (f : Transaction → Transaction) (hid : ∀ t, (f t).txnId = t.txnId)
    (hman : ∀ t, (f t).hasManager = t.hasManager) : (s.modify id f).Placed where
  known id' t' ht' := by
    by_cases heq : id' = id
    · subst heq
      rw [modify_txnMap_self, Option.map_eq_some_iff] at ht'
      obtain ⟨t, ht, rfl⟩ := ht'
      rw [hid, hman]
      exact h.known id' t ht
    · rw [modify_txnMap_of_ne heq] at ht'
      exact h.known id' t' ht'
  starting i t ht := by
    obtain ⟨hst, hnone, hlt⟩ := h.starting i t ht
    refine ⟨hst, ?_, hlt⟩
    by_cases heq : t.txnId = id
    · rw [← heq, modify_txnMap_self, hnone, Option.map_none]
    · rwa [modify_txnMap_of_ne heq]
  registered := h.registered
  distinct := h.distinct
  ending i id' hid' := by
    have hne := h.ending i id' hid'
    by_cases heq : id' = id
    · subst heq
      rwa [modify_txnMap_self, ne_eq, Option.map_eq_none_iff]
    · rwa [modify_txnMap_of_ne heq]
  count_lt := h.count_lt

/-- A `Begin` returns a transaction. -/
theorem publish {t : Transaction} (hlt : t.txnId < s.nextTxnId) (hman : t.hasManager = true)
    (hfresh : ∀ i t', (s.calls i).starts = some t' → t'.txnId ≠ t.txnId) :
    Placed { s with txnMap := Function.update s.txnMap t.txnId (some t) } where
  known id t' ht' := by
    by_cases heq : id = t.txnId
    · subst heq
      cases (Function.update_self ..).symm.trans ht'
      exact ⟨rfl, hlt, hman⟩
    · exact h.known id t' ((Function.update_of_ne heq ..).symm.trans ht')
  starting i t' ht' := by
    obtain ⟨hst, hnone, hlt'⟩ := h.starting i t' ht'
    exact ⟨hst, (Function.update_of_ne (hfresh i t' ht') ..).trans hnone, hlt'⟩
  registered := h.registered
  distinct := h.distinct
  ending i id hid := by
    by_cases heq : id = t.txnId
    · subst heq
      show Function.update s.txnMap t.txnId (some t) t.txnId ≠ none
      rw [Function.update_self]
      exact Option.some_ne_none t
    · exact fun hnone ↦ h.ending i id hid ((Function.update_of_ne heq ..).symm.trans hnone)
  count_lt := h.count_lt

/-- A `Begin` takes an id. -/
theorem number : Placed { s with nextTxnId := s.nextTxnId + 1 } :=
  { h with
    known := fun id t ht ↦
      have ⟨hid, hlt, hman⟩ := h.known id t ht
      ⟨hid, Nat.lt_succ_of_lt hlt, hman⟩
    starting := fun i t ht ↦
      have ⟨hst, hnone, hlt⟩ := h.starting i t ht
      ⟨hst, hnone, Nat.lt_succ_of_lt hlt⟩ }

theorem txnMap_nextTxnId : s.txnMap s.nextTxnId = none := by
  by_contra hne
  obtain ⟨t, ht⟩ := Option.ne_none_iff_exists'.mp hne
  exact absurd (h.known _ t ht).2.1 (lt_irrefl _)

theorem next {o : Option TxnId} (hn : s.next thread (s.calls thread) = some (o, s')) :
    s'.Placed := by
  generalize hpc : s.calls thread = pc at hn
  cases pc with
  | idle =>
    cases hn
  | numbered txn =>
    cases hn
    exact h.goto_starts (by rw [hpc]; rfl) rfl rfl rfl (fun t ht ↦ by cases ht) rfl
  | loaded txn epoch =>
    cases hn
    refine (h.addCount epoch 1).goto_starts (t := txn) (by rw [hpc]; rfl) rfl rfl rfl
      (fun t ht ↦ ?_) rfl
    cases ht
    rfl
  | entered txn =>
    have hman := h.registered thread txn (by rw [hpc]; rfl)
    cases hn
    refine (h.setLog _).goto_starts (t := txn) (by rw [hpc]; rfl) rfl rfl rfl (fun t ht ↦ ?_) rfl
    cases ht
    exact hman
  | begun txn =>
    have hman := h.registered thread txn (by rw [hpc]; rfl)
    have hstarts : (s.calls thread).starts = some txn := by rw [hpc]; rfl
    cases hn
    refine (h.goto_idle thread).publish (h.starting thread txn hstarts).2.2 hman ?_
    intro i t' ht' heq
    by_cases hi : i = thread
    · rw [hi, goto_calls_self] at ht'
      cases ht'
    · rw [goto_calls_of_ne hi] at ht'
      exact hi (h.distinct i thread t' txn ht' hstarts heq)
  | commit txn =>
    have hmap := h.ending thread txn (by rw [hpc]; rfl)
    cases hn
    exact (h.setLog _).goto_ends hmap rfl rfl rfl
  | commitLogged txn =>
    have hmap := h.ending thread txn (by rw [hpc]; rfl)
    cases hn
    exact (h.setLog _).goto_ends hmap rfl rfl rfl
  | flushing txn ticket =>
    have hmap := h.ending thread txn (by rw [hpc]; rfl)
    cases hn
    exact (h.setLog _).goto_ends hmap rfl rfl rfl
  | flushed txn =>
    have hends : (s.calls thread).ends = some txn := by rw [hpc]; rfl
    cases hn
    have hmod := h.modify txn (fun t ↦ { t with state := .committed }) (fun _ ↦ rfl) (fun _ ↦ rfl)
    exact hmod.goto_ends (hmod.ending thread txn hends) rfl rfl rfl
  | abort txn =>
    have hmap := h.ending thread txn (by rw [hpc]; rfl)
    cases hn
    exact (h.setLog _).goto_ends hmap rfl rfl rfl
  | abortLogged txn =>
    have hends : (s.calls thread).ends = some txn := by rw [hpc]; rfl
    cases hn
    have hmod := h.modify txn (fun t ↦ { t with state := .aborted }) (fun _ ↦ rfl) (fun _ ↦ rfl)
    exact hmod.goto_ends (hmod.ending thread txn hends) rfl rfl rfl
  | leaving txn =>
    have hmap := h.ending thread txn (by rw [hpc]; rfl)
    obtain ⟨t, ht⟩ := Option.ne_none_iff_exists'.mp hmap
    rw [TxnThreads.next, ht] at hn
    cases hn
    have hexit : t.exitReadEpoch s.epochManager = s.epochManager.addCount t.readEpoch (-1) :=
      if_pos (h.known txn t ht).2.2
    rw [Option.elim_some, hexit]
    exact (h.addCount _ _).goto_idle thread

theorem step {e : Event} {o : Option TxnId} (hs : s.step e = some (o, s')) : s'.Placed := by
  cases e with
  | begin thread isoLevel =>
    rw [TxnThreads.step] at hs
    split at hs
    · cases hs
      refine h.number.goto (fun t ht ↦ ?_) (fun t ht ↦ by cases ht) (fun id hid ↦ by cases hid)
      cases ht
      refine ⟨⟨rfl, h.txnMap_nextTxnId, Nat.lt_succ_self _⟩, fun i _ t' ht' ↦ ?_⟩
      exact (h.starting i t' ht').2.2.ne
    · cases hs
  | commit thread txn =>
    rw [TxnThreads.step] at hs
    split at hs
    · obtain ⟨t, ht, heq⟩ := Option.map_eq_some_iff.mp hs
      cases heq
      split
      · exact h
      · exact h.goto_ends (by simp [ht]) rfl rfl rfl
    · cases hs
  | abort thread txn =>
    rw [TxnThreads.step] at hs
    split at hs
    · obtain ⟨t, ht, heq⟩ := Option.map_eq_some_iff.mp hs
      cases heq
      split
      · exact h
      · exact h.goto_ends (by simp [ht]) rfl rfl rfl
    · cases hs
  | next thread =>
    rw [TxnThreads.step] at hs
    split at hs
    · exact h.next hs
    · cases hs
  | insert txn prevLsn rid tuple =>
    obtain ⟨t, ht, heq⟩ := Option.map_eq_some_iff.mp hs
    cases heq
    exact (h.modify txn (·.appendWriteSet s.log.manager.nextLsn) (fun _ ↦ rfl)
      (fun _ ↦ rfl)).setLog _
  | advanceEpoch =>
    cases hs
    exact h.advanceEpoch

end Placed

end TxnThreads

end StingDB
