import StingDB.Transaction.Threads

/-!
# The epoch counters among threads

A transaction is inside its epoch from the `fetch_add` of its `Begin` to the `fetch_sub` of the call
that ends it.  At first it is known to the thread of its `Begin` alone, then it is in the map and
active, and at last a `Commit` or an `Abort` has set its state and is about to take it out.
`TxnThreads.inside` counts all three, and `counted_iff_orderly` says when the counters of the ring
are these numbers, in the middle of any calls.
-/

set_option autoImplicit false

namespace StingDB

open Machine

/-! ## A ring of counters and the numbers they stand for -/

namespace EpochManager

variable {m : EpochManager} {n n' : ℕ → ℕ} {epoch : ℕ}

/-- One more is counted, if its slot can count it. -/
theorem enter_iff (hm : ∀ slot, slot < maxEpochs → m.activeEpochs slot = n slot)
    (hn : ∀ slot, n' slot = n slot + if epoch % maxEpochs = slot then 1 else 0) :
    (∀ slot, slot < maxEpochs → (m.addCount epoch 1).activeEpochs slot = n' slot) ↔
      n (epoch % maxEpochs) + 1 < 2 ^ 31 := by
  have hlt : epoch % maxEpochs < maxEpochs := Nat.mod_lt _ (by decide)
  refine ⟨fun hm' ↦ ?_, fun hfits slot hslot ↦ ?_⟩
  · have hcount := hm' _ hlt
    rw [addCount_activeEpochs, if_pos rfl, hm _ hlt, hn, if_pos rfl] at hcount
    have := i32_lt (n (epoch % maxEpochs) + 1)
    rw [hcount] at this
    exact_mod_cast this
  · rw [addCount_activeEpochs, hn, hm slot hslot]
    by_cases heq : slot = epoch % maxEpochs
    · subst heq
      rw [if_pos rfl, if_pos rfl, i32_of_lt (by omega) (by omega)]
      push_cast
      rfl
    · rw [if_neg heq, if_neg (Ne.symm heq), Nat.add_zero]

/-- One less is counted. -/
theorem exit_match (hlt : ∀ slot, m.activeEpochs slot < 2 ^ 31)
    (hm : ∀ slot, slot < maxEpochs → m.activeEpochs slot = n slot)
    (hn : ∀ slot, n' slot + (if epoch % maxEpochs = slot then 1 else 0) = n slot)
    (slot : ℕ) (hslot : slot < maxEpochs) :
    (m.addCount epoch (-1)).activeEpochs slot = n' slot := by
  have hn' := hn slot
  have hlt' := hlt slot
  rw [hm slot hslot] at hlt'
  rw [addCount_activeEpochs, hm slot hslot]
  by_cases heq : slot = epoch % maxEpochs
  · subst heq
    rw [if_pos rfl] at hn' ⊢
    rw [i32_of_lt (by omega) (by omega)]
    omega
  · rw [if_neg (Ne.symm heq), Nat.add_zero] at hn'
    rw [if_neg heq, hn']

end EpochManager

namespace TxnThreads

/-! ## What the threads hold -/

/-- The number of threads at a place of some kind. -/
def threads (s : TxnThreads) (p : TxnPc → Bool) : ℕ :=
  (List.range s.poolSize).countP fun i ↦ p (s.calls i)

/-- The thread has counted a transaction of this slot that it has not yet returned, or has set the
state of one that it has not yet taken out. -/
def holds (s : TxnThreads) (slot : ℕ) : TxnPc → Bool
  | .entered txn | .begun txn => txn.readEpoch % maxEpochs = slot
  | .leaving txn => (s.txnMap txn).any fun t ↦ t.readEpoch % maxEpochs = slot
  | _ => false

/-- The number of transactions inside the epochs of a slot. -/
def inside (s : TxnThreads) (slot : ℕ) : ℕ := s.threads (s.holds slot) + s.manager.activeIn slot

/-- Every counter of the ring is the number of transactions inside its slot. -/
def EpochsMatch (s : TxnThreads) : Prop :=
  ∀ slot, slot < maxEpochs → s.epochManager.activeEpochs slot = s.inside slot

/-- The next step does not set the state of a transaction that is not active any more, and does not
count one that the `int32_t` of its slot cannot. -/
def OrderlyAt (s : TxnThreads) : TxnPc → Prop
  | .loaded _ epoch => s.inside (epoch % maxEpochs) + 1 < 2 ^ 31
  | .flushed txn | .abortLogged txn => ∀ t ∈ s.txnMap txn, t.state = .active
  | _ => True

instance (s : TxnThreads) : ∀ pc, Decidable (s.OrderlyAt pc)
  | .loaded _ epoch => inferInstanceAs (Decidable (s.inside (epoch % maxEpochs) + 1 < 2 ^ 31))
  | .flushed txn | .abortLogged txn =>
    inferInstanceAs (Decidable (∀ t ∈ s.txnMap txn, t.state = .active))
  | .idle | .numbered _ | .entered _ | .begun _ | .commit _ | .commitLogged _ | .flushing _ _
  | .abort _ | .leaving _ => isTrue trivial

/-- The step is not one of these. -/
def Orderly (s : TxnThreads) : Event → Prop
  | .next thread => thread < s.poolSize → s.OrderlyAt (s.calls thread)
  | _ => True

instance (s : TxnThreads) : ∀ e, Decidable (s.Orderly e)
  | .next thread => inferInstanceAs (Decidable (thread < s.poolSize → s.OrderlyAt (s.calls thread)))
  | .begin _ _ | .commit _ _ | .abort _ _ | .insert _ _ _ _ | .advanceEpoch => isTrue trivial

variable {s s' : TxnThreads} {thread slot : ℕ}

/-- A thread goes on. -/
theorem threads_goto (hi : thread < s.poolSize) (pc : TxnPc) (p : TxnPc → Bool) :
    (s.goto thread pc).threads p + (if p (s.calls thread) then 1 else 0) =
      s.threads p + if p pc then 1 else 0 := by
  have hcount := TransactionManager.countP_add_of_agree List.nodup_range (List.mem_range.mpr hi)
    (p := fun i ↦ p ((s.goto thread pc).calls i)) (q := fun i ↦ p (s.calls i))
    (fun i hne ↦ by rw [goto_calls_of_ne hne])
  rwa [goto_calls_self] at hcount

theorem inside_goto (hi : thread < s.poolSize) (pc : TxnPc) (slot : ℕ) :
    (s.goto thread pc).inside slot + (if s.holds slot (s.calls thread) then 1 else 0) =
      s.inside slot + if s.holds slot pc then 1 else 0 := by
  have hthreads := threads_goto hi pc (s.holds slot)
  show (s.goto thread pc).threads (s.holds slot) + s.manager.activeIn slot + _ = _
  rw [inside]
  omega

/-- A thread goes on and holds what it has held. -/
theorem inside_goto_of_eq (hi : thread < s.poolSize) (pc : TxnPc)
    (hpc : ∀ slot, s.holds slot pc = s.holds slot (s.calls thread)) (slot : ℕ) :
    (s.goto thread pc).inside slot = s.inside slot := by
  have hin := inside_goto hi pc slot
  rw [hpc] at hin
  exact Nat.add_right_cancel hin

/-- What is in the map under one id changes. -/
theorem inside_update {id : TxnId} {x : Option Transaction} (slot : ℕ) (hid : id < s.nextTxnId)
    (hholds : ∀ i, { s with txnMap := Function.update s.txnMap id x }.holds slot (s.calls i) =
      s.holds slot (s.calls i)) :
    { s with txnMap := Function.update s.txnMap id x }.inside slot +
        (if (s.txnMap id).any fun t ↦ t.ReadsIn slot then 1 else 0) =
      s.inside slot + if x.any fun t ↦ t.ReadsIn slot then 1 else 0 := by
  have hactive := TransactionManager.countP_add_of_agree List.nodup_range (List.mem_range.mpr hid)
    (p := fun id' ↦ (Function.update s.txnMap id x id').any fun t ↦ decide (t.ReadsIn slot))
    (q := fun id' ↦ (s.txnMap id').any fun t ↦ decide (t.ReadsIn slot))
    (fun id' hne ↦ by rw [Function.update_of_ne hne])
  have hthreads : { s with txnMap := Function.update s.txnMap id x }.threads
      ({ s with txnMap := Function.update s.txnMap id x }.holds slot) =
        s.threads (s.holds slot) :=
    List.countP_congr fun i _ ↦ by rw [hholds]
  rw [Function.update_self] at hactive
  rw [inside, hthreads, inside, Nat.add_assoc, Nat.add_assoc]
  exact congrArg _ hactive

/-- A change that leaves the epoch of a transaction as it is. -/
theorem holds_modify (id : TxnId) (f : Transaction → Transaction)
    (hf : ∀ t, (f t).readEpoch = t.readEpoch) (slot : ℕ) :
    (s.modify id f).holds slot = s.holds slot := by
  funext pc
  cases pc with
  | leaving txn =>
    show (Function.update s.txnMap id _ txn).any _ = (s.txnMap txn).any _
    by_cases heq : txn = id
    · subst heq
      rw [Function.update_self, Option.any_map]
      simp only [hf]
    · rw [Function.update_of_ne heq]
  | _ => rfl

theorem epochsMatch_iff_of_same (hin : ∀ slot, s'.inside slot = s.inside slot)
    (hep : s'.epochManager.activeEpochs = s.epochManager.activeEpochs) :
    s'.EpochsMatch ↔ s.EpochsMatch := by
  simp only [EpochsMatch, hin, hep]

/-! ## One step -/

/-- A transaction changes, but for its epoch. -/
theorem inside_modify (h : s.Placed) {id : TxnId} {t : Transaction} (ht : s.txnMap id = some t)
    (f : Transaction → Transaction) (hf : ∀ t, (f t).readEpoch = t.readEpoch) (slot : ℕ) :
    (s.modify id f).inside slot + (if t.ReadsIn slot then 1 else 0) =
      s.inside slot + if (f t).ReadsIn slot then 1 else 0 := by
  have hin := inside_update (x := (s.txnMap id).map f) slot (h.known id t ht).2.1
    (fun i ↦ congrFun (holds_modify id f hf slot) (s.calls i))
  rw [ht, Option.map_some, Option.any_some, Option.any_some] at hin
  simp only [decide_eq_true_eq] at hin
  rw [modify, ht]
  exact hin

/-- An executor registers an LSN. -/
theorem inside_appendWriteSet (h : s.Placed) {id : TxnId} {t : Transaction}
    (ht : s.txnMap id = some t) (lsn slot : ℕ) :
    (s.modify id (·.appendWriteSet lsn)).inside slot = s.inside slot :=
  Nat.add_right_cancel (inside_modify h ht (·.appendWriteSet lsn) (fun _ ↦ rfl) slot)

/-- **The state of a transaction is set**, and the thread holds it from then on. -/
theorem epochsMatch_end_iff (h : s.Placed) (hm : s.EpochsMatch) (hi : thread < s.poolSize)
    (hpc : ∀ slot, s.holds slot (s.calls thread) = false) {txn : TxnId} {t : Transaction}
    (ht : s.txnMap txn = some t) {state : TransactionState} (hst : state ≠ .active) :
    ((s.modify txn fun t ↦ { t with state }).goto thread (.leaving txn)).EpochsMatch ↔
      t.state = .active := by
  have hin (slot : ℕ) :
      ((s.modify txn fun t ↦ { t with state }).goto thread (.leaving txn)).inside slot +
        (if t.ReadsIn slot then 1 else 0) =
      s.inside slot + if t.readEpoch % maxEpochs = slot then 1 else 0 := by
    have hmod := inside_modify h ht (fun t ↦ { t with state }) (fun _ ↦ rfl) slot
    have hholds := holds_modify (s := s) txn (fun t ↦ { t with state }) (fun _ ↦ rfl) slot
    have hgoto := inside_goto (s := s.modify txn fun t ↦ { t with state }) hi (.leaving txn) slot
    have hleave : s.holds slot (.leaving txn) = decide (t.readEpoch % maxEpochs = slot) := by
      rw [holds, ht, Option.any_some]
    have hnone : s.holds slot ((s.modify txn fun t ↦ { t with state }).calls thread) = false :=
      hpc slot
    rw [hholds, hleave, hnone] at hgoto
    rw [if_neg (fun hr : Transaction.ReadsIn { t with state } slot ↦ hst hr.1)] at hmod
    simp only [decide_eq_true_eq, Bool.false_eq_true, if_false, Nat.add_zero] at hgoto
    omega
  refine ⟨fun hm' ↦ ?_, fun hact slot hslot ↦ ?_⟩
  · by_contra hnot
    have hlt : t.readEpoch % maxEpochs < maxEpochs := Nat.mod_lt _ (by decide)
    have hone := hin (t.readEpoch % maxEpochs)
    rw [if_neg (fun hr ↦ hnot hr.1), if_pos rfl] at hone
    have hcount := (hm' _ hlt).symm.trans (hm _ hlt)
    omega
  · have hreads : t.ReadsIn slot ↔ t.readEpoch % maxEpochs = slot := and_iff_right hact
    have hsame := hin slot
    simp only [hreads] at hsame
    rw [Nat.add_right_cancel hsame]
    exact hm slot hslot

/-- A `Begin` returns: the transaction is in the map now. -/
theorem inside_publish (h : s.Placed) (hi : thread < s.poolSize) {t : Transaction}
    (hpc : s.calls thread = .begun t) (slot : ℕ) :
    ({ s with txnMap := Function.update s.txnMap t.txnId (some t) }.goto thread .idle).inside slot =
      s.inside slot := by
  obtain ⟨hst, hnone, hlt⟩ := h.starting thread t (by rw [hpc]; rfl)
  have hgoto := inside_goto hi .idle slot
  have hidle := h.goto_idle thread
  have hupd := inside_update (s := s.goto thread .idle) (x := some t) slot hlt
    (fun i ↦ by
      cases hpci : (s.goto thread .idle).calls i with
      | leaving txn =>
        have hne : txn ≠ t.txnId := by
          rintro rfl
          exact hidle.ending i _ (by rw [hpci]; rfl) hnone
        show (Function.update s.txnMap t.txnId (some t) txn).any _ = (s.txnMap txn).any _
        rw [Function.update_of_ne hne]
      | _ => rfl)
  have hreads : t.ReadsIn slot ↔ t.readEpoch % maxEpochs = slot := and_iff_right hst
  have hnone' : (s.goto thread .idle).txnMap t.txnId = none := hnone
  rw [hnone', Option.any_none, Option.any_some] at hupd
  rw [hpc] at hgoto
  simp only [holds, decide_eq_true_eq, Bool.false_eq_true, if_false, Nat.add_zero, hreads]
    at hgoto hupd
  exact hupd.trans hgoto

/-- **A step inside a call keeps the counters right exactly when it is orderly.** -/
theorem next_epochsMatch_iff (h : s.Placed) (hm : s.EpochsMatch) (hi : thread < s.poolSize)
    {o : Option TxnId} (hn : s.next thread (s.calls thread) = some (o, s')) :
    s'.EpochsMatch ↔ s.Orderly (.next thread) := by
  rw [Orderly, forall_prop_of_true hi]
  cases hpc : s.calls thread with
  | idle =>
    rw [hpc] at hn
    cases hn
  | numbered txn =>
    rw [hpc] at hn
    cases hn
    refine iff_of_true ((epochsMatch_iff_of_same (inside_goto_of_eq hi
      (.loaded txn s.epochManager.globalEpoch) ?_) rfl).mpr hm) trivial
    intro slot
    rw [hpc]
    rfl
  | loaded txn epoch =>
    rw [hpc] at hn
    cases hn
    refine EpochManager.enter_iff hm fun slot ↦ ?_
    have hgoto := inside_goto hi (.entered { txn with readEpoch := epoch, hasManager := true }) slot
    rw [hpc] at hgoto
    simp only [holds, decide_eq_true_eq, Bool.false_eq_true, if_false, Nat.add_zero] at hgoto
    exact hgoto
  | entered txn =>
    rw [hpc] at hn
    cases hn
    refine iff_of_true ((epochsMatch_iff_of_same (inside_goto_of_eq hi
      (.begun (txn.appendWriteSet s.log.manager.nextLsn)) ?_) rfl).mpr hm) trivial
    intro slot
    rw [hpc]
    rfl
  | begun txn =>
    rw [hpc] at hn
    cases hn
    exact iff_of_true ((epochsMatch_iff_of_same (inside_publish h hi hpc) rfl).mpr hm) trivial
  | commit txn =>
    rw [hpc] at hn
    cases hn
    refine iff_of_true ((epochsMatch_iff_of_same (inside_goto_of_eq hi
      (.commitLogged txn) ?_) rfl).mpr hm) trivial
    intro slot
    rw [hpc]
    rfl
  | commitLogged txn =>
    rw [hpc] at hn
    cases hn
    refine iff_of_true ((epochsMatch_iff_of_same (inside_goto_of_eq hi
      (.flushing txn s.log.tickets) ?_) rfl).mpr hm) trivial
    intro slot
    rw [hpc]
    rfl
  | flushing txn ticket =>
    rw [hpc] at hn
    cases hn
    refine iff_of_true ((epochsMatch_iff_of_same (inside_goto_of_eq hi
      (.flushed txn) ?_) rfl).mpr hm) trivial
    intro slot
    rw [hpc]
    rfl
  | flushed txn =>
    obtain ⟨t, ht⟩ := Option.ne_none_iff_exists'.mp (h.ending thread txn (by rw [hpc]; rfl))
    rw [hpc] at hn
    cases hn
    rw [epochsMatch_end_iff h hm hi (fun slot ↦ by rw [hpc]; rfl) ht (by decide)]
    simp [OrderlyAt, ht]
  | abort txn =>
    rw [hpc] at hn
    cases hn
    refine iff_of_true ((epochsMatch_iff_of_same (inside_goto_of_eq hi
      (.abortLogged txn) ?_) rfl).mpr hm) trivial
    intro slot
    rw [hpc]
    rfl
  | abortLogged txn =>
    obtain ⟨t, ht⟩ := Option.ne_none_iff_exists'.mp (h.ending thread txn (by rw [hpc]; rfl))
    rw [hpc] at hn
    cases hn
    rw [epochsMatch_end_iff h hm hi (fun slot ↦ by rw [hpc]; rfl) ht (by decide)]
    simp [OrderlyAt, ht]
  | leaving txn =>
    obtain ⟨t, ht⟩ := Option.ne_none_iff_exists'.mp (h.ending thread txn (by rw [hpc]; rfl))
    rw [hpc, next, ht, Option.elim_some, Transaction.exitReadEpoch,
      if_pos (h.known txn t ht).2.2] at hn
    cases hn
    refine iff_of_true (EpochManager.exit_match h.count_lt hm fun slot ↦ ?_) trivial
    have hgoto := inside_goto hi .idle slot
    rw [hpc] at hgoto
    simp only [holds, ht, Option.any_some, decide_eq_true_eq, Bool.false_eq_true, if_false,
      Nat.add_zero] at hgoto
    exact hgoto

/-- **One step keeps the counters right exactly when it is orderly.** -/
theorem step_epochsMatch_iff (h : s.Placed) (hm : s.EpochsMatch) {e : Event} {o : Option TxnId}
    (hs : s.step e = some (o, s')) : s'.EpochsMatch ↔ s.Orderly e := by
  cases e with
  | begin thread isoLevel =>
    rw [step] at hs
    split at hs
    · rename_i hfree
      cases hs
      refine iff_of_true ((epochsMatch_iff_of_same (fun slot ↦ ?_) ?_).mpr hm) trivial
      rotate_left
      · rfl
      have hgoto := inside_goto_of_eq (s := { s with nextTxnId := s.nextTxnId + 1 }) hfree.1
        (.numbered { txnId := s.nextTxnId, isolationLevel := isoLevel })
        (fun slot ↦ by rw [hfree.2]; rfl) slot
      -- there is nothing in the map under the id that is new
      have hactive : TransactionManager.activeIn { s with nextTxnId := s.nextTxnId + 1 }.manager
          slot = s.manager.activeIn slot := by
        show (List.range (s.nextTxnId + 1)).countP _ = _
        rw [List.range_succ, List.countP_append, List.countP_singleton]
        show _ + (if (s.txnMap s.nextTxnId).any _ then 1 else 0) = _
        rw [h.txnMap_nextTxnId]
        rfl
      rw [hgoto]
      exact congrArg _ hactive
    · cases hs
  | commit thread txn =>
    rw [step] at hs
    split at hs
    · rename_i hfree
      obtain ⟨t, ht, heq⟩ := Option.map_eq_some_iff.mp hs
      cases heq
      refine iff_of_true ?_ trivial
      split
      · exact hm
      · exact (epochsMatch_iff_of_same (inside_goto_of_eq hfree.1 (.commit txn)
          (fun slot ↦ by rw [hfree.2]; rfl)) rfl).mpr hm
    · cases hs
  | abort thread txn =>
    rw [step] at hs
    split at hs
    · rename_i hfree
      obtain ⟨t, ht, heq⟩ := Option.map_eq_some_iff.mp hs
      cases heq
      refine iff_of_true ?_ trivial
      split
      · exact hm
      · exact (epochsMatch_iff_of_same (inside_goto_of_eq hfree.1 (.abort txn)
          (fun slot ↦ by rw [hfree.2]; rfl)) rfl).mpr hm
    · cases hs
  | next thread =>
    rw [step] at hs
    split at hs
    · rename_i hi
      exact next_epochsMatch_iff h hm hi hs
    · cases hs
  | insert txn prevLsn rid tuple =>
    obtain ⟨t, ht, heq⟩ := Option.map_eq_some_iff.mp hs
    cases heq
    exact iff_of_true ((epochsMatch_iff_of_same
      (inside_appendWriteSet h ht s.log.manager.nextLsn) rfl).mpr hm) trivial
  | advanceEpoch =>
    cases hs
    exact iff_of_true hm trivial

/-! ## Runs -/

theorem epochsMatch_init (poolSize : ℕ) : EpochsMatch { poolSize } := by
  intro slot _
  have hthreads : threads { poolSize } (holds { poolSize } slot) = 0 :=
    List.countP_eq_zero.mpr fun i _ ↦ by simp [holds]
  rw [inside, hthreads]
  rfl

/-- **The epoch counters among threads.**  In every interleaving of the steps of any number of
threads that begin, commit and abort transactions, several of them the same one perhaps, while the
epoch advances: each counter of the ring is the number of transactions inside its slot after every
step, exactly when no step sets the state of a transaction that is not active any more, and none
counts one that is the `2 ^ 31`st in its slot. -/
theorem counted_iff_orderly (poolSize : ℕ) (es : List Event) :
    Always step EpochsMatch { poolSize } es ↔ Along step Orderly { poolSize } es := by
  refine always_iff_along (K := fun s : TxnThreads ↦ s.Placed ∧ s.EpochsMatch)
    (fun _ h ↦ h.2) (fun _ _ _ _ h hs ↦ (step_epochsMatch_iff h.1 h.2 hs).mp)
    (fun _ _ _ _ h hord hs ↦ ⟨h.1.step hs, (step_epochsMatch_iff h.1 h.2 hs).mpr hord⟩)
    (fun s e h hs ↦ ?_) ⟨placed_init poolSize, epochsMatch_init poolSize⟩
  cases e with
  | next thread =>
    rw [step] at hs
    intro hi
    rw [if_pos hi] at hs
    cases hpc : s.calls thread with
    | idle => trivial
    | _ =>
      rw [hpc] at hs
      cases hs
  | _ => trivial

/-- Between the calls the transactions inside a slot are those that are active. -/
theorem inside_of_rest (hrest : ∀ i, i < s.poolSize → s.calls i = .idle) (slot : ℕ) :
    s.inside slot = s.manager.activeIn slot := by
  have hthreads : s.threads (s.holds slot) = 0 :=
    List.countP_eq_zero.mpr fun i hi ↦ by simp [hrest i (List.mem_range.mp hi), holds]
  rw [inside, hthreads, Nat.zero_add]

end TxnThreads

end StingDB
