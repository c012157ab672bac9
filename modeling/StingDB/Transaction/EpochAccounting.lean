import Mathlib.Data.List.Nodup
import StingDB.Transaction.Outcomes

/-!
# The epoch counters and the transactions that are active

A transaction enters an epoch when it begins and leaves it when it is committed or aborted, and the
counters of the ring are to tell how many active transactions there are in each slot.  They do
until a transaction is ended for the second time in the same way: `Commit` is guarded against
aborted transactions only and `Abort` against committed ones only, so a second `Commit` leaves the
epoch once more, and the counter is one too low from then on.

`epochsMatch_iff_orderly` says that this is the only way, but for a counter that wraps.
-/

set_option autoImplicit false

namespace StingDB

open Machine

/-- The transaction is active, in an epoch of this ring slot. -/
def Transaction.ReadsIn (t : Transaction) (slot : ℕ) : Prop :=
  t.state = .active ∧ t.readEpoch % maxEpochs = slot

instance (t : Transaction) (slot : ℕ) : Decidable (t.ReadsIn slot) := by
  unfold Transaction.ReadsIn
  infer_instance

theorem EpochManager.addCount_activeEpochs (m : EpochManager) (epoch slot : ℕ) (v : ℤ) :
    (m.addCount epoch v).activeEpochs slot =
      if slot = epoch % maxEpochs then i32 (m.activeEpochs slot + v) else m.activeEpochs slot := by
  show Function.update m.activeEpochs (epoch % maxEpochs) _ slot = _
  rw [Function.update_apply]
  split
  · rename_i heq
    rw [heq]
  · rfl

namespace TransactionManager

/-- The number of active transactions in the epochs of a ring slot. -/
def activeIn (m : TransactionManager) (slot : ℕ) : ℕ :=
  (List.range m.nextTxnId).countP fun id ↦ (m.txnMap id).any fun t ↦ decide (t.ReadsIn slot)

/-- Every counter of the ring is the number of active transactions in its slot. -/
def EpochsMatch (m : TransactionManager) : Prop :=
  ∀ slot, slot < maxEpochs → m.epochManager.activeEpochs slot = m.activeIn slot

/-- The call ends no transaction that has already ended that way, and begins none that the
`int32_t` of its slot cannot count. -/
def Orderly (m : TransactionManager) : Transition → Prop
  | .begin _ => m.activeIn (m.epochManager.globalEpoch % maxEpochs) + 1 < 2 ^ 31
  | .commit id => ∀ t ∈ m.txnMap id, t.state ≠ .committed
  | .abort id => ∀ t ∈ m.txnMap id, t.state ≠ .aborted
  | .advanceEpoch => True

/-! ## How the number changes -/

/-- Two predicates that agree on a list but for one element count it the same but for that. -/
theorem countP_add_of_agree {l : List ℕ} (hl : l.Nodup) {a : ℕ} (ha : a ∈ l) {p q : ℕ → Bool}
    (hpq : ∀ b, b ≠ a → p b = q b) :
    l.countP p + (if q a then 1 else 0) = l.countP q + if p a then 1 else 0 := by
  have hrest : (l.erase a).countP p = (l.erase a).countP q := by
    refine List.countP_congr fun b hb ↦ ?_
    rw [hpq b ((hl.mem_erase_iff).mp hb).1]
  have hperm := List.perm_cons_erase ha
  rw [hperm.countP_eq p, hperm.countP_eq q, List.countP_cons, List.countP_cons, hrest]
  omega

variable {m m' : TransactionManager}

theorem activeIn_begin (isoLevel : IsolationLevel) (slot : ℕ) :
    (m.begin isoLevel).2.activeIn slot =
      m.activeIn slot + if m.epochManager.globalEpoch % maxEpochs = slot then 1 else 0 := by
  have hmap : (m.begin isoLevel).2.txnMap =
      Function.update m.txnMap m.nextTxnId (some (m.begin isoLevel).1) := rfl
  have hreads : (m.begin isoLevel).1.ReadsIn slot ↔
      m.epochManager.globalEpoch % maxEpochs = slot := and_iff_right rfl
  have hold : (List.range m.nextTxnId).countP (fun id ↦
      ((m.begin isoLevel).2.txnMap id).any fun t ↦ decide (t.ReadsIn slot)) = m.activeIn slot := by
    refine List.countP_congr fun id hid ↦ ?_
    rw [hmap, Function.update_of_ne (List.mem_range.mp hid).ne]
  show (List.range (m.nextTxnId + 1)).countP _ = _
  rw [List.range_succ, List.countP_append, hold, List.countP_singleton, hmap,
    Function.update_self, Option.any_some]
  simp only [decide_eq_true_eq, hreads]

/-- A transaction becomes another one, and the others stay as they are. -/
theorem activeIn_update (h : m.Chronicled) {id : TxnId} {t t' : Transaction}
    (ht : m.txnMap id = some t) (hmap : m'.txnMap = Function.update m.txnMap id (some t'))
    (hnext : m'.nextTxnId = m.nextTxnId) (slot : ℕ) :
    m'.activeIn slot + (if t.ReadsIn slot then 1 else 0) =
      m.activeIn slot + if t'.ReadsIn slot then 1 else 0 := by
  have hmem : id ∈ List.range m.nextTxnId :=
    List.mem_range.mpr ((h.known id).mp (by simp [ht])).2
  have hcount := countP_add_of_agree List.nodup_range hmem
    (p := fun id ↦ (m'.txnMap id).any fun t ↦ decide (t.ReadsIn slot))
    (q := fun id ↦ (m.txnMap id).any fun t ↦ decide (t.ReadsIn slot))
    (fun id' hne ↦ by rw [hmap, Function.update_of_ne hne])
  rw [activeIn, activeIn, hnext]
  simpa [hmap, ht] using hcount

/-! ## What keeps the counters right -/

/-- What holds of the manager in any case. -/
structure Tracked (m : TransactionManager) : Prop where
  chronicled : m.Chronicled
  hasManager : ∀ id t, m.txnMap id = some t → t.hasManager = true
  count_lt : ∀ slot, m.epochManager.activeEpochs slot < 2 ^ 31

theorem tracked_init : Tracked {} where
  chronicled := chronicled_init
  hasManager id t ht := absurd ht (by simp)
  count_lt slot := by
    show (0 : ℤ) < 2 ^ 31
    decide

theorem addCount_lt {e : EpochManager} (h : ∀ slot, e.activeEpochs slot < 2 ^ 31) (epoch : ℕ)
    (v : ℤ) (slot : ℕ) : (e.addCount epoch v).activeEpochs slot < 2 ^ 31 := by
  rw [EpochManager.addCount_activeEpochs]
  split
  · exact i32_lt _
  · exact h slot

section

variable {t : Transaction}

theorem commit_epochManager (hst : t.state ≠ .aborted) (hman : t.hasManager = true) :
    (m.commit t).epochManager = m.epochManager.exitEpoch t.readEpoch := by
  rw [commit, if_neg hst]
  simp [Transaction.commit, Transaction.exitReadEpoch, setTxn, hman]

theorem abort_epochManager (hst : t.state ≠ .committed) (hman : t.hasManager = true) :
    (m.abort t).epochManager = m.epochManager.exitEpoch t.readEpoch := by
  rw [abort, if_neg hst]
  simp [Transaction.abort, Transaction.exitReadEpoch, setTxn, hman]

end

/-- The three states that a transaction can be in. -/
theorem Tracked.active_iff (h : m.Tracked) {id : TxnId} {t : Transaction}
    (ht : m.txnMap id = some t) :
    t.state = .active ↔ t.state ≠ .committed ∧ t.state ≠ .aborted := by
  have hhist := h.chronicled.history_of_eq ht
  exact hhist.active_iff

/-- One transaction becomes `t`, which knows its epoch manager, and its epoch is entered or left. -/
theorem Tracked.change (h : m.Tracked) (hc : m'.Chronicled) {t : Transaction} {id : TxnId}
    (hman : t.hasManager = true) (hmap : m'.txnMap = Function.update m.txnMap id (some t))
    {epoch : ℕ} {v : ℤ} (hep : m'.epochManager = m.epochManager.addCount epoch v) :
    m'.Tracked where
  chronicled := hc
  hasManager id' t' ht' := by
    rw [hmap, Function.update_apply] at ht'
    split at ht'
    · cases ht'
      exact hman
    · exact h.hasManager id' t' ht'
  count_lt slot := by
    rw [hep]
    exact addCount_lt h.count_lt epoch v slot

theorem Tracked.transition {c : Transition} {o : Option TxnId} (h : m.Tracked)
    (hs : m.transition c = some (o, m')) : m'.Tracked := by
  have hc := h.chronicled.transition hs
  obtain ⟨-, hmap, -, -, hep⟩ | ⟨isoLevel, -, -, rfl⟩ | ⟨id, t, -, -, ht, hst, rfl⟩ |
    ⟨id, t, -, -, ht, hst, rfl⟩ := transition_cases hs
  · exact ⟨hc, fun id t ht ↦ h.hasManager id t (hmap ▸ ht), fun slot ↦ hep ▸ h.count_lt slot⟩
  · exact h.change (t := (m.begin isoLevel).1) hc rfl rfl rfl
  · have hman := h.hasManager id t ht
    exact h.change (t := { t with state := .committed }) hc hman (commit_txnMap hst)
      (commit_epochManager hst hman)
  · have hman := h.hasManager id t ht
    exact h.change (t := { t with state := .aborted }) hc hman (abort_txnMap hst)
      (abort_epochManager hst hman)

/-- A transaction that begins is counted, if its slot can count it. -/
theorem epochsMatch_begin_iff (hm : m.EpochsMatch) (isoLevel : IsolationLevel) :
    (m.begin isoLevel).2.EpochsMatch ↔
      m.activeIn (m.epochManager.globalEpoch % maxEpochs) + 1 < 2 ^ 31 := by
  have hep : (m.begin isoLevel).2.epochManager =
    m.epochManager.addCount m.epochManager.globalEpoch 1 := rfl
  generalize hslot : m.epochManager.globalEpoch % maxEpochs = slot
  have hlt : slot < maxEpochs := hslot ▸ Nat.mod_lt _ (by decide)
  refine ⟨fun hm' ↦ ?_, fun hfits slot' hslot' ↦ ?_⟩
  · have hcount := hm' slot hlt
    rw [hep, EpochManager.addCount_activeEpochs, hslot, if_pos rfl, hm slot hlt, activeIn_begin,
      if_pos hslot] at hcount
    have := i32_lt (m.activeIn slot + 1)
    rw [hcount] at this
    exact_mod_cast this
  · rw [hep, EpochManager.addCount_activeEpochs, hslot, activeIn_begin, hslot]
    by_cases heq : slot' = slot
    · subst heq
      rw [if_pos rfl, if_pos rfl, hm slot' hslot', i32_of_lt (by omega) (by omega)]
      push_cast
      rfl
    · rw [if_neg heq, if_neg (Ne.symm heq), hm slot' hslot', Nat.add_zero]

/-- **A transaction that ends is no longer counted, if it was active until then.** -/
theorem epochsMatch_end_iff (h : m.Tracked) (hm : m.EpochsMatch) {id : TxnId} {t : Transaction}
    (ht : m.txnMap id = some t) {state : TransactionState} (hst : state ≠ .active)
    (hmap : m'.txnMap = Function.update m.txnMap t.txnId (some { t with state }))
    (hnext : m'.nextTxnId = m.nextTxnId)
    (hep : m'.epochManager = m.epochManager.exitEpoch t.readEpoch) :
    m'.EpochsMatch ↔ t.state = .active := by
  obtain rfl : t.txnId = id := h.chronicled.txnId_eq id t ht
  have hcount : ∀ slot, m'.activeIn slot + (if t.ReadsIn slot then 1 else 0) =
      m.activeIn slot := by
    intro slot
    have hupd := activeIn_update h.chronicled ht hmap hnext slot
    rwa [if_neg (fun hr : Transaction.ReadsIn { t with state } slot ↦ hst hr.1),
      Nat.add_zero] at hupd
  have hring : ∀ slot, m'.epochManager.activeEpochs slot =
      if slot = t.readEpoch % maxEpochs then i32 (m.epochManager.activeEpochs slot - 1)
      else m.epochManager.activeEpochs slot := by
    intro slot
    rw [hep, EpochManager.exitEpoch, EpochManager.addCount_activeEpochs]
    rfl
  have hrange : ∀ slot, slot < maxEpochs → m.activeIn slot < 2 ^ 31 := by
    intro slot hslot
    have hlt := h.count_lt slot
    rw [hm slot hslot] at hlt
    exact_mod_cast hlt
  generalize hslot : t.readEpoch % maxEpochs = slot at hring
  have hlt : slot < maxEpochs := hslot ▸ Nat.mod_lt _ (by decide)
  have hself := hrange slot hlt
  refine ⟨fun hm' ↦ ?_, fun hact slot' hslot' ↦ ?_⟩
  · by_contra hnot
    have hsame := hcount slot
    rw [if_neg (fun hr ↦ hnot hr.1), Nat.add_zero] at hsame
    have hone := hm' slot hlt
    rw [hring, if_pos rfl, hm slot hlt, hsame, i32_of_lt (by omega) (by omega)] at hone
    omega
  · have hreads : t.ReadsIn slot' ↔ slot' = slot := by
      rw [Transaction.ReadsIn, hslot, and_iff_right hact, eq_comm]
    have hless := hcount slot'
    simp only [hreads] at hless
    rw [hring]
    by_cases heq : slot' = slot
    · subst heq
      rw [if_pos rfl] at hless ⊢
      rw [hm slot' hslot', i32_of_lt (by omega) (by omega)]
      omega
    · rw [if_neg heq] at hless ⊢
      rw [hm slot' hslot', ← hless, Nat.add_zero]

/-- **One call keeps the counters right exactly when it is orderly.** -/
theorem Tracked.epochsMatch_iff {c : Transition} {o : Option TxnId} (h : m.Tracked)
    (hm : m.EpochsMatch) (hs : m.transition c = some (o, m')) :
    m'.EpochsMatch ↔ m.Orderly c := by
  cases c with
  | begin isoLevel =>
    cases hs
    exact epochsMatch_begin_iff hm isoLevel
  | commit id =>
    obtain ⟨t, ht, heq⟩ := Option.map_eq_some_iff.mp hs
    cases heq
    have hord : m.Orderly (.commit id) ↔ t.state ≠ .committed := by simp [Orderly, ht]
    rw [hord]
    by_cases hst : t.state = .aborted
    · rw [commit, if_pos hst]
      exact iff_of_true hm (by simp [hst])
    · rw [epochsMatch_end_iff h hm ht (by decide) (commit_txnMap hst) commit_nextTxnId
        (commit_epochManager hst (h.hasManager id t ht)), h.active_iff ht, and_iff_left hst]
  | abort id =>
    obtain ⟨t, ht, heq⟩ := Option.map_eq_some_iff.mp hs
    cases heq
    have hord : m.Orderly (.abort id) ↔ t.state ≠ .aborted := by simp [Orderly, ht]
    rw [hord]
    by_cases hst : t.state = .committed
    · rw [abort, if_pos hst]
      exact iff_of_true hm (by simp [hst])
    · rw [epochsMatch_end_iff h hm ht (by decide) (abort_txnMap hst) abort_nextTxnId
        (abort_epochManager hst (h.hasManager id t ht)), h.active_iff ht, and_iff_right hst]
  | advanceEpoch =>
    cases hs
    exact iff_of_true hm trivial

/-- **The epoch counters, over every run.**  In every sequence of calls, each counter of the ring
is the number of active transactions of its slot after every call exactly when no call ends a
transaction that had ended that way before, and none begins one that is the `2 ^ 31`st in its
slot. -/
theorem epochsMatch_iff_orderly (cs : List Transition) :
    Always transition EpochsMatch {} cs ↔ Along transition Orderly {} cs := by
  refine always_iff_along (K := fun m : TransactionManager ↦ m.Tracked ∧ m.EpochsMatch)
    (fun _ h ↦ h.2) (fun _ _ _ _ h hs ↦ (h.1.epochsMatch_iff h.2 hs).mp)
    (fun _ _ _ _ h hord hs ↦ ⟨h.1.transition hs, (h.1.epochsMatch_iff h.2 hs).mpr hord⟩)
    (fun m c _ hs ↦ ?_) ⟨tracked_init, fun slot _ ↦ rfl⟩
  cases c with
  | begin isoLevel => exact absurd hs (by simp [transition])
  | commit id =>
    have hnone : m.txnMap id = none := Option.map_eq_none_iff.mp hs
    simp [Orderly, hnone]
  | abort id =>
    have hnone : m.txnMap id = none := Option.map_eq_none_iff.mp hs
    simp [Orderly, hnone]
  | advanceEpoch => trivial

/-- A transaction that is committed twice: nothing is active in its slot, and the counter is
negative. -/
theorem counter_negative :
    ∃ m os, run transition {} [.begin .snapshotIsolation, .commit 1, .commit 1] = some (os, m) ∧
      m.activeIn 1 = 0 ∧ m.epochManager.activeEpochs 1 = -1 :=
  ⟨_, _, rfl, by decide, by decide⟩

end TransactionManager

end StingDB
