import StingDB.Network.Visibility

/-!
# What becomes of the transaction of a command

INSERT and SELECT begin a transaction before they look for their table, and commit it at the end.
If there is no table, `Init` throws and the handler answers with the error; but nobody aborts the
transaction, which stays active, in its epoch, for as long as the server runs.

`concluded_iff_createdFirst` says that this is the only way to leak one: the commands of a sequence
all conclude their transactions, and those of BEGIN are the only ones active in the end, exactly
when the table is created before the first INSERT or SELECT.
-/

set_option autoImplicit false

namespace StingDB

open Machine

/-! ## What the executors do to transactions -/

/-- A transaction but for its write set. -/
def Transaction.core (t : Transaction) : Transaction := { t with writeSet := [] }

theorem Transaction.exists_core {o o' : Option Transaction}
    (h : o'.map Transaction.core = o.map Transaction.core) {t' : Transaction} (ht' : o' = some t') :
    ∃ t, o = some t ∧ t.core = t'.core := by
  rw [ht', Option.map_some, eq_comm, Option.map_eq_some_iff] at h
  exact h

namespace TransactionManager

/-- Each transaction is stored under its own id, and the next id is a new one. -/
def Keyed (m : TransactionManager) : Prop :=
  ∀ id t, m.txnMap id = some t → t.txnId = id ∧ id < m.nextTxnId

/-- The epochs and the transactions are the same but for write sets. -/
structure SameTxns (m m' : TransactionManager) : Prop where
  epochManager : m'.epochManager = m.epochManager
  nextTxnId : m'.nextTxnId = m.nextTxnId
  core : ∀ id, (m'.txnMap id).map Transaction.core = (m.txnMap id).map Transaction.core

theorem SameTxns.refl (m : TransactionManager) : m.SameTxns m := ⟨rfl, rfl, fun _ ↦ rfl⟩

theorem SameTxns.trans {m₁ m₂ m₃ : TransactionManager} (h : m₁.SameTxns m₂) (h' : m₂.SameTxns m₃) :
    m₁.SameTxns m₃ :=
  ⟨h'.epochManager.trans h.epochManager, h'.nextTxnId.trans h.nextTxnId,
    fun id ↦ (h'.core id).trans (h.core id)⟩

theorem SameTxns.keyed {m m' : TransactionManager} (h : m.SameTxns m') (hk : m.Keyed) :
    m'.Keyed := by
  intro id t' ht'
  obtain ⟨t, ht, hcore⟩ := Transaction.exists_core (h.core id) ht'
  have hid : t.core.txnId = t'.core.txnId := congrArg Transaction.txnId hcore
  have hkeyed := hk id t ht
  exact ⟨hid.symm.trans hkeyed.1, h.nextTxnId ▸ hkeyed.2⟩

/-- One more LSN in the write set of a transaction. -/
theorem sameTxns_appendWriteSet {m : TransactionManager} (hk : m.Keyed) (log : LogManager)
    {id : TxnId} {t : Transaction} (ht : m.txnMap id = some t) (lsn : ℕ) :
    m.SameTxns ({ m with logManager := log }.setTxn (t.appendWriteSet lsn)) where
  epochManager := rfl
  nextTxnId := rfl
  core id' := by
    show (Function.update m.txnMap t.txnId (some (t.appendWriteSet lsn)) id').map _ = _
    rw [(hk id t ht).1]
    by_cases hid : id' = id
    · subst hid
      rw [Function.update_self, ht]
      rfl
    · rw [Function.update_of_ne hid]

end TransactionManager

open TransactionManager

namespace InsertExecutor

variable {txn : Option TxnId} {f : ℕ} {tuple : List UInt8}

theorem logRow_sameTxns {s : StingInstance} (hk : s.txnManager.Keyed) (rid : RID) :
    s.txnManager.SameTxns (logRow txn s f rid tuple).txnManager := by
  rw [logRow]
  split
  · exact .refl _
  · rename_i t ht
    obtain ⟨id, -, hid⟩ := Option.bind_eq_some_iff.mp ht
    exact sameTxns_appendWriteSet hk _ hid _

theorem insertRows_sameTxns (rows : ℕ) {s : StingInstance} (hk : s.txnManager.Keyed) :
    s.txnManager.SameTxns (insertRows txn f tuple rows s).txnManager := by
  induction rows generalizing s with
  | zero => exact .refl _
  | succ rows ih =>
    rw [insertRows]
    split
    · rename_i rid page _
      have hrow : s.txnManager.SameTxns
          (logRow txn (s.setPage f page) f rid tuple).txnManager :=
        logRow_sameTxns (s := s.setPage f page) hk rid
      exact hrow.trans (ih (hrow.keyed hk))
    · exact .refl _

theorem targetPage_txnManager {s s' : StingInstance} {table : TableId} {p q : PageId}
    {rawPage : Option ℕ} (h : targetPage s table p = some (rawPage, q, s')) :
    s'.txnManager = s.txnManager := by
  rw [targetPage] at h
  split at h
  · split at h
    · exact absurd h (by simp)
    · cases h
      rfl
  · cases h
    rfl

/-- An insert changes nothing of the transactions but one write set. -/
theorem next_sameTxns {e e' : InsertExecutor} {s s' : StingInstance} (hk : s.txnManager.Keyed)
    (h : e.next s = some (e', s')) : s.txnManager.SameTxns s'.txnManager := by
  obtain ⟨-, -, rfl⟩ | ⟨table, rows, child, info, rawPage, p, s₁, s₂, -, -, -, htarget, hbatch, -,
    rfl⟩ := next_eq_some h
  · exact .refl _
  · have htxns := targetPage_txnManager htarget
    rw [← htxns] at hk ⊢
    cases rawPage with
    | some f =>
      cases hbatch
      exact insertRows_sameTxns rows hk
    | none =>
      rw [insertBatch] at hbatch
      split at hbatch
      · cases hbatch
        exact .refl _
      · exact absurd hbatch (by simp)

end InsertExecutor

/-! ## What a command does to transactions -/

namespace TransactionManager

/-- A transaction has begun, has been committed and has left its epoch, and the others are the same
but for write sets. -/
structure Ended (m m' : TransactionManager) : Prop where
  epochManager :
    m'.epochManager = m.epochManager.enterEpoch.2.exitEpoch m.epochManager.enterEpoch.1
  nextTxnId : m'.nextTxnId = m.nextTxnId + 1
  self : ∃ t, m'.txnMap m.nextTxnId = some t ∧ t.txnId = m.nextTxnId ∧ t.state = .committed ∧
    t.readEpoch = m.epochManager.enterEpoch.1
  other : ∀ id, id ≠ m.nextTxnId →
    (m'.txnMap id).map Transaction.core = (m.txnMap id).map Transaction.core

theorem begin_keyed {m : TransactionManager} (hk : m.Keyed) (isoLevel : IsolationLevel) :
    (m.begin isoLevel).2.Keyed := by
  intro id t ht
  replace ht : Function.update m.txnMap m.nextTxnId (some (m.begin isoLevel).1) id = some t := ht
  rw [Function.update_apply] at ht
  split at ht
  · cases ht
    rename_i hid
    exact ⟨hid.symm, hid ▸ Nat.lt_succ_self _⟩
  · exact ⟨(hk id t ht).1, Nat.lt_succ_of_lt (hk id t ht).2⟩

/-- `Begin`, an executor, and `Commit`. -/
theorem ended_of_sameTxns {m m₁ : TransactionManager} (isoLevel : IsolationLevel)
    (h : (m.begin isoLevel).2.SameTxns m₁) {t : Transaction}
    (ht : m₁.txnMap m.nextTxnId = some t) : m.Ended (m₁.commit t) := by
  obtain ⟨t₀, ht₀, hcore⟩ := Transaction.exists_core (h.core _) ht
  have hbegin : (m.begin isoLevel).2.txnMap =
    Function.update m.txnMap m.nextTxnId (some (m.begin isoLevel).1) := rfl
  rw [hbegin, Function.update_self] at ht₀
  cases ht₀
  have hid : t.txnId = m.nextTxnId := (congrArg Transaction.txnId hcore).symm
  have hst : t.state = .active := (congrArg Transaction.state hcore).symm
  have hep : t.readEpoch = m.epochManager.enterEpoch.1 :=
    (congrArg Transaction.readEpoch hcore).symm
  have hman : t.hasManager = true := (congrArg Transaction.hasManager hcore).symm
  have hcommit : m₁.commit t = { m₁ with
      logManager := (m₁.logManager.appendLogRecord (.ofType t.txnId 0 .commit)).2.flush
      epochManager := m₁.epochManager.exitEpoch t.readEpoch
      txnMap := Function.update m₁.txnMap t.txnId (some { t with state := .committed }) } := by
    rw [commit, if_neg (by simp [hst])]
    simp [Transaction.commit, Transaction.exitReadEpoch, setTxn, hman]
  rw [hcommit]
  refine ⟨?_, h.nextTxnId, ⟨{ t with state := .committed }, ?_, hid, rfl, hep⟩, fun id hne ↦ ?_⟩
  · rw [← hep]
    show m₁.epochManager.exitEpoch t.readEpoch = _
    rw [h.epochManager]
    rfl
  · rw [← hid]
    exact Function.update_self ..
  · rw [hid]
    dsimp only
    rw [Function.update_of_ne hne, h.core id, hbegin, Function.update_of_ne hne]

end TransactionManager

namespace Connection

variable {t : Session} {s s' : StingInstance} {o : Response}

theorem insert_txns (h : Serves t s) (hk : s.txnManager.Keyed) (hs : insert s = some (o, s')) :
    if t.rows = none then s'.txnManager = (s.txnManager.begin .snapshotIsolation).2
    else s.txnManager.Ended s'.txnManager := by
  obtain ⟨rows, nextTxnId⟩ := t
  have hname := (h.begin .snapshotIsolation).getTable
  rw [insert] at hs
  cases rows with
  | none =>
    simp only [InsertExecutor.init] at hname hs
    rw [hname] at hs
    cases hs
    exact rfl
  | some n =>
    simp only [InsertExecutor.init] at hname hs
    rw [hname, Option.map_some] at hs
    simp only [Option.bind_eq_bind, Option.bind_eq_some_iff] at hs
    obtain ⟨⟨e', s₂⟩, hnext, s₃, hcommit, heq⟩ := hs
    cases heq
    obtain ⟨t₂, ht₂, rfl⟩ := Option.map_eq_some_iff.mp hcommit
    exact ended_of_sameTxns _ (InsertExecutor.next_sameTxns (begin_keyed hk _) hnext) ht₂

theorem select_txns (h : Serves t s) (hs : select s = some (o, s')) :
    if t.rows = none then s'.txnManager = (s.txnManager.begin .snapshotIsolation).2
    else s.txnManager.Ended s'.txnManager := by
  obtain ⟨rows, nextTxnId⟩ := t
  have hname := (h.begin .snapshotIsolation).getTable
  rw [select] at hs
  cases rows with
  | none =>
    simp only [SeqScanExecutor.init] at hname hs
    rw [hname] at hs
    cases hs
    exact rfl
  | some n =>
    simp only [SeqScanExecutor.init] at hname hs
    rw [hname, Option.map_some] at hs
    simp only [Option.bind_eq_bind, Option.bind_eq_some_iff] at hs
    obtain ⟨⟨count, bpm⟩, -, s₃, hcommit, heq⟩ := hs
    cases heq
    obtain ⟨t₂, ht₂, rfl⟩ := Option.map_eq_some_iff.mp hcommit
    exact ended_of_sameTxns _ (.refl _) ht₂

end Connection

/-! ## Runs -/

/-- The command begins a transaction that it has to end. -/
def Command.transacts : Command → Bool
  | .insert | .select => true
  | _ => false

/-- The transaction that the command has begun has ended, and has left its epoch. -/
def Concluded (s s' : StingInstance) : Prop :=
  ∃ t, s'.txnManager.txnMap s.txnManager.nextTxnId = some t ∧
    (t.state = .committed ∨ t.state = .aborted) ∧
    s'.txnManager.epochManager =
      s.txnManager.epochManager.enterEpoch.2.exitEpoch t.readEpoch

/-- All transactions that are active have been started by a BEGIN. -/
def OnlyBegun (os : List Response) (m : TransactionManager) : Prop :=
  ∀ id t, m.txnMap id = some t → t.state = .active → .begun id ∈ os

/-- Before every INSERT and every SELECT there is a CREATE TABLE. -/
def CreatedFirst (queries : List (List UInt8)) : Prop :=
  ∀ pre query post, queries = pre ++ query :: post → (Command.ofQuery query).transacts →
    .createTable ∈ pre.map Command.ofQuery

theorem createdFirst_concat (queries : List (List UInt8)) (query : List UInt8) :
    CreatedFirst (queries ++ [query]) ↔ CreatedFirst queries ∧
      ((Command.ofQuery query).transacts → .createTable ∈ queries.map Command.ofQuery) := by
  refine ⟨fun h ↦ ⟨fun pre q post heq ↦ ?_, h queries query [] rfl⟩, ?_⟩
  · exact h pre q _ (concat_eq_append_cons.mpr (Or.inl ⟨post, rfl, heq⟩))
  · rintro ⟨h, hlast⟩ pre q post heq
    rcases concat_eq_append_cons.mp heq with ⟨post, -, heq⟩ | ⟨-, rfl, rfl⟩
    · exact h pre q post heq
    · exact hlast

namespace TransactionManager

variable {m m' : TransactionManager} {os : List Response} {o : Response}

theorem onlyBegun_concat (ho : ∀ id, o ≠ .begun id) :
    OnlyBegun (os ++ [o]) m ↔ OnlyBegun os m := by
  have hmem : ∀ id, .begun id ∈ os ++ [o] ↔ .begun id ∈ os := by
    intro id
    rw [List.mem_append, List.mem_singleton, or_iff_left (ho id).symm]
  simp only [OnlyBegun, hmem]

/-- A BEGIN answers with the id of the transaction that it leaves active. -/
theorem onlyBegun_begin (hk : m.Keyed) (isoLevel : IsolationLevel) :
    OnlyBegun (os ++ [.begun m.nextTxnId]) (m.begin isoLevel).2 ↔ OnlyBegun os m := by
  have hmap : (m.begin isoLevel).2.txnMap =
    Function.update m.txnMap m.nextTxnId (some (m.begin isoLevel).1) := rfl
  rw [OnlyBegun, hmap]
  refine ⟨fun h id t ht hact ↦ ?_, fun h id t ht hact ↦ ?_⟩
  · have hne : id ≠ m.nextTxnId := (hk id t ht).2.ne
    have hmem := h id t (by rwa [Function.update_of_ne hne]) hact
    refine (List.mem_append.mp hmem).resolve_right fun heq ↦ hne ?_
    exact Response.begun.inj (List.mem_singleton.mp heq)
  · by_cases hid : id = m.nextTxnId
    · subst hid
      exact List.mem_append_right _ List.mem_cons_self
    · rw [Function.update_of_ne hid] at ht
      exact List.mem_append_left _ (h id t ht hact)

/-- A command that leaves its transaction active does not tell its id. -/
theorem not_onlyBegun_begin (hlt : ∀ id, .begun id ∈ os → id < m.nextTxnId)
    (ho : ∀ id, o ≠ .begun id) (isoLevel : IsolationLevel) :
    ¬ OnlyBegun (os ++ [o]) (m.begin isoLevel).2 := by
  rw [onlyBegun_concat ho]
  intro h
  have hmap : (m.begin isoLevel).2.txnMap =
    Function.update m.txnMap m.nextTxnId (some (m.begin isoLevel).1) := rfl
  exact absurd (hlt _ (h m.nextTxnId _ (hmap ▸ Function.update_self ..) rfl)) (lt_irrefl _)

theorem onlyBegun_ended (hk : m.Keyed) (h : m.Ended m') (ho : ∀ id, o ≠ .begun id) :
    OnlyBegun (os ++ [o]) m' ↔ OnlyBegun os m := by
  rw [onlyBegun_concat ho]
  obtain ⟨t₀, ht₀, -, hst₀, -⟩ := h.self
  refine ⟨fun hb id t ht hact ↦ ?_, fun hb id t' ht' hact ↦ ?_⟩
  · obtain ⟨t', ht', heq⟩ := Transaction.exists_core (h.other id (hk id t ht).2.ne).symm ht
    have hst : t'.core.state = t.core.state := congrArg Transaction.state heq
    exact hb id t' ht' (hst.trans hact)
  · by_cases hid : id = m.nextTxnId
    · subst hid
      cases ht₀.symm.trans ht'
      exact absurd (hst₀.symm.trans hact) (by simp)
    · obtain ⟨t, ht, heq⟩ := Transaction.exists_core (h.other id hid) ht'
      have hst : t.core.state = t'.core.state := congrArg Transaction.state heq
      exact hb id t ht (hst.trans hact)

theorem Ended.keyed (h : m.Ended m') (hk : m.Keyed) : m'.Keyed := by
  intro id t' ht'
  rw [h.nextTxnId]
  by_cases hid : id = m.nextTxnId
  · subst hid
    obtain ⟨t₀, ht₀, hid₀, -⟩ := h.self
    cases ht₀.symm.trans ht'
    exact ⟨hid₀, Nat.lt_succ_self _⟩
  · obtain ⟨t, ht, heq⟩ := Transaction.exists_core (h.other id hid) ht'
    have htxn : t.core.txnId = t'.core.txnId := congrArg Transaction.txnId heq
    exact ⟨htxn.symm.trans (hk id t ht).1, Nat.lt_succ_of_lt (hk id t ht).2⟩

end TransactionManager

/-- No command but BEGIN tells the id of a transaction. -/
theorem Session.answer_ne_begun (t : Session) {c : Command} (hc : c ≠ .begin) (id : TxnId) :
    (t.answer c).1 ≠ .begun id := by
  obtain ⟨rows, nextTxnId⟩ := t
  cases c with
  | createTable => cases rows <;> simp [answer]
  | insert => cases rows <;> simp [answer]
  | select => cases rows <;> simp [answer]
  | begin => exact absurd rfl hc
  | unsupported => simp [answer]

/-- What a command does to the transactions: nothing, or it is a BEGIN, or it begins one that it
leaves active, for there is no table, or one that has ended afterwards. -/
theorem Connection.doRead_txns {t : Session} {s s' : StingInstance} {query : List UInt8}
    {o : Response} (h : Serves t s) (hk : s.txnManager.Keyed)
    (hs : doRead s query = some (o, s')) :
    ((Command.ofQuery query).transacts = false ∧ (∀ id, o ≠ .begun id) ∧
        s'.txnManager = s.txnManager) ∨
      ((Command.ofQuery query).transacts = false ∧ o = .begun s.txnManager.nextTxnId ∧
        s'.txnManager = (s.txnManager.begin .snapshotIsolation).2) ∨
      ((Command.ofQuery query).transacts = true ∧ (∀ id, o ≠ .begun id) ∧ t.rows = none ∧
        s'.txnManager = (s.txnManager.begin .snapshotIsolation).2) ∨
      ((Command.ofQuery query).transacts = true ∧ (∀ id, o ≠ .begun id) ∧ t.rows ≠ none ∧
        s.txnManager.Ended s'.txnManager) := by
  obtain ⟨s'', hread, -⟩ := doRead_refines h query
  have ho : o = (t.answer (.ofQuery query)).1 := by
    rw [hs, Option.some.injEq, Prod.mk.injEq] at hread
    exact hread.1
  have hne : Command.ofQuery query ≠ .begin → ∀ id, o ≠ .begun id :=
    fun hc id ↦ ho ▸ t.answer_ne_begun hc id
  rw [doRead] at hs
  cases hc : Command.ofQuery query with
  | createTable =>
    rw [hc] at hs hne
    have heq : (createTable s).2 = s' := congrArg Prod.snd (Option.some.inj hs)
    refine Or.inl ⟨rfl, hne (by simp), ?_⟩
    rw [← heq, createTable]
    split <;> rfl
  | insert =>
    rw [hc] at hs hne
    have htxns := insert_txns h hk hs
    by_cases hrows : t.rows = none
    · rw [if_pos hrows] at htxns
      exact Or.inr (Or.inr (Or.inl ⟨rfl, hne (by simp), hrows, htxns⟩))
    · rw [if_neg hrows] at htxns
      exact Or.inr (Or.inr (Or.inr ⟨rfl, hne (by simp), hrows, htxns⟩))
  | select =>
    rw [hc] at hs hne
    have htxns := select_txns h hs
    by_cases hrows : t.rows = none
    · rw [if_pos hrows] at htxns
      exact Or.inr (Or.inr (Or.inl ⟨rfl, hne (by simp), hrows, htxns⟩))
    · rw [if_neg hrows] at htxns
      exact Or.inr (Or.inr (Or.inr ⟨rfl, hne (by simp), hrows, htxns⟩))
  | begin =>
    rw [hc] at hs
    cases hs
    exact Or.inr (Or.inl ⟨rfl, rfl, rfl⟩)
  | unsupported =>
    rw [hc] at hs hne
    cases hs
    exact Or.inl ⟨rfl, hne (by simp), rfl⟩

/-- What holds of the server after the commands `queries`, which it has answered with `os`. -/
structure Accounted (queries : List (List UInt8)) (os : List Response) (s : StingInstance) :
    Prop where
  session : ∃ t, Session.Follows queries os t ∧ Serves t s
  keyed : s.txnManager.Keyed
  begun_lt : ∀ id, .begun id ∈ os → id < s.txnManager.nextTxnId
  onlyBegun_iff : OnlyBegun os s.txnManager ↔ CreatedFirst queries

theorem accounted_start (file : PageId → Option PageData) :
    Accounted [] [] (.start 4096 file) where
  session := ⟨{}, ⟨rfl, rfl, iff_of_true (fun _ _ _ h ↦ by simp at h) fun _ _ _ h ↦ by simp at h⟩,
    serves_start file⟩
  keyed id t ht := absurd ht (by simp [StingInstance.start])
  begun_lt id hid := absurd hid List.not_mem_nil
  onlyBegun_iff := iff_of_true (fun id t ht ↦ absurd ht (by simp [StingInstance.start]))
    fun _ _ _ h ↦ by simp at h

/-- There is a table once it has been created. -/
theorem Session.Follows.rows_ne_none_iff {queries : List (List UInt8)} {os : List Response}
    {t : Session} (h : Follows queries os t) :
    t.rows ≠ none ↔ .createTable ∈ queries.map Command.ofQuery := by
  rw [h.rows_eq]
  split <;> simp_all

theorem Accounted.step {queries : List (List UInt8)} {os : List Response} {s s' : StingInstance}
    (h : Accounted queries os s) {query : List UInt8} {o : Response}
    (hs : Connection.doRead s query = some (o, s')) :
    Accounted (queries ++ [query]) (os ++ [o]) s' := by
  obtain ⟨t, hfollows, hserves⟩ := h.session
  obtain ⟨s'', hread, hserves'⟩ := Connection.doRead_refines hserves query
  have hsession : ∃ t, Session.Follows (queries ++ [query]) (os ++ [o]) t ∧ Serves t s' := by
    rw [hs] at hread
    cases hread
    exact ⟨_, Session.follows_answer hfollows query, hserves'⟩
  have hlt : ∀ {n}, s.txnManager.nextTxnId ≤ n → (∀ id, o = .begun id → id < n) →
      ∀ id, .begun id ∈ os ++ [o] → id < n := by
    intro n hn ho id hid
    rcases List.mem_append.mp hid with hid | hid
    · exact (h.begun_lt id hid).trans_le hn
    · exact ho id (List.mem_singleton.mp hid).symm
  have hconcat := createdFirst_concat queries query
  obtain ⟨htr, ho, hm⟩ | ⟨htr, rfl, hm⟩ | ⟨htr, ho, hrows, hm⟩ | ⟨htr, ho, hrows, hended⟩ :=
    Connection.doRead_txns hserves h.keyed hs
  · refine ⟨hsession, hm ▸ h.keyed, ?_, ?_⟩
    · rw [hm]
      exact hlt le_rfl fun id hid ↦ absurd hid (ho id)
    · rw [hm, onlyBegun_concat ho, h.onlyBegun_iff, hconcat, htr]
      simp
  · refine ⟨hsession, hm ▸ begin_keyed h.keyed _, ?_, ?_⟩
    · rw [hm]
      refine hlt (Nat.le_succ _) fun id hid ↦ ?_
      cases hid
      exact Nat.lt_succ_self _
    · rw [hm, onlyBegun_begin h.keyed, h.onlyBegun_iff, hconcat, htr]
      simp
  · refine ⟨hsession, hm ▸ begin_keyed h.keyed _, ?_, ?_⟩
    · rw [hm]
      exact hlt (Nat.le_succ _) fun id hid ↦ absurd hid (ho id)
    · have hnot := mt hfollows.rows_ne_none_iff.mpr (not_not.mpr hrows)
      rw [hm, hconcat]
      exact iff_of_false (not_onlyBegun_begin h.begun_lt ho _) fun hc ↦ hnot (hc.2 htr)
  · refine ⟨hsession, hended.keyed h.keyed, ?_, ?_⟩
    · rw [hended.nextTxnId]
      exact hlt (Nat.le_succ _) fun id hid ↦ absurd hid (ho id)
    · have hmem := hfollows.rows_ne_none_iff.mp hrows
      rw [onlyBegun_ended h.keyed hended ho, h.onlyBegun_iff, hconcat]
      exact (and_iff_left fun _ ↦ hmem).symm

theorem accounted_of_run (file : PageId → Option PageData) {queries : List (List UInt8)}
    {os : List Response} {s : StingInstance}
    (hr : run Connection.doRead (.start 4096 file) queries = some (os, s)) :
    Accounted queries os s :=
  run_history (P := fun _ _ ↦ True) (accounted_start file)
    (fun _ _ _ _ _ _ _ h _ hs ↦ h.step hs) along_true hr

/-- A command concludes its transaction if and only if there is a table. -/
theorem Accounted.concluded_iff {queries : List (List UInt8)} {os : List Response}
    {s s' : StingInstance} (h : Accounted queries os s) {query : List UInt8} {o : Response}
    (hs : Connection.doRead s query = some (o, s')) (htr : (Command.ofQuery query).transacts) :
    Concluded s s' ↔ .createTable ∈ queries.map Command.ofQuery := by
  obtain ⟨t, hfollows, hserves⟩ := h.session
  obtain ⟨hnot, -⟩ | ⟨hnot, -⟩ | ⟨-, -, hrows, hm⟩ | ⟨-, -, hrows, hended⟩ :=
    Connection.doRead_txns hserves h.keyed hs
  · exact absurd htr (by simp [hnot])
  · exact absurd htr (by simp [hnot])
  · have hnot := mt hfollows.rows_ne_none_iff.mpr (not_not.mpr hrows)
    refine iff_of_false ?_ hnot
    rintro ⟨t₁, ht₁, hst, -⟩
    have hmap : (s.txnManager.begin .snapshotIsolation).2.txnMap s.txnManager.nextTxnId =
        some (s.txnManager.begin .snapshotIsolation).1 := Function.update_self ..
    rw [hm, hmap] at ht₁
    cases ht₁
    rcases hst with hst | hst <;> exact absurd hst (by simp [TransactionManager.begin,
      Transaction.appendWriteSet, Transaction.enterReadEpoch])
  · refine iff_of_true ?_ (hfollows.rows_ne_none_iff.mp hrows)
    obtain ⟨t₁, ht₁, -, hst, hep⟩ := hended.self
    exact ⟨t₁, ht₁, Or.inl hst, hep ▸ hended.epochManager⟩

/-- **No transaction is leaked, and when.**  A server that has just been started, on any file,
answers every sequence of commands.  When it answers an INSERT or a SELECT, with success or with an
error, the transaction of the command has always ended and left its epoch, if and only if the table
is created before the first of them; and it is then, and only then, that the transactions which are
active in the end are all those of BEGINs. -/
theorem concluded_iff_createdFirst (file : PageId → Option PageData)
    (queries : List (List UInt8)) :
    ∃ os s, run Connection.doRead (.start 4096 file) queries = some (os, s) ∧
      (Throughout Connection.doRead
          (fun _ s query s' ↦ (Command.ofQuery query).transacts → Concluded s s')
          (.start 4096 file) queries ↔ CreatedFirst queries) ∧
      (OnlyBegun os s.txnManager ↔ CreatedFirst queries) := by
  obtain ⟨os, t, hr⟩ := run_total (f := fun (t : Session) query ↦ t.answer (.ofQuery query)) {}
    queries
  obtain ⟨s, hread, -⟩ := run_refines file hr
  refine ⟨os, s, hread, ⟨fun h pre query post heq htr ↦ ?_, fun h pre query post os₁ s₁ o s₂ heq
    hrun hs htr ↦ ?_⟩, (accounted_of_run file hread).onlyBegun_iff⟩
  · rw [heq] at hread
    obtain ⟨s₁, os₁, os₂, hrun, hrest, -⟩ := run_append.mp hread
    obtain ⟨o, s₂, os', hs, -, -⟩ := run_cons.mp hrest
    exact ((accounted_of_run file hrun).concluded_iff hs htr).mp
      (h pre query post os₁ s₁ o s₂ heq hrun hs htr)
  · exact ((accounted_of_run file hrun).concluded_iff hs htr).mpr (h pre query post heq htr)

/-- An INSERT into the table before it is created: it is answered with an error, and its
transaction is still active. -/
theorem transaction_leaked :
    ∃ s t, run Connection.doRead (.start 4096 fun _ ↦ none) [bytes "INSERT"] =
        some ([.error "Table not found for INSERT: users"], s) ∧
      s.txnManager.txnMap 1 = some t ∧ t.state = .active ∧
      s.txnManager.epochManager.activeEpochs 1 = 1 := by
  exact ⟨_, _, rfl, rfl, rfl, rfl⟩

end StingDB
