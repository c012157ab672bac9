import StingDB.Execution.TablePage
import StingDB.Network.Connection

/-!
# Which acknowledged inserts are visible

`Session` is the server as its users see it: whether there is a table, how many inserts into it have
been acknowledged, and the next transaction id.  It answers every command, and it is what the server
comes to: `doRead_refines` has the server give its answers.  In a session a SELECT reports the
acknowledged inserts up to the 31st, which is where the page is full and the executor stops storing
rows without telling the connection, and `visible_iff` follows.
-/

set_option autoImplicit false

namespace StingDB

open Machine SlottedPage

/-! ## Sessions -/

/-- What there is to know about the server from outside. -/
structure Session where
  /-- The number of acknowledged inserts, if the table has been created. -/
  rows : Option ℕ := none
  /-- The id of the next transaction. -/
  nextTxnId : TxnId := 1
  deriving DecidableEq

namespace Session

/-- How many of the rows that have been inserted a SELECT finds at most. -/
abbrev visibleRows : ℕ := 31

/-- The answer to a command, and the session after it. -/
def answer (t : Session) : Command → Response × Session
  | .createTable =>
    match t.rows with
    | none => (.created, { t with rows := some 0 })
    | some _ => (.error "Table already exists: users", t)
  | .insert =>
    match t.rows with
    | none =>
      (.error "Table not found for INSERT: users", { t with nextTxnId := t.nextTxnId + 1 })
    | some n => (.inserted, { rows := some (n + 1), nextTxnId := t.nextTxnId + 1 })
  | .select =>
    match t.rows with
    | none => (.error "Table not found: users", { t with nextTxnId := t.nextTxnId + 1 })
    | some n => (.selected (min n visibleRows), { t with nextTxnId := t.nextTxnId + 1 })
  | .begin => (.begun t.nextTxnId, { t with nextTxnId := t.nextTxnId + 1 })
  | .unsupported => (.unsupported, t)

/-- The session as a machine. -/
def step (t : Session) (query : List UInt8) : Option (Response × Session) :=
  some (t.answer (.ofQuery query))

end Session

/-! ## The table -/

/-- The schema of `users`. -/
def usersSchema : Schema := .create Connection.usersColumns

/-- `users`, with its first page. -/
def usersTable (page : PageId) : TableInfo := ⟨0, "users", usersSchema, page⟩

theorem usersSchema_length : usersSchema.getTupleFixedLength = 259 := by
  rw [usersSchema, Schema.getTupleFixedLength_create]
  rfl

theorem capacity_users : capacity 259 = Session.visibleRows := rfl

/-- There is a free frame, and no page has been allocated. -/
def Store.Untouched (s : Store) : Prop := s.pool.freeList ≠ [] ∧ s.disk.nextPageId = 0

theorem Store.Untouched.newPage {s : Store} (h : s.Untouched) :
    ∃ f bpm, s.newPage = (some (0, f), bpm) := by
  obtain ⟨hfree, hnext⟩ := h
  obtain ⟨f, rest, hf⟩ := List.exists_cons_of_ne_nil hfree
  refine ⟨f, s.newPage.2, Prod.ext ?_ rfl⟩
  rw [Store.newPage, Store.acquireFrame, BufferPoolManager.takeFrame, hf]
  simp only [DiskManager.allocatePage, hnext]

/-- Before the table is created. -/
structure NoTable (s : StingInstance) : Prop where
  name : s.catalogManager.tableNames "users" = none
  nextTableId : s.catalogManager.nextTableId = 0
  table : s.catalogManager.tables 0 = none
  store : s.bpm.Untouched

/-- After the table has been created and `n` inserts have been acknowledged. -/
structure HasTable (s : StingInstance) (n : ℕ) : Prop where
  name : s.catalogManager.tableNames "users" = some 0
  table : s.catalogManager.tables 0 = some (usersTable (if n = 0 then invalidPageId else 0))
  store : if n = 0 then s.bpm.Untouched else s.bpm.Rows 0 259 (min n Session.visibleRows)

/-- The instance is that of the session. -/
structure Serves (t : Session) (s : StingInstance) : Prop where
  nextTxnId : s.txnManager.nextTxnId = t.nextTxnId
  table : t.rows.elim (NoTable s) (HasTable s)

theorem serves_start (file : PageId → Option PageData) : Serves {} (.start 4096 file) where
  nextTxnId := rfl
  table :=
    { name := rfl
      nextTableId := rfl
      table := rfl
      store := ⟨by simp [StingInstance.start, BufferPoolManager.create], rfl⟩ }

/-! ## Transactions -/

namespace StingInstance

theorem begin_txnId (s : StingInstance) (isoLevel : IsolationLevel) :
    (s.begin isoLevel).1.txnId = s.txnManager.nextTxnId := rfl

theorem begin_begun (s : StingInstance) (isoLevel : IsolationLevel) :
    ((s.begin isoLevel).2.txnManager.txnMap s.txnManager.nextTxnId).isSome := by
  rw [begin, TransactionManager.begin]
  simp [TransactionManager.setTxn, Transaction.appendWriteSet, Transaction.enterReadEpoch]

/-- A transaction that has begun can be committed, and that is of the transaction manager alone. -/
theorem commit_of_begun {s : StingInstance} {txn : TxnId}
    (h : (s.txnManager.txnMap txn).isSome) :
    ∃ m : TransactionManager, s.commit txn = some { s with txnManager := m } ∧
      m.nextTxnId = s.txnManager.nextTxnId := by
  obtain ⟨t, ht⟩ := Option.isSome_iff_exists.mp h
  refine ⟨s.txnManager.commit t, by rw [commit, ht, Option.map_some], ?_⟩
  rw [TransactionManager.commit]
  split <;> rfl

end StingInstance

/-! ## Refinement -/

theorem NoTable.congr {s s' : StingInstance} (h : NoTable s)
    (hc : s'.catalogManager = s.catalogManager) (hb : s'.bpm = s.bpm) : NoTable s' where
  name := hc ▸ h.name
  nextTableId := hc ▸ h.nextTableId
  table := hc ▸ h.table
  store := hb ▸ h.store

theorem HasTable.congr {s s' : StingInstance} {n : ℕ} (h : HasTable s n)
    (hc : s'.catalogManager = s.catalogManager) (hb : s'.bpm = s.bpm) : HasTable s' n where
  name := hc ▸ h.name
  table := hc ▸ h.table
  store := hb ▸ h.store

variable {t : Session} {s : StingInstance}

/-- A transaction that begins is one more in the session too. -/
theorem Serves.begin (h : Serves t s) (isoLevel : IsolationLevel) :
    Serves { t with nextTxnId := t.nextTxnId + 1 } (s.begin isoLevel).2 := by
  obtain ⟨rows, nextTxnId⟩ := t
  refine ⟨congrArg (· + 1) h.nextTxnId, ?_⟩
  have htable := h.table
  cases rows with
  | none => exact NoTable.congr htable rfl rfl
  | some n => exact HasTable.congr htable rfl rfl

/-- Where there is a table, it is the one with the id 0. -/
theorem Serves.getTable (h : Serves t s) :
    s.catalogManager.getTable "users" = t.rows.map fun _ ↦ 0 := by
  obtain ⟨rows, nextTxnId⟩ := t
  have htable := h.table
  cases rows with
  | none => exact NoTable.name htable
  | some n => exact HasTable.name htable

namespace Connection

theorem createTable_refines (h : Serves t s) :
    (createTable s).1 = (t.answer .createTable).1 ∧
      Serves (t.answer .createTable).2 (createTable s).2 := by
  obtain ⟨rows, nextTxnId⟩ := t
  rw [createTable, CatalogManager.bindCreateTable, CatalogManager.createTable]
  cases rows with
  | none =>
    have hno : NoTable s := h.table
    rw [if_neg (by simp [hno.name])]
    refine ⟨rfl, h.nextTxnId, ?_⟩
    exact
      { name := by simp [hno.nextTableId]
        table := by simp [hno.nextTableId, hno.table, usersTable, usersSchema]
        store := hno.store }
  | some n =>
    have hhas : HasTable s n := h.table
    rw [if_pos (by simp [hhas.name])]
    exact ⟨by rfl, h⟩

theorem begin_refines (h : Serves t s) :
    (begin s).1 = (t.answer .begin).1 ∧ Serves (t.answer .begin).2 (begin s).2 :=
  ⟨congrArg Response.begun h.nextTxnId, h.begin .snapshotIsolation⟩

/-- The row of an INSERT, whether the table has its page already or not. -/
theorem next_refines {n : ℕ} {e : InsertExecutor} (h : HasTable s n) (ht : e.tableInfo = some 0)
    (hc : e.child = dummyValues) :
    ∃ e' s', e.next s = some (e', s') ∧ HasTable s' (n + 1) ∧
      s'.txnManager.nextTxnId = s.txnManager.nextTxnId ∧
      ∀ t, (s.txnManager.txnMap t).isSome → (s'.txnManager.txnMap t).isSome := by
  have hsmall : 259 + slotSize < 2 ^ 16 := by decide
  have htable := h.table
  have hstore := h.store
  by_cases hn : n = 0
  · subst hn
    rw [if_pos rfl] at htable hstore
    obtain ⟨f, bpm, hnew⟩ := hstore.newPage
    obtain ⟨s', hnext, hext, hrows⟩ := InsertExecutor.next_of_newPage ht hc htable
      usersSchema_length hsmall rfl hnew
    refine ⟨_, s', hnext, ⟨?_, ?_, ?_⟩, hext.nextTxnId, hext.begun⟩
    · rw [hext.catalogManager]
      exact h.name
    · rw [hext.catalogManager]
      simp [CatalogManager.updateFirstPageId, htable, usersTable]
    · exact hrows
  · rw [if_neg hn] at htable hstore
    have hid : (usersTable 0).firstPageId ≠ invalidPageId := by decide
    obtain ⟨s', hnext, hext, hrows⟩ := InsertExecutor.next_of_resident ht hc htable
      usersSchema_length hsmall hid hstore
    refine ⟨_, s', hnext, ⟨?_, ?_, ?_⟩, hext.nextTxnId, hext.begun⟩
    · rw [hext.catalogManager]
      exact h.name
    · rw [hext.catalogManager]
      exact htable
    · have hmin : min (min n Session.visibleRows + 1) (capacity 259) =
          min (n + 1) Session.visibleRows := by
        rw [capacity_users]
        omega
      rw [hmin] at hrows
      exact hrows

/-- **INSERT**.  The row is stored as long as the page has room for it, and acknowledged in any
case. -/
theorem insert_refines (h : Serves t s) :
    ∃ s', insert s = some ((t.answer .insert).1, s') ∧ Serves (t.answer .insert).2 s' := by
  obtain ⟨rows, nextTxnId⟩ := t
  let s₁ := (s.begin .snapshotIsolation).2
  have h₁ : Serves ⟨rows, nextTxnId + 1⟩ s₁ := h.begin .snapshotIsolation
  have hname := h₁.getTable
  cases rows with
  | none =>
    refine ⟨s₁, ?_, h₁⟩
    rw [insert]
    simp only [InsertExecutor.init, s₁] at hname ⊢
    rw [hname]
    rfl
  | some n =>
    have hhas : HasTable s₁ n := h₁.table
    let e : InsertExecutor :=
      { txn := some s.txnManager.nextTxnId, child := dummyValues, tableName := "users",
        tableInfo := some 0 }
    obtain ⟨e', s₂, hnext, hhas₂, hnext₂, hbegun₂⟩ := next_refines (e := e) hhas rfl rfl
    obtain ⟨m, hcommit, hnext₃⟩ := StingInstance.commit_of_begun
      (hbegun₂ _ (s.begin_begun .snapshotIsolation))
    refine ⟨{ s₂ with txnManager := m }, ?_, hnext₃.trans (hnext₂.trans h₁.nextTxnId),
      HasTable.congr hhas₂ rfl rfl⟩
    rw [insert]
    simp only [InsertExecutor.init, s₁] at hname ⊢
    rw [hname, Option.map_some]
    simp only [StingInstance.begin_txnId]
    rw [hnext]
    simp only [Option.bind_eq_bind, Option.bind_some, hcommit]
    rfl

/-- The loop of a SELECT, whether the table has its page already or not. -/
theorem count_refines {n : ℕ} (h : HasTable s n) :
    ∃ bpm, SeqScanExecutor.count SeqScanExecutor.countFuel
        { tableName := "users", tableInfo := some 0,
          currentPageId := if n = 0 then invalidPageId else 0 } s.bpm =
          some (min n Session.visibleRows, bpm) ∧ HasTable { s with bpm } n := by
  have hstore := h.store
  by_cases hn : n = 0
  · subst hn
    refine ⟨s.bpm, ?_, h⟩
    rw [SeqScanExecutor.countFuel, SeqScanExecutor.count, SeqScanExecutor.next, if_pos (by simp)]
    rfl
  · rw [if_neg hn] at hstore ⊢
    have hfuel : min n Session.visibleRows < SeqScanExecutor.countFuel :=
      lt_of_le_of_lt (Nat.min_le_right _ _) (by decide)
    obtain ⟨bpm, hcount, -, hrows⟩ := SeqScanExecutor.count_of_resident
      (e := { tableName := "users", tableInfo := some 0, currentPageId := 0 }) (by simp)
      (by decide) hstore (Nat.zero_le _) (Nat.lt_add_right _ hfuel)
    refine ⟨bpm, hcount, h.name, h.table, ?_⟩
    rw [if_neg hn]
    exact hrows

/-- **SELECT**.  The count is that of the rows on the page. -/
theorem select_refines (h : Serves t s) :
    ∃ s', select s = some ((t.answer .select).1, s') ∧ Serves (t.answer .select).2 s' := by
  obtain ⟨rows, nextTxnId⟩ := t
  let s₁ := (s.begin .snapshotIsolation).2
  have h₁ : Serves ⟨rows, nextTxnId + 1⟩ s₁ := h.begin .snapshotIsolation
  have hname := h₁.getTable
  cases rows with
  | none =>
    refine ⟨s₁, ?_, h₁⟩
    rw [select]
    simp only [SeqScanExecutor.init, s₁] at hname ⊢
    rw [hname]
    rfl
  | some n =>
    have hhas : HasTable s₁ n := h₁.table
    obtain ⟨bpm, hcount, hhas₂⟩ := count_refines hhas
    obtain ⟨m, hcommit, hnext₃⟩ := StingInstance.commit_of_begun (s := { s₁ with bpm })
      (s.begin_begun .snapshotIsolation)
    refine ⟨{ s₁ with bpm, txnManager := m }, ?_, hnext₃.trans h₁.nextTxnId,
      HasTable.congr hhas₂ rfl rfl⟩
    have htable := hhas.table
    rw [select]
    simp only [SeqScanExecutor.init, s₁] at hname htable hcount hcommit ⊢
    rw [hname, Option.map_some]
    simp only [htable, Option.elim_some, usersTable, hcount, Option.bind_eq_bind, Option.bind_some,
      StingInstance.begin_txnId, hcommit]
    rfl

/-- **The server refines the session**: it survives every command, and gives the answer that the
session gives. -/
theorem doRead_refines (h : Serves t s) (query : List UInt8) :
    ∃ s', doRead s query = some ((t.answer (.ofQuery query)).1, s') ∧
      Serves (t.answer (.ofQuery query)).2 s' := by
  rw [doRead]
  cases Command.ofQuery query with
  | createTable =>
    obtain ⟨hresponse, hserves⟩ := createTable_refines h
    exact ⟨_, by rw [← hresponse], hserves⟩
  | insert => exact insert_refines h
  | select => exact select_refines h
  | begin =>
    obtain ⟨hresponse, hserves⟩ := begin_refines h
    exact ⟨_, by rw [← hresponse], hserves⟩
  | unsupported => exact ⟨s, rfl, h⟩

end Connection

/-! ## Runs -/

/-- Every run of the session is one of the server. -/
theorem run_refines (file : PageId → Option PageData) {queries : List (List UInt8)}
    {os : List Response} {t : Session} (hr : run Session.step {} queries = some (os, t)) :
    ∃ s, run Connection.doRead (.start 4096 file) queries = some (os, s) ∧ Serves t s := by
  refine run_simulation (P := fun _ _ ↦ True) (R := Serves) ?_ (serves_start file) along_true hr
  intro t s query o t' h _ hs
  have hanswer : t.answer (.ofQuery query) = (o, t') := Option.some.inj hs
  obtain ⟨s', hread, hserves⟩ := Connection.doRead_refines h query
  rw [hanswer] at hread hserves
  exact ⟨s', hread, hserves⟩

/-- How many INSERTs come after the first CREATE TABLE. -/
def inserts : List Command → ℕ
  | [] => 0
  | .createTable :: cs => cs.count .insert
  | _ :: cs => inserts cs

theorem inserts_of_notMem {cs : List Command} (h : .createTable ∉ cs) : inserts cs = 0 := by
  induction cs with
  | nil => rfl
  | cons c cs ih =>
    rw [List.mem_cons, not_or] at h
    cases c with
    | createTable => exact absurd rfl h.1
    | insert => exact ih h.2
    | select => exact ih h.2
    | begin => exact ih h.2
    | unsupported => exact ih h.2

theorem inserts_concat (cs : List Command) (c : Command) :
    inserts (cs ++ [c]) = inserts cs + if .createTable ∈ cs ∧ c = .insert then 1 else 0 := by
  induction cs with
  | nil => cases c <;> rfl
  | cons c' cs ih =>
    by_cases hc' : c' = .createTable
    · subst hc'
      rw [List.cons_append, inserts, inserts, List.count_append]
      by_cases hc : c = .insert <;> simp [hc]
    · have hne : ∀ cs, inserts (c' :: cs) = inserts cs := by
        intro cs
        cases c' <;> first | rfl | exact absurd rfl hc'
      rw [List.cons_append, hne, hne, ih]
      simp [Ne.symm hc']

/-- Every SELECT that is answered with success reports as many rows as INSERTs have been
acknowledged before it. -/
def Visible (os : List Response) : Prop :=
  ∀ pre n post, os = pre ++ .selected n :: post → n = pre.count .inserted

/-- Up to every SELECT there are no more INSERTs, from the first CREATE TABLE on, than a SELECT
finds rows. -/
def WithinPage (queries : List (List UInt8)) : Prop :=
  ∀ pre query post, queries = pre ++ query :: post → Command.ofQuery query = .select →
    inserts (pre.map .ofQuery) ≤ Session.visibleRows

theorem visible_concat (os : List Response) (o : Response) :
    Visible (os ++ [o]) ↔ Visible os ∧ ∀ n, o = .selected n → n = os.count .inserted := by
  refine ⟨fun h ↦ ?_, ?_⟩
  · refine ⟨fun pre n post heq ↦ ?_, fun n ho ↦ ?_⟩
    · exact h pre n _ (concat_eq_append_cons.mpr (Or.inl ⟨post, rfl, heq⟩))
    · exact h os n [] (by rw [ho])
  · rintro ⟨h, ho⟩ pre n post heq
    rcases concat_eq_append_cons.mp heq with ⟨post, -, heq⟩ | ⟨-, rfl, ho'⟩
    · exact h pre n post heq
    · exact ho n ho'

theorem withinPage_concat (queries : List (List UInt8)) (query : List UInt8) :
    WithinPage (queries ++ [query]) ↔ WithinPage queries ∧
      (Command.ofQuery query = .select →
        inserts (queries.map .ofQuery) ≤ Session.visibleRows) := by
  refine ⟨fun h ↦ ?_, ?_⟩
  · refine ⟨fun pre q post heq ↦ ?_, h queries query [] rfl⟩
    exact h pre q _ (concat_eq_append_cons.mpr (Or.inl ⟨post, rfl, heq⟩))
  · rintro ⟨h, hlast⟩ pre q post heq
    rcases concat_eq_append_cons.mp heq with ⟨post, -, heq⟩ | ⟨-, rfl, rfl⟩
    · exact h pre q post heq
    · exact hlast

namespace Session

/-- What a session is, by the commands that led to it and the answers they got. -/
structure Follows (queries : List (List UInt8)) (os : List Response) (t : Session) : Prop where
  rows_eq : t.rows = if .createTable ∈ queries.map Command.ofQuery then
    some (inserts (queries.map .ofQuery)) else none
  acked : os.count .inserted = inserts (queries.map .ofQuery)
  visible : Visible os ↔ WithinPage queries

theorem follows_answer {queries : List (List UInt8)} {os : List Response} {t : Session}
    (h : Follows queries os t) (query : List UInt8) :
    Follows (queries ++ [query]) (os ++ [(t.answer (.ofQuery query)).1])
      (t.answer (.ofQuery query)).2 := by
  obtain ⟨hrows, hacked, hvisible⟩ := h
  by_cases hmem : .createTable ∈ queries.map Command.ofQuery
  · rw [if_pos hmem] at hrows
    constructor
    · rw [List.map_append, List.map_singleton, inserts_concat]
      cases hc : Command.ofQuery query <;> simp [answer, hrows, hmem]
    · rw [List.count_append, List.map_append, List.map_singleton, inserts_concat, hacked]
      cases hc : Command.ofQuery query <;> simp [answer, hrows, hmem]
    · rw [visible_concat, withinPage_concat, hvisible, hacked]
      refine and_congr_right fun _ ↦ ?_
      cases hc : Command.ofQuery query <;> simp [answer, hrows]
  · have hzero := inserts_of_notMem hmem
    rw [if_neg hmem] at hrows
    constructor
    · rw [List.map_append, List.map_singleton, inserts_concat]
      cases hc : Command.ofQuery query <;> simp [answer, hrows, hmem, hzero]
    · rw [List.count_append, List.map_append, List.map_singleton, inserts_concat, hacked]
      cases hc : Command.ofQuery query <;> simp [answer, hrows, hmem]
    · rw [visible_concat, withinPage_concat, hvisible, hacked]
      refine and_congr_right fun _ ↦ ?_
      cases hc : Command.ofQuery query <;> simp [answer, hrows, hzero]

theorem follows_of_run {queries : List (List UInt8)} {os : List Response} {t : Session}
    (hr : run step {} queries = some (os, t)) : Follows queries os t := by
  have hstart : Follows [] [] {} :=
    ⟨rfl, rfl, iff_of_true (fun _ _ _ h ↦ by simp at h) fun _ _ _ h ↦ by simp at h⟩
  refine run_history (P := fun _ _ ↦ True) (I := Follows) hstart ?_ along_true hr
  intro queries os t query o t' _ h _ hs
  have hanswer : t.answer (.ofQuery query) = (o, t') := Option.some.inj hs
  have hnext := follows_answer h query
  rwa [hanswer] at hnext

end Session

/-- **Which acknowledged inserts are visible.**  A server that has just been started, on any file,
answers every sequence of commands; and every SELECT that it answers with success reports as many
rows as INSERTs have been acknowledged before it exactly when no SELECT comes after more than 31
INSERTs into the table. -/
theorem visible_iff (file : PageId → Option PageData) (queries : List (List UInt8)) :
    ∃ os s, run Connection.doRead (.start 4096 file) queries = some (os, s) ∧
      (Visible os ↔ WithinPage queries) := by
  obtain ⟨os, t, hr⟩ := run_total (f := fun (t : Session) query ↦ t.answer (.ofQuery query)) {}
    queries
  obtain ⟨s, hread, -⟩ := run_refines file hr
  exact ⟨os, s, hread, (Session.follows_of_run hr).visible⟩

/-- A CREATE TABLE, 32 INSERTs and a SELECT. -/
def fullPage : List (List UInt8) :=
  bytes "CREATE TABLE users" :: List.replicate 32 (bytes "INSERT") ++ [bytes "SELECT"]

/-- All of the 32 are acknowledged, and the SELECT reports 31 rows. -/
theorem row_invisible :
    ∃ s, run Connection.doRead (.start 4096 fun _ ↦ none) fullPage =
      some (.created :: List.replicate 32 .inserted ++ [.selected 31], s) := by
  have hr : run Session.step {} fullPage =
      some (.created :: List.replicate 32 .inserted ++ [.selected 31], ⟨some 32, 34⟩) := by
    decide +kernel
  obtain ⟨s, hread, -⟩ := run_refines (fun _ ↦ none) hr
  exact ⟨s, hread⟩

end StingDB
