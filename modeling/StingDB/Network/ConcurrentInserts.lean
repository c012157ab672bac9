import StingDB.Network.Visibility

/-!
# INSERTs on several threads

`network/server.h` runs the handlers of its connections on a pool of threads, so that the INSERTs
of several clients take their calls in turns.  Here an INSERT is a handler that makes its calls one
at a time, each of them atomic, and the server is the instance with all the handlers that it has
been sent.  One handler that is left alone does what `Connection.insert` does (`insert_alone`).

Whether the table has a page is asked in one call and acted on in three others, and nothing keeps a
second handler out between them.  Two ways to lose a row come of this: an INSERT that finds no page
while another one is about to make it makes a second page, and the first one is forgotten; and an
INSERT that finds a page which has not been initialised cannot store its row there.  Where neither
happens (`Unraced`) the rows are all there in the end, which is `inserts_visible`.
-/

set_option autoImplicit false

namespace StingDB

open Machine SlottedPage

/-! ## Handlers -/

/-- The call that an INSERT comes to next, and what it has in hand for it. -/
inductive InsertPc where
  | getTable
  | getFirstPageId (table : TableId)
  | newPage (table : TableId)
  | updateFirstPageId (table : TableId) (rawPage : Option ℕ) (pageId : PageId)
  | init (table : TableId) (rawPage : Option ℕ) (pageId : PageId)
  | fetchPage (table : TableId) (pageId : PageId)
  | insertTuple (table : TableId) (rawPage : Option ℕ) (pageId : PageId)
  | logRow (frameId : ℕ) (rid : RID) (tuple : List UInt8) (pageId : PageId)
  | unpinPage (pageId : PageId)
  | commit
  | done (response : Response)
  deriving DecidableEq

/-- An INSERT under way. -/
structure InsertHandler where
  /-- Its transaction. -/
  txn : TxnId
  /-- Where it is. -/
  pc : InsertPc := .getTable

namespace InsertPc

/-- The next call of an INSERT: where that takes it, and the instance.  `none` where there is
nothing left to do, and where a null pointer ends the program. -/
def next (txn : TxnId) (s : StingInstance) : InsertPc → Option (InsertPc × StingInstance)
  | getTable =>
    match s.catalogManager.getTable "users" with
    | none => some (done (.error ("Table not found for INSERT: " ++ "users")), s)
    | some table => some (getFirstPageId table, s)
  | getFirstPageId table => do
    let info ← s.catalogManager.tables table
    if info.firstPageId = invalidPageId then some (newPage table, s)
    else some (fetchPage table info.firstPageId, s)
  | newPage table =>
    match s.bpm.newPage with
    | (none, bpm) => some (updateFirstPageId table none invalidPageId, { s with bpm })
    | (some (pageId, frameId), bpm) =>
      some (updateFirstPageId table (some frameId) pageId, { s with bpm })
  | updateFirstPageId table rawPage pageId =>
    some (init table rawPage pageId,
      { s with catalogManager := s.catalogManager.updateFirstPageId table pageId })
  | init table rawPage pageId => do
    let frameId ← rawPage
    some (insertTuple table rawPage pageId,
      s.setPage frameId (SlottedPage.init (s.bpm.pool.pages frameId)))
  | fetchPage table pageId =>
    let (rawPage, bpm) := s.bpm.fetchPage pageId
    some (insertTuple table rawPage pageId, { s with bpm })
  | insertTuple table rawPage pageId => do
    let info ← s.catalogManager.tables table
    let serializedTuple := List.replicate info.schema.getTupleFixedLength (0 : UInt8)
    match rawPage with
    | none => if 65535 < serializedTuple.length then some (unpinPage pageId, s) else none
    | some frameId =>
      match SlottedPage.insertTuple (s.bpm.pool.pages frameId) serializedTuple {} with
      | (true, rid, page) =>
        some (logRow frameId rid serializedTuple pageId, s.setPage frameId page)
      | (false, _, _) => some (unpinPage pageId, s)
  | logRow frameId rid tuple pageId =>
    some (unpinPage pageId, InsertExecutor.logRow (some txn) s frameId rid tuple)
  | unpinPage pageId => some (commit, { s with bpm := (s.bpm.unpinPage pageId true).2 })
  | commit => (s.commit txn).map fun s ↦ (done .inserted, s)
  | done _ => none

/-- The calls of an INSERT that nothing comes between: the instance and the answer. -/
def runAlone (txn : TxnId) : ℕ → StingInstance → InsertPc → Option (Response × StingInstance)
  | _, s, done response => some (response, s)
  | 0, _, _ => none
  | fuel + 1, s, pc => do
    let (pc, s) ← pc.next txn s
    runAlone txn fuel s pc

end InsertPc

/-! ## The server -/

/-- The instance and the INSERTs that have been sent to it, in the order they came. -/
structure Server where
  /-- `instance_` -/
  inst : StingInstance
  handlers : List InsertHandler := []

namespace Server

/-- What can happen next. -/
inductive Event where
  /-- Some client sends an INSERT. -/
  | insert
  /-- The `i`-th INSERT makes its next call. -/
  | call (i : ℕ)
  deriving DecidableEq

/-- The server, just after the table has been created. -/
def start (file : PageId → Option PageData) : Server :=
  { inst := (Connection.createTable (.start 4096 file)).2 }

/-- The machine of all interleavings. -/
def step (h : Server) : Event → Option (Unit × Server)
  | .insert =>
    let (txn, inst) := h.inst.begin .snapshotIsolation
    some ((), { inst, handlers := h.handlers ++ [{ txn := txn.txnId }] })
  | .call i => do
    let c ← h.handlers[i]?
    let (pc, inst) ← c.pc.next c.txn h.inst
    some ((), { inst, handlers := h.handlers.set i { c with pc } })

/-- Every INSERT has been answered. -/
def Finished (h : Server) : Prop := ∀ c ∈ h.handlers, ∃ response, c.pc = .done response

/-- How many of the INSERTs have been answered with success. -/
def acknowledged (h : Server) : ℕ := h.handlers.countP fun c ↦ c.pc = .done .inserted

end Server

/-- The second of the two places is one at which no other handler may be when the call of the first
is made: between `NewPage` and `UpdateFirstPageId` when the first page of the same table is asked
for, and before `Init` when a tuple is to go into the same page. -/
def InsertPc.Races : InsertPc → InsertPc → Prop
  | getFirstPageId table, newPage table' => table = table'
  | getFirstPageId table, updateFirstPageId table' _ _ => table = table'
  | insertTuple _ _ pageId, init _ _ pageId' => pageId = pageId'
  | _, _ => False

instance : DecidableRel InsertPc.Races := fun pc pc' ↦ by
  cases pc <;> cases pc' <;> first
    | exact instDecidableFalse
    | exact inferInstanceAs (Decidable (_ = _))

/-- The call, if it is one, does not come where it races with another handler. -/
def Server.Unraced (h : Server) : Server.Event → Prop
  | .insert => True
  | .call i => ∀ c ∈ h.handlers[i]?, ∀ c' ∈ h.handlers, ¬ c.pc.Races c'.pc

instance (h : Server) : DecidablePred h.Unraced
  | .insert => isTrue trivial
  | .call i => inferInstanceAs (Decidable (∀ c ∈ h.handlers[i]?, ∀ c' ∈ h.handlers, _))

/-! ## One handler alone -/

namespace InsertPc

/-- What is left of an INSERT when its row has been dealt with. -/
def release (txn : TxnId) (pageId : PageId) (s : StingInstance) :
    Option (Response × StingInstance) := do
  let s ← { s with bpm := (s.bpm.unpinPage pageId true).2 }.commit txn
  some (.inserted, s)

variable {txn : TxnId} {s s' : StingInstance} {table : TableId} {info : TableInfo} {fuel : ℕ}
  {pc pc' : InsertPc}

theorem runAlone_of_next (h : pc.next txn s = some (pc', s')) :
    runAlone txn (fuel + 1) s pc = runAlone txn fuel s' pc' := by
  rw [runAlone]
  · rw [h, Option.bind_eq_bind, Option.bind_some]
  · rintro response rfl
    exact absurd h (by simp [next])

theorem runAlone_of_next_none (h : pc.next txn s = none) (hpc : ∀ response, pc ≠ done response) :
    runAlone txn (fuel + 1) s pc = none := by
  rw [runAlone]
  · rw [h, Option.bind_eq_bind, Option.bind_none]
  · exact hpc

theorem runAlone_unpinPage (pageId : PageId) :
    runAlone txn (fuel + 2) s (unpinPage pageId) = release txn pageId s := by
  rw [runAlone_of_next rfl, release]
  cases h : StingInstance.commit { s with bpm := (s.bpm.unpinPage pageId true).2 } txn with
  | none => exact runAlone_of_next_none (by rw [next, h, Option.map_none]) (by simp)
  | some s' =>
    rw [runAlone_of_next (by rw [next, h, Option.map_some])]
    cases fuel <;> rfl

theorem next_insertTuple {tuple : List UInt8} (hinfo : s.catalogManager.tables table = some info)
    (ht : List.replicate info.schema.getTupleFixedLength 0 = tuple) (rawPage : Option ℕ)
    (pageId : PageId) :
    next txn s (insertTuple table rawPage pageId) =
      match rawPage with
      | none => if 65535 < tuple.length then some (unpinPage pageId, s) else none
      | some f =>
        match SlottedPage.insertTuple (s.bpm.pool.pages f) tuple {} with
        | (true, rid, page) => some (logRow f rid tuple pageId, s.setPage f page)
        | (false, _, _) => some (unpinPage pageId, s) := by
  rw [next, hinfo, ← ht]
  rfl

/-- From the page to the answer. -/
theorem runAlone_insertTuple (hinfo : s.catalogManager.tables table = some info)
    (rawPage : Option ℕ) (pageId : PageId) :
    runAlone txn (fuel + 4) s (insertTuple table rawPage pageId) =
      (InsertExecutor.insertBatch (some txn) rawPage
        (List.replicate info.schema.getTupleFixedLength 0) 1 s).bind (release txn pageId) := by
  let tuple := List.replicate info.schema.getTupleFixedLength (0 : UInt8)
  have ht : List.replicate info.schema.getTupleFixedLength 0 = tuple := rfl
  have hnext := @next_insertTuple txn s table info tuple hinfo ht rawPage pageId
  cases rawPage with
  | none =>
    rw [InsertExecutor.insertBatch]
    by_cases hlen : 65535 < tuple.length
    · rw [if_pos (Or.inr hlen), runAlone_of_next (hnext.trans (if_pos hlen)), runAlone_unpinPage]
      rfl
    · rw [if_neg (not_or_intro one_ne_zero hlen),
        runAlone_of_next_none (hnext.trans (if_neg hlen)) (by simp)]
      rfl
  | some f =>
    rw [InsertExecutor.insertBatch, Option.bind_some, InsertExecutor.insertRows]
    dsimp only at hnext
    split at hnext
    · rename_i rid page heq
      rw [runAlone_of_next hnext, runAlone_of_next rfl, runAlone_unpinPage, heq]
      rfl
    · rename_i heq
      rw [runAlone_of_next hnext, runAlone_unpinPage, heq]

/-- From the catalog to the answer. -/
theorem runAlone_getFirstPageId (hinfo : s.catalogManager.tables table = some info) :
    runAlone txn (fuel + 8) s (getFirstPageId table) =
      (InsertExecutor.targetPage s table info.firstPageId).bind fun (rawPage, pageId, s) ↦
        (InsertExecutor.insertBatch (some txn) rawPage
          (List.replicate info.schema.getTupleFixedLength 0) 1 s).bind (release txn pageId) := by
  have hnext : next txn s (getFirstPageId table) =
      if info.firstPageId = invalidPageId then some (newPage table, s)
      else some (fetchPage table info.firstPageId, s) := by
    rw [next, hinfo]
    rfl
  rw [InsertExecutor.targetPage]
  by_cases hid : info.firstPageId = invalidPageId
  · rw [if_pos hid, runAlone_of_next (hnext.trans (if_pos hid))]
    rcases hnew : s.bpm.newPage with ⟨_ | ⟨pageId, f⟩, bpm⟩
    · -- a null pointer gets as far as `Init`
      have h : next txn s (newPage table) =
          some (updateFirstPageId table none invalidPageId, { s with bpm }) := by
        rw [next, hnew]
      rw [runAlone_of_next h, runAlone_of_next rfl, runAlone_of_next_none rfl (by simp)]
      rfl
    · have h : next txn s (newPage table) =
          some (updateFirstPageId table (some f) pageId, { s with bpm }) := by
        rw [next, hnew]
      rw [runAlone_of_next h, runAlone_of_next rfl, runAlone_of_next rfl]
      let s₁ : StingInstance :=
        { s with
          bpm
          catalogManager := s.catalogManager.updateFirstPageId table pageId }
      let s₂ := s₁.setPage f (SlottedPage.init (bpm.pool.pages f))
      have hinfo' : s₂.catalogManager.tables table =
          some { info with firstPageId := pageId } := by
        show Function.update _ _ _ _ = _
        rw [Function.update_self, hinfo, Option.map_some]
      exact (runAlone_insertTuple hinfo' _ _).trans rfl
  · rw [if_neg hid, runAlone_of_next (hnext.trans (if_neg hid))]
    rcases hfetch : s.bpm.fetchPage info.firstPageId with ⟨rawPage, bpm⟩
    have h : next txn s (fetchPage table info.firstPageId) =
        some (insertTuple table rawPage info.firstPageId, { s with bpm }) := by
      rw [next, hfetch]
    have hinfo' : ({ s with bpm } : StingInstance).catalogManager.tables table = some info := hinfo
    rw [runAlone_of_next h, runAlone_insertTuple hinfo']
    rfl

end InsertPc

/-- **An INSERT that nothing comes between** is the INSERT of a server that takes one command after
another. -/
theorem Connection.insert_alone (s : StingInstance) :
    Connection.insert s = InsertPc.runAlone (s.begin .snapshotIsolation).1.txnId 9
      (s.begin .snapshotIsolation).2 .getTable := by
  rcases hbegin : s.begin .snapshotIsolation with ⟨txn, s₁⟩
  rw [insert, hbegin]
  simp only [InsertExecutor.init]
  cases hname : s₁.catalogManager.getTable "users" with
  | none =>
    rw [InsertPc.runAlone_of_next (by rw [InsertPc.next, hname])]
    rfl
  | some table =>
    rw [InsertPc.runAlone_of_next (by rw [InsertPc.next, hname])]
    simp only [InsertExecutor.next, dummyValues]
    cases hinfo : s₁.catalogManager.tables table with
    | none =>
      rw [InsertPc.runAlone_of_next_none (by rw [InsertPc.next, hinfo]; rfl) (by simp)]
      rfl
    | some info =>
      rw [InsertPc.runAlone_getFirstPageId hinfo]
      simp only [Option.bind_eq_bind, Option.bind_some, Option.bind_assoc]
      rfl

/-! ## How far the table is -/

/-- The handler has dealt with its row. -/
def InsertPc.stored : InsertPc → Bool
  | logRow .. => true
  | unpinPage _ => true
  | commit => true
  | done .inserted => true
  | _ => false

/-- The first page of the table, and who is making it. -/
inductive Stage where
  /-- There is none, and perhaps a handler that is about to make one. -/
  | noPage (creator : Option ℕ)
  /-- It is in the pool, and the table does not say so yet. -/
  | created (creator frameId : ℕ)
  /-- The table says so, and it has not been initialised. -/
  | linked (creator frameId : ℕ)
  | ready (frameId : ℕ)

namespace Stage

/-- The handler that is making the page. -/
def creator : Stage → Option ℕ
  | noPage creator => creator
  | created creator _ => some creator
  | linked creator _ => some creator
  | ready _ => none

/-- The call that this handler comes to next. -/
def making : Stage → Option InsertPc
  | noPage _ => some (.newPage 0)
  | created _ f => some (.updateFirstPageId 0 (some f) 0)
  | linked _ f => some (.init 0 (some f) 0)
  | ready _ => none

/-- The frame of the page that the table has. -/
def frame : Stage → Option ℕ
  | noPage _ => none
  | created _ _ => none
  | linked _ f => some f
  | ready f => some f

/-- What `GetFirstPageId` gives. -/
def firstPageId (st : Stage) : PageId := if st.frame = none then invalidPageId else 0

/-- What the pool has of the page, when `n` handlers have stored their rows. -/
def Page (s : Store) (n : ℕ) : Stage → Prop
  | noPage _ => s.Untouched
  | created _ f => s.pool.pageTable.lookup 0 = some f
  | linked _ f => s.pool.pageTable.lookup 0 = some f
  | ready f =>
    s.pool.pageTable.lookup 0 = some f ∧ Filled (s.pool.pages f) 259 (min n Session.visibleRows)

/-- Where the `i`-th handler can be. -/
inductive Place : Stage → ℕ → InsertPc → Prop
  | getTable {st i} (h : st.creator ≠ some i) : Place st i .getTable
  | getFirstPageId {st i} (h : st.creator ≠ some i) : Place st i (.getFirstPageId 0)
  | newPage {i} : Place (noPage (some i)) i (.newPage 0)
  | updateFirstPageId {i f} : Place (created i f) i (.updateFirstPageId 0 (some f) 0)
  | init {i f} : Place (linked i f) i (.init 0 (some f) 0)
  | fetchPage {st i f} (h : st.creator ≠ some i) (hf : st.frame = some f) :
    Place st i (.fetchPage 0 0)
  | insertTuple {st i f} (h : st.creator ≠ some i) (hf : st.frame = some f) :
    Place st i (.insertTuple 0 (some f) 0)
  | logRow {i f rid tuple} : Place (ready f) i (.logRow f rid tuple 0)
  | unpinPage {i f} : Place (ready f) i (.unpinPage 0)
  | commit {i f} : Place (ready f) i .commit
  | done {i f} : Place (ready f) i (.done .inserted)

/-- How the `i`-th handler takes the table on. -/
inductive Moves (i : ℕ) : Stage → Stage → Prop
  | rest (st) : Moves i st st
  | claim : Moves i (noPage none) (noPage (some i))
  | create (f) : Moves i (noPage (some i)) (created i f)
  | link (f) : Moves i (created i f) (linked i f)
  | init (f) : Moves i (linked i f) (ready f)

variable {st st' : Stage} {i j : ℕ} {pc : InsertPc}

/-- The other handlers can be where they were. -/
theorem Place.of_moves (h : st.Place j pc) (hm : Moves i st st') (hj : j ≠ i) : st'.Place j pc := by
  cases hm with
  | rest => exact h
  | claim =>
    have hne : (noPage (some i)).creator ≠ some j := fun heq ↦ hj (Option.some.inj heq).symm
    cases h with
    | getTable => exact .getTable hne
    | getFirstPageId => exact .getFirstPageId hne
    | fetchPage _ hf => cases hf
    | insertTuple _ hf => cases hf
  | create f =>
    cases h with
    | getTable h => exact .getTable h
    | getFirstPageId h => exact .getFirstPageId h
    | newPage => exact absurd rfl hj
    | fetchPage _ hf => cases hf
    | insertTuple _ hf => cases hf
  | link f =>
    cases h with
    | getTable h => exact .getTable h
    | getFirstPageId h => exact .getFirstPageId h
    | updateFirstPageId => exact absurd rfl hj
    | fetchPage _ hf => cases hf
    | insertTuple _ hf => cases hf
  | init f =>
    have hne : (ready f).creator ≠ some j := nofun
    cases h with
    | getTable => exact .getTable hne
    | getFirstPageId => exact .getFirstPageId hne
    | init => exact absurd rfl hj
    | fetchPage _ hf => exact .fetchPage hne hf
    | insertTuple _ hf => exact .insertTuple hne hf

theorem Place.of_creator (h : st.Place i pc) (hc : st.creator = some i) : st.making = some pc := by
  cases h with
  | getTable h => exact absurd hc h
  | getFirstPageId h => exact absurd hc h
  | newPage => rfl
  | updateFirstPageId => rfl
  | init => rfl
  | fetchPage h => exact absurd hc h
  | insertTuple h => exact absurd hc h
  | logRow => cases hc
  | unpinPage => cases hc
  | commit => cases hc
  | done => cases hc

/-- Before the page is ready nobody has dealt with a row. -/
theorem Place.stored_eq_false (h : st.Place i pc) (hst : ∀ f, st ≠ ready f) :
    pc.stored = false := by
  cases h with
  | logRow => exact absurd rfl (hst _)
  | unpinPage => exact absurd rfl (hst _)
  | commit => exact absurd rfl (hst _)
  | done => exact absurd rfl (hst _)
  | _ => rfl

/-- An answer is one of success, from a page that is ready. -/
theorem Place.of_done {response : Response} (h : st.Place i (.done response)) :
    response = .inserted ∧ ∃ f, st = ready f := by
  cases h
  exact ⟨rfl, _, rfl⟩

theorem Page.resident {s : Store} {n f : ℕ} (h : st.Page s n) (hf : st.frame = some f) :
    s.pool.pageTable.lookup 0 = some f := by
  cases st with
  | noPage => cases hf
  | created => cases hf
  | linked => cases hf; exact h
  | ready => cases hf; exact h.1

/-- A page that the table has is what it was if it is where it was. -/
theorem Page.congr {s s' : Store} {n f : ℕ} (h : st.Page s n) (hf : st.frame = some f)
    (hl : s'.pool.pageTable = s.pool.pageTable)
    (hd : (s'.pool.pages f).data = (s.pool.pages f).data) : st.Page s' n := by
  cases st with
  | noPage => cases hf
  | created => cases hf
  | linked => exact (congrArg _ hl).trans h
  | ready =>
    cases hf
    exact ⟨(congrArg _ hl).trans h.1, h.2.of_data_eq hd⟩

theorem Moves.creator (hm : Moves i st st') (hj : st'.creator = some j) :
    j = i ∨ st.creator = some j := by
  cases hm with
  | rest => exact Or.inr hj
  | claim => exact Or.inl (Option.some.inj hj).symm
  | create f => exact Or.inl (Option.some.inj hj).symm
  | link f => exact Or.inl (Option.some.inj hj).symm
  | init f => cases hj

end Stage

/-! ## Transactions -/

namespace StingInstance

variable {s s' : StingInstance} {txn t : TxnId}

theorem begin_isSome (isoLevel : IsolationLevel) (h : (s.txnManager.txnMap t).isSome) :
    ((s.begin isoLevel).2.txnManager.txnMap t).isSome := by
  rw [begin, TransactionManager.begin]
  exact TransactionManager.setTxn_isSome _ h

theorem commit_isSome (hs : s.commit txn = some s') (h : (s.txnManager.txnMap t).isSome) :
    (s'.txnManager.txnMap t).isSome := by
  obtain ⟨t', -, rfl⟩ := Option.map_eq_some_iff.mp hs
  show ((s.txnManager.commit t').txnMap t).isSome
  rw [TransactionManager.commit]
  split
  · exact h
  · exact TransactionManager.setTxn_isSome _ h

end StingInstance

/-! ## Order -/

/-- All handlers are where the table lets them be, and the page has the rows of those that have
dealt with theirs. -/
structure Orderly (st : Stage) (h : Server) : Prop where
  name : h.inst.catalogManager.tableNames "users" = some 0
  table : h.inst.catalogManager.tables 0 = some (usersTable st.firstPageId)
  begun : ∀ c ∈ h.handlers, (h.inst.txnManager.txnMap c.txn).isSome
  place : ∀ i c, h.handlers[i]? = some c → st.Place i c.pc
  creator : ∀ i, st.creator = some i → i < h.handlers.length
  entered : h.handlers = [] → st = .noPage none
  page : st.Page h.inst.bpm (h.handlers.countP fun c ↦ c.pc.stored)

theorem orderly_start (file : PageId → Option PageData) :
    Orderly (.noPage none) (.start file) := by
  have hserves := (Connection.createTable_refines (serves_start file)).2
  have hhas : HasTable (Server.start file).inst 0 := hserves.table
  exact
    { name := hhas.name
      table := hhas.table
      begun := by simp [Server.start]
      place := by simp [Server.start]
      creator := nofun
      entered := fun _ ↦ rfl
      page := hhas.store }

namespace Orderly

variable {st st' : Stage} {h : Server} {i : ℕ} {c : InsertHandler} {pc : InsertPc}
  {inst : StingInstance}

/-- A new handler is at its first call. -/
theorem insert (ho : Orderly st h) :
    Orderly st { inst := (h.inst.begin .snapshotIsolation).2,
                 handlers := h.handlers ++ [{ txn := (h.inst.begin .snapshotIsolation).1.txnId }] }
    where
  name := ho.name
  table := ho.table
  begun c hc := by
    rcases List.mem_append.mp hc with hc | hc
    · exact StingInstance.begin_isSome _ (ho.begun c hc)
    · obtain rfl := List.mem_singleton.mp hc
      exact h.inst.begin_begun _
  place i c hi := by
    rw [List.getElem?_append] at hi
    split at hi
    · exact ho.place i c hi
    · rename_i hlt
      obtain rfl := List.mem_singleton.mp (List.mem_of_getElem? hi)
      exact .getTable fun hc ↦ hlt (ho.creator i hc)
  creator i hi := by
    rw [List.length_append]
    exact Nat.lt_add_right _ (ho.creator i hi)
  entered hnil := by simp at hnil
  page := by
    rw [List.countP_append]
    exact ho.page

/-- What there is to say of a call for the table to stay in order. -/
theorem call {n : ℕ} (ho : Orderly st h) (hi : h.handlers[i]? = some c) (hm : st.Moves i st')
    (hplace : st'.Place i pc)
    (hname : inst.catalogManager.tableNames = h.inst.catalogManager.tableNames)
    (htable : inst.catalogManager.tables 0 = some (usersTable st'.firstPageId))
    (hbegun : ∀ t, (h.inst.txnManager.txnMap t).isSome → (inst.txnManager.txnMap t).isSome)
    (hn : n + c.pc.stored.toNat = h.handlers.countP (fun c ↦ c.pc.stored) + pc.stored.toNat)
    (hpage : st'.Page inst.bpm n) :
    Orderly st' { inst, handlers := h.handlers.set i { c with pc } } where
  name := hname ▸ ho.name
  table := htable
  begun c' hc' := by
    rcases List.mem_or_eq_of_mem_set hc' with hc' | rfl
    · exact hbegun _ (ho.begun c' hc')
    · exact hbegun _ (ho.begun c (List.mem_of_getElem? hi))
  place j c' hj := by
    by_cases hji : j = i
    · subst hji
      rw [List.getElem?_set_self (List.getElem?_eq_some_iff.mp hi).1] at hj
      cases hj
      exact hplace
    · rw [List.getElem?_set_ne (Ne.symm hji)] at hj
      exact (ho.place j c' hj).of_moves hm hji
  creator j hj := by
    rw [List.length_set]
    rcases hm.creator hj with rfl | hj
    · exact (List.getElem?_eq_some_iff.mp hi).1
    · exact ho.creator j hj
  entered hnil := by
    rw [List.set_eq_nil_iff] at hnil
    simp [hnil] at hi
  page := by
    obtain ⟨hlt, rfl⟩ := List.getElem?_eq_some_iff.mp hi
    have hle := List.boole_getElem_le_countP (p := fun c : InsertHandler ↦ c.pc.stored) hlt
    have hcount :
        (h.handlers.set i { h.handlers[i] with pc }).countP (fun c ↦ c.pc.stored) = n := by
      have hite (b : Bool) : (if b then 1 else 0) = b.toNat := (Bool.cond_eq_ite b 1 0).symm
      rw [hite] at hle
      rw [List.countP_set hlt, hite, hite]
      dsimp only
      omega
    rw [hcount]
    exact hpage

/-- A call that races with no other does not race with that of the handler that is making the
page. -/
theorem not_races_making (ho : Orderly st h) (hr : ∀ c' ∈ h.handlers, ¬ pc.Races c'.pc)
    {j : ℕ} {pc' : InsertPc} (hj : st.creator = some j) (hm : st.making = some pc') :
    ¬ pc.Races pc' := by
  have hlt := ho.creator j hj
  have hplace := ho.place j _ (List.getElem?_eq_getElem hlt)
  obtain rfl : h.handlers[j].pc = pc' := Option.some.inj ((hplace.of_creator hj).symm.trans hm)
  exact hr _ (List.getElem_mem hlt)

/-- The row of a handler goes into the page, or the page is full. -/
theorem next_insertTuple {f : ℕ} (ho : Orderly (.ready f) h) (hi : h.handlers[i]? = some c)
    (hpc : c.pc = .insertTuple 0 (some f) 0)
    (hs : InsertPc.next c.txn h.inst (.insertTuple 0 (some f) 0) = some (pc, inst)) :
    ∃ st', Orderly st' { inst, handlers := h.handlers.set i { c with pc } } := by
  let n := h.handlers.countP fun c ↦ c.pc.stored
  let tuple := List.replicate usersSchema.getTupleFixedLength (0 : UInt8)
  have ht : tuple.length = 259 := by rw [List.length_replicate, usersSchema_length]
  obtain ⟨hl, hfilled⟩ := ho.page
  have hadmits := hfilled.admits_iff ht (by decide)
  have hcall := fun {n pc inst} ↦ @call _ _ h i c pc inst n ho hi (.rest _)
  rw [hpc] at hcall
  have hnext := @InsertPc.next_insertTuple c.txn h.inst 0 _ tuple ho.table rfl (some f) 0
  rw [hnext] at hs
  by_cases hlt : min n Session.visibleRows < capacity 259
  · have hinsert : SlottedPage.insertTuple (h.inst.bpm.pool.pages f) tuple {} = _ :=
      if_pos (hadmits.mpr hlt)
    dsimp only at hs
    rw [hinsert] at hs
    cases hs
    refine ⟨_, hcall (n := n + 1) .logRow rfl ho.table (fun _ ↦ id) rfl ⟨hl, ?_⟩⟩
    have hmin : min (n + 1) Session.visibleRows = min n Session.visibleRows + 1 := by
      rw [capacity_users] at hlt
      omega
    rw [hmin]
    simpa [StingInstance.setPage, inserted] using hfilled.insert ht hlt
  · have hinsert : SlottedPage.insertTuple (h.inst.bpm.pool.pages f) tuple {} = _ :=
      if_neg (mt hadmits.mp hlt)
    dsimp only at hs
    rw [hinsert] at hs
    cases hs
    refine ⟨_, hcall (n := n + 1) .unpinPage rfl ho.table (fun _ ↦ id) rfl ⟨hl, ?_⟩⟩
    have hmin : min (n + 1) Session.visibleRows = min n Session.visibleRows := by
      rw [capacity_users] at hlt
      omega
    rw [hmin]
    exact hfilled

/-- A handler that finds no page is the one to make it, and a handler that finds one goes there. -/
theorem next_getFirstPageId (ho : Orderly st h) (hi : h.handlers[i]? = some c)
    (hpc : c.pc = .getFirstPageId 0) (hc : st.creator ≠ some i)
    (hr : ∀ c' ∈ h.handlers, ¬ InsertPc.Races (.getFirstPageId 0) c'.pc)
    (hs : InsertPc.next c.txn h.inst (.getFirstPageId 0) = some (pc, inst)) :
    ∃ st', Orderly st' { inst, handlers := h.handlers.set i { c with pc } } := by
  have hcall := fun {n pc st' inst} ↦ @call st st' h i c pc inst n ho hi
  rw [hpc] at hcall
  rw [InsertPc.next, ho.table] at hs
  cases st with
  | noPage creator =>
    cases hs
    cases creator with
    | none => exact ⟨_, hcall .claim .newPage rfl ho.table (fun _ ↦ id) rfl ho.page⟩
    | some j => exact absurd rfl (ho.not_races_making hr rfl rfl)
  | created j f => exact absurd rfl (ho.not_races_making hr rfl rfl)
  | linked j f =>
    cases hs
    exact ⟨_, hcall (.rest _) (.fetchPage hc rfl) rfl ho.table (fun _ ↦ id) rfl ho.page⟩
  | ready f =>
    cases hs
    exact ⟨_, hcall (.rest _) (.fetchPage hc rfl) rfl ho.table (fun _ ↦ id) rfl ho.page⟩

/-- **One call of a handler** that races with no other. -/
theorem next (ho : Orderly st h) (hi : h.handlers[i]? = some c)
    (hr : ∀ c' ∈ h.handlers, ¬ c.pc.Races c'.pc) (hs : c.pc.next c.txn h.inst = some (pc, inst)) :
    ∃ st', Orderly st' { inst, handlers := h.handlers.set i { c with pc } } := by
  have hplace := ho.place i c hi
  have hcall := fun {n pc st' inst} ↦ @call st st' h i c pc inst n ho hi
  generalize hpc : c.pc = pc₀ at hplace hr hs hcall
  cases hplace with
  | getTable hc =>
    rw [InsertPc.next, CatalogManager.getTable, ho.name] at hs
    cases hs
    exact ⟨st, hcall (.rest st) (.getFirstPageId hc) rfl ho.table (fun _ ↦ id) rfl ho.page⟩
  | @getFirstPageId _ _ hc =>
    exact ho.next_getFirstPageId hi hpc hc hr hs
  | newPage =>
    have huntouched : h.inst.bpm.Untouched := ho.page
    obtain ⟨f, bpm, hnew⟩ := huntouched.newPage
    rw [InsertPc.next, hnew] at hs
    cases hs
    exact ⟨_, hcall (.create f) .updateFirstPageId rfl ho.table (fun _ ↦ id) rfl
      (Store.newPage_resident hnew)⟩
  | @updateFirstPageId _ f =>
    cases hs
    refine ⟨_, hcall (.link f) .init rfl ?_ (fun _ ↦ id) rfl ho.page⟩
    simp [CatalogManager.updateFirstPageId, ho.table, usersTable, Stage.firstPageId, Stage.frame]
  | @init _ f =>
    cases hs
    have hnone : h.handlers.countP (fun c ↦ c.pc.stored) = 0 := by
      rw [List.countP_eq_zero]
      intro c' hmem
      obtain ⟨j, hj⟩ := List.mem_iff_getElem?.mp hmem
      rw [(ho.place j c' hj).stored_eq_false (by simp)]
      exact Bool.false_ne_true
    have hplace : (Stage.ready f).Place i (.insertTuple 0 (some f) 0) :=
      .insertTuple (Option.some_ne_none i).symm rfl
    refine ⟨_, hcall (.init f) hplace rfl ho.table (fun _ ↦ id) rfl ⟨ho.page, ?_⟩⟩
    rw [hnone]
    simpa [StingInstance.setPage] using filled_init (h.inst.bpm.pool.pages f) 259
  | @fetchPage _ _ f hc hf =>
    rw [InsertPc.next, Store.fetchPage_of_resident (ho.page.resident hf)] at hs
    cases hs
    exact ⟨_, hcall (.rest st) (.insertTuple hc hf) rfl ho.table (fun _ ↦ id) rfl
      (ho.page.congr hf rfl (BufferPoolManager.pin_data _ _ _))⟩
  | @insertTuple _ _ f hc hf =>
    cases hst : st with
    | noPage => subst hst; cases hf
    | created => subst hst; cases hf
    | linked j f' =>
      subst hst
      exact absurd rfl (ho.not_races_making hr rfl rfl)
    | ready f' =>
      subst hst
      cases hf
      exact ho.next_insertTuple hi hpc hs
  | @logRow _ f rid tuple =>
    cases hs
    have hext := @InsertExecutor.logRow_extends (some c.txn) f tuple h.inst rid
    have hpage := ho.page
    refine ⟨_, hcall (.rest _) .unpinPage ?_ ?_ hext.begun rfl ⟨?_, ?_⟩⟩
    · rw [hext.catalogManager]
    · rw [hext.catalogManager, ho.table]
    · rw [hext.pageTable, hpage.1]
    · exact InsertExecutor.logRow_filled h.inst rid hpage.2
  | @unpinPage _ f =>
    rw [InsertPc.next, Store.unpinPage_of_resident (ho.page.resident rfl)] at hs
    cases hs
    exact ⟨_, hcall (.rest _) .commit rfl ho.table (fun _ ↦ id) rfl (ho.page.congr (f := f) rfl
      (BufferPoolManager.unpin_pageTable _ _ _) (BufferPoolManager.unpin_data _ _ _ _))⟩
  | commit =>
    obtain ⟨s', hs', heq⟩ := Option.map_eq_some_iff.mp hs
    cases heq
    have hbegun := fun t ↦ StingInstance.commit_isSome (t := t) hs'
    obtain ⟨t, -, rfl⟩ := Option.map_eq_some_iff.mp hs'
    exact ⟨_, hcall (.rest _) .done rfl ho.table hbegun rfl ho.page⟩
  | done => cases hs

theorem step {e : Server.Event} {o : Unit} {h' : Server} (ho : Orderly st h) (he : h.Unraced e)
    (hs : h.step e = some (o, h')) : ∃ st', Orderly st' h' := by
  cases e with
  | insert =>
    cases hs
    exact ⟨st, ho.insert⟩
  | call i =>
    obtain ⟨c, hi, hs⟩ := Option.bind_eq_some_iff.mp hs
    obtain ⟨⟨pc, inst⟩, hn, hs⟩ := Option.bind_eq_some_iff.mp hs
    cases hs
    exact ho.next hi (he c hi) hn

/-- **When every INSERT has been answered**, the server is one that has answered as many of them one
after another. -/
theorem hasTable (ho : Orderly st h) (hf : h.Finished) :
    HasTable h.inst h.handlers.length ∧ h.acknowledged = h.handlers.length := by
  have hdone : ∀ c ∈ h.handlers, c.pc = .done .inserted ∧ ∃ f, st = .ready f := by
    intro c hmem
    obtain ⟨response, hpc⟩ := hf c hmem
    obtain ⟨i, hi⟩ := List.mem_iff_getElem?.mp hmem
    have hplace := ho.place i c hi
    rw [hpc] at hplace ⊢
    obtain ⟨rfl, hst⟩ := hplace.of_done
    exact ⟨rfl, hst⟩
  have hcount : h.acknowledged = h.handlers.length :=
    List.countP_eq_length.mpr fun c hmem ↦ by simp [(hdone c hmem).1]
  refine ⟨?_, hcount⟩
  have htable := ho.table
  have hpage := ho.page
  rcases hnil : h.handlers with _ | ⟨c, cs⟩
  · rw [ho.entered hnil] at htable hpage
    exact ⟨ho.name, htable, hpage⟩
  · obtain ⟨-, f, rfl⟩ := hdone c (by simp [hnil])
    have hstored : h.handlers.countP (fun c ↦ c.pc.stored) = h.handlers.length :=
      List.countP_eq_length.mpr fun c hmem ↦ by rw [(hdone c hmem).1]; rfl
    rw [hstored, hnil] at hpage
    exact ⟨ho.name, htable, f, hpage⟩

end Orderly

/-! ## Runs -/

/-- There is a handler for every INSERT that has been sent. -/
theorem handlers_length {file : PageId → Option PageData} {es : List Server.Event} {os : List Unit}
    {h : Server} (hr : run Server.step (.start file) es = some (os, h)) :
    h.handlers.length = es.count .insert := by
  refine run_history (P := fun _ _ ↦ True)
    (I := fun es _ (h : Server) ↦ h.handlers.length = es.count .insert) rfl ?_ along_true hr
  intro es os h e o h' _ hlen _ hs
  rw [List.count_append, ← hlen]
  cases e with
  | insert =>
    cases hs
    simp
  | call i =>
    obtain ⟨c, -, hs⟩ := Option.bind_eq_some_iff.mp hs
    obtain ⟨⟨pc, inst⟩, -, hs⟩ := Option.bind_eq_some_iff.mp hs
    cases hs
    simp

/-- **Concurrent INSERTs lose no row** if none of their calls races with another.  After any
interleaving of any number of INSERTs, as many as the page has room for, once all of them have been
answered a SELECT reports those that have been answered with success. -/
theorem inserts_visible {file : PageId → Option PageData} {es : List Server.Event} {os : List Unit}
    {h : Server} (hfits : es.count .insert ≤ capacity usersSchema.getTupleFixedLength)
    (hP : Along Server.step Server.Unraced (.start file) es)
    (hr : run Server.step (.start file) es = some (os, h)) (hf : h.Finished) :
    ∃ inst, Connection.select h.inst = some (.selected h.acknowledged, inst) := by
  obtain ⟨st, ho⟩ := run_invariant (I := fun h ↦ ∃ st, Orderly st h)
    (fun h e o h' ⟨_, ho⟩ he hs ↦ ho.step he hs) ⟨_, orderly_start file⟩ hP hr
  obtain ⟨hhas, hack⟩ := ho.hasTable hf
  have hlen := handlers_length hr
  let t : Session := ⟨some h.handlers.length, h.inst.txnManager.nextTxnId⟩
  obtain ⟨inst, hselect, -⟩ := Connection.select_refines (t := t) ⟨rfl, hhas⟩
  rw [← hlen, usersSchema_length, capacity_users] at hfits
  exact ⟨inst, by rw [hselect, hack]; simp [t, Session.answer, hfits]⟩

/-- Where a run has taken the INSERTs, and what a SELECT answers after it. -/
def outcome (es : List Server.Event) : Option (List InsertPc × Response) := do
  let (_, h) ← run Server.step (.start fun _ ↦ none) es
  let (response, _) ← Connection.select h.inst
  some (h.handlers.map InsertHandler.pc, response)

theorem exists_of_outcome (es : List Server.Event) (n : ℕ) (response : Response)
    (ho : outcome es = some (List.replicate n (.done .inserted), response)) :
    ∃ os h inst, run Server.step (.start fun _ ↦ none) es = some (os, h) ∧ h.Finished ∧
      h.acknowledged = n ∧ Connection.select h.inst = some (response, inst) := by
  obtain ⟨⟨os, h⟩, hr, ho⟩ := Option.bind_eq_some_iff.mp ho
  obtain ⟨⟨r, inst⟩, hselect, ho⟩ := Option.bind_eq_some_iff.mp ho
  obtain ⟨hpcs, rfl⟩ := Prod.mk.inj (Option.some.inj ho)
  refine ⟨os, h, inst, hr, fun c hmem ↦ ⟨.inserted, ?_⟩, ?_, hselect⟩
  · have hpc := List.mem_map_of_mem (f := InsertHandler.pc) hmem
    rw [hpcs] at hpc
    exact List.eq_of_mem_replicate hpc
  · have hcount : h.acknowledged = (h.handlers.map InsertHandler.pc).count (.done .inserted) := by
      rw [List.count, List.countP_map]
      rfl
    rw [hcount, hpcs, List.count_replicate_self]

/-- Two INSERTs, the second of which comes while the first has its page and is about to store its
row. -/
def inTurn : List Server.Event :=
  .insert :: List.replicate 5 (.call 0) ++ .insert :: List.replicate 4 (.call 1) ++
    List.replicate 4 (.call 0) ++ List.replicate 3 (.call 1)

theorem inserts_visible_two :
    ∃ os h inst, run Server.step (.start fun _ ↦ none) inTurn = some (os, h) ∧
      h.acknowledged = 2 ∧ Connection.select h.inst = some (.selected h.acknowledged, inst) := by
  obtain ⟨os, h, -, hr, hf, hack, -⟩ := exists_of_outcome inTurn 2 (.selected 2) (by decide +kernel)
  have hfits : inTurn.count .insert ≤ capacity usersSchema.getTupleFixedLength := by
    rw [usersSchema_length]
    decide
  obtain ⟨inst, hselect⟩ := inserts_visible hfits (by decide +kernel) hr hf
  exact ⟨os, h, inst, hr, hack, hselect⟩

/-- Two INSERTs that both find that there is no page yet. -/
def firstTwice : List Server.Event :=
  [.insert, .insert, .call 0, .call 1, .call 0, .call 1] ++ List.replicate 7 (.call 0) ++
    List.replicate 7 (.call 1)

/-- Both are answered with success, and the SELECT reports one row. -/
theorem page_forgotten :
    ∃ os h inst, run Server.step (.start fun _ ↦ none) firstTwice = some (os, h) ∧ h.Finished ∧
      firstTwice.count .insert ≤ capacity usersSchema.getTupleFixedLength ∧ h.acknowledged = 2 ∧
      Connection.select h.inst = some (.selected 1, inst) := by
  obtain ⟨os, h, inst, hr, hf, hack, hselect⟩ := exists_of_outcome firstTwice 2 (.selected 1)
    (by decide +kernel)
  refine ⟨os, h, inst, hr, hf, ?_, hack, hselect⟩
  rw [usersSchema_length]
  decide

/-- The same of a row that comes to a page before its `Init`. -/
example : outcome ([.insert, .insert] ++ List.replicate 4 (.call 0) ++ List.replicate 6 (.call 1) ++
    List.replicate 5 (.call 0)) = some (List.replicate 2 (.done .inserted), .selected 1) := by
  decide +kernel

end StingDB
