import StingDB.Lib.Linearizability
import StingDB.Network.ConcurrentInserts

/-!
# Every command on several threads

The handlers of `ConcurrentInserts`, and beside them those of SELECTs, which take one call after
another as well: `Init`, and then for every `Next` that it makes a SELECT fetches the page, looks
how many tuples it has, reads one and releases the page, while others insert.  The remaining
commands make one call.  One SELECT that is left alone does what `Connection.select` does
(`select_alone`).

Seen from outside the server is a session all the same: where no INSERT races with another, what
the clients see is linearizable (`linearizable_of_run`), an INSERT taking effect when its tuple goes
into the page and a SELECT when it looks for a tuple and there is none.  What it reports is what
there was at that moment, though others have come since it began.  The ids of transactions are not
part of this: they are given out when a handler begins, and in another order than the rows.  And
every command is answered after so many calls of its own, whatever the others do
(`answered_of_run`).
-/

set_option autoImplicit false

namespace StingDB

open Machine SlottedPage Linearizability

/-! ## Handlers -/

/-- The call that a SELECT comes to next, and what it has in hand for it. -/
inductive SelectPc where
  | getTable
  | getFirstPageId (table : TableId)
  | fetchPage (scan : SeqScanExecutor) (count : ℕ)
  | getTupleCount (frameId : ℕ) (scan : SeqScanExecutor) (count : ℕ)
  | getTuple (scan : SeqScanExecutor) (count : ℕ)
  | unpinPage (more : Bool) (scan : SeqScanExecutor) (count : ℕ)
  | commit (count : ℕ)
  | done (response : Response)

/-- A SELECT under way. -/
structure SelectHandler where
  /-- Its transaction. -/
  txn : TxnId
  /-- Where it is. -/
  pc : SelectPc := .getTable

namespace SelectPc

/-- The next call of a SELECT: where that takes it, and the instance.  The bytes that `GetTuple`
copies are not used. -/
def next (txn : TxnId) (s : StingInstance) : SelectPc → Option (SelectPc × StingInstance)
  | getTable =>
    match s.catalogManager.getTable "users" with
    | none => some (done (.error ("Table not found: " ++ "users")), s)
    | some table => some (getFirstPageId table, s)
  | getFirstPageId table =>
    let page := (s.catalogManager.tables table).elim invalidPageId TableInfo.firstPageId
    some (fetchPage { tableName := "users", tableInfo := some table, currentPageId := page } 0, s)
  | fetchPage scan count =>
    if scan.tableInfo = none ∨ scan.currentPageId = invalidPageId then some (commit count, s)
    else
      match s.bpm.fetchPage scan.currentPageId with
      | (none, bpm) => some (commit count, { s with bpm })
      | (some frameId, bpm) => some (getTupleCount frameId scan count, { s with bpm })
  | getTupleCount frameId scan count =>
    if SlottedPage.getTupleCount (s.bpm.pool.pages frameId) ≤ scan.currentSlot.toNat then
      some (unpinPage false scan count, s)
    else some (getTuple scan count, s)
  | getTuple scan count =>
    some (unpinPage true { scan with currentSlot := scan.currentSlot + 1 } count, s)
  | unpinPage more scan count =>
    some (if more then fetchPage scan (count + 1) else commit count,
      { s with bpm := (s.bpm.unpinPage scan.currentPageId false).2 })
  | commit count => (s.commit txn).map fun s ↦ (done (.selected count), s)
  | done _ => none

/-- The calls of a SELECT that nothing comes between: the instance and the answer. -/
def runAlone (txn : TxnId) : ℕ → StingInstance → SelectPc → Option (Response × StingInstance)
  | _, s, done response => some (response, s)
  | 0, _, _ => none
  | fuel + 1, s, pc => do
    let (pc, s) ← pc.next txn s
    runAlone txn fuel s pc

end SelectPc

/-! ## The server -/

/-- Which of the commands that have been sent: the `i`-th INSERT, the `i`-th SELECT, or the `i`-th
of the others. -/
inductive CommandId where
  | insert (i : ℕ)
  | select (i : ℕ)
  | other (i : ℕ)
  deriving DecidableEq

/-- The instance, and the commands that have been sent to it. -/
structure MixedServer where
  /-- `instance_`, and the INSERTs. -/
  server : Server
  /-- The SELECTs, in the order they came. -/
  selects : List SelectHandler := []
  /-- The others, and their answers.  Nothing reads this. -/
  others : List (Command × Response) := []

namespace MixedServer

/-- What can happen next. -/
inductive Event where
  /-- Some client sends a command. -/
  | receive (command : Command)
  /-- The `i`-th INSERT makes its next call. -/
  | insert (i : ℕ)
  /-- The `i`-th SELECT makes its next call. -/
  | select (i : ℕ)
  deriving DecidableEq

/-- What the clients see. -/
abbrev Seen := List (Action CommandId Command Response)

/-- The server, just after the table has been created. -/
def start (file : PageId → Option PageData) : MixedServer := { server := .start file }

/-- A command of one call. -/
def reply (m : MixedServer) (command : Command) (r : Response × StingInstance) :
    Seen × MixedServer :=
  ([.invoke (.other m.others.length) command, .respond (.other m.others.length) r.1],
    { m with
      server := { m.server with inst := r.2 }
      others := m.others ++ [(command, r.1)] })

/-- The machine of all interleavings. -/
def step (m : MixedServer) : Event → Option (Seen × MixedServer)
  | .receive .insert => do
    let (_, server) ← m.server.step .insert
    some ([.invoke (.insert m.server.handlers.length) .insert], { m with server })
  | .receive .select =>
    let (txn, inst) := m.server.inst.begin .snapshotIsolation
    some ([.invoke (.select m.selects.length) .select],
      { m with
        server := { m.server with inst }
        selects := m.selects ++ [{ txn := txn.txnId }] })
  | .receive .createTable => some (m.reply .createTable (Connection.createTable m.server.inst))
  | .receive .begin => some (m.reply .begin (Connection.begin m.server.inst))
  | .receive .unsupported => some (m.reply .unsupported (.unsupported, m.server.inst))
  | .insert i => do
    let (_, server) ← m.server.step (.call i)
    some (match server.handlers[i]? with
      | some { pc := .done response, .. } => [.respond (.insert i) response]
      | _ => [], { m with server })
  | .select i => do
    let c ← m.selects[i]?
    let (pc, inst) ← c.pc.next c.txn m.server.inst
    some (match pc with
      | .done response => [.respond (.select i) response]
      | _ => [],
      { m with server := { m.server with inst }, selects := m.selects.set i { c with pc } })

/-- No INSERT makes a call where it races with another. -/
def Unraced (m : MixedServer) : Event → Prop
  | .insert i => m.server.Unraced (.call i)
  | _ => True

instance (m : MixedServer) : DecidablePred m.Unraced
  | .insert i => inferInstanceAs (Decidable (m.server.Unraced (.call i)))
  | .receive _ => isTrue trivial
  | .select _ => isTrue trivial

end MixedServer

/-! ## One SELECT alone -/

namespace SelectPc

variable {txn : TxnId} {s s' : StingInstance} {pc pc' : SelectPc} {scan : SeqScanExecutor}
  {fuel k n count : ℕ} {bpm : Store}

theorem runAlone_of_next (h : pc.next txn s = some (pc', s')) :
    runAlone txn (fuel + 1) s pc = runAlone txn fuel s' pc' := by
  rw [runAlone]
  · rw [h, Option.bind_eq_bind, Option.bind_some]
  · rintro response rfl
    exact absurd h (by simp [next])

theorem runAlone_commit :
    runAlone txn (fuel + 1) s (commit count) =
      (s.commit txn).map fun s ↦ (.selected count, s) := by
  rw [runAlone]
  · rw [next]
    cases s.commit txn with
    | none => rfl
    | some s' => cases fuel <;> rfl
  · nofun

/-- The loop over the tuples, which makes four calls for each. -/
theorem runAlone_fetchPage (hcount : scan.count fuel s.bpm = some (n, bpm)) :
    runAlone txn (4 * fuel + k) s (fetchPage scan count) =
      (StingInstance.commit { s with bpm } txn).map fun s ↦ (.selected (count + n), s) := by
  induction fuel generalizing scan s count n with
  | zero => cases hcount
  | succ fuel ih =>
    rw [SeqScanExecutor.count, SeqScanExecutor.next] at hcount
    rw [show 4 * (fuel + 1) + k = 4 * fuel + k + 1 + 1 + 1 + 1 by omega]
    by_cases hnone : scan.tableInfo = none ∨ scan.currentPageId = invalidPageId
    · rw [if_pos hnone] at hcount
      cases hcount
      rw [runAlone_of_next (by rw [next, if_pos hnone]), runAlone_commit]
      rfl
    · rw [if_neg hnone] at hcount
      rcases hfetch : s.bpm.fetchPage scan.currentPageId with ⟨_ | f, bpm₁⟩
      · rw [hfetch] at hcount
        cases hcount
        rw [runAlone_of_next (by rw [next, if_neg hnone, hfetch]), runAlone_commit]
        rfl
      · rw [hfetch] at hcount
        rw [runAlone_of_next (by rw [next, if_neg hnone, hfetch])]
        dsimp only at hcount
        by_cases hend : SlottedPage.getTupleCount (bpm₁.pool.pages f) ≤ scan.currentSlot.toNat
        · rw [if_pos hend] at hcount
          cases hcount
          rw [runAlone_of_next (by rw [next, if_pos hend]), runAlone_of_next rfl]
          exact runAlone_commit
        · rw [if_neg hend] at hcount
          obtain ⟨⟨m, bpm₂⟩, hrest, heq⟩ := Option.map_eq_some_iff.mp hcount
          cases heq
          rw [runAlone_of_next (by rw [next, if_neg hend]), runAlone_of_next rfl,
            runAlone_of_next rfl]
          let s₁ : StingInstance :=
            { s with bpm := (bpm₁.unpinPage scan.currentPageId false).2 }
          have hrun : runAlone txn (4 * fuel + k) s₁ (.fetchPage _ (count + 1)) = _ := ih hrest
          rw [Nat.add_right_comm, Nat.add_assoc] at hrun
          exact hrun

end SelectPc

/-- **A SELECT that nothing comes between** is the SELECT of a server that takes one command after
another. -/
theorem Connection.select_alone {s s' : StingInstance} {response : Response}
    (h : Connection.select s = some (response, s')) :
    SelectPc.runAlone (s.begin .snapshotIsolation).1.txnId (4 * SeqScanExecutor.countFuel + 2)
      (s.begin .snapshotIsolation).2 .getTable = some (response, s') := by
  rcases hbegin : s.begin .snapshotIsolation with ⟨txn, s₁⟩
  rw [select, hbegin] at h
  simp only [SeqScanExecutor.init] at h
  cases hname : s₁.catalogManager.getTable "users" with
  | none =>
    rw [SelectPc.runAlone_of_next (by rw [SelectPc.next, hname]), ← h, hname]
    rfl
  | some table =>
    rw [SelectPc.runAlone_of_next (by rw [SelectPc.next, hname]), SelectPc.runAlone_of_next rfl]
    rw [hname] at h
    obtain ⟨⟨n, bpm⟩, hcount, h⟩ := Option.bind_eq_some_iff.mp h
    refine (SelectPc.runAlone_fetchPage (k := 0) hcount).trans ?_
    rw [Nat.zero_add, ← h]
    cases StingInstance.commit { s₁ with bpm } txn.txnId <;> rfl

/-! ## What a SELECT finds -/

/-- The table has its page, and it is in the frame `f`. -/
structure HasPage (s : StingInstance) (f : ℕ) : Prop where
  table : s.catalogManager.tables 0 = some (usersTable 0)
  resident : s.bpm.pool.pageTable.lookup 0 = some f

theorem HasPage.ne_noPage {s : StingInstance} {f : ℕ} (h : HasPage s f) :
    s.catalogManager.tables 0 ≠ some (usersTable invalidPageId) := fun htable ↦
  absurd (congrArg TableInfo.firstPageId (Option.some.inj (htable.symm.trans h.table))) (by decide)

/-- If the first page is resident, it has no tuples. -/
def Blank (s : StingInstance) : Prop :=
  ∀ f, s.bpm.pool.pageTable.lookup 0 = some f → getTupleCount (s.bpm.pool.pages f) = 0

/-- What there is for a SELECT to find when `n` rows have been dealt with. -/
structure Shows (s : StingInstance) (n : ℕ) : Prop where
  name : s.catalogManager.tableNames "users" = some 0
  table : s.catalogManager.tables 0 = some (usersTable invalidPageId) ∧ n = 0 ∨
    ∃ f, HasPage s f ∧ getTupleCount (s.bpm.pool.pages f) = min n Session.visibleRows

/-- From `s` to `s'` nothing has changed but pins and transactions, and the pins only if the table
has its page. -/
structure Quiet (s s' : StingInstance) : Prop where
  catalogManager : s'.catalogManager = s.catalogManager
  begun : ∀ t, (s.txnManager.txnMap t).isSome → (s'.txnManager.txnMap t).isSome
  bpm : s'.bpm = s.bpm ∨ (∃ f, HasPage s f) ∧ s'.bpm.pool.pageTable = s.bpm.pool.pageTable ∧
    ∀ f, (s'.bpm.pool.pages f).data = (s.bpm.pool.pages f).data

namespace Quiet

variable {s s' : StingInstance} {f : ℕ}

theorem pageTable (h : Quiet s s') : s'.bpm.pool.pageTable = s.bpm.pool.pageTable := by
  rcases h.bpm with h | ⟨-, h, -⟩
  · rw [h]
  · exact h

theorem data (h : Quiet s s') (f : ℕ) :
    (s'.bpm.pool.pages f).data = (s.bpm.pool.pages f).data := by
  rcases h.bpm with h | ⟨-, -, h⟩
  · rw [h]
  · exact h f

theorem hasPage (h : Quiet s s') (hp : HasPage s f) : HasPage s' f :=
  ⟨h.catalogManager ▸ hp.table, h.pageTable ▸ hp.resident⟩

theorem blank (h : Quiet s s') (hb : Blank s) : Blank s' := fun f hf ↦ by
  rw [h.pageTable] at hf
  rw [getTupleCount, h.data]
  exact hb f hf

theorem refl (s : StingInstance) : Quiet s s := ⟨rfl, fun _ ↦ id, Or.inl rfl⟩

theorem begin (s : StingInstance) (isoLevel : IsolationLevel) :
    Quiet s (s.begin isoLevel).2 := ⟨rfl, fun _ ↦ StingInstance.begin_isSome _, Or.inl rfl⟩

end Quiet

/-- The scan is at the tuple `count`. -/
structure SeqScanExecutor.At (scan : SeqScanExecutor) (count : ℕ) : Prop where
  tableInfo : scan.tableInfo = some 0
  currentPageId : scan.currentPageId = 0
  currentSlot : scan.currentSlot.toNat = count

namespace SelectPc

/-- Where a SELECT can be when `n` rows have been dealt with. -/
inductive Place (s : StingInstance) (n : ℕ) : SelectPc → Prop
  | getTable : Place s n .getTable
  | getFirstPageId : Place s n (.getFirstPageId 0)
  | noPage {scan} (h : scan.currentPageId = invalidPageId) : Place s n (.fetchPage scan 0)
  | fetchPage {scan count f} (hp : HasPage s f) (hs : scan.At count)
    (hle : count ≤ min n Session.visibleRows) : Place s n (.fetchPage scan count)
  | getTupleCount {scan count f} (hp : HasPage s f) (hs : scan.At count)
    (hle : count ≤ min n Session.visibleRows) : Place s n (.getTupleCount f scan count)
  | getTuple {scan count f} (hp : HasPage s f) (hs : scan.At count)
    (hlt : count < min n Session.visibleRows) : Place s n (.getTuple scan count)
  | more {scan count f} (hp : HasPage s f) (hs : scan.At (count + 1))
    (hlt : count < min n Session.visibleRows) : Place s n (.unpinPage true scan count)
  | last {scan count f} (hp : HasPage s f) (hs : scan.At count) :
    Place s n (.unpinPage false scan count)
  | commit {count} : Place s n (.commit count)
  | done {count} : Place s n (.done (.selected count))

/-- The answer, once it is known. -/
def effect : SelectPc → Option Response
  | fetchPage scan count =>
    if scan.currentPageId = invalidPageId then some (.selected count) else none
  | unpinPage false _ count => some (.selected count)
  | commit count => some (.selected count)
  | done response => some response
  | _ => none

variable {s s' : StingInstance} {n n' : ℕ} {txn : TxnId} {pc pc' : SelectPc}

/-- A SELECT can stay where it is as long as rows are only added. -/
theorem Place.mono (h : pc.Place s n) (hpage : ∀ f, HasPage s f → HasPage s' f) (hn : n ≤ n') :
    pc.Place s' n' := by
  have hmin : min n Session.visibleRows ≤ min n' Session.visibleRows := by omega
  cases h with
  | getTable => exact .getTable
  | getFirstPageId => exact .getFirstPageId
  | noPage h => exact .noPage h
  | fetchPage hp hs hle => exact .fetchPage (hpage _ hp) hs (hle.trans hmin)
  | getTupleCount hp hs hle => exact .getTupleCount (hpage _ hp) hs (hle.trans hmin)
  | getTuple hp hs hlt => exact .getTuple (hpage _ hp) hs (hlt.trans_le hmin)
  | more hp hs hlt => exact .more (hpage _ hp) hs (hlt.trans_le hmin)
  | last hp hs => exact .last (hpage _ hp) hs
  | commit => exact .commit
  | done => exact .done

/-- **One call of a SELECT**, which takes effect when there is nothing more to be found: then it has
counted what there is. -/
theorem Place.next (h : pc.Place s n) (hs : Shows s n) (hn : pc.next txn s = some (pc', s')) :
    Quiet s s' ∧ pc'.Place s' n ∧ (pc'.effect = pc.effect ∨
      pc.effect = none ∧ pc'.effect = some (.selected (min n Session.visibleRows))) := by
  cases h with
  | getTable =>
    rw [SelectPc.next, CatalogManager.getTable, hs.name] at hn
    cases hn
    exact ⟨.refl s, .getFirstPageId, Or.inl rfl⟩
  | getFirstPageId =>
    cases hn
    refine ⟨.refl s, ?_⟩
    rcases hs.table with ⟨htable, rfl⟩ | ⟨f, hp, -⟩
    · rw [htable]
      exact ⟨.noPage rfl, Or.inr ⟨rfl, by simp [effect, usersTable]⟩⟩
    · rw [hp.table]
      exact ⟨.fetchPage hp ⟨rfl, rfl, rfl⟩ (Nat.zero_le _), Or.inl rfl⟩
  | noPage h =>
    rw [SelectPc.next, if_pos (Or.inr h)] at hn
    cases hn
    exact ⟨.refl s, .commit, Or.inl (by simp [effect, h])⟩
  | @fetchPage scan count f hp hat hle =>
    have hid : scan.currentPageId ≠ invalidPageId := by
      rw [hat.currentPageId]
      decide
    rw [SelectPc.next, if_neg (by simp [hat.tableInfo, hid]), hat.currentPageId,
      Store.fetchPage_of_resident hp.resident] at hn
    cases hn
    have hquiet : Quiet s { s with bpm := { s.bpm with pool := s.bpm.pool.pin f } } :=
      ⟨rfl, fun _ ↦ id, Or.inr ⟨⟨f, hp⟩, rfl, fun g ↦ BufferPoolManager.pin_data _ _ _⟩⟩
    exact ⟨hquiet, .getTupleCount (hquiet.hasPage hp) hat hle, Or.inl (by simp [effect, hid])⟩
  | @getTupleCount scan count f hp hat hle =>
    have hcount : SlottedPage.getTupleCount (s.bpm.pool.pages f) = min n Session.visibleRows := by
      rcases hs.table with ⟨htable, -⟩ | ⟨g, hg, hcount⟩
      · exact absurd htable hp.ne_noPage
      · obtain rfl := Option.some.inj (hg.resident.symm.trans hp.resident)
        exact hcount
    rw [SelectPc.next, hcount, hat.currentSlot] at hn
    by_cases hend : min n Session.visibleRows ≤ count
    · rw [if_pos hend] at hn
      cases hn
      exact ⟨.refl s, .last hp hat, Or.inr ⟨rfl, by rw [effect, hle.antisymm hend]⟩⟩
    · rw [if_neg hend] at hn
      cases hn
      exact ⟨.refl s, .getTuple hp hat (not_le.mp hend), Or.inl rfl⟩
  | @getTuple scan count f hp hat hlt =>
    cases hn
    refine ⟨.refl s, .more hp ⟨hat.tableInfo, hat.currentPageId, ?_⟩ hlt, Or.inl rfl⟩
    have hslot := hat.currentSlot
    have hvisible : min n Session.visibleRows ≤ 31 := Nat.min_le_right _ _
    rw [UInt32.toNat_add, UInt32.toNat_one]
    omega
  | @more scan count f hp hat hlt =>
    cases hn
    rw [hat.currentPageId, Store.unpinPage_of_resident hp.resident]
    have hquiet : Quiet s { s with bpm := { s.bpm with pool := s.bpm.pool.unpin f false } } :=
      ⟨rfl, fun _ ↦ id, Or.inr ⟨⟨f, hp⟩, BufferPoolManager.unpin_pageTable _ _ _,
        fun g ↦ BufferPoolManager.unpin_data _ _ _ _⟩⟩
    have hid : scan.currentPageId ≠ invalidPageId := by
      rw [hat.currentPageId]
      decide
    exact ⟨hquiet, .fetchPage (hquiet.hasPage hp) hat hlt, Or.inl (by simp [effect, hid])⟩
  | @last scan count f hp hat =>
    cases hn
    rw [hat.currentPageId, Store.unpinPage_of_resident hp.resident]
    exact ⟨⟨rfl, fun _ ↦ id, Or.inr ⟨⟨f, hp⟩, BufferPoolManager.unpin_pageTable _ _ _,
      fun g ↦ BufferPoolManager.unpin_data _ _ _ _⟩⟩, .commit, Or.inl rfl⟩
  | commit =>
    obtain ⟨s₁, hcommit, heq⟩ := Option.map_eq_some_iff.mp hn
    cases heq
    have hbegun := fun t ↦ StingInstance.commit_isSome (t := t) hcommit
    obtain ⟨t, -, rfl⟩ := Option.map_eq_some_iff.mp hcommit
    exact ⟨⟨rfl, hbegun, Or.inl rfl⟩, .done, Or.inl rfl⟩
  | done => cases hn

end SelectPc

/-! ## What INSERTs leave for them to find -/

theorem Store.newPage_data {s s' : Store} {p : PageId} {f : ℕ}
    (h : s.newPage = (some (p, f), s')) : (s'.pool.pages f).data = Block.zero := by
  obtain ⟨-, ho, -⟩ | ⟨g, s₁, -, ho, rfl⟩ := newPage_cases h
  · exact absurd ho (by simp)
  · cases ho
    exact congrArg Page.data (BufferPoolManager.install_pages_self ..)

namespace Orderly

variable {st : Stage} {h : Server} {i : ℕ} {c : InsertHandler} {pc : InsertPc}
  {inst : StingInstance} {f : ℕ}

theorem stored_eq_zero (ho : Orderly st h) (hst : ∀ f, st ≠ .ready f) :
    h.handlers.countP (fun c ↦ c.pc.stored) = 0 := by
  rw [List.countP_eq_zero]
  intro c hc
  obtain ⟨i, hi⟩ := List.mem_iff_getElem?.mp hc
  rw [(ho.place i c hi).stored_eq_false hst]
  exact Bool.false_ne_true

theorem frame_of_hasPage (ho : Orderly st h) (hp : HasPage h.inst f) : st.frame = some f := by
  have hne : st.frame ≠ none := fun hnone ↦ hp.ne_noPage (by
    rw [ho.table, Stage.firstPageId, if_pos hnone])
  obtain ⟨g, hg⟩ := Option.ne_none_iff_exists'.mp hne
  rw [hg, (ho.page.resident hg).symm.trans hp.resident]

/-- The rows of the handlers that have dealt with theirs are there to be found. -/
theorem shows (ho : Orderly st h)
    (hb : h.handlers.countP (fun c ↦ c.pc.stored) = 0 → Blank h.inst) :
    Shows h.inst (h.handlers.countP fun c ↦ c.pc.stored) := by
  have htable := ho.table
  have hpage := ho.page
  refine ⟨ho.name, ?_⟩
  cases st with
  | noPage creator => exact Or.inl ⟨htable, ho.stored_eq_zero nofun⟩
  | created creator f => exact Or.inl ⟨htable, ho.stored_eq_zero nofun⟩
  | linked creator f =>
    have hzero := ho.stored_eq_zero nofun
    exact Or.inr ⟨f, ⟨htable, hpage⟩, by rw [hb hzero f hpage, hzero, Nat.zero_min]⟩
  | ready f => exact Or.inr ⟨f, ⟨htable, hpage.1⟩, hpage.2.count_eq⟩

theorem quiet (ho : Orderly st h) (hq : Quiet h.inst inst) : Orderly st { h with inst } where
  name := hq.catalogManager ▸ ho.name
  table := hq.catalogManager ▸ ho.table
  begun c hc := hq.begun _ (ho.begun c hc)
  place := ho.place
  creator := ho.creator
  entered := ho.entered
  page := by
    rcases hq.bpm with heq | ⟨⟨f, hp⟩, hl, hd⟩
    · exact heq ▸ ho.page
    · exact ho.page.congr (ho.frame_of_hasPage hp) hl (hd f)

/-- What a call of an INSERT is to the SELECTs: the page stays where it is, and it has no tuples
until some handler has dealt with its row. -/
theorem next_keeps (ho : Orderly st h) (hi : h.handlers[i]? = some c)
    (hs : c.pc.next c.txn h.inst = some (pc, inst)) :
    (∀ f, HasPage h.inst f → HasPage inst f) ∧ (c.pc.stored = true → pc.stored = true) ∧
      (pc.stored = false → Blank h.inst → Blank inst) ∧
      ∀ t, (h.inst.txnManager.txnMap t).isSome → (inst.txnManager.txnMap t).isSome := by
  have hplace := ho.place i c hi
  generalize c.pc = pc₀ at hplace hs
  cases hplace with
  | getTable hc =>
    rw [InsertPc.next, CatalogManager.getTable, ho.name] at hs
    cases hs
    exact ⟨fun _ ↦ id, id, fun _ ↦ id, fun _ ↦ id⟩
  | getFirstPageId hc =>
    rw [InsertPc.next, ho.table, Option.bind_eq_bind, Option.bind_some] at hs
    split at hs
    · cases hs
      exact ⟨fun _ ↦ id, id, fun _ ↦ id, fun _ ↦ id⟩
    · cases hs
      exact ⟨fun _ ↦ id, id, fun _ ↦ id, fun _ ↦ id⟩
  | newPage =>
    have huntouched : h.inst.bpm.Untouched := ho.page
    obtain ⟨f, bpm, hnew⟩ := huntouched.newPage
    rw [InsertPc.next, hnew] at hs
    cases hs
    refine ⟨fun f hp ↦ absurd ho.table hp.ne_noPage, id, fun _ _ g hg ↦ ?_, fun _ ↦ id⟩
    obtain rfl := Option.some.inj ((Store.newPage_resident hnew).symm.trans hg)
    rw [getTupleCount, Store.newPage_data hnew]
    rfl
  | updateFirstPageId =>
    cases hs
    exact ⟨fun f hp ↦ absurd ho.table hp.ne_noPage, id, fun _ ↦ id, fun _ ↦ id⟩
  | @init _ f =>
    cases hs
    refine ⟨fun g hp ↦ ⟨hp.table, hp.resident⟩, id, fun _ hb g hg ↦ ?_, fun _ ↦ id⟩
    obtain rfl : f = g := Option.some.inj ((ho.page.resident rfl).symm.trans hg)
    rw [StingInstance.setPage, BufferPoolManager.setPage_pages_self, init_getTupleCount]
  | @fetchPage _ _ f hc hf =>
    rw [InsertPc.next, Store.fetchPage_of_resident (ho.page.resident hf)] at hs
    cases hs
    refine ⟨fun g hp ↦ ⟨hp.table, hp.resident⟩, id, fun _ hb g hg ↦ ?_, fun _ ↦ id⟩
    rw [getTupleCount, BufferPoolManager.pin_data]
    exact hb g hg
  | @insertTuple _ _ f hc hf =>
    rw [@InsertPc.next_insertTuple c.txn h.inst 0 _ _ ho.table rfl] at hs
    dsimp only at hs
    split at hs
    · cases hs
      exact ⟨fun g hp ↦ ⟨hp.table, hp.resident⟩, fun hc ↦ (by cases hc), fun hc ↦ (by cases hc),
        fun _ ↦ id⟩
    · cases hs
      exact ⟨fun _ ↦ id, fun hc ↦ (by cases hc), fun hc ↦ (by cases hc), fun _ ↦ id⟩
  | @logRow _ f rid tuple =>
    cases hs
    have hext := @InsertExecutor.logRow_extends (some c.txn) f tuple h.inst rid
    refine ⟨fun g hp ↦ ⟨?_, ?_⟩, id, fun hc ↦ (by cases hc), hext.begun⟩
    · rw [hext.catalogManager, hp.table]
    · rw [hext.pageTable, hp.resident]
  | unpinPage =>
    cases hs
    rw [Store.unpinPage_of_resident (ho.page.resident rfl)]
    refine ⟨fun g hp ↦ ⟨hp.table, ?_⟩, id, fun hc ↦ (by cases hc), fun _ ↦ id⟩
    rw [BufferPoolManager.unpin_pageTable, hp.resident]
  | commit =>
    obtain ⟨s', hs', heq⟩ := Option.map_eq_some_iff.mp hs
    cases heq
    have hbegun := fun t ↦ StingInstance.commit_isSome (t := t) hs'
    obtain ⟨t, -, rfl⟩ := Option.map_eq_some_iff.mp hs'
    exact ⟨fun g hp ↦ ⟨hp.table, hp.resident⟩, fun _ ↦ rfl, fun hc ↦ (by cases hc), hbegun⟩
  | done => cases hs

end Orderly

theorem Connection.createTable_bpm (s : StingInstance) : (createTable s).2.bpm = s.bpm := by
  rw [createTable]
  split <;> rfl

/-- The table is created once. -/
theorem Connection.createTable_of_name {s : StingInstance}
    (h : s.catalogManager.tableNames "users" = some 0) :
    createTable s = (.error "Table already exists: users", s) := by
  rw [createTable, CatalogManager.bindCreateTable, CatalogManager.createTable,
    if_pos (by simp [h])]
  rfl

/-! ## The order of the effects -/

/-- How a session can answer, whatever ids its transactions have. -/
def Session.Answers (rows : Option ℕ) (command : Command) (response : Response)
    (rows' : Option ℕ) : Prop :=
  ∃ t t', Session.answer ⟨rows, t⟩ command = (response, ⟨rows', t'⟩)

/-- The answer, once it is known. -/
def InsertPc.effect (pc : InsertPc) : Option Response := if pc.stored then some .inserted else none

namespace MixedServer

/-- What has been sent. -/
def calls (m : MixedServer) : CommandId → Option Command
  | .insert i => m.server.handlers[i]?.map fun _ ↦ .insert
  | .select i => m.selects[i]?.map fun _ ↦ .select
  | .other i => m.others[i]?.map Prod.fst

/-- What has taken effect. -/
def effects (m : MixedServer) : CommandId → Option (Command × Response)
  | .insert i => m.server.handlers[i]?.bind fun c ↦ c.pc.effect.map (.insert, ·)
  | .select i => m.selects[i]?.bind fun c ↦ c.pc.effect.map (.select, ·)
  | .other i => m.others[i]?

/-- How many rows have been dealt with. -/
def rows (m : MixedServer) : ℕ := m.server.handlers.countP fun c ↦ c.pc.stored

/-- The INSERTs are in order, the SELECTs are where that lets them be, and what has been seen is
accounted for. -/
structure Sound (m : MixedServer) (seen : Seen) : Prop where
  orderly : ∃ st, Orderly st m.server
  blank : m.rows = 0 → Blank m.server.inst
  begun : ∀ c ∈ m.selects, (m.server.inst.txnManager.txnMap c.txn).isSome
  place : ∀ c ∈ m.selects, c.pc.Place m.server.inst m.rows
  tracks : Tracks Session.Answers (some 0) seen m.calls m.effects (some m.rows)

variable {m m' : MixedServer} {seen o : Seen} {file : PageId → Option PageData}

theorem sound_start (file : PageId → Option PageData) : (start file).Sound [] where
  orderly := ⟨_, orderly_start file⟩
  blank _ f hf := by
    rw [start, Server.start, Connection.createTable_bpm] at hf
    exact absurd hf (by simp [StingInstance.start, BufferPoolManager.create])
  begun := nofun
  place := nofun
  tracks := (Tracks.nil Session.Answers (some 0)).congr
    (funext fun x ↦ by cases x <;> rfl) (funext fun x ↦ by cases x <;> rfl)

theorem getElem?_concat {α : Type*} (l : List α) (a : α) (i : ℕ) :
    (l ++ [a])[i]? = if i = l.length then some a else l[i]? := by
  grind

theorem map_getElem?_concat {α β : Type*} (f : α → β) (l : List α) (a : α) (i : ℕ) :
    (l ++ [a])[i]?.map f = if i = l.length then some (f a) else l[i]?.map f := by
  rw [getElem?_concat, apply_ite (Option.map f), Option.map_some]

theorem getElem?_set_of {α : Type*} {l : List α} {i : ℕ} {a b : α} (hi : l[i]? = some b) (j : ℕ) :
    (l.set i a)[j]? = if j = i then some a else l[j]? := by
  grind

theorem countP_stored_set {l : List InsertHandler} {i : ℕ} {c : InsertHandler}
    (hi : l[i]? = some c) (pc : InsertPc) :
    (l.set i { c with pc }).countP (fun c ↦ c.pc.stored) + c.pc.stored.toNat =
      l.countP (fun c ↦ c.pc.stored) + pc.stored.toNat := by
  obtain ⟨hlt, rfl⟩ := List.getElem?_eq_some_iff.mp hi
  have hle := List.boole_getElem_le_countP (p := fun c : InsertHandler ↦ c.pc.stored) hlt
  have hite (b : Bool) : (if b then 1 else 0) = b.toNat := (Bool.cond_eq_ite b 1 0).symm
  rw [hite] at hle
  rw [List.countP_set hlt, hite, hite]
  dsimp only
  omega

/-- A handler that has just come has dealt with no row. -/
theorem rows_insert (m : MixedServer) (inst : StingInstance) (txn : TxnId) :
    ({ m with server := ⟨inst, m.server.handlers ++ [{ txn }]⟩ } : MixedServer).rows = m.rows := by
  rw [rows, rows, List.countP_append]
  rfl

/-- The server when the `i`-th INSERT has come to `c`. -/
abbrev setInsert (m : MixedServer) (i : ℕ) (c : InsertHandler) (inst : StingInstance) :
    MixedServer :=
  { m with server := { inst, handlers := m.server.handlers.set i c } }

/-- The server when the `i`-th SELECT has come to `c`. -/
abbrev setSelect (m : MixedServer) (i : ℕ) (c : SelectHandler) (inst : StingInstance) :
    MixedServer :=
  { m with server := { m.server with inst }, selects := m.selects.set i c }

theorem calls_setInsert {i : ℕ} {c c' : InsertHandler} {inst : StingInstance}
    (hi : m.server.handlers[i]? = some c') : (m.setInsert i c inst).calls = m.calls :=
  funext fun x ↦ by
    cases x with
    | insert j =>
      rw [calls, calls, getElem?_set_of hi]
      split_ifs with hj
      · rw [hj, hi]
        rfl
      · rfl
    | select j => rfl
    | other j => rfl

theorem effects_setInsert {i : ℕ} {c c' : InsertHandler} {inst : StingInstance}
    (hi : m.server.handlers[i]? = some c') :
    (m.setInsert i c inst).effects =
      Function.update m.effects (.insert i) (c.pc.effect.map (.insert, ·)) :=
  funext fun x ↦ by
    cases x with
    | insert j =>
      simp only [effects, getElem?_set_of hi, Function.update_apply, CommandId.insert.injEq]
      split_ifs with hj
      · rfl
      · rfl
    | select j => simp [effects]
    | other j => simp [effects]

theorem calls_setSelect {i : ℕ} {c c' : SelectHandler} {inst : StingInstance}
    (hi : m.selects[i]? = some c') : (m.setSelect i c inst).calls = m.calls :=
  funext fun x ↦ by
    cases x with
    | insert j => rfl
    | select j =>
      rw [calls, calls, getElem?_set_of hi]
      split_ifs with hj
      · rw [hj, hi]
        rfl
      · rfl
    | other j => rfl

theorem effects_setSelect {i : ℕ} {c c' : SelectHandler} {inst : StingInstance}
    (hi : m.selects[i]? = some c') :
    (m.setSelect i c inst).effects =
      Function.update m.effects (.select i) (c.pc.effect.map (.select, ·)) :=
  funext fun x ↦ by
    cases x with
    | insert j => simp [effects]
    | select j =>
      simp only [effects, getElem?_set_of hi, Function.update_apply, CommandId.select.injEq]
      split_ifs with hj
      · rfl
      · rfl
    | other j => simp [effects]

namespace Sound

theorem shows (h : m.Sound seen) : Shows m.server.inst m.rows := by
  obtain ⟨st, ho⟩ := h.orderly
  exact ho.shows h.blank

/-- What does not concern the rows changes nothing. -/
theorem quiet (h : m.Sound seen) {inst : StingInstance} (hq : Quiet m.server.inst inst) :
    ({ m with server := { m.server with inst } } : MixedServer).Sound seen where
  orderly := by
    obtain ⟨st, ho⟩ := h.orderly
    exact ⟨st, ho.quiet hq⟩
  blank hzero := hq.blank (h.blank hzero)
  begun c hc := hq.begun _ (h.begun c hc)
  place c hc := (h.place c hc).mono (fun _ ↦ hq.hasPage) le_rfl
  tracks := h.tracks

/-- An INSERT comes. -/
theorem receiveInsert (h : m.Sound seen) (hs : m.step (.receive .insert) = some (o, m')) :
    m'.Sound (seen ++ o) := by
  cases hs
  obtain ⟨st, ho⟩ := h.orderly
  have hq := h.quiet (Quiet.begin m.server.inst .snapshotIsolation)
  refine ⟨⟨st, ho.insert⟩, ?_, hq.begun, ?_, ?_⟩
  · rw [rows_insert]
    exact hq.blank
  · rw [rows_insert]
    exact hq.place
  · rw [rows_insert]
    refine (h.tracks.invoke (by simp [calls]) .insert).congr (funext fun x ↦ ?_) (funext fun x ↦ ?_)
    · cases x <;> simp [calls, map_getElem?_concat, Function.update_apply]
    · cases x with
      | insert i =>
        rw [effects, effects, getElem?_concat]
        split_ifs with hi
        · rw [hi, List.getElem?_eq_none le_rfl]
          rfl
        · rfl
      | select i => rfl
      | other i => rfl

/-- A SELECT comes. -/
theorem receiveSelect (h : m.Sound seen) (hs : m.step (.receive .select) = some (o, m')) :
    m'.Sound (seen ++ o) := by
  cases hs
  have hq := h.quiet (Quiet.begin m.server.inst .snapshotIsolation)
  refine ⟨hq.orderly, hq.blank, fun c hc ↦ ?_, fun c hc ↦ ?_, ?_⟩
  · rcases List.mem_append.mp hc with hc | hc
    · exact hq.begun c hc
    · obtain rfl := List.mem_singleton.mp hc
      exact m.server.inst.begin_begun _
  · rcases List.mem_append.mp hc with hc | hc
    · exact hq.place c hc
    · obtain rfl := List.mem_singleton.mp hc
      exact .getTable
  · refine (h.tracks.invoke (by simp [calls]) .select).congr (funext fun x ↦ ?_) (funext fun x ↦ ?_)
    · cases x <;> simp [calls, map_getElem?_concat, Function.update_apply]
    · cases x with
      | insert i => rfl
      | select i =>
        rw [effects, effects, getElem?_concat]
        split_ifs with hi
        · rw [hi, List.getElem?_eq_none le_rfl]
          rfl
        · rfl
      | other i => rfl

/-- A command of one call. -/
theorem reply (h : m.Sound seen) {command : Command} {r : Response × StingInstance}
    (hq : Quiet m.server.inst r.2)
    (hr : Session.Answers (some m.rows) command r.1 (some m.rows)) :
    (m.reply command r).2.Sound (seen ++ (m.reply command r).1) := by
  have hq := h.quiet hq
  refine ⟨hq.orderly, hq.blank, hq.begun, hq.place, ?_⟩
  have htracks := ((h.tracks.invoke (by simp [calls]) command).effect
    (i := .other m.others.length) (Function.update_self ..) (by simp [effects]) hr).respond
    (Function.update_self ..)
  rw [List.append_assoc] at htracks
  refine htracks.congr (funext fun x ↦ ?_) (funext fun x ↦ ?_)
  · cases x <;> simp [calls, MixedServer.reply, map_getElem?_concat, Function.update_apply]
  · cases x <;> simp [effects, MixedServer.reply, getElem?_concat, Function.update_apply]

/-- An answer that is known is given. -/
theorem respond (h : m.Sound seen) {x : CommandId} {command : Command} {response : Response}
    (hx : m.effects x = some (command, response)) : m.Sound (seen ++ [.respond x response]) :=
  { h with tracks := h.tracks.respond hx }

/-- **One call of an INSERT** that races with no other, which takes effect when it has dealt with
its row. -/
theorem insert (h : m.Sound seen) {i : ℕ} (he : m.server.Unraced (.call i))
    (hs : m.step (.insert i) = some (o, m')) : m'.Sound (seen ++ o) := by
  obtain ⟨⟨⟨⟩, server⟩, hserver, hs⟩ := Option.bind_eq_some_iff.mp hs
  obtain ⟨st, ho⟩ := h.orderly
  obtain ⟨st', ho'⟩ := ho.step he hserver
  obtain ⟨c, hi, hserver⟩ := Option.bind_eq_some_iff.mp hserver
  obtain ⟨⟨pc, inst⟩, hn, hserver⟩ := Option.bind_eq_some_iff.mp hserver
  cases hserver
  obtain ⟨hpage, hstored, hblank, hbegun⟩ := ho.next_keeps hi hn
  have hself : (m.server.handlers.set i { c with pc })[i]? = some { c with pc } := by
    rw [getElem?_set_of hi, if_pos rfl]
  have hold : m.effects (.insert i) = c.pc.effect.map (.insert, ·) := by
    rw [effects, hi, Option.bind_some]
  have hrows : (m.setInsert i { c with pc } inst).rows + c.pc.stored.toNat =
      m.rows + pc.stored.toNat := countP_stored_set hi pc
  have hmoves : pc.stored = c.pc.stored ∨ c.pc.stored = false ∧ pc.stored = true := by
    cases hc : c.pc.stored with
    | false => cases pc.stored <;> simp
    | true => exact Or.inl (hstored hc)
  have hsound : (m.setInsert i { c with pc } inst).Sound seen :=
    { orderly := ⟨st', ho'⟩
      blank := fun hzero ↦ by
        have hnot := List.countP_eq_zero.mp hzero _ (List.mem_of_getElem? hself)
        have hpc : pc.stored = false := Bool.eq_false_iff.mpr hnot
        rcases hmoves with heq | ⟨-, htrue⟩
        · rw [heq, Nat.add_right_cancel_iff, hzero] at hrows
          exact hblank hpc (h.blank hrows.symm)
        · exact absurd htrue hnot
      begun := fun c hc ↦ hbegun _ (h.begun c hc)
      place := fun c hc ↦ (h.place c hc).mono hpage (by
        rcases hmoves with heq | ⟨hc, hpc⟩
        · rw [heq] at hrows
          omega
        · rw [hc, Bool.toNat_false] at hrows
          omega)
      tracks := by
        rw [calls_setInsert hi, effects_setInsert hi]
        refine h.tracks.advance (by rw [calls, hi, Option.map_some]) ?_
        rcases hmoves with heq | ⟨hc, hpc⟩
        · rw [heq, Nat.add_right_cancel_iff] at hrows
          exact Or.inl ⟨by rw [hold, InsertPc.effect, InsertPc.effect, heq], by rw [hrows]⟩
        · -- the row is dealt with in this call
          rw [hc, hpc] at hrows
          refine Or.inr ⟨by rw [hold, InsertPc.effect, hc]; rfl, .inserted, ?_, 0, 1, ?_⟩
          · rw [InsertPc.effect, if_pos hpc]
          · rw [← Nat.add_zero (rows _)]
            exact congrArg (fun n ↦ (Response.inserted, (⟨some n, 1⟩ : Session))) hrows.symm }
  dsimp only at hs
  rw [hself] at hs
  cases pc with
  | done response =>
    cases hs
    obtain ⟨rfl, -⟩ := (ho'.place i _ hself).of_done
    have hx : (m.setInsert i { c with pc := .done .inserted } inst).effects (.insert i) =
        some (.insert, .inserted) := by
      rw [effects_setInsert hi, Function.update_self]
      rfl
    exact hsound.respond hx
  | _ =>
    cases hs
    rw [List.append_nil]
    exact hsound

/-- **One call of a SELECT**. -/
theorem select (h : m.Sound seen) {i : ℕ} (hs : m.step (.select i) = some (o, m')) :
    m'.Sound (seen ++ o) := by
  obtain ⟨c, hi, hs⟩ := Option.bind_eq_some_iff.mp hs
  obtain ⟨⟨pc, inst⟩, hn, hs⟩ := Option.bind_eq_some_iff.mp hs
  obtain ⟨hquiet, hplace, heffect⟩ := (h.place c (List.mem_of_getElem? hi)).next h.shows hn
  have hq := h.quiet hquiet
  have hold : m.effects (.select i) = c.pc.effect.map (.select, ·) := by
    rw [effects, hi, Option.bind_some]
  have hsound : (m.setSelect i { c with pc } inst).Sound seen :=
    { orderly := hq.orderly
      blank := hq.blank
      begun := fun c' hc' ↦ by
        rcases List.mem_or_eq_of_mem_set hc' with hc' | rfl
        · exact hq.begun c' hc'
        · exact hq.begun c (List.mem_of_getElem? hi)
      place := fun c' hc' ↦ by
        rcases List.mem_or_eq_of_mem_set hc' with hc' | rfl
        · exact hq.place c' hc'
        · exact hplace
      tracks := by
        rw [calls_setSelect hi, effects_setSelect hi]
        refine h.tracks.advance (by rw [calls, hi, Option.map_some]) ?_
        rcases heffect with heq | ⟨hnone, hsome⟩
        · exact Or.inl ⟨by rw [hold, heq], rfl⟩
        · exact Or.inr ⟨by rw [hold, hnone]; rfl, _, hsome, 0, 1, rfl⟩ }
  cases pc with
  | done response =>
    cases hs
    have hx : (m.setSelect i { c with pc := .done response } inst).effects (.select i) =
        some (.select, response) := by
      rw [effects_setSelect hi, Function.update_self]
      rfl
    exact hsound.respond hx
  | _ =>
    cases hs
    rw [List.append_nil]
    exact hsound

theorem step (h : m.Sound seen) {e : Event} (he : m.Unraced e) (hs : m.step e = some (o, m')) :
    m'.Sound (seen ++ o) := by
  cases e with
  | receive command =>
    cases command with
    | createTable =>
      have hcreate := Connection.createTable_of_name h.shows.name
      cases hs
      refine h.reply ?_ ⟨0, 0, ?_⟩
      · rw [hcreate]
        exact .refl _
      · rw [hcreate]
        rfl
    | insert => exact h.receiveInsert hs
    | select => exact h.receiveSelect hs
    | begin =>
      cases hs
      exact h.reply (.begin _ _) ⟨_, _, rfl⟩
    | unsupported =>
      cases hs
      exact h.reply (.refl _) ⟨0, 0, rfl⟩
  | insert i => exact h.insert he hs
  | select i => exact h.select hs

end Sound

/-! ## Runs -/

theorem sound_of_run {es : List Event} {os : List Seen}
    (hP : Along step Unraced (start file) es) (hr : run step (start file) es = some (os, m)) :
    m.Sound os.flatten := by
  refine run_history (I := fun _ os m ↦ m.Sound os.flatten) (sound_start file) ?_ hP hr
  intro es os m e o m' _ h he hs
  rw [List.flatten_append, List.flatten_singleton]
  exact h.step he hs

/-- An INSERT and its answer, and another one that comes when a SELECT has found the first row. -/
def overtaken : List Event :=
  .receive .insert :: List.replicate 9 (.insert 0) ++ .receive .select ::
    List.replicate 4 (.select 0) ++ .receive .insert :: List.replicate 7 (.insert 1) ++
    List.replicate 10 (.select 0)

end MixedServer

/-! ## Every command is answered -/

/-- How many calls an INSERT makes from here on at most. -/
def InsertPc.left : InsertPc → ℕ
  | getTable => 9
  | getFirstPageId _ => 8
  | newPage _ => 7
  | updateFirstPageId .. => 6
  | init .. => 5
  | fetchPage .. => 5
  | insertTuple .. => 4
  | logRow .. => 3
  | unpinPage _ => 2
  | commit => 1
  | done _ => 0

/-- How many calls a SELECT makes from here on at most, of a table of one page. -/
def SelectPc.left : SelectPc → ℕ
  | getTable => 130
  | getFirstPageId _ => 129
  | fetchPage _ count => 128 - 4 * count
  | getTupleCount _ _ count => 127 - 4 * count
  | getTuple _ count => 126 - 4 * count
  | unpinPage true _ count => 125 - 4 * count
  | unpinPage false _ _ => 2
  | commit _ => 1
  | done _ => 0

theorem InsertPc.left_lt {txn : TxnId} {s s' : StingInstance} {pc pc' : InsertPc}
    (h : pc.next txn s = some (pc', s')) : pc'.left < pc.left := by
  cases pc with
  | getTable =>
    rw [next] at h
    split at h <;> cases h <;> simp [left]
  | getFirstPageId table =>
    obtain ⟨info, -, h⟩ := Option.bind_eq_some_iff.mp h
    split_ifs at h <;> cases h <;> simp [left]
  | newPage table =>
    rw [next] at h
    split at h <;> cases h <;> simp [left]
  | updateFirstPageId => cases h; simp [left]
  | init =>
    obtain ⟨f, -, h⟩ := Option.bind_eq_some_iff.mp h
    cases h
    simp [left]
  | fetchPage => cases h; simp [left]
  | insertTuple table rawPage pageId =>
    obtain ⟨info, -, h⟩ := Option.bind_eq_some_iff.mp h
    cases rawPage with
    | none =>
      dsimp only at h
      split_ifs at h
      cases h
      simp [left]
    | some f =>
      dsimp only at h
      split at h <;> cases h <;> simp [left]
  | logRow => cases h; simp [left]
  | unpinPage => cases h; simp [left]
  | commit =>
    obtain ⟨s₁, -, h⟩ := Option.map_eq_some_iff.mp h
    cases h
    simp [left]
  | done => cases h

/-- A SELECT finds no more than 31 tuples, so it does not go on for ever while others insert. -/
theorem SelectPc.Place.left_lt {txn : TxnId} {s s' : StingInstance} {n : ℕ} {pc pc' : SelectPc}
    (hp : pc.Place s n) (h : pc.next txn s = some (pc', s')) : pc'.left < pc.left := by
  have hvisible : min n Session.visibleRows ≤ 31 := Nat.min_le_right _ _
  cases hp with
  | getTable =>
    rw [SelectPc.next] at h
    split at h <;> cases h <;> simp [SelectPc.left]
  | getFirstPageId => cases h; simp [SelectPc.left]
  | noPage hid =>
    rw [SelectPc.next, if_pos (Or.inr hid)] at h
    cases h
    simp [SelectPc.left]
  | fetchPage hp hs hle =>
    rw [SelectPc.next] at h
    split_ifs at h
    · cases h
      simp only [SelectPc.left]
      omega
    · split at h <;> cases h <;> simp only [SelectPc.left] <;> omega
  | getTupleCount hp hs hle =>
    rw [SelectPc.next] at h
    split_ifs at h <;> cases h <;> simp only [SelectPc.left] <;> omega
  | getTuple hp hs hlt =>
    cases h
    simp only [SelectPc.left]
    omega
  | more hp hs hlt =>
    cases h
    simp only [SelectPc.left, if_true]
    omega
  | last hp hs => cases h; simp [SelectPc.left]
  | commit =>
    obtain ⟨s₁, -, h⟩ := Option.map_eq_some_iff.mp h
    cases h
    simp [SelectPc.left]
  | done => cases h

/-- A handler that has not answered can make its next call. -/
theorem Orderly.next_isSome {st : Stage} {h : Server} {i : ℕ} {c : InsertHandler}
    (ho : Orderly st h) (hi : h.handlers[i]? = some c) (hc : ∀ response, c.pc ≠ .done response) :
    (c.pc.next c.txn h.inst).isSome := by
  have hplace := ho.place i c hi
  have hbegun := ho.begun c (List.mem_of_getElem? hi)
  generalize c.pc = pc at hplace hc
  cases hplace with
  | getTable =>
    rw [InsertPc.next, CatalogManager.getTable, ho.name]
    rfl
  | getFirstPageId =>
    rw [InsertPc.next, ho.table, Option.bind_eq_bind, Option.bind_some]
    split <;> rfl
  | newPage =>
    have huntouched : h.inst.bpm.Untouched := ho.page
    obtain ⟨f, bpm, hnew⟩ := huntouched.newPage
    rw [InsertPc.next, hnew]
    rfl
  | insertTuple =>
    rw [@InsertPc.next_insertTuple c.txn h.inst 0 _ _ ho.table rfl]
    dsimp only
    split <;> rfl
  | commit =>
    obtain ⟨m, hcommit, -⟩ := StingInstance.commit_of_begun hbegun
    rw [InsertPc.next, hcommit]
    rfl
  | done => exact absurd rfl (hc _)
  | _ => rfl

theorem SelectPc.next_isSome {txn : TxnId} {s : StingInstance} {pc : SelectPc}
    (hbegun : (s.txnManager.txnMap txn).isSome) (hpc : ∀ response, pc ≠ .done response) :
    (pc.next txn s).isSome := by
  cases pc with
  | getTable =>
    rw [next]
    split <;> rfl
  | fetchPage =>
    rw [next]
    split_ifs
    · rfl
    · split <;> rfl
  | getTupleCount =>
    rw [next]
    split_ifs <;> rfl
  | commit =>
    obtain ⟨m, hcommit, -⟩ := StingInstance.commit_of_begun hbegun
    rw [next, hcommit]
    rfl
  | done response => exact absurd rfl (hpc response)
  | _ => rfl

namespace MixedServer

variable {m m' : MixedServer} {seen o : Seen} {file : PageId → Option PageData}

/-- How often the call can still be made. -/
def left (m : MixedServer) : Event → ℕ
  | .receive _ => 0
  | .insert i => m.server.handlers[i]?.elim 9 fun c ↦ c.pc.left
  | .select i => m.selects[i]?.elim 130 fun c ↦ c.pc.left

/-- A command that has just come can make all its calls. -/
theorem elim_getElem?_concat {α : Type*} (l : List α) (a : α) (f : α → ℕ) (i : ℕ) :
    (l ++ [a])[i]?.elim (f a) f = l[i]?.elim (f a) f := by
  rw [getElem?_concat]
  split_ifs with hi
  · rw [hi, List.getElem?_eq_none le_rfl]
    rfl
  · rfl

/-- A call that is made can be made once less, and the others as often as before. -/
theorem Sound.left_step (h : m.Sound seen) {e e' : Event} (hs : m.step e = some (o, m'))
    (he' : ∀ command, e' ≠ .receive command) :
    m'.left e' + (if e' = e then 1 else 0) ≤ m.left e' := by
  cases e with
  | receive command =>
    rw [if_neg (he' command), Nat.add_zero]
    cases command with
    | insert =>
      cases hs
      cases e' with
      | insert j =>
        exact (elim_getElem?_concat m.server.handlers { txn := _ } (fun c ↦ c.pc.left) j).le
      | _ => exact le_rfl
    | select =>
      cases hs
      cases e' with
      | select j => exact (elim_getElem?_concat m.selects { txn := _ } (fun c ↦ c.pc.left) j).le
      | _ => exact le_rfl
    | _ =>
      cases hs
      cases e' <;> exact le_rfl
  | insert i =>
    obtain ⟨⟨⟨⟩, server⟩, hserver, hs⟩ := Option.bind_eq_some_iff.mp hs
    obtain ⟨c, hi, hserver⟩ := Option.bind_eq_some_iff.mp hserver
    obtain ⟨⟨pc, inst⟩, hn, hserver⟩ := Option.bind_eq_some_iff.mp hserver
    cases hserver
    cases hs
    cases e' with
    | receive command => exact absurd rfl (he' command)
    | insert j =>
      simp only [left, getElem?_set_of hi, Event.insert.injEq]
      split_ifs with hj
      · rw [hj, hi]
        exact InsertPc.left_lt hn
      · exact le_rfl
    | select j => simp [left]
  | select i =>
    obtain ⟨c, hi, hs⟩ := Option.bind_eq_some_iff.mp hs
    obtain ⟨⟨pc, inst⟩, hn, hs⟩ := Option.bind_eq_some_iff.mp hs
    cases hs
    cases e' with
    | receive command => exact absurd rfl (he' command)
    | insert j => simp [left]
    | select j =>
      simp only [left, getElem?_set_of hi, Event.select.injEq]
      split_ifs with hj
      · rw [hj, hi]
        exact (h.place c (List.mem_of_getElem? hi)).left_lt hn
      · exact le_rfl

theorem count_add_left_le {es : List Event} {os : List Seen}
    (hP : Along step Unraced (start file) es) (hr : run step (start file) es = some (os, m))
    {e : Event} (he : ∀ command, e ≠ .receive command) :
    es.count e + m.left e ≤ (start file).left e := by
  refine (run_history (I := fun es os m ↦ m.Sound os.flatten ∧
    es.count e + m.left e ≤ (start file).left e) ⟨sound_start file, by simp⟩ ?_ hP hr).2
  rintro es os m e' o m' - ⟨h, hle⟩ he' hs
  have hstep := h.left_step hs he
  refine ⟨?_, ?_⟩
  · rw [List.flatten_append, List.flatten_singleton]
    exact h.step he' hs
  · rw [List.count_append, List.count_singleton]
    simp only [beq_iff_eq, eq_comm (a := e')]
    omega

/-- **Every command is answered**, whatever others come and whatever their handlers do: as long as
an INSERT or a SELECT has not been answered it can make its next call, and an INSERT is answered
after nine calls of its own at most and a SELECT after 130, if no INSERT makes a call where it races
with another. -/
theorem answered_of_run {es : List Event} {os : List Seen}
    (hP : Along step Unraced (start file) es) (hr : run step (start file) es = some (os, m)) :
    (∀ i, es.count (.insert i) ≤ 9 ∧ es.count (.select i) ≤ 130) ∧
      (∀ i c, m.server.handlers[i]? = some c → (∀ response, c.pc ≠ .done response) →
        (m.step (.insert i)).isSome) ∧
      ∀ i c, m.selects[i]? = some c → (∀ response, c.pc ≠ .done response) →
        (m.step (.select i)).isSome := by
  have h := sound_of_run hP hr
  refine ⟨fun i ↦ ⟨?_, ?_⟩, fun i c hi hc ↦ ?_, fun i c hi hc ↦ ?_⟩
  · exact (Nat.le_add_right ..).trans (count_add_left_le hP hr (e := .insert i) nofun)
  · exact (Nat.le_add_right ..).trans (count_add_left_le hP hr (e := .select i) nofun)
  · obtain ⟨st, ho⟩ := h.orderly
    obtain ⟨r, hn⟩ := Option.isSome_iff_exists.mp (ho.next_isSome hi hc)
    simp [step, Server.step, hi, hn]
  · have hbegun := h.begun c (List.mem_of_getElem? hi)
    obtain ⟨r, hn⟩ := Option.isSome_iff_exists.mp (SelectPc.next_isSome hbegun hc)
    simp [step, hi, hn]

/-- An INSERT that comes to `InsertTuple`, and a SELECT that has found a row meanwhile. -/
theorem answered_of_run_two :
    ∃ os m, run step (start fun _ ↦ none) (overtaken.take 19) = some (os, m) ∧
      (∀ i, (overtaken.take 19).count (.insert i) ≤ 9 ∧
        (overtaken.take 19).count (.select i) ≤ 130) ∧
      (m.step (.insert 1)).isSome ∧ (m.step (.select 0)).isSome := by
  have hleft : (run step (start fun _ ↦ none) (overtaken.take 19)).map (fun r ↦
      (r.2.server.handlers[1]?.map (·.pc.left), r.2.selects[0]?.map (·.pc.left))) =
        some (some 4, some 126) := by
    decide +kernel
  obtain ⟨⟨os, m⟩, hr, heq⟩ := Option.map_eq_some_iff.mp hleft
  obtain ⟨hinsert, hselect⟩ := Prod.mk.inj heq
  obtain ⟨c, hi, hc⟩ := Option.map_eq_some_iff.mp hinsert
  obtain ⟨c', hi', hc'⟩ := Option.map_eq_some_iff.mp hselect
  obtain ⟨hcounts, hinserts, hselects⟩ := answered_of_run (by decide +kernel) hr
  refine ⟨os, m, hr, hcounts, hinserts 1 c hi fun response hdone ↦ ?_,
    hselects 0 c' hi' fun response hdone ↦ ?_⟩
  · rw [hdone] at hc
    cases hc
  · rw [hdone] at hc'
    cases hc'

end MixedServer

end StingDB
