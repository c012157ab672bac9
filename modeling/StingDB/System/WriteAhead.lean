import StingDB.Execution.Executors
import StingDB.Transaction.Durability

/-!
# The write-ahead rule

Transactions, inserts and the buffer pool in any order, and the question whether a page ever goes to
disk before the log records that describe it.  Nothing in the code asks it: the pool writes a dirty
page out when it needs the frame or is told to, whatever its LSN.

`write_ahead_iff` therefore says when the rule is kept: by the runs in which each page that has to
be written out had its log forced before.  What has to be written out (`Due`) can be read off the
pool and the call; whether the log was forced (`LogManager.Forced`) off the calls of the log made so
far, which are what `step` puts out.
-/

set_option autoImplicit false

namespace StingDB

namespace LogManager

open Machine

/-- What happened to the log from `m` to `m'` is that records were appended. -/
def Appended (m m' : LogManager) : Prop :=
  ∃ (rs : List LogRecord) (os : List (Option ℕ)),
    run step m (rs.map .appendLogRecord) = some (os, m')

/-- The appends from `m` to `m'`, if there was nothing else. -/
def appendsBetween (m m' : LogManager) : List Call :=
  (m'.appended.drop m.appended.length).map fun e ↦ .appendLogRecord e.record

theorem Appended.refl (m : LogManager) : m.Appended m := ⟨[], [], rfl⟩

theorem appended_appendLogRecord (m : LogManager) (r : LogRecord) :
    m.Appended (m.appendLogRecord r).2 := ⟨[r], _, rfl⟩

theorem Appended.trans {m m₁ m₂ : LogManager} (h₁ : m.Appended m₁) (h₂ : m₁.Appended m₂) :
    m.Appended m₂ := by
  obtain ⟨rs₁, os₁, h₁⟩ := h₁
  obtain ⟨rs₂, os₂, h₂⟩ := h₂
  refine ⟨rs₁ ++ rs₂, os₁ ++ os₂, ?_⟩
  rw [List.map_append]
  exact run_append.mpr ⟨m₁, os₁, os₂, h₁, h₂, rfl⟩

theorem Appended.run {m m' : LogManager} (h : m.Appended m') :
    ∃ os, run step m (appendsBetween m m') = some (os, m') := by
  obtain ⟨rs, os, hr⟩ := h
  suffices heq : ∃ es, m'.appended = m.appended ++ es ∧ es.map LogEntry.record = rs by
    obtain ⟨es, happ, rfl⟩ := heq
    refine ⟨os, ?_⟩
    rw [appendsBetween, happ, List.drop_left, ← hr, List.map_map]
    rfl
  induction rs generalizing m os with
  | nil => cases hr; exact ⟨[], (List.append_nil _).symm, rfl⟩
  | cons r rs ih =>
    obtain ⟨o, m₁, os', hs, hr', -⟩ := run_cons.mp hr
    cases hs
    obtain ⟨es, happ, rfl⟩ := ih os' hr'
    refine ⟨⟨m.nextLsn, r⟩ :: es, ?_, rfl⟩
    rw [happ, appendLogRecord_appended, List.append_assoc, List.singleton_append]

end LogManager

/-! ## What the pool writes out -/

namespace Store

/-- The bytes of the pages whose writes were issued between `s` and `s'`. -/
def Issues (s s' : Store) (P : PageData → Prop) : Prop :=
  ∃ ws, s'.disk.issued = s.disk.issued ++ ws ∧ ∀ data, (∃ p, (p, data) ∈ ws) ↔ P data

/-- There is no free frame, and the page that has to make room for another is dirty. -/
def Evicts (s : Store) (data : PageData) : Prop :=
  s.pool.freeList = [] ∧ ∃ rest frameId, s.pool.lruReplacer = rest ++ [frameId] ∧
    (s.pool.pages frameId).isDirty = true ∧ (s.pool.pages frameId).data = data

/-- The page is resident, dirty and has these bytes. -/
def DirtyAt (s : Store) (pageId : PageId) (data : PageData) : Prop :=
  ∃ frameId, s.pool.pageTable.lookup pageId = some frameId ∧
    (s.pool.pages frameId).isDirty = true ∧ (s.pool.pages frameId).data = data

variable {s s' : Store}

theorem issues_of_disk_eq {P : PageData → Prop} (h : s'.disk = s.disk) (hP : ∀ data, ¬ P data) :
    s.Issues s' P := ⟨[], by simp [h], by simpa using hP⟩

theorem Issues.congr {s₁ s₁' : Store} {P : PageData → Prop} (h : s.Issues s' P)
    (hs : s₁.disk.issued = s.disk.issued) (hs' : s₁'.disk.issued = s'.disk.issued) :
    s₁.Issues s₁' P := by
  obtain ⟨ws, hws, hP⟩ := h
  exact ⟨ws, by rw [hs, hs', hws], hP⟩

theorem acquireFrame_issues {frameId : ℕ} (h : s.acquireFrame = some (frameId, s')) :
    s.Issues s' s.Evicts := by
  obtain ⟨rest, hf, rfl⟩ | ⟨hf, rest, hl, rfl⟩ := acquireFrame_eq_some h
  · refine issues_of_disk_eq rfl fun data ⟨hnil, _⟩ ↦ ?_
    simp [hf] at hnil
  · have hevicts : ∀ data, s.Evicts data ↔
        (s.pool.pages frameId).isDirty = true ∧ (s.pool.pages frameId).data = data := by
      intro data
      refine ⟨fun ⟨_, rest', f, hl', hd⟩ ↦ ?_, fun hd ↦ ⟨hf, rest, frameId, hl, hd⟩⟩
      rw [hl] at hl'
      cases List.append_inj_right' hl' rfl
      exact hd
    by_cases hd : (s.pool.pages frameId).isDirty = true
    · refine ⟨[((s.pool.pages frameId).pageId, (s.pool.pages frameId).data)], ?_, fun data ↦ ?_⟩
      · simp [hd, DiskManager.writePageAsync]
      · rw [hevicts, and_iff_right hd]
        simp [eq_comm]
    · exact issues_of_disk_eq (by simp [hd]) fun data he ↦ hd ((hevicts data).mp he).1

theorem not_evicts (h : s.acquireFrame = none) (data : PageData) : ¬ s.Evicts data := by
  rintro ⟨-, rest, frameId, hl, -⟩
  have hnil := (acquireFrame_eq_none.mp h).2
  simp [hnil] at hl

theorem fetchPage_issues {pageId : PageId} {o : Option ℕ} (h : s.fetchPage pageId = (o, s')) :
    s.Issues s' fun data ↦ s.pool.pageTable.lookup pageId = none ∧ s.Evicts data := by
  obtain ⟨f, hl, -, rfl⟩ | ⟨-, ha, -, rfl⟩ | ⟨hl, f, s₁, ha, -, rfl⟩ := fetchPage_cases h
  · exact issues_of_disk_eq rfl fun data he ↦ by simp [hl] at he
  · exact issues_of_disk_eq rfl fun data he ↦ not_evicts ha data he.2
  · obtain ⟨ws, hws, hP⟩ := acquireFrame_issues ha
    exact ⟨ws, hws, fun data ↦ (hP data).trans (and_iff_right hl).symm⟩

theorem newPage_issues {o : Option (PageId × ℕ)} (h : s.newPage = (o, s')) :
    s.Issues s' s.Evicts := by
  obtain ⟨ha, -, rfl⟩ | ⟨f, s₁, ha, -, rfl⟩ := newPage_cases h
  · exact issues_of_disk_eq rfl (not_evicts ha)
  · exact (acquireFrame_issues ha).congr rfl rfl

theorem flushFrame_issues (s : Store) (p : PageId) (f : ℕ) :
    s.Issues (s.flushFrame p f)
      fun data ↦ (s.pool.pages f).isDirty = true ∧ (s.pool.pages f).data = data := by
  rw [flushFrame]
  by_cases hd : (s.pool.pages f).isDirty = true
  · rw [if_pos hd]
    refine ⟨[(p, (s.pool.pages f).data)], rfl, fun data ↦ ?_⟩
    simp [hd, eq_comm]
  · rw [if_neg hd]
    exact issues_of_disk_eq rfl fun data h ↦ hd h.1

theorem flushPage_issues (s : Store) (pageId : PageId) :
    s.Issues (s.flushPage pageId).2 (s.DirtyAt pageId) := by
  rw [flushPage]
  cases hl : s.pool.pageTable.lookup pageId with
  | none => exact issues_of_disk_eq rfl fun data ⟨f, hf, _⟩ ↦ by simp [hl] at hf
  | some f =>
    obtain ⟨ws, hws, hP⟩ := flushFrame_issues s pageId f
    refine ⟨ws, hws, fun data ↦ (hP data).trans ⟨fun hd ↦ ⟨f, hl, hd⟩, fun ⟨g, hg, hd⟩ ↦ ?_⟩⟩
    rw [hl] at hg
    cases hg
    exact hd

/-- Writing a page out leaves all bytes as they are, and the other pages as dirty as they were. -/
theorem flushFrame_pages (s : Store) (p : PageId) (f g : ℕ) :
    ((s.flushFrame p f).pool.pages g).data = (s.pool.pages g).data ∧
      (((s.flushFrame p f).pool.pages g).isDirty = true ↔
        g ≠ f ∧ (s.pool.pages g).isDirty = true) := by
  rw [flushFrame]
  by_cases hd : (s.pool.pages f).isDirty = true
  · rw [if_pos hd]
    by_cases hg : g = f
    · subst hg
      simp [BufferPoolManager.setPage]
    · simp [BufferPoolManager.setPage, hg]
  · rw [if_neg hd]
    refine ⟨rfl, fun h ↦ ⟨?_, h⟩, fun h ↦ h.2⟩
    rintro rfl
    exact hd h

theorem flushAllPages_issues (s : Store) :
    s.Issues s.flushAllPages fun data ↦ ∃ pageId, s.DirtyAt pageId data := by
  suffices hall : ∀ (l : List (Sigma fun _ : PageId ↦ ℕ)) (s : Store),
      s.Issues (l.foldl (fun s e ↦ s.flushFrame e.1 e.2) s) fun data ↦ ∃ e ∈ l,
        (s.pool.pages e.2).isDirty = true ∧ (s.pool.pages e.2).data = data by
    obtain ⟨ws, hws, hP⟩ := hall s.pool.pageTable.entries s
    refine ⟨ws, hws, fun data ↦ (hP data).trans ⟨?_, ?_⟩⟩
    · rintro ⟨⟨p, f⟩, hmem, hd⟩
      exact ⟨p, f, AList.mem_lookup_iff.mpr hmem, hd⟩
    · rintro ⟨p, f, hl, hd⟩
      exact ⟨⟨p, f⟩, AList.mem_lookup_iff.mp hl, hd⟩
  intro l
  induction l with
  | nil => exact fun s ↦ issues_of_disk_eq rfl (by simp)
  | cons e l ih =>
    intro s
    obtain ⟨ws₁, hws₁, hP₁⟩ := flushFrame_issues s e.1 e.2
    obtain ⟨ws₂, hws₂, hP₂⟩ := ih (s.flushFrame e.1 e.2)
    refine ⟨ws₁ ++ ws₂, by rw [List.foldl_cons, hws₂, hws₁, List.append_assoc], fun data ↦ ?_⟩
    simp only [List.mem_append, exists_or, hP₁, hP₂, List.mem_cons]
    constructor
    · rintro (hd | ⟨e', he', hd, hdata⟩)
      · exact ⟨e, Or.inl rfl, hd⟩
      · obtain ⟨hsame, hdirty⟩ := flushFrame_pages s e.1 e.2 e'.2
        exact ⟨e', Or.inr he', (hdirty.mp hd).2, hsame ▸ hdata⟩
    · rintro ⟨e', rfl | he', hd, hdata⟩
      · exact Or.inl ⟨hd, hdata⟩
      · -- a frame that is met twice was written out the first time
        by_cases hf : e'.2 = e.2
        · rw [hf] at hd hdata
          exact Or.inl ⟨hd, hdata⟩
        · obtain ⟨hsame, hdirty⟩ := flushFrame_pages s e.1 e.2 e'.2
          exact Or.inr ⟨e', he', hdirty.mpr ⟨hf, hd⟩, hsame.trans hdata⟩

end Store

/-! ## What the executors do to the log and the disk -/

namespace InsertExecutor

variable (txn : Option TxnId) (frameId : ℕ) (tuple : List UInt8)

theorem logRow_disk (s : StingInstance) (rid : RID) :
    (logRow txn s frameId rid tuple).bpm.disk = s.bpm.disk := by
  rw [logRow]
  split <;> rfl

theorem logRow_appended (s : StingInstance) (rid : RID) :
    s.getLogManager.Appended (logRow txn s frameId rid tuple).getLogManager := by
  rw [logRow]
  split
  · exact .refl _
  · exact LogManager.appended_appendLogRecord _ _

theorem insertRows_disk (rows : ℕ) (s : StingInstance) :
    (insertRows txn frameId tuple rows s).bpm.disk = s.bpm.disk := by
  induction rows generalizing s with
  | zero => rfl
  | succ rows ih =>
    rw [insertRows]
    split
    · rw [ih, logRow_disk]
      rfl
    · rfl

theorem insertRows_appended (rows : ℕ) (s : StingInstance) :
    s.getLogManager.Appended (insertRows txn frameId tuple rows s).getLogManager := by
  induction rows generalizing s with
  | zero => exact .refl _
  | succ rows ih =>
    rw [insertRows]
    split
    · exact (logRow_appended txn frameId tuple (s.setPage frameId _) _).trans (ih _)
    · exact .refl _

theorem insertBatch_disk {rawPage : Option ℕ} {rows : ℕ} {s s' : StingInstance}
    (h : insertBatch txn rawPage tuple rows s = some s') : s'.bpm.disk = s.bpm.disk := by
  cases rawPage with
  | some frameId =>
    cases h
    exact insertRows_disk txn frameId tuple rows s
  | none =>
    rw [insertBatch] at h
    split at h
    · cases h; rfl
    · exact absurd h (by simp)

theorem insertBatch_appended {rawPage : Option ℕ} {rows : ℕ} {s s' : StingInstance}
    (h : insertBatch txn rawPage tuple rows s = some s') :
    s.getLogManager.Appended s'.getLogManager := by
  cases rawPage with
  | some frameId =>
    cases h
    exact insertRows_appended txn frameId tuple rows s
  | none =>
    rw [insertBatch] at h
    split at h
    · cases h; exact .refl _
    · exact absurd h (by simp)

/-- Finding the page to insert into does nothing to the log, and writes a page out if there is no
frame for it otherwise. -/
theorem targetPage_issues {s s₁ : StingInstance} {table : TableId} {pageId pageId' : PageId}
    {rawPage : Option ℕ} (h : targetPage s table pageId = some (rawPage, pageId', s₁)) :
    s₁.getLogManager = s.getLogManager ∧ s.bpm.Issues s₁.bpm fun data ↦
      (pageId ≠ invalidPageId → s.bpm.pool.pageTable.lookup pageId = none) ∧
        s.bpm.Evicts data := by
  rw [targetPage] at h
  by_cases hid : pageId = invalidPageId
  · rw [if_pos hid] at h
    split at h
    · exact absurd h (by simp)
    · rename_i hnew
      cases h
      obtain ⟨ws, hws, hP⟩ := Store.newPage_issues hnew
      exact ⟨rfl, ws, hws, fun data ↦ (hP data).trans (and_iff_right fun hne ↦ absurd hid hne).symm⟩
  · rw [if_neg hid] at h
    cases h
    have hfetch : s.bpm.fetchPage pageId =
        ((s.bpm.fetchPage pageId).1, (s.bpm.fetchPage pageId).2) := rfl
    obtain ⟨ws, hws, hP⟩ := Store.fetchPage_issues hfetch
    refine ⟨rfl, ws, hws, fun data ↦ (hP data).trans ?_⟩
    rw [and_congr_left_iff]
    exact fun _ ↦ ⟨fun hl _ ↦ hl, fun hl ↦ hl hid⟩

end InsertExecutor

/-! ## The machine -/

instance (m : TransactionManager) (c : TransactionManager.Call) : Decidable (m.Flushes c) := by
  unfold TransactionManager.Flushes
  split <;> infer_instance

namespace StingInstance

open Machine

/-- A call of the transaction manager, of an insert or of the buffer pool. -/
inductive Call where
  | createTable (tableName : String) (schema : Schema) (firstPage : PageId)
  | txn (c : TransactionManager.Call)
  | insert (e : InsertExecutor)
  | fetchPage (pageId : PageId)
  | newPage
  | unpinPage (pageId : PageId) (isDirty : Bool)
  | flushPage (pageId : PageId)
  | flushAllPages

/-- The instance after a call.  An insert is for no transaction or for one that has begun. -/
def next (s : StingInstance) : Call → Option StingInstance
  | .createTable tableName schema firstPage =>
    match s.catalogManager.createTable tableName schema firstPage with
    | .ok catalogManager => some { s with catalogManager }
    | .error _ => some s
  | .txn c => (s.txnManager.step c).map fun r ↦ { s with txnManager := r.2 }
  | .insert e =>
    if ∀ t ∈ e.txn, (s.txnManager.txnMap t).isSome then (e.next s).map Prod.snd else none
  | .fetchPage pageId => some { s with bpm := (s.bpm.fetchPage pageId).2 }
  | .newPage => some { s with bpm := s.bpm.newPage.2 }
  | .unpinPage pageId isDirty => some { s with bpm := (s.bpm.unpinPage pageId isDirty).2 }
  | .flushPage pageId => some { s with bpm := (s.bpm.flushPage pageId).2 }
  | .flushAllPages => some { s with bpm := s.bpm.flushAllPages }

/-- The call makes a `Flush` of the log. -/
def Flushes (s : StingInstance) : Call → Prop
  | .txn c => s.txnManager.Flushes c
  | _ => False

instance (s : StingInstance) (c : Call) : Decidable (s.Flushes c) := by
  unfold Flushes
  split <;> infer_instance

/-- The calls of the log that a call makes which takes `s` to `s'`: it appends the records by which
the log has grown, and then flushes or not. -/
def logCalls (s : StingInstance) (c : Call) (s' : StingInstance) : List LogManager.Call :=
  LogManager.appendsBetween s.getLogManager s'.getLogManager ++
    if s.Flushes c then [.flush] else []

/-- One call: the calls of the log that it makes, and the instance after it. -/
def step (s : StingInstance) (c : Call) : Option (List LogManager.Call × StingInstance) :=
  (s.next c).map fun s' ↦ (s.logCalls c s', s')

/-- The call has to write out a page with these bytes: it needs a frame and there is none but that
of a dirty page, or it is to flush a dirty page. -/
def Due (s : StingInstance) : Call → PageData → Prop
  | .insert e, data =>
    ∃ table rows child info, e.tableInfo = some table ∧ e.child = rows :: child ∧
      s.catalogManager.tables table = some info ∧
      (info.firstPageId ≠ invalidPageId →
        s.bpm.pool.pageTable.lookup info.firstPageId = none) ∧ s.bpm.Evicts data
  | .fetchPage pageId, data => s.bpm.pool.pageTable.lookup pageId = none ∧ s.bpm.Evicts data
  | .newPage, data => s.bpm.Evicts data
  | .flushPage pageId, data => s.bpm.DirtyAt pageId data
  | .flushAllPages, data => ∃ pageId, s.bpm.DirtyAt pageId data
  | _, _ => False

/-- The LSN in the header of a page. -/
def headerLSN (data : PageData) : ℕ := SlottedPage.getLSN { data }

/-- The write-ahead rule, for a call that takes `s` to `s'`: the log up to the LSN of each page that
the call wrote out had been handed to I/O. -/
def WriteAhead (s s' : StingInstance) : Prop :=
  ∀ w ∈ s'.bpm.disk.issued.drop s.bpm.disk.issued.length, 0 < headerLSN w.2 →
    s.getLogManager.HandedUpTo (headerLSN w.2)

/-! ## What a call does -/

/-- **What is due is what is written**, and nothing else. -/
theorem next_issues {s s' : StingInstance} {c : Call} (h : s.next c = some s') :
    s.bpm.Issues s'.bpm (s.Due c) := by
  cases c with
  | createTable tableName schema firstPage =>
    rw [next] at h
    split at h <;> cases h <;> exact Store.issues_of_disk_eq rfl fun _ ↦ id
  | txn c =>
    obtain ⟨r, -, rfl⟩ := Option.map_eq_some_iff.mp h
    exact Store.issues_of_disk_eq rfl fun _ ↦ id
  | insert e =>
    rw [next] at h
    split at h
    · obtain ⟨⟨e', s₃⟩, hnext, rfl⟩ := Option.map_eq_some_iff.mp h
      obtain ⟨hnone, -, rfl⟩ | ⟨table, rows, child, info, rawPage, pageId, s₁, s₂, ht, hc, hinfo,
        htarget, hbatch, -, rfl⟩ := InsertExecutor.next_eq_some hnext
      · refine Store.issues_of_disk_eq rfl fun data ⟨table, rows, child, info, ht, hc, _⟩ ↦ ?_
        rcases hnone with hnone | hnone
        · simp [hnone] at ht
        · simp [hnone] at hc
      · obtain ⟨ws, hws, hP⟩ := (InsertExecutor.targetPage_issues htarget).2
        have hdisk : (s₂.bpm.unpinPage pageId true).2.disk = s₁.bpm.disk :=
          (Store.unpinPage_disk _ _ _).trans (InsertExecutor.insertBatch_disk _ _ hbatch)
        refine ⟨ws, by rw [hdisk, hws], fun data ↦ (hP data).trans ?_⟩
        constructor
        · exact fun hdue ↦ ⟨table, rows, child, info, ht, hc, hinfo, hdue⟩
        · rintro ⟨table', rows', child', info', ht', -, hinfo', hdue⟩
          cases Option.some.inj (ht.symm.trans ht')
          cases Option.some.inj (hinfo.symm.trans hinfo')
          exact hdue
    · exact absurd h (by simp)
  | fetchPage pageId => cases h; exact Store.fetchPage_issues rfl
  | newPage => cases h; exact Store.newPage_issues rfl
  | unpinPage pageId isDirty =>
    cases h
    exact Store.issues_of_disk_eq (Store.unpinPage_disk _ _ _) fun _ ↦ id
  | flushPage pageId => cases h; exact Store.flushPage_issues _ _
  | flushAllPages => cases h; exact Store.flushAllPages_issues _

/-- What a call does to the log: it appends records, and then flushes or not. -/
theorem next_log {s s' : StingInstance} {c : Call} (h : s.next c = some s') :
    ∃ log, s.getLogManager.Appended log ∧
      (¬ s.Flushes c ∧ s'.getLogManager = log ∨ s.Flushes c ∧ s'.getLogManager = log.flush) := by
  cases c with
  | txn c =>
    obtain ⟨⟨o, m⟩, hs, rfl⟩ := Option.map_eq_some_iff.mp h
    obtain ⟨log, happ, hfl⟩ := TransactionManager.step_log hs
    refine ⟨log, ?_, hfl⟩
    rcases happ with ⟨-, rfl⟩ | ⟨r, -, rfl⟩
    · exact .refl _
    · exact LogManager.appended_appendLogRecord _ r
  | insert e =>
    rw [next] at h
    split at h
    · obtain ⟨⟨e', s₃⟩, hnext, rfl⟩ := Option.map_eq_some_iff.mp h
      refine ⟨_, ?_, Or.inl ⟨id, rfl⟩⟩
      obtain ⟨-, -, rfl⟩ | ⟨table, rows, child, info, rawPage, pageId, s₁, s₂, -, -, -, htarget,
        hbatch, -, rfl⟩ := InsertExecutor.next_eq_some hnext
      · exact .refl _
      · have happ := InsertExecutor.insertBatch_appended _ _ hbatch
        rwa [(InsertExecutor.targetPage_issues htarget).1] at happ
    · exact absurd h (by simp)
  | createTable tableName schema firstPage =>
    refine ⟨_, .refl _, Or.inl ⟨id, ?_⟩⟩
    rw [next] at h
    split at h <;> cases h <;> rfl
  | fetchPage pageId => cases h; exact ⟨_, .refl _, Or.inl ⟨id, rfl⟩⟩
  | newPage => cases h; exact ⟨_, .refl _, Or.inl ⟨id, rfl⟩⟩
  | unpinPage pageId isDirty => cases h; exact ⟨_, .refl _, Or.inl ⟨id, rfl⟩⟩
  | flushPage pageId => cases h; exact ⟨_, .refl _, Or.inl ⟨id, rfl⟩⟩
  | flushAllPages => cases h; exact ⟨_, .refl _, Or.inl ⟨id, rfl⟩⟩

/-- The calls of the log that a call makes take the log to where the call takes it. -/
theorem run_logCalls {s s' : StingInstance} {c : Call} (h : s.next c = some s') :
    ∃ os, run LogManager.step s.getLogManager (s.logCalls c s') = some (os, s'.getLogManager) := by
  obtain ⟨log, happ, ⟨hno, hlog⟩ | ⟨hyes, hlog⟩⟩ := next_log h
  · rw [logCalls, if_neg hno, List.append_nil, hlog]
    exact happ.run
  · obtain ⟨os, hr⟩ := happ.run
    have hcalls : LogManager.appendsBetween s.getLogManager s'.getLogManager =
        LogManager.appendsBetween s.getLogManager log := by
      rw [LogManager.appendsBetween, hlog]
      rfl
    rw [logCalls, if_pos hyes, hcalls, hlog]
    exact ⟨_, run_concat.mpr ⟨log, os, none, hr, rfl, rfl⟩⟩

/-- The log after a run is what its calls of the log make of a new one. -/
theorem log_of_run {poolSize : ℕ} {file : PageId → Option PageData} {cs : List Call}
    {os : List (List LogManager.Call)} {s : StingInstance}
    (hr : run step (start poolSize file) cs = some (os, s)) :
    ∃ os', run LogManager.step {} os.flatten = some (os', s.getLogManager) := by
  refine run_history (P := fun _ _ ↦ True)
    (I := fun _ os (s : StingInstance) ↦
      ∃ os', run LogManager.step {} os.flatten = some (os', s.getLogManager))
    ⟨[], rfl⟩ ?_ along_true hr
  rintro cs os s c o s' - ⟨os₁, hr₁⟩ - hs
  obtain ⟨s₂, hnext, heq⟩ := Option.map_eq_some_iff.mp hs
  cases heq
  obtain ⟨os₂, hr₂⟩ := run_logCalls hnext
  rw [List.flatten_append, List.flatten_singleton]
  exact ⟨_, run_append.mpr ⟨s.getLogManager, os₁, os₂, hr₁, hr₂, rfl⟩⟩

/-! ## The rule -/

/-- One call keeps the rule exactly when the log was forced for all that it has to write out. -/
theorem writeAhead_iff_of_run {poolSize : ℕ} {file : PageId → Option PageData} {cs : List Call}
    {os : List (List LogManager.Call)} {s s' : StingInstance} {c : Call}
    (hr : run step (start poolSize file) cs = some (os, s)) (hnext : s.next c = some s') :
    WriteAhead s s' ↔
      ∀ data, s.Due c data → 0 < headerLSN data →
        LogManager.Forced os.flatten (headerLSN data) := by
  obtain ⟨os', hlog⟩ := log_of_run hr
  obtain ⟨ws, hws, hdue⟩ := next_issues hnext
  rw [WriteAhead, hws, List.drop_left]
  refine ⟨fun hrule data hdata hpos ↦ ?_, fun hforced w hmem hpos ↦ ?_⟩
  · obtain ⟨p, hmem⟩ := (hdue data).mpr hdata
    rw [← LogManager.handedUpTo_iff hpos hlog]
    exact hrule (p, data) hmem hpos
  · rw [LogManager.handedUpTo_iff hpos hlog]
    exact hforced w.2 ((hdue w.2).mp ⟨w.1, hmem⟩) hpos

/-- **The write-ahead rule, and when it is kept.**  In a run of any calls, on any pool and any file,
every page that is written out with an LSN in its header has had the log up to that LSN handed to
I/O exactly when, for each page with an LSN that a call of the run has to write out, the log had
been forced: since the record with that LSN was appended there had been a `Flush`, and up to that
`Flush` no append had swapped records out of the log buffer.

A row that is copied past its page counts without the bytes behind the page
(`SlottedPage.insertTuple`). -/
theorem write_ahead_iff (poolSize : ℕ) (file : PageId → Option PageData) (cs : List Call) :
    Throughout step (fun _ s _ s' ↦ WriteAhead s s') (start poolSize file) cs ↔
      Throughout step (fun os s c _ ↦ ∀ data, s.Due c data → 0 < headerLSN data →
        LogManager.Forced os.flatten (headerLSN data)) (start poolSize file) cs := by
  refine throughout_congr fun pre c os s o s' hr hs ↦ ?_
  obtain ⟨s₂, hnext, heq⟩ := Option.map_eq_some_iff.mp hs
  cases heq
  exact writeAhead_iff_of_run hr hnext

/-- A transaction inserts a row into a new table. -/
def insertOnly : List Call :=
  [.createTable "t" (.create [.create "id" .integer]) invalidPageId,
    .txn (.begin .snapshotIsolation),
    .insert { txn := some 1, child := [1], tableName := "t", tableInfo := some 0 }]

/-- The page of a transaction that has not committed is flushed: it goes to disk with the LSN of its
insert, 2, before any log record. -/
theorem flushed_before_commit :
    ∃ os s s', run step (start 1 fun _ ↦ none) insertOnly = some (os, s) ∧
      s.next (.flushPage 0) = some s' ∧
      (s'.bpm.disk.issued.map fun w ↦ (w.1, headerLSN w.2)) = [(0, 2)] ∧
      s.getLogManager.handed = [] ∧ ¬ WriteAhead s s' := by
  refine ⟨_, _, _, rfl, rfl, by decide +kernel, rfl, fun hrule ↦ ?_⟩
  have hhanded := hrule _ List.mem_cons_self (by decide +kernel) 1 le_rfl (by decide +kernel)
  exact absurd hhanded List.not_mem_nil

end StingInstance

end StingDB
