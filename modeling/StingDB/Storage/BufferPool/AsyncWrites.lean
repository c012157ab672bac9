import StingDB.Lib.Machine
import StingDB.Storage.BufferPool

/-!
# The buffer pool over asynchronous writes

Here a write that `WritePageAsync` has submitted is *in flight* until the kernel performs it: at
some later moment the kernel copies the bytes that are in the frame at that moment to the place of
the page in the file, and posts a completion.  `RetrieveAsyncCompletions` reaps those posted so far.
The kernel may act between any two steps of the pool, and clients may write to frames at any time.

Two things must not happen (`Hazard`).  A frame must not be reset or refilled while a write out of
it is in flight, since the page's place in the file would receive another page's bytes.  And a page
must not be read from the file while a write of that same page is in flight.

The pool sees to neither.  When it evicts a dirty page it waits until *some* completion has been
reaped, which may be that of an earlier write; when it evicts a clean page, it does not ask whether
the write that made it clean is still in flight; and `FlushAllPages` waits for nothing.  `Clear` is
the exact condition on a call: with it no schedule leads to a hazard (`along_not_hazard`), and
without it some schedule does (`clear_iff`).
-/

set_option autoImplicit false

namespace StingDB

open Machine

/-- A write in flight: the page, and the frame whose buffer was passed. -/
structure Submission where
  /-- `page_id` -/
  page : PageId
  /-- The frame that `page_data` points into. -/
  frame : ℕ
  deriving DecidableEq

/-- What a frame is wanted for. -/
inductive Target where
  /-- `FetchPage` of this page. -/
  | fetch (pageId : PageId)
  /-- `NewPage`. -/
  | new
  deriving DecidableEq

/-- Where the pool is in the call it is executing. -/
inductive Pc where
  /-- No call is being executed. -/
  | idle
  /-- In the loop after the write of a dirty victim. -/
  | waiting (frameId : ℕ) (target : Target)
  /-- Before `ResetMemory`, with a frame that no page is mapped to. -/
  | loading (frameId : ℕ) (target : Target)
  /-- Before `ReadPage`. -/
  | reading (frameId : ℕ) (pageId : PageId)
  /-- In the loop of `FlushAllPages`, with the entries of the table still to come. -/
  | flushing (rest : List (Sigma fun _ : PageId ↦ ℕ))

/-- A pool, its file, and the writes between them. -/
structure AsyncStore where
  /-- The pool. -/
  pool : BufferPoolManager
  /-- The file and the id counter. -/
  disk : DiskManager := {}
  /-- The writes submitted and not yet performed. -/
  inflight : List Submission := []
  /-- The number of completions posted and not yet reaped. -/
  posted : ℕ := 0
  /-- Where the pool is. -/
  pc : Pc := .idle
  /-- Nothing reads this: the page whose bytes are in each frame, since they were put there. -/
  owner : ℕ → Option PageId := fun _ ↦ none
  /-- Nothing reads this: all contents that each page has had in the pool since it was last passed
  to `WritePageAsync`, that one included; at first, its content in the file. -/
  since : PageId → List PageData := fun _ ↦ []

namespace AsyncStore

/-- A pool that has just been constructed, over a file. -/
def start (poolSize : ℕ) (file : PageId → Option PageData) : AsyncStore :=
  { pool := .create poolSize
    disk := { file }
    since := fun p ↦ [(file p).getD Block.zero] }

/-- `WritePageAsync` of a page in a frame. -/
def submit (s : AsyncStore) (pageId : PageId) (frameId : ℕ) : AsyncStore :=
  { s with
    inflight := s.inflight ++ [⟨pageId, frameId⟩]
    since := Function.update s.since pageId [(s.pool.pages frameId).data] }

/-- The start of `FetchPage`, when the page is not resident, and of `NewPage`. -/
def acquire (s : AsyncStore) (target : Target) : AsyncStore :=
  match s.pool.takeFrame with
  | none => s
  | some (frameId, false, pool) => { s with pool, pc := .loading frameId target }
  | some (frameId, true, pool) =>
    let victimPage := pool.pages frameId
    if victimPage.isDirty then
      { { s with pool }.submit victimPage.pageId frameId with pc := .waiting frameId target }
    else { s with pool := pool.unmapVictim frameId, pc := .loading frameId target }

/-- A call on the pool. -/
inductive Call where
  | fetchPage (pageId : PageId)
  | newPage
  | unpinPage (pageId : PageId) (isDirty : Bool)
  | flushPage (pageId : PageId)
  | flushAllPages

/-- What `FlushPage` and `FlushAllPages` do to a resident page. -/
def flushFrame (s : AsyncStore) (pageId : PageId) (frameId : ℕ) : AsyncStore :=
  let page := s.pool.pages frameId
  if page.isDirty then
    let s := s.submit pageId frameId
    { s with pool := s.pool.setPage frameId (page.setDirty false) }
  else s

/-- A call, up to the first point at which it matters what the kernel has done. -/
def call (s : AsyncStore) : Call → AsyncStore
  | .fetchPage pageId =>
    match s.pool.pageTable.lookup pageId with
    | some frameId => { s with pool := s.pool.pin frameId }
    | none => s.acquire (.fetch pageId)
  | .newPage => s.acquire .new
  | .unpinPage pageId isDirty =>
    match s.pool.pageTable.lookup pageId with
    | some frameId => { s with pool := s.pool.unpin frameId isDirty }
    | none => s
  | .flushPage pageId =>
    match s.pool.pageTable.lookup pageId with
    | some frameId => s.flushFrame pageId frameId
    | none => s
  | .flushAllPages => { s with pc := .flushing s.pool.pageTable.entries }

/-- The next step of the call that is being executed. -/
def resume (s : AsyncStore) : Option AsyncStore :=
  match s.pc with
  | .idle => none
  | .waiting frameId target =>
    -- `while (disk_manager_->RetrieveAsyncCompletions() == 0) {}`, and then `erase`
    if s.posted = 0 then some s
    else some { s with
      posted := 0
      pool := s.pool.unmapVictim frameId
      pc := .loading frameId target }
  | .loading frameId (.fetch pageId) =>
    some { s with
      pool := s.pool.setPage frameId (s.pool.pages frameId).resetMemory
      owner := Function.update s.owner frameId none
      pc := .reading frameId pageId }
  | .loading frameId .new =>
    let (newPageId, disk) := s.disk.allocatePage
    some { s with
      disk
      pool := s.pool.install frameId newPageId Block.zero
      owner := Function.update s.owner frameId (some newPageId)
      since := Function.update s.since newPageId (Block.zero :: s.since newPageId)
      pc := .idle }
  | .reading frameId pageId =>
    some { s with
      pool := s.pool.install frameId pageId (s.disk.readPage pageId)
      owner := Function.update s.owner frameId (some pageId)
      pc := .idle }
  | .flushing ((⟨pageId, frameId⟩) :: rest) =>
    some { s.flushFrame pageId frameId with pc := .flushing rest }
  | .flushing [] =>
    -- `while (disk_manager_->RetrieveAsyncCompletions() < 0) {}`
    some { s with posted := 0, pc := .idle }

/-- The kernel performs a write. -/
def perform (s : AsyncStore) (w : Submission) : AsyncStore :=
  { s with
    disk.file := Function.update s.disk.file w.page (some (s.pool.pages w.frame).data)
    inflight := s.inflight.erase w
    posted := s.posted + 1 }

/-- A client changes the bytes of a frame. -/
def write (s : AsyncStore) (frameId : ℕ) (data : PageData) : AsyncStore :=
  { s with
    pool := s.pool.setPage frameId { s.pool.pages frameId with data }
    since :=
      match s.owner frameId with
      | some p => Function.update s.since p (data :: s.since p)
      | none => s.since }

/-- What can happen. -/
inductive Event where
  | call (c : Call)
  | resume
  | kernel (w : Submission)
  | write (frameId : ℕ) (data : PageData)

/-- One event.  Calls come one after another, as each holds the latch to its end. -/
def step (s : AsyncStore) : Event → Option (Unit × AsyncStore)
  | .call c =>
    match s.pc with
    | .idle => some ((), s.call c)
    | _ => none
  | .resume => s.resume.map ((), ·)
  | .kernel w => if w ∈ s.inflight then some ((), s.perform w) else none
  | .write frameId data => some ((), s.write frameId data)

/-- The pool is about to reset or refill a frame that a write in flight is out of, or to read a page
that a write in flight is of. -/
def Hazard (s : AsyncStore) (e : Event) : Prop :=
  match e, s.pc with
  | .resume, .loading frameId _ => ∃ w ∈ s.inflight, w.frame = frameId
  | .resume, .reading frameId pageId => ∃ w ∈ s.inflight, w.frame = frameId ∨ w.page = pageId
  | _, _ => False

/-- What the search for a frame must meet: before a dirty victim is written, nothing is in flight
and no completion is left over; otherwise no write is in flight out of the frame or of the page
that is about to be read. -/
def Ready (s : AsyncStore) (target : Target) : Prop :=
  match s.pool.takeFrame with
  | none => True
  | some (frameId, victim, pool) =>
    if victim ∧ (pool.pages frameId).isDirty then s.inflight = [] ∧ s.posted = 0
    else ∀ w ∈ s.inflight, w.frame ≠ frameId ∧ target ≠ .fetch w.page

/-- A call that needs a frame finds one that is `Ready`. -/
def Clear (s : AsyncStore) : Event → Prop
  | .call (.fetchPage pageId) =>
    s.pool.pageTable.lookup pageId = none → s.Ready (.fetch pageId)
  | .call .newPage => s.Ready .new
  | _ => True

/-- A pool that has nothing in flight, and no completion left over, may be called at will. -/
theorem clear_of_rest {s : AsyncStore} (hin : s.inflight = []) (hposted : s.posted = 0)
    (e : Event) : s.Clear e := by
  have hready : ∀ t, s.Ready t := by
    intro t
    rw [Ready]
    split
    · trivial
    · split
      · exact ⟨hin, hposted⟩
      · rw [hin]
        exact fun w hw ↦ absurd hw List.not_mem_nil
  cases e with
  | call c =>
    cases c with
    | fetchPage p => exact fun _ ↦ hready _
    | newPage => exact hready _
    | unpinPage p isDirty => trivial
    | flushPage p => trivial
    | flushAllPages => trivial
  | resume => trivial
  | kernel w => trivial
  | write f data => trivial

/-! ## No hazard -/

/-- What is in flight while the pool is in the middle of a call. -/
def Guarded (s : AsyncStore) : Prop :=
  match s.pc with
  | .idle => True
  | .waiting _ _ => s.inflight.length + s.posted = 1
  | .loading frameId target => ∀ w ∈ s.inflight, w.frame ≠ frameId ∧ target ≠ .fetch w.page
  | .reading frameId pageId => ∀ w ∈ s.inflight, w.frame ≠ frameId ∧ w.page ≠ pageId
  | .flushing _ => True

theorem guarded_of_idle {s : AsyncStore} (h : s.pc = .idle) : s.Guarded := by
  rw [Guarded, h]
  trivial

theorem Guarded.not_hazard {s : AsyncStore} (h : s.Guarded) (e : Event) : ¬ s.Hazard e := by
  intro hz
  unfold Hazard at hz
  split at hz
  · rename_i hpc
    rw [Guarded, hpc] at h
    obtain ⟨w, hw, hf⟩ := hz
    exact (h w hw).1 hf
  · rename_i hpc
    rw [Guarded, hpc] at h
    obtain ⟨w, hw, hf | hp⟩ := hz
    · exact (h w hw).1 hf
    · exact (h w hw).2 hp
  · exact hz

section

variable (s : AsyncStore) (w : Submission)

@[simp] theorem perform_pc : (s.perform w).pc = s.pc := rfl
@[simp] theorem perform_inflight : (s.perform w).inflight = s.inflight.erase w := rfl
@[simp] theorem perform_posted : (s.perform w).posted = s.posted + 1 := rfl

theorem readPage_perform_self :
    (s.perform w).disk.readPage w.page = (s.pool.pages w.frame).data := by
  simp [perform, DiskManager.readPage]

theorem readPage_perform_of_ne {p : PageId} (h : p ≠ w.page) :
    (s.perform w).disk.readPage p = s.disk.readPage p := by
  simp [perform, DiskManager.readPage, h]

end

theorem flushFrame_pc (s : AsyncStore) (p : PageId) (f : ℕ) : (s.flushFrame p f).pc = s.pc := by
  rw [flushFrame]
  split <;> rfl

theorem flushFrame_pageTable (s : AsyncStore) (p : PageId) (f : ℕ) :
    (s.flushFrame p f).pool.pageTable = s.pool.pageTable := by
  rw [flushFrame]
  split <;> rfl

theorem guarded_acquire {s : AsyncStore} {t : Target} (hpc : s.pc = .idle) (h : s.Ready t) :
    (s.acquire t).Guarded := by
  rw [Ready] at h
  rw [acquire]
  cases ht : s.pool.takeFrame with
  | none => exact guarded_of_idle hpc
  | some r =>
    obtain ⟨f, victim, pool⟩ := r
    simp only [ht] at h
    cases victim with
    | false =>
      rw [if_neg (by simp)] at h
      exact h
    | true =>
      dsimp only
      split
      · rename_i hd
        rw [if_pos ⟨rfl, hd⟩] at h
        -- the write of the victim is the only one
        simp [Guarded, submit, h.1, h.2]
      · rename_i hd
        rw [if_neg fun hd' ↦ hd hd'.2] at h
        exact h

/-- What an event can do. -/
theorem step_cases {s s' : AsyncStore} {e : Event} {o : Unit} (hs : s.step e = some (o, s')) :
    (∃ c, e = .call c ∧ s.pc = .idle ∧ s' = s.call c) ∨ (e = .resume ∧ s.resume = some s') ∨
      (∃ w, e = .kernel w ∧ w ∈ s.inflight ∧ s' = s.perform w) ∨
      ∃ f data, e = .write f data ∧ s' = s.write f data := by
  cases e with
  | call c =>
    rw [step] at hs
    split at hs
    · rename_i hpc
      cases hs
      exact Or.inl ⟨c, rfl, hpc, rfl⟩
    · cases hs
  | resume =>
    obtain ⟨s₁, hs₁, heq⟩ := Option.map_eq_some_iff.mp hs
    cases heq
    exact Or.inr (Or.inl ⟨rfl, hs₁⟩)
  | kernel w =>
    rw [step] at hs
    split at hs
    · rename_i hw
      cases hs
      exact Or.inr (Or.inr (Or.inl ⟨w, rfl, hw, rfl⟩))
    · cases hs
  | write f data =>
    cases hs
    exact Or.inr (Or.inr (Or.inr ⟨f, data, rfl, rfl⟩))

theorem step_call {s s' : AsyncStore} {c : Call} {o : Unit} (hs : s.step (.call c) = some (o, s')) :
    s.pc = .idle ∧ s' = s.call c := by
  obtain ⟨c, he, hpc, rfl⟩ | ⟨he, -⟩ | ⟨w, he, -⟩ | ⟨f, data, he, -⟩ := step_cases hs
  · cases he
    exact ⟨hpc, rfl⟩
  · cases he
  · cases he
  · cases he

theorem step_resume {s s' : AsyncStore} {o : Unit} (hs : s.step .resume = some (o, s')) :
    s.resume = some s' := by
  obtain ⟨c, he, -⟩ | ⟨-, hres⟩ | ⟨w, he, -⟩ | ⟨f, data, he, -⟩ := step_cases hs
  · cases he
  · exact hres
  · cases he
  · cases he

theorem step_kernel {s s' : AsyncStore} {w : Submission} {o : Unit}
    (hs : s.step (.kernel w) = some (o, s')) : w ∈ s.inflight ∧ s' = s.perform w := by
  obtain ⟨c, he, -⟩ | ⟨he, -⟩ | ⟨w, he, hw, rfl⟩ | ⟨f, data, he, -⟩ := step_cases hs
  · cases he
  · cases he
  · cases he
    exact ⟨hw, rfl⟩
  · cases he

theorem guarded_call {s : AsyncStore} {c : Call} (hpc : s.pc = .idle) (hc : s.Clear (.call c)) :
    (s.call c).Guarded := by
  cases c with
  | fetchPage p =>
    rw [call]
    split
    · exact guarded_of_idle hpc
    · rename_i hp
      exact guarded_acquire hpc (hc hp)
  | newPage => exact guarded_acquire hpc hc
  | unpinPage p d =>
    rw [call]
    split
    · exact guarded_of_idle hpc
    · exact guarded_of_idle hpc
  | flushPage p =>
    rw [call]
    split
    · exact guarded_of_idle ((flushFrame_pc ..).trans hpc)
    · exact guarded_of_idle hpc
  | flushAllPages => trivial

theorem Guarded.resume {s s' : AsyncStore} (h : s.Guarded) (hs : s.resume = some s') :
    s'.Guarded := by
  rw [Guarded] at h
  rw [AsyncStore.resume] at hs
  split at hs
  · exact absurd hs (by simp)
  · rename_i f t hpc
    simp only [hpc] at h
    split at hs
    · cases hs
      rw [Guarded, hpc]
      exact h
    · rename_i hposted
      cases hs
      -- a completion has been reaped, and only one write was in flight
      have hnil : s.inflight = [] := List.length_eq_zero_iff.mp (by omega)
      intro w hw
      rw [hnil] at hw
      exact absurd hw (by simp)
  · rename_i f p hpc
    simp only [hpc] at h
    cases hs
    intro w hw
    exact ⟨(h w hw).1, fun hp ↦ (h w hw).2 (by rw [hp])⟩
  · cases hs
    exact guarded_of_idle rfl
  · cases hs
    exact guarded_of_idle rfl
  · cases hs
    trivial
  · cases hs
    trivial

theorem Guarded.perform {s : AsyncStore} {w : Submission} (h : s.Guarded) (hw : w ∈ s.inflight) :
    (s.perform w).Guarded := by
  have hmem : ∀ {v}, v ∈ s.inflight.erase w → v ∈ s.inflight := List.mem_of_mem_erase
  have hlen := List.length_erase_add_one hw
  simp only [Guarded, perform_pc, perform_inflight, perform_posted] at h ⊢
  split
  · trivial
  · rename_i hpc
    rw [hpc] at h
    dsimp only at h
    omega
  · rename_i hpc
    rw [hpc] at h
    exact fun v hv ↦ h v (hmem hv)
  · rename_i hpc
    rw [hpc] at h
    exact fun v hv ↦ h v (hmem hv)
  · trivial

theorem Guarded.step {s s' : AsyncStore} {e : Event} {o : Unit} (h : s.Guarded) (hc : s.Clear e)
    (hs : s.step e = some (o, s')) : s'.Guarded := by
  obtain ⟨c, rfl, hpc, rfl⟩ | ⟨rfl, hres⟩ | ⟨w, rfl, hw, rfl⟩ | ⟨f, data, rfl, rfl⟩ := step_cases hs
  · exact guarded_call hpc hc
  · exact h.resume hres
  · exact h.perform hw
  · exact h

/-- **Clear calls meet no hazard**, whatever the kernel and the clients do meanwhile. -/
theorem along_not_hazard {s : AsyncStore} {es : List Event} (h : s.Guarded)
    (hc : Along step Clear s es) : Along step (fun s e ↦ ¬ s.Hazard e) s es :=
  along_of_invariant (fun _ e hs _ ↦ hs.not_hazard e) (fun _ _ _ _ hs hP hst ↦ hs.step hP hst) h hc

/-! ## Some schedule meets one -/

theorem not_along_of_hazard {s s' : AsyncStore} (es : List Event) {os : List Unit} {e : Event}
    (hr : run step s es = some (os, s')) (hz : s'.Hazard e) :
    ¬ Along step (fun s e ↦ ¬ s.Hazard e) s (es ++ [e]) :=
  fun ha ↦ (along_concat.mp ha).2 os s' hr hz

/-- An event of the pool itself or of the kernel. -/
def Event.Internal (e : Event) : Prop := e = .resume ∨ ∃ w, e = .kernel w

/-- The loop is left with the write of the victim still in flight. -/
theorem hazard_of_waiting {s : AsyncStore} {f : ℕ} {t : Target} {w : Submission}
    (hpc : s.pc = .waiting f t) (hposted : s.posted ≠ 0) (hw : w ∈ s.inflight) (hf : w.frame = f) :
    ¬ Along step (fun s e ↦ ¬ s.Hazard e) s [.resume, .resume] := by
  have hstep : step s .resume = some ((), { s with
      posted := 0
      pool := s.pool.unmapVictim f
      pc := .loading f t }) := by
    simp [step, resume, hpc, hposted]
  refine not_along_of_hazard [.resume] (run_cons.mpr ⟨_, _, _, hstep, rfl, rfl⟩) ?_
  exact ⟨w, hw, hf⟩

/-- A call that is not ready is led into a hazard by some schedule of the kernel. -/
theorem hazard_of_not_ready {s : AsyncStore} {t : Target} (h : ¬ s.Ready t) :
    ∃ es : List Event, (∀ e ∈ es, e.Internal) ∧
      ¬ Along step (fun s e ↦ ¬ s.Hazard e) (s.acquire t) es := by
  have hresume : Event.Internal .resume := Or.inl rfl
  rw [Ready] at h
  rw [acquire]
  cases ht : s.pool.takeFrame with
  | none => exact absurd trivial (by simp [ht] at h)
  | some r =>
    obtain ⟨f, victim, pool⟩ := r
    simp only [ht] at h
    by_cases hd : victim ∧ (pool.pages f).isDirty
    · rw [if_pos hd] at h
      obtain ⟨rfl, hd⟩ := hd
      simp only [hd, if_true]
      by_cases hposted : s.posted = 0
      · -- an earlier write completes in its stead
        obtain ⟨w, rest, hw⟩ := List.exists_cons_of_ne_nil fun hnil ↦ h ⟨hnil, hposted⟩
        refine ⟨[.kernel w, .resume, .resume], ?_, fun ha ↦ ?_⟩
        · simp [Event.Internal]
        · have hmem : w ∈ s.inflight ++ [⟨(pool.pages f).pageId, f⟩] := by simp [hw]
          refine hazard_of_waiting (w := ⟨(pool.pages f).pageId, f⟩) rfl (Nat.succ_ne_zero _) ?_ rfl
            (ha.2 () _ (if_pos hmem))
          show _ ∈ (s.inflight ++ [Submission.mk (pool.pages f).pageId f]).erase w
          simp [hw]
      · -- the completion of an earlier write has not been reaped yet
        refine ⟨[.resume, .resume], ?_, ?_⟩
        · simp [Event.Internal]
        · exact hazard_of_waiting (w := ⟨(pool.pages f).pageId, f⟩) rfl hposted
            (List.mem_append_right _ List.mem_cons_self) rfl
    · -- no write of the victim, and so no waiting
      rw [if_neg hd] at h
      obtain ⟨pool', hacq⟩ :
          ∃ pool', s.acquire t = { s with pool := pool', pc := .loading f t } := by
        rw [acquire, ht]
        cases victim with
        | false => exact ⟨_, rfl⟩
        | true => exact ⟨_, if_neg fun hd' ↦ hd ⟨rfl, hd'⟩⟩
      rw [acquire, ht] at hacq
      rw [hacq]
      obtain ⟨w, hw, hf | rfl⟩ : ∃ w ∈ s.inflight, w.frame = f ∨ t = .fetch w.page := by
        by_contra hno
        exact h fun w hw ↦ ⟨fun hf ↦ hno ⟨w, hw, Or.inl hf⟩, fun hp ↦ hno ⟨w, hw, Or.inr hp⟩⟩
      · refine ⟨[.resume], by simpa using hresume, not_along_of_hazard [] rfl ?_⟩
        exact ⟨w, hw, hf⟩
      · refine ⟨[.resume, .resume], by simpa using hresume, ?_⟩
        refine not_along_of_hazard [.resume] (run_cons.mpr ⟨_, _, _, rfl, rfl, rfl⟩) ?_
        exact ⟨w, hw, Or.inr rfl⟩

theorem along_clear_of_internal {s : AsyncStore} {es : List Event} (h : ∀ e ∈ es, e.Internal) :
    Along step Clear s es := by
  induction es generalizing s with
  | nil => trivial
  | cons e es ih =>
    refine ⟨?_, fun o s' _ ↦ ih fun e' he' ↦ h e' (List.mem_cons_of_mem _ he')⟩
    obtain rfl | ⟨w, rfl⟩ := h e List.mem_cons_self
    · trivial
    · trivial

/-- **The condition is exact.**  From any state between two calls, a call is clear if and only if no
schedule of the kernel, while the call is executed, leads to a hazard. -/
theorem clear_iff {s : AsyncStore} (hpc : s.pc = .idle) (c : Call) :
    s.Clear (.call c) ↔ ∀ es : List Event, (∀ e ∈ es, e.Internal) →
      Along step (fun s e ↦ ¬ s.Hazard e) s (.call c :: es) := by
  refine ⟨fun hc es hes ↦ ?_, fun hall ↦ ?_⟩
  · exact along_not_hazard (guarded_of_idle hpc) ⟨hc, fun o s' _ ↦ along_clear_of_internal hes⟩
  · have hstep : step s (.call c) = some ((), s.call c) := by rw [step, hpc]
    have hsafe := fun es hes ↦ (hall es hes).2 () _ hstep
    cases c with
    | fetchPage p =>
      intro hp
      by_contra hready
      obtain ⟨es, hes, hbad⟩ := hazard_of_not_ready hready
      refine hbad ?_
      have hcall := hsafe es hes
      rwa [call, hp] at hcall
    | newPage =>
      by_contra hready
      obtain ⟨es, hes, hbad⟩ := hazard_of_not_ready hready
      exact hbad (hsafe es hes)
    | unpinPage p d => trivial
    | flushPage p => trivial
    | flushAllPages => trivial

end AsyncStore

end StingDB
