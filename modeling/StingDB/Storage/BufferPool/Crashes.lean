import StingDB.Storage.BufferPool.AsyncClients

/-!
# What a crash leaves behind

When the process is killed the pool is lost, and so are the writes that the kernel has not performed
yet; the next process has a pool over the file as it is then.  The pool writes in no particular
order, and its clients may be in the middle of writing to pages that are written.  So what it owes
to whoever recovers is less than the memory of the clients: each page is found with one of the
contents that it has had since it came into the pool last, and, if no write of it was in flight,
with none older than what was last passed to `WritePageAsync` (`Survives`).
-/

set_option autoImplicit false

namespace StingDB

open Machine

namespace AsyncStore

variable {s s' : AsyncStore} {e : Event} {o : Unit}

theorem acquire_disk (s : AsyncStore) (t : Target) : (s.acquire t).disk = s.disk := by
  rw [acquire]
  split
  · rfl
  · rfl
  · dsimp only
    split <;> rfl

theorem flushFrame_disk (s : AsyncStore) (p : PageId) (f : ℕ) :
    (s.flushFrame p f).disk = s.disk := by
  rw [flushFrame]
  split <;> rfl

theorem call_disk (s : AsyncStore) (c : Call) : (s.call c).disk = s.disk := by
  cases c with
  | fetchPage p =>
    rw [call]
    split
    · rfl
    · exact s.acquire_disk _
  | newPage => exact s.acquire_disk _
  | unpinPage p isDirty =>
    rw [call]
    split <;> rfl
  | flushPage p =>
    rw [call]
    split
    · exact s.flushFrame_disk ..
    · rfl
  | flushAllPages => rfl

theorem resume_file (hs : s.resume = some s') : s'.disk.file = s.disk.file := by
  rw [resume] at hs
  split at hs
  · cases hs
  · split at hs <;> cases hs <;> rfl
  · cases hs
    rfl
  · cases hs
    rfl
  · cases hs
    rfl
  · cases hs
    exact congrArg DiskManager.file (s.flushFrame_disk ..)
  · cases hs
    rfl

/-- Only the kernel changes the file. -/
theorem step_file (he : ∀ w, e ≠ .kernel w) (hs : s.step e = some (o, s')) :
    s'.disk.file = s.disk.file := by
  obtain ⟨c, rfl, -, rfl⟩ | ⟨rfl, hres⟩ | ⟨w, rfl, -, -⟩ | ⟨f, data, rfl, rfl⟩ := step_cases hs
  · exact congrArg DiskManager.file (s.call_disk c)
  · exact resume_file hres
  · exact absurd rfl (he w)
  · rfl

end AsyncStore

namespace AsyncLives

variable {s s' : AsyncLives} {t : PoolLives} {e : Event} {o : Said}

/-- Each page, in the file and in the memory of the clients, has one of its contents. -/
structure Versioned (s : AsyncLives) : Prop where
  memory_mem : ∀ p, s.memory p ∈ s.versions p
  file_mem : ∀ p, s.store.disk.readPage p ∈ s.versions p

theorem versioned_opened (poolSize : ℕ) (file : PageId → Option PageData) :
    (opened poolSize file).Versioned where
  memory_mem _ := List.mem_cons_self
  file_mem _ := List.mem_cons_self

namespace Versioned

/-- The contents are the same, and so is the file. -/
theorem of_eq (h : s.Versioned) (hmemory : s'.memory = s.memory)
    (hversions : s'.versions = s.versions) (hfile : s'.store.disk.file = s.store.disk.file) :
    s'.Versioned where
  memory_mem p := by
    rw [hmemory, hversions]
    exact h.memory_mem p
  file_mem p := by
    rw [DiskManager.readPage, hfile, hversions]
    exact h.file_mem p

/-- A page comes into the pool, with the bytes that the file and the memory have. -/
theorem load (h : s.Versioned) {store : AsyncStore} {p : PageId} {f : ℕ}
    (hdata : (store.pool.pages f).data = s.memory p)
    (hstored : s.store.disk.readPage p = s.memory p)
    (hfile : store.disk.file = s.store.disk.file) (c : PoolLives.Event) :
    (s.load c store p f).2.Versioned where
  memory_mem q := by
    show s.memory q ∈ Function.update s.versions p [(store.pool.pages f).data] q
    by_cases hq : q = p
    · rw [hq, Function.update_self, hdata]
      exact List.mem_cons_self
    · rw [Function.update_of_ne hq]
      exact h.memory_mem q
  file_mem q := by
    show store.disk.readPage q ∈ Function.update s.versions p [(store.pool.pages f).data] q
    rw [DiskManager.readPage, hfile]
    by_cases hq : q = p
    · rw [hq, Function.update_self, hdata]
      exact List.mem_singleton.mpr hstored
    · rw [Function.update_of_ne hq]
      exact h.file_mem q

/-- A client writes. -/
theorem write (h : s.Versioned) (pin : Pin) (data : PageData) :
    (s.next (s.store.write pin.frame data) (.write pin data)).2.Versioned where
  memory_mem p := by
    show Function.update s.memory pin.page data p ∈
      Function.update s.versions pin.page (data :: s.versions pin.page) p
    by_cases hp : p = pin.page
    · rw [hp, Function.update_self, Function.update_self]
      exact List.mem_cons_self
    · rw [Function.update_of_ne hp, Function.update_of_ne hp]
      exact h.memory_mem p
  file_mem p := AsyncStore.subset_update_cons s.versions pin.page data p (h.file_mem p)

/-- The kernel writes what its page has now. -/
theorem kernel (h : s.Versioned) (hm : s.Mirrors t) {w : Submission} (hw : w ∈ s.store.inflight) :
    (s.next (s.store.perform w) (.kernel w)).2.Versioned where
  memory_mem := h.memory_mem
  file_mem p := by
    show (s.store.perform w).disk.readPage p ∈ s.versions p
    by_cases hp : p = w.page
    · subst hp
      have hdata := hm.follows.shows.resident (hm.coherent.inflight_mapped w hw)
      rw [AsyncStore.readPage_perform_self, hdata]
      exact h.memory_mem w.page
    · rw [AsyncStore.readPage_perform_of_ne _ _ hp]
      exact h.file_mem p

/-- The call under way goes on. -/
theorem resume (h : s.Versioned) (hm : s.Mirrors t) {store : AsyncStore}
    (hs : s.store.resume = some store) : (s.next store .resume).2.Versioned := by
  have hfile := AsyncStore.resume_file hs
  -- a page that is not resident has no write in flight
  have hstored : ∀ {p}, s.store.pool.pageTable.lookup p = none →
      s.store.disk.readPage p = s.memory p := fun hp ↦
    hm.follows.shows.stored (hm.coherent.not_inflight hp) (AsyncStore.settled_of_none hp)
  rw [next]
  split
  · rename_i f hpc
    obtain ⟨-, -, hnone⟩ := hm.coherent.loading hpc
    obtain ⟨-, hzero⟩ := hm.follows.wanted .new (by rw [hpc]; rfl)
    refine h.load ?_ (hstored hnone) hfile _
    rw [AsyncStore.resume, hpc] at hs
    cases hs
    exact (congrArg Page.data (s.store.pool.install_pages_self ..)).trans (hzero rfl).symm
  · rename_i f p hpc
    obtain ⟨-, -, hnone⟩ := hm.coherent.reading hpc
    refine h.load ?_ (hstored hnone) hfile _
    rw [AsyncStore.resume, hpc] at hs
    cases hs
    exact (congrArg Page.data (s.store.pool.install_pages_self ..)).trans (hstored hnone)
  · exact h.of_eq rfl rfl hfile
  · exact h.of_eq rfl rfl hfile

theorem step (h : s.Versioned) (hm : s.Mirrors t) (hs : AsyncLives.step s e = some (o, s')) :
    s'.Versioned := by
  obtain ⟨-, store, hst, heq⟩ := step_eq_some hs
  obtain rfl : s' = (s.next store e).2 := congrArg Prod.snd heq
  cases e with
  | newPage =>
    have hfile := AsyncStore.step_file (by rintro _ ⟨⟩) hst
    rw [next]
    split
    · exact h.of_eq rfl rfl hfile
    · exact h.of_eq rfl rfl hfile
  | fetchPage p =>
    have hfile := AsyncStore.step_file (by rintro _ ⟨⟩) hst
    rw [next]
    split
    · exact h.of_eq rfl rfl hfile
    · exact h.of_eq rfl rfl hfile
    · exact h.of_eq rfl rfl hfile
  | write pin data =>
    cases hst
    exact h.write pin data
  | unpinPage pin isDirty => exact h.of_eq rfl rfl (AsyncStore.step_file (by rintro _ ⟨⟩) hst)
  | flushPage p => exact h.of_eq rfl rfl (AsyncStore.step_file (by rintro _ ⟨⟩) hst)
  | flushAllPages => exact h.of_eq rfl rfl (AsyncStore.step_file (by rintro _ ⟨⟩) hst)
  | resume => exact h.resume hm (AsyncStore.step_resume hst)
  | kernel w =>
    obtain ⟨hw, rfl⟩ := AsyncStore.step_kernel hst
    exact h.kernel hm hw

end Versioned

end AsyncLives

/-! ## Runs with crashes -/

namespace CrashLives

/-- What can happen. -/
inductive Event where
  | client (e : AsyncLives.Event)
  /-- The process is killed, and the next one has a pool of `poolSize` frames. -/
  | crash (poolSize : ℕ)

/-- One event.  A crash leaves only the file. -/
def step (s : AsyncLives) : Event → Option (AsyncLives.Said × AsyncLives)
  | .client e => s.step e
  | .crash poolSize => some (none, .opened poolSize s.store.disk.file)

/-- A condition on what the clients do. -/
def OfClients (P : AsyncLives → AsyncLives.Event → Prop) (s : AsyncLives) : Event → Prop
  | .client e => P s e
  | .crash _ => True

open AsyncLives (opened Clear Clean Countable Said)

variable {s s' : AsyncLives} {e : Event} {o : Said} {poolSize : ℕ} {file : PageId → Option PageData}
  {es : List Event} {os : List Said}

/-- What holds between two crashes. -/
def Sound (s : AsyncLives) : Prop := s.Versioned ∧ ∃ t, s.Mirrors t

theorem sound_opened (poolSize : ℕ) (file : PageId → Option PageData) :
    Sound (opened poolSize file) :=
  ⟨AsyncLives.versioned_opened poolSize file, _, AsyncLives.mirrors_opened poolSize file⟩

theorem Sound.step (h : Sound s) (hguard : OfClients AsyncLives.Guard s e)
    (hs : CrashLives.step s e = some (o, s')) : Sound s' := by
  obtain ⟨hversioned, t, hm⟩ := h
  cases e with
  | client e =>
    refine ⟨hversioned.step hm hs, ?_⟩
    cases o with
    | none => exact ⟨t, hm.silent hguard hs⟩
    | some said =>
      obtain ⟨-, t', -, hm'⟩ := hm.speak hguard hs
      exact ⟨t', hm'⟩
  | crash n =>
    cases hs
    exact sound_opened ..

theorem along_countable (h : s.pins.length + es.length ≤ 2 ^ 32) :
    Along step (OfClients Countable) s es := by
  induction es generalizing s with
  | nil => trivial
  | cons e es ih =>
    rw [List.length_cons] at h
    cases e with
    | client e =>
      refine ⟨AsyncLives.countable_of_length (by omega), fun o s' hs ↦ ih ?_⟩
      have hlen := AsyncLives.length_pins_le hs
      omega
    | crash n =>
      refine ⟨trivial, fun o s' hs ↦ ?_⟩
      cases hs
      exact ih (by simp [opened]; omega)

theorem clear_of_rest (hin : s.store.inflight = []) (hposted : s.store.posted = 0)
    (e : AsyncLives.Event) : OfClients Clear s (.client e) :=
  AsyncStore.clear_of_rest hin hposted _

end CrashLives

end StingDB
