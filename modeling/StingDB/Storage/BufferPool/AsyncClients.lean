import StingDB.Storage.BufferPool.AsyncMemory
import StingDB.Storage.BufferPool.Restarts

/-!
# The pool over asynchronous writes, for its clients

`PoolLives` is a pool whose file takes each write at once.  The code has no such file: its writes
are in flight until the kernel performs them, with whatever is in the frame then, its calls take
several steps, and its clients write to the pages they have pinned in the middle of the calls of
others.  Where all calls are `Clear` the clients cannot tell the two apart: what the calls have
returned, in the order in which they have returned, is a run of `PoolLives` (`refines_of_run`).

The two pools are the same between two calls (`AsyncStore.During`), the files are not: a page that a
client has written to while a write of it was in flight is newer in the file here.  What carries the
proof is that both files have the bytes of the clients' memory where it matters: `Store.Shows` and
`AsyncStore.Shows`.  With this, what is known of a pool that writes at once is known of the code's,
that it is transparent to its clients first of all (`truthful_of_run`).
-/

set_option autoImplicit false

namespace StingDB

open Machine

/-! ## A call, as far as the pool goes -/

namespace BufferPoolManager

/-- A frame for a page to come, after the page that was in it is gone. -/
def vacate (b : BufferPoolManager) : Option (ℕ × BufferPoolManager) :=
  b.takeFrame.map fun (frameId, victim, pool) ↦
    (frameId, if victim then pool.unmapVictim frameId else pool)

/-- Other bytes in a frame. -/
def overwrite (b : BufferPoolManager) (frameId : ℕ) (data : PageData) : BufferPoolManager :=
  b.setPage frameId { b.pages frameId with data }

/-- A frame that has been written back. -/
def clean (b : BufferPoolManager) (frameId : ℕ) : BufferPoolManager :=
  if (b.pages frameId).isDirty then b.setPage frameId ((b.pages frameId).setDirty false) else b

variable {b : BufferPoolManager} {f g : ℕ} {data : PageData}

theorem acquireFrame_map (s : Store) :
    (s.acquireFrame.map fun (frameId, s) ↦ (frameId, s.pool)) = s.pool.vacate := by
  rw [Store.acquireFrame, vacate]
  cases s.pool.takeFrame with
  | none => rfl
  | some r =>
    obtain ⟨f, victim, pool⟩ := r
    cases victim <;> rfl

theorem acquireFrame_of_vacate {s : Store} {pool : BufferPoolManager}
    (h : s.pool.vacate = some (f, pool)) :
    ∃ s₁, s.acquireFrame = some (f, s₁) ∧ s₁.pool = pool := by
  rw [← acquireFrame_map] at h
  obtain ⟨⟨f', s₁⟩, ha, heq⟩ := Option.map_eq_some_iff.mp h
  cases heq
  exact ⟨s₁, ha, rfl⟩

theorem overwrite_pages (g : ℕ) : ((b.overwrite f data).pages g).pageId = (b.pages g).pageId ∧
    ((b.overwrite f data).pages g).isDirty = (b.pages g).isDirty := by
  rw [overwrite]
  by_cases hg : g = f
  · rw [hg, setPage_pages_self]
    exact ⟨rfl, rfl⟩
  · rw [setPage_pages_of_ne _ _ _ hg]
    exact ⟨rfl, rfl⟩

/-- What is in the frames makes no difference to which one is taken. -/
theorem vacate_overwrite (b : BufferPoolManager) (g : ℕ) (data : PageData) :
    (b.overwrite g data).vacate = b.vacate.map fun (f, b) ↦ (f, b.overwrite g data) := by
  cases htake : b.takeFrame with
  | none =>
    have hempty := takeFrame_eq_none.mp htake
    have htake' : (b.overwrite g data).takeFrame = none := takeFrame_eq_none.mpr hempty
    rw [vacate, vacate, htake, htake']
    rfl
  | some r =>
    obtain ⟨f, victim, pool⟩ := r
    have htake' : (b.overwrite g data).takeFrame = some (f, victim, pool.overwrite g data) := by
      rw [takeFrame_eq_some] at htake ⊢
      obtain ⟨rfl, rest, hfree, rfl⟩ | ⟨rfl, hfree, rest, hlru, rfl⟩ := htake
      · exact Or.inl ⟨rfl, rest, hfree, rfl⟩
      · exact Or.inr ⟨rfl, hfree, rest, hlru, rfl⟩
    rw [vacate, vacate, htake, htake']
    cases victim with
    | false => rfl
    | true =>
      simp only [Option.map_some, if_true, unmapVictim, (overwrite_pages f).1]
      rfl

theorem setPage_overwrite_of_ne (b : BufferPoolManager) (page : Page) (h : g ≠ f) :
    (b.setPage f page).overwrite g data = (b.overwrite g data).setPage f page := by
  rw [overwrite, overwrite, setPage_pages_of_ne _ _ _ h]
  exact congrArg (fun pages ↦ { b with pages }) (Function.update_comm (Ne.symm h) _ _ _)

theorem setPage_overwrite_self (b : BufferPoolManager) (page : Page) :
    (b.setPage f page).overwrite f data = (b.overwrite f data).setPage f { page with data } := by
  rw [overwrite, overwrite, setPage_pages_self]
  simp [setPage]

theorem clean_overwrite (b : BufferPoolManager) (f g : ℕ) (data : PageData) :
    (b.overwrite g data).clean f = (b.clean f).overwrite g data := by
  rw [clean, clean, (overwrite_pages f).2]
  split
  · by_cases hg : g = f
    · subst hg
      rw [setPage_overwrite_self]
      congr 1
      rw [overwrite, setPage_pages_self]
      rfl
    · rw [setPage_overwrite_of_ne _ _ hg]
      congr 1
      rw [overwrite, setPage_pages_of_ne _ _ _ (Ne.symm hg)]
  · rfl

theorem foldl_clean_overwrite (l : List (Sigma fun _ : PageId ↦ ℕ)) (b : BufferPoolManager) (g : ℕ)
    (data : PageData) : l.foldl (fun b e ↦ b.clean e.2) (b.overwrite g data) =
      (l.foldl (fun b e ↦ b.clean e.2) b).overwrite g data := by
  induction l generalizing b with
  | nil => rfl
  | cons e l ih => rw [List.foldl_cons, List.foldl_cons, clean_overwrite, ih]

theorem flushFrame_pool (s : Store) (p : PageId) (f : ℕ) :
    (s.flushFrame p f).pool = s.pool.clean f := by
  rw [Store.flushFrame, clean]
  split <;> rfl

theorem foldl_flushFrame_pool (l : List (Sigma fun _ : PageId ↦ ℕ)) (s : Store) :
    (l.foldl (fun s e ↦ s.flushFrame e.1 e.2) s).pool = l.foldl (fun b e ↦ b.clean e.2) s.pool := by
  induction l generalizing s with
  | nil => rfl
  | cons e l ih => rw [List.foldl_cons, List.foldl_cons, ih, flushFrame_pool]

end BufferPoolManager

open BufferPoolManager

/-- What a frame is wanted for. -/
def Pc.target : Pc → Option Target
  | .waiting _ t => some t
  | .loading _ t => some t
  | .reading _ p => some (.fetch p)
  | _ => none

namespace AsyncStore

/-- How far a pool has come in its call, if `b` is what it was when the call began, and what its
clients have written since is in it. -/
def During (s : AsyncStore) (b : BufferPoolManager) : Prop :=
  match s.pc with
  | .idle => s.pool = b
  | .waiting f _ => ∃ rest, b.freeList = [] ∧ b.lruReplacer = rest ++ [f] ∧
      s.pool = { b with lruReplacer := rest }
  | .loading f _ => b.vacate = some (f, s.pool)
  | .reading f _ => ∃ pool page, b.vacate = some (f, pool) ∧ s.pool = pool.setPage f page
  | .flushing rest => ∃ done, b.pageTable.entries = done ++ rest ∧
      s.pool = done.foldl (fun b e ↦ b.clean e.2) b

theorem flushFrame_pool (s : AsyncStore) (p : PageId) (f : ℕ) :
    (s.flushFrame p f).pool = s.pool.clean f := by
  rw [flushFrame, clean]
  split <;> rfl

variable {s : AsyncStore} {b : BufferPoolManager}

theorem During.idle (h : s.During b) (hpc : s.pc = .idle) : s.pool = b := by
  rw [During, hpc] at h
  exact h

theorem During.waiting (h : s.During b) {f : ℕ} {t : Target} (hpc : s.pc = .waiting f t) :
    ∃ rest, b.freeList = [] ∧ b.lruReplacer = rest ++ [f] ∧
      s.pool = { b with lruReplacer := rest } := by
  rw [During, hpc] at h
  exact h

theorem During.loading (h : s.During b) {f : ℕ} {t : Target} (hpc : s.pc = .loading f t) :
    b.vacate = some (f, s.pool) := by
  rw [During, hpc] at h
  exact h

theorem During.reading (h : s.During b) {f : ℕ} {p : PageId} (hpc : s.pc = .reading f p) :
    ∃ pool page, b.vacate = some (f, pool) ∧ s.pool = pool.setPage f page := by
  rw [During, hpc] at h
  exact h

theorem During.flushing (h : s.During b) {rest : List (Sigma fun _ : PageId ↦ ℕ)}
    (hpc : s.pc = .flushing rest) : ∃ done, b.pageTable.entries = done ++ rest ∧
      s.pool = done.foldl (fun b e ↦ b.clean e.2) b := by
  rw [During, hpc] at h
  exact h

theorem During.write (h : s.During b) (g : ℕ) (data : PageData) :
    (s.write g data).During (b.overwrite g data) := by
  have hpc : (s.write g data).pc = s.pc := rfl
  have hpool : (s.write g data).pool = s.pool.overwrite g data := rfl
  unfold During at h ⊢
  rw [hpc, hpool]
  cases hs : s.pc with
  | idle =>
    simp only [hs] at h ⊢
    rw [h]
  | waiting f t =>
    simp only [hs] at h ⊢
    obtain ⟨rest, hfree, hlru, heq⟩ := h
    exact ⟨rest, hfree, hlru, by rw [heq]; rfl⟩
  | loading f t =>
    simp only [hs] at h ⊢
    rw [vacate_overwrite, h]
    rfl
  | reading f p =>
    simp only [hs] at h ⊢
    obtain ⟨pool, page, hv, heq⟩ := h
    rw [vacate_overwrite, hv, heq]
    by_cases hg : g = f
    · subst hg
      exact ⟨_, _, rfl, setPage_overwrite_self pool page⟩
    · exact ⟨_, _, rfl, setPage_overwrite_of_ne pool page hg⟩
  | flushing rest =>
    simp only [hs] at h ⊢
    obtain ⟨done, hentries, heq⟩ := h
    exact ⟨done, hentries, by rw [heq, foldl_clean_overwrite]⟩

/-- A page that somebody has pinned stays where it is during the calls of others. -/
theorem During.mapped {s : AsyncStore} {t : Store} {pins : List Pin} (h : s.During t.pool)
    (hh : t.pool.Holds pins none) {pin : Pin} (hpin : pin ∈ pins) :
    s.pool.pageTable.lookup pin.page = some pin.frame := by
  have hmap := hh.mapped pin hpin
  have hvacate : ∀ {f pool}, t.pool.vacate = some (f, pool) →
      pool.pageTable.lookup pin.page = some pin.frame := by
    intro f pool hv
    obtain ⟨s₁, ha, rfl⟩ := acquireFrame_of_vacate hv
    exact (hh.acquireFrame ha).mapped pin hpin
  cases hs : s.pc with
  | idle =>
    rwa [h.idle hs]
  | waiting f t =>
    obtain ⟨rest, -, -, heq⟩ := h.waiting hs
    rwa [heq]
  | loading f t => exact hvacate (h.loading hs)
  | reading f p =>
    obtain ⟨pool, page, hv, heq⟩ := h.reading hs
    rw [heq, setPage_pageTable]
    exact hvacate hv
  | flushing rest =>
    obtain ⟨done, -, heq⟩ := h.flushing hs
    have htable : ∀ (l : List (Sigma fun _ : PageId ↦ ℕ)) (b : BufferPoolManager),
        (l.foldl (fun b e ↦ b.clean e.2) b).pageTable = b.pageTable := by
      intro l
      induction l with
      | nil => exact fun _ ↦ rfl
      | cons e l ih =>
        intro b
        rw [List.foldl_cons, ih, clean]
        split <;> rfl
    rwa [heq, htable]

end AsyncStore

/-! ## The clients -/

/-- A pool over asynchronous writes, its clients and their memory. -/
structure AsyncLives where
  /-- The pool, the file and the writes between them. -/
  store : AsyncStore
  /-- The pins that have been taken and not released. -/
  pins : List Pin := []
  /-- For each page the last bytes that a client has written to it, or those that were in the file
  at first.  Nothing reads this. -/
  memory : PageId → PageData
  /-- Nothing reads this: all contents that each page has had since it came into the pool last. -/
  versions : PageId → List PageData

namespace AsyncLives

/-- A pool that has just been constructed, over a file. -/
def opened (poolSize : ℕ) (file : PageId → Option PageData) : AsyncLives :=
  { store := .start poolSize file
    memory := fun p ↦ (file p).getD Block.zero
    versions := fun p ↦ [(file p).getD Block.zero] }

/-- What can happen. -/
inductive Event where
  | newPage
  | fetchPage (pageId : PageId)
  | write (pin : Pin) (data : PageData)
  | unpinPage (pin : Pin) (isDirty : Bool)
  | flushPage (pageId : PageId)
  | flushAllPages
  /-- The call that is being executed goes on. -/
  | resume
  /-- The kernel performs a write. -/
  | kernel (w : Submission)

/-- What it is to the pool. -/
def Event.toStore : Event → AsyncStore.Event
  | .newPage => .call .newPage
  | .fetchPage p => .call (.fetchPage p)
  | .write pin data => .write pin.frame data
  | .unpinPage pin isDirty => .call (.unpinPage pin.page isDirty)
  | .flushPage p => .call (.flushPage p)
  | .flushAllPages => .call .flushAllPages
  | .resume => .resume
  | .kernel w => .kernel w

/-- A call that has returned now, and what it has returned. -/
abbrev Said := Option (PoolLives.Event × PoolLives.Result)

/-- Clients write to pages they have pinned, and release pins they have. -/
def Allowed (s : AsyncLives) : Event → Prop
  | .write pin _ => pin ∈ s.pins
  | .unpinPage pin _ => pin ∈ s.pins
  | _ => True

instance (s : AsyncLives) : DecidablePred s.Allowed
  | .write pin _ => inferInstanceAs (Decidable (pin ∈ s.pins))
  | .unpinPage pin _ => inferInstanceAs (Decidable (pin ∈ s.pins))
  | .newPage | .fetchPage _ | .flushPage _ | .flushAllPages | .resume | .kernel _ => isTrue trivial

/-- The state when a call has returned the page `pageId`, which is in the frame `frameId`. -/
def take (s : AsyncLives) (call : PoolLives.Event) (store : AsyncStore) (pageId : PageId)
    (frameId : ℕ) : Said × AsyncLives :=
  (some (call, some (pageId, (store.pool.pages frameId).data)),
    { s with store, pins := ⟨pageId, frameId, false⟩ :: s.pins })

/-- The same, if the page has come into the pool for it. -/
def load (s : AsyncLives) (call : PoolLives.Event) (store : AsyncStore) (pageId : PageId)
    (frameId : ℕ) : Said × AsyncLives :=
  let data := (store.pool.pages frameId).data
  { s with versions := Function.update s.versions pageId [data] }.take call store pageId frameId

/-- What an event that has led to `store` has come to. -/
def next (s : AsyncLives) (store : AsyncStore) : Event → Said × AsyncLives
  | .newPage =>
    match store.pc with
    | .idle => (some (.newPage, none), { s with store })
    | _ => (none, { s with store })
  | .fetchPage pageId =>
    match s.store.pool.pageTable.lookup pageId, store.pc with
    | some frameId, _ => s.take (.fetchPage pageId) store pageId frameId
    | none, .idle => (some (.fetchPage pageId, none), { s with store })
    | none, _ => (none, { s with store })
  | .write pin data =>
    (some (.write pin data, none), {
      store
      pins := { pin with modified := true } :: s.pins.erase pin
      memory := Function.update s.memory pin.page data
      versions := Function.update s.versions pin.page (data :: s.versions pin.page) })
  | .unpinPage pin isDirty =>
    (some (.unpinPage pin isDirty, none), { s with store, pins := s.pins.erase pin })
  | .flushPage pageId => (some (.flushPage pageId, none), { s with store })
  | .flushAllPages => (none, { s with store })
  | .resume =>
    match s.store.pc with
    | .loading frameId .new => s.load .newPage store s.store.disk.nextPageId frameId
    | .reading frameId pageId => s.load (.fetchPage pageId) store pageId frameId
    | .flushing [] => (some (.flushAllPages, none), { s with store })
    | _ => (none, { s with store })
  | .kernel _ => (none, { s with store })

/-- One event. -/
def step (s : AsyncLives) (e : Event) : Option (Said × AsyncLives) :=
  if s.Allowed e then (s.store.step e.toStore).map fun (_, store) ↦ s.next store e else none

/-- A call that needs a frame finds one that no write in flight is out of; and if it has to write a
dirty victim first, nothing is in flight and no completion is left over. -/
def Clear (s : AsyncLives) (e : Event) : Prop := s.store.Clear e.toStore

/-- What the clients have to see to: that a new page is one nobody has used, and that what has been
written to is released as dirty. -/
def Clean (s : AsyncLives) : Event → Prop
  | .newPage => s.store.pool.pageTable.lookup s.store.disk.nextPageId = none ∧
      s.memory s.store.disk.nextPageId = Block.zero
  | .unpinPage pin isDirty => pin.modified = true → isDirty = true
  | _ => True

/-- No page has more pins than its counter can tell from one. -/
def Countable (s : AsyncLives) (e : Event) : Prop :=
  ∀ o s', step s e = some (o, s') → ∀ p, heldBy s'.pins p ≤ 2 ^ 32

variable {s s' : AsyncLives} {t : PoolLives} {e : Event} {o : Said}

theorem step_eq_some (hs : step s e = some (o, s')) :
    s.Allowed e ∧
      ∃ store, s.store.step e.toStore = some ((), store) ∧ (o, s') = s.next store e := by
  rw [step] at hs
  split at hs
  · rename_i ha
    obtain ⟨⟨⟨⟩, store⟩, hst, heq⟩ := Option.map_eq_some_iff.mp hs
    exact ⟨ha, store, hst, heq.symm⟩
  · cases hs

/-- Whatever is said, the pool has made the step. -/
theorem next_store (s : AsyncLives) (store : AsyncStore) (e : Event) :
    (s.next store e).2.store = store := by
  cases e with
  | newPage =>
    rw [next]
    split <;> rfl
  | fetchPage p =>
    rw [next]
    split <;> rfl
  | resume =>
    rw [next]
    split <;> rfl
  | write pin data => rfl
  | unpinPage pin isDirty => rfl
  | flushPage p => rfl
  | flushAllPages => rfl
  | kernel w => rfl

/-- A step takes one pin at most. -/
theorem length_pins_le (hs : step s e = some (o, s')) : s'.pins.length ≤ s.pins.length + 1 := by
  have htake : ∀ (s : AsyncLives) (c : PoolLives.Event) (store : AsyncStore) (p : PageId) (f : ℕ),
      (s.take c store p f).2.pins.length ≤ s.pins.length + 1 := fun _ _ _ _ _ ↦ le_rfl
  obtain ⟨-, store, -, heq⟩ := step_eq_some hs
  obtain rfl : s' = (s.next store e).2 := congrArg Prod.snd heq
  cases e with
  | newPage =>
    rw [next]
    split <;> exact Nat.le_succ _
  | fetchPage p =>
    rw [next]
    split
    · exact htake ..
    · exact Nat.le_succ _
    · exact Nat.le_succ _
  | write pin data => exact Nat.succ_le_succ List.length_erase_le
  | unpinPage pin isDirty => exact List.length_erase_le.trans (Nat.le_succ _)
  | flushPage p => exact Nat.le_succ _
  | flushAllPages => exact Nat.le_succ _
  | resume =>
    rw [next]
    split
    · exact htake ..
    · exact htake ..
    · exact Nat.le_succ _
    · exact Nat.le_succ _
  | kernel w => exact Nat.le_succ _

theorem countable_of_length (h : s.pins.length < 2 ^ 32) : s.Countable e := by
  intro o s' hs p
  have hlen := length_pins_le hs
  have hle : heldBy s'.pins p ≤ s'.pins.length := List.countP_le_length
  omega

/-- In a run of `n` events there are no more than `n` pins. -/
theorem along_countable {es : List Event} (h : s.pins.length + es.length ≤ 2 ^ 32) :
    Along step Countable s es := by
  induction es generalizing s with
  | nil => trivial
  | cons e es ih =>
    rw [List.length_cons] at h
    refine ⟨countable_of_length (by omega), fun o s' hs ↦ ih ?_⟩
    have hlen := length_pins_le hs
    omega

/-! ## The two pools side by side -/

/-- The clients of both pools are at one, and the pool over asynchronous writes is in the middle of
a call that the other has not begun, or in none. -/
structure Follows (s : AsyncLives) (t : PoolLives) : Prop where
  pins_eq : s.pins = t.pins
  memory_eq : s.memory = t.memory
  nextPageId_eq : s.store.disk.nextPageId = t.store.disk.nextPageId
  during : s.store.During t.store.pool
  shows : s.store.Shows s.pins s.memory
  wanted : ∀ tgt, s.store.pc.target = some tgt →
    t.store.pool.pageTable.lookup (s.store.wanted tgt) = none ∧
      (tgt = .new → s.memory s.store.disk.nextPageId = Block.zero)

/-- What has been said is what the other pool says. -/
def Answers (s' : AsyncLives) (t : PoolLives) : Said → Prop
  | none => s'.Follows t
  | some (c, o) => t.Clean c ∧ ∃ t', t.step c = some (o, t') ∧ s'.Follows t'

namespace Follows

/-- A step of the pool alone. -/
theorem of_store (h : s.Follows t) {store : AsyncStore}
    (hnext : store.disk.nextPageId = s.store.disk.nextPageId)
    (hduring : store.During t.store.pool) (hshows : store.Shows s.pins s.memory)
    (htarget : ∀ tgt, store.pc.target = some tgt → s.store.pc.target = some tgt) :
    ({ s with store } : AsyncLives).Follows t where
  pins_eq := h.pins_eq
  memory_eq := h.memory_eq
  nextPageId_eq := hnext.trans h.nextPageId_eq
  during := hduring
  shows := hshows
  wanted tgt ht := by
    obtain ⟨hl, hnew⟩ := h.wanted tgt (htarget tgt ht)
    refine ⟨?_, fun heq ↦ hnext ▸ hnew heq⟩
    cases tgt with
    | fetch p => exact hl
    | new =>
      show t.store.pool.pageTable.lookup store.disk.nextPageId = none
      rw [hnext]
      exact hl

theorem pool_eq (h : s.Follows t) (hpc : s.store.pc = .idle) : s.store.pool = t.store.pool :=
  h.during.idle hpc

/-- A client writes, in the middle of another's call perhaps. -/
theorem write (h : s.Follows t) (hp : t.Persistent) (hc : s.store.Coherent) {pin : Pin}
    (hpin : pin ∈ s.pins) (data : PageData) :
    (s.next (s.store.write pin.frame data) (.write pin data)).2.Answers t
      (some (.write pin data, none)) := by
  have hpin' : pin ∈ t.pins := h.pins_eq ▸ hpin
  refine ⟨trivial, _, if_pos hpin', ?_⟩
  exact
    { pins_eq := by rw [← h.pins_eq]; rfl
      memory_eq := by rw [← h.memory_eq]; rfl
      nextPageId_eq := h.nextPageId_eq
      during := h.during.write _ _
      shows := h.shows.write hc (h.during.mapped hp.holds hpin') data
      wanted := by
        intro tgt ht
        obtain ⟨hl, hnew⟩ := h.wanted tgt ht
        refine ⟨hl, fun heq ↦ (Function.update_of_ne ?_ _ _).trans (hnew heq)⟩
        subst heq
        intro heq
        have hmap := hp.holds.mapped pin hpin'
        rw [← heq] at hmap
        exact absurd (hl.symm.trans hmap) (by simp) }

theorem kernel (h : s.Follows t) (hc : s.store.Coherent) {w : Submission}
    (hw : w ∈ s.store.inflight) : (s.next (s.store.perform w) (.kernel w)).2.Follows t :=
  h.of_store rfl h.during (h.shows.perform hc hw) fun _ ht ↦ ht

theorem unpinPage (h : s.Follows t) (hp : t.Persistent) (hpc : s.store.pc = .idle) {pin : Pin}
    {isDirty : Bool} (hpin : pin ∈ s.pins) (hdirty : pin.modified = true → isDirty = true) :
    (s.next (s.store.call (.unpinPage pin.page isDirty)) (.unpinPage pin isDirty)).2.Answers t
      (some (.unpinPage pin isDirty, none)) := by
  have hpin' : pin ∈ t.pins := h.pins_eq ▸ hpin
  have hpool := h.pool_eq hpc
  have hmap := hp.holds.mapped pin hpin'
  refine ⟨hdirty, _, if_pos hpin', ?_⟩
  rw [next, AsyncStore.call, hpool, hmap, Store.unpinPage_of_resident hmap]
  exact
    { pins_eq := by rw [← h.pins_eq]
      memory_eq := h.memory_eq
      nextPageId_eq := h.nextPageId_eq
      during := by
        rw [AsyncStore.During]
        simp only [hpc]
      shows := by
        rw [← hpool]
        exact h.shows.unpin hpc (hpool ▸ hmap) hdirty
      wanted := by
        intro tgt ht
        simp only [hpc] at ht
        cases ht }

theorem flushPage (h : s.Follows t) (hc : s.store.Coherent) (hpc : s.store.pc = .idle)
    (p : PageId) : (s.next (s.store.call (.flushPage p)) (.flushPage p)).2.Answers t
      (some (.flushPage p, none)) := by
  have hpool := h.pool_eq hpc
  refine ⟨trivial, _, rfl, ?_⟩
  rw [next, AsyncStore.call, Store.flushPage, ← hpool]
  cases hp : s.store.pool.pageTable.lookup p with
  | none => exact h
  | some f =>
    have hpc' : (s.store.flushFrame p f).pc = .idle := (AsyncStore.flushFrame_pc ..).trans hpc
    exact
      { pins_eq := h.pins_eq
        memory_eq := h.memory_eq
        nextPageId_eq := by
          dsimp only
          rw [Store.flushFrame_nextPageId, ← h.nextPageId_eq, AsyncStore.flushFrame]
          split <;> rfl
        during := by
          rw [AsyncStore.During]
          simp only [hpc']
          rw [AsyncStore.flushFrame_pool, BufferPoolManager.flushFrame_pool, hpool]
        shows := h.shows.flushFrame hc hp
        wanted := by
          intro tgt ht
          simp only [hpc'] at ht
          cases ht }

theorem flushAllPages (h : s.Follows t) (hpc : s.store.pc = .idle) :
    (s.next (s.store.call .flushAllPages) .flushAllPages).2.Follows t := by
  refine h.of_store rfl ⟨[], ?_, h.pool_eq hpc⟩
    (h.shows.of_pc (.flushing s.store.pool.pageTable.entries) (by rintro _ _ ⟨⟩) _) (by rintro _ ⟨⟩)
  rw [List.nil_append, h.pool_eq hpc]

/-- **A frame is found**, or there is none to be had. -/
theorem acquire (h : s.Follows t) (hp : t.Persistent) (hc : s.store.Coherent)
    (hpc : s.store.pc = .idle) (tgt : Target)
    (hwanted : s.store.pool.pageTable.lookup (s.store.wanted tgt) = none)
    (hnew : tgt = .new → s.memory s.store.disk.nextPageId = Block.zero) :
    (s.store.acquire tgt = s.store ∧ t.store.acquireFrame = none) ∨
      ((s.store.acquire tgt).pc ≠ .idle ∧
        ({ s with store := s.store.acquire tgt } : AsyncLives).Follows t) := by
  have hpool := h.pool_eq hpc
  have hshows : (s.store.acquire tgt).Shows s.pins s.memory := by
    refine h.shows.acquire hc hpc tgt fun g hg pin hpin heq ↦ ?_
    -- nobody has a candidate for eviction pinned
    rw [hpool] at hg heq
    obtain ⟨q, hq, hheld⟩ := hp.holds.represents.mem_lru.mp hg
    rw [hp.holds.represents.pageId_eq hq] at heq
    exact absurd (heq ▸ hheld) (heldBy_pos (h.pins_eq ▸ hpin))
  have hdone : ∀ {store : AsyncStore}, store.disk.nextPageId = s.store.disk.nextPageId →
      store.During t.store.pool → store.Shows s.pins s.memory → store.pc.target = some tgt →
        ({ s with store } : AsyncLives).Follows t := by
    intro store hnext hduring hshows htarget
    refine ⟨h.pins_eq, h.memory_eq, hnext.trans h.nextPageId_eq, hduring, hshows, ?_⟩
    intro tgt' ht
    obtain rfl : tgt = tgt' := Option.some.inj (htarget.symm.trans ht)
    refine ⟨?_, fun heq ↦ hnext ▸ hnew heq⟩
    rw [← hpool, ← hwanted]
    cases tgt with
    | fetch p => rfl
    | new => exact congrArg s.store.pool.pageTable.lookup hnext
  rw [AsyncStore.acquire] at hshows ⊢
  cases htake : s.store.pool.takeFrame with
  | none =>
    refine Or.inl ⟨rfl, ?_⟩
    rw [Store.acquireFrame, ← hpool, htake]
  | some r =>
    right
    obtain ⟨f, victim, pool⟩ := r
    have hvacate : t.store.pool.vacate =
        some (f, if victim then pool.unmapVictim f else pool) := by
      rw [vacate, ← hpool, htake]
      rfl
    simp only [htake] at hshows
    cases victim with
    | false => exact ⟨by rintro ⟨⟩, hdone rfl hvacate hshows rfl⟩
    | true =>
      dsimp only at hshows ⊢
      split at hshows
      · rename_i hd
        rw [if_pos hd]
        obtain ⟨hv, -⟩ | ⟨-, hfree, rest, hlru, rfl⟩ := takeFrame_eq_some.mp htake
        · cases hv
        · refine ⟨by rintro ⟨⟩, hdone rfl ⟨rest, ?_, ?_, ?_⟩ hshows rfl⟩
          · rw [← hpool, hfree]
          · rw [← hpool, hlru]
          · rw [← hpool]
            rfl
      · rename_i hd
        rw [if_neg hd]
        exact ⟨by rintro ⟨⟩, hdone rfl hvacate hshows rfl⟩

theorem newPage (h : s.Follows t) (hp : t.Persistent) (hc : s.store.Coherent)
    (hpc : s.store.pc = .idle) (hclean : s.Clean .newPage) :
    (s.next (s.store.call .newPage) .newPage).2.Answers t
      (s.next (s.store.call .newPage) .newPage).1 := by
  have hpool := h.pool_eq hpc
  have hclean' : t.Clean .newPage := by
    rw [Clean, hpool, h.nextPageId_eq, h.memory_eq] at hclean
    exact hclean
  rw [next, AsyncStore.call]
  obtain ⟨heq, hnone⟩ | ⟨hne, hfollows⟩ := h.acquire hp hc hpc .new hclean.1 fun _ ↦ hclean.2
  · rw [heq, hpc]
    refine ⟨hclean', t, ?_, h⟩
    rw [PoolLives.step, Store.newPage, hnone]
  · split
    · exact absurd ‹_› hne
    · exact hfollows

theorem fetchPage (h : s.Follows t) (hp : t.Persistent) (hc : s.store.Coherent)
    (hpc : s.store.pc = .idle) (p : PageId) :
    (s.next (s.store.call (.fetchPage p)) (.fetchPage p)).2.Answers t
      (s.next (s.store.call (.fetchPage p)) (.fetchPage p)).1 := by
  have hpool := h.pool_eq hpc
  rw [next, AsyncStore.call]
  cases hl : s.store.pool.pageTable.lookup p with
  | some f =>
    have hl' : t.store.pool.pageTable.lookup p = some f := hpool ▸ hl
    dsimp only
    refine ⟨trivial, (t.take { t.store with pool := t.store.pool.pin f } p f).2, ?_, ?_⟩
    · rw [PoolLives.step, Store.fetchPage_of_resident hl']
      dsimp only
      rw [PoolLives.take, ← hpool]
    · exact
        { pins_eq := congrArg _ h.pins_eq
          memory_eq := h.memory_eq
          nextPageId_eq := h.nextPageId_eq
          during := by
            rw [AsyncStore.During]
            simp only [take, hpc, hpool]
            rfl
          shows := h.shows.pin
          wanted := by
            intro tgt ht
            simp only [take, hpc] at ht
            cases ht }
  | none =>
    obtain ⟨heq, hnone⟩ | ⟨hne, hfollows⟩ := h.acquire hp hc hpc (.fetch p) hl (by rintro ⟨⟩)
    · dsimp only
      rw [heq, hpc]
      refine ⟨trivial, t, ?_, h⟩
      rw [PoolLives.step, Store.fetchPage, ← hpool, hl, hnone]
    · dsimp only
      split
      · cases ‹none = some _›
      · exact absurd ‹_› hne
      · exact hfollows

/-- **The victim of an eviction goes out of the table**, once a completion has been reaped. -/
theorem evict (h : s.Follows t) (hp : t.Persistent) (hc : s.store.Coherent) {f : ℕ} {tgt : Target}
    (hpc : s.store.pc = .waiting f tgt) :
    ({ s with store := { s.store with
        posted := 0
        pool := s.store.pool.unmapVictim f
        pc := .loading f tgt } } : AsyncLives).Follows t := by
  obtain ⟨rest, hfree, hlru, heq⟩ := h.during.waiting hpc
  obtain ⟨hvictim, -, -⟩ := hc.waiting hpc
  have hsettled : s.store.Settled s.pins (s.store.pool.pages f).pageId := by
    intro g hg
    obtain rfl : g = f := Option.some.inj (hg.symm.trans hvictim)
    refine ⟨Or.inr ⟨tgt, hpc⟩, fun pin hpin hpage ↦ ?_⟩
    -- nobody had the victim pinned when the call began
    obtain ⟨q, hq, hheld⟩ :=
      hp.holds.represents.mem_lru.mp (hlru ▸ List.mem_append_right _ List.mem_cons_self)
    have hid : (s.store.pool.pages g).pageId = q := by
      rw [heq]
      exact hp.holds.represents.pageId_eq hq
    rw [← hid, ← hpage] at hheld
    exact absurd hheld (heldBy_pos (h.pins_eq ▸ hpin))
  refine h.of_store rfl ?_ (h.shows.unmapVictim hsettled _ ⟨rfl, rfl⟩ 0 tgt) ?_
  · have htake : t.store.pool.takeFrame = some (f, true, s.store.pool) :=
      takeFrame_eq_some.mpr (Or.inr ⟨rfl, hfree, rest, hlru, heq⟩)
    rw [AsyncStore.During, vacate, htake]
    rfl
  · intro tgt' ht
    rw [hpc]
    exact ht

/-- The frame is reset. -/
theorem reset (h : s.Follows t) (hc : s.store.Coherent) {f : ℕ} {p : PageId}
    (hpc : s.store.pc = .loading f (.fetch p)) (page : Page) (owner : ℕ → Option PageId) :
    ({ s with store := { s.store with
        pool := s.store.pool.setPage f page
        owner
        pc := .reading f p } } : AsyncLives).Follows t := by
  obtain ⟨hf, -, -⟩ := hc.loading hpc
  refine h.of_store rfl ⟨_, page, h.during.loading hpc, rfl⟩ (h.shows.reset hf hpc page owner) ?_
  intro tgt ht
  rw [hpc]
  exact ht

/-- **The page that a frame was wanted for comes in**, and the call returns it. -/
theorem arrive (h : s.Follows t) {f : ℕ} {p : PageId} {data : PageData} (disk : DiskManager)
    (store : Store) (hf : ∀ q, s.store.pool.pageTable.lookup q ≠ some f)
    (hp : s.store.pool.pageTable.lookup p = none) (hdata : data = s.memory p)
    (hdisk : ∀ q, disk.readPage q = s.store.disk.readPage q)
    (hnext : disk.nextPageId = store.disk.nextPageId)
    (hpool : s.store.pool.install f p data = store.pool) {c : PoolLives.Event} (hclean : t.Clean c)
    (hstep : t.step c = some (t.take store p f)) (owner : ℕ → Option PageId)
    (since : PageId → List PageData) :
    (s.load c { s.store with
        disk
        pool := s.store.pool.install f p data
        owner
        since
        pc := .idle } p f).2.Answers t
      (s.load c { s.store with
        disk
        pool := s.store.pool.install f p data
        owner
        since
        pc := .idle } p f).1 := by
  have hshows := h.shows.install hf hp hdata hdisk owner since
  refine ⟨hclean, (t.take store p f).2, ?_, ?_⟩
  · rw [hstep, PoolLives.take, ← hpool]
  · exact
      { pins_eq := congrArg _ h.pins_eq
        memory_eq := h.memory_eq
        nextPageId_eq := hnext
        during := hpool
        shows := hshows
        wanted := by rintro _ ⟨⟩ }

/-- `NewPage` returns. -/
theorem newPage_returns (h : s.Follows t) (hc : s.store.Coherent) {f : ℕ}
    (hpc : s.store.pc = .loading f .new) {store : AsyncStore} (hs : s.store.resume = some store) :
    (s.next store .resume).2.Answers t (s.next store .resume).1 := by
  obtain ⟨hf, -, hnone⟩ := hc.loading hpc
  rw [AsyncStore.resume, hpc] at hs
  cases hs
  rw [next, hpc]
  obtain ⟨s₁, ha, hpool⟩ := acquireFrame_of_vacate (h.during.loading hpc)
  obtain ⟨hl, hzero⟩ := h.wanted .new (by rw [hpc]; rfl)
  have hzero : s.memory s.store.disk.nextPageId = Block.zero := hzero rfl
  have hnext : s₁.disk.nextPageId = s.store.disk.nextPageId :=
    (Store.acquireFrame_nextPageId ha).trans h.nextPageId_eq.symm
  have hclean : t.Clean .newPage := by
    rw [PoolLives.Clean, ← h.nextPageId_eq, ← h.memory_eq]
    exact ⟨hl, hzero⟩
  refine h.arrive (p := s.store.disk.nextPageId) s.store.disk.allocatePage.2
    { pool := s₁.pool.install f s₁.disk.nextPageId Block.zero, disk := s₁.disk.allocatePage.2 }
    hf hnone hzero.symm (fun _ ↦ rfl) ?_ ?_ hclean ?_ _ _
  · exact congrArg (· + 1) hnext.symm
  · rw [hpool, hnext]
  · rw [PoolLives.step, Store.newPage, ha, ← hnext]
    rfl

/-- `FetchPage` returns. -/
theorem fetchPage_returns (h : s.Follows t) (hp : t.Persistent) (hc : s.store.Coherent)
    (hg : s.store.Guarded) {f : ℕ} {p : PageId} (hpc : s.store.pc = .reading f p)
    {store : AsyncStore} (hs : s.store.resume = some store) :
    (s.next store .resume).2.Answers t (s.next store .resume).1 := by
  obtain ⟨hf, -, hnone⟩ := hc.reading hpc
  simp only [AsyncStore.Guarded, hpc] at hg
  rw [AsyncStore.resume, hpc] at hs
  cases hs
  rw [next, hpc]
  obtain ⟨pool, page, hv, heq⟩ := h.during.reading hpc
  obtain ⟨s₁, ha, rfl⟩ := acquireFrame_of_vacate hv
  obtain ⟨hl, -⟩ := h.wanted (.fetch p) (by rw [hpc]; rfl)
  -- no write of the page is in flight, so that both files have what was written to it last
  have hdata : s.store.disk.readPage p = s.memory p :=
    h.shows.stored (fun w hw ↦ (hg w hw).2) (AsyncStore.settled_of_none hnone)
  have hdata' : s₁.disk.readPage p = s.memory p := by
    rw [h.memory_eq]
    refine (hp.shows.acquireFrame hp.holds ha).absent ?_
    rw [heq, setPage_pageTable] at hnone
    exact hnone
  refine h.arrive (c := .fetchPage p) s.store.disk
    { s₁ with pool := s₁.pool.install f p (s₁.disk.readPage p) }
    hf hnone hdata (fun _ ↦ rfl) ?_ ?_ trivial ?_ _ _
  · exact h.nextPageId_eq.trans (Store.acquireFrame_nextPageId ha).symm
  · rw [heq, hdata, hdata', install, install, setPage, setPage, setPage]
    simp
  · have hl : t.store.pool.pageTable.lookup p = none := hl
    rw [PoolLives.step, Store.fetchPage, hl, ha]

/-- `FlushAllPages` comes to the next page. -/
theorem flush (h : s.Follows t) (hc : s.store.Coherent) {p : PageId} {f : ℕ}
    {rest : List (Sigma fun _ : PageId ↦ ℕ)} (hpc : s.store.pc = .flushing (⟨p, f⟩ :: rest)) :
    ({ s with store := { s.store.flushFrame p f with pc := .flushing rest } } :
      AsyncLives).Follows t := by
  obtain ⟨done, hentries, heq⟩ := h.during.flushing hpc
  have hshows := h.shows.flushFrame hc (hc.flushing hpc ⟨p, f⟩ List.mem_cons_self)
  refine h.of_store ?_ ⟨done ++ [⟨p, f⟩], ?_, ?_⟩
    (hshows.of_pc (.flushing rest) (by rintro _ _ ⟨⟩) _) (by rintro _ ⟨⟩)
  · rw [AsyncStore.flushFrame]
    split <;> rfl
  · rw [hentries, List.append_assoc]
    rfl
  · dsimp only
    rw [AsyncStore.flushFrame_pool, heq, List.foldl_append]
    rfl

/-- `FlushAllPages` returns. -/
theorem flushAllPages_returns (h : s.Follows t) (hpc : s.store.pc = .flushing []) :
    ({ s with store := { s.store with posted := 0, pc := .idle } } : AsyncLives).Answers t
      (some (.flushAllPages, none)) := by
  obtain ⟨done, hentries, heq⟩ := h.during.flushing hpc
  rw [List.append_nil] at hentries
  refine ⟨trivial, _, rfl, ?_⟩
  exact
    { pins_eq := h.pins_eq
      memory_eq := h.memory_eq
      nextPageId_eq := by
        dsimp only
        rw [Store.flushAllPages_nextPageId, h.nextPageId_eq]
      during := by
        rw [AsyncStore.During]
        simp only
        rw [Store.flushAllPages, foldl_flushFrame_pool, hentries, heq]
      shows := h.shows.of_pc .idle (by rintro _ _ ⟨⟩) 0
      wanted := by rintro _ ⟨⟩ }

/-- The call under way goes on. -/
theorem resume (h : s.Follows t) (hp : t.Persistent) (hc : s.store.Coherent)
    (hg : s.store.Guarded) {store : AsyncStore} (hs : s.store.resume = some store) :
    (s.next store .resume).2.Answers t (s.next store .resume).1 := by
  have hres := hs
  rw [AsyncStore.resume] at hs
  split at hs
  · exact absurd hs (by simp)
  · rename_i f tgt hpc
    rw [next, hpc]
    split at hs
    · cases hs
      exact h
    · cases hs
      exact h.evict hp hc hpc
  · rename_i f p hpc
    rw [next, hpc]
    cases hs
    exact h.reset hc hpc _ _
  · rename_i f hpc
    exact h.newPage_returns hc hpc hres
  · rename_i f p hpc
    exact h.fetchPage_returns hp hc hg hpc hres
  · rename_i p f rest hpc
    rw [next, hpc]
    cases hs
    exact h.flush hc hpc
  · rename_i hpc
    rw [next, hpc]
    cases hs
    exact h.flushAllPages_returns hpc

/-- **One event**, and what it says. -/
theorem step (h : s.Follows t) (hp : t.Persistent) (hc : s.store.Coherent) (hg : s.store.Guarded)
    (hclean : s.Clean e) (hs : AsyncLives.step s e = some (o, s')) : s'.Answers t o := by
  obtain ⟨ha, store, hst, heq⟩ := step_eq_some hs
  rw [Prod.ext_iff] at heq
  obtain ⟨rfl, rfl⟩ := heq
  cases e with
  | newPage =>
    obtain ⟨hpc, rfl⟩ := AsyncStore.step_call hst
    exact h.newPage hp hc hpc hclean
  | fetchPage p =>
    obtain ⟨hpc, rfl⟩ := AsyncStore.step_call hst
    exact h.fetchPage hp hc hpc p
  | write pin data =>
    cases hst
    exact h.write hp hc ha data
  | unpinPage pin isDirty =>
    obtain ⟨hpc, rfl⟩ := AsyncStore.step_call hst
    exact h.unpinPage hp hpc ha hclean
  | flushPage p =>
    obtain ⟨hpc, rfl⟩ := AsyncStore.step_call hst
    exact h.flushPage hc hpc p
  | flushAllPages =>
    obtain ⟨hpc, rfl⟩ := AsyncStore.step_call hst
    exact h.flushAllPages hpc
  | resume => exact h.resume hp hc hg (AsyncStore.step_resume hst)
  | kernel w =>
    obtain ⟨hw, rfl⟩ := AsyncStore.step_kernel hst
    exact h.kernel hc hw

end Follows

/-- What holds in every state, with the other pool at the point where the calls that have returned
have brought it. -/
structure Mirrors (s : AsyncLives) (t : PoolLives) : Prop where
  follows : s.Follows t
  persistent : t.Persistent
  coherent : s.store.Coherent
  guarded : s.store.Guarded

theorem mirrors_opened (poolSize : ℕ) (file : PageId → Option PageData) :
    (opened poolSize file).Mirrors (.opened poolSize file) where
  follows :=
    { pins_eq := rfl
      memory_eq := rfl
      nextPageId_eq := rfl
      during := rfl
      shows :=
        { resident := fun hp ↦ absurd hp (by simp [opened, AsyncStore.start, create])
          stored := fun _ _ ↦ rfl }
      wanted := by rintro _ ⟨⟩ }
  persistent := PoolLives.persistent_opened poolSize file
  coherent := AsyncStore.coherent_start poolSize file
  guarded := trivial

/-- What a step of the clients is guarded by. -/
def Guard (s : AsyncLives) (e : Event) : Prop := s.Clear e ∧ s.Clean e ∧ s.Countable e

namespace Mirrors

/-- The pool itself stays in order. -/
theorem store (h : s.Mirrors t) (hguard : s.Guard e) (hs : AsyncLives.step s e = some (o, s')) :
    s'.store.Coherent ∧ s'.store.Guarded := by
  obtain ⟨-, store, hst, heq⟩ := step_eq_some hs
  obtain rfl : s'.store = store := by
    rw [← next_store s store e, ← heq]
  refine ⟨h.coherent.step h.guarded hguard.1 ?_ hst, h.guarded.step hguard.1 hst⟩
  intro he
  cases e with
  | newPage => exact hguard.2.1.1
  | fetchPage p => cases he
  | write pin data => cases he
  | unpinPage pin isDirty => cases he
  | flushPage p => cases he
  | flushAllPages => cases he
  | resume => cases he
  | kernel w => cases he

/-- A step in which no call returns. -/
theorem silent (h : s.Mirrors t) (hguard : s.Guard e)
    (hs : AsyncLives.step s e = some (none, s')) : s'.Mirrors t := by
  obtain ⟨hcoherent, hguarded⟩ := h.store hguard hs
  exact ⟨h.follows.step h.persistent h.coherent h.guarded hguard.2.1 hs, h.persistent, hcoherent,
    hguarded⟩

/-- A step in which a call returns. -/
theorem speak (h : s.Mirrors t) (hguard : s.Guard e) {c : PoolLives.Event} {r : PoolLives.Result}
    (hs : AsyncLives.step s e = some (some (c, r), s')) :
    (t.Clean c ∧ t.Countable c) ∧ ∃ t', t.step c = some (r, t') ∧ s'.Mirrors t' := by
  obtain ⟨hcoherent, hguarded⟩ := h.store hguard hs
  obtain ⟨hclean, t', ht, hfollows⟩ :=
    h.follows.step h.persistent h.coherent h.guarded hguard.2.1 hs
  have hcount : t.Countable c := by
    intro r' t'' ht' p
    cases ht.symm.trans ht'
    rw [← hfollows.pins_eq]
    exact hguard.2.2 _ _ hs p
  exact ⟨⟨hclean, hcount⟩, t', ht, hfollows, (h.persistent.step hclean hcount ht).1, hcoherent,
    hguarded⟩

end Mirrors

variable {poolSize : ℕ} {file : PageId → Option PageData} {es : List Event} {os : List Said}

theorem mirrors_of_run (hr : run step (opened poolSize file) es = some (os, s))
    (hguard : Along step Guard (opened poolSize file) es) :
    ∃ t, run PoolLives.step (.opened poolSize file) ((os.filterMap id).map Prod.fst) =
        some ((os.filterMap id).map Prod.snd, t) ∧
      Along PoolLives.step (fun t c ↦ t.Clean c ∧ t.Countable c) (.opened poolSize file)
        ((os.filterMap id).map Prod.fst) ∧ s.Mirrors t :=
  run_stuttering (fun _ _ _ _ h hP hs ↦ h.silent hP hs) (fun _ _ _ _ _ _ h hP hs ↦ h.speak hP hs)
    (mirrors_opened poolSize file) hguard hr

/-- **A pool over asynchronous writes is one that writes at once.**  For every pool size, every file
and every run of the clients, with the steps of the calls, the clients' own writes and the kernel's
interleaved in any order: if all calls are `Clear`, then what has returned so far, in the order in
which it has returned and with the pages and bytes that it has returned, is a run of a pool of the
same size over the same file that takes every write at once.  The two end with the same pins and the
same memory of what was written last, and the clients keep there what the transparency of that pool
asks of them. -/
theorem refines_of_run (hr : run step (opened poolSize file) es = some (os, s))
    (hclear : Along step Clear (opened poolSize file) es)
    (hclean : Along step Clean (opened poolSize file) es)
    (hc : Along step Countable (opened poolSize file) es) :
    ∃ t, run PoolLives.step (.opened poolSize file) ((os.filterMap id).map Prod.fst) =
        some ((os.filterMap id).map Prod.snd, t) ∧
      Along PoolLives.step (fun t c ↦ t.Clean c ∧ t.Countable c) (.opened poolSize file)
        ((os.filterMap id).map Prod.fst) ∧ s.pins = t.pins ∧ s.memory = t.memory := by
  obtain ⟨t, hrt, hguard, h⟩ := mirrors_of_run hr (hclear.and (hclean.and hc))
  exact ⟨t, hrt, hguard, h.follows.pins_eq, h.follows.memory_eq⟩

/-- A page is created in a pool of one frame and written to, and evicted by the next one. -/
theorem refines_of_run_one :
    ∃ s os, run step (opened 1 fun _ ↦ none) [.newPage, .resume, .write ⟨0, 0, false⟩ fun _ ↦ 1,
        .unpinPage ⟨0, 0, true⟩ true, .newPage, .kernel ⟨0, 0⟩, .resume, .resume] = some (os, s) ∧
      ∃ t, run PoolLives.step (.opened 1 fun _ ↦ none) ((os.filterMap id).map Prod.fst) =
          some ((os.filterMap id).map Prod.snd, t) ∧
        Along PoolLives.step (fun t c ↦ t.Clean c ∧ t.Countable c) (.opened 1 fun _ ↦ none)
          ((os.filterMap id).map Prod.fst) ∧ s.pins = t.pins ∧ s.memory = t.memory := by
  have hclear : Along step Clear (opened 1 fun _ ↦ none) [.newPage, .resume,
      .write ⟨0, 0, false⟩ fun _ ↦ 1, .unpinPage ⟨0, 0, true⟩ true, .newPage, .kernel ⟨0, 0⟩,
      .resume, .resume] :=
    .cons (AsyncStore.clear_of_rest rfl rfl _) rfl (.cons trivial rfl (.cons trivial rfl
      (.cons trivial rfl (.cons (AsyncStore.clear_of_rest rfl rfl _) rfl (.cons trivial rfl
        (.cons trivial rfl (.cons trivial rfl trivial)))))))
  have hclean : Along step Clean (opened 1 fun _ ↦ none) [.newPage, .resume,
      .write ⟨0, 0, false⟩ fun _ ↦ 1, .unpinPage ⟨0, 0, true⟩ true, .newPage, .kernel ⟨0, 0⟩,
      .resume, .resume] :=
    .cons ⟨rfl, rfl⟩ rfl (.cons trivial rfl (.cons trivial rfl (.cons (fun _ ↦ rfl) rfl
      (.cons ⟨rfl, rfl⟩ rfl (.cons trivial rfl (.cons trivial rfl (.cons trivial rfl trivial)))))))
  exact ⟨_, _, rfl, refines_of_run rfl hclear hclean (along_countable (by decide))⟩

/-- What a call has returned is what the flat memory holds. -/
def Truthful (s : AsyncLives) : Said → Prop
  | none => True
  | some (c, r) => ∀ p data, r = some (p, data) →
      (c = .newPage → data = Block.zero) ∧ ∀ q, c = .fetchPage q → p = q ∧ data = s.memory q

theorem Mirrors.truthful (h : s.Mirrors t) (hguard : s.Guard e)
    (hs : AsyncLives.step s e = some (o, s')) : s.Truthful o := by
  cases o with
  | none => trivial
  | some said =>
    obtain ⟨c, r⟩ := said
    obtain ⟨⟨hclean, hcount⟩, t', ht, -⟩ := h.speak hguard hs
    rw [Truthful, h.follows.memory_eq]
    exact (h.persistent.step hclean hcount ht).2

/-- **Asynchronous writes are transparent.**  Whenever `FetchPage` returns a page, it is the one
asked for, with the bytes that its clients have written to it last, or those that were in the file
at first; and a page from `NewPage` is all zeros. -/
theorem truthful_of_run (hr : run step (opened poolSize file) es = some (os, s))
    (hs : step s e = some (o, s')) (hclear : Along step Clear (opened poolSize file) (es ++ [e]))
    (hclean : Along step Clean (opened poolSize file) (es ++ [e]))
    (hc : Along step Countable (opened poolSize file) (es ++ [e])) : s.Truthful o := by
  have hguard := along_concat.mp (hclear.and (hclean.and hc))
  obtain ⟨t, -, -, h⟩ := mirrors_of_run hr hguard.1
  exact h.truthful (hguard.2 os s hr) hs

/-- The page that was evicted is fetched again. -/
theorem truthful_of_run_one :
    ∃ s os o s', run step (opened 1 fun _ ↦ none) [.newPage, .resume,
        .write ⟨0, 0, false⟩ fun _ ↦ 1, .unpinPage ⟨0, 0, true⟩ true, .newPage, .kernel ⟨0, 0⟩,
        .resume, .resume, .unpinPage ⟨1, 0, false⟩ false, .fetchPage 0, .resume] = some (os, s) ∧
      step s .resume = some (o, s') ∧ s.Truthful o := by
  have hclear : Along step Clear (opened 1 fun _ ↦ none) ([.newPage, .resume,
      .write ⟨0, 0, false⟩ fun _ ↦ 1, .unpinPage ⟨0, 0, true⟩ true, .newPage, .kernel ⟨0, 0⟩,
      .resume, .resume, .unpinPage ⟨1, 0, false⟩ false, .fetchPage 0, .resume] ++ [.resume]) :=
    .cons (AsyncStore.clear_of_rest rfl rfl _) rfl (.cons trivial rfl (.cons trivial rfl
      (.cons trivial rfl (.cons (AsyncStore.clear_of_rest rfl rfl _) rfl (.cons trivial rfl
        (.cons trivial rfl (.cons trivial rfl (.cons trivial rfl
          (.cons (AsyncStore.clear_of_rest rfl rfl _) rfl (.cons trivial rfl
            (.cons trivial rfl trivial)))))))))))
  have hclean : Along step Clean (opened 1 fun _ ↦ none) ([.newPage, .resume,
      .write ⟨0, 0, false⟩ fun _ ↦ 1, .unpinPage ⟨0, 0, true⟩ true, .newPage, .kernel ⟨0, 0⟩,
      .resume, .resume, .unpinPage ⟨1, 0, false⟩ false, .fetchPage 0, .resume] ++ [.resume]) :=
    .cons ⟨rfl, rfl⟩ rfl (.cons trivial rfl (.cons trivial rfl (.cons (fun _ ↦ rfl) rfl
      (.cons ⟨rfl, rfl⟩ rfl (.cons trivial rfl (.cons trivial rfl (.cons trivial rfl
        (.cons (fun h ↦ absurd h (by decide)) rfl (.cons trivial rfl (.cons trivial rfl
          (.cons trivial rfl trivial)))))))))))
  exact ⟨_, _, _, _, rfl, rfl,
    truthful_of_run rfl rfl hclear hclean (along_countable (by decide))⟩

end AsyncLives

end StingDB
