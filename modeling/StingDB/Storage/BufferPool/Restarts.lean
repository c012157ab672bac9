import StingDB.Storage.BufferPool.FreshIds
import StingDB.Storage.BufferPool.Transparency

/-!
# Restarts

What a client finds in its pages when the pool has been shut down and opened again on its file, as
`BufferPoolManagerTest.BasicFetchPage` does.  A restart is one of the things that can happen in a
run: `~BufferPoolManager` writes the dirty pages back, and a new pool, of another size perhaps,
starts with empty frames, no pins and the id counter at zero.

`persistent_of_run` has the flat memory of the clients survive any number of restarts, from any
file.  The clients must have released what they have written to as dirty, before a restart as
before an eviction; and the id that `NewPage` is about to return must be of a page nobody has used,
for which the code does nothing after a restart (see `Store.newPage_fresh`).
-/

set_option autoImplicit false

namespace StingDB

open Machine

/-! ## All pages are clean after `FlushAllPages` -/

namespace Store

/-- Writing a page back leaves no page dirty that was clean, and not the page itself. -/
theorem flushFrame_isDirty (s : Store) (p : PageId) (f g : ℕ) :
    ((s.flushFrame p f).pool.pages g).isDirty = ((s.pool.pages g).isDirty && decide (g ≠ f)) := by
  rw [flushFrame]
  by_cases hg : g = f
  · subst hg
    cases hd : (s.pool.pages g).isDirty <;> simp [hd]
  · cases hd : (s.pool.pages f).isDirty <;> simp [hg, BufferPoolManager.setPage_pages_of_ne]

theorem flushAllPages_isDirty {s : Store} {p : PageId} {f : ℕ}
    (hp : s.pool.pageTable.lookup p = some f) :
    (s.flushAllPages.pool.pages f).isDirty = false := by
  suffices hall : ∀ (l : List (Sigma fun _ : PageId ↦ ℕ)) (s' : Store),
      ((s'.pool.pages f).isDirty = false ∨ ∃ e ∈ l, e.2 = f) →
        ((l.foldl (fun s e ↦ s.flushFrame e.1 e.2) s').pool.pages f).isDirty = false from
    hall _ s (Or.inr ⟨⟨p, f⟩, AList.mem_lookup_iff.mp hp, rfl⟩)
  intro l
  induction l with
  | nil =>
    rintro s' (h | ⟨e, he, -⟩)
    · exact h
    · exact absurd he List.not_mem_nil
  | cons e l ih =>
    intro s' h
    refine ih (s'.flushFrame e.1 e.2) ?_
    rw [flushFrame_isDirty]
    rcases h with h | ⟨e', he', rfl⟩
    · exact Or.inl (by rw [h, Bool.false_and])
    · rcases List.mem_cons.mp he' with rfl | he'
      · exact Or.inl (by simp)
      · exact Or.inr ⟨e', he', rfl⟩

/-- `~BufferPoolManager`, and a new pool on the file. -/
def restart (s : Store) (poolSize : ℕ) : Store := opened poolSize s.flushAllPages.disk.file

end Store

/-! ## Clients that see restarts -/

/-- A store, its clients and their memory. -/
structure PoolLives where
  /-- The pool and the file. -/
  store : Store
  /-- The pins that have been taken and not released. -/
  pins : List Pin := []
  /-- For each page the last bytes that a client has written to it, or those that were in the file
  at first.  Nothing reads this. -/
  memory : PageId → PageData

namespace PoolLives

/-- A pool that has just been constructed, over a file. -/
def opened (poolSize : ℕ) (file : PageId → Option PageData) : PoolLives :=
  { store := .opened poolSize file, memory := fun p ↦ (file p).getD Block.zero }

/-- What can happen. -/
inductive Event where
  | newPage
  | fetchPage (pageId : PageId)
  | write (pin : Pin) (data : PageData)
  | unpinPage (pin : Pin) (isDirty : Bool)
  | flushPage (pageId : PageId)
  | flushAllPages
  | restart (poolSize : ℕ)

/-- What a call returns: a page, by its id and its bytes, if it is one that does. -/
abbrev Result := Option (PageId × PageData)

/-- The state when the pool has returned the page `pageId`, which is in the frame `frameId`. -/
def take (s : PoolLives) (store : Store) (pageId : PageId) (frameId : ℕ) : Result × PoolLives :=
  (some (pageId, (store.pool.pages frameId).data),
    { s with store, pins := ⟨pageId, frameId, false⟩ :: s.pins })

/-- One event. -/
def step (s : PoolLives) : Event → Option (Result × PoolLives)
  | .newPage =>
    match s.store.newPage with
    | (none, store) => some (none, { s with store })
    | (some (pageId, frameId), store) => some (s.take store pageId frameId)
  | .fetchPage pageId =>
    match s.store.fetchPage pageId with
    | (none, store) => some (none, { s with store })
    | (some frameId, store) => some (s.take store pageId frameId)
  | .write pin data =>
    if pin ∈ s.pins then
      some (none, {
        store := s.store.writeFrame pin.frame data
        pins := { pin with modified := true } :: s.pins.erase pin
        memory := Function.update s.memory pin.page data })
    else none
  | .unpinPage pin isDirty =>
    if pin ∈ s.pins then
      some (none, { s with
        store := (s.store.unpinPage pin.page isDirty).2
        pins := s.pins.erase pin })
    else none
  | .flushPage pageId => some (none, { s with store := (s.store.flushPage pageId).2 })
  | .flushAllPages => some (none, { s with store := s.store.flushAllPages })
  | .restart poolSize => some (none, { s with store := s.store.restart poolSize, pins := [] })

/-- What the clients have to see to: that a new page is one nobody has used, and that what has been
written to is released as dirty, and before a restart. -/
def Clean (s : PoolLives) : Event → Prop
  | .newPage => s.store.pool.pageTable.lookup s.store.disk.nextPageId = none ∧
      s.memory s.store.disk.nextPageId = Block.zero
  | .unpinPage pin isDirty => pin.modified = true → isDirty = true
  | .restart _ => ∀ pin ∈ s.pins, pin.modified = false
  | _ => True

/-- No page has more pins than its counter can tell from one. -/
def Countable (s : PoolLives) (e : Event) : Prop :=
  ∀ o s', step s e = some (o, s') → ∀ p, heldBy s'.pins p ≤ 2 ^ 32

/-- What a call returns is what the flat memory holds. -/
def Truthful (s : PoolLives) (e : Event) (o : Result) : Prop :=
  ∀ p data, o = some (p, data) →
    (e = .newPage → data = Block.zero) ∧ (∀ q, e = .fetchPage q → p = q ∧ data = s.memory q)

/-- What holds between calls. -/
structure Persistent (s : PoolLives) : Prop where
  holds : s.store.pool.Holds s.pins none
  held_le : ∀ p, heldBy s.pins p ≤ 2 ^ 32
  shows : s.store.Shows s.pins s.memory

variable {s s' : PoolLives} {e : Event} {o : Result}

theorem opened_shows (poolSize : ℕ) {file : PageId → Option PageData} {memory : PageId → PageData}
    (h : ∀ p, (file p).getD Block.zero = memory p) :
    (Store.opened poolSize file).pool.Holds [] none ∧
      (Store.opened poolSize file).Shows [] memory := by
  have hempty : ∀ p f, (Store.opened poolSize file).pool.pageTable.lookup p ≠ some f :=
    fun p f hp ↦ absurd hp (by simp [Store.opened, BufferPoolManager.create])
  refine ⟨⟨BufferPoolManager.represents_create poolSize, fun _ hpin ↦ ?_⟩,
    fun hp ↦ absurd hp (hempty _ _), fun _ ↦ h _, fun hp ↦ absurd hp (hempty _ _)⟩
  exact absurd hpin List.not_mem_nil

theorem persistent_opened (poolSize : ℕ) (file : PageId → Option PageData) :
    (opened poolSize file).Persistent where
  holds := (opened_shows poolSize fun _ ↦ rfl).1
  held_le _ := Nat.zero_le _
  shows := (opened_shows poolSize fun _ ↦ rfl).2

namespace Persistent

/-- A page that is not resident comes into a frame, with the bytes the memory has for it. -/
theorem load (h : s.Persistent) {p : PageId} {f : ℕ} {s₁ : Store}
    (hp : s.store.pool.pageTable.lookup p = none) (ha : s.store.acquireFrame = some (f, s₁))
    (disk : DiskManager) (hdisk : ∀ q, disk.readPage q = s₁.disk.readPage q) {data : PageData}
    (hdata : data = s.memory p) :
    (s₁.pool.install f p data).Holds (⟨p, f, false⟩ :: s.pins) none ∧
      Store.Shows { pool := s₁.pool.install f p data, disk } (⟨p, f, false⟩ :: s.pins)
        s.memory := by
  have hnone : s₁.pool.pageTable.lookup p = none := by
    rw [Option.eq_none_iff_forall_ne_some]
    intro g hg
    rw [((h.holds.represents.lookup_acquireFrame ha).mp hg).1] at hp
    cases hp
  have hholds := h.holds.acquireFrame ha
  exact ⟨hholds.install hnone data,
    (h.shows.acquireFrame h.holds ha).install hholds hnone disk hdisk hdata⟩

theorem flushAllPages (h : s.Persistent) :
    s.store.flushAllPages.Shows s.pins s.memory ∧ s.store.flushAllPages.pool.Holds s.pins none :=
  Store.flushAllPages_induction
    (P := fun st ↦ st.Shows s.pins s.memory ∧ st.pool.Holds s.pins none) ⟨h.shows, h.holds⟩
    fun _ p f hpt hst hp ↦ ⟨hst.1.flushFrame hst.2 (hpt ▸ hp), hst.2.flushFrame p f⟩

/-- **What is in the file after a shutdown** is the memory of the clients. -/
theorem restart (h : s.Persistent) (hclean : ∀ pin ∈ s.pins, pin.modified = false) (p : PageId) :
    (s.store.flushAllPages.disk.file p).getD Block.zero = s.memory p := by
  obtain ⟨hshows, -⟩ := h.flushAllPages
  cases hp : s.store.pool.pageTable.lookup p with
  | none => exact hshows.absent (by rw [Store.flushAllPages_pageTable, hp])
  | some f =>
    refine hshows.clean (f := f) (by rw [Store.flushAllPages_pageTable, hp])
      (Store.flushAllPages_isDirty hp) fun pin hpin _ ↦ hclean pin hpin

theorem step (h : s.Persistent) (hclean : Clean s e) (hc : Countable s e)
    (hs : PoolLives.step s e = some (o, s')) : s'.Persistent ∧ Truthful s e o := by
  have hle := hc o s' hs
  cases e with
  | newPage =>
    rw [PoolLives.step] at hs
    split at hs
    · rename_i store hn
      cases hs
      obtain ⟨-, -, rfl⟩ | ⟨f, s₁, -, ho, -⟩ := Store.newPage_cases hn
      · exact ⟨h, by rintro _ _ ⟨⟩⟩
      · cases ho
    · rename_i p f store hn
      cases hs
      obtain ⟨-, ho, -⟩ | ⟨f', s₁, ha, ho, rfl⟩ := Store.newPage_cases hn
      · cases ho
      · cases ho
        have hnext : s₁.disk.nextPageId = s.store.disk.nextPageId :=
          Store.acquireFrame_nextPageId ha
        have hnone : s.store.pool.pageTable.lookup s₁.disk.nextPageId = none := by
          rw [hnext, hclean.1]
        have hzero : Block.zero = s.memory s₁.disk.nextPageId := by rw [hnext, hclean.2]
        obtain ⟨hholds, hshows⟩ := h.load hnone ha s₁.disk.allocatePage.2 (fun _ ↦ rfl) hzero
        refine ⟨⟨hholds, hle, hshows⟩, fun q data ho ↦ ?_⟩
        cases ho
        exact ⟨fun _ ↦ congrArg Page.data (s₁.pool.setPage_pages_self f _), by rintro _ ⟨⟩⟩
  | fetchPage p =>
    rw [PoolLives.step] at hs
    split at hs
    · rename_i store hf
      cases hs
      obtain ⟨f, -, ho, -⟩ | ⟨-, -, -, rfl⟩ | ⟨-, f, s₁, -, ho, -⟩ := Store.fetchPage_cases hf
      · cases ho
      · exact ⟨h, by rintro _ _ ⟨⟩⟩
      · cases ho
    · rename_i f store hf
      cases hs
      obtain ⟨f', hp, ho, rfl⟩ | ⟨-, -, ho, -⟩ | ⟨hp, f', s₁, ha, ho, rfl⟩ :=
        Store.fetchPage_cases hf
      · cases ho
        refine ⟨⟨h.holds.pin hp, hle, h.shows.pin⟩, fun q data ho ↦ ?_⟩
        cases ho
        refine ⟨by rintro ⟨⟩, fun q hq ↦ ?_⟩
        cases hq
        exact ⟨rfl, (h.shows.pin (p := p)).resident (f := f) hp⟩
      · cases ho
      · cases ho
        have hread : s₁.disk.readPage p = s.memory p := by
          refine (h.shows.acquireFrame h.holds ha).absent ?_
          rw [Option.eq_none_iff_forall_ne_some]
          intro g hg
          rw [((h.holds.represents.lookup_acquireFrame ha).mp hg).1] at hp
          cases hp
        obtain ⟨hholds, hshows⟩ := h.load hp ha s₁.disk (fun _ ↦ rfl) hread
        refine ⟨⟨hholds, hle, hshows⟩, fun q data ho ↦ ?_⟩
        cases ho
        refine ⟨by rintro ⟨⟩, fun q hq ↦ ?_⟩
        cases hq
        exact ⟨rfl, (congrArg Page.data (s₁.pool.setPage_pages_self f _)).trans hread⟩
  | write pin data =>
    rw [PoolLives.step] at hs
    split at hs
    · rename_i hpin
      cases hs
      exact ⟨⟨h.holds.write hpin data, hle, h.shows.write h.holds hpin data⟩, by rintro _ _ ⟨⟩⟩
    · cases hs
  | unpinPage pin isDirty =>
    rw [PoolLives.step] at hs
    split at hs
    · rename_i hpin
      have hp := h.holds.mapped pin hpin
      simp only [Store.unpinPage, hp] at hs
      cases hs
      exact ⟨⟨h.holds.unpin hpin (h.held_le _) isDirty, hle, h.shows.unpin hp hclean⟩,
        by rintro _ _ ⟨⟩⟩
    · cases hs
  | flushPage p =>
    simp only [PoolLives.step, Store.flushPage] at hs
    split at hs
    · cases hs
      exact ⟨h, by rintro _ _ ⟨⟩⟩
    · rename_i f hp
      cases hs
      exact ⟨⟨h.holds.flushFrame p f, hle, h.shows.flushFrame h.holds hp⟩, by rintro _ _ ⟨⟩⟩
  | flushAllPages =>
    cases hs
    obtain ⟨hshows, hholds⟩ := h.flushAllPages
    exact ⟨⟨hholds, hle, hshows⟩, by rintro _ _ ⟨⟩⟩
  | restart poolSize =>
    cases hs
    obtain ⟨hholds, hshows⟩ := opened_shows poolSize (h.restart hclean)
    exact ⟨⟨hholds, hle, hshows⟩, by rintro _ _ ⟨⟩⟩

end Persistent

/-- **Pages survive restarts.**  For every pool size, every file and every run of the clients, with
any number of restarts, pools of any sizes after them, and `FetchPage` of any ids: whenever
`FetchPage` returns a page it is the one asked for, with the bytes last written to it by any client
before or after the restarts, or those that were in the file at first; and a page from `NewPage`
is all zeros.  The clients release what they have written to as dirty, and have released it before
a restart; the id that `NewPage` is about to return is of a page nobody has used; and there are no
more than `2 ^ 32` pins on any page at any time.  Each write is in the file before the next call:
what the destructor does about writes in flight is not part of this. -/
theorem persistent_of_run {poolSize : ℕ} {file : PageId → Option PageData} {es : List Event}
    {os : List Result} (hr : run step (opened poolSize file) es = some (os, s))
    (hs : step s e = some (o, s'))
    (hclean : Along step Clean (opened poolSize file) (es ++ [e]))
    (hc : Along step Countable (opened poolSize file) (es ++ [e])) : Truthful s e o := by
  have hguard := along_concat.mp (hclean.and hc)
  have h : s.Persistent :=
    run_invariant (fun _ _ _ _ h hP hs ↦ (h.step hP.1 hP.2 hs).1) (persistent_opened poolSize file)
      hguard.1 hr
  obtain ⟨hclean, hc⟩ := hguard.2 os s hr
  exact (h.step hclean hc hs).2

/-- In a run of `n` events there are no more than `n` pins. -/
theorem along_countable {es : List Event} (h : s.pins.length + es.length ≤ 2 ^ 32) :
    Along step Countable s es := by
  induction es generalizing s with
  | nil => trivial
  | cons e es ih =>
    have hlen : ∀ o s', step s e = some (o, s') → s'.pins.length ≤ s.pins.length + 1 := by
      intro o s' hs
      cases e with
      | newPage =>
        rw [step] at hs
        split at hs <;> cases hs
        · exact Nat.le_succ _
        · exact le_rfl
      | fetchPage p =>
        rw [step] at hs
        split at hs <;> cases hs
        · exact Nat.le_succ _
        · exact le_rfl
      | write pin data =>
        rw [step] at hs
        split at hs <;> cases hs
        exact Nat.succ_le_succ List.length_erase_le
      | unpinPage pin isDirty =>
        rw [step] at hs
        split at hs <;> cases hs
        exact List.length_erase_le.trans (Nat.le_succ _)
      | flushPage p =>
        cases hs
        exact Nat.le_succ _
      | flushAllPages =>
        cases hs
        exact Nat.le_succ _
      | restart poolSize =>
        cases hs
        exact Nat.zero_le _
    rw [List.length_cons] at h
    refine ⟨fun o s' hs p ↦ ?_, fun o s' hs ↦ ih ?_⟩
    · have hle : heldBy s'.pins p ≤ s'.pins.length := List.countP_le_length
      have := hlen o s' hs
      omega
    · have := hlen o s' hs
      omega

/-- `BufferPoolManagerTest.BasicFetchPage`, with ones for the text. -/
theorem persistent_of_run_ten :
    ∃ s os o s', run step (opened 10 fun _ ↦ none) [.fetchPage 0, .write ⟨0, 0, false⟩ fun _ ↦ 1,
        .unpinPage ⟨0, 0, true⟩ true, .flushPage 0, .restart 10] = some (os, s) ∧
      step s (.fetchPage 0) = some (o, s') ∧ Truthful s (.fetchPage 0) o := by
  have hclean : Along step Clean (opened 10 fun _ ↦ none) ([.fetchPage 0,
      .write ⟨0, 0, false⟩ fun _ ↦ 1, .unpinPage ⟨0, 0, true⟩ true, .flushPage 0, .restart 10] ++
        [.fetchPage 0]) :=
    .cons trivial rfl (.cons trivial rfl (.cons (fun _ ↦ rfl) rfl (.cons trivial rfl
      (.cons (fun _ hpin ↦ absurd hpin List.not_mem_nil) rfl (.cons trivial rfl trivial)))))
  exact ⟨_, _, _, _, rfl, rfl, persistent_of_run rfl rfl hclean (along_countable (by decide))⟩

end PoolLives

end StingDB
