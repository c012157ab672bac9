import StingDB.Storage.BufferPool.DirtyPages

/-!
# What failing writes lose

What a page held when it was released as dirty, or has been given since, is *kept* if it is in a
resident frame that is still marked dirty, or in the file (`Kept`).  `failed_writes` says when that
is so in a whole run: whenever every write that fails is of bytes that the file holds already, and
only then.  The ids that `NewPage` returns must not be those of resident pages: a page in the pool
would become unreachable without any write failing.
-/

set_option autoImplicit false

namespace StingDB

open Machine BufferPoolManager

namespace DirtyPages

/-- What is kept where no write does harm. -/
structure Sound (s : DirtyPages) : Prop where
  mapped : Mapped s.store.pool none
  /-- A dirty page has been released as dirty, and holds what must not be lost. -/
  dirty : ∀ {p f}, s.store.pool.pageTable.lookup p = some f →
    (s.store.pool.pages f).isDirty = true →
    ∃ l, s.since p = some l ∧ (s.store.pool.pages f).data ∈ l
  kept : ∀ {p l}, s.since p = some l →
    (∃ f, s.store.pool.pageTable.lookup p = some f ∧ (s.store.pool.pages f).isDirty = true) ∨
      s.store.disk.readPage p ∈ l

theorem sound_start (poolSize : ℕ) (file : PageId → Option PageData) :
    (start poolSize file).Sound where
  mapped := mapped_create poolSize
  dirty h := absurd h (by simp [start, Store.opened, create])
  kept h := by cases h

namespace Sound

variable {s s' : DirtyPages} {e : (PageId → Bool) × Store.Call} {o : Option DiskError}

theorem to_kept (h : s.Sound) : s.Kept := by
  intro p l hl
  refine (h.kept hl).imp_left ?_
  rintro ⟨f, hp, hd⟩
  obtain ⟨l', hl', hmem⟩ := h.dirty hp hd
  cases hl.symm.trans hl'
  exact ⟨f, hp, hd, hmem⟩

/-- A call that does not change what must not be lost. -/
theorem of_secures (h : s.Sound) (hmapped : Mapped s'.store.pool none)
    (hsince : s'.since = s.since) (hs : Secures s.store s'.store) : s'.Sound where
  mapped := hmapped
  dirty hp hd := by
    obtain ⟨hp₀, hd₀, hdata⟩ := hs.dirty hp hd
    rw [hsince, hdata]
    exact h.dirty hp₀ hd₀
  kept := by
    intro p l hl
    rw [hsince] at hl
    rcases hs.read p with ⟨heq, hstay⟩ | ⟨f, hp, hd, heq⟩
    · rw [heq]
      refine (h.kept hl).imp_left ?_
      rintro ⟨f, hp, hd⟩
      exact ⟨f, hstay f hp hd⟩
    · obtain ⟨l', hl', hmem⟩ := h.dirty hp hd
      cases hl.symm.trans hl'
      rw [heq]
      exact Or.inr hmem

/-- A page is released as dirty: what it holds now is what must not be lost. -/
theorem unpin (h : s.Sound) {p : PageId} {f : ℕ}
    (hp : s.store.pool.pageTable.lookup p = some f) (hpos : 0 < (s.store.pool.pages f).pinCount) :
    DirtyPages.Sound
      { store := { s.store with pool := s.store.pool.unpin f true }
        since := Function.update s.since p (some [(s.store.pool.pages f).data]) } where
  mapped := h.mapped.unpin hp hpos true
  dirty := by
    intro q g hq hd
    dsimp only at hq hd ⊢
    rw [unpin_pageTable] at hq
    rw [unpin_data]
    by_cases hqp : q = p
    · subst hqp
      rw [Function.update_self, Option.some.inj (hq.symm.trans hp)]
      exact ⟨_, rfl, List.mem_cons_self⟩
    · have hgf : g ≠ f := by
        rintro rfl
        exact hqp (h.mapped.1.injective hq hp)
      rw [Function.update_of_ne hqp]
      simp only [unpin_isDirty, hgf, decide_false, Bool.and_false, Bool.or_false] at hd
      exact h.dirty hq hd
  kept := by
    intro q l hl
    dsimp only at hl ⊢
    rw [unpin_pageTable]
    by_cases hqp : q = p
    · subst hqp
      exact Or.inl ⟨f, hp, by simp [unpin_isDirty]⟩
    · rw [Function.update_of_ne hqp] at hl
      refine (h.kept hl).imp_left ?_
      rintro ⟨g, hg, hd⟩
      exact ⟨g, hg, by simp [unpin_isDirty, hd]⟩

/-- A client changes the bytes of a frame. -/
theorem write (h : s.Sound) (f : ℕ) (data : PageData) :
    DirtyPages.Sound
      { store := s.store.writeFrame f data, since := s.record (.write f data) } := by
  let p := (s.store.pool.pages f).pageId
  have hother : ∀ {g}, g ≠ f → (s.store.writeFrame f data).pool.pages g = s.store.pool.pages g :=
    fun hg ↦ setPage_pages_of_ne _ _ _ hg
  have hself : (s.store.writeFrame f data).pool.pages f = { s.store.pool.pages f with data } :=
    setPage_pages_self ..
  have hdirty : ∀ g, ((s.store.writeFrame f data).pool.pages g).isDirty =
      (s.store.pool.pages g).isDirty := by
    intro g
    by_cases hg : g = f
    · rw [hg, hself]
    · rw [hother hg]
  have hsince : ∀ q, s.record (.write f data) q =
      if q = p ∧ s.store.pool.pageTable.lookup p = some f then (s.since q).map (data :: ·)
      else s.since q := by
    intro q
    simp only [record]
    by_cases hmap : s.store.pool.pageTable.lookup p = some f
    · rw [if_pos hmap]
      by_cases hq : q = p
      · subst hq
        rw [if_pos ⟨rfl, hmap⟩, Function.update_self]
      · rw [if_neg fun hc ↦ hq hc.1, Function.update_of_ne hq]
    · rw [if_neg hmap, if_neg fun hc ↦ hmap hc.2]
  -- the frame is that of a page only if the page is the one it carries the id of
  have hframe : ∀ {q}, s.store.pool.pageTable.lookup q = some f →
      q = p ∧ s.store.pool.pageTable.lookup p = some f := by
    intro q hq
    have hid : q = p := (h.mapped.1.pageId_eq hq).symm
    exact ⟨hid, hid ▸ hq⟩
  refine ⟨h.mapped.setPage rfl rfl, fun {q g} hq hd ↦ ?_, fun {q l} hl ↦ ?_⟩
  · obtain ⟨l, hl, hmem⟩ := h.dirty hq ((hdirty g).symm.trans hd)
    dsimp only
    rw [hsince]
    by_cases hgf : g = f
    · subst hgf
      rw [if_pos (hframe hq), hl, hself]
      exact ⟨_, rfl, List.mem_cons_self⟩
    · rw [hother hgf]
      split
      · exact ⟨data :: l, by rw [hl]; rfl, List.mem_cons_of_mem _ hmem⟩
      · exact ⟨l, hl, hmem⟩
  · have hold : ∃ l₀, s.since q = some l₀ ∧ l₀ ⊆ l := by
      dsimp only at hl
      rw [hsince] at hl
      split at hl
      · obtain ⟨l₀, hl₀, rfl⟩ := Option.map_eq_some_iff.mp hl
        exact ⟨l₀, hl₀, List.subset_cons_self _ _⟩
      · exact ⟨l, hl, List.Subset.refl l⟩
    obtain ⟨l₀, hl₀, hsub⟩ := hold
    rcases h.kept hl₀ with ⟨g, hg, hd⟩ | hmem
    · exact Or.inl ⟨g, hg, (hdirty g).trans hd⟩
    · exact Or.inr (hsub hmem)

theorem step (h : s.Sound) (hfresh : s.Fresh e) (hharm : s.Harmless e)
    (hs : s.step e = some (o, s')) : s'.Sound := by
  obtain ⟨hmapped, hspec⟩ := step_spec h.mapped hfresh hs
  obtain ⟨fails, c⟩ := e
  by_cases hc : Marks c
  · obtain ⟨t, since⟩ := s'
    obtain ⟨hstep, hsince⟩ := step_eq_some.mp hs
    dsimp only at hstep hsince
    subst hsince
    obtain ⟨p, rfl⟩ | ⟨f, data, rfl⟩ := hc
    · rw [Store.tryStep] at hstep
      split at hstep
      · rename_i hpos
        cases hstep
        cases hp : s.store.pool.pageTable.lookup p with
        | none => simpa [Store.unpinPage, record, hp] using h
        | some f => simpa [Store.unpinPage, record, hp] using h.unpin hp (hpos f hp)
      · cases hstep
    · cases hstep
      exact h.write f data
  · obtain ⟨hsince, hsecures⟩ := hspec hc
    exact h.of_secures hmapped hsince (hsecures hharm)

/-- The page that was dirty is still so, or is in the file. -/
theorem secured (h : s.Sound) (hfresh : s.Fresh e) (hharm : s.Harmless e) : s.Secured e := by
  intro o s' hs p f hp hd
  obtain ⟨-, hspec⟩ := step_spec h.mapped hfresh hs
  obtain ⟨fails, c⟩ := e
  by_cases hc : Marks c
  · obtain ⟨t, since⟩ := s'
    obtain ⟨hstep, -⟩ := step_eq_some.mp hs
    dsimp only at hstep
    left
    obtain ⟨q, rfl⟩ | ⟨g, data, rfl⟩ := hc
    · rw [Store.tryStep] at hstep
      split at hstep
      · cases hstep
        rw [Store.unpinPage]
        split
        · exact ⟨hp, hd⟩
        · simp [unpin_isDirty, hp, hd]
      · cases hstep
    · cases hstep
      refine ⟨hp, ?_⟩
      by_cases hfg : f = g
      · subst hfg
        simpa [Store.writeFrame] using hd
      · simpa [Store.writeFrame, setPage_pages_of_ne _ _ _ hfg] using hd
  · rcases ((hspec hc).2 hharm).read p with ⟨-, hstay⟩ | ⟨g, hg, -, heq⟩
    · exact Or.inl (hstay f hp hd)
    · rw [Option.some.inj (hg.symm.trans hp)] at heq
      exact Or.inr heq

end Sound

/-- The page of the victim is not dirty after the call: it has to be in the file. -/
theorem Loads.read_of_kept {s t : Store} {fails : PageId → Bool} {f : ℕ} {pool : BufferPoolManager}
    (hload : Loads s fails t) (ht : s.pool.takeFrame = some (f, true, pool))
    (hfails : fails (s.pool.pages f).pageId = true)
    (hor : t.pool.pageTable.lookup (s.pool.pages f).pageId = some f ∧
        (t.pool.pages f).isDirty = true ∨
      t.disk.readPage (s.pool.pages f).pageId = (s.pool.pages f).data) :
    s.disk.readPage (s.pool.pages f).pageId = (s.pool.pages f).data := by
  obtain ⟨hnone, hread⟩ := hload.evicted f pool ht
  rcases hor with ⟨hq, -⟩ | heq
  · rw [hnone] at hq
    cases hq
  · exact (hread hfails).symm.trans heq

/-- Nor is a page that has been flushed. -/
theorem Flushes.read_of_kept {s t : Store} {fails : PageId → Bool} {frames : List ℕ} {p : PageId}
    {f : ℕ} (hflush : Flushes s fails frames t) (hf : f ∈ frames) (hfails : fails p = true)
    (hor : t.pool.pageTable.lookup p = some f ∧ (t.pool.pages f).isDirty = true ∨
      t.disk.readPage p = (s.pool.pages f).data) :
    s.disk.readPage p = (s.pool.pages f).data := by
  rcases hor with ⟨-, hd⟩ | heq
  · rw [hflush.clean f hf] at hd
    cases hd
  · exact (hflush.read_eq p hfails).symm.trans heq

/-- A write that fails and does harm leaves a page neither dirty nor in the file. -/
theorem harmless_of_secured {s : DirtyPages} {e : (PageId → Bool) × Store.Call}
    (h : Mapped s.store.pool none) (hfresh : s.Fresh e) (hs : s.Secured e) : s.Harmless e := by
  obtain ⟨fails, c⟩ := e
  intro p f ⟨hp, hd, hwrites⟩ hfails
  have hstep : ∀ {o t}, s.store.tryStep (completing fails, c) = some (o, t) →
      t.pool.pageTable.lookup p = some f ∧ (t.pool.pages f).isDirty = true ∨
        t.disk.readPage p = (s.store.pool.pages f).data :=
    fun {o t} ht ↦ hs o ⟨t, s.record c⟩ (step_eq_some.mpr ⟨ht, rfl⟩) p f hp hd
  cases c with
  | fetchPage q =>
    obtain ⟨hq, hevicts⟩ := hwrites
    rcases hc : s.store.tryFetchPage (completing fails) q with ⟨r, t⟩
    obtain ⟨⟨pool, ht⟩, rfl⟩ := hevicts
    obtain ⟨hnone, -⟩ | hload := fetchPage_completing h hq hc
    · rw [hnone] at ht
      cases ht
    · exact hload.read_of_kept ht hfails (hstep (by rw [Store.tryStep, hc]))
  | newPage =>
    rcases hc : s.store.tryNewPage (completing fails) with ⟨r, t⟩
    obtain ⟨⟨pool, ht⟩, rfl⟩ := hwrites
    obtain ⟨hnone, -⟩ | hload := newPage_completing h (hfresh rfl) hc
    · rw [hnone] at ht
      cases ht
    · exact hload.read_of_kept ht hfails (hstep (by rw [Store.tryStep, hc]))
  | flushPage q =>
    subst hwrites
    obtain ⟨t, ht, hflush⟩ := flushPage_completing fails h hp
    exact hflush.read_of_kept List.mem_cons_self hfails (hstep (by rw [Store.tryStep, ht]))
  | flushAllPages =>
    obtain ⟨t, ht, hflush⟩ := flushAllPages_completing fails h
    have hmem : f ∈ s.store.pool.pageTable.entries.map Sigma.snd :=
      List.mem_map.mpr ⟨⟨p, f⟩, AList.mem_lookup_iff.mp hp, rfl⟩
    exact hflush.read_of_kept hmem hfails (hstep (by rw [Store.tryStep, ht]))
  | unpinPage q d => exact absurd hwrites id
  | write g data => exact absurd hwrites id

/-- **What failing writes lose.**  For every pool size and file, every run of calls, and every
choice of the writes that fail, where `NewPage` never returns the id of a resident page: what must
not be lost is kept in every state, and no page stops being dirty in any step unless the file holds
its bytes, if and only if every write that fails is of bytes that the file holds already. -/
theorem failed_writes {poolSize : ℕ} {file : PageId → Option PageData}
    {es : List ((PageId → Bool) × Store.Call)}
    (hfresh : Along step Fresh (start poolSize file) es) :
    (Always step Kept (start poolSize file) es ∧ Along step Secured (start poolSize file) es) ↔
      Along step Harmless (start poolSize file) es := by
  refine ⟨fun h ↦ ?_, fun h ↦ ⟨?_, ?_⟩⟩
  · exact along_of_invariant (I := fun s : DirtyPages ↦ Mapped s.store.pool none)
      (fun s e hm hP ↦ harmless_of_secured hm hP.1 hP.2)
      (fun s e o s' hm hP hs ↦ (step_spec hm hP.1 hs).1) (mapped_create poolSize) (hfresh.and h.2)
  · exact always_of_invariant (fun s hs ↦ hs.to_kept)
      (fun s e o s' hI hP hs ↦ hI.step hP.1 hP.2 hs) (sound_start poolSize file) (hfresh.and h)
  · exact along_of_invariant (fun s e hI hP ↦ hI.secured hP.1 hP.2)
      (fun s e o s' hI hP hs ↦ hI.step hP.1 hP.2 hs) (sound_start poolSize file) (hfresh.and h)

/-- A page is created, gets these bytes, is released as dirty and flushed, and the write fails. -/
def flushFails (data : PageData) : List ((PageId → Bool) × Store.Call) :=
  [(fun _ ↦ false, .newPage), (fun _ ↦ false, .write 0 data), (fun _ ↦ false, .unpinPage 0 true),
    (fun _ ↦ true, .flushPage 0)]

theorem fresh_flushFails (data : PageData) :
    Along step Fresh (start 1 fun _ ↦ none) (flushFails data) :=
  ⟨fun _ ↦ rfl, fun _ _ _ ↦ ⟨(fun h ↦ by cases h), fun _ _ _ ↦ ⟨(fun h ↦ by cases h),
    fun _ _ _ ↦ ⟨(fun h ↦ by cases h), fun _ _ _ ↦ trivial⟩⟩⟩⟩

/-- The failing write does harm unless the bytes are the zeros that the file reads as. -/
theorem harmless_flushFails_iff {data : PageData} :
    Along step Harmless (start 1 fun _ ↦ none) (flushFails data) ↔ data = Block.zero := by
  constructor
  · rintro ⟨-, h⟩
    have hlast := ((h _ _ rfl).2 _ _ rfl).2 _ _ rfl
    exact (hlast.1 0 0 ⟨rfl, rfl, rfl⟩ rfl).symm
  · rintro rfl
    have hnone : ∀ {s : DirtyPages} {c : Store.Call}, s.Harmless (fun _ ↦ false, c) :=
      fun _ _ _ hfails ↦ by cases hfails
    refine ⟨hnone, fun _ _ hs ↦ ⟨hnone, fun _ _ hs' ↦ ⟨hnone, fun _ _ hs'' ↦ ⟨?_, ?_⟩⟩⟩⟩
    · cases hs
      cases hs'
      cases hs''
      rintro p f ⟨hp, -, hflush⟩ -
      cases hflush
      cases hp
      rfl
    · exact fun _ _ _ ↦ trivial

/-- The failing write loses nothing if the page has been left as it was, and a page of ones. -/
theorem failed_writes_one :
    (Always step Kept (start 1 fun _ ↦ none) (flushFails Block.zero) ∧
        Along step Secured (start 1 fun _ ↦ none) (flushFails Block.zero)) ∧
      ¬ (Always step Kept (start 1 fun _ ↦ none) (flushFails fun _ ↦ 1) ∧
        Along step Secured (start 1 fun _ ↦ none) (flushFails fun _ ↦ 1)) := by
  constructor
  · exact (failed_writes (fresh_flushFails Block.zero)).mpr (harmless_flushFails_iff.mpr rfl)
  · rw [failed_writes (fresh_flushFails fun _ ↦ 1), harmless_flushFails_iff]
    exact fun h ↦ absurd (congrFun h 0) (by decide)

/-- A page of ones is released as dirty and flushed, and the write fails: the page is marked clean,
and the file is empty.  Evicted and fetched again, it is a page of zeros. -/
theorem write_lost :
    ∃ s os, run step (start 1 fun _ ↦ none) [(fun _ ↦ false, .newPage),
        (fun _ ↦ false, .write 0 fun _ ↦ 1), (fun _ ↦ false, .unpinPage 0 true),
        (fun _ ↦ true, .flushPage 0)] = some (os, s) ∧ ¬ s.Kept ∧
      ∃ s' os', run step s [(fun _ ↦ false, .fetchPage 1), (fun _ ↦ false, .unpinPage 1 false),
          (fun _ ↦ false, .fetchPage 0)] = some (os', s') ∧
        s'.store.pool.pageTable.lookup 0 = some 0 ∧ (s'.store.pool.pages 0).data = Block.zero := by
  refine ⟨_, _, rfl, fun hkept ↦ ?_, _, _, rfl, rfl, rfl⟩
  rcases hkept 0 _ rfl with ⟨f, hp, hd, -⟩ | hmem
  · cases hp
    cases hd
  · have hzero := congrFun (List.mem_singleton.mp hmem) 0
    exact absurd hzero (by decide)

end DirtyPages

end StingDB
