import StingDB.Storage.BufferPool

/-!
# Where the frames of a pool are

`Represents` is what holds of a pool whose clients keep to the rules: they release only pins they
have, and no id that `NewPage` returns is in the pool already.  `Placed` is what is left when they
do not, and when calls break off in the middle: a mapped frame carries the id of its page, so that
no frame is mapped twice; a frame in `free_list_` is there once, and neither mapped nor in
`lru_replacer_`; and a frame that has been taken for another page (`limbo`) is neither free nor
mapped.
-/

set_option autoImplicit false

namespace StingDB

namespace BufferPoolManager

/-- What every pool satisfies, given the frame, if any, that has been taken for a page which is not
in it yet. -/
structure Placed (b : BufferPoolManager) (limbo : Option ℕ) : Prop where
  pageId_eq : ∀ {p f}, b.pageTable.lookup p = some f → (b.pages f).pageId = p
  free_nodup : b.freeList.Nodup
  free_unmapped : ∀ {p f}, f ∈ b.freeList → b.pageTable.lookup p ≠ some f
  free_lru : ∀ {f}, f ∈ b.freeList → f ∉ b.lruReplacer
  limbo_free : ∀ {f}, limbo = some f → f ∉ b.freeList
  limbo_unmapped : ∀ {p f}, limbo = some f → b.pageTable.lookup p ≠ some f

theorem placed_create (poolSize : ℕ) : (create poolSize).Placed none where
  pageId_eq h := absurd h (by simp [create])
  free_nodup := List.nodup_range
  free_unmapped _ := by simp [create]
  free_lru _ := by simp [create]
  limbo_free h := by cases h
  limbo_unmapped h := by cases h

namespace Placed

variable {b b' : BufferPoolManager} {limbo : Option ℕ} {p : PageId} {f : ℕ}

theorem injective (h : b.Placed limbo) {q : PageId} (hp : b.pageTable.lookup p = some f)
    (hq : b.pageTable.lookup q = some f) : p = q :=
  (h.pageId_eq hp).symm.trans (h.pageId_eq hq)

/-- A pool with the same pages in the same frames.  There may be other candidates for eviction, but
only mapped frames become new ones. -/
theorem congr (h : b.Placed limbo) (htable : b'.pageTable = b.pageTable)
    (hfree : b'.freeList = b.freeList) (hid : ∀ g, (b'.pages g).pageId = (b.pages g).pageId)
    (hlru : ∀ g ∈ b'.lruReplacer, g ∈ b.lruReplacer ∨ ∃ p, b.pageTable.lookup p = some g) :
    b'.Placed limbo where
  pageId_eq hq := (hid _).trans (h.pageId_eq (htable ▸ hq))
  free_nodup := hfree ▸ h.free_nodup
  free_unmapped hg hq := h.free_unmapped (hfree ▸ hg) (htable ▸ hq)
  free_lru hf hg := by
    rw [hfree] at hf
    rcases hlru _ hg with hg | ⟨p, hp⟩
    · exact h.free_lru hf hg
    · exact h.free_unmapped hf hp
  limbo_free hl := hfree ▸ h.limbo_free hl
  limbo_unmapped hl := htable ▸ h.limbo_unmapped hl

theorem setPage (h : b.Placed limbo) {page : Page} (hid : page.pageId = (b.pages f).pageId) :
    (b.setPage f page).Placed limbo := by
  refine h.congr rfl rfl (fun g ↦ ?_) fun g hg ↦ Or.inl hg
  by_cases hg : g = f
  · subst hg
    rw [setPage_pages_self]
    exact hid
  · rw [setPage_pages_of_ne _ _ _ hg]

theorem pin (h : b.Placed limbo) : (b.pin f).Placed limbo := by
  let page := b.pages f
  have hset : (b.setPage f { page with pinCount := i32 (page.pinCount + 1) }).Placed limbo :=
    h.setPage rfl
  exact hset.congr rfl rfl (fun _ ↦ rfl) fun g hg ↦ Or.inl (List.mem_of_mem_filter hg)

theorem unpin (h : b.Placed limbo) (hp : b.pageTable.lookup p = some f) (d : Bool) :
    (b.unpin f d).Placed limbo := by
  refine h.congr (by simp) (by simp) (by simp) fun g hg ↦ ?_
  rcases b.mem_lruReplacer_unpin f d hg with rfl | hg
  · exact Or.inr ⟨p, hp⟩
  · exact Or.inl hg

/-- The front of `free_list_` goes into limbo. -/
theorem takeFree (h : b.Placed none) {rest : List ℕ} (hf : b.freeList = f :: rest) :
    { b with freeList := rest }.Placed (some f) := by
  have hnodup : f ∉ rest ∧ rest.Nodup := List.nodup_cons.mp (hf ▸ h.free_nodup)
  have hmem : ∀ {g}, g ∈ rest → g ∈ b.freeList := fun hg ↦ hf ▸ List.mem_cons_of_mem _ hg
  have hself : f ∈ b.freeList := hf ▸ List.mem_cons_self
  exact
    { pageId_eq := h.pageId_eq
      free_nodup := hnodup.2
      free_unmapped := fun hg ↦ h.free_unmapped (hmem hg)
      free_lru := fun hg ↦ h.free_lru (hmem hg)
      limbo_free := by rintro _ ⟨⟩; exact hnodup.1
      limbo_unmapped := by rintro _ _ ⟨⟩; exact h.free_unmapped hself }

/-- The back of `lru_replacer_` is taken. -/
theorem takeBack (h : b.Placed none) {rest : List ℕ} (hl : b.lruReplacer = rest ++ [f]) :
    { b with lruReplacer := rest }.Placed none :=
  h.congr rfl rfl (fun _ ↦ rfl) fun _ hg ↦ Or.inl (hl ▸ List.mem_append_left _ hg)

/-- The page in a frame that is not free goes out of the table, and the frame into limbo. -/
theorem unmapVictim (h : b.Placed none) (hf : f ∉ b.freeList) :
    (b.unmapVictim f).Placed (some f) where
  pageId_eq hq := h.pageId_eq (lookup_unmapVictim.mp hq).2
  free_nodup := h.free_nodup
  free_unmapped hg hq := h.free_unmapped hg (lookup_unmapVictim.mp hq).2
  free_lru := h.free_lru
  limbo_free := by rintro _ ⟨⟩; exact hf
  limbo_unmapped := by
    rintro q _ ⟨⟩ hq
    obtain ⟨hne, hmap⟩ := lookup_unmapVictim.mp hq
    exact hne (h.pageId_eq hmap).symm

/-- A page comes into the frame in limbo. -/
theorem install (h : b.Placed (some f)) (p : PageId) (data : PageData) :
    (b.install f p data).Placed none where
  pageId_eq := by
    intro q g hq
    rcases lookup_install.mp hq with ⟨rfl, rfl⟩ | ⟨-, hold⟩
    · rw [install_pages_self]
    · have hg : g ≠ f := by
        rintro rfl
        exact h.limbo_unmapped rfl hold
      rw [install_pages_of_ne _ _ _ hg]
      exact h.pageId_eq hold
  free_nodup := h.free_nodup
  free_unmapped := by
    intro q g hg hq
    rcases lookup_install.mp hq with ⟨rfl, rfl⟩ | ⟨-, hq⟩
    · exact h.limbo_free rfl hg
    · exact h.free_unmapped hg hq
  free_lru := h.free_lru
  limbo_free := by rintro _ ⟨⟩
  limbo_unmapped := by rintro _ _ ⟨⟩

end Placed

end BufferPoolManager

end StingDB
