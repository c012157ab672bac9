import StingDB.Storage.BufferPool.AsyncWrites

/-!
# What asynchronous writes write

Where the pool meets no hazard, the kernel writes to the place of a page only bytes of that page,
and a fetch returns nothing older than what the page held when it was last passed to
`WritePageAsync`.  `Coherent` is the invariant behind this: as long as a write is in flight its page
stays in the frame that the write is out of, and the file is up to date for all other pages.

This needs, besides `Clear`, that `NewPage` does not return the id of a page that is in the pool
already, which would put one page into two frames.
-/

set_option autoImplicit false

namespace StingDB

open Machine

/-- The frame that has been taken out of the table for another page. -/
def Pc.limbo : Pc → Option ℕ
  | .loading frameId _ => some frameId
  | .reading frameId _ => some frameId
  | _ => none

namespace AsyncStore

/-- The page that a frame is wanted for. -/
def wanted (s : AsyncStore) : Target → PageId
  | .fetch pageId => pageId
  | .new => s.disk.nextPageId

/-- What the pool relies on in the middle of a call. -/
def Poised (s : AsyncStore) : Prop :=
  match s.pc with
  | .idle => True
  | .waiting f t => s.pool.pageTable.lookup (s.pool.pages f).pageId = some f ∧
      f ∉ s.pool.freeList ∧ s.pool.pageTable.lookup (s.wanted t) = none
  | .loading f t => (∀ p, s.pool.pageTable.lookup p ≠ some f) ∧
      f ∉ s.pool.freeList ∧ s.pool.pageTable.lookup (s.wanted t) = none
  | .reading f p => (∀ q, s.pool.pageTable.lookup q ≠ some f) ∧
      f ∉ s.pool.freeList ∧ s.pool.pageTable.lookup p = none
  | .flushing rest => ∀ e ∈ rest, s.pool.pageTable.lookup e.1 = some e.2

/-- Which bytes are where. -/
structure Coherent (s : AsyncStore) : Prop where
  pageId_eq : ∀ {p f}, s.pool.pageTable.lookup p = some f → (s.pool.pages f).pageId = p
  lru_mapped : ∀ {f}, f ∈ s.pool.lruReplacer →
    s.pool.pageTable.lookup (s.pool.pages f).pageId = some f ∨ s.pc.limbo = some f
  free_nodup : s.pool.freeList.Nodup
  free_unmapped : ∀ {p f}, f ∈ s.pool.freeList → s.pool.pageTable.lookup p ≠ some f
  free_lru : ∀ {f}, f ∈ s.pool.freeList → f ∉ s.pool.lruReplacer
  /-- The page of a write in flight is still in the frame that the write is out of. -/
  inflight_mapped : ∀ w ∈ s.inflight, s.pool.pageTable.lookup w.page = some w.frame
  owner_eq : ∀ {p f}, s.pool.pageTable.lookup p = some f → s.owner f = some p
  /-- A resident page is no older than its last write. -/
  resident : ∀ {p f}, s.pool.pageTable.lookup p = some f → (s.pool.pages f).data ∈ s.since p
  /-- Nor is a page in the file, unless a write of it is in flight. -/
  stored : ∀ {p}, (∀ w ∈ s.inflight, w.page ≠ p) → s.disk.readPage p ∈ s.since p
  poised : s.Poised

/-- `NewPage` is called only when the id it is going to return is not that of a resident page. -/
def NewIsFresh (s : AsyncStore) (e : Event) : Prop :=
  e = .call .newPage → s.pool.pageTable.lookup s.disk.nextPageId = none

theorem Poised.congr {s s' : AsyncStore} (h : s.Poised) (hpc : s'.pc = s.pc)
    (htable : s'.pool.pageTable = s.pool.pageTable) (hfree : s'.pool.freeList = s.pool.freeList)
    (hid : ∀ g, (s'.pool.pages g).pageId = (s.pool.pages g).pageId)
    (hnext : s'.disk.nextPageId = s.disk.nextPageId) : s'.Poised := by
  have hwanted : ∀ t, s'.wanted t = s.wanted t := by
    intro t
    cases t with
    | fetch p => rfl
    | new => exact hnext
  unfold Poised at h ⊢
  rw [hpc, htable, hfree]
  cases hs : s.pc with
  | idle => trivial
  | waiting f t =>
    simp only [hs] at h ⊢
    rw [hid f, hwanted t]
    exact h
  | loading f t =>
    simp only [hs] at h ⊢
    rw [hwanted t]
    exact h
  | reading f p => simpa only [hs] using h
  | flushing rest => simpa only [hs] using h

/-- One of the pages has been given new contents. -/
theorem subset_update_cons (since : PageId → List PageData) (p : PageId) (data : PageData)
    (q : PageId) : since q ⊆ Function.update since p (data :: since p) q := by
  by_cases hqp : q = p
  · subst hqp
    rw [Function.update_self]
    exact List.subset_cons_self _ _
  · rw [Function.update_of_ne hqp]
    exact List.Subset.refl _

namespace Coherent

variable {s : AsyncStore} {p : PageId} {f : ℕ}

/-- What the pool is about to do may change while no frame is in limbo. -/
theorem of_pc (h : s.Coherent) (hl : s.pc.limbo = none) {pc : Pc}
    (hp : ({ s with pc } : AsyncStore).Poised) : ({ s with pc } : AsyncStore).Coherent :=
  { h with
    lru_mapped := fun hf ↦ Or.inl ((h.lru_mapped hf).resolve_right (by simp [hl]))
    poised := hp }

/-- A pool with the same pages in the same frames.  There may be other candidates for eviction, but
only mapped frames become new ones. -/
theorem of_pool (h : s.Coherent) {pool : BufferPoolManager}
    (htable : pool.pageTable = s.pool.pageTable) (hfree : pool.freeList = s.pool.freeList)
    (hpage : ∀ g, (pool.pages g).pageId = (s.pool.pages g).pageId ∧
      (pool.pages g).data = (s.pool.pages g).data)
    (hlru : ∀ g ∈ pool.lruReplacer,
      g ∈ s.pool.lruReplacer ∨ ∃ p, s.pool.pageTable.lookup p = some g) :
    ({ s with pool } : AsyncStore).Coherent where
  pageId_eq hq := (hpage _).1.trans (h.pageId_eq (htable ▸ hq))
  lru_mapped {g} hg := by
    dsimp only
    rw [htable, (hpage g).1]
    rcases hlru g hg with hg | ⟨p, hp⟩
    · exact h.lru_mapped hg
    · rw [h.pageId_eq hp]
      exact Or.inl hp
  free_nodup := hfree ▸ h.free_nodup
  free_unmapped hg hq := h.free_unmapped (hfree ▸ hg) (htable ▸ hq)
  free_lru hf hg := by
    dsimp only at hf
    rw [hfree] at hf
    rcases hlru _ hg with hg | ⟨p, hp⟩
    · exact h.free_lru hf hg
    · exact h.free_unmapped hf hp
  inflight_mapped w hw := htable ▸ h.inflight_mapped w hw
  owner_eq hq := h.owner_eq (htable ▸ hq)
  resident hq := (hpage _).2.symm ▸ h.resident (htable ▸ hq)
  stored := h.stored
  poised := h.poised.congr rfl htable hfree (fun g ↦ (hpage g).1) rfl

/-- A changed frame whose page and bytes are the same. -/
theorem setPage (h : s.Coherent) (f : ℕ) (page : Page)
    (hid : page.pageId = (s.pool.pages f).pageId) (hdata : page.data = (s.pool.pages f).data) :
    ({ s with pool := s.pool.setPage f page } : AsyncStore).Coherent := by
  refine h.of_pool rfl rfl (fun g ↦ ?_) fun g hg ↦ Or.inl hg
  by_cases hg : g = f
  · rw [hg, BufferPoolManager.setPage_pages_self]
    exact ⟨hid, hdata⟩
  · rw [BufferPoolManager.setPage_pages_of_ne _ _ _ hg]
    exact ⟨rfl, rfl⟩

theorem of_lru (h : s.Coherent) (lru : List ℕ) (hlru : ∀ g ∈ lru, g ∈ s.pool.lruReplacer) :
    ({ s with pool := { s.pool with lruReplacer := lru } } : AsyncStore).Coherent :=
  h.of_pool rfl rfl (fun _ ↦ ⟨rfl, rfl⟩) fun g hg ↦ Or.inl (hlru g hg)

theorem pin (h : s.Coherent) : ({ s with pool := s.pool.pin f } : AsyncStore).Coherent := by
  let page := s.pool.pages f
  have hset := h.setPage f { page with pinCount := i32 (page.pinCount + 1) } rfl rfl
  exact hset.of_lru _ fun g hg ↦ List.mem_of_mem_filter hg

theorem unpin (h : s.Coherent) (hp : s.pool.pageTable.lookup p = some f) (d : Bool) :
    ({ s with pool := s.pool.unpin f d } : AsyncStore).Coherent := by
  refine h.of_pool (by simp) (by simp) (fun g ↦ ⟨by simp, s.pool.unpin_data f d g⟩) fun g hg ↦ ?_
  rcases s.pool.mem_lruReplacer_unpin f d hg with rfl | hg
  · exact Or.inr ⟨p, hp⟩
  · exact Or.inl hg

/-- A resident page is passed to `WritePageAsync`. -/
theorem submit (h : s.Coherent) (hp : s.pool.pageTable.lookup p = some f) :
    (s.submit p f).Coherent :=
  { h with
    inflight_mapped := by
      intro w hw
      rcases List.mem_append.mp hw with hw | hw
      · exact h.inflight_mapped w hw
      · rw [List.mem_singleton.mp hw]
        exact hp
    resident := by
      intro q g hq
      show (s.pool.pages g).data ∈ Function.update s.since p [(s.pool.pages f).data] q
      by_cases hqp : q = p
      · subst hqp
        rw [Function.update_self, Option.some.inj (hq.symm.trans hp)]
        exact List.mem_cons_self
      · rw [Function.update_of_ne hqp]
        exact h.resident hq
    stored := by
      intro q hq
      have hqp : q ≠ p := by
        rintro rfl
        exact hq ⟨q, f⟩ (List.mem_append_right _ List.mem_cons_self) rfl
      show s.disk.readPage q ∈ Function.update s.since p [(s.pool.pages f).data] q
      rw [Function.update_of_ne hqp]
      exact h.stored fun w hw ↦ hq w (List.mem_append_left _ hw)
    poised := h.poised.congr rfl rfl rfl (fun _ ↦ rfl) rfl }

theorem flushFrame (h : s.Coherent) (hp : s.pool.pageTable.lookup p = some f) :
    (s.flushFrame p f).Coherent := by
  rw [AsyncStore.flushFrame]
  split
  · exact (h.submit hp).setPage f _ rfl rfl
  · exact h

/-- The victim in frame `f` goes out of the table, and no write is in flight out of the frame. -/
theorem unmapVictim (h : s.Coherent) (hl : s.pc.limbo = none)
    (hf : s.pool.pageTable.lookup (s.pool.pages f).pageId = some f) (hfree : f ∉ s.pool.freeList)
    {t : Target} (ht : s.pool.pageTable.lookup (s.wanted t) = none)
    (hinflight : ∀ w ∈ s.inflight, w.frame ≠ f) (n : ℕ) :
    ({ s with posted := n, pool := s.pool.unmapVictim f, pc := .loading f t } :
      AsyncStore).Coherent := by
  have hlook : ∀ {q g}, (s.pool.unmapVictim f).pageTable.lookup q = some g ↔
      q ≠ (s.pool.pages f).pageId ∧ s.pool.pageTable.lookup q = some g :=
    BufferPoolManager.lookup_unmapVictim
  have hunmapped : ∀ q, (s.pool.unmapVictim f).pageTable.lookup q ≠ some f := by
    intro q hq
    exact (hlook.mp hq).1 (h.pageId_eq (hlook.mp hq).2).symm
  exact
    { pageId_eq := fun hq ↦ h.pageId_eq (hlook.mp hq).2
      lru_mapped := by
        intro g hg
        have hmap := (h.lru_mapped hg).resolve_right (by simp [hl])
        by_cases hgf : g = f
        · exact Or.inr (congrArg some hgf.symm)
        · refine Or.inl (hlook.mpr ⟨fun heq ↦ hgf ?_, hmap⟩)
          rw [show (s.pool.pages g).pageId = _ from heq, hf] at hmap
          exact (Option.some.inj hmap).symm
      free_nodup := h.free_nodup
      free_unmapped := fun hg hq ↦ h.free_unmapped hg (hlook.mp hq).2
      free_lru := h.free_lru
      inflight_mapped := by
        intro w hw
        have hmap := h.inflight_mapped w hw
        refine hlook.mpr ⟨fun heq ↦ hinflight w hw ?_, hmap⟩
        rw [heq, hf] at hmap
        exact (Option.some.inj hmap).symm
      owner_eq := fun hq ↦ h.owner_eq (hlook.mp hq).2
      resident := fun hq ↦ h.resident (hlook.mp hq).2
      stored := h.stored
      poised := by
        refine ⟨hunmapped, hfree, ?_⟩
        rw [Option.eq_none_iff_forall_ne_some]
        intro g hg
        have hsome := (hlook.mp hg).2
        change s.pool.pageTable.lookup (s.wanted t) = some g at hsome
        rw [ht] at hsome
        cases hsome }

/-- A frame is found. -/
theorem acquire (h : s.Coherent) (hpc : s.pc = .idle) {t : Target} (hready : s.Ready t)
    (ht : s.pool.pageTable.lookup (s.wanted t) = none) : (s.acquire t).Coherent := by
  have hl : s.pc.limbo = none := by rw [hpc]; rfl
  rw [Ready] at hready
  rw [AsyncStore.acquire]
  cases htake : s.pool.takeFrame with
  | none => exact h
  | some r =>
    obtain ⟨f, victim, pool⟩ := r
    simp only [htake] at hready
    obtain ⟨rfl, rest, hfree, rfl⟩ | ⟨rfl, hfree, rest, hlru, rfl⟩ :=
      BufferPoolManager.takeFrame_eq_some.mp htake
    · have hmem : ∀ {g}, g ∈ rest → g ∈ s.pool.freeList :=
        fun hg ↦ hfree ▸ List.mem_cons_of_mem _ hg
      have hnodup : f ∉ rest ∧ rest.Nodup := List.nodup_cons.mp (hfree ▸ h.free_nodup)
      have hself : f ∈ s.pool.freeList := hfree ▸ List.mem_cons_self
      exact { h with
        lru_mapped := fun hg ↦ Or.inl ((h.lru_mapped hg).resolve_right (by simp [hl]))
        free_nodup := hnodup.2
        free_unmapped := fun hg ↦ h.free_unmapped (hmem hg)
        free_lru := fun hg ↦ h.free_lru (hmem hg)
        poised := ⟨fun q ↦ h.free_unmapped hself, hnodup.1, ht⟩ }
    · have h₁ := h.of_lru rest fun g hg ↦ hlru ▸ List.mem_append_left _ hg
      have hvictim : f ∈ s.pool.lruReplacer := hlru ▸ List.mem_append_right _ List.mem_cons_self
      have hmap : s.pool.pageTable.lookup (s.pool.pages f).pageId = some f :=
        (h.lru_mapped hvictim).resolve_right (by simp [hl])
      have hnot : f ∉ s.pool.freeList := by simp [hfree]
      dsimp only
      split
      · have hl₁ : (AsyncStore.submit { s with pool := { s.pool with lruReplacer := rest } }
            (s.pool.pages f).pageId f).pc.limbo = none := hl
        exact (h₁.submit hmap).of_pc hl₁ ⟨hmap, hnot, ht⟩
      · rename_i hd
        rw [if_neg fun hd' ↦ hd hd'.2] at hready
        exact h₁.unmapVictim hl hmap hnot ht (fun w hw ↦ (hready w hw).1) s.posted

/-- The frame is reset. -/
theorem reset (h : s.Coherent) (hpc : s.pc = .loading f (.fetch p)) :
    ({ s with
      pool := s.pool.setPage f (s.pool.pages f).resetMemory
      owner := Function.update s.owner f none
      pc := .reading f p } : AsyncStore).Coherent := by
  have hpoised := h.poised
  simp only [Poised, hpc] at hpoised
  obtain ⟨hunmapped, hfree, hp⟩ := hpoised
  have hne : ∀ {q g}, s.pool.pageTable.lookup q = some g → g ≠ f := by
    rintro q g hq rfl
    exact hunmapped q hq
  exact { h with
    pageId_eq := fun {q g} hq ↦ by
      dsimp only
      rw [BufferPoolManager.setPage_pages_of_ne _ _ _ (hne hq)]
      exact h.pageId_eq hq
    lru_mapped := fun {g} hg ↦ by
      by_cases hgf : g = f
      · exact Or.inr (congrArg some hgf.symm)
      · dsimp only
        rw [BufferPoolManager.setPage_pages_of_ne _ _ _ hgf]
        refine (h.lru_mapped hg).imp_right fun hlimbo ↦ ?_
        rw [hpc] at hlimbo
        exact hlimbo
    owner_eq := fun hq ↦ (Function.update_of_ne (hne hq) _ _).trans (h.owner_eq hq)
    resident := fun {q g} hq ↦ by
      dsimp only
      rw [BufferPoolManager.setPage_pages_of_ne _ _ _ (hne hq)]
      exact h.resident hq
    poised := ⟨hunmapped, hfree, hp⟩ }

/-- The page that the frame was wanted for comes in. -/
theorem install (h : s.Coherent) (hlimbo : s.pc.limbo = some f)
    (hunmapped : ∀ q, s.pool.pageTable.lookup q ≠ some f) (hfree : f ∉ s.pool.freeList)
    (hp : s.pool.pageTable.lookup p = none) (data : PageData) (disk : DiskManager)
    (hdisk : ∀ q, disk.readPage q = s.disk.readPage q) (since : PageId → List PageData)
    (hsince : ∀ q, s.since q ⊆ since q) (hdata : data ∈ since p) :
    ({ s with
      disk
      pool := s.pool.install f p data
      owner := Function.update s.owner f (some p)
      since
      pc := .idle } : AsyncStore).Coherent := by
  have hlook : ∀ {q g}, (s.pool.install f p data).pageTable.lookup q = some g ↔
      q = p ∧ g = f ∨ q ≠ p ∧ s.pool.pageTable.lookup q = some g :=
    BufferPoolManager.lookup_install
  have hother : ∀ {g}, g ≠ f → (s.pool.install f p data).pages g = s.pool.pages g :=
    s.pool.install_pages_of_ne p data
  have hne : ∀ {q g}, s.pool.pageTable.lookup q = some g → g ≠ f := by
    rintro q g hq rfl
    exact hunmapped q hq
  have hnew := s.pool.install_pages_self f p data
  have hkeep : ∀ {q g}, s.pool.pageTable.lookup q = some g →
      (s.pool.install f p data).pageTable.lookup q = some g := by
    intro q g hq
    refine hlook.mpr (Or.inr ⟨?_, hq⟩)
    rintro rfl
    rw [hp] at hq
    exact absurd hq (by simp)
  exact
    { pageId_eq := by
        intro q g hq
        rcases hlook.mp hq with ⟨rfl, rfl⟩ | ⟨-, hq⟩
        · exact congrArg Page.pageId hnew
        · exact (congrArg Page.pageId (hother (hne hq))).trans (h.pageId_eq hq)
      lru_mapped := by
        intro g hg
        left
        by_cases hgf : g = f
        · subst hgf
          dsimp only
          rw [hnew]
          exact hlook.mpr (Or.inl ⟨rfl, rfl⟩)
        · dsimp only
          rw [hother hgf]
          refine hkeep ((h.lru_mapped hg).resolve_right fun heq ↦ hgf ?_)
          exact Option.some.inj (heq.symm.trans hlimbo)
      free_nodup := h.free_nodup
      free_unmapped := by
        intro q g hg hq
        rcases hlook.mp hq with ⟨rfl, rfl⟩ | ⟨-, hq⟩
        · exact hfree hg
        · exact h.free_unmapped hg hq
      free_lru := h.free_lru
      inflight_mapped := fun w hw ↦ hkeep (h.inflight_mapped w hw)
      owner_eq := by
        intro q g hq
        rcases hlook.mp hq with ⟨rfl, rfl⟩ | ⟨-, hq⟩
        · exact Function.update_self ..
        · exact (Function.update_of_ne (hne hq) _ _).trans (h.owner_eq hq)
      resident := by
        intro q g hq
        rcases hlook.mp hq with ⟨rfl, rfl⟩ | ⟨-, hq⟩
        · dsimp only
          rw [hnew]
          exact hdata
        · dsimp only
          rw [hother (hne hq)]
          exact hsince q (h.resident hq)
      stored := by
        intro q hq
        rw [hdisk]
        exact hsince q (h.stored hq)
      poised := trivial }

/-- The kernel performs a write. -/
theorem perform (h : s.Coherent) {w : Submission} (hw : w ∈ s.inflight) :
    (s.perform w).Coherent := by
  have hmem : ∀ {v}, v ∈ s.inflight.erase w → v ∈ s.inflight := List.mem_of_mem_erase
  exact { h with
    inflight_mapped := fun v hv ↦ h.inflight_mapped v (hmem hv)
    stored := by
      intro q hq
      by_cases hqw : q = w.page
      · subst hqw
        rw [readPage_perform_self]
        exact h.resident (h.inflight_mapped w hw)
      · rw [readPage_perform_of_ne s w hqw]
        refine h.stored fun v hv heq ↦ hq v ?_ heq
        refine (List.mem_erase_of_ne ?_).mpr hv
        rintro rfl
        exact hqw heq.symm
    poised := h.poised.congr rfl rfl rfl (fun _ ↦ rfl) rfl }

/-- A client changes the bytes of a frame. -/
theorem write (h : s.Coherent) (f : ℕ) (data : PageData) : (s.write f data).Coherent := by
  have hsince : ∀ q, s.since q ⊆ (s.write f data).since q := by
    intro q
    cases hown : s.owner f with
    | none => simp [AsyncStore.write, hown]
    | some p =>
      simp only [AsyncStore.write, hown]
      exact subset_update_cons ..
  have hid : ∀ g, ((s.write f data).pool.pages g).pageId = (s.pool.pages g).pageId := by
    intro g
    by_cases hg : g = f
    · subst hg
      simp [AsyncStore.write]
    · exact congrArg Page.pageId (s.pool.setPage_pages_of_ne f _ hg)
  exact { h with
    pageId_eq := fun hq ↦ (hid _).trans (h.pageId_eq hq)
    lru_mapped := fun {g} hg ↦ by
      rw [hid g]
      exact h.lru_mapped hg
    resident := by
      intro q g hq
      by_cases hg : g = f
      · subst hg
        have hown : s.owner g = some q := h.owner_eq hq
        have hself : ((s.write g data).pool.pages g).data = data :=
          congrArg Page.data (s.pool.setPage_pages_self g _)
        rw [hself]
        simp [AsyncStore.write, hown]
      · refine hsince q ?_
        rw [show (s.write f data).pool.pages g = s.pool.pages g from
          s.pool.setPage_pages_of_ne f _ hg]
        exact h.resident hq
    stored := fun hq ↦ hsince _ (h.stored hq)
    poised := h.poised.congr rfl rfl rfl hid rfl }

/-- A call begins. -/
theorem call (h : s.Coherent) (hpc : s.pc = .idle) {c : Call} (hc : s.Clear (.call c))
    (hnew : s.NewIsFresh (.call c)) : (s.call c).Coherent := by
  cases c with
  | fetchPage p =>
    rw [AsyncStore.call]
    split
    · exact h.pin
    · rename_i hp
      exact h.acquire hpc (hc hp) hp
  | newPage => exact h.acquire hpc hc (hnew rfl)
  | unpinPage p d =>
    rw [AsyncStore.call]
    split
    · rename_i f hp
      exact h.unpin hp d
    · exact h
  | flushPage p =>
    rw [AsyncStore.call]
    split
    · rename_i f hp
      exact h.flushFrame hp
    · exact h
  | flushAllPages =>
    refine h.of_pc (by rw [hpc]; rfl) fun e he ↦ ?_
    exact AList.mem_lookup_iff.mpr he

/-- The call under way goes on. -/
theorem resume {s' : AsyncStore} (h : s.Coherent) (hg : s.Guarded) (hs : s.resume = some s') :
    s'.Coherent := by
  have hpoised := h.poised
  rw [AsyncStore.resume] at hs
  split at hs
  · exact absurd hs (by simp)
  · rename_i f t hpc
    simp only [Poised, hpc] at hpoised
    simp only [Guarded, hpc] at hg
    split at hs
    · cases hs
      exact h
    · rename_i hposted
      cases hs
      have hnil : s.inflight = [] := List.length_eq_zero_iff.mp (by omega)
      refine h.unmapVictim (by rw [hpc]; rfl) hpoised.1 hpoised.2.1 hpoised.2.2 ?_ 0
      rw [hnil]
      exact fun w hw ↦ absurd hw List.not_mem_nil
  · rename_i f p hpc
    cases hs
    exact h.reset hpc
  · rename_i f hpc
    simp only [Poised, hpc] at hpoised
    cases hs
    refine h.install (by rw [hpc]; rfl) hpoised.1 hpoised.2.1 hpoised.2.2 Block.zero
      s.disk.allocatePage.2 (fun _ ↦ rfl) _ (subset_update_cons _ _ _) ?_
    rw [show s.wanted .new = s.disk.nextPageId from rfl, Function.update_self]
    exact List.mem_cons_self
  · rename_i f p hpc
    simp only [Poised, hpc] at hpoised
    simp only [Guarded, hpc] at hg
    cases hs
    exact h.install (by rw [hpc]; rfl) hpoised.1 hpoised.2.1 hpoised.2.2 _ _ (fun _ ↦ rfl) _
      (fun q ↦ List.Subset.refl _) (h.stored fun w hw ↦ (hg w hw).2)
  · rename_i p f rest hpc
    simp only [Poised, hpc] at hpoised
    cases hs
    have hflush := h.flushFrame (hpoised ⟨p, f⟩ List.mem_cons_self)
    refine hflush.of_pc ?_ ?_
    · rw [flushFrame_pc, hpc]
      rfl
    · intro e he
      show (s.flushFrame p f).pool.pageTable.lookup e.1 = some e.2
      rw [flushFrame_pageTable]
      exact hpoised e (List.mem_cons_of_mem _ he)
  · rename_i hpc
    cases hs
    have hidle : ({ s with pc := .idle } : AsyncStore).Coherent :=
      h.of_pc (by rw [hpc]; rfl) trivial
    exact { hidle with poised := trivial }

theorem step {s' : AsyncStore} {e : Event} {o : Unit} (h : s.Coherent) (hg : s.Guarded)
    (hc : s.Clear e) (hnew : s.NewIsFresh e) (hs : s.step e = some (o, s')) : s'.Coherent := by
  obtain ⟨c, rfl, hpc, rfl⟩ | ⟨rfl, hres⟩ | ⟨w, rfl, hw, rfl⟩ | ⟨f, data, rfl, rfl⟩ := step_cases hs
  · exact h.call hpc hc hnew
  · exact h.resume hg hres
  · exact h.perform hw
  · exact h.write f data

end Coherent

theorem coherent_start (poolSize : ℕ) (file : PageId → Option PageData) :
    (start poolSize file).Coherent where
  pageId_eq h := absurd h (by simp [start, BufferPoolManager.create])
  lru_mapped h := absurd h (by simp [start, BufferPoolManager.create])
  free_nodup := List.nodup_range
  free_unmapped _ := by simp [start, BufferPoolManager.create]
  free_lru _ := by simp [start, BufferPoolManager.create]
  inflight_mapped _ h := absurd h List.not_mem_nil
  owner_eq h := absurd h (by simp [start, BufferPoolManager.create])
  resident h := absurd h (by simp [start, BufferPoolManager.create])
  stored _ := List.mem_cons_self
  poised := trivial

/-- What the absence of hazards is for: a write in flight is of the page whose bytes are in its
frame, so that the page's place in the file will receive that page's bytes; and a resident page,
whether it was fetched just now or has been there for long, is no older than what was last passed to
`WritePageAsync` for it, or than the file was at first. -/
def Faithful (s : AsyncStore) : Prop :=
  (∀ w ∈ s.inflight, s.owner w.frame = some w.page) ∧
    ∀ p f, s.pool.pageTable.lookup p = some f → (s.pool.pages f).data ∈ s.since p

theorem Coherent.faithful {s : AsyncStore} (h : s.Coherent) : s.Faithful :=
  ⟨fun w hw ↦ h.owner_eq (h.inflight_mapped w hw), fun _ _ hp ↦ h.resident hp⟩

variable {poolSize : ℕ} {file : PageId → Option PageData}

/-- **Asynchronous writes, and when they are safe.**  Over every run of calls, for every schedule of
the kernel and every pool size and file:

* if all calls are clear, there is no hazard at any step;
* if moreover `NewPage` never returns the id of a resident page, the state reached is `Faithful`;
* and being clear is exactly what a call needs: in every state between two calls a call is clear if
  and only if no schedule of the kernel leads it into a hazard. -/
theorem async_safe {s : AsyncStore} {es : List Event} {os : List Unit}
    (hr : run step (start poolSize file) es = some (os, s)) :
    (Along step Clear (start poolSize file) es →
      Along step (fun s e ↦ ¬ s.Hazard e) (start poolSize file) es) ∧
    (Along step (fun s e ↦ s.Clear e ∧ s.NewIsFresh e) (start poolSize file) es → s.Faithful) ∧
    (s.pc = .idle → ∀ c, s.Clear (.call c) ↔ ∀ sched : List Event, (∀ e ∈ sched, e.Internal) →
      Along step (fun s e ↦ ¬ s.Hazard e) s (.call c :: sched)) := by
  have hstart : (start poolSize file).Guarded := trivial
  refine ⟨along_not_hazard hstart, fun hc ↦ ?_, fun hpc c ↦ clear_iff hpc c⟩
  have hinv : s.Coherent ∧ s.Guarded :=
    run_invariant (I := fun s : AsyncStore ↦ s.Coherent ∧ s.Guarded)
      (fun _ _ _ _ h hP hs ↦ ⟨h.1.step h.2 hP.1 hP.2 hs, h.2.step hP.1 hs⟩)
      ⟨coherent_start poolSize file, hstart⟩ hc hr
  exact hinv.1.faithful

/-- A page is created in a pool of one frame, released as dirty, evicted by the next one, and the
write of it is performed while the pool waits. -/
def evictedInTime : List Event :=
  [.call .newPage, .resume, .call (.unpinPage 0 true), .call .newPage, .kernel ⟨0, 0⟩, .resume,
    .resume]

theorem async_safe_one :
    ∃ s os, run step (start 1 fun _ ↦ none) evictedInTime = some (os, s) ∧
      Along step (fun s e ↦ ¬ s.Hazard e) (start 1 fun _ ↦ none) evictedInTime ∧ s.Faithful ∧
      ∀ c, s.Clear (.call c) ↔ ∀ sched : List Event, (∀ e ∈ sched, e.Internal) →
        Along step (fun s e ↦ ¬ s.Hazard e) s (.call c :: sched) := by
  have hrun : ∃ s os, run step (start 1 fun _ ↦ none) evictedInTime = some (os, s) ∧
      s.pc = .idle := ⟨_, _, rfl, rfl⟩
  obtain ⟨s, os, hr, hidle⟩ := hrun
  have hother : ∀ {s : AsyncStore} {e : Event}, s.Clear e → e ≠ .call .newPage →
      s.Clear e ∧ s.NewIsFresh e := fun hclear hne ↦ ⟨hclear, fun heq ↦ absurd heq hne⟩
  have hclear : Along step (fun s e ↦ s.Clear e ∧ s.NewIsFresh e) (start 1 fun _ ↦ none)
      evictedInTime :=
    .cons ⟨clear_of_rest rfl rfl _, fun _ ↦ rfl⟩ rfl (.cons (hother trivial (by simp)) rfl
      (.cons (hother trivial (by simp)) rfl (.cons ⟨clear_of_rest rfl rfl _, fun _ ↦ rfl⟩ rfl
        (.cons (hother trivial (by simp)) rfl (.cons (hother trivial (by simp)) rfl
          (.cons (hother trivial (by simp)) rfl trivial))))))
  obtain ⟨hsafe, hfaithful, hexact⟩ := async_safe hr
  exact ⟨s, os, hr, hsafe (Along.mono (fun _ _ h ↦ h.1) hclear), hfaithful hclear,
    hexact hidle⟩

/-- A page is created in a pool of one frame, released as dirty and flushed.  While the write is in
flight, the frame, which is clean now, is reset for the next page; then a client writes ones to that
page, and the kernel performs the write: the first page's place in the file receives the second
page's bytes. -/
theorem evicted_in_flight :
    ∃ s os, run step (start 1 fun _ ↦ none) [.call .newPage, .resume, .call (.unpinPage 0 true),
        .call (.flushPage 0), .call .newPage] = some (os, s) ∧ s.Hazard .resume ∧
      ∃ s' os', run step s [.resume, .write 0 fun _ ↦ 1, .kernel ⟨0, 0⟩] = some (os', s') ∧
        s'.owner 0 = some 1 ∧ s'.disk.readPage 0 = fun _ ↦ 1 :=
  ⟨_, _, rfl, ⟨⟨0, 0⟩, List.mem_cons_self, rfl⟩, _, _, rfl, rfl, rfl⟩

end AsyncStore

end StingDB
