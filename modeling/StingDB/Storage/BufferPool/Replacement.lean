import StingDB.Lib.Recency
import StingDB.Storage.BufferPool.Transparency

/-!
# Which page is evicted

`lru_replacer_` is a list of frames, and what it is for is to remember in which order their pages
lost their last pin.  `drops` reads that order off a run, and `ordered_of_run` says that the list
has it, whatever has been pinned, flushed and evicted in between.  So the page that `NewPage` and
`FetchPage` evict is the one nobody has pinned for longest, and they come back with `nullptr`
exactly if there is nothing to evict (`lru_of_run`).

As before the counter of a frame must be able to tell one pin from many: `pinned_evicted`.
-/

set_option autoImplicit false

namespace StingDB

open Machine Recency

namespace BufferPoolManager

/-- The pages of the candidates for eviction, front first. -/
def candidates (b : BufferPoolManager) : List PageId :=
  b.lruReplacer.map fun f ↦ (b.pages f).pageId

variable {b b' : BufferPoolManager}

/-- A pool with fewer candidates, whose frames have the pages they had. -/
theorem candidates_sublist (hlru : b'.lruReplacer.Sublist b.lruReplacer)
    (hid : ∀ g ∈ b'.lruReplacer, (b'.pages g).pageId = (b.pages g).pageId) :
    b'.candidates.Sublist b.candidates := by
  rw [candidates, List.map_congr_left hid]
  exact hlru.map _

theorem pin_candidates (b : BufferPoolManager) (f : ℕ) :
    (b.pin f).candidates.Sublist b.candidates := by
  refine candidates_sublist List.filter_sublist fun g hg ↦ ?_
  have hne : g ≠ f := by
    rintro rfl
    simp [pin] at hg
  exact congrArg Page.pageId (b.setPage_pages_of_ne f _ hne)

theorem unpin_lruReplacer (b : BufferPoolManager) (f : ℕ) (d : Bool) :
    (b.unpin f d).lruReplacer =
      if (b.pages f).pinCount = 1 then f :: b.lruReplacer else b.lruReplacer := by
  rw [unpin]
  cases d <;> simp only [Bool.false_eq_true, if_false, if_true, Page.setDirty_pinCount] <;>
    split <;> rfl

/-- Releasing the last pin of a page makes it the candidate to be evicted last. -/
theorem unpin_candidates (b : BufferPoolManager) (f : ℕ) (d : Bool) :
    (b.unpin f d).candidates =
      if (b.pages f).pinCount = 1 then (b.pages f).pageId :: b.candidates else b.candidates := by
  have hid : (fun g ↦ ((b.unpin f d).pages g).pageId) = fun g ↦ (b.pages g).pageId :=
    funext (b.unpin_pageId f d)
  rw [candidates, hid, unpin_lruReplacer]
  split <;> rfl

/-- Putting a page into a frame that is no candidate. -/
theorem install_candidates {f : ℕ} (hf : f ∉ b.lruReplacer) (p : PageId) (data : PageData) :
    (b.install f p data).candidates = b.candidates := by
  refine List.map_congr_left fun g hg ↦ ?_
  rw [install_pages_of_ne]
  rintro rfl
  exact hf hg

/-- A change to a frame that leaves it its page. -/
theorem setPage_candidates (b : BufferPoolManager) {f : ℕ} {page : Page}
    (hid : page.pageId = (b.pages f).pageId) : (b.setPage f page).candidates = b.candidates := by
  refine List.map_congr_left fun g _ ↦ ?_
  by_cases hg : g = f
  · rw [hg, setPage_pages_self, hid]
  · rw [setPage_pages_of_ne _ _ _ hg]

theorem writeFrame_candidates (s : Store) (f : ℕ) (data : PageData) :
    (s.writeFrame f data).pool.candidates = s.pool.candidates :=
  s.pool.setPage_candidates rfl

theorem flushFrame_candidates (s : Store) (p : PageId) (f : ℕ) :
    (s.flushFrame p f).pool.candidates = s.pool.candidates := by
  rw [Store.flushFrame]
  split
  · exact s.pool.setPage_candidates rfl
  · rfl

theorem Represents.limbo_notMem {held : PageId → ℕ} {f : ℕ}
    (h : b.Represents held (some f)) : f ∉ b.lruReplacer := by
  intro hf
  obtain ⟨p, hp, -⟩ := h.mem_lru.mp hf
  exact h.limbo_unmapped rfl hp

theorem Represents.mem_candidates {held : PageId → ℕ} {limbo : Option ℕ} {p : PageId}
    (h : b.Represents held limbo) :
    p ∈ b.candidates ↔ b.pageTable.lookup p ≠ none ∧ held p = 0 := by
  rw [candidates, List.mem_map]
  constructor
  · rintro ⟨f, hf, rfl⟩
    obtain ⟨q, hq, hq0⟩ := h.mem_lru.mp hf
    rw [h.pageId_eq hq, hq]
    exact ⟨by simp, hq0⟩
  · rintro ⟨hp, hp0⟩
    obtain ⟨f, hf⟩ := Option.ne_none_iff_exists'.mp hp
    exact ⟨f, h.mem_lru.mpr ⟨p, hf, hp0⟩, h.pageId_eq hf⟩

/-- Finding a frame only takes a candidate away. -/
theorem acquireFrame_candidates {s s' : Store} {f : ℕ} (ha : s.acquireFrame = some (f, s')) :
    s'.pool.candidates.Sublist s.pool.candidates := by
  obtain ⟨rest, -, rfl⟩ | ⟨-, rest, hl, rfl⟩ := Store.acquireFrame_eq_some ha
  · exact List.Sublist.refl _
  · refine candidates_sublist ?_ fun g _ ↦ rfl
    rw [hl]
    exact List.sublist_append_left rest [f]

end BufferPoolManager

namespace PoolClients

/-! ## The history of the pins -/

/-- The page whose last pin a call has released, if it has. -/
def dropped (s' : PoolClients) : Call → List PageId
  | .unpinPage pin _ => if heldBy s'.pins pin.page = 0 then [pin.page] else []
  | _ => []

/-- The pages whose last pin was released, in the order in which that happened. -/
def drops : PoolClients → List Call → List PageId
  | _, [] => []
  | s, c :: cs =>
    match step s c with
    | none => []
    | some (_, s') => s'.dropped c ++ drops s' cs

variable {s s' : PoolClients} {c : Call} {o : Result}

theorem drops_cons {cs : List Call} (hs : step s c = some (o, s')) :
    drops s (c :: cs) = s'.dropped c ++ drops s' cs := by
  rw [drops, hs]

theorem drops_concat {s₀ : PoolClients} {cs : List Call} {os : List Result}
    (hr : run step s₀ cs = some (os, s)) (hs : step s c = some (o, s')) :
    drops s₀ (cs ++ [c]) = drops s₀ cs ++ s'.dropped c := by
  induction cs generalizing s₀ os with
  | nil =>
    cases hr
    rw [List.nil_append, drops_cons hs, drops, drops, List.append_nil, List.nil_append]
  | cons c' cs ih =>
    obtain ⟨o', s₁, os', hs', hr', rfl⟩ := run_cons.mp hr
    rw [List.cons_append, drops_cons hs', drops_cons hs', ih hr', List.append_assoc]

/-- The candidates of a pool are ordered by when their last pins were released. -/
def Ordered (s : PoolClients) (uses : List PageId) : Prop :=
  Recency.Ordered s.store.pool.candidates uses

/-- **One call** takes candidates away, or puts the page in front whose last pin it releases. -/
theorem Sound.step_candidates (h : s.Sound) (hs : PoolClients.step s c = some (o, s')) :
    s'.dropped c = [] ∧ s'.store.pool.candidates.Sublist s.store.pool.candidates ∨
      ∃ p, s'.dropped c = [p] ∧ p ∉ s.store.pool.candidates ∧
        s'.store.pool.candidates = p :: s.store.pool.candidates := by
  have hkeep : s'.store.pool.candidates.Sublist s.store.pool.candidates →
      s'.dropped c = [] → s'.dropped c = [] ∧
        s'.store.pool.candidates.Sublist s.store.pool.candidates ∨
      ∃ p, s'.dropped c = [p] ∧ p ∉ s.store.pool.candidates ∧
        s'.store.pool.candidates = p :: s.store.pool.candidates :=
    fun hsub hnil ↦ Or.inl ⟨hnil, hsub⟩
  have hload : ∀ {f p : _} {s₁ : Store} {data : PageData},
      s.store.acquireFrame = some (f, s₁) →
        (s₁.pool.install f p data).candidates.Sublist s.store.pool.candidates := by
    intro f p s₁ data ha
    rw [BufferPoolManager.install_candidates (h.holds.acquireFrame ha).represents.limbo_notMem]
    exact BufferPoolManager.acquireFrame_candidates ha
  cases c with
  | newPage =>
    refine hkeep ?_ rfl
    obtain ⟨-, rfl⟩ | ⟨f, s₁, ha, heq⟩ := newPage_step hs
    · exact List.Sublist.refl _
    · cases heq
      exact hload ha
  | fetchPage p =>
    refine hkeep ?_ rfl
    obtain ⟨-, ⟨-, rfl⟩ | ⟨f, -, heq⟩ | ⟨-, f, s₁, ha, heq⟩⟩ := fetchPage_step hs
    · exact List.Sublist.refl _
    · cases heq
      exact BufferPoolManager.pin_candidates ..
    · cases heq
      exact hload ha
  | write pin data =>
    refine hkeep ?_ rfl
    rw [PoolClients.step] at hs
    split at hs
    · cases hs
      exact (BufferPoolManager.writeFrame_candidates ..).symm ▸ List.Sublist.refl _
    · cases hs
  | unpinPage pin isDirty =>
    rw [PoolClients.step] at hs
    split at hs
    · rename_i hpin
      have hp := h.holds.mapped pin hpin
      simp only [Store.unpinPage, hp] at hs
      cases hs
      have hheld := heldBy_erase hpin pin.page
      rw [if_pos rfl] at hheld
      have hcount : (s.store.pool.pages pin.frame).pinCount = 1 ↔
          heldBy (s.pins.erase pin) pin.page = 0 := by
        rw [h.holds.represents.pinCount_eq hp, i32_natCast_eq_one_iff (h.held_le _), hheld]
        omega
      have hcandidates := s.store.pool.unpin_candidates pin.frame isDirty
      rw [h.holds.represents.pageId_eq hp] at hcandidates
      by_cases h0 : heldBy (s.pins.erase pin) pin.page = 0
      · rw [if_pos (hcount.mpr h0)] at hcandidates
        refine Or.inr ⟨pin.page, if_pos h0, ?_, hcandidates⟩
        rw [h.holds.represents.mem_candidates, hheld]
        omega
      · rw [if_neg (mt hcount.mp h0)] at hcandidates
        exact Or.inl ⟨if_neg h0, by rw [hcandidates]⟩
    · cases hs
  | flushPage p =>
    refine hkeep ?_ rfl
    simp only [PoolClients.step, Store.flushPage] at hs
    split at hs
    · cases hs
      exact List.Sublist.refl _
    · cases hs
      rw [BufferPoolManager.flushFrame_candidates]
  | flushAllPages =>
    refine hkeep ?_ rfl
    cases hs
    exact Store.flushAllPages_induction
      (P := fun st ↦ st.pool.candidates.Sublist s.store.pool.candidates) (List.Sublist.refl _)
      fun st p f _ hst _ ↦ by rwa [BufferPoolManager.flushFrame_candidates]

/-- **The order of the candidates, over every run.** -/
theorem ordered_of_run {poolSize : ℕ} {file : PageId → Option PageData} {cs : List Call}
    {os : List Result} (hr : run step (start poolSize file) cs = some (os, s))
    (hc : Along step Countable (start poolSize file) cs) :
    s.Sound ∧ s.Ordered (drops (start poolSize file) cs) := by
  refine run_history (I := fun cs _ s ↦ s.Sound ∧ s.Ordered (drops (start poolSize file) cs))
    ⟨sound_start poolSize file, ordered_nil⟩ ?_ hc hr
  intro cs os s c o s' hr h hP hs
  refine ⟨h.1.step hP hs, ?_⟩
  rw [Ordered, drops_concat hr hs]
  obtain ⟨hnil, hsub⟩ | ⟨p, hp, hnew, hcandidates⟩ := h.1.step_candidates hs
  · rw [hnil, List.append_nil]
    exact h.2.sublist hsub
  · rw [hp, hcandidates]
    exact h.2.use hnew

/-! ## Evictions -/

/-- A `NewPage`, or a `FetchPage` of a page that is not resident. -/
def NeedsFrame (s : PoolClients) : Call → Prop
  | .newPage => True
  | .fetchPage p => s.store.pool.pageTable.lookup p = none
  | _ => False

/-- The page was resident, and is not any more. -/
def Evicted (s s' : PoolClients) (p : PageId) : Prop :=
  s.store.pool.pageTable.lookup p ≠ none ∧ s'.store.pool.pageTable.lookup p = none

/-- The page is resident and nobody has it pinned; and of all such pages it is the one whose last
pin was released first. -/
structure Oldest (s : PoolClients) (uses : List PageId) (p : PageId) : Prop where
  resident : s.store.pool.pageTable.lookup p ≠ none
  unpinned : heldBy s.pins p = 0
  used : p ∈ uses
  since_lt : ∀ q, s.store.pool.pageTable.lookup q ≠ none → heldBy s.pins q = 0 → q ≠ p →
    since uses q < since uses p

/-- Every frame has a page with a pin that has not been released. -/
def AllPinned (s : PoolClients) : Prop :=
  ∀ f < s.store.pool.poolSize,
    ∃ p, s.store.pool.pageTable.lookup p = some f ∧ heldBy s.pins p ≠ 0

/-- A call that needs a frame finds none and does nothing, or puts a page there. -/
theorem Sound.needsFrame_step (h : s.Sound) (hneeds : s.NeedsFrame c)
    (hs : PoolClients.step s c = some (o, s')) :
    s.store.acquireFrame = none ∧ o = .page none ∧ s' = s ∨
      ∃ f s₁ p data, s.store.acquireFrame = some (f, s₁) ∧ o ≠ .page none ∧
        s.store.pool.pageTable.lookup p = none ∧ s'.store.pool = s₁.pool.install f p data := by
  cases c with
  | newPage =>
    rcases ha : s.store.acquireFrame with _ | ⟨f, s₁⟩
    · refine Or.inl ⟨rfl, ?_⟩
      simp only [PoolClients.step, Store.newPage, ha, Option.some.injEq, Prod.mk.injEq] at hs
      exact ⟨hs.1.symm, hs.2.symm⟩
    · refine Or.inr ?_
      simp only [PoolClients.step, Store.newPage, ha] at hs
      cases hs
      refine ⟨f, s₁, _, _, rfl, by simp, ?_, rfl⟩
      rw [Option.eq_none_iff_forall_ne_some]
      intro g hg
      refine h.nextPageId_notMem (h.resident_handed (f := g) ?_)
      rwa [← Store.acquireFrame_nextPageId ha]
  | fetchPage p =>
    have hp : s.store.pool.pageTable.lookup p = none := hneeds
    rw [PoolClients.step] at hs
    split at hs
    · rcases ha : s.store.acquireFrame with _ | ⟨f, s₁⟩
      · refine Or.inl ⟨rfl, ?_⟩
        simp only [Store.fetchPage, hp, ha, Option.some.injEq, Prod.mk.injEq] at hs
        exact ⟨hs.1.symm, hs.2.symm⟩
      · refine Or.inr ?_
        simp only [Store.fetchPage, hp, ha] at hs
        cases hs
        exact ⟨f, s₁, p, _, rfl, by simp, hp, rfl⟩
    · cases hs
  | _ => exact hneeds.elim

/-- There is no frame to be had exactly if every one has a page that is pinned. -/
theorem Sound.acquireFrame_eq_none (h : s.Sound) :
    s.store.acquireFrame = none ↔ s.AllPinned := by
  have hrep := h.holds.represents
  rw [Store.acquireFrame_eq_none]
  constructor
  · rintro ⟨hfree, hlru⟩ f hf
    rcases hrep.covers hf with hmem | ⟨p, hp⟩ | hlimbo
    · rw [hfree] at hmem
      cases hmem
    · refine ⟨p, hp, fun h0 ↦ ?_⟩
      have hmem := hrep.mem_lru.mpr ⟨p, hp, h0⟩
      rw [hlru] at hmem
      cases hmem
    · cases hlimbo
  · intro hall
    refine ⟨List.eq_nil_iff_forall_not_mem.mpr fun f hf ↦ ?_,
      List.eq_nil_iff_forall_not_mem.mpr fun f hf ↦ ?_⟩
    · obtain ⟨p, hp, -⟩ := hall f (hrep.free_lt hf)
      exact hrep.free_unmapped hf hp
    · obtain ⟨p, hp, h0⟩ := hrep.mem_lru.mp hf
      obtain ⟨q, hq, hne⟩ := hall f (hrep.mapped_lt hp)
      rw [hrep.injective hq hp] at hne
      exact hne h0

/-- What goes out of the table when a frame is taken for another page. -/
theorem Sound.evicted (h : s.Sound) {uses : List PageId} (hord : s.Ordered uses) {f : ℕ}
    {s₁ : Store} (ha : s.store.acquireFrame = some (f, s₁)) {p q : PageId} {data : PageData}
    (hq : s.store.pool.pageTable.lookup q ≠ none)
    (hq' : (s₁.pool.install f p data).pageTable.lookup q = none) :
    s.store.pool.freeList = [] ∧ s.Oldest uses q := by
  have hrep := h.holds.represents
  obtain ⟨g, hg⟩ := Option.ne_none_iff_exists'.mp hq
  -- the page was in the frame that was taken
  have hgf : g = f := by
    by_contra hne
    have hold := (hrep.lookup_acquireFrame ha).mpr ⟨hg, hne⟩
    have hqp : q ≠ p := by
      rintro rfl
      rw [BufferPoolManager.lookup_install.mpr (Or.inl ⟨rfl, rfl⟩)] at hq'
      cases hq'
    rw [BufferPoolManager.lookup_install.mpr (Or.inr ⟨hqp, hold⟩)] at hq'
    cases hq'
  subst hgf
  obtain ⟨rest, hf, -⟩ | ⟨hf, rest, hl, -⟩ := Store.acquireFrame_eq_some ha
  · exact absurd hg (hrep.free_unmapped (hf ▸ List.mem_cons_self))
  · have hcandidates : s.store.pool.candidates =
        (rest.map fun f ↦ (s.store.pool.pages f).pageId) ++ [q] := by
      rw [BufferPoolManager.candidates, hl, List.map_append, List.map_singleton,
        hrep.pageId_eq hg]
    have hmem : q ∈ s.store.pool.candidates := by
      rw [hcandidates]
      exact List.mem_append_right _ (List.mem_singleton_self q)
    refine ⟨hf, hq, (hrep.mem_candidates.mp hmem).2, hord.used q hmem, fun r hr hr0 hne ↦ ?_⟩
    rw [Ordered, hcandidates] at hord
    refine hord.since_lt_last ?_
    have hr' := hrep.mem_candidates.mpr ⟨hr, hr0⟩
    rw [hcandidates] at hr'
    exact (List.mem_append.mp hr').resolve_right fun heq ↦ hne (List.mem_singleton.mp heq)

/-- If no frame is free, a page goes out for the one that comes in. -/
theorem Sound.exists_evicted (h : s.Sound) {f : ℕ} {s₁ : Store}
    (ha : s.store.acquireFrame = some (f, s₁)) (hfree : s.store.pool.freeList = []) {p : PageId}
    (hp : s.store.pool.pageTable.lookup p = none) (data : PageData) :
    ∃ q, s.store.pool.pageTable.lookup q ≠ none ∧
      (s₁.pool.install f p data).pageTable.lookup q = none := by
  have hrep := h.holds.represents
  obtain ⟨rest, hf, -⟩ | ⟨-, rest, hl, -⟩ := Store.acquireFrame_eq_some ha
  · rw [hfree] at hf
    cases hf
  · obtain ⟨q, hq, -⟩ := hrep.mem_lru.mp (hl ▸ List.mem_append_right _ List.mem_cons_self)
    refine ⟨q, by simp [hq], Option.eq_none_iff_forall_ne_some.mpr fun g hg ↦ ?_⟩
    rcases BufferPoolManager.lookup_install.mp hg with ⟨rfl, -⟩ | ⟨-, hold⟩
    · rw [hp] at hq
      cases hq
    · obtain ⟨hg', hne⟩ := (hrep.lookup_acquireFrame ha).mp hold
      rw [hq] at hg'
      exact hne (Option.some.inj hg').symm

/-- **Replacement is exact LRU over unpinned pages.**  Take any pool size, any file and any run of
the clients with fewer than `2 ^ 32 - 1` calls of `NewPage` and no more than `2 ^ 32` pins on any
page at any time, and then a call of `NewPage`, or of `FetchPage` for a page that is not resident.
A page that it evicts is evicted because no frame is free, and is the resident unpinned page whose
last pin was released first; there is such a page if no frame is free and the call returns a page;
and the call returns `nullptr` if and only if every frame has a page with a pin that has not been
released, and then nothing has changed. -/
theorem lru_of_run {poolSize : ℕ} {file : PageId → Option PageData} {cs : List Call}
    {os : List Result} (hr : run step (start poolSize file) cs = some (os, s))
    (hnew : cs.countP Call.isNewPage < 2 ^ 32 - 1)
    (hpins : Along step (PinsAtMost (2 ^ 32)) (start poolSize file) cs)
    (hneeds : s.NeedsFrame c) (hs : step s c = some (o, s')) :
    (∀ p, s.Evicted s' p →
      s.store.pool.freeList = [] ∧ s.Oldest (drops (start poolSize file) cs) p) ∧
    (s.store.pool.freeList = [] → o ≠ .page none → ∃ p, s.Evicted s' p) ∧
    (o = .page none ↔ s.AllPinned) ∧ (o = .page none → s' = s) := by
  have hcountable : Along step Countable (start poolSize file) cs :=
    along_countable le_rfl (by simpa [start] using hnew) hpins
  obtain ⟨h, hord⟩ := ordered_of_run hr hcountable
  obtain ⟨ha, ho, rfl⟩ | ⟨f, s₁, p, data, ha, ho, hp, hpool⟩ := h.needsFrame_step hneeds hs
  · exact ⟨fun p hp ↦ absurd hp.2 hp.1, fun _ hne ↦ absurd ho hne,
      iff_of_true ho (h.acquireFrame_eq_none.mp ha), fun _ ↦ rfl⟩
  · have hsome : ¬ s.AllPinned := by
      rw [← h.acquireFrame_eq_none, ha]
      simp
    refine ⟨fun q hq ↦ ?_, fun hfree _ ↦ ?_, iff_of_false ho hsome, fun heq ↦ absurd heq ho⟩
    · exact h.evicted hord ha hq.1 (hpool ▸ hq.2)
    · obtain ⟨q, hq, hq'⟩ := h.exists_evicted ha hfree hp data
      exact ⟨q, hq, hpool ▸ hq'⟩

/-- In a pool of two frames the page that was released first is evicted first. -/
theorem lru_of_run_two :
    ∃ os s o s', run step (start 2 fun _ ↦ none) [.newPage, .newPage,
        .unpinPage ⟨1, 1, false⟩ false, .unpinPage ⟨0, 0, false⟩ false] = some (os, s) ∧
      step s .newPage = some (o, s') ∧
      ∀ p, s.Evicted s' p → s.store.pool.freeList = [] ∧
        s.Oldest (drops (start 2 fun _ ↦ none) [.newPage, .newPage,
          .unpinPage ⟨1, 1, false⟩ false, .unpinPage ⟨0, 0, false⟩ false]) p := by
  obtain ⟨⟨os', s'⟩, hr⟩ := Option.isSome_iff_exists.mp
    (rfl : (run step (start 2 fun _ ↦ none) ([.newPage, .newPage, .unpinPage ⟨1, 1, false⟩ false,
      .unpinPage ⟨0, 0, false⟩ false] ++ [.newPage])).isSome = true)
  obtain ⟨s, os, o, hrun, hs, -⟩ := run_concat.mp hr
  have hneeds : s.NeedsFrame .newPage := trivial
  exact ⟨os, s, o, s', hrun, hs,
    (lru_of_run hrun (by decide) (along_pinsAtMost (by decide)) hneeds hs).1⟩

/-! ## One pin too many -/

/-- The only candidate, when nothing else is free. -/
theorem step_newPage_evicted {s : PoolClients} {p : PageId} {f : ℕ}
    (hfree : s.store.pool.freeList = []) (hlru : s.store.pool.lruReplacer = [f])
    (hp : s.store.pool.pageTable.lookup p = some f) (hid : (s.store.pool.pages f).pageId = p)
    (hne : s.store.disk.nextPageId ≠ p) :
    ∃ o s', step s .newPage = some (o, s') ∧ s.Evicted s' p := by
  rcases ha : s.store.acquireFrame with _ | ⟨g, s₁⟩
  · rw [Store.acquireFrame, BufferPoolManager.takeFrame, hfree, hlru] at ha
    cases ha
  have hnext := Store.acquireFrame_nextPageId ha
  obtain ⟨rest, hf, -⟩ | ⟨-, rest, hl, rfl⟩ := Store.acquireFrame_eq_some ha
  · rw [hfree] at hf
    cases hf
  obtain ⟨rfl, hfg⟩ := List.append_inj' (hl.symm.trans (hlru.trans (List.nil_append [f]).symm)) rfl
  obtain rfl := List.singleton_inj.mp hfg
  simp only [step, Store.newPage, ha]
  refine ⟨_, _, rfl, by simp [hp], Option.eq_none_iff_forall_ne_some.mpr fun k hk ↦ ?_⟩
  rcases BufferPoolManager.lookup_install.mp hk with ⟨rfl, -⟩ | ⟨-, hold⟩
  · exact hne hnext.symm
  · exact (BufferPoolManager.lookup_unmapVictim.mp hold).1 hid.symm

/-- A pin is released when the counter reads one, whatever it should read: the page is the only
candidate then, and `NewPage` evicts it. -/
theorem step_unpinPage_evicted {s : PoolClients} {pin : Pin} (hpin : pin ∈ s.pins)
    (hp : s.store.pool.pageTable.lookup pin.page = some pin.frame)
    (hid : (s.store.pool.pages pin.frame).pageId = pin.page)
    (hcount : (s.store.pool.pages pin.frame).pinCount = 1) (hfree : s.store.pool.freeList = [])
    (hlru : s.store.pool.lruReplacer = []) (hne : s.store.disk.nextPageId ≠ pin.page) :
    ∃ s₁ o s₂, step s (.unpinPage pin false) = some (.flag true, s₁) ∧
      s₁.pins = s.pins.erase pin ∧ step s₁ .newPage = some (o, s₂) ∧ s₁.Evicted s₂ pin.page := by
  let s₁ : PoolClients :=
    { s with
      store := { s.store with pool := s.store.pool.unpin pin.frame false }
      pins := s.pins.erase pin }
  have hs₁ : step s (.unpinPage pin false) = some (.flag true, s₁) := by
    simp only [step, if_pos hpin, Store.unpinPage, hp, s₁]
  have hfree₁ : s₁.store.pool.freeList = [] := (BufferPoolManager.unpin_freeList ..).trans hfree
  have hlru₁ : s₁.store.pool.lruReplacer = [pin.frame] := by
    rw [BufferPoolManager.unpin_lruReplacer, if_pos hcount, hlru]
  have hp₁ : s₁.store.pool.pageTable.lookup pin.page = some pin.frame := by
    rw [BufferPoolManager.unpin_pageTable]
    exact hp
  obtain ⟨o, s₂, hs₂, hevicted⟩ := step_newPage_evicted hfree₁ hlru₁ hp₁
    ((BufferPoolManager.unpin_pageId ..).trans hid) hne
  exact ⟨s₁, o, s₂, hs₁, rfl, hs₂, hevicted⟩

/-- A page of a pool of one frame is pinned `2 ^ 32 + 1` times, released once and evicted. -/
theorem pinned_evicted :
    ¬ ∀ poolSize file cs os s o s' p, run step (start poolSize file) cs = some (os, s) →
      step s .newPage = some (o, s') → s.Evicted s' p → heldBy s.pins p = 0 := by
  intro hall
  obtain ⟨o₀, s₀, hs₀, hhanded, hpins, hl, hlru, hfree, hcount, -, hnext, -⟩ := step_newPage_start
  obtain ⟨os₁, hr₁⟩ := run_fetchPage_replicate (c := 1) (p := 0) (by simp [hhanded]) hl hlru
    (hcount.trans rfl) (2 ^ 32)
  have hid : (s₀.store.pool.pages 0).pageId = 0 := by
    have hr₀ : run step (start 1 fun _ ↦ none) [.newPage] = some ([o₀], s₀) :=
      run_cons.mpr ⟨o₀, s₀, [], hs₀, rfl, rfl⟩
    have hsound := sound_of_run hr₀ (along_countable (n := 1) (by norm_num) (by decide)
      (along_pinsAtMost (by decide)))
    exact hsound.holds.represents.pageId_eq hl
  have hpage : (s₀.fetched 0 0 1 (2 ^ 32)).store.pool.pages 0 =
      { s₀.store.pool.pages 0 with pinCount := 1 } := by
    rw [fetched, BufferPoolManager.setPage_pages_self]
    rfl
  have hmem : (⟨0, 0, false⟩ : Pin) ∈ (s₀.fetched 0 0 1 (2 ^ 32)).pins := by
    rw [fetched, hpins]
    exact List.mem_append_right _ List.mem_cons_self
  obtain ⟨s₁, o, s', hs₁, hpins₁, hs', hevicted⟩ := step_unpinPage_evicted hmem hl
    (by rw [hpage]; exact hid) (by rw [hpage]) hfree hlru
    (by rw [show (s₀.fetched 0 0 1 (2 ^ 32)).store.disk = s₀.store.disk from rfl, hnext]; decide)
  have hheld : heldBy s₁.pins 0 ≠ 0 := by
    have herase := heldBy_erase hmem 0
    rw [heldBy_fetched, if_pos rfl, ← hpins₁] at herase
    omega
  exact hheld (hall 1 (fun _ ↦ none) _ _ s₁ o s' 0 (run_cons.mpr ⟨o₀, s₀, _, hs₀,
    run_append.mpr ⟨_, os₁, _, hr₁, run_cons.mpr ⟨_, s₁, [], hs₁, run_nil s₁, rfl⟩, rfl⟩, rfl⟩)
    hs' hevicted)

end PoolClients

end StingDB
