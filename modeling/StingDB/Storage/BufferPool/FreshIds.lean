import StingDB.Storage.BufferPool.Invariant

/-!
# The ids of new pages

`AllocatePage` counts up from 0 in every run.  The counter knows nothing of the file it was opened
on, nor of the ids that clients have fetched; so the id that `NewPage` returns may be that of a page
in the file, or of a page in the pool, whose frame is then unreachable (`newPage_collides`).

`newPage_fresh` says when it is not: the file did not store that page when it was opened, and no
`FetchPage` has returned it.  Here clients may call anything at any time, unmatched `UnpinPage`s
included.  But what a new page leaves to those who have pinned others depends on the earlier ones:
once an id has been given out twice, the table says of a page that it is in one frame and an older
frame says so too, and when that is evicted the page goes out of the table.  So all calls of
`NewPage` have to find unused ids (`Fresh`); then only the victim of the eviction goes, and nobody
who is counted right has it pinned.
-/

set_option autoImplicit false

namespace StingDB

namespace Store

open Machine

/-- What the clients of a pool do to it. -/
inductive Call where
  | fetchPage (pageId : PageId)
  | unpinPage (pageId : PageId) (isDirty : Bool)
  | flushPage (pageId : PageId)
  | flushAllPages
  | newPage
  /-- Not a call: writes through a pointer. -/
  | write (frameId : ℕ) (data : PageData)

/-- A pool that has just been constructed, over a file. -/
def opened (poolSize : ℕ) (file : PageId → Option PageData) : Store :=
  { pool := .create poolSize, disk := { file } }

/-- One call: the id of the page that it returned, if it returned one, and the store. -/
def step (s : Store) : Call → Option (Option PageId × Store)
  | .fetchPage pageId =>
    let (frameId, s) := s.fetchPage pageId
    some (frameId.map fun _ ↦ pageId, s)
  | .unpinPage pageId isDirty => some (none, (s.unpinPage pageId isDirty).2)
  | .flushPage pageId => some (none, (s.flushPage pageId).2)
  | .flushAllPages => some (none, s.flushAllPages)
  | .newPage =>
    let (page, s) := s.newPage
    some (page.map Prod.fst, s)
  | .write frameId data => some (none, s.writeFrame frameId data)

/-- All traces of pages in the pool and the file are of pages in `B`, but for what was in the file
at first. -/
structure Confined (file : PageId → Option PageData) (s : Store) (B : Set PageId) : Prop where
  mapped : ∀ {p f}, s.pool.pageTable.lookup p = some f → p ∈ B ∧ (s.pool.pages f).pageId ∈ B
  /-- The pages that may be written back. -/
  lru : ∀ {f}, f ∈ s.pool.lruReplacer → (s.pool.pages f).pageId ∈ B
  stored : ∀ {p}, s.disk.file p ≠ none → file p ≠ none ∨ p ∈ B

namespace Confined

variable {file : PageId → Option PageData} {s s' : Store} {B : Set PageId} {p : PageId} {f : ℕ}

theorem mono (h : Confined file s B) {C : Set PageId} (hBC : B ⊆ C) : Confined file s C where
  mapped hp := ⟨hBC (h.mapped hp).1, hBC (h.mapped hp).2⟩
  lru hf := hBC (h.lru hf)
  stored hp := (h.stored hp).imp_right fun hB ↦ hBC hB

theorem writePageAsync (h : Confined file s B) (hp : p ∈ B) (data : PageData) {q : PageId}
    (hq : (s.disk.writePageAsync p data).file q ≠ none) : file q ≠ none ∨ q ∈ B := by
  by_cases hqp : q = p
  · exact Or.inr (hqp ▸ hp)
  · exact h.stored fun hnone ↦ hq ((Function.update_of_ne hqp _ _).trans hnone)

/-- A changed frame that still carries the id of its page. -/
theorem setPage (h : Confined file s B) (f : ℕ) (page : Page)
    (hid : page.pageId = (s.pool.pages f).pageId) :
    Confined file { s with pool := s.pool.setPage f page } B := by
  have hpage : ∀ g, ((s.pool.setPage f page).pages g).pageId = (s.pool.pages g).pageId := by
    intro g
    by_cases hg : g = f
    · rw [hg, BufferPoolManager.setPage_pages_self, hid]
    · rw [BufferPoolManager.setPage_pages_of_ne _ _ _ hg]
  exact
    { mapped := fun hp ↦ ⟨(h.mapped hp).1, (hpage _).symm ▸ (h.mapped hp).2⟩
      lru := fun hf ↦ (hpage _).symm ▸ h.lru hf
      stored := h.stored }

theorem acquireFrame (h : Confined file s B) (ha : s.acquireFrame = some (f, s')) :
    Confined file s' B := by
  obtain ⟨rest, -, rfl⟩ | ⟨-, rest, hl, rfl⟩ := Store.acquireFrame_eq_some ha
  · exact ⟨h.mapped, h.lru, h.stored⟩
  · have hlru : ∀ {g}, g ∈ rest → g ∈ s.pool.lruReplacer :=
      fun hg ↦ hl ▸ List.mem_append_left _ hg
    have hvictim : f ∈ s.pool.lruReplacer := hl ▸ List.mem_append_right _ List.mem_cons_self
    refine ⟨fun {q g} hq ↦ h.mapped ?_, fun hg ↦ h.lru (hlru hg), fun {q} hq ↦ ?_⟩
    · change (s.pool.pageTable.erase (s.pool.pages f).pageId).lookup q = some g at hq
      by_cases hqv : q = (s.pool.pages f).pageId
      · subst hqv
        rw [AList.lookup_erase] at hq
        exact absurd hq (by simp)
      · rwa [AList.lookup_erase_ne hqv] at hq
    · dsimp only at hq
      split at hq
      · exact h.writePageAsync (h.lru hvictim) _ hq
      · exact h.stored hq

theorem install (h : Confined file s B) (hp : p ∈ B) (data : PageData) :
    Confined file { s with pool := s.pool.install f p data } B := by
  have hid : ∀ {g}, (s.pool.pages g).pageId ∈ B →
      ((s.pool.install f p data).pages g).pageId ∈ B := by
    intro g hg
    show ((s.pool.setPage f _).pages g).pageId ∈ B
    by_cases hgf : g = f
    · rw [hgf, BufferPoolManager.setPage_pages_self]
      exact hp
    · rw [BufferPoolManager.setPage_pages_of_ne _ _ _ hgf]
      exact hg
  refine ⟨fun {q g} hq ↦ ?_, fun hg ↦ hid (h.lru hg), h.stored⟩
  change (s.pool.pageTable.insert p f).lookup q = some g at hq
  by_cases hqp : q = p
  · subst hqp
    rw [AList.lookup_insert] at hq
    cases hq
    refine ⟨hp, ?_⟩
    show ((s.pool.setPage f _).pages f).pageId ∈ B
    rw [BufferPoolManager.setPage_pages_self]
    exact hp
  · rw [AList.lookup_insert_ne hqp] at hq
    exact ⟨(h.mapped hq).1, hid (h.mapped hq).2⟩

theorem flushFrame (h : Confined file s B) (hp : s.pool.pageTable.lookup p = some f) :
    Confined file (s.flushFrame p f) B := by
  rw [Store.flushFrame]
  split
  · have hset := h.setPage f ((s.pool.pages f).setDirty false) rfl
    exact ⟨hset.mapped, hset.lru, h.writePageAsync (h.mapped hp).1 _⟩
  · exact h

theorem pin (h : Confined file s B) : Confined file { s with pool := s.pool.pin f } B := by
  let page := s.pool.pages f
  have hset := h.setPage f { page with pinCount := i32 (page.pinCount + 1) } rfl
  exact ⟨hset.mapped, fun hg ↦ hset.lru (List.mem_of_mem_filter hg), hset.stored⟩

theorem unpin (h : Confined file s B) (hp : s.pool.pageTable.lookup p = some f) (d : Bool) :
    Confined file { s with pool := s.pool.unpin f d } B := by
  refine ⟨fun hq ↦ ?_, fun hg ↦ ?_, h.stored⟩
  · rw [BufferPoolManager.unpin_pageTable] at hq
    rw [BufferPoolManager.unpin_pageId]
    exact h.mapped hq
  · rw [BufferPoolManager.unpin_pageId]
    rcases s.pool.mem_lruReplacer_unpin f d hg with rfl | hg
    · exact (h.mapped hp).2
    · exact h.lru hg

/-- A call brings into the pool at most the page it returns. -/
theorem step {c : Call} {o : Option PageId} (h : Confined file s B)
    (hs : step s c = some (o, s')) : Confined file s' (B ∪ {p | o = some p}) := by
  cases c with
  | fetchPage p =>
    rcases hf : s.fetchPage p with ⟨o', s₂⟩
    rw [Store.step, hf] at hs
    cases hs
    obtain ⟨f, hp, rfl, rfl⟩ | ⟨-, -, rfl, rfl⟩ | ⟨-, f, s₁, ha, rfl, rfl⟩ :=
      Store.fetchPage_cases hf
    · exact h.pin.mono Set.subset_union_left
    · exact h.mono Set.subset_union_left
    · have hmem : p ∈ B ∪ {q | (some f).map (fun _ ↦ p) = some q} := Or.inr rfl
      exact ((h.acquireFrame ha).mono Set.subset_union_left).install hmem _
  | unpinPage p d =>
    cases hs
    refine Confined.mono ?_ Set.subset_union_left
    rw [Store.unpinPage]
    split
    · exact h
    · rename_i f hp
      exact h.unpin hp d
  | flushPage p =>
    cases hs
    refine Confined.mono ?_ Set.subset_union_left
    rw [Store.flushPage]
    split
    · exact h
    · rename_i f hp
      exact h.flushFrame hp
  | flushAllPages =>
    cases hs
    refine Confined.mono ?_ Set.subset_union_left
    exact Store.flushAllPages_induction (P := fun s ↦ Confined file s B) h
      fun s' p f hpt hs' hp ↦ hs'.flushFrame (hpt ▸ hp)
  | newPage =>
    rcases hn : s.newPage with ⟨o', s₂⟩
    rw [Store.step, hn] at hs
    cases hs
    obtain ⟨-, rfl, rfl⟩ | ⟨f, s₁, ha, rfl, rfl⟩ := Store.newPage_cases hn
    · exact h.mono Set.subset_union_left
    · have hmem : s₁.disk.nextPageId ∈
          B ∪ {p | (some (s₁.disk.nextPageId, f)).map Prod.fst = some p} := Or.inr rfl
      have hnew := ((h.acquireFrame ha).mono Set.subset_union_left).install (f := f) hmem Block.zero
      exact ⟨hnew.mapped, hnew.lru, hnew.stored⟩
  | write frameId data =>
    cases hs
    have hset := h.setPage frameId { s.pool.pages frameId with data } rfl
    exact hset.mono Set.subset_union_left

end Confined

/-! ## Runs -/

variable {poolSize : ℕ} {file : PageId → Option PageData}

theorem confined_opened : Confined file (opened poolSize file) ∅ where
  mapped h := absurd h (by simp [opened, BufferPoolManager.create])
  lru h := absurd h (by simp [opened, BufferPoolManager.create])
  stored h := Or.inl h

/-- After a run, all traces of pages are of those that a call has returned. -/
theorem confined_of_run {s : Store} {cs : List Call} {os : List (Option PageId)}
    (hr : run step (opened poolSize file) cs = some (os, s)) :
    Confined file s {p | some p ∈ os} := by
  refine run_history (P := fun _ _ ↦ True) (I := fun _ os s ↦ Confined file s {p | some p ∈ os})
    ?_ ?_ along_true hr
  · exact confined_opened.mono (Set.empty_subset _)
  · intro cs os s c o s' _ h _ hs
    refine (h.step hs).mono fun p hp ↦ ?_
    rcases hp with hp | hp
    · exact List.mem_append_left _ hp
    · exact List.mem_append_right _ (List.mem_singleton.mpr hp.symm)

/-- A call of `NewPage`. -/
def Call.isNewPage : Call → Bool
  | .newPage => true
  | _ => false

/-- `NewPage` returns the counter and advances it; other calls that return a page were asked for
it, and leave the counter alone. -/
theorem step_nextPageId {s s' : Store} {c : Call} {o : Option PageId}
    (hs : step s c = some (o, s')) :
    (c.isNewPage ∧ o = some s.disk.nextPageId ∧ s'.disk.nextPageId = s.disk.nextPageId + 1) ∨
      ((∀ p, o = some p → c = .fetchPage p) ∧ s'.disk.nextPageId = s.disk.nextPageId) := by
  have hnone : ∀ p, (none : Option PageId) = some p → c = .fetchPage p := by rintro _ ⟨⟩
  cases c with
  | fetchPage p =>
    have hself : ∀ q, some p = some q → Call.fetchPage p = .fetchPage q := by rintro q ⟨⟩; rfl
    rcases hf : s.fetchPage p with ⟨o', s₂⟩
    rw [Store.step, hf] at hs
    cases hs
    obtain ⟨f, hp, rfl, rfl⟩ | ⟨-, -, rfl, rfl⟩ | ⟨-, f, s₁, ha, rfl, rfl⟩ :=
      Store.fetchPage_cases hf
    · exact Or.inr ⟨hself, rfl⟩
    · exact Or.inr ⟨by rintro _ ⟨⟩, rfl⟩
    · have hnext := acquireFrame_nextPageId ha
      exact Or.inr ⟨hself, hnext⟩
  | unpinPage p d =>
    cases hs
    refine Or.inr ⟨hnone, ?_⟩
    rw [Store.unpinPage]
    split <;> rfl
  | flushPage p =>
    cases hs
    refine Or.inr ⟨hnone, ?_⟩
    rw [Store.flushPage]
    split
    · rfl
    · exact flushFrame_nextPageId _ _ _
  | flushAllPages =>
    cases hs
    exact Or.inr ⟨hnone, flushAllPages_nextPageId s⟩
  | newPage =>
    rcases hn : s.newPage with ⟨o', s₂⟩
    rw [Store.step, hn] at hs
    cases hs
    obtain ⟨-, rfl, rfl⟩ | ⟨f, s₁, ha, rfl, rfl⟩ := Store.newPage_cases hn
    · exact Or.inr ⟨hnone, rfl⟩
    · refine Or.inl ⟨rfl, ?_, ?_⟩
      · rw [acquireFrame_nextPageId ha]
        rfl
      · rw [← acquireFrame_nextPageId ha]
        rfl
  | write frameId data =>
    cases hs
    exact Or.inr ⟨hnone, rfl⟩

/-- While there have been fewer than `2 ^ 32` calls of `NewPage`, every page that has been returned
was fetched by its id or has an id below the counter. -/
theorem returned_of_run {s : Store} {cs : List Call} {os : List (Option PageId)}
    (hr : run step (opened poolSize file) cs = some (os, s))
    (hnew : cs.countP Call.isNewPage < 2 ^ 32) :
    ∀ p, some p ∈ os → (.fetchPage p, some p) ∈ cs.zip os ∨ p < s.disk.nextPageId := by
  have hall := run_history (P := fun _ _ ↦ True)
    (I := fun (cs : List Call) (os : List (Option PageId)) (s : Store) ↦
      cs.countP Call.isNewPage < 2 ^ 32 →
        s.disk.nextPageId.toNat ≤ cs.countP Call.isNewPage ∧
          ∀ p, some p ∈ os → (.fetchPage p, some p) ∈ cs.zip os ∨ p < s.disk.nextPageId)
    ?_ ?_ along_true hr
  · exact (hall hnew).2
  · exact fun _ ↦ ⟨le_rfl, by rintro p ⟨⟩⟩
  · intro cs os s c o s' hr ih _ hs hcount
    rw [List.countP_append, List.countP_singleton] at hcount ⊢
    rw [List.zip_append (run_length hr).symm]
    obtain ⟨hle, hret⟩ := ih (by omega)
    obtain ⟨hc, rfl, hnext⟩ | ⟨ho, hnext⟩ := step_nextPageId hs
    · rw [if_pos hc] at hcount ⊢
      have hsucc : s'.disk.nextPageId.toNat = s.disk.nextPageId.toNat + 1 := by
        rw [hnext, UInt32.toNat_add]
        exact Nat.mod_eq_of_lt (by simpa using by omega)
      refine ⟨by omega, fun p hp ↦ ?_⟩
      rw [UInt32.lt_iff_toNat_lt, hsucc]
      rcases List.mem_append.mp hp with hp | hp
      · rcases hret p hp with hf | hlt
        · exact Or.inl (List.mem_append_left _ hf)
        · exact Or.inr ((UInt32.lt_iff_toNat_lt.mp hlt).trans (Nat.lt_succ_self _))
      · cases List.mem_singleton.mp hp
        exact Or.inr (Nat.lt_succ_self _)
    · rw [hnext]
      refine ⟨hle.trans (Nat.le_add_right _ _), fun p hp ↦ ?_⟩
      rcases List.mem_append.mp hp with hp | hp
      · exact (hret p hp).imp_left (List.mem_append_left _)
      · obtain rfl := List.mem_singleton.mp hp
        rw [ho p rfl]
        exact Or.inl (List.mem_append_right _ List.mem_cons_self)

/-! ## Unused ids -/

/-- After these calls the id `k` is unused: the file did not store the page when it was opened, no
call of `FetchPage` has returned it, and the counter has not come round. -/
def Unused (file : PageId → Option PageData) (cs : List Call) (os : List (Option PageId))
    (k : PageId) : Prop :=
  file k = none ∧ (.fetchPage k, some k) ∉ cs.zip os ∧ cs.countP Call.isNewPage < 2 ^ 32

/-- Every call of `NewPage` finds the counter at an unused id. -/
def Fresh (poolSize : ℕ) (file : PageId → Option PageData) (cs : List Call) : Prop :=
  ∀ pre post, cs = pre ++ .newPage :: post → ∀ os s,
    run step (opened poolSize file) pre = some (os, s) → Unused file pre os s.disk.nextPageId

theorem fresh_nil : Fresh poolSize file [] := by
  intro pre post heq
  simp at heq

theorem fresh_concat {cs : List Call} {c : Call} :
    Fresh poolSize file (cs ++ [c]) ↔ Fresh poolSize file cs ∧ (c = .newPage → ∀ os s,
      run step (opened poolSize file) cs = some (os, s) →
        Unused file cs os s.disk.nextPageId) := by
  constructor
  · refine fun h ↦ ⟨?_, ?_⟩
    · rintro pre post rfl
      exact h pre (post ++ [c]) (by simp)
    · rintro rfl os s hr
      exact h cs [] rfl os s hr
  · rintro ⟨h, hc⟩ pre post heq os s hr
    rcases concat_eq_append_cons.mp heq with ⟨post', -, hcs⟩ | ⟨-, rfl, rfl⟩
    · exact h pre post' hcs os s hr
    · exact hc rfl os s hr

/-- No call has returned the page with an unused id that the counter stands at. -/
theorem Unused.not_returned {s : Store} {cs : List Call} {os : List (Option PageId)}
    (h : Unused file cs os s.disk.nextPageId)
    (hr : run step (opened poolSize file) cs = some (os, s)) :
    some s.disk.nextPageId ∉ os := by
  intro hmem
  rcases returned_of_run hr h.2.2 _ hmem with hf | hlt
  · exact h.2.1 hf
  · exact UInt32.lt_irrefl _ hlt

/-- So the page is neither resident nor stored. -/
theorem Unused.absent {s : Store} {cs : List Call} {os : List (Option PageId)}
    (h : Unused file cs os s.disk.nextPageId)
    (hr : run step (opened poolSize file) cs = some (os, s)) :
    s.pool.pageTable.lookup s.disk.nextPageId = none ∧ s.disk.file s.disk.nextPageId = none := by
  have hnot := h.not_returned hr
  have hconf := confined_of_run hr
  refine ⟨?_, ?_⟩
  · rw [Option.eq_none_iff_forall_ne_some]
    exact fun g hg ↦ hnot (hconf.mapped hg).1
  · by_contra hstored
    rcases hconf.stored hstored with hne | hmem
    · exact hne h.1
    · exact hnot hmem

/-! ## Pins -/

/-- A call of `UnpinPage` on this page. -/
def Call.unpins (p : PageId) : Call → Bool
  | .unpinPage q _ => q = p
  | _ => false

/-- How many pins clients have on a page after these calls: one from each call that has returned
it, less those that have been released. -/
def held (cs : List Call) (os : List (Option PageId)) (p : PageId) : ℕ :=
  os.count (some p) - cs.countP (Call.unpins p)

theorem held_le_length (cs : List Call) (os : List (Option PageId)) (p : PageId) :
    held cs os p ≤ os.length := (Nat.sub_le ..).trans List.count_le_length

/-- Whoever calls `UnpinPage` has a pin on the page, and no page has more than `2 ^ 32` at a
time. -/
def Matched (cs : List Call) (os : List (Option PageId)) : Prop :=
  ∀ i p, (cs.take i).countP (Call.unpins p) ≤ (os.take i).count (some p) ∧
    held (cs.take i) (os.take i) p ≤ 2 ^ 32

theorem Matched.all {cs : List Call} {os : List (Option PageId)} (h : Matched cs os)
    (hlen : os.length = cs.length) (p : PageId) :
    cs.countP (Call.unpins p) ≤ os.count (some p) ∧ held cs os p ≤ 2 ^ 32 := by
  have htake := h cs.length p
  rwa [List.take_length, ← hlen, List.take_length] at htake

theorem Matched.of_concat {cs : List Call} {os : List (Option PageId)} {c : Call}
    {o : Option PageId} (h : Matched (cs ++ [c]) (os ++ [o])) (hlen : os.length = cs.length) :
    Matched cs os := by
  intro i p
  have htake := h (min i cs.length) p
  have hi : min i cs.length ≤ cs.length := min_le_right ..
  rw [List.take_append_of_le_length hi, List.take_append_of_le_length (hlen ▸ hi)] at htake
  rcases le_total i cs.length with hle | hle
  · rwa [min_eq_left hle] at htake
  · rw [min_eq_right hle, List.take_length, List.take_of_length_le hlen.le] at htake
    rwa [List.take_of_length_le hle, List.take_of_length_le (hlen ▸ hle)]

variable {s s' : Store} {h h' : PageId → ℕ} {c : Call} {o : Option PageId}

/-- **One call** in a pool where the pins are `h` before it and `h'` after it. -/
theorem step_represents (hrep : s.pool.Represents h none)
    (hnew : c = .newPage → s.pool.pageTable.lookup s.disk.nextPageId = none)
    (hle : ∀ p, h p ≤ 2 ^ 32)
    (hpins : ∀ p, h' p + (if c.unpins p then 1 else 0) = h p + if o = some p then 1 else 0)
    (hs : step s c = some (o, s')) : s'.pool.Represents h' none := by
  have hsame : ∀ {s : Store}, (∀ p, c.unpins p = false) → o = none →
      s.pool.Represents h none → s.pool.Represents h' none := by
    intro s hc ho hrep
    have heq : h' = h := by
      funext p
      have hp := hpins p
      rw [hc p, ho] at hp
      simpa using hp
    rwa [heq]
  have htaken : ∀ {q}, (∀ p, c.unpins p = false) → o = some q →
      h' q = h q + 1 ∧ ∀ p, p ≠ q → h' p = h p := by
    intro q hc ho
    refine ⟨?_, fun p hpq ↦ ?_⟩
    · have hq := hpins q
      rw [hc q, ho] at hq
      simpa using hq
    · have hp := hpins p
      rw [hc p, ho] at hp
      simpa [Ne.symm hpq] using hp
  have hload : ∀ {f s₁ q} (data : PageData), s.acquireFrame = some (f, s₁) →
      s.pool.pageTable.lookup q = none → (∀ p, c.unpins p = false) → o = some q →
        (s₁.pool.install f q data).Represents h' none := by
    intro f s₁ q data ha hq hc ho
    obtain ⟨hself, hother⟩ := htaken hc ho
    have hheld : h q = 0 := not_not.mp fun hne ↦ hrep.held_mapped hne hq
    refine (hrep.acquireFrame ha).install ?_ (by rw [hself, hheld]) hother data
    rcases acquireFrame_lookup ha q with heq | heq
    · rw [heq, hq]
    · exact heq
  cases c with
  | fetchPage p =>
    rcases hf : s.fetchPage p with ⟨o', s₂⟩
    rw [step, hf] at hs
    cases hs
    obtain ⟨f, hp, rfl, rfl⟩ | ⟨-, -, rfl, rfl⟩ | ⟨hp, f, s₁, ha, rfl, rfl⟩ := fetchPage_cases hf
    · obtain ⟨hself, hother⟩ := htaken (fun _ ↦ rfl) rfl
      exact hrep.pin hp hself hother
    · exact hsame (fun _ ↦ rfl) rfl hrep
    · exact hload _ ha hp (fun _ ↦ rfl) rfl
  | unpinPage p d =>
    cases hs
    have hself : h' p + 1 = h p := by simpa [Call.unpins] using hpins p
    have hother : ∀ q, q ≠ p → h' q = h q := by
      intro q hqp
      simpa [Call.unpins, Ne.symm hqp] using hpins q
    obtain ⟨f, hp⟩ := Option.ne_none_iff_exists'.mp (hrep.held_mapped (p := p) (by omega))
    rw [Store.unpinPage, hp]
    exact hrep.unpin hp (hle p) hself hother d
  | flushPage p =>
    cases hs
    refine hsame (fun _ ↦ rfl) rfl ?_
    rw [Store.flushPage]
    split
    · exact hrep
    · exact hrep.flushFrame ..
  | flushAllPages =>
    cases hs
    exact hsame (fun _ ↦ rfl) rfl (flushAllPages_induction
      (P := fun s ↦ s.pool.Represents h none) hrep fun _ p f _ hs _ ↦ hs.flushFrame p f)
  | newPage =>
    rcases hn : s.newPage with ⟨o', s₂⟩
    rw [step, hn] at hs
    cases hs
    obtain ⟨-, rfl, rfl⟩ | ⟨f, s₁, ha, rfl, rfl⟩ := newPage_cases hn
    · exact hsame (fun _ ↦ rfl) rfl hrep
    · have hnone : s.pool.pageTable.lookup s₁.disk.nextPageId = none := by
        rw [acquireFrame_nextPageId ha]
        exact hnew rfl
      exact hload _ ha hnone (fun _ ↦ rfl) rfl
  | write f data =>
    cases hs
    exact hsame (fun _ ↦ rfl) rfl (hrep.setPage rfl rfl)

/-- **The pool counts the pins right** as long as nobody releases others' and all new ids are
unused. -/
theorem represents_of_run {cs : List Call} {os : List (Option PageId)}
    (hr : run step (opened poolSize file) cs = some (os, s)) (hfresh : Fresh poolSize file cs)
    (hmatched : Matched cs os) : s.pool.Represents (held cs os) none := by
  have hall := run_history (P := fun _ _ ↦ True)
    (I := fun (cs : List Call) (os : List (Option PageId)) (s : Store) ↦
      Fresh poolSize file cs → Matched cs os → s.pool.Represents (held cs os) none)
    ?_ ?_ along_true hr
  · exact hall hfresh hmatched
  · exact fun _ _ ↦ BufferPoolManager.represents_create poolSize
  · intro cs os s c o s' hr ih _ hs hfresh hmatched
    have hlen := run_length hr
    have hbefore := hmatched.of_concat hlen
    obtain ⟨hfresh, hunused⟩ := fresh_concat.mp hfresh
    refine step_represents (ih hfresh hbefore) ?_ (fun p ↦ (hbefore.all hlen p).2) (fun p ↦ ?_) hs
    · rintro rfl
      exact ((hunused rfl os s hr).absent hr).1
    · have hle := (hbefore.all hlen p).1
      have hle' := (hmatched.all (by simp [hlen]) p).1
      rw [List.countP_append, List.count_append, List.countP_singleton,
        List.count_singleton] at hle'
      rw [held, held, List.countP_append, List.count_append, List.countP_singleton,
        List.count_singleton]
      simp only [beq_iff_eq] at hle' ⊢
      omega

/-- **Fresh page ids, and when.**  At the end of any run, over any file, let `NewPage` return the
page `k` in frame `f`.  If every `NewPage` of the run, this one included, finds the counter at an
unused id, then page `k` was neither resident nor stored, and no page that was resident is mapped to
another frame afterwards.  If moreover clients have released only pins that they had, and there were
no more than `2 ^ 32` on any page, then all pages that anybody has pinned stay in their frames: the
only page that goes out of the table is the one that `NewPage` evicts, the last in the LRU list,
which nobody has pinned. -/
theorem newPage_fresh {cs : List Call} {os : List (Option PageId)} {k : PageId} {f : ℕ}
    (hr : run step (opened poolSize file) cs = some (os, s))
    (hs : s.newPage = (some (k, f), s')) (hfresh : Fresh poolSize file (cs ++ [.newPage])) :
    s.pool.pageTable.lookup k = none ∧ s.disk.file k = none ∧
      (∀ p g, s.pool.pageTable.lookup p = some g →
        s'.pool.pageTable.lookup p = some g ∨ s'.pool.pageTable.lookup p = none) ∧
      (Matched cs os →
        (∀ p, held cs os p ≠ 0 →
          ∃ g, s.pool.pageTable.lookup p = some g ∧ s'.pool.pageTable.lookup p = some g) ∧
        ∀ p g, s.pool.pageTable.lookup p = some g → s'.pool.pageTable.lookup p = some g ∨
          g = f ∧ s.pool.lruReplacer.getLast? = some g ∧ held cs os p = 0) := by
  obtain ⟨-, ho, -⟩ | ⟨f', s₁, ha, ho, rfl⟩ := newPage_cases hs
  · exact absurd ho (by simp)
  cases ho
  have hk : s₁.disk.nextPageId = s.disk.nextPageId := acquireFrame_nextPageId ha
  obtain ⟨hbefore, hunused⟩ := fresh_concat.mp hfresh
  obtain ⟨hnone, hstored⟩ := (hunused rfl os s hr).absent hr
  rw [← hk] at hnone hstored
  have hkeep : ∀ {p g}, s.pool.pageTable.lookup p = some g →
      (s₁.pool.pageTable.insert s₁.disk.nextPageId f).lookup p = s₁.pool.pageTable.lookup p := by
    intro p g hp
    refine AList.lookup_insert_ne ?_
    rintro rfl
    rw [hnone] at hp
    cases hp
  refine ⟨hnone, hstored, fun p g hp ↦ ?_, fun hmatched ↦ ?_⟩
  · show (s₁.pool.pageTable.insert s₁.disk.nextPageId f).lookup p = some g ∨
      (s₁.pool.pageTable.insert s₁.disk.nextPageId f).lookup p = none
    rw [hkeep hp, ← hp]
    exact acquireFrame_lookup ha p
  · have hrep := represents_of_run hr hbefore hmatched
    have hvictim : ∀ p g, s.pool.pageTable.lookup p = some g →
        (s₁.pool.pageTable.insert s₁.disk.nextPageId f).lookup p = some g ∨
          g = f ∧ s.pool.lruReplacer.getLast? = some g ∧ held cs os p = 0 := by
      intro p g hp
      rw [hkeep hp]
      by_cases hgf : g = f
      · subst hgf
        right
        obtain ⟨rest, hfree, -⟩ | ⟨-, rest, hl, -⟩ := acquireFrame_eq_some ha
        · exact absurd hp (hrep.free_unmapped (hfree ▸ List.mem_cons_self))
        · have hmem : g ∈ s.pool.lruReplacer := hl ▸ List.mem_append_right _ List.mem_cons_self
          exact ⟨rfl, by rw [hl, List.getLast?_concat], hrep.unpinned hmem hp⟩
      · exact Or.inl ((hrep.lookup_acquireFrame ha).mpr ⟨hp, hgf⟩)
    refine ⟨fun p hheld ↦ ?_, hvictim⟩
    obtain ⟨g, hp⟩ := Option.ne_none_iff_exists'.mp (hrep.held_mapped hheld)
    exact ⟨g, hp, (hvictim p g hp).resolve_right fun hv ↦ hheld hv.2.2⟩

/-- A new page in a pool of two frames where another page is pinned and a third has been released,
in whose frame it comes. -/
theorem newPage_fresh_one :
    ∃ os s s', run step (opened 2 fun _ ↦ none) [.fetchPage 7, .newPage, .unpinPage 0 true] =
        some (os, s) ∧ s.newPage = (some (1, 1), s') ∧ s.pool.pageTable.lookup 1 = none ∧
      s.disk.file 1 = none ∧
      ∃ g, s.pool.pageTable.lookup 7 = some g ∧ s'.pool.pageTable.lookup 7 = some g := by
  have hr : run step (opened 2 fun _ ↦ none) [.fetchPage 7, .newPage, .unpinPage 0 true] =
      some ([some 7, some 0, none], _) := rfl
  have hfresh : Fresh 2 (fun _ ↦ none)
      ([] ++ [.fetchPage 7] ++ [.newPage] ++ [.unpinPage 0 true] ++ [.newPage]) := by
    refine fresh_concat.mpr ⟨fresh_concat.mpr ⟨fresh_concat.mpr ⟨fresh_concat.mpr ⟨fresh_nil, ?_⟩,
      ?_⟩, ?_⟩, ?_⟩
    · rintro ⟨⟩
    · rintro - os s ⟨⟩
      exact ⟨rfl, fun hmem ↦ absurd (List.of_mem_zip hmem).2 (by decide), by decide⟩
    · rintro ⟨⟩
    · rintro - os s ⟨⟩
      exact ⟨rfl, fun hmem ↦ absurd (List.of_mem_zip hmem).2 (by decide), by decide⟩
  have hmatched : Matched [.fetchPage 7, .newPage, .unpinPage 0 true] [some 7, some 0, none] := by
    refine fun i p ↦ ⟨?_, (held_le_length ..).trans ((List.length_take_le' ..).trans (by decide))⟩
    rcases i with _ | _ | _ | i
    · exact Nat.zero_le _
    · exact Nat.zero_le _
    · exact Nat.zero_le _
    · by_cases hp : 0 = p
      · subst hp
        simp [Call.unpins]
      · simp [Call.unpins, hp]
  obtain ⟨hnone, hstored, -, hpins⟩ := newPage_fresh hr rfl hfresh
  exact ⟨_, _, _, hr, rfl, hnone, hstored, (hpins hmatched).1 7 (by decide)⟩

/-- After `FetchPage(0)`, `NewPage` returns the id 0 and maps it to another frame; and on a file
that stores page 0 it returns the id 0 too. -/
theorem newPage_collides :
    (∃ os s s', run step (opened 2 fun _ ↦ none) [.fetchPage 0] = some (os, s) ∧
      s.pool.pageTable.lookup 0 = some 0 ∧ s.newPage = (some (0, 1), s') ∧
      s'.pool.pageTable.lookup 0 = some 1) ∧
    ∃ s', (opened 2 fun p ↦ if p = 0 then some fun _ ↦ 1 else none).newPage =
      (some (0, 0), s') :=
  ⟨⟨_, _, _, rfl, rfl, rfl, rfl⟩, _, rfl⟩

end Store

end StingDB
