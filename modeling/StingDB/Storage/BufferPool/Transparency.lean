import StingDB.Storage.BufferPool.Clients

/-!
# The buffer pool is transparent

Its clients see a flat memory: `NewPage` returns zeros, and `FetchPage` returns the bytes last
written to the page, wherever the page has been in between.

Where those bytes are at a given moment is `Store.Shows`.  While a page is resident they are in
its frame; while it is not they are in the file.  They are in the file as well if the page is
resident and clean and nobody who has written to it still has it pinned; this is what lets a clean
page be evicted without a write, and it is why a client who has written must release its pin with
`is_dirty`.

The simulation needs the pins on a page to be no more than `2 ^ 32`.  With one more, releasing one
of them makes the frame a candidate for eviction, another page moves in, and the clients that still
have the first page pinned write over it: `stale_pin`.
-/

set_option autoImplicit false

namespace StingDB

open Machine

/-- The pool and the file have the bytes `memory`, given what the clients have pinned and may have
written to since the page was last written back. -/
structure Store.Shows (s : Store) (pins : List Pin) (memory : PageId → PageData) : Prop where
  resident : ∀ {p f}, s.pool.pageTable.lookup p = some f → (s.pool.pages f).data = memory p
  absent : ∀ {p}, s.pool.pageTable.lookup p = none → s.disk.readPage p = memory p
  clean : ∀ {p f}, s.pool.pageTable.lookup p = some f → (s.pool.pages f).isDirty = false →
    (∀ pin ∈ pins, pin.page = p → pin.modified = false) → s.disk.readPage p = memory p

namespace Store.Shows

variable {s s' : Store} {pins : List Pin} {memory : PageId → PageData} {p : PageId} {f : ℕ}

/-- A victim's bytes are in the file once it is out of the table. -/
theorem acquireFrame (h : s.Shows pins memory) (hh : s.pool.Holds pins none)
    (ha : s.acquireFrame = some (f, s')) : s'.Shows pins memory := by
  have hlook := fun {q g} ↦ hh.represents.lookup_acquireFrame ha (q := q) (g := g)
  obtain ⟨rest, -, rfl⟩ | ⟨hf, rest, hl, rfl⟩ := Store.acquireFrame_eq_some ha
  · exact ⟨h.resident, h.absent, h.clean⟩
  · obtain ⟨p, hp, hheld⟩ :=
      hh.represents.mem_lru.mp (hl ▸ List.mem_append_right _ List.mem_cons_self)
    have hid : (s.pool.pages f).pageId = p := hh.represents.pageId_eq hp
    have hunpinned : ∀ pin ∈ pins, pin.page = p → pin.modified = false :=
      fun pin hpin heq ↦ absurd (heq ▸ hheld) (heldBy_pos hpin)
    -- the victim is in the file
    have hvictim : (if (s.pool.pages f).isDirty then
        s.disk.writePageAsync (s.pool.pages f).pageId (s.pool.pages f).data
        else s.disk).readPage p = memory p := by
      split
      · rw [hid, DiskManager.readPage_writePageAsync_self, h.resident hp]
      · rename_i hd
        exact h.clean hp (by simpa using hd) hunpinned
    -- and no other page has changed there
    have hother : ∀ q, q ≠ p → (if (s.pool.pages f).isDirty then
        s.disk.writePageAsync (s.pool.pages f).pageId (s.pool.pages f).data
        else s.disk).readPage q = s.disk.readPage q := by
      intro q hq
      split
      · rw [hid, DiskManager.readPage_writePageAsync_of_ne _ _ hq]
      · rfl
    exact
      { resident := by
          intro q g hq
          exact h.resident (hlook.mp hq).1
        absent := by
          intro q hq
          by_cases hqp : q = p
          · rw [hqp]
            exact hvictim
          · refine (hother q hqp).trans (h.absent ?_)
            rw [Option.eq_none_iff_forall_ne_some] at hq ⊢
            intro g hg
            refine hq g (hlook.mpr ⟨hg, ?_⟩)
            rintro rfl
            exact hqp (hh.represents.injective hg hp)
        clean := by
          intro q g hq hd hpins
          obtain ⟨hq, hg⟩ := hlook.mp hq
          have hqp : q ≠ p := by
            rintro rfl
            exact hg (Option.some.inj (hq.symm.trans hp))
          exact (hother q hqp).trans (h.clean hq hd hpins) }

/-- A page comes into a frame with the bytes it has in the file. -/
theorem install (h : s.Shows pins memory) (hh : s.pool.Holds pins (some f))
    (hp : s.pool.pageTable.lookup p = none) (disk : DiskManager)
    (hdisk : ∀ q, disk.readPage q = s.disk.readPage q) {data : PageData} (hdata : data = memory p) :
    Store.Shows { pool := s.pool.install f p data, disk } (⟨p, f, false⟩ :: pins) memory := by
  have hself : ∀ {g}, (s.pool.install f p data).pageTable.lookup p = some g → g = f :=
    fun hq ↦ (Option.some.inj ((AList.lookup_insert _).symm.trans hq)).symm
  have hother : ∀ {q g}, q ≠ p → (s.pool.install f p data).pageTable.lookup q = some g →
      s.pool.pageTable.lookup q = some g ∧ (s.pool.install f p data).pages g = s.pool.pages g := by
    intro q g hqp hq
    have hq' := (AList.lookup_insert_ne hqp).symm.trans hq
    refine ⟨hq', s.pool.setPage_pages_of_ne f _ ?_⟩
    rintro rfl
    exact hh.represents.limbo_unmapped rfl hq'
  exact
    { resident := by
        intro q g hq
        by_cases hqp : q = p
        · subst hqp
          rw [hself hq, ← hdata]
          exact congrArg Page.data (s.pool.setPage_pages_self f _)
        · dsimp only
          rw [(hother hqp hq).2]
          exact h.resident (hother hqp hq).1
      absent := by
        intro q hq
        have hqp : q ≠ p := by
          rintro rfl
          exact absurd ((AList.lookup_insert _).symm.trans hq) (by simp)
        exact (hdisk q).trans (h.absent ((AList.lookup_insert_ne hqp).symm.trans hq))
      clean := by
        intro q g hq hd hpins
        rw [hdisk]
        by_cases hqp : q = p
        · rw [hqp]
          exact h.absent hp
        · dsimp only at hd
          rw [(hother hqp hq).2] at hd
          exact h.clean (hother hqp hq).1 hd
            fun pin hpin ↦ hpins pin (List.mem_cons_of_mem _ hpin) }

/-- A page that is resident already gets one more pin. -/
theorem pin (h : s.Shows pins memory) :
    Store.Shows { s with pool := s.pool.pin f } (⟨p, f, false⟩ :: pins) memory := by
  exact
    { resident := fun hq ↦ (s.pool.pin_data f _).trans (h.resident hq)
      absent := h.absent
      clean := by
        intro q g hq hd hpins
        exact h.clean hq (s.pool.pin_isDirty f g ▸ hd) fun pin hpin ↦
          hpins pin (List.mem_cons_of_mem _ hpin) }

/-- A pin is released, with `is_dirty` if its client has written to the page. -/
theorem unpin (h : s.Shows pins memory) {pin : Pin} {isDirty : Bool}
    (hp : s.pool.pageTable.lookup pin.page = some pin.frame)
    (hdirty : pin.modified = true → isDirty = true) :
    Store.Shows { s with pool := s.pool.unpin pin.frame isDirty } (pins.erase pin) memory := by
  exact
    { resident := by
        intro q g hq
        rw [BufferPoolManager.unpin_pageTable] at hq
        exact (s.pool.unpin_data pin.frame isDirty g).trans (h.resident hq)
      absent := by
        intro q hq
        rw [BufferPoolManager.unpin_pageTable] at hq
        exact h.absent hq
      clean := by
        intro q g hq hd hpins
        rw [BufferPoolManager.unpin_pageTable] at hq
        dsimp only at hd
        rw [BufferPoolManager.unpin_isDirty, Bool.or_eq_false_iff] at hd
        refine h.clean hq hd.1 fun pin' hpin' heq ↦ ?_
        by_cases hpp : pin' = pin
        · -- the pin that is released was on this page, so its client had not written
          subst hpp heq
          have hg : g = pin'.frame := Option.some.inj (hq.symm.trans hp)
          have hnot : isDirty = false := by simpa [hg] using hd.2
          rw [hnot] at hdirty
          simpa using hdirty
        · exact hpins pin' ((List.mem_erase_of_ne hpp).mpr hpin') heq }

/-- A client writes to a page it has pinned. -/
theorem write (h : s.Shows pins memory) (hh : s.pool.Holds pins none) {pin : Pin}
    (hpin : pin ∈ pins) (data : PageData) :
    (s.writeFrame pin.frame data).Shows ({ pin with modified := true } :: pins.erase pin)
      (Function.update memory pin.page data) := by
  have hp := hh.mapped pin hpin
  have hother : ∀ {q g}, q ≠ pin.page → s.pool.pageTable.lookup q = some g →
      (s.writeFrame pin.frame data).pool.pages g = s.pool.pages g := by
    intro q g hqp hq
    refine s.pool.setPage_pages_of_ne _ _ ?_
    rintro rfl
    exact hqp (hh.represents.injective hq hp)
  exact
    { resident := by
        intro q g hq
        by_cases hqp : q = pin.page
        · subst hqp
          rw [Option.some.inj (hq.symm.trans hp), Function.update_self]
          exact congrArg Page.data (s.pool.setPage_pages_self _ _)
        · rw [hother hqp hq, Function.update_of_ne hqp]
          exact h.resident hq
      absent := by
        intro q hq
        have hqp : q ≠ pin.page := by
          rintro rfl
          exact absurd (hp.symm.trans hq) (by simp)
        rw [Function.update_of_ne hqp]
        exact h.absent hq
      clean := by
        intro q g hq hd hpins
        have hqp : q ≠ pin.page := by
          rintro rfl
          exact absurd (hpins _ List.mem_cons_self rfl) (by simp)
        rw [hother hqp hq] at hd
        rw [Function.update_of_ne hqp]
        refine h.clean hq hd fun pin' hpin' heq ↦ hpins pin' (List.mem_cons_of_mem _ ?_) heq
        refine (List.mem_erase_of_ne ?_).mpr hpin'
        rintro rfl
        exact hqp heq.symm }

/-- A resident page is written back. -/
theorem flushFrame (h : s.Shows pins memory) (hh : s.pool.Holds pins none)
    (hp : s.pool.pageTable.lookup p = some f) : (s.flushFrame p f).Shows pins memory := by
  rw [Store.flushFrame]
  split
  · have hread : ∀ q, q ≠ p → (s.disk.writePageAsync p (s.pool.pages f).data).readPage q =
        s.disk.readPage q := fun q hq ↦ DiskManager.readPage_writePageAsync_of_ne _ _ hq
    exact
      { resident := by
          intro q g hq
          by_cases hg : g = f
          · subst hg
            exact (congrArg Page.data (s.pool.setPage_pages_self g _)).trans (h.resident hq)
          · exact (congrArg Page.data (s.pool.setPage_pages_of_ne f _ hg)).trans (h.resident hq)
        absent := by
          intro q hq
          have hqp : q ≠ p := by
            rintro rfl
            exact absurd (hp.symm.trans hq) (by simp)
          exact (hread q hqp).trans (h.absent hq)
        clean := by
          intro q g hq hd hpins
          by_cases hqp : q = p
          · subst hqp
            exact (DiskManager.readPage_writePageAsync_self ..).trans (h.resident hp)
          · have hg : g ≠ f := by
              rintro rfl
              exact hqp (hh.represents.injective hq hp)
            rw [BufferPoolManager.setPage_pages_of_ne _ _ _ hg] at hd
            exact (hread q hqp).trans (h.clean hq hd hpins) }
  · exact h

end Store.Shows

namespace PoolClients

/-- A client that has written to a page releases its pin with `is_dirty`. -/
def Honest (_ : PoolClients) (c : Call) : Prop :=
  ∀ pin isDirty, c = .unpinPage pin isDirty → pin.modified = true → isDirty = true

/-- What holds between calls. -/
structure Transparent (s : PoolClients) : Prop extends Sound s where
  shows : s.store.Shows s.pins s.memory
  /-- Nobody has written to a page before its id was handed out. -/
  fresh : ∀ {p}, p ∉ s.handed → s.memory p = Block.zero

/-- What a call returns is what the flat memory holds. -/
def Truthful (s : PoolClients) (c : Call) (o : Result) : Prop :=
  ∀ p data, o = .page (some (p, data)) →
    (c = .newPage → data = Block.zero) ∧ (∀ q, c = .fetchPage q → p = q ∧ data = s.memory q)

theorem transparent_start (poolSize : ℕ) : (start poolSize fun _ ↦ none).Transparent where
  toSound := sound_start poolSize _
  shows :=
    { resident := fun h ↦ absurd h (by simp [start, BufferPoolManager.create])
      absent := fun _ ↦ rfl
      clean := fun h ↦ absurd h (by simp [start, BufferPoolManager.create]) }
  fresh _ := rfl

/-- What a call leaves of `Transparent`, besides `Sound`, and what it returns. -/
def Shown (s : PoolClients) (c : Call) (o : Result) (s' : PoolClients) : Prop :=
  (s'.store.Shows s'.pins s'.memory ∧ ∀ {p}, p ∉ s'.handed → s'.memory p = Block.zero) ∧
    Truthful s c o

theorem Transparent.newPage {s s' : PoolClients} {o : Result} (h : s.Transparent)
    (hs : PoolClients.step s .newPage = some (o, s')) : Shown s .newPage o s' := by
  obtain ⟨rfl, rfl⟩ | ⟨f, s₁, ha, heq⟩ := newPage_step hs
  · exact ⟨⟨h.shows, h.fresh⟩, by rintro _ _ ⟨⟩⟩
  · cases heq
    have hnext : s₁.disk.nextPageId = s.store.disk.nextPageId := Store.acquireFrame_nextPageId ha
    have hnone : s₁.pool.pageTable.lookup s₁.disk.nextPageId = none := by
      rw [Option.eq_none_iff_forall_ne_some, hnext]
      exact fun g hg ↦ h.nextPageId_notMem
        (h.resident_handed ((h.holds.represents.lookup_acquireFrame ha).mp hg).1)
    have hzero : Block.zero = s.memory s₁.disk.nextPageId := by
      rw [hnext, h.fresh h.nextPageId_notMem]
    refine ⟨⟨(h.shows.acquireFrame h.holds ha).install (h.holds.acquireFrame ha) hnone
      s₁.disk.allocatePage.2 (fun _ ↦ rfl) hzero,
      fun hp ↦ h.fresh fun hmem ↦ hp (List.mem_cons_of_mem _ hmem)⟩, ?_⟩
    intro p data ho
    cases ho
    exact ⟨fun _ ↦ congrArg Page.data (s₁.pool.setPage_pages_self f _), by rintro _ ⟨⟩⟩

theorem Transparent.fetchPage {s s' : PoolClients} {p : PageId} {o : Result} (h : s.Transparent)
    (hs : PoolClients.step s (.fetchPage p) = some (o, s')) : Shown s (.fetchPage p) o s' := by
  obtain ⟨-, ⟨rfl, rfl⟩ | ⟨f, hp, heq⟩ | ⟨hp, f, s₁, ha, heq⟩⟩ := fetchPage_step hs
  · exact ⟨⟨h.shows, h.fresh⟩, by rintro _ _ ⟨⟩⟩
  · cases heq
    refine ⟨⟨h.shows.pin, h.fresh⟩, fun q data ho ↦ ?_⟩
    cases ho
    refine ⟨by rintro ⟨⟩, fun q hq ↦ ?_⟩
    cases hq
    exact ⟨rfl, (h.shows.pin (p := p)).resident (f := f) hp⟩
  · cases heq
    have hnone : s₁.pool.pageTable.lookup p = none := by
      rw [Option.eq_none_iff_forall_ne_some]
      intro g hg
      rw [((h.holds.represents.lookup_acquireFrame ha).mp hg).1] at hp
      exact absurd hp (by simp)
    have hshows := h.shows.acquireFrame h.holds ha
    have hread : s₁.disk.readPage p = s.memory p := hshows.absent hnone
    refine ⟨⟨hshows.install (h.holds.acquireFrame ha) hnone _ (fun _ ↦ rfl) hread, h.fresh⟩,
      fun q data ho ↦ ?_⟩
    cases ho
    refine ⟨by rintro ⟨⟩, fun q hq ↦ ?_⟩
    cases hq
    exact ⟨rfl, (congrArg Page.data (s₁.pool.setPage_pages_self f _)).trans hread⟩

theorem Transparent.step {s s' : PoolClients} {c : Call} {o : Result} (h : s.Transparent)
    (hc : Countable s c) (hhonest : Honest s c) (hs : step s c = some (o, s')) :
    s'.Transparent ∧ Truthful s c o := by
  have hsound : s'.Sound := h.toSound.step hc hs
  suffices hrest : Shown s c o s' from ⟨⟨hsound, hrest.1.1, hrest.1.2⟩, hrest.2⟩
  cases c with
  | newPage => exact h.newPage hs
  | fetchPage p => exact h.fetchPage hs
  | write pin data =>
    rw [PoolClients.step] at hs
    split at hs
    · rename_i hpin
      cases hs
      refine ⟨⟨h.shows.write h.holds hpin data, fun {p} hp ↦ ?_⟩, by rintro _ _ ⟨⟩⟩
      have hne : p ≠ pin.page := by
        rintro rfl
        exact hp (h.resident_handed (h.holds.mapped pin hpin))
      exact (Function.update_of_ne hne _ _).trans (h.fresh hp)
    · exact absurd hs (by simp)
  | unpinPage pin isDirty =>
    rw [PoolClients.step] at hs
    split at hs
    · rename_i hpin
      have hp := h.holds.mapped pin hpin
      simp only [Store.unpinPage, hp] at hs
      cases hs
      exact ⟨⟨h.shows.unpin hp (hhonest pin isDirty rfl), h.fresh⟩, by rintro _ _ ⟨⟩⟩
    · exact absurd hs (by simp)
  | flushPage p =>
    simp only [PoolClients.step, Store.flushPage] at hs
    split at hs
    · cases hs
      exact ⟨⟨h.shows, h.fresh⟩, by rintro _ _ ⟨⟩⟩
    · rename_i f hp
      cases hs
      exact ⟨⟨h.shows.flushFrame h.holds hp, h.fresh⟩, by rintro _ _ ⟨⟩⟩
  | flushAllPages =>
    cases hs
    have hall := Store.flushAllPages_induction
      (P := fun st ↦ st.Shows s.pins s.memory ∧ st.pool.Holds s.pins none) ⟨h.shows, h.holds⟩
      fun st p f hpt hst hp ↦
        ⟨hst.1.flushFrame hst.2 (hpt ▸ hp), hst.2.flushFrame p f⟩
    exact ⟨⟨hall.1, h.fresh⟩, by rintro _ _ ⟨⟩⟩

/-- **Cache transparency.**  For every pool size and every run of the clients from an empty file,
with fewer than `2 ^ 32 - 1` calls of `NewPage`, no more than `2 ^ 32` pins on any page at any time
and every written page released as dirty: whenever `NewPage` returns a page it is all zeros, and
whenever `FetchPage` returns a page it is the one asked for, with the bytes last written to it. -/
theorem transparent_of_run {poolSize : ℕ} {s s' : PoolClients} {cs : List Call} {c : Call}
    {os : List Result} {o : Result} (hr : run step (start poolSize fun _ ↦ none) cs = some (os, s))
    (hs : step s c = some (o, s'))
    (hnew : (cs ++ [c]).countP Call.isNewPage < 2 ^ 32 - 1)
    (hpins : Along step (PinsAtMost (2 ^ 32)) (start poolSize fun _ ↦ none) (cs ++ [c]))
    (hhonest : Along step Honest (start poolSize fun _ ↦ none) (cs ++ [c])) :
    Truthful s c o := by
  have hcountable : Along step Countable (start poolSize fun _ ↦ none) (cs ++ [c]) :=
    along_countable le_rfl (by simpa [start] using hnew) hpins
  have hguard := along_concat.mp (hcountable.and hhonest)
  have htransparent : s.Transparent :=
    run_invariant (fun _ _ _ _ h hP hs ↦ (h.step hP.1 hP.2 hs).1) (transparent_start poolSize)
      hguard.1 hr
  obtain ⟨hc, hh⟩ := hguard.2 os s hr
  exact (htransparent.step hc hh hs).2

theorem along_honest {s : PoolClients} {cs : List Call}
    (h : ∀ pin isDirty, .unpinPage pin isDirty ∈ cs → pin.modified = true → isDirty = true) :
    Along step Honest s cs := by
  induction cs generalizing s with
  | nil => trivial
  | cons c cs ih =>
    refine ⟨fun pin d hc ↦ h pin d (hc ▸ List.mem_cons_self), fun o s' _ ↦ ih fun pin d hmem ↦ ?_⟩
    exact h pin d (List.mem_cons_of_mem _ hmem)

/-- A page of ones is released as dirty in a pool of one frame, evicted by `NewPage`, and fetched
when the frame is free again. -/
theorem transparent_of_run_one :
    ∃ s os o s', run step (start 1 fun _ ↦ none)
        [.newPage, .write ⟨0, 0, false⟩ fun _ ↦ 1, .unpinPage ⟨0, 0, true⟩ true, .newPage,
          .unpinPage ⟨1, 0, false⟩ false] = some (os, s) ∧
      step s (.fetchPage 0) = some (o, s') ∧ Truthful s (.fetchPage 0) o := by
  obtain ⟨⟨os', s'⟩, hr⟩ := Option.isSome_iff_exists.mp
    (rfl : (run step (start 1 fun _ ↦ none)
      ([.newPage, .write ⟨0, 0, false⟩ fun _ ↦ 1, .unpinPage ⟨0, 0, true⟩ true, .newPage,
        .unpinPage ⟨1, 0, false⟩ false] ++ [.fetchPage 0])).isSome = true)
  obtain ⟨s, os, o, hrun, hs, -⟩ := run_concat.mp hr
  exact ⟨s, os, o, s', hrun, hs, transparent_of_run hrun hs (by decide)
    (along_pinsAtMost (by decide)) (along_honest (by simp))⟩

/-! ## One pin too many -/

/-- `NewPage` when the last candidate for eviction is a clean frame, and nothing else is free. -/
theorem step_newPage_evict {s : PoolClients} {f : ℕ} (hfree : s.store.pool.freeList = [])
    (hlru : s.store.pool.lruReplacer = [f]) (hclean : (s.store.pool.pages f).isDirty = false) :
    ∃ o s₁, step s .newPage = some (o, s₁) ∧
      s₁.handed = s.store.disk.nextPageId :: s.handed ∧
      s₁.pins = ⟨s.store.disk.nextPageId, f, false⟩ :: s.pins ∧ s₁.memory = s.memory ∧
      s₁.store.pool.pageTable.lookup s.store.disk.nextPageId = some f := by
  have hnew : s.store.newPage = (some (s.store.disk.nextPageId, f),
      { pool := ({ s.store.pool with lruReplacer := [] }.unmapVictim f).install f
          s.store.disk.nextPageId Block.zero
        disk := s.store.disk.allocatePage.2 }) := by
    simp [Store.newPage, Store.acquireFrame, BufferPoolManager.takeFrame, hfree, hlru, hclean,
      DiskManager.allocatePage]
  rw [step, hnew]
  exact ⟨_, _, rfl, rfl, rfl, rfl, AList.lookup_insert _⟩

/-- A page that is resident is fetched with the bytes of its frame. -/
theorem step_fetchPage_resident {s : PoolClients} {p : PageId} {f : ℕ} (hmem : p ∈ s.handed)
    (hp : s.store.pool.pageTable.lookup p = some f) :
    ∃ s', step s (.fetchPage p) = some (.page (some (p, (s.store.pool.pages f).data)), s') := by
  simp only [step, if_pos hmem, Store.fetchPage, hp, take]
  simp [BufferPoolManager.pin, BufferPoolManager.setPage]

/-- A client still has a page pinned while its frame is the next to be evicted: another page moves
in there, and what the client writes shows up in that one. -/
theorem stale_pin {s : PoolClients} {pin : Pin} (hfree : s.store.pool.freeList = [])
    (hlru : s.store.pool.lruReplacer = [pin.frame])
    (hclean : (s.store.pool.pages pin.frame).isDirty = false) (hpin : pin ∈ s.pins)
    (hne : s.store.disk.nextPageId ≠ pin.page) (data : PageData) :
    ∃ s₁ os, run step s [.newPage, .write pin data] = some (os, s₁) ∧
      s₁.memory s.store.disk.nextPageId = s.memory s.store.disk.nextPageId ∧
      ∃ s₂, step s₁ (.fetchPage s.store.disk.nextPageId) =
        some (.page (some (s.store.disk.nextPageId, data)), s₂) := by
  obtain ⟨o, s₁, hs₁, hhanded, hpins, hmemory, hl⟩ := step_newPage_evict hfree hlru hclean
  have hpin₁ : pin ∈ s₁.pins := hpins ▸ List.mem_cons_of_mem _ hpin
  have hs₂ : step s₁ (.write pin data) = some _ := if_pos hpin₁
  refine ⟨_, _, run_cons.mpr ⟨o, s₁, _, hs₁, run_cons.mpr ⟨_, _, [], hs₂, rfl, rfl⟩, rfl⟩, ?_, ?_⟩
  · exact (Function.update_of_ne hne _ _).trans (congrFun hmemory _)
  · obtain ⟨s', hs'⟩ := step_fetchPage_resident (s := { s₁ with
        store := s₁.store.writeFrame pin.frame data
        pins := { pin with modified := true } :: s₁.pins.erase pin
        memory := Function.update s₁.memory pin.page data })
      (p := s.store.disk.nextPageId) (f := pin.frame) (hhanded ▸ List.mem_cons_self) hl
    refine ⟨s', hs'.trans ?_⟩
    rw [Store.writeFrame, BufferPoolManager.setPage_pages_self]

/-- Releasing a pin on a page whose counter is 1, or has wrapped to 1. -/
theorem step_unpinPage_one {s : PoolClients} {pin : Pin} (hpin : pin ∈ s.pins)
    (hp : s.store.pool.pageTable.lookup pin.page = some pin.frame)
    (hcount : (s.store.pool.pages pin.frame).pinCount = 1) :
    ∃ o s', step s (.unpinPage pin false) = some (o, s') ∧ s'.pins = s.pins.erase pin ∧
      s'.memory = s.memory ∧ s'.store.disk = s.store.disk ∧
      s'.store.pool.freeList = s.store.pool.freeList ∧
      s'.store.pool.lruReplacer = pin.frame :: s.store.pool.lruReplacer ∧
      (s'.store.pool.pages pin.frame).isDirty = (s.store.pool.pages pin.frame).isDirty := by
  simp only [step, if_pos hpin, Store.unpinPage, hp, BufferPoolManager.unpin, hcount, if_true,
    Bool.false_eq_true, if_false]
  exact ⟨_, _, rfl, rfl, rfl, rfl, rfl, rfl, by simp [BufferPoolManager.setPage]⟩

/-- A page of a pool of one frame is pinned `2 ^ 32 + 1` times and released once.  It is evicted for
the next page, whose bytes are then what one of the others writes: ones, where the flat memory has
zeros. -/
theorem transparency_lost :
    ∃ s os o s', run step (start 1 fun _ ↦ none)
        (.newPage :: (List.replicate (2 ^ 32) (.fetchPage 0) ++
          .unpinPage ⟨0, 0, false⟩ false :: [.newPage, .write ⟨0, 0, false⟩ fun _ ↦ 1])) =
          some (os, s) ∧
      step s (.fetchPage 1) = some (o, s') ∧ ¬ Truthful s (.fetchPage 1) o := by
  obtain ⟨o₀, s₀, hs₀, hhanded, hpins, hl, hlru, hfree, hcount, hclean, hnext, hmemory⟩ :=
    step_newPage_start
  obtain ⟨os₁, hs₁⟩ := run_fetchPage_replicate (c := 1) (p := 0) (by simp [hhanded]) hl hlru
    (hcount.trans rfl) (2 ^ 32)
  -- the counter has wrapped
  have hcount₁ : ((s₀.fetched 0 0 1 (2 ^ 32)).store.pool.pages 0).pinCount = 1 := by
    rw [fetched, BufferPoolManager.setPage_pages_self]
    rfl
  have hclean₁ : ((s₀.fetched 0 0 1 (2 ^ 32)).store.pool.pages 0).isDirty = false := by
    rw [fetched, BufferPoolManager.setPage_pages_self]
    exact hclean
  have hmem₁ : (⟨0, 0, false⟩ : Pin) ∈ (s₀.fetched 0 0 1 (2 ^ 32)).pins := by
    rw [fetched, hpins]
    exact List.mem_append_right _ List.mem_cons_self
  obtain ⟨o₂, s₂, hs₂, hpins₂, hmemory₂, hdisk₂, hfree₂, hlru₂, hclean₂⟩ :=
    step_unpinPage_one hmem₁ hl hcount₁
  have hmem₂ : (⟨0, 0, false⟩ : Pin) ∈ s₂.pins := by
    rw [hpins₂, ← List.count_pos_iff, List.count_erase_self, fetched, hpins, List.count_append,
      List.count_replicate_self]
    decide
  have hnext₂ : s₂.store.disk.nextPageId = 1 := (congrArg _ hdisk₂).trans hnext
  obtain ⟨s, os₃, hs, hzero, s', hs'⟩ := @stale_pin s₂ ⟨0, 0, false⟩ (hfree₂.trans hfree)
    (hlru₂.trans (congrArg _ hlru)) (hclean₂.trans hclean₁) hmem₂ (by rw [hnext₂]; decide)
    (fun _ ↦ 1)
  rw [hnext₂, hmemory₂, fetched, hmemory] at hzero
  rw [hnext₂] at hs'
  refine ⟨s, _, _, s', run_cons.mpr ⟨o₀, s₀, _, hs₀, run_append.mpr ⟨_, os₁, _, hs₁,
    run_cons.mpr ⟨o₂, s₂, os₃, hs₂, hs, rfl⟩, rfl⟩, rfl⟩, hs', fun htruth ↦ ?_⟩
  have heq := ((htruth 1 _ rfl).2 1 rfl).2
  rw [hzero] at heq
  exact absurd (congrFun heq 0) (by decide)

end PoolClients

end StingDB
