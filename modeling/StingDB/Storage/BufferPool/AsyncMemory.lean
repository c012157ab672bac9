import StingDB.Storage.BufferPool.AsyncContents
import StingDB.Storage.BufferPool.Clients

/-!
# Where the bytes of a page are while writes are in flight

`Store.Shows` says where a pool that takes each write at once has the bytes that its clients have
last written.  Here is what is left of it over asynchronous writes.  A resident page still has them
in its frame; but for a page that is not resident, or is clean, the file has them only once no write
of the page is in flight, and while one is, the bytes that it will write are those that the frame
has when the kernel comes to it.

The victim of an eviction is dirty until it is out of the table.  Its write has been submitted all
the same, so that it counts as clean here (`Settled`).
-/

set_option autoImplicit false

namespace StingDB

open BufferPoolManager

namespace AsyncStore

/-- A page that is not resident, or is clean, and that nobody who has written to it still has
pinned. -/
def Settled (s : AsyncStore) (pins : List Pin) (p : PageId) : Prop :=
  ∀ f, s.pool.pageTable.lookup p = some f →
    ((s.pool.pages f).isDirty = false ∨ ∃ t, s.pc = .waiting f t) ∧
      ∀ pin ∈ pins, pin.page = p → pin.modified = false

/-- The pool and the file have the bytes `memory`, or will have them once the writes in flight are
performed. -/
structure Shows (s : AsyncStore) (pins : List Pin) (memory : PageId → PageData) : Prop where
  resident : ∀ {p f}, s.pool.pageTable.lookup p = some f → (s.pool.pages f).data = memory p
  stored : ∀ {p}, (∀ w ∈ s.inflight, w.page ≠ p) → s.Settled pins p → s.disk.readPage p = memory p

theorem settled_of_none {s : AsyncStore} {pins : List Pin} {p : PageId}
    (hp : s.pool.pageTable.lookup p = none) : s.Settled pins p := by
  intro f hf
  rw [hp] at hf
  cases hf

namespace Coherent

variable {s : AsyncStore} {p q : PageId} {f g : ℕ} {t : Target}

theorem waiting (h : s.Coherent) (hpc : s.pc = .waiting f t) :
    s.pool.pageTable.lookup (s.pool.pages f).pageId = some f ∧ f ∉ s.pool.freeList ∧
      s.pool.pageTable.lookup (s.wanted t) = none := by
  have hpoised := h.poised
  rw [Poised, hpc] at hpoised
  exact hpoised

theorem loading (h : s.Coherent) (hpc : s.pc = .loading f t) :
    (∀ q, s.pool.pageTable.lookup q ≠ some f) ∧ f ∉ s.pool.freeList ∧
      s.pool.pageTable.lookup (s.wanted t) = none := by
  have hpoised := h.poised
  rw [Poised, hpc] at hpoised
  exact hpoised

theorem reading (h : s.Coherent) (hpc : s.pc = .reading f p) :
    (∀ q, s.pool.pageTable.lookup q ≠ some f) ∧ f ∉ s.pool.freeList ∧
      s.pool.pageTable.lookup p = none := by
  have hpoised := h.poised
  rw [Poised, hpc] at hpoised
  exact hpoised

theorem flushing (h : s.Coherent) {rest : List (Sigma fun _ : PageId ↦ ℕ)}
    (hpc : s.pc = .flushing rest) : ∀ e ∈ rest, s.pool.pageTable.lookup e.1 = some e.2 := by
  have hpoised := h.poised
  rw [Poised, hpc] at hpoised
  exact hpoised

theorem injective (h : s.Coherent) (hp : s.pool.pageTable.lookup p = some f)
    (hq : s.pool.pageTable.lookup q = some f) : p = q :=
  (h.pageId_eq hp).symm.trans (h.pageId_eq hq)

/-- No write is in flight of a page that is not resident. -/
theorem not_inflight (h : s.Coherent) (hp : s.pool.pageTable.lookup p = none) :
    ∀ w ∈ s.inflight, w.page ≠ p := by
  rintro w hw rfl
  have hmap := h.inflight_mapped w hw
  rw [hp] at hmap
  cases hmap

end Coherent

namespace Shows

variable {s s' : AsyncStore} {pins pins' : List Pin} {memory : PageId → PageData} {p : PageId}
  {f : ℕ}

/-- A step after which the file is the same, and the writes in flight and the pages that are not
settled are at least those from before. -/
theorem of_stored (h : s.Shows pins memory)
    (hresident : ∀ {p f}, s'.pool.pageTable.lookup p = some f → (s'.pool.pages f).data = memory p)
    (hdisk : ∀ q, s'.disk.readPage q = s.disk.readPage q) (hsub : s.inflight ⊆ s'.inflight)
    (hsettled : ∀ q, (∀ w ∈ s'.inflight, w.page ≠ q) → s'.Settled pins' q → s.Settled pins q) :
    s'.Shows pins' memory where
  resident := hresident
  stored {q} hq hs := (hdisk q).trans (h.stored (fun w hw ↦ hq w (hsub hw)) (hsettled q hq hs))

/-- A pool that goes on to something else than waiting for the write of a victim. -/
theorem of_pc (h : s.Shows pins memory) (pc : Pc) (hpc : ∀ f t, pc ≠ .waiting f t) (n : ℕ) :
    ({ s with posted := n, pc } : AsyncStore).Shows pins memory := by
  refine h.of_stored h.resident (fun _ ↦ rfl) (List.Subset.refl _) fun q _ hs g hg ↦ ?_
  obtain ⟨hd, hpins⟩ := hs g hg
  exact ⟨Or.inl (hd.resolve_right fun ⟨t, heq⟩ ↦ hpc g t heq), hpins⟩

theorem pin (h : s.Shows pins memory) :
    ({ s with pool := s.pool.pin f } : AsyncStore).Shows (⟨p, f, false⟩ :: pins) memory := by
  refine h.of_stored (fun hq ↦ (s.pool.pin_data f _).trans (h.resident hq)) (fun _ ↦ rfl)
    (List.Subset.refl _) fun q _ hs g hg ↦ ?_
  obtain ⟨hd, hpins⟩ := hs g hg
  refine ⟨hd.imp_left fun hd ↦ ?_, fun pin hpin ↦ hpins pin (List.mem_cons_of_mem _ hpin)⟩
  exact s.pool.pin_isDirty f g ▸ hd

/-- A pin is released, with `is_dirty` if its client has written to the page. -/
theorem unpin (h : s.Shows pins memory) (hpc : s.pc = .idle) {pin : Pin} {isDirty : Bool}
    (hp : s.pool.pageTable.lookup pin.page = some pin.frame)
    (hdirty : pin.modified = true → isDirty = true) :
    ({ s with pool := s.pool.unpin pin.frame isDirty } : AsyncStore).Shows (pins.erase pin)
      memory := by
  refine h.of_stored (fun hq ↦ ?_) (fun _ ↦ rfl) (List.Subset.refl _) fun q _ hs g hg ↦ ?_
  · rw [unpin_pageTable] at hq
    exact (s.pool.unpin_data pin.frame isDirty _).trans (h.resident hq)
  · obtain ⟨hd, hpins⟩ := hs g (by rwa [unpin_pageTable])
    obtain ⟨hd, hnot⟩ : (s.pool.pages g).isDirty = false ∧
        (isDirty && decide (g = pin.frame)) = false := by
      have hd := hd.resolve_right (by simp [hpc])
      rwa [unpin_isDirty, Bool.or_eq_false_iff] at hd
    refine ⟨Or.inl hd, fun pin' hpin' heq ↦ ?_⟩
    by_cases hpp : pin' = pin
    · -- the pin that is released was on this page, so its client had not written
      subst hpp heq
      have hgf : g = pin'.frame := Option.some.inj (hg.symm.trans hp)
      rw [decide_eq_true hgf, Bool.and_true] at hnot
      rw [hnot] at hdirty
      simpa using hdirty
    · exact hpins pin' ((List.mem_erase_of_ne hpp).mpr hpin') heq

/-- A client writes to a page it has pinned. -/
theorem write (h : s.Shows pins memory) (hc : s.Coherent) {pin : Pin}
    (hp : s.pool.pageTable.lookup pin.page = some pin.frame) (data : PageData) :
    (s.write pin.frame data).Shows ({ pin with modified := true } :: pins.erase pin)
      (Function.update memory pin.page data) := by
  have hother : ∀ {q g}, q ≠ pin.page → s.pool.pageTable.lookup q = some g →
      (s.write pin.frame data).pool.pages g = s.pool.pages g := by
    intro q g hqp hq
    refine s.pool.setPage_pages_of_ne _ _ ?_
    rintro rfl
    exact hqp (hc.injective hq hp)
  refine ⟨fun {q g} hq ↦ ?_, fun {q} hin hs ↦ ?_⟩
  · by_cases hqp : q = pin.page
    · subst hqp
      rw [Option.some.inj (hq.symm.trans hp), Function.update_self]
      exact congrArg Page.data (s.pool.setPage_pages_self _ _)
    · rw [hother hqp hq, Function.update_of_ne hqp]
      exact h.resident hq
  · have hqp : q ≠ pin.page := by
      rintro rfl
      exact absurd ((hs _ hp).2 _ List.mem_cons_self rfl) (by simp)
    rw [Function.update_of_ne hqp]
    refine h.stored hin fun g hg ↦ ?_
    obtain ⟨hd, hpins⟩ := hs g hg
    refine ⟨hd.imp_left fun hd ↦ hother hqp hg ▸ hd, fun pin' hpin' heq ↦ ?_⟩
    refine hpins pin' (List.mem_cons_of_mem _ ((List.mem_erase_of_ne ?_).mpr hpin')) heq
    rintro rfl
    exact hqp heq.symm

/-- **The kernel performs a write**, of the bytes that the page has now. -/
theorem perform (h : s.Shows pins memory) (hc : s.Coherent) {w : Submission}
    (hw : w ∈ s.inflight) : (s.perform w).Shows pins memory := by
  refine ⟨h.resident, fun {q} hin hs ↦ ?_⟩
  by_cases hqw : q = w.page
  · subst hqw
    rw [readPage_perform_self]
    exact h.resident (hc.inflight_mapped w hw)
  · rw [readPage_perform_of_ne s w hqw]
    refine h.stored (fun v hv heq ↦ ?_) hs
    refine hin v ((List.mem_erase_of_ne ?_).mpr hv) heq
    rintro rfl
    exact hqw heq.symm

/-- A resident page is passed to `WritePageAsync`, and marked clean. -/
theorem flushFrame (h : s.Shows pins memory) (hc : s.Coherent)
    (hp : s.pool.pageTable.lookup p = some f) : (s.flushFrame p f).Shows pins memory := by
  rw [AsyncStore.flushFrame]
  split
  · have hother : ∀ {q g}, q ≠ p → s.pool.pageTable.lookup q = some g →
        (s.pool.setPage f ((s.pool.pages f).setDirty false)).pages g = s.pool.pages g := by
      intro q g hqp hq
      refine s.pool.setPage_pages_of_ne _ _ ?_
      rintro rfl
      exact hqp (hc.injective hq hp)
    have hdata : ∀ g, ((s.pool.setPage f ((s.pool.pages f).setDirty false)).pages g).data =
        (s.pool.pages g).data := by
      intro g
      by_cases hg : g = f
      · rw [hg, setPage_pages_self, Page.setDirty_data]
      · rw [setPage_pages_of_ne _ _ _ hg]
    refine h.of_stored (fun hq ↦ (hdata _).trans (h.resident hq)) (fun _ ↦ rfl)
      (List.subset_append_left _ _) fun q hin hs g hg ↦ ?_
    have hqp : q ≠ p := by
      rintro rfl
      exact hin ⟨q, f⟩ (List.mem_append_right _ List.mem_cons_self) rfl
    obtain ⟨hd, hpins⟩ := hs g hg
    exact ⟨hd.imp_left fun hd ↦ hother hqp hg ▸ hd, hpins⟩
  · exact h

/-- The victim goes out of the table.  The file has its bytes. -/
theorem unmapVictim (h : s.Shows pins memory)
    (hsettled : s.Settled pins (s.pool.pages f).pageId) (pool : BufferPoolManager)
    (hpool : pool.pages = s.pool.pages ∧ pool.pageTable = s.pool.pageTable) (n : ℕ) (t : Target) :
    ({ s with posted := n, pool := pool.unmapVictim f, pc := .loading f t } : AsyncStore).Shows pins
      memory := by
  have hlook : ∀ {q g}, (pool.unmapVictim f).pageTable.lookup q = some g ↔
      q ≠ (s.pool.pages f).pageId ∧ s.pool.pageTable.lookup q = some g := by
    intro q g
    rw [lookup_unmapVictim, hpool.1, hpool.2]
  refine h.of_stored (fun {q g} hq ↦ ?_) (fun _ ↦ rfl) (List.Subset.refl _) fun q _ hs g hg ↦ ?_
  · refine Eq.trans ?_ (h.resident (hlook.mp hq).2)
    exact congrArg Page.data (congrFun hpool.1 g)
  · by_cases hq : q = (s.pool.pages f).pageId
    · subst hq
      exact hsettled g hg
    · obtain ⟨hd, hpins⟩ := hs g (hlook.mpr ⟨hq, hg⟩)
      refine ⟨Or.inl ?_, hpins⟩
      have hd := hd.resolve_right (by rintro ⟨_, ⟨⟩⟩)
      exact congrFun hpool.1 g ▸ hd

/-- A frame is found. -/
theorem acquire (h : s.Shows pins memory) (hc : s.Coherent) (hpc : s.pc = .idle) (t : Target)
    (hunpinned : ∀ g ∈ s.pool.lruReplacer, ∀ pin ∈ pins, pin.page ≠ (s.pool.pages g).pageId) :
    (s.acquire t).Shows pins memory := by
  rw [AsyncStore.acquire]
  cases htake : s.pool.takeFrame with
  | none => exact h
  | some r =>
    obtain ⟨f, victim, pool⟩ := r
    obtain ⟨rfl, rest, -, rfl⟩ | ⟨rfl, -, rest, hlru, rfl⟩ := takeFrame_eq_some.mp htake
    · refine h.of_stored h.resident (fun _ ↦ rfl) (List.Subset.refl _) fun q _ hs g hg ↦ ?_
      obtain ⟨hd, hpins⟩ := hs g hg
      exact ⟨Or.inl (hd.resolve_right (by rintro ⟨_, ⟨⟩⟩)), hpins⟩
    · have hvictim : f ∈ s.pool.lruReplacer := hlru ▸ List.mem_append_right _ List.mem_cons_self
      have hmap : s.pool.pageTable.lookup (s.pool.pages f).pageId = some f :=
        (hc.lru_mapped hvictim).resolve_right (by simp [hpc, Pc.limbo])
      dsimp only
      split
      · refine h.of_stored h.resident (fun _ ↦ rfl) (List.subset_append_left _ _)
          fun q hin hs g hg ↦ ?_
        obtain ⟨hd, hpins⟩ := hs g hg
        refine ⟨Or.inl (hd.resolve_right ?_), hpins⟩
        rintro ⟨_, heq⟩
        cases heq
        -- the victim itself has a write in flight
        refine hin ⟨(s.pool.pages f).pageId, f⟩ (List.mem_append_right _ List.mem_cons_self) ?_
        exact hc.injective hmap hg
      · rename_i hd
        refine h.unmapVictim (f := f) (fun g hg ↦ ?_) { s.pool with lruReplacer := rest }
          ⟨rfl, rfl⟩ s.posted t
        obtain rfl : g = f := Option.some.inj (hg.symm.trans hmap)
        exact ⟨Or.inl (by simpa using hd),
          fun pin hpin heq ↦ absurd heq (hunpinned g hvictim pin hpin)⟩

/-- The frame that no page is mapped to is changed. -/
theorem reset (h : s.Shows pins memory) (hf : ∀ q, s.pool.pageTable.lookup q ≠ some f) {t : Target}
    (hpc : s.pc = .loading f t) (page : Page) (owner : ℕ → Option PageId) :
    ({ s with pool := s.pool.setPage f page, owner, pc := .reading f p } : AsyncStore).Shows pins
      memory := by
  have hpage : ∀ {q g}, s.pool.pageTable.lookup q = some g →
      (s.pool.setPage f page).pages g = s.pool.pages g := by
    intro q g hq
    refine s.pool.setPage_pages_of_ne _ _ ?_
    rintro rfl
    exact hf q hq
  refine h.of_stored (fun hq ↦ (congrArg Page.data (hpage hq)).trans (h.resident hq)) (fun _ ↦ rfl)
    (List.Subset.refl _) fun q _ hs g hg ↦ ?_
  obtain ⟨hd, hpins⟩ := hs g hg
  have hd := hd.resolve_right (by rintro ⟨_, ⟨⟩⟩)
  exact ⟨Or.inl (hpage hg ▸ hd), hpins⟩

/-- A page comes into a frame, with the bytes it is to have. -/
theorem install (h : s.Shows pins memory) (hf : ∀ q, s.pool.pageTable.lookup q ≠ some f)
    (hp : s.pool.pageTable.lookup p = none) {data : PageData} (hdata : data = memory p)
    {disk : DiskManager} (hdisk : ∀ q, disk.readPage q = s.disk.readPage q)
    (owner : ℕ → Option PageId) (since : PageId → List PageData) :
    ({ s with disk, pool := s.pool.install f p data, owner, since, pc := .idle } :
      AsyncStore).Shows (⟨p, f, false⟩ :: pins) memory := by
  have hpage : ∀ {q g}, s.pool.pageTable.lookup q = some g →
      (s.pool.install f p data).pages g = s.pool.pages g := by
    intro q g hq
    refine s.pool.install_pages_of_ne p data ?_
    rintro rfl
    exact hf q hq
  refine h.of_stored (fun {q g} hq ↦ ?_) hdisk (List.Subset.refl _) fun q _ hs g hg ↦ ?_
  · rcases lookup_install.mp hq with ⟨rfl, rfl⟩ | ⟨-, hq⟩
    · dsimp only
      rw [install_pages_self, hdata]
    · exact (congrArg Page.data (hpage hq)).trans (h.resident hq)
  · have hqp : q ≠ p := by
      rintro rfl
      rw [hp] at hg
      cases hg
    obtain ⟨hd, hpins⟩ := hs g (lookup_install.mpr (Or.inr ⟨hqp, hg⟩))
    have hd := hd.resolve_right (by rintro ⟨_, ⟨⟩⟩)
    exact ⟨Or.inl (hpage hg ▸ hd), fun pin hpin ↦ hpins pin (List.mem_cons_of_mem _ hpin)⟩

end Shows

end AsyncStore

end StingDB
