import StingDB.Storage.BPlusTree
import StingDB.Storage.BufferPool.Pins

/-!
# Whether a descent ends

From an inner node, the loop of `FindLeafPage` always goes on to the page with the id
`INVALID_PAGE_ID`, and from that page to itself.  So it comes through two pages at most, and ends
exactly if one of them is a leaf (`call_returns_iff`); else it goes round for good.  No node of a
tree has that id: what is read for it, as for every page beyond the end of the file, is zeros.
-/

set_option autoImplicit false

namespace StingDB

open Machine

/-! ## What is in a page -/

namespace Store

variable {s s' : Store} {p : PageId}

/-- The bytes of a page, in the pool or on disk. -/
def content (s : Store) (p : PageId) : PageData :=
  (s.pool.pageTable.lookup p).elim (s.disk.readPage p) fun f ↦ (s.pool.pages f).data

/-- There is no need to evict a page for this one. -/
def HasRoom (s : Store) (p : PageId) : Prop :=
  s.pool.freeList ≠ [] ∨ (s.pool.pageTable.lookup p).isSome

theorem content_of_lookup {f : ℕ} (hp : s.pool.pageTable.lookup p = some f) :
    s.content p = (s.pool.pages f).data := by
  rw [content, hp, Option.elim_some]

/-- Stores with the same pages in the same places. -/
theorem content_congr (htable : s'.pool.pageTable = s.pool.pageTable)
    (hdata : ∀ f, (s'.pool.pages f).data = (s.pool.pages f).data) (hdisk : s'.disk = s.disk) :
    s'.content p = s.content p := by
  simp only [content, htable, hdata, hdisk]

theorem content_unpinPage (s : Store) (q : PageId) (d : Bool) (p : PageId) :
    (s.unpinPage q d).2.content p = s.content p := by
  rw [unpinPage]
  split
  · rfl
  · exact content_congr (by simp) (fun f ↦ BufferPoolManager.unpin_data ..) rfl

/-- A page that is read into a free frame is not seen to have moved, and neither is any other. -/
theorem Settled.content_install {f : ℕ} {rest : List ℕ} (h : s.Settled)
    (hfree : s.pool.freeList = f :: rest) (hp : s.pool.pageTable.lookup p = none) (q : PageId) :
    content { s with
      pool := ({ s.pool with freeList := rest }.install f p (s.disk.readPage p)) } q =
      s.content q := by
  by_cases hq : q = p
  · have hlookup : ({ s.pool with freeList := rest }.install f p
        (s.disk.readPage p)).pageTable.lookup p = some f := AList.lookup_insert _
    rw [hq, content_of_lookup hlookup]
    dsimp only
    rw [BufferPoolManager.install_pages_self, content, hp, Option.elim_none]
  · have htable : ({ s.pool with freeList := rest }.install f p
        (s.disk.readPage p)).pageTable.lookup q = s.pool.pageTable.lookup q :=
      AList.lookup_insert_ne hq
    rw [content, content, htable]
    cases hg : s.pool.pageTable.lookup q with
    | none => rfl
    | some g =>
      -- the frame of a resident page is not a free one
      have hgf : g ≠ f := by
        rintro rfl
        exact h.placed.free_unmapped (hfree ▸ List.mem_cons_self) hg
      simp only [Option.elim_some]
      rw [BufferPoolManager.install_pages_of_ne _ _ _ hgf]

/-- **A fetch for which there is room** gives out the page, takes one free frame at most, and
changes the bytes of no page. -/
theorem Settled.fetchPage_of_hasRoom (h : s.Settled) (hroom : s.HasRoom p) :
    ∃ f s', s.fetchPage p = (some f, s') ∧ s'.Settled ∧
      s'.pool.pageTable.lookup p = some f ∧ (∀ q, s'.content q = s.content q) ∧
      s.pool.freeList.length ≤ s'.pool.freeList.length + 1 := by
  have hsettled := h.fetchPage p
  rcases hf : s.fetchPage p with ⟨o, s'⟩
  rw [hf] at hsettled
  obtain ⟨f, -, rfl, rfl⟩ | ⟨hp, hnone, -, -⟩ | ⟨hp, f, s₁, ha, rfl, rfl⟩ := fetchPage_cases hf
  · refine ⟨f, _, rfl, hsettled, fetchPage_resident hf, fun q ↦ ?_, Nat.le_succ _⟩
    exact content_congr rfl (fun g ↦ BufferPoolManager.pin_data ..) rfl
  · have hfree := hroom.resolve_right (by simp [hp])
    exact absurd (acquireFrame_eq_none.mp hnone).1 hfree
  · have hfree := hroom.resolve_right (by simp [hp])
    obtain ⟨rest, hrest, rfl⟩ | ⟨hnil, -⟩ := acquireFrame_eq_some ha
    · refine ⟨f, _, rfl, hsettled, fetchPage_resident hf, h.content_install hrest hp, ?_⟩
      rw [hrest]
      exact le_rfl
    · exact absurd hnil hfree

end Store

namespace BPlusTree

open BPlusTreeNode

variable {t : BPlusTree} {s : LatchedPool} {current : ℕ}

/-! ## One time round the loop -/

/-- **From an inner node**, the loop goes on in the frame of the page with the id
`INVALID_PAGE_ID`. -/
theorem descend_of_inner (h : s.bpm.Settled) (hroom : s.bpm.HasRoom invalidPageId)
    (hinner : ¬ IsLeafPage (s.bpm.pool.pages current).data) :
    ∃ next s', (∀ fuel, descend (fuel + 1) current s = descend fuel next s') ∧ s'.bpm.Settled ∧
      s'.bpm.HasRoom invalidPageId ∧
      (s'.bpm.pool.pages next).data = s.bpm.content invalidPageId ∧
      s'.bpm.content invalidPageId = s.bpm.content invalidPageId := by
  obtain ⟨next, bpm, hf, hsettled, hlookup, hcontent, -⟩ := h.fetchPage_of_hasRoom hroom
  let bpm' := (bpm.unpinPage (bpm.pool.pages current).pageId false).2
  have hcontent' : bpm'.content invalidPageId = s.bpm.content invalidPageId :=
    (Store.content_unpinPage ..).trans (hcontent invalidPageId)
  have hlookup' : bpm'.pool.pageTable.lookup invalidPageId = some next := by
    dsimp only [bpm']
    rw [Store.unpinPage]
    split <;> simpa using hlookup
  refine ⟨next, { ({ s with bpm }.onLatch next Latch.rLock).onLatch current Latch.rUnlock with
    bpm := bpm' }, fun fuel ↦ ?_, hsettled.unpinPage _ _, Or.inr ?_, ?_, hcontent'⟩
  · rw [descend, if_neg hinner]
    dsimp only
    rw [hf]
    rfl
  · exact Option.isSome_of_mem hlookup'
  · rw [← hcontent', Store.content_of_lookup hlookup']

/-- Where the page with the id `INVALID_PAGE_ID` is no leaf either, the loop never ends. -/
theorem descend_running (h : s.bpm.Settled) (hroom : s.bpm.HasRoom invalidPageId)
    (hinner : ¬ IsLeafPage (s.bpm.pool.pages current).data)
    (hinvalid : ¬ IsLeafPage (s.bpm.content invalidPageId)) (fuel : ℕ) :
    descend fuel current s = .running := by
  induction fuel generalizing current s with
  | zero => rfl
  | succ fuel ih =>
    obtain ⟨next, s', hstep, hsettled, hroom', hdata, hcontent⟩ := descend_of_inner h hroom hinner
    rw [hstep]
    exact ih hsettled hroom' (hdata ▸ hinvalid) (hcontent ▸ hinvalid)

/-- A descent ends if it comes to a leaf at once or in the next page. -/
theorem descend_returns (h : s.bpm.Settled) (hroom : s.bpm.HasRoom invalidPageId)
    (hleaf : IsLeafPage (s.bpm.pool.pages current).data ∨
      IsLeafPage (s.bpm.content invalidPageId)) :
    ∃ fuel r, descend fuel current s = .returned r := by
  by_cases hcurrent : IsLeafPage (s.bpm.pool.pages current).data
  · refine ⟨1, (current, s), ?_⟩
    rw [descend, if_pos hcurrent]
  · obtain ⟨next, s', hstep, -, -, hdata, -⟩ := descend_of_inner h hroom hcurrent
    refine ⟨2, (next, s'), ?_⟩
    rw [hstep, descend, if_pos (hdata ▸ hleaf.resolve_left hcurrent)]

/-! ## Calls -/

/-- There is no root, or the root is a leaf, or the page with the id `INVALID_PAGE_ID` is. -/
def Ends (t : BPlusTree) (s : Store) : Prop :=
  t.rootPageId = invalidPageId ∨ IsLeafPage (s.content t.rootPageId) ∨
    IsLeafPage (s.content invalidPageId)

instance (t : BPlusTree) (s : Store) : Decidable (t.Ends s) :=
  inferInstanceAs (Decidable (_ ∨ _ ∨ _))

/-- With two free frames, a call comes to the loop, and there is room in the loop. -/
theorem call_enters (h : s.bpm.Settled) (hfree : 2 ≤ s.bpm.pool.freeList.length)
    (ht : t.rootPageId ≠ invalidPageId) (c : Call) :
    ∃ f s₁, (∀ fuel, t.call fuel s c = (descend fuel f s₁).map fun r ↦
        (true, r.2.onLatch r.1 Latch.rUnlock)) ∧
      s₁.bpm.Settled ∧ s₁.bpm.HasRoom invalidPageId ∧
      (s₁.bpm.pool.pages f).data = s.bpm.content t.rootPageId ∧
      s₁.bpm.content invalidPageId = s.bpm.content invalidPageId := by
  have hne : s.bpm.pool.freeList ≠ [] := List.ne_nil_of_length_pos (by omega)
  obtain ⟨f, bpm, hf, hsettled, hlookup, hcontent, hlength⟩ :=
    h.fetchPage_of_hasRoom (p := t.rootPageId) (Or.inl hne)
  refine ⟨f, { s with bpm }.onLatch f Latch.rLock, fun fuel ↦ call_eq_of_fetch ht hf fuel c,
    hsettled, Or.inl (List.ne_nil_of_length_pos ?_), ?_, hcontent invalidPageId⟩
  · show 0 < bpm.pool.freeList.length
    omega
  · show (bpm.pool.pages f).data = s.bpm.content t.rootPageId
    rw [← Store.content_of_lookup hlookup, hcontent]

theorem call_running (h : s.bpm.Settled) (hfree : 2 ≤ s.bpm.pool.freeList.length)
    (hnot : ¬ t.Ends s.bpm) (fuel : ℕ) (c : Call) : t.call fuel s c = .running := by
  obtain ⟨ht, hroot, hinvalid⟩ : t.rootPageId ≠ invalidPageId ∧
      ¬ IsLeafPage (s.bpm.content t.rootPageId) ∧ ¬ IsLeafPage (s.bpm.content invalidPageId) := by
    rw [Ends, not_or, not_or] at hnot
    exact hnot
  obtain ⟨f, s₁, hcall, hsettled, hroom, hdata, hcontent⟩ := call_enters h hfree ht c
  rw [hcall, descend_running hsettled hroom (hdata ▸ hroot) (hcontent ▸ hinvalid)]
  rfl

/-- **Which lookups end.**  For every root page id, every file, and every state of the pool that its
clients can reach in which two frames are free: a call of `FindValue` or `Insert` returns exactly if
there is no root, or the root is a leaf, or the page with the id `INVALID_PAGE_ID` is one.  If not,
the loop of the descent goes on whatever the number of iterations. -/
theorem call_returns_iff {poolSize : ℕ} {file : PageId → Option PageData}
    {calls : List Store.Call} {os : List (Option PageId)}
    (hr : run Store.step (.opened poolSize file) calls = some (os, s.bpm))
    (hfree : 2 ≤ s.bpm.pool.freeList.length) (t : BPlusTree) (c : Call) :
    ((∃ fuel r, t.call fuel s c = .returned r) ↔ t.Ends s.bpm) ∧
      (¬ t.Ends s.bpm → ∀ fuel, t.call fuel s c = .running) := by
  have h : s.bpm.Settled := Store.settled_of_run hr
  refine ⟨⟨fun ⟨fuel, r, hcall⟩ ↦ ?_, fun hends ↦ ?_⟩, fun hnot fuel ↦
    call_running h hfree hnot fuel c⟩
  · by_contra hnot
    rw [call_running h hfree hnot] at hcall
    cases hcall
  · by_cases ht : t.rootPageId = invalidPageId
    · obtain ⟨b, hcall⟩ := call_of_rootless ht 0 s c
      exact ⟨0, (b, s), hcall⟩
    · obtain ⟨f, s₁, hcall, hsettled, hroom, hdata, hcontent⟩ := call_enters h hfree ht c
      have hleaf : IsLeafPage (s₁.bpm.pool.pages f).data ∨
          IsLeafPage (s₁.bpm.content invalidPageId) := by
        rw [hdata, hcontent]
        exact hends.resolve_left ht
      obtain ⟨fuel, r, hloop⟩ := descend_returns hsettled hroom hleaf
      exact ⟨fuel, (true, r.2.onLatch r.1 Latch.rUnlock), by rw [hcall, hloop]; rfl⟩

/-- A pool over an empty file. -/
def emptyPool (poolSize : ℕ) : LatchedPool where
  bpm := .opened poolSize fun _ ↦ none

/-- The same over a file in which the page with the id `INVALID_PAGE_ID` is a leaf. -/
def leafBehind (poolSize : ℕ) : LatchedPool where
  bpm := .opened poolSize fun p ↦ if p = invalidPageId then some (init Block.zero .leaf 3) else none

/-- A root that is all zeros, and then a leaf or not. -/
theorem call_returns_iff_two :
    (∃ fuel r, call ⟨0⟩ fuel (leafBehind 2) (.findValue 7) = .returned r) ∧
      (¬ ∃ fuel r, call ⟨0⟩ fuel (emptyPool 2) (.findValue 7) = .returned r) ∧
      ∀ fuel, call ⟨0⟩ fuel (emptyPool 2) (.findValue 7) = .running := by
  have hleaf : Ends ⟨0⟩ (leafBehind 2).bpm := Or.inr (Or.inr (getType_init Block.zero .leaf 3))
  have hnot : ¬ Ends ⟨0⟩ (emptyPool 2).bpm := by decide
  have hr : ∀ file, run Store.step (.opened 2 file) [] = some ([], .opened 2 file) := fun _ ↦ rfl
  obtain ⟨hreturns, -⟩ := call_returns_iff (s := leafBehind 2) (hr _) (by decide) ⟨0⟩ (.findValue 7)
  obtain ⟨hiff, hruns⟩ := call_returns_iff (s := emptyPool 2) (hr _) (by decide) ⟨0⟩ (.findValue 7)
  exact ⟨hreturns.mpr hleaf, fun h ↦ hnot (hiff.mp h), hruns hnot⟩

/-- A root that is all zeros, in a pool of two free frames: the lookup is still in the loop after
any number of iterations. -/
theorem lookup_never_ends :
    (emptyPool 2).bpm.pool.freeList.length = 2 ∧
      ∀ fuel, findValue ⟨0⟩ fuel 7 (emptyPool 2) = .running := by
  have h : (emptyPool 2).bpm.Settled := Store.settled_opened 2 fun _ ↦ none
  exact ⟨rfl, fun fuel ↦ call_running h le_rfl (by decide) fuel (.findValue 7)⟩

end BPlusTree

end StingDB
