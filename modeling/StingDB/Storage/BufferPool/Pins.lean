import StingDB.Storage.BufferPool.Frames
import StingDB.Storage.BufferPool.FreshIds

/-!
# The pins of a pool that anybody calls

`Store.Settled` is what holds of every pool between two calls, whatever its clients do: they may
call `UnpinPage` for pins that they do not have.  In such a pool a `FetchPage` or a `NewPage` that
returns a page takes one pin on it (`TakesPin`), and the `UnpinPage` of the page gives it back.  A
piece of code that does so is `PinNeutral`: the pin counts are as before, with none on a page that
has come in meanwhile.
-/

set_option autoImplicit false

namespace StingDB

open Machine

/-! ## Pools between two calls -/

namespace Store

variable {s s₁ s₂ s' : Store} {p : PageId} {f : ℕ}

/-- What holds of every pool between two calls. -/
structure Settled (s : Store) : Prop where
  placed : s.pool.Placed none
  /-- A pin count is an `int`. -/
  counted : ∀ f, i32 (s.pool.pages f).pinCount = (s.pool.pages f).pinCount

theorem settled_opened (poolSize : ℕ) (file : PageId → Option PageData) :
    (opened poolSize file).Settled :=
  ⟨BufferPoolManager.placed_create poolSize, fun _ ↦ rfl⟩

/-- From `s` to `s'` only the bytes and the dirty flags of pages have changed. -/
structure SamePins (s s' : Store) : Prop where
  pageTable : s'.pool.pageTable = s.pool.pageTable
  freeList : s'.pool.freeList = s.pool.freeList
  lruReplacer : s'.pool.lruReplacer = s.pool.lruReplacer
  pageId : ∀ f, (s'.pool.pages f).pageId = (s.pool.pages f).pageId
  pinCount : ∀ f, (s'.pool.pages f).pinCount = (s.pool.pages f).pinCount

namespace SamePins

theorem refl (s : Store) : SamePins s s := ⟨rfl, rfl, rfl, fun _ ↦ rfl, fun _ ↦ rfl⟩

theorem trans (h : SamePins s s₁) (h' : SamePins s₁ s₂) : SamePins s s₂ where
  pageTable := h'.pageTable.trans h.pageTable
  freeList := h'.freeList.trans h.freeList
  lruReplacer := h'.lruReplacer.trans h.lruReplacer
  pageId f := (h'.pageId f).trans (h.pageId f)
  pinCount f := (h'.pinCount f).trans (h.pinCount f)

theorem setPage (page : Page) (hid : page.pageId = (s.pool.pages f).pageId)
    (hpin : page.pinCount = (s.pool.pages f).pinCount) (disk : DiskManager) :
    SamePins s { pool := s.pool.setPage f page, disk } := by
  have hall : ∀ g, ((s.pool.setPage f page).pages g).pageId = (s.pool.pages g).pageId ∧
      ((s.pool.setPage f page).pages g).pinCount = (s.pool.pages g).pinCount := by
    intro g
    by_cases hg : g = f
    · rw [hg, BufferPoolManager.setPage_pages_self]
      exact ⟨hid, hpin⟩
    · rw [BufferPoolManager.setPage_pages_of_ne _ _ _ hg]
      exact ⟨rfl, rfl⟩
  exact ⟨rfl, rfl, rfl, fun g ↦ (hall g).1, fun g ↦ (hall g).2⟩

theorem flushFrame (s : Store) (p : PageId) (f : ℕ) : SamePins s (s.flushFrame p f) := by
  rw [Store.flushFrame]
  split
  · exact setPage ((s.pool.pages f).setDirty false) rfl rfl _
  · exact refl s

theorem flushAllPages (s : Store) : SamePins s s.flushAllPages :=
  flushAllPages_induction (P := SamePins s) (refl s) fun s' p f _ h _ ↦ h.trans (flushFrame s' p f)

end SamePins

namespace Settled

theorem of_samePins (h : s.Settled) (hs : SamePins s s') : s'.Settled where
  placed := h.placed.congr hs.pageTable hs.freeList hs.pageId
    fun _ hg ↦ Or.inl (hs.lruReplacer ▸ hg)
  counted f := by rw [hs.pinCount, h.counted]

/-- Where one frame has changed, only its count is to be looked at. -/
theorem counted_of_ne (h : s.Settled)
    (hself : i32 (s'.pool.pages f).pinCount = (s'.pool.pages f).pinCount)
    (hne : ∀ g, g ≠ f → s'.pool.pages g = s.pool.pages g) (g : ℕ) :
    i32 (s'.pool.pages g).pinCount = (s'.pool.pages g).pinCount := by
  by_cases hg : g = f
  · rw [hg, hself]
  · rw [hne g hg, h.counted]

theorem pin (h : s.Settled) (f : ℕ) : Settled { s with pool := s.pool.pin f } where
  placed := h.placed.pin
  counted := by
    refine h.counted_of_ne ?_ fun g hg ↦ BufferPoolManager.pin_pages_of_ne _ _ hg
    dsimp only
    rw [BufferPoolManager.pin_pinCount_self]
    exact Int.bmod_bmod

theorem unpinPage (h : s.Settled) (p : PageId) (d : Bool) : (s.unpinPage p d).2.Settled := by
  rw [Store.unpinPage]
  split
  · exact h
  · rename_i f hp
    refine ⟨h.placed.unpin hp d, h.counted_of_ne ?_ fun g hg ↦
      BufferPoolManager.unpin_pages_of_ne _ _ _ hg⟩
    dsimp only
    rw [BufferPoolManager.unpin_pinCount_self]
    exact Int.bmod_bmod

/-- The frame that has been found for a page is free of any. -/
theorem acquireFrame (h : s.Settled) (ha : s.acquireFrame = some (f, s₁)) :
    s₁.pool.Placed (some f) ∧ s₁.pool.pages = s.pool.pages := by
  obtain ⟨rest, hf, rfl⟩ | ⟨hf, rest, hl, rfl⟩ := acquireFrame_eq_some ha
  · exact ⟨h.placed.takeFree hf, rfl⟩
  · have hfree : f ∉ s.pool.freeList := by simp [hf]
    exact ⟨(h.placed.takeBack hl).unmapVictim hfree, rfl⟩

/-- A page comes into that frame. -/
theorem install (h : s.Settled) (ha : s.acquireFrame = some (f, s₁)) (p : PageId)
    (data : PageData) (disk : DiskManager) :
    Settled { pool := s₁.pool.install f p data, disk } where
  placed := (h.acquireFrame ha).1.install p data
  counted := by
    refine h.counted_of_ne (f := f) ?_ fun g hg ↦ ?_
    · dsimp only
      rw [BufferPoolManager.install_pages_self]
      rfl
    · dsimp only
      rw [BufferPoolManager.install_pages_of_ne _ _ _ hg, (h.acquireFrame ha).2]

theorem fetchPage (h : s.Settled) (p : PageId) : (s.fetchPage p).2.Settled := by
  rcases hf : s.fetchPage p with ⟨o, s'⟩
  obtain ⟨f, -, -, rfl⟩ | ⟨-, -, -, rfl⟩ | ⟨-, f, s₁, ha, -, rfl⟩ := fetchPage_cases hf
  · exact h.pin f
  · exact h
  · exact h.install ha _ _ _

theorem newPage (h : s.Settled) : s.newPage.2.Settled := by
  rcases hn : s.newPage with ⟨o, s'⟩
  obtain ⟨-, -, rfl⟩ | ⟨f, s₁, ha, -, rfl⟩ := newPage_cases hn
  · exact h
  · exact h.install ha _ _ _

/-- Any call of a client. -/
theorem step {c : Call} {o : Option PageId} (h : s.Settled) (hs : step s c = some (o, s')) :
    s'.Settled := by
  cases c with
  | fetchPage p =>
    cases hs
    exact h.fetchPage p
  | unpinPage p d =>
    cases hs
    exact h.unpinPage p d
  | flushPage p =>
    cases hs
    rw [Store.flushPage]
    split
    · exact h
    · exact h.of_samePins (.flushFrame _ _ _)
  | flushAllPages =>
    cases hs
    exact h.of_samePins (.flushAllPages s)
  | newPage =>
    cases hs
    exact h.newPage
  | write frameId data =>
    cases hs
    exact h.of_samePins (.setPage { s.pool.pages frameId with data } rfl rfl _)

end Settled

theorem settled_of_run {poolSize : ℕ} {file : PageId → Option PageData} {calls : List Call}
    {os : List (Option PageId)} (hr : run step (opened poolSize file) calls = some (os, s)) :
    s.Settled :=
  run_invariant (P := fun _ _ ↦ True) (fun _ _ _ _ h _ hs ↦ h.step hs)
    (settled_opened poolSize file) along_true hr

/-! ## One pin, taken and released -/

/-- The pin count of a page, 0 if it is not resident. -/
def pinCount (s : Store) (p : PageId) : ℤ :=
  (s.pool.pageTable.lookup p).elim 0 fun f ↦ (s.pool.pages f).pinCount

/-- Every page that is resident in the end has the pin count it had before, or 0 if it was not
resident then. -/
def PinNeutral (s s' : Store) : Prop :=
  ∀ p, (s'.pool.pageTable.lookup p).isSome → s'.pinCount p = s.pinCount p

/-- No frame has got pins that it did not have: it has those it had, or none. -/
def Released (s s' : Store) : Prop :=
  ∀ f, (s'.pool.pages f).pinCount = (s.pool.pages f).pinCount ∨ (s'.pool.pages f).pinCount = 0

theorem pinCount_of_lookup (hp : s.pool.pageTable.lookup p = some f) :
    s.pinCount p = (s.pool.pages f).pinCount := by
  rw [pinCount, hp, Option.elim_some]

theorem PinNeutral.refl (s : Store) : PinNeutral s s := fun _ _ ↦ rfl

theorem Released.refl (s : Store) : Released s s := fun _ ↦ Or.inl rfl

theorem Released.trans (h : Released s s₁) (h' : Released s₁ s₂) : Released s s₂ := by
  intro f
  rcases h' f with h' | h'
  · rw [h']
    exact h f
  · exact Or.inr h'

/-- From `s` to `s'` page `p` has got one pin more than `c` in frame `f`; other pages have what
they had, if they are there still. -/
structure TakesPin (p : PageId) (f : ℕ) (c : ℤ) (s s' : Store) : Prop where
  lookup : s'.pool.pageTable.lookup p = some f
  count : (s'.pool.pages f).pinCount = i32 (c + 1)
  others : ∀ g, g ≠ f → (s'.pool.pages g).pinCount = (s.pool.pages g).pinCount
  mapped : ∀ q g, q ≠ p → s'.pool.pageTable.lookup q = some g →
    s.pool.pageTable.lookup q = some g ∧ g ≠ f
  /-- The pins are those of the page, or it is new in the frame. -/
  before : c = 0 ∨ c = (s.pool.pages f).pinCount
  small : i32 c = c

namespace TakesPin

variable {c : ℤ}

theorem of_samePins (h : TakesPin p f c s s₁) (hs : SamePins s₁ s₂) : TakesPin p f c s s₂ where
  lookup := hs.pageTable ▸ h.lookup
  count := by rw [hs.pinCount, h.count]
  others g hg := by rw [hs.pinCount, h.others g hg]
  mapped q g hq hg := h.mapped q g hq (hs.pageTable ▸ hg)
  before := h.before
  small := h.small

/-- The pin is released. -/
theorem unpinPage (h : TakesPin p f c s s₁) (d : Bool) :
    (s₁.unpinPage p d).2.pinCount p = c ∧
      (∀ q, q ≠ p → ((s₁.unpinPage p d).2.pool.pageTable.lookup q).isSome →
        (s₁.unpinPage p d).2.pinCount q = s.pinCount q) ∧
      Released s (s₁.unpinPage p d).2 := by
  have hcount : i32 ((s₁.pool.pages f).pinCount - 1) = c := by
    rw [h.count, i32_i32_sub, add_sub_cancel_right, h.small]
  rw [unpinPage_of_resident h.lookup]
  refine ⟨?_, fun q hq hres ↦ ?_, fun g ↦ ?_⟩
  · rw [pinCount_of_lookup (f := f) (by simpa using h.lookup),
      BufferPoolManager.unpin_pinCount_self, hcount]
  · obtain ⟨g, hg⟩ := Option.isSome_iff_exists.mp hres
    obtain ⟨hold, hgf⟩ := h.mapped q g hq (by simpa using hg)
    rw [pinCount_of_lookup hg, BufferPoolManager.unpin_pages_of_ne _ _ _ hgf, h.others g hgf,
      pinCount_of_lookup hold]
  · by_cases hg : g = f
    · subst hg
      dsimp only
      rw [BufferPoolManager.unpin_pinCount_self, hcount]
      exact h.before.symm
    · dsimp only
      rw [BufferPoolManager.unpin_pages_of_ne _ _ _ hg]
      exact Or.inl (h.others g hg)

/-- Pins are as before if the page had had these pins. -/
theorem pinNeutral_iff (h : TakesPin p f c s s₁) (d : Bool) :
    PinNeutral s (s₁.unpinPage p d).2 ↔ s.pinCount p = c := by
  obtain ⟨hself, hothers, -⟩ := h.unpinPage d
  have hres : ((s₁.unpinPage p d).2.pool.pageTable.lookup p).isSome := by
    rw [unpinPage_of_resident h.lookup, BufferPoolManager.unpin_pageTable, h.lookup]
    rfl
  constructor
  · intro hneutral
    rw [← hneutral p hres, hself]
  · intro hc q hq
    by_cases hqp : q = p
    · rw [hqp, hself, hc]
    · exact hothers q hqp hq

end TakesPin

namespace Settled

/-- A page that comes into a frame. -/
theorem install_takesPin (h : s.Settled) (ha : s.acquireFrame = some (f, s₁)) (p : PageId)
    (data : PageData) (disk : DiskManager) :
    TakesPin p f 0 s { pool := s₁.pool.install f p data, disk } where
  lookup := AList.lookup_insert _
  count := congrArg Page.pinCount (BufferPoolManager.install_pages_self ..)
  others g hg := by
    dsimp only
    rw [BufferPoolManager.install_pages_of_ne _ _ _ hg, (h.acquireFrame ha).2]
  mapped q g hq hg := by
    have hold : s₁.pool.pageTable.lookup q = some g := by
      rcases BufferPoolManager.lookup_install.mp hg with ⟨hqp, -⟩ | ⟨-, hold⟩
      · exact absurd hqp hq
      · exact hold
    refine ⟨?_, ?_⟩
    · rcases acquireFrame_lookup ha q with heq | hnone
      · exact heq ▸ hold
      · rw [hnone] at hold
        cases hold
    · rintro rfl
      exact (h.acquireFrame ha).1.limbo_unmapped rfl hold
  before := Or.inl rfl
  small := rfl

theorem fetchPage_takesPin (h : s.Settled) (hf : s.fetchPage p = (some f, s')) :
    TakesPin p f (s.pinCount p) s s' := by
  obtain ⟨f', hp, ho, rfl⟩ | ⟨-, -, ho, -⟩ | ⟨hp, f', s₁, ha, ho, rfl⟩ := fetchPage_cases hf
  · cases ho
    have hc := pinCount_of_lookup hp
    exact
      { lookup := hp
        count := by rw [hc, BufferPoolManager.pin_pinCount_self]
        others := fun g hg ↦ congrArg Page.pinCount (BufferPoolManager.pin_pages_of_ne _ _ hg)
        mapped := by
          intro q g hq hg
          refine ⟨hg, ?_⟩
          rintro rfl
          exact hq (h.placed.injective hg hp)
        before := Or.inr hc
        small := by rw [hc, h.counted] }
  · cases ho
  · cases ho
    have hc : s.pinCount p = 0 := by
      rw [pinCount, hp, Option.elim_none]
    rw [hc]
    exact h.install_takesPin ha _ _ _

theorem newPage_takesPin (h : s.Settled) (hn : s.newPage = (some (p, f), s')) :
    p = s.disk.nextPageId ∧ TakesPin p f 0 s s' := by
  obtain ⟨-, ho, -⟩ | ⟨f', s₁, ha, ho, rfl⟩ := newPage_cases hn
  · cases ho
  · cases ho
    exact ⟨acquireFrame_nextPageId ha, h.install_takesPin ha _ _ _⟩

end Settled

end Store

end StingDB
