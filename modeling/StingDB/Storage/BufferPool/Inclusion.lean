import StingDB.Lib.RecencyStack
import StingDB.Storage.BufferPool.Replacement

/-!
# Larger pools

What is resident in a pool is decided by its size and by what the clients have taken and released,
and by nothing else: not by which frames the pages were in, what was flushed, written or dirty, or
what is in the file.  A stack of the pages (`stack`) is all there is to know, and a pool of `n`
frames has the pages in use and the first of the idle ones, `n` in all (`resident_iff_of_run`).

The stack does not know `n`.  So of two pools that get the same calls the larger one has every page
that the smaller one has, and finds no fewer pages without going to the file: `larger_pool`.
-/

set_option autoImplicit false

namespace StingDB

open Machine

/-! ## The pool against a stack -/

namespace BufferPoolManager

/-- The pool has so many frames, and its candidates for eviction are the idle pages that a cache of
that size keeps. -/
structure Mirrors (b : BufferPoolManager) (n : ℕ) (pins : List Pin) (r : RecencyStack PageId) :
    Prop where
  poolSize_eq : b.poolSize = n
  wellFormed : r.WellFormed
  count_eq : ∀ p, r.inUse.count p = heldBy pins p
  candidates_eq : b.candidates = r.kept n

section

variable {b : BufferPoolManager} {held : PageId → ℕ} {p : PageId} {f : ℕ}

/-- Pinning a page takes it out of the candidates. -/
theorem Represents.pin_candidates (h : b.Represents held none)
    (hp : b.pageTable.lookup p = some f) :
    (b.pin f).candidates = b.candidates.filter (· ≠ p) := by
  have hid : ∀ g, ((b.pin f).pages g).pageId = (b.pages g).pageId := by
    intro g
    by_cases hg : g = f
    · simp [hg, BufferPoolManager.pin]
    · rw [b.pin_pages_of_ne f hg]
  rw [candidates, candidates, List.filter_map, List.map_congr_left fun g _ ↦ hid g]
  refine congrArg _ (List.filter_congr fun g hg ↦ ?_)
  obtain ⟨q, hq, -⟩ := h.mem_lru.mp hg
  rw [Function.comp_apply, h.pageId_eq hq]
  refine decide_eq_decide.mpr (not_congr ⟨?_, ?_⟩)
  · rintro rfl
    exact h.injective hq hp
  · rintro rfl
    exact Option.some.inj (hq.symm.trans hp)

theorem Represents.candidates_nodup {limbo : Option ℕ} (h : b.Represents held limbo) :
    b.candidates.Nodup := by
  refine h.lru_nodup.map_on fun g hg g' hg' heq ↦ ?_
  obtain ⟨q, hq, -⟩ := h.mem_lru.mp hg
  obtain ⟨q', hq', -⟩ := h.mem_lru.mp hg'
  rw [h.pageId_eq hq, h.pageId_eq hq'] at heq
  rw [heq] at hq
  exact Option.some.inj (hq.symm.trans hq')

end

namespace Mirrors

variable {b : BufferPoolManager} {n : ℕ} {pins : List Pin} {r : RecencyStack PageId} {p : PageId}
  {f : ℕ}

theorem mem_inUse (h : b.Mirrors n pins r) : p ∈ r.inUse ↔ heldBy pins p ≠ 0 := by
  rw [← h.count_eq, ← Nat.pos_iff_ne_zero, List.count_pos_iff]

theorem mem_kept (h : b.Mirrors n pins r) (hrep : b.Represents (heldBy pins) none) :
    p ∈ r.kept n ↔ b.pageTable.lookup p ≠ none ∧ heldBy pins p = 0 := by
  rw [← h.candidates_eq, hrep.mem_candidates]

/-- **What is resident** is what a cache of this size keeps. -/
theorem resident_iff (h : b.Mirrors n pins r) (hrep : b.Represents (heldBy pins) none) :
    b.pageTable.lookup p ≠ none ↔ r.Keeps n p := by
  rw [RecencyStack.Keeps, h.mem_inUse, h.mem_kept hrep]
  by_cases h0 : heldBy pins p = 0
  · simp [h0]
  · simp [h0, hrep.held_mapped h0]

/-- Each frame is free, or has a page in use or an idle one. -/
theorem size_eq (h : b.Mirrors n pins r) (hrep : b.Represents (heldBy pins) none) :
    b.freeList.length + (r.busy + (r.kept n).length) = n := by
  have hkept : (r.kept n).Nodup := h.candidates_eq ▸ hrep.candidates_nodup
  have hdisjoint : Disjoint r.inUse.toFinset (r.kept n).toFinset := by
    refine Finset.disjoint_left.mpr fun p hp hp' ↦ ?_
    exact h.wellFormed.disjoint p (List.mem_toFinset.mp hp)
      (RecencyStack.mem_idle_of_mem_kept (List.mem_toFinset.mp hp'))
  have hkeys : b.pageTable.keys.toFinset = r.inUse.toFinset ∪ (r.kept n).toFinset := by
    ext p
    rw [Finset.mem_union, List.mem_toFinset, List.mem_toFinset, List.mem_toFinset]
    refine Iff.trans ?_ (h.resident_iff hrep)
    rw [ne_eq, AList.lookup_eq_none, not_not, AList.mem_keys]
  have hcard := congrArg Finset.card hkeys
  rw [List.toFinset_card_of_nodup b.pageTable.keys_nodup, Finset.card_union_of_disjoint hdisjoint,
    List.toFinset_card_of_nodup hkept] at hcard
  have hlen : b.pageTable.keys.length = b.pageTable.entries.length := List.length_map _
  have hsize := hrep.size_eq
  rw [Option.toList_none, List.length_nil, h.poolSize_eq] at hsize
  rw [RecencyStack.busy]
  omega

/-- A page that is resident is taken once more. -/
theorem pin (h : b.Mirrors n pins r) (hrep : b.Represents (heldBy pins) none)
    (hp : b.pageTable.lookup p = some f) :
    (b.pin f).Mirrors n (⟨p, f, false⟩ :: pins) (r.take p) where
  poolSize_eq := h.poolSize_eq
  wellFormed := h.wellFormed.take p
  count_eq q := by
    rw [RecencyStack.take, List.count_cons, h.count_eq, heldBy_cons]
    simp only [beq_iff_eq]
  candidates_eq := by
    rw [hrep.pin_candidates hp, h.candidates_eq]
    have hkept : (r.kept n).Nodup := h.candidates_eq ▸ hrep.candidates_nodup
    by_cases hmem : p ∈ r.inUse
    · rw [h.wellFormed.kept_take_of_inUse hmem, List.filter_eq_self]
      intro q hq
      refine decide_eq_true ?_
      rintro rfl
      exact h.wellFormed.disjoint _ hmem (RecencyStack.mem_idle_of_mem_kept hq)
    · have hkeeps : r.Keeps n p := (h.resident_iff hrep).mp (by simp [hp])
      rw [h.wellFormed.kept_take_of_kept (hkeeps.resolve_left hmem), hkept.erase_eq_filter]
      exact List.filter_congr fun q _ ↦ by simp [bne, beq_eq_decide]

/-- A page that is not resident is taken, in a frame that had to be found. -/
theorem load {s s₁ : Store} (h : s.pool.Mirrors n pins r)
    (hrep : s.pool.Represents (heldBy pins) none) (hp : s.pool.pageTable.lookup p = none)
    (ha : s.acquireFrame = some (f, s₁)) (data : PageData) :
    (s₁.pool.install f p data).Mirrors n (⟨p, f, false⟩ :: pins) (r.take p) where
  poolSize_eq := by
    obtain ⟨_, -, rfl⟩ | ⟨-, _, -, rfl⟩ := Store.acquireFrame_eq_some ha
    · exact h.poolSize_eq
    · exact h.poolSize_eq
  wellFormed := h.wellFormed.take p
  count_eq q := by
    rw [RecencyStack.take, List.count_cons, h.count_eq, heldBy_cons]
    simp only [beq_iff_eq]
  candidates_eq := by
    have hsize := h.size_eq hrep
    have hheld : heldBy pins p = 0 := not_not.mp fun hne ↦ hrep.held_mapped hne hp
    have hkeeps := (h.resident_iff hrep).not.mp (not_not.mpr hp)
    rw [RecencyStack.Keeps, not_or] at hkeeps
    rw [install_candidates (hrep.acquireFrame ha).limbo_notMem,
      RecencyStack.kept_take_of_new hkeeps.1 hkeeps.2]
    obtain ⟨rest, hfree, rfl⟩ | ⟨hfree, rest, hl, rfl⟩ := Store.acquireFrame_eq_some ha
    · rw [hfree, List.length_cons] at hsize
      rw [List.take_of_length_le (by omega)]
      exact h.candidates_eq
    · have hlast : r.kept n = (rest.map fun g ↦ (s.pool.pages g).pageId) ++
          [(s.pool.pages f).pageId] := by
        rw [← h.candidates_eq, candidates, hl, List.map_append, List.map_singleton]
      rw [hfree, hlast, List.length_append] at hsize
      rw [hlast, List.take_append_of_le_length (by simp at hsize ⊢; omega),
        List.take_of_length_le (by simp at hsize ⊢; omega)]
      rfl

/-- A pin is released. -/
theorem unpin (h : b.Mirrors n pins r) (hholds : b.Holds pins none) {pin : Pin} (hpin : pin ∈ pins)
    (hle : heldBy pins pin.page ≤ 2 ^ 32) (isDirty : Bool) :
    (b.unpin pin.frame isDirty).Mirrors n (pins.erase pin) (r.release pin.page) := by
  have hrep := hholds.represents
  have hp := hholds.mapped pin hpin
  have hmem : pin.page ∈ r.inUse := h.mem_inUse.mpr (heldBy_pos hpin)
  have hheld := heldBy_erase hpin pin.page
  rw [if_pos rfl] at hheld
  have hcount : ∀ q, (r.inUse.erase pin.page).count q = heldBy (pins.erase pin) q := by
    intro q
    rw [List.count_erase, h.count_eq, heldBy_erase hpin q]
    by_cases hq : pin.page = q
    · simp [hq]
    · simp [hq]
  have hlast : pin.page ∈ r.inUse.erase pin.page ↔ heldBy (pins.erase pin) pin.page ≠ 0 := by
    rw [← hcount, ← Nat.pos_iff_ne_zero, List.count_pos_iff]
  have hone : (b.pages pin.frame).pinCount = 1 ↔ heldBy (pins.erase pin) pin.page = 0 := by
    rw [hrep.pinCount_eq hp, i32_natCast_eq_one_iff hle, hheld]
    omega
  have hbusy : r.busy ≤ n := by
    have := h.size_eq hrep
    omega
  refine ⟨?_, h.wellFormed.release hmem, hcount, ?_⟩
  · rw [BufferPoolManager.unpin]
    split_ifs <;> exact h.poolSize_eq
  · rw [b.unpin_candidates, hrep.pageId_eq hp, h.candidates_eq]
    by_cases h0 : heldBy (pins.erase pin) pin.page = 0
    · rw [if_pos (hone.mpr h0),
        RecencyStack.kept_release_of_last hmem (mt hlast.mp (not_not.mpr h0)) hbusy]
    · rw [if_neg (mt hone.mp h0), RecencyStack.kept_release_of_inUse hmem (hlast.mpr h0)]

/-- Whatever leaves the candidates and the pins alone. -/
theorem congr {b' : BufferPoolManager} {pins' : List Pin} (h : b.Mirrors n pins r)
    (hsize : b'.poolSize = b.poolSize) (hcandidates : b'.candidates = b.candidates)
    (hpins : ∀ p, heldBy pins' p = heldBy pins p) : b'.Mirrors n pins' r where
  poolSize_eq := hsize.trans h.poolSize_eq
  wellFormed := h.wellFormed
  count_eq p := (h.count_eq p).trans (hpins p).symm
  candidates_eq := hcandidates.trans h.candidates_eq

theorem flushFrame {s : Store} (h : s.pool.Mirrors n pins r) (q : PageId) (g : ℕ) :
    (s.flushFrame q g).pool.Mirrors n pins r := by
  refine h.congr ?_ (flushFrame_candidates s q g) fun _ ↦ rfl
  rw [Store.flushFrame]
  split <;> rfl

end Mirrors

end BufferPoolManager

/-! ## Runs -/

namespace PoolClients

/-- What a call has taken or released, as its result says. -/
def track (r : RecencyStack PageId) : Call → Result → RecencyStack PageId
  | .newPage, .page (some (p, _)) => r.take p
  | .fetchPage _, .page (some (p, _)) => r.take p
  | .unpinPage pin _, _ => r.release pin.page
  | _, _ => r

/-- What the calls of a run have taken and released. -/
def stack (cs : List Call) (os : List Result) : RecencyStack PageId :=
  (cs.zip os).foldl (fun r c ↦ track r c.1 c.2) {}

theorem stack_concat {cs : List Call} {os : List Result} (hlen : os.length = cs.length) (c : Call)
    (o : Result) : stack (cs ++ [c]) (os ++ [o]) = track (stack cs os) c o := by
  rw [stack, List.zip_append hlen.symm, List.foldl_append]
  rfl

variable {s s' : PoolClients} {c : Call} {o : Result} {n : ℕ} {r : RecencyStack PageId}

/-- The pool has so many frames and keeps what the stack says. -/
def Mirrors (s : PoolClients) (n : ℕ) (r : RecencyStack PageId) : Prop :=
  s.store.pool.Mirrors n s.pins r

/-- **One call** keeps the pool in step with the stack. -/
theorem Sound.mirrors_step (h : s.Sound) (hm : s.Mirrors n r)
    (hs : PoolClients.step s c = some (o, s')) : s'.Mirrors n (track r c o) := by
  have hrep := h.holds.represents
  cases c with
  | newPage =>
    obtain ⟨rfl, rfl⟩ | ⟨f, s₁, ha, heq⟩ := newPage_step hs
    · exact hm
    · cases heq
      refine hm.load hrep ?_ ha _
      rw [Option.eq_none_iff_forall_ne_some]
      intro g hg
      rw [Store.acquireFrame_nextPageId ha] at hg
      exact h.nextPageId_notMem (h.resident_handed hg)
  | fetchPage p =>
    obtain ⟨-, ⟨rfl, rfl⟩ | ⟨f, hp, heq⟩ | ⟨hp, f, s₁, ha, heq⟩⟩ := fetchPage_step hs
    · exact hm
    · cases heq
      exact hm.pin hrep hp
    · cases heq
      exact hm.load hrep hp ha _
  | write pin data =>
    rw [PoolClients.step] at hs
    split at hs
    · rename_i hpin
      cases hs
      refine hm.congr rfl (BufferPoolManager.writeFrame_candidates ..) fun p ↦ ?_
      rw [heldBy_cons, heldBy_erase hpin]
    · cases hs
  | unpinPage pin isDirty =>
    rw [PoolClients.step] at hs
    split at hs
    · rename_i hpin
      simp only [Store.unpinPage, h.holds.mapped pin hpin] at hs
      cases hs
      exact hm.unpin h.holds hpin (h.held_le _) isDirty
    · cases hs
  | flushPage p =>
    simp only [PoolClients.step, Store.flushPage] at hs
    split at hs
    · cases hs
      exact hm
    · cases hs
      exact hm.flushFrame _ _
  | flushAllPages =>
    cases hs
    exact Store.flushAllPages_induction (P := fun st ↦ st.pool.Mirrors n s.pins r) hm
      fun st p f _ hst _ ↦ hst.flushFrame p f

theorem mirrors_start (n : ℕ) (file : PageId → Option PageData) : (start n file).Mirrors n {} where
  poolSize_eq := rfl
  wellFormed := RecencyStack.wellFormed_empty
  count_eq _ := rfl
  candidates_eq := List.take_nil.symm

/-- The pool is in step with the stack after every run. -/
theorem mirrors_of_run {file : PageId → Option PageData} {cs : List Call} {os : List Result}
    (hr : run step (start n file) cs = some (os, s))
    (hc : Along step Countable (start n file) cs) : s.Sound ∧ s.Mirrors n (stack cs os) := by
  refine run_history (I := fun cs os s ↦ s.Sound ∧ s.Mirrors n (stack cs os))
    ⟨sound_start n file, mirrors_start n file⟩ ?_ hc hr
  intro cs os s c o s' hr h hP hs
  refine ⟨h.1.step hP hs, ?_⟩
  rw [stack_concat (run_length hr)]
  exact h.1.mirrors_step h.2 hs

/-- **What is resident in a pool.**  For every pool size, every file and every run of the clients
with fewer than `2 ^ 32 - 1` calls of `NewPage` and no more than `2 ^ 32` pins on any page at any
time, the pages that are resident at the end are those that have been taken and not released, and
of the others those that were released last, as many as the first leave frames for. -/
theorem resident_iff_of_run {file : PageId → Option PageData} {cs : List Call} {os : List Result}
    (hr : run step (start n file) cs = some (os, s))
    (hnew : cs.countP Call.isNewPage < 2 ^ 32 - 1)
    (hpins : Along step (PinsAtMost (2 ^ 32)) (start n file) cs) (p : PageId) :
    s.store.pool.pageTable.lookup p ≠ none ↔ (stack cs os).Keeps n p := by
  obtain ⟨h, hm⟩ := mirrors_of_run hr (along_countable le_rfl (by simpa [start] using hnew) hpins)
  exact hm.resident_iff h.holds.represents

/-- A pool of two frames, and a third page. -/
theorem resident_iff_of_run_two :
    ∃ os s, run step (start 2 fun _ ↦ none)
        [.newPage, .newPage, .unpinPage ⟨0, 0, false⟩ false, .newPage] = some (os, s) ∧
      (s.store.pool.pageTable.lookup 0 ≠ none ↔
        (stack [.newPage, .newPage, .unpinPage ⟨0, 0, false⟩ false, .newPage] os).Keeps 2 0) := by
  obtain ⟨⟨os, s⟩, hr⟩ := Option.isSome_iff_exists.mp
    (rfl : (run step (start 2 fun _ ↦ none)
      [.newPage, .newPage, .unpinPage ⟨0, 0, false⟩ false, .newPage]).isSome = true)
  exact ⟨os, s, hr, resident_iff_of_run hr (by decide) (along_pinsAtMost (by decide)) 0⟩

/-! ## Two pools -/

/-- A call as a client sees it, whatever frame its page is in. -/
inductive Request where
  | newPage
  | fetchPage (pageId : PageId)
  | write (pageId : PageId)
  | unpinPage (pageId : PageId) (isDirty : Bool)
  | flushPage (pageId : PageId)
  | flushAllPages
  deriving DecidableEq

def Call.request : Call → Request
  | .newPage => .newPage
  | .fetchPage p => .fetchPage p
  | .write pin _ => .write pin.page
  | .unpinPage pin isDirty => .unpinPage pin.page isDirty
  | .flushPage p => .flushPage p
  | .flushAllPages => .flushAllPages

/-- What a call that does not return `nullptr` takes or releases, when `next` is the next id. -/
def Request.track (next : PageId) (r : RecencyStack PageId) : Request → RecencyStack PageId
  | .newPage => r.take next
  | .fetchPage p => r.take p
  | .unpinPage p _ => r.release p
  | _ => r

/-- The ids that have been returned then. -/
def Request.handed (next : PageId) (handed : List PageId) : Request → List PageId
  | .newPage => next :: handed
  | _ => handed

/-- The call reads its page from the file. -/
def Reads (s : PoolClients) (c : Call) : Prop :=
  ∃ p, c = .fetchPage p ∧ s.store.pool.pageTable.lookup p = none ∧ s.store.acquireFrame ≠ none

instance (s : PoolClients) : DecidablePred s.Reads
  | .fetchPage p => decidable_of_iff
      (s.store.pool.pageTable.lookup p = none ∧ ¬ s.store.acquireFrame.isNone) (by simp [Reads])
  | .newPage | .write .. | .unpinPage .. | .flushPage _ | .flushAllPages =>
    isFalse (by rintro ⟨_, ⟨⟩, _⟩)

/-- How many pages a run reads from the file. -/
def reads : PoolClients → List Call → ℕ
  | _, [] => 0
  | s, c :: cs =>
    (if s.Reads c then 1 else 0) + (step s c).elim 0 fun (_, s') ↦ reads s' cs

/-- What a call that does not return `nullptr` does to the stack and the ids. -/
theorem step_request (hs : step s c = some (o, s')) (ho : o ≠ .page none)
    (r : RecencyStack PageId) :
    track r c o = c.request.track s.store.disk.nextPageId r ∧
      s'.handed = c.request.handed s.store.disk.nextPageId s.handed := by
  cases c with
  | newPage =>
    obtain ⟨rfl, -⟩ | ⟨f, s₁, ha, heq⟩ := newPage_step hs
    · exact absurd rfl ho
    · cases heq
      rw [← Store.acquireFrame_nextPageId ha]
      exact ⟨rfl, rfl⟩
  | fetchPage p =>
    obtain ⟨-, ⟨rfl, -⟩ | ⟨f, -, heq⟩ | ⟨-, f, s₁, -, heq⟩⟩ := fetchPage_step hs
    · exact absurd rfl ho
    · cases heq
      exact ⟨rfl, rfl⟩
    · cases heq
      exact ⟨rfl, rfl⟩
  | write pin data =>
    rw [step] at hs
    split at hs <;> cases hs
    exact ⟨rfl, rfl⟩
  | unpinPage pin isDirty =>
    rw [step] at hs
    split at hs <;> cases hs
    exact ⟨rfl, rfl⟩
  | flushPage p =>
    cases hs
    exact ⟨rfl, rfl⟩
  | flushAllPages =>
    cases hs
    exact ⟨rfl, rfl⟩

/-- A call that returns `nullptr` has asked for a page that is not in use, and every frame is. -/
theorem Sound.busy_of_null (h : s.Sound) (hm : s.Mirrors n r)
    (hs : PoolClients.step s c = some (.page none, s')) :
    r.busy = n ∧
      (c.request.track s.store.disk.nextPageId r).busy = r.busy + 1 := by
  have hrep := h.holds.represents
  have hbusy : s.store.acquireFrame = none → r.busy = n := by
    intro ha
    obtain ⟨hfree, hlru⟩ := Store.acquireFrame_eq_none.mp ha
    have hkept : r.kept n = [] := by
      rw [← hm.candidates_eq, BufferPoolManager.candidates, hlru, List.map_nil]
    have hsize := hm.size_eq hrep
    rwa [hfree, hkept, List.length_nil, List.length_nil, Nat.zero_add, Nat.add_zero] at hsize
  have htake : ∀ p, s.store.pool.pageTable.lookup p = none →
      (r.take p).busy = r.busy + 1 := by
    intro p hp
    have hnot := (hm.resident_iff hrep).not.mp (not_not.mpr hp)
    rw [RecencyStack.busy_take, if_neg fun hmem ↦ hnot (Or.inl hmem)]
  cases c with
  | newPage =>
    obtain ⟨ha, -⟩ | ⟨f, s₁, p, data, -, ho, -⟩ := h.needsFrame_step (c := .newPage) trivial hs
    · refine ⟨hbusy ha, htake _ ?_⟩
      rw [Option.eq_none_iff_forall_ne_some]
      exact fun g hg ↦ h.nextPageId_notMem (h.resident_handed hg)
    · exact absurd rfl ho
  | fetchPage p =>
    by_cases hp : s.store.pool.pageTable.lookup p = none
    · obtain ⟨ha, -⟩ | ⟨f, s₁, q, data, -, ho, -⟩ := h.needsFrame_step (c := .fetchPage p) hp hs
      · exact ⟨hbusy ha, htake p hp⟩
      · exact absurd rfl ho
    · obtain ⟨f, hf⟩ := Option.ne_none_iff_exists'.mp hp
      rw [PoolClients.step] at hs
      split at hs
      · rw [Store.fetchPage_of_resident hf] at hs
        cases hs
      · cases hs
  | write pin data =>
    rw [PoolClients.step] at hs
    split at hs <;> cases hs
  | unpinPage pin isDirty =>
    rw [PoolClients.step] at hs
    split at hs <;> cases hs
  | flushPage p => cases hs
  | flushAllPages => cases hs

/-- Two pools that are in step with one stack. -/
structure Paired (s₁ s₂ : PoolClients) (m n : ℕ) (r : RecencyStack PageId) : Prop where
  sound₁ : s₁.Sound
  sound₂ : s₂.Sound
  mirrors₁ : s₁.Mirrors m r
  mirrors₂ : s₂.Mirrors n r
  handed_eq : s₁.handed = s₂.handed

namespace Paired

variable {s₁ s₂ s₁' s₂' : PoolClients} {m : ℕ} {c₁ c₂ : Call} {o₁ o₂ : Result}

theorem nextPageId_eq (h : Paired s₁ s₂ m n r) :
    s₁.store.disk.nextPageId = s₂.store.disk.nextPageId := by
  rw [← UInt32.toNat_inj, h.sound₁.nextPageId_eq, h.sound₂.nextPageId_eq, h.handed_eq]

/-- The larger pool has the pages of the smaller one. -/
theorem resident (h : Paired s₁ s₂ m n r) (hmn : m ≤ n) {p : PageId}
    (hp : s₁.store.pool.pageTable.lookup p ≠ none) :
    s₂.store.pool.pageTable.lookup p ≠ none :=
  (h.mirrors₂.resident_iff h.sound₂.holds.represents).mpr
    (((h.mirrors₁.resident_iff h.sound₁.holds.represents).mp hp).mono hmn)

/-- **One call of each**, the same to the clients. -/
theorem step (h : Paired s₁ s₂ m n r) (hmn : m ≤ n) (hsame : c₁.request = c₂.request)
    (hc : Countable s₁ c₁) (hs₁ : PoolClients.step s₁ c₁ = some (o₁, s₁'))
    (hs₂ : PoolClients.step s₂ c₂ = some (o₂, s₂')) (ho : o₁ ≠ .page none) :
    o₂ ≠ .page none ∧ Paired s₁' s₂' m n (track r c₁ o₁) ∧ (s₂.Reads c₂ → s₁.Reads c₁) := by
  have hsound₁ := h.sound₁.step hc hs₁
  have hmirrors₁ := h.sound₁.mirrors_step h.mirrors₁ hs₁
  obtain ⟨htrack₁, hhanded₁⟩ := step_request hs₁ ho r
  -- the smaller pool has found a frame for the page, so the larger one finds one too
  have ho₂ : o₂ ≠ .page none := by
    rintro rfl
    obtain ⟨hfull, hbusy⟩ := h.sound₂.busy_of_null h.mirrors₂ hs₂
    have hsize := hmirrors₁.size_eq hsound₁.holds.represents
    rw [htrack₁, h.nextPageId_eq, hsame] at hsize
    omega
  obtain ⟨htrack₂, hhanded₂⟩ := step_request hs₂ ho₂ r
  have htrack : track r c₁ o₁ = track r c₂ o₂ := by
    rw [htrack₁, htrack₂, h.nextPageId_eq, hsame]
  have hmirrors₂ := h.sound₂.mirrors_step h.mirrors₂ hs₂
  rw [← htrack] at hmirrors₂
  have hheld : ∀ p, heldBy s₂'.pins p ≤ 2 ^ 32 := by
    intro p
    rw [← hmirrors₂.count_eq, hmirrors₁.count_eq]
    exact hsound₁.held_le p
  have hc₂ : Countable s₂ c₂ := by
    refine ⟨h.handed_eq ▸ hc.1, fun o s' hs ↦ ?_⟩
    rw [hs₂] at hs
    cases hs
    exact hheld
  have hhanded : s₁'.handed = s₂'.handed := by
    rw [hhanded₁, hhanded₂, h.nextPageId_eq, hsame, h.handed_eq]
  refine ⟨ho₂, ⟨hsound₁, h.sound₂.step hc₂ hs₂, hmirrors₁, hmirrors₂, hhanded⟩, ?_⟩
  rintro ⟨p, rfl, hp, -⟩
  obtain rfl : c₁ = .fetchPage p := by
    cases c₁ <;> cases hsame
    rfl
  have hp₁ : s₁.store.pool.pageTable.lookup p = none :=
    not_not.mp fun hne ↦ h.resident hmn hne hp
  refine ⟨p, rfl, hp₁, fun ha ↦ ho ?_⟩
  obtain ⟨-, ho', -⟩ | ⟨f, s, q, data, ha', -⟩ :=
    h.sound₁.needsFrame_step (c := .fetchPage p) hp₁ hs₁
  · exact ho'
  · rw [ha] at ha'
    cases ha'

/-- **A run of each.** -/
theorem run (h : Paired s₁ s₂ m n r) (hmn : m ≤ n) {cs₁ cs₂ : List Call} {os₁ os₂ : List Result}
    (hsame : cs₁.map Call.request = cs₂.map Call.request)
    (hc : Along PoolClients.step Countable s₁ cs₁)
    (hr₁ : Machine.run PoolClients.step s₁ cs₁ = some (os₁, s₁'))
    (hr₂ : Machine.run PoolClients.step s₂ cs₂ = some (os₂, s₂')) (ho : .page none ∉ os₁) :
    .page none ∉ os₂ ∧ (∃ r', Paired s₁' s₂' m n r') ∧ s₂.reads cs₂ ≤ s₁.reads cs₁ := by
  induction cs₁ generalizing cs₂ s₁ s₂ r os₁ os₂ with
  | nil =>
    obtain rfl := List.map_eq_nil_iff.mp hsame.symm
    cases hr₁
    cases hr₂
    exact ⟨List.not_mem_nil, ⟨r, h⟩, le_rfl⟩
  | cons c₁ cs₁ ih =>
    obtain ⟨c₂, cs₂, rfl, hsame₁, hsame⟩ := List.map_eq_cons_iff.mp hsame.symm
    obtain ⟨o₁, t₁, os₁, hs₁, hrest₁, rfl⟩ := run_cons.mp hr₁
    obtain ⟨o₂, t₂, os₂, hs₂, hrest₂, rfl⟩ := run_cons.mp hr₂
    rw [List.mem_cons, not_or] at ho
    obtain ⟨ho₂, ht, hreads⟩ := h.step hmn hsame₁.symm hc.1 hs₁ hs₂ (Ne.symm ho.1)
    obtain ⟨hos₂, hpaired, hle⟩ := ih ht hsame.symm (hc.2 _ _ hs₁) hrest₁ hrest₂ ho.2
    refine ⟨List.not_mem_cons_of_ne_of_not_mem (Ne.symm ho₂) hos₂, hpaired, ?_⟩
    rw [reads, reads, hs₁, hs₂]
    refine Nat.add_le_add ?_ hle
    split
    · rw [if_pos (hreads ‹_›)]
    · exact Nat.zero_le _

end Paired

/-- **A larger pool is never worse.**  Let two pools, over any files, get the same calls, but for
the frames that their pages are in, and let the smaller one never return `nullptr`, with fewer than
`2 ^ 32 - 1` calls of `NewPage` and no more than `2 ^ 32` pins on any page at any time.  Then
neither does the larger one; every page that is resident in the smaller pool is resident in the
larger one; and the larger one has read no more pages from its file. -/
theorem larger_pool {m n : ℕ} (hmn : m ≤ n) {file₁ file₂ : PageId → Option PageData}
    {cs₁ cs₂ : List Call} {os₁ os₂ : List Result} {s₁ s₂ : PoolClients}
    (hr₁ : run step (start m file₁) cs₁ = some (os₁, s₁))
    (hr₂ : run step (start n file₂) cs₂ = some (os₂, s₂))
    (hsame : cs₁.map Call.request = cs₂.map Call.request) (hnull : .page none ∉ os₁)
    (hnew : cs₁.countP Call.isNewPage < 2 ^ 32 - 1)
    (hpins : Along step (PinsAtMost (2 ^ 32)) (start m file₁) cs₁) :
    .page none ∉ os₂ ∧
      (∀ p, s₁.store.pool.pageTable.lookup p ≠ none → s₂.store.pool.pageTable.lookup p ≠ none) ∧
      (start n file₂).reads cs₂ ≤ (start m file₁).reads cs₁ := by
  have hpaired : Paired (start m file₁) (start n file₂) m n {} :=
    ⟨sound_start m file₁, sound_start n file₂, mirrors_start m file₁, mirrors_start n file₂, rfl⟩
  obtain ⟨ho, ⟨r, h⟩, hle⟩ := hpaired.run hmn hsame
    (along_countable le_rfl (by simpa [start] using hnew) hpins) hr₁ hr₂ hnull
  exact ⟨ho, fun p hp ↦ h.resident hmn hp, hle⟩

/-- Pools of one frame and of two, and a page that is fetched after another has been made. -/
theorem larger_pool_two :
    ∃ os₁ s₁ os₂ s₂,
      run step (start 1 fun _ ↦ none) [.newPage, .unpinPage ⟨0, 0, false⟩ true, .newPage,
        .unpinPage ⟨1, 0, false⟩ false, .fetchPage 0] = some (os₁, s₁) ∧
      run step (start 2 fun _ ↦ none) [.newPage, .unpinPage ⟨0, 0, false⟩ true, .newPage,
        .unpinPage ⟨1, 1, false⟩ false, .fetchPage 0] = some (os₂, s₂) ∧ .page none ∉ os₂ ∧
      (∀ p, s₁.store.pool.pageTable.lookup p ≠ none → s₂.store.pool.pageTable.lookup p ≠ none) ∧
      (start 2 fun _ ↦ none).reads [.newPage, .unpinPage ⟨0, 0, false⟩ true, .newPage,
        .unpinPage ⟨1, 1, false⟩ false, .fetchPage 0] ≤
      (start 1 fun _ ↦ none).reads [.newPage, .unpinPage ⟨0, 0, false⟩ true, .newPage,
        .unpinPage ⟨1, 0, false⟩ false, .fetchPage 0] := by
  have hr₁ : run step (start 1 fun _ ↦ none) [.newPage, .unpinPage ⟨0, 0, false⟩ true, .newPage,
      .unpinPage ⟨1, 0, false⟩ false, .fetchPage 0] = some _ := rfl
  have hr₂ : run step (start 2 fun _ ↦ none) [.newPage, .unpinPage ⟨0, 0, false⟩ true, .newPage,
      .unpinPage ⟨1, 1, false⟩ false, .fetchPage 0] = some _ := rfl
  exact ⟨_, _, _, _, hr₁, hr₂, larger_pool (by decide) hr₁ hr₂ (by decide) (by simp) (by decide)
    (along_pinsAtMost (by decide))⟩

end PoolClients

end StingDB
