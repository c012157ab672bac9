import Mathlib.Tactic.Ring
import StingDB.Storage.BufferPool.Invariant

/-!
# Clients of the buffer pool

Any number of clients call the pool, one call after another, and write to the pages they have
pinned.  They keep to what the executors do: a page is fetched only after `NewPage` has returned
its id, and each `UnpinPage` releases a pin that was taken before and not released since.

`classified` is the representation invariant of the pool over every such run: every frame is free,
or a candidate for eviction, or pinned by somebody, and not two of these; a page that somebody has
pinned stays where it is; and no frame is lost.  Only the counter of a page on which the clients
hold `2 ^ 31` pins is not the number of these (`pinCount_negative`); the rest holds for as long as
they do not hold more than `2 ^ 32`.
-/

set_option autoImplicit false

namespace StingDB

open Machine

/-- A pin that a client holds. -/
structure Pin where
  /-- The page, as `NewPage` or `FetchPage` gave it out. -/
  page : PageId
  /-- The frame the client's pointer points to. -/
  frame : ℕ
  /-- The client has written to the page since it pinned it. -/
  modified : Bool := false
  deriving DecidableEq

/-- How many pins there are on a page. -/
def heldBy (pins : List Pin) (p : PageId) : ℕ := pins.countP fun pin ↦ pin.page = p

theorem heldBy_cons (pin : Pin) (pins : List Pin) (p : PageId) :
    heldBy (pin :: pins) p = heldBy pins p + if pin.page = p then 1 else 0 := by
  simp [heldBy, List.countP_cons]

theorem heldBy_erase {pin : Pin} {pins : List Pin} (h : pin ∈ pins) (p : PageId) :
    heldBy pins p = heldBy (pins.erase pin) p + if pin.page = p then 1 else 0 := by
  rw [← heldBy_cons]
  exact (List.perm_cons_erase h).countP_eq _

theorem heldBy_pos {pin : Pin} {pins : List Pin} (h : pin ∈ pins) : heldBy pins pin.page ≠ 0 := by
  rw [heldBy_erase h, if_pos rfl]
  exact Nat.succ_ne_zero _

/-! ## The pool and the pins -/

/-- The pool keeps its invariant for these pins, and each pinned page is in the frame the client
has a pointer to. -/
structure BufferPoolManager.Holds (b : BufferPoolManager) (pins : List Pin) (limbo : Option ℕ) :
    Prop where
  represents : b.Represents (heldBy pins) limbo
  mapped : ∀ pin ∈ pins, b.pageTable.lookup pin.page = some pin.frame

namespace BufferPoolManager.Holds

variable {b : BufferPoolManager} {pins : List Pin} {limbo : Option ℕ} {p : PageId} {f : ℕ}

theorem acquireFrame {s s' : Store} (h : s.pool.Holds pins none)
    (ha : s.acquireFrame = some (f, s')) : s'.pool.Holds pins (some f) where
  represents := h.represents.acquireFrame ha
  mapped pin hpin := by
    have hmap := h.mapped pin hpin
    obtain ⟨g, hg⟩ := Option.ne_none_iff_exists'.mp
      ((h.represents.acquireFrame ha).held_mapped (heldBy_pos hpin))
    rw [hg]
    exact ((h.represents.lookup_acquireFrame ha).mp hg).1.symm.trans hmap

theorem install (h : b.Holds pins (some f)) (hp : b.pageTable.lookup p = none) (data : PageData) :
    (b.install f p data).Holds (⟨p, f, false⟩ :: pins) none where
  represents := by
    have hheld : heldBy pins p = 0 := not_not.mp fun hne ↦ h.represents.held_mapped hne hp
    refine h.represents.install hp ?_ (fun q hq ↦ ?_) data
    · rw [heldBy_cons, hheld, if_pos rfl]
    · rw [heldBy_cons, if_neg (Ne.symm hq), Nat.add_zero]
  mapped := by
    refine List.forall_mem_cons.mpr ⟨AList.lookup_insert _, fun pin hpin ↦ ?_⟩
    have hne : pin.page ≠ p := by
      intro heq
      have hmap := h.mapped pin hpin
      rw [heq, hp] at hmap
      exact absurd hmap (by simp)
    exact (AList.lookup_insert_ne hne).trans (h.mapped pin hpin)

theorem pin (h : b.Holds pins limbo) (hp : b.pageTable.lookup p = some f) :
    (b.pin f).Holds (⟨p, f, false⟩ :: pins) limbo where
  represents := by
    refine h.represents.pin hp ?_ fun q hq ↦ ?_
    · rw [heldBy_cons, if_pos rfl]
    · rw [heldBy_cons, if_neg (Ne.symm hq), Nat.add_zero]
  mapped := List.forall_mem_cons.mpr ⟨hp, h.mapped⟩

theorem unpin (h : b.Holds pins limbo) {pin : Pin} (hpin : pin ∈ pins)
    (hle : heldBy pins pin.page ≤ 2 ^ 32) (isDirty : Bool) :
    (b.unpin pin.frame isDirty).Holds (pins.erase pin) limbo where
  represents := by
    refine h.represents.unpin (h.mapped pin hpin) hle ?_ (fun q hq ↦ ?_) isDirty
    · rw [heldBy_erase hpin, if_pos rfl]
    · rw [heldBy_erase hpin, if_neg (Ne.symm hq), Nat.add_zero]
  mapped pin' hpin' := by
    rw [BufferPoolManager.unpin_pageTable]
    exact h.mapped pin' (List.mem_of_mem_erase hpin')

/-- A client marks one of its pins as that of a modified page, after writing to the frame. -/
theorem write (h : b.Holds pins limbo) {pin : Pin} (hpin : pin ∈ pins) (data : PageData) :
    (b.setPage pin.frame { b.pages pin.frame with data }).Holds
      ({ pin with modified := true } :: pins.erase pin) limbo where
  represents := by
    have hheld : heldBy ({ pin with modified := true } :: pins.erase pin) = heldBy pins := by
      funext q
      rw [heldBy_cons, heldBy_erase hpin]
    rw [hheld]
    exact h.represents.setPage rfl rfl
  mapped := List.forall_mem_cons.mpr
    ⟨h.mapped pin hpin, fun pin' hpin' ↦ h.mapped pin' (List.mem_of_mem_erase hpin')⟩

theorem flushFrame {s : Store} (h : s.pool.Holds pins limbo) (q : PageId) (g : ℕ) :
    (s.flushFrame q g).pool.Holds pins limbo where
  represents := h.represents.flushFrame q g
  mapped pin hpin := by
    rw [Store.flushFrame_pageTable]
    exact h.mapped pin hpin

end BufferPoolManager.Holds

/-! ## The clients -/

/-- A store and its clients. -/
structure PoolClients where
  /-- The pool and the file. -/
  store : Store
  /-- The ids that `NewPage` has returned. -/
  handed : List PageId := []
  /-- The pins that have been taken and not released. -/
  pins : List Pin := []
  /-- For each page the last bytes that a client has written to it, or zeros.  Nothing reads
  this. -/
  memory : PageId → PageData := fun _ ↦ Block.zero

namespace PoolClients

/-- A pool that has just been constructed, over a file. -/
def start (poolSize : ℕ) (file : PageId → Option PageData) : PoolClients :=
  { store := { pool := .create poolSize, disk := { file } } }

/-- What a client does. -/
inductive Call where
  | newPage
  | fetchPage (pageId : PageId)
  /-- Not a call: writes through the pointer of a pin, after which the page has these bytes. -/
  | write (pin : Pin) (data : PageData)
  | unpinPage (pin : Pin) (isDirty : Bool)
  | flushPage (pageId : PageId)
  | flushAllPages

/-- What a call returns. -/
inductive Result where
  /-- A page, by its id and its bytes, or `nullptr`. -/
  | page (page : Option (PageId × PageData))
  | flag (b : Bool)
  | void

/-- The state when the pool has returned the page `pageId`, which is in the frame `frameId`. -/
def take (s : PoolClients) (store : Store) (pageId : PageId) (frameId : ℕ) :
    Result × PoolClients :=
  (.page (some (pageId, (store.pool.pages frameId).data)),
    { s with store, pins := ⟨pageId, frameId, false⟩ :: s.pins })

/-- One call. -/
def step (s : PoolClients) : Call → Option (Result × PoolClients)
  | .newPage =>
    match s.store.newPage with
    | (none, store) => some (.page none, { s with store })
    | (some (pageId, frameId), store) =>
      some ({ s with handed := pageId :: s.handed }.take store pageId frameId)
  | .fetchPage pageId =>
    if pageId ∈ s.handed then
      match s.store.fetchPage pageId with
      | (none, store) => some (.page none, { s with store })
      | (some frameId, store) => some (s.take store pageId frameId)
    else none
  | .write pin data =>
    if pin ∈ s.pins then
      some (.void, { s with
        store := s.store.writeFrame pin.frame data
        pins := { pin with modified := true } :: s.pins.erase pin
        memory := Function.update s.memory pin.page data })
    else none
  | .unpinPage pin isDirty =>
    if pin ∈ s.pins then
      let (result, store) := s.store.unpinPage pin.page isDirty
      some (.flag result, { s with store, pins := s.pins.erase pin })
    else none
  | .flushPage pageId =>
    let (result, store) := s.store.flushPage pageId
    some (.flag result, { s with store })
  | .flushAllPages => some (.void, { s with store := s.store.flushAllPages })

theorem newPage_step {s s' : PoolClients} {o : Result} (hs : step s .newPage = some (o, s')) :
    o = .page none ∧ s' = s ∨ ∃ f s₁, s.store.acquireFrame = some (f, s₁) ∧
      (o, s') = { s with handed := s₁.disk.nextPageId :: s.handed }.take
        { pool := s₁.pool.install f s₁.disk.nextPageId Block.zero
          disk := s₁.disk.allocatePage.2 } s₁.disk.nextPageId f := by
  rw [step] at hs
  split at hs
  · rename_i store hn
    cases hs
    obtain ⟨-, -, rfl⟩ | ⟨f, s₁, -, ho, -⟩ := Store.newPage_cases hn
    · exact Or.inl ⟨rfl, rfl⟩
    · cases ho
  · rename_i p f store hn
    obtain ⟨-, ho, -⟩ | ⟨f', s₁, ha, ho, rfl⟩ := Store.newPage_cases hn
    · cases ho
    · cases ho
      exact Or.inr ⟨f, s₁, ha, (Option.some.inj hs).symm⟩

theorem fetchPage_step {s s' : PoolClients} {p : PageId} {o : Result}
    (hs : step s (.fetchPage p) = some (o, s')) :
    p ∈ s.handed ∧ (o = .page none ∧ s' = s ∨
      (∃ f, s.store.pool.pageTable.lookup p = some f ∧
        (o, s') = s.take { s.store with pool := s.store.pool.pin f } p f) ∨
      s.store.pool.pageTable.lookup p = none ∧ ∃ f s₁, s.store.acquireFrame = some (f, s₁) ∧
        (o, s') = s.take { s₁ with pool := s₁.pool.install f p (s₁.disk.readPage p) } p f) := by
  rw [step] at hs
  split at hs
  · rename_i hmem
    refine ⟨hmem, ?_⟩
    split at hs
    · rename_i store hf
      cases hs
      obtain ⟨f, -, ho, -⟩ | ⟨-, -, -, rfl⟩ | ⟨-, f, s₁, -, ho, -⟩ := Store.fetchPage_cases hf
      · cases ho
      · exact Or.inl ⟨rfl, rfl⟩
      · cases ho
    · rename_i f store hf
      obtain ⟨f', hp, ho, rfl⟩ | ⟨-, -, ho, -⟩ | ⟨hp, f', s₁, ha, ho, rfl⟩ :=
        Store.fetchPage_cases hf
      · cases ho
        exact Or.inr (Or.inl ⟨f, hp, (Option.some.inj hs).symm⟩)
      · cases ho
      · cases ho
        exact Or.inr (Or.inr ⟨hp, f, s₁, ha, (Option.some.inj hs).symm⟩)
  · cases hs

/-- The call leaves no page with more than `n` pins. -/
def PinsAtMost (n : ℕ) (s : PoolClients) (c : Call) : Prop :=
  ∀ o s', step s c = some (o, s') → ∀ p, heldBy s'.pins p ≤ n

/-- There are ids left for `NewPage` to return, and the call leaves no page with more pins than a
counter can tell from one. -/
def Countable (s : PoolClients) (c : Call) : Prop :=
  s.handed.length < 2 ^ 32 - 1 ∧ PinsAtMost (2 ^ 32) s c

/-- What holds between calls. -/
structure Sound (s : PoolClients) : Prop where
  holds : s.store.pool.Holds s.pins none
  held_le : ∀ p, heldBy s.pins p ≤ 2 ^ 32
  /-- `NewPage` has returned the ids below the counter, and no others. -/
  nextPageId_eq : s.store.disk.nextPageId.toNat = s.handed.length
  handed_lt : ∀ p ∈ s.handed, p.toNat < s.handed.length
  /-- Only such pages are resident. -/
  resident_handed : ∀ {p f}, s.store.pool.pageTable.lookup p = some f → p ∈ s.handed

theorem sound_start (poolSize : ℕ) (file : PageId → Option PageData) :
    (start poolSize file).Sound where
  holds := ⟨BufferPoolManager.represents_create poolSize, fun _ h ↦ absurd h List.not_mem_nil⟩
  held_le _ := Nat.zero_le _
  nextPageId_eq := rfl
  handed_lt _ h := absurd h List.not_mem_nil
  resident_handed h := absurd h (by simp [start, BufferPoolManager.create])

theorem flushAllPages_holds {s : Store} {pins : List Pin} (h : s.pool.Holds pins none) :
    s.flushAllPages.pool.Holds pins none :=
  Store.flushAllPages_induction (P := fun s ↦ s.pool.Holds pins none) h
    fun _ p f _ hs _ ↦ hs.flushFrame p f

namespace Sound

variable {s : PoolClients}

/-- A page that was not resident, in a frame that had to be found first. -/
theorem load (h : s.Sound) {p : PageId} {f : ℕ} {s₁ : Store}
    (hp : s.store.pool.pageTable.lookup p = none) (ha : s.store.acquireFrame = some (f, s₁))
    (data : PageData) : (s₁.pool.install f p data).Holds (⟨p, f, false⟩ :: s.pins) none := by
  refine (h.holds.acquireFrame ha).install ?_ data
  rw [Option.eq_none_iff_forall_ne_some]
  intro g hg
  rw [((h.holds.represents.lookup_acquireFrame ha).mp hg).1] at hp
  exact absurd hp (by simp)

/-- What is resident then. -/
theorem resident_load (h : s.Sound) {p q : PageId} {f g : ℕ} {s₁ : Store} {data : PageData}
    (ha : s.store.acquireFrame = some (f, s₁))
    (hq : (s₁.pool.install f p data).pageTable.lookup q = some g) : q = p ∨ q ∈ s.handed := by
  by_cases hqp : q = p
  · exact Or.inl hqp
  · refine Or.inr (h.resident_handed (f := g) ?_)
    exact ((h.holds.represents.lookup_acquireFrame ha).mp
      ((AList.lookup_insert_ne hqp).symm.trans hq)).1

/-- The id that `NewPage` is about to return is new. -/
theorem nextPageId_notMem (h : s.Sound) : s.store.disk.nextPageId ∉ s.handed :=
  fun hmem ↦ (h.handed_lt _ hmem).ne h.nextPageId_eq

/-- A call that changes the pool only. -/
theorem of_holds (h : s.Sound) {store : Store} {pins : List Pin}
    {memory : PageId → PageData} (hholds : store.pool.Holds pins none)
    (hle : ∀ p, heldBy pins p ≤ 2 ^ 32)
    (hid : store.disk.nextPageId = s.store.disk.nextPageId)
    (hres : ∀ {p f}, store.pool.pageTable.lookup p = some f → p ∈ s.handed) :
    ({ s with store, pins, memory } : PoolClients).Sound where
  holds := hholds
  held_le := hle
  nextPageId_eq := by rw [hid]; exact h.nextPageId_eq
  handed_lt := h.handed_lt
  resident_handed := hres

theorem newPage {s' : PoolClients} {o : Result} (h : s.Sound)
    (hlt : s.handed.length < 2 ^ 32 - 1) (hle : ∀ p, heldBy s'.pins p ≤ 2 ^ 32)
    (hs : PoolClients.step s .newPage = some (o, s')) : s'.Sound := by
  obtain ⟨-, rfl⟩ | ⟨f, s₁, ha, heq⟩ := newPage_step hs
  · exact h
  · cases heq
    have hnext : s₁.disk.nextPageId = s.store.disk.nextPageId := Store.acquireFrame_nextPageId ha
    have hnone : s.store.pool.pageTable.lookup s₁.disk.nextPageId = none := by
      rw [Option.eq_none_iff_forall_ne_some, hnext]
      exact fun g hg ↦ h.nextPageId_notMem (h.resident_handed hg)
    have hcount : (s₁.disk.nextPageId + 1).toNat = s.handed.length + 1 := by
      rw [UInt32.toNat_add, hnext, h.nextPageId_eq]
      exact Nat.mod_eq_of_lt (by simpa using by omega)
    exact
      { holds := h.load hnone ha _
        held_le := hle
        nextPageId_eq := hcount
        handed_lt := by
          refine List.forall_mem_cons.mpr ⟨?_, fun q hq ↦ (h.handed_lt q hq).trans ?_⟩
          · rw [hnext, h.nextPageId_eq]
            exact Nat.lt_succ_self _
          · exact Nat.lt_succ_self _
        resident_handed := fun hq ↦ List.mem_cons.mpr (h.resident_load ha hq) }

theorem fetchPage {s' : PoolClients} {p : PageId} {o : Result} (h : s.Sound)
    (hle : ∀ p, heldBy s'.pins p ≤ 2 ^ 32)
    (hs : PoolClients.step s (.fetchPage p) = some (o, s')) : s'.Sound := by
  obtain ⟨hmem, ⟨-, rfl⟩ | ⟨f, hp, heq⟩ | ⟨hp, f, s₁, ha, heq⟩⟩ := fetchPage_step hs
  · exact h
  · cases heq
    exact h.of_holds (h.holds.pin hp) hle rfl h.resident_handed
  · cases heq
    have hnext := Store.acquireFrame_nextPageId ha
    refine h.of_holds (h.load hp ha _) hle hnext fun hq ↦ ?_
    rcases h.resident_load ha hq with rfl | hq
    · exact hmem
    · exact hq

theorem step {s' : PoolClients} {c : Call} {o : Result} (h : s.Sound) (hc : Countable s c)
    (hs : step s c = some (o, s')) : s'.Sound := by
  have hle := hc.2 o s' hs
  cases c with
  | newPage => exact h.newPage hc.1 hle hs
  | fetchPage p => exact h.fetchPage hle hs
  | write pin data =>
    rw [PoolClients.step] at hs
    split at hs
    · rename_i hpin
      cases hs
      exact h.of_holds (h.holds.write hpin data) hle rfl h.resident_handed
    · exact absurd hs (by simp)
  | unpinPage pin isDirty =>
    rw [PoolClients.step] at hs
    split at hs
    · rename_i hpin
      simp only [Store.unpinPage, h.holds.mapped pin hpin] at hs
      cases hs
      refine h.of_holds (h.holds.unpin hpin (h.held_le _) isDirty) hle rfl ?_
      rw [BufferPoolManager.unpin_pageTable]
      exact h.resident_handed
    · exact absurd hs (by simp)
  | flushPage p =>
    simp only [PoolClients.step, Store.flushPage] at hs
    split at hs
    · cases hs
      exact h
    · rename_i f hp
      cases hs
      refine h.of_holds (h.holds.flushFrame p f) hle ?_ ?_
      · exact Store.flushFrame_nextPageId ..
      · rw [Store.flushFrame_pageTable]
        exact h.resident_handed
  | flushAllPages =>
    cases hs
    refine h.of_holds (flushAllPages_holds h.holds) hle ?_ ?_
    · exact Store.flushAllPages_nextPageId _
    · rw [Store.flushAllPages_pageTable]
      exact h.resident_handed

end Sound

/-! ## Runs -/

/-- A call of `NewPage`. -/
def Call.isNewPage : Call → Bool
  | .newPage => true
  | _ => false

/-- A call hands out an id at most, and only if it is a `NewPage`; and it takes a pin at most. -/
theorem step_length_le {s s' : PoolClients} {c : Call} {o : Result}
    (hs : step s c = some (o, s')) :
    s'.handed.length ≤ s.handed.length + (if c.isNewPage then 1 else 0) ∧
      s'.pins.length ≤ s.pins.length + 1 := by
  have hsame : ∀ n : ℕ, n ≤ n + 1 := Nat.le_succ
  cases c with
  | newPage =>
    rw [step] at hs
    split at hs <;> cases hs
    · exact ⟨hsame _, hsame _⟩
    · exact ⟨le_rfl, le_rfl⟩
  | fetchPage p =>
    rw [step] at hs
    split at hs
    · split at hs <;> cases hs
      · exact ⟨le_rfl, hsame _⟩
      · exact ⟨le_rfl, le_rfl⟩
    · exact absurd hs (by simp)
  | write pin data =>
    rw [step] at hs
    split at hs <;> cases hs
    exact ⟨le_rfl, Nat.succ_le_succ List.length_erase_le⟩
  | unpinPage pin isDirty =>
    rw [step] at hs
    split at hs <;> cases hs
    exact ⟨le_rfl, List.length_erase_le.trans (hsame _)⟩
  | flushPage p =>
    cases hs
    exact ⟨le_rfl, hsame _⟩
  | flushAllPages =>
    cases hs
    exact ⟨le_rfl, hsame _⟩

/-- With few enough calls of `NewPage` there is always an id left. -/
theorem along_countable {s : PoolClients} {cs : List Call} {n : ℕ} (hn : n ≤ 2 ^ 32)
    (hnew : s.handed.length + cs.countP Call.isNewPage < 2 ^ 32 - 1)
    (hpins : Along step (PinsAtMost n) s cs) : Along step Countable s cs := by
  induction cs generalizing s with
  | nil => trivial
  | cons c cs ih =>
    rw [List.countP_cons] at hnew
    refine ⟨⟨by omega, fun o s' hs p ↦ (hpins.1 o s' hs p).trans hn⟩, fun o s' hs ↦ ?_⟩
    have hlen := (step_length_le hs).1
    exact ih (by omega) (hpins.2 o s' hs)

/-- In a run of `n` calls there are no more than `n` pins. -/
theorem along_pinsAtMost {s : PoolClients} {cs : List Call} {n : ℕ}
    (h : s.pins.length + cs.length ≤ n) : Along step (PinsAtMost n) s cs := by
  induction cs generalizing s with
  | nil => trivial
  | cons c cs ih =>
    rw [List.length_cons] at h
    refine ⟨fun o s' hs p ↦ ?_, fun o s' hs ↦ ?_⟩
    · have hlen := (step_length_le hs).2
      have hle : heldBy s'.pins p ≤ s'.pins.length := List.countP_le_length
      omega
    · have hlen := (step_length_le hs).2
      exact ih (by omega)

theorem pins_le_of_run {s s' : PoolClients} {cs : List Call} {os : List Result} {n : ℕ}
    (h₀ : ∀ p, heldBy s.pins p ≤ n) (hpins : Along step (PinsAtMost n) s cs)
    (hr : run step s cs = some (os, s')) : ∀ p, heldBy s'.pins p ≤ n :=
  run_invariant (I := fun s : PoolClients ↦ ∀ p, heldBy s.pins p ≤ n)
    (fun _ _ o s' _ hP hs ↦ hP o s' hs) h₀ hpins hr

variable {poolSize : ℕ} {file : PageId → Option PageData}

theorem sound_of_run {s : PoolClients} {cs : List Call} {os : List Result}
    (hr : run step (start poolSize file) cs = some (os, s))
    (hc : Along step Countable (start poolSize file) cs) : s.Sound :=
  run_invariant (fun _ _ _ _ h hP hs ↦ h.step hP hs) (sound_start poolSize file) hc hr

end PoolClients

/-! ## The representation invariant, over every run -/

namespace BufferPoolManager

/-- In `free_list_`, once, and in nothing else. -/
def IsFree (b : BufferPoolManager) (f : ℕ) : Prop :=
  b.freeList.count f = 1 ∧ f ∉ b.lruReplacer ∧ ∀ p, b.pageTable.lookup p ≠ some f

/-- In `lru_replacer_`, once, mapped, and pinned by nobody. -/
def IsCandidate (b : BufferPoolManager) (f : ℕ) : Prop :=
  f ∉ b.freeList ∧ b.lruReplacer.count f = 1 ∧ (∃ p, b.pageTable.lookup p = some f) ∧
    (b.pages f).pinCount = 0

/-- In neither list, mapped, and with as many pins as the clients hold on its page. -/
def IsPinned (b : BufferPoolManager) (pins : List Pin) (f : ℕ) : Prop :=
  f ∉ b.freeList ∧ f ∉ b.lruReplacer ∧ 0 < (b.pages f).pinCount ∧
    ∃ p, b.pageTable.lookup p = some f ∧ (b.pages f).pinCount = heldBy pins p

/-- The same of a frame whose counter has perhaps gone past the end of the `int`. -/
def IsHeld (b : BufferPoolManager) (pins : List Pin) (f : ℕ) : Prop :=
  f ∉ b.freeList ∧ f ∉ b.lruReplacer ∧
    ∃ p, b.pageTable.lookup p = some f ∧ heldBy pins p ≠ 0 ∧
      (b.pages f).pinCount = i32 (heldBy pins p)

/-- The representation invariant but for the value of the counters, in terms of the five structures
only.  No frame is in two of the three classes, because each class says which of the two lists the
frame is in. -/
structure Partitioned (b : BufferPoolManager) (pins : List Pin) : Prop where
  injective : ∀ {p q f}, b.pageTable.lookup p = some f → b.pageTable.lookup q = some f → p = q
  pageId_eq : ∀ {p f}, b.pageTable.lookup p = some f → (b.pages f).pageId = p
  classes : ∀ f < b.poolSize, b.IsFree f ∨ b.IsCandidate f ∨ b.IsHeld pins f
  /-- Nobody has pinned the page of a candidate. -/
  unpinned : ∀ {p f}, f ∈ b.lruReplacer → b.pageTable.lookup p = some f → heldBy pins p = 0
  /-- Only the frames of the pool are in any of the structures. -/
  lt_poolSize : ∀ {f}, f ∈ b.freeList ∨ f ∈ b.lruReplacer ∨ (∃ p, b.pageTable.lookup p = some f) →
    f < b.poolSize
  size_eq : b.freeList.length + b.pageTable.entries.length = b.poolSize
  /-- A pinned page stays in the frame its client has a pointer to. -/
  mapped : ∀ pin ∈ pins, b.pageTable.lookup pin.page = some pin.frame

/-- The representation invariant. -/
structure Classified (b : BufferPoolManager) (pins : List Pin) : Prop where
  injective : ∀ {p q f}, b.pageTable.lookup p = some f → b.pageTable.lookup q = some f → p = q
  pageId_eq : ∀ {p f}, b.pageTable.lookup p = some f → (b.pages f).pageId = p
  classes : ∀ f < b.poolSize, b.IsFree f ∨ b.IsCandidate f ∨ b.IsPinned pins f
  /-- Only the frames of the pool are in any of the structures. -/
  lt_poolSize : ∀ {f}, f ∈ b.freeList ∨ f ∈ b.lruReplacer ∨ (∃ p, b.pageTable.lookup p = some f) →
    f < b.poolSize
  size_eq : b.freeList.length + b.pageTable.entries.length = b.poolSize
  /-- A pinned page stays in the frame its client has a pointer to. -/
  mapped : ∀ pin ∈ pins, b.pageTable.lookup pin.page = some pin.frame

variable {b : BufferPoolManager} {pins : List Pin} {f : ℕ}

theorem Holds.partitioned (h : b.Holds pins none) : b.Partitioned pins where
  injective := h.represents.injective
  pageId_eq := h.represents.pageId_eq
  classes f hf := by
    rcases h.represents.covers hf with hfree | ⟨p, hp⟩ | hlimbo
    · have hunmapped := fun p ↦ h.represents.free_unmapped (p := p) hfree
      refine Or.inl ⟨List.count_eq_one_of_mem h.represents.free_nodup hfree, fun hl ↦ ?_, hunmapped⟩
      obtain ⟨p, hp, -⟩ := h.represents.mem_lru.mp hl
      exact hunmapped p hp
    · have hfree : f ∉ b.freeList := fun hmem ↦ h.represents.free_unmapped hmem hp
      by_cases h0 : heldBy pins p = 0
      · have hl : f ∈ b.lruReplacer := h.represents.mem_lru.mpr ⟨p, hp, h0⟩
        have honce := List.count_eq_one_of_mem h.represents.lru_nodup hl
        refine Or.inr (Or.inl ⟨hfree, honce, ⟨p, hp⟩, ?_⟩)
        rw [h.represents.pinCount_eq hp, h0]
        rfl
      · exact Or.inr (Or.inr ⟨hfree, fun hl ↦ h0 (h.represents.unpinned hl hp), p, hp, h0,
          h.represents.pinCount_eq hp⟩)
    · exact absurd hlimbo (by simp)
  unpinned := h.represents.unpinned
  lt_poolSize := by
    rintro f (hf | hf | ⟨p, hp⟩)
    · exact h.represents.free_lt hf
    · obtain ⟨p, hp, -⟩ := h.represents.mem_lru.mp hf
      exact h.represents.mapped_lt hp
    · exact h.represents.mapped_lt hp
  size_eq := h.represents.size_eq
  mapped := h.mapped

theorem IsCandidate.mem_lru (h : b.IsCandidate f) : f ∈ b.lruReplacer :=
  List.count_pos_iff.mp (h.2.1 ▸ Nat.one_pos)

/-- A counter that has not gone past the end of the `int` is the number of the pins. -/
theorem IsHeld.isPinned (h : b.IsHeld pins f) (hle : ∀ p, heldBy pins p < 2 ^ 31) :
    b.IsPinned pins f := by
  obtain ⟨hfree, hlru, p, hp, hne, hcount⟩ := h
  have hlt := hle p
  rw [i32_of_lt (by omega) (by omega)] at hcount
  refine ⟨hfree, hlru, ?_, p, hp, hcount⟩
  rw [hcount]
  omega

/-- The frame of a pinned page. -/
theorem Partitioned.of_heldBy (h : b.Partitioned pins) {p : PageId}
    (hp : b.pageTable.lookup p = some f) (hne : heldBy pins p ≠ 0) :
    f ∉ b.lruReplacer ∧ (b.pages f).pinCount = i32 (heldBy pins p) := by
  have hlru : f ∉ b.lruReplacer := fun hl ↦ hne (h.unpinned hl hp)
  refine ⟨hlru, ?_⟩
  rcases h.classes f (h.lt_poolSize (Or.inr (Or.inr ⟨p, hp⟩))) with hfree | hcandidate | hheld
  · exact absurd hp (hfree.2.2 p)
  · exact absurd hcandidate.mem_lru hlru
  · obtain ⟨-, -, q, hq, -, hcount⟩ := hheld
    rwa [h.injective hq hp] at hcount

/-- A page with `2 ^ 31` pins has a counter that is not the number of its pins. -/
theorem Partitioned.heldBy_lt (h : b.Partitioned pins) (hc : b.Classified pins) (p : PageId) :
    heldBy pins p < 2 ^ 31 := by
  by_contra hlt
  have hne : heldBy pins p ≠ 0 := by omega
  obtain ⟨pin, hpin, hpage⟩ := List.countP_pos_iff.mp (Nat.pos_of_ne_zero hne)
  have hp := h.mapped pin hpin
  rw [of_decide_eq_true hpage] at hp
  obtain ⟨hlru, hheld⟩ := h.of_heldBy hp hne
  rcases hc.classes _ (h.lt_poolSize (Or.inr (Or.inr ⟨p, hp⟩))) with hfree | hcandidate | hpinned
  · exact hfree.2.2 p hp
  · exact hlru hcandidate.mem_lru
  · obtain ⟨-, -, -, q, hq, hcount⟩ := hpinned
    have hwraps := i32_lt (heldBy pins p)
    rw [h.injective hq hp, hheld] at hcount
    omega

/-- **When the counters are right.** -/
theorem Partitioned.classified_iff (h : b.Partitioned pins) :
    b.Classified pins ↔ ∀ p, heldBy pins p < 2 ^ 31 := by
  refine ⟨h.heldBy_lt, fun hle ↦ ?_⟩
  exact
    { injective := h.injective
      pageId_eq := h.pageId_eq
      classes := fun f hf ↦ (h.classes f hf).imp_right (Or.imp_right (·.isPinned hle))
      lt_poolSize := h.lt_poolSize
      size_eq := h.size_eq
      mapped := h.mapped }

end BufferPoolManager

namespace PoolClients

/-- **The representation invariant of the buffer pool.**  For every pool size, every file and
every run of the clients with fewer than `2 ^ 32 - 1` calls of `NewPage` and no more than `2 ^ 32`
pins on any page at any time, the pool is `Partitioned` at the end, and it is `Classified` exactly
if no page has `2 ^ 31` pins then. -/
theorem classified {poolSize : ℕ} {file : PageId → Option PageData} {s : PoolClients}
    {cs : List Call} {os : List Result}
    (hr : run step (start poolSize file) cs = some (os, s))
    (hnew : cs.countP Call.isNewPage < 2 ^ 32 - 1)
    (hpins : Along step (PinsAtMost (2 ^ 32)) (start poolSize file) cs) :
    s.store.pool.Partitioned s.pins ∧
      (s.store.pool.Classified s.pins ↔ ∀ p, heldBy s.pins p < 2 ^ 31) := by
  have hcountable : Along step Countable (start poolSize file) cs :=
    along_countable le_rfl (by simpa [start] using hnew) hpins
  have hparts := (sound_of_run hr hcountable).holds.partitioned
  exact ⟨hparts, hparts.classified_iff⟩

/-- A page is released in a pool of one frame, and then evicted. -/
theorem classified_one :
    ∃ os s, run step (start 1 fun _ ↦ none)
        [.newPage, .unpinPage ⟨0, 0, false⟩ true, .newPage] = some (os, s) ∧
      s.store.pool.Partitioned s.pins ∧ s.store.pool.Classified s.pins := by
  obtain ⟨⟨os, s⟩, hr⟩ := Option.isSome_iff_exists.mp
    (rfl : (run step (start 1 fun _ ↦ none)
      [.newPage, .unpinPage ⟨0, 0, false⟩ true, .newPage]).isSome = true)
  obtain ⟨hparts, hiff⟩ := classified hr (by decide) (along_pinsAtMost (by decide))
  have hfew := pins_le_of_run (fun _ ↦ Nat.zero_le _) (along_pinsAtMost (n := 3) (by decide)) hr
  exact ⟨os, s, hr, hparts, hiff.mpr fun p ↦ (hfew p).trans_lt (by decide)⟩

/-! ## Very many pins -/

/-- The state after `k` more pins on the page `p` in frame `f`, whose counter was `c` modulo
`2 ^ 32`. -/
def fetched (s : PoolClients) (p : PageId) (f : ℕ) (c : ℤ) (k : ℕ) : PoolClients where
  store :=
    { pool := s.store.pool.setPage f { s.store.pool.pages f with pinCount := i32 (c + k) }
      disk := s.store.disk }
  handed := s.handed
  pins := List.replicate k ⟨p, f, false⟩ ++ s.pins
  memory := s.memory

theorem fetched_zero {s : PoolClients} {p : PageId} {f : ℕ} {c : ℤ}
    (hpin : (s.store.pool.pages f).pinCount = i32 c) : s.fetched p f c 0 = s := by
  simp [fetched, BufferPoolManager.setPage, ← hpin]

theorem fetched_fetched (s : PoolClients) (p : PageId) (f : ℕ) (c : ℤ) (k : ℕ) :
    (s.fetched p f c 1).fetched p f (c + 1) k = s.fetched p f c (k + 1) := by
  have hcount : c + 1 + (k : ℤ) = c + ((k + 1 : ℕ) : ℤ) := by push_cast; ring
  simp [fetched, BufferPoolManager.setPage, hcount, List.replicate_succ', Function.update_idem]

/-- A resident page is fetched `k` times, while there is no candidate for eviction: that adds `k`
to its counter and changes nothing else. -/
theorem run_fetchPage_replicate {s : PoolClients} {p : PageId} {f : ℕ} {c : ℤ}
    (hmem : p ∈ s.handed) (hp : s.store.pool.pageTable.lookup p = some f)
    (hlru : s.store.pool.lruReplacer = []) (hpin : (s.store.pool.pages f).pinCount = i32 c)
    (k : ℕ) :
    ∃ os, run step s (List.replicate k (.fetchPage p)) = some (os, s.fetched p f c k) := by
  induction k generalizing s c with
  | zero => exact ⟨[], by rw [fetched_zero hpin]; rfl⟩
  | succ k ih =>
    have hpool : s.store.pool.pin f = (s.fetched p f c 1).store.pool := by
      simp [fetched, BufferPoolManager.pin, BufferPoolManager.setPage, hlru, hpin, i32_i32_add]
    have hfetch : ∃ o, step s (.fetchPage p) = some (o, s.fetched p f c 1) := by
      simp only [step, if_pos hmem, Store.fetchPage, hp, hpool]
      exact ⟨_, rfl⟩
    obtain ⟨o, ho⟩ := hfetch
    obtain ⟨os, hos⟩ := ih (s := s.fetched p f c 1) (c := c + 1) hmem hp hlru (by simp [fetched])
    rw [fetched_fetched] at hos
    exact ⟨o :: os, run_cons.mpr ⟨o, _, os, ho, hos, rfl⟩⟩

theorem heldBy_fetched (s : PoolClients) (p : PageId) (f : ℕ) (c : ℤ) (k : ℕ) :
    heldBy (s.fetched p f c k).pins p = k + heldBy s.pins p := by
  simp [fetched, heldBy, List.countP_append, List.countP_replicate]

/-- The first page of a pool of one frame. -/
theorem step_newPage_start :
    ∃ o s, step (start 1 fun _ ↦ none) .newPage = some (o, s) ∧ s.handed = [0] ∧
      s.pins = [⟨0, 0, false⟩] ∧ s.store.pool.pageTable.lookup 0 = some 0 ∧
      s.store.pool.lruReplacer = [] ∧ s.store.pool.freeList = [] ∧
      (s.store.pool.pages 0).pinCount = 1 ∧ (s.store.pool.pages 0).isDirty = false ∧
      s.store.disk.nextPageId = 1 ∧ s.memory = fun _ ↦ Block.zero :=
  ⟨_, _, rfl, rfl, rfl, rfl, rfl, rfl, rfl, rfl, rfl, rfl⟩

/-- A pool of one frame, and its page pinned `2 ^ 31` times: `pin_count_` is negative. -/
theorem pinCount_negative :
    ∃ os s, run step (start 1 fun _ ↦ none)
        (.newPage :: List.replicate (2 ^ 31 - 1) (.fetchPage 0)) = some (os, s) ∧
      s.store.pool.pageTable.lookup 0 = some 0 ∧ heldBy s.pins 0 = 2 ^ 31 ∧
      (s.store.pool.pages 0).pinCount = -2 ^ 31 := by
  obtain ⟨o, s, hs, hhanded, hpins, hlookup, hlru, -, hcount, -⟩ := step_newPage_start
  obtain ⟨os, hos⟩ := run_fetchPage_replicate (c := 1) (p := 0) (by simp [hhanded]) hlookup hlru
    (hcount.trans rfl) (2 ^ 31 - 1)
  refine ⟨o :: os, _, run_cons.mpr ⟨o, s, os, hs, hos, rfl⟩, hlookup, ?_, ?_⟩
  · rw [heldBy_fetched, hpins]
    rfl
  · rw [fetched, BufferPoolManager.setPage_pages_self]
    rfl

end PoolClients

end StingDB
