import StingDB.Lib.Competitive
import StingDB.Storage.BufferPool.Inclusion

/-!
# How often any other pool would have to load

`lru_replacer_` evicts the page that has been released least recently, and knows nothing of the
calls to come.  Here a pool and its clients are run beside another cache, of fewer pages perhaps,
of which all that is asked is that it has every page that is pinned.  It sees the calls before they
come, and may load and evict at any time what it likes.

`loads_le` says that the pool still loads no more than `n / (n - h + 1)` pages for each that the
other cache loads, where `n` and `h` are their sizes, but for `n` pages in the beginning.  With
twice the frames this is less than two for one.  It follows from what the pool keeps being the
beginning of a stack (`Sound.mirrors_step`), and from the account that can be kept for a stack.
-/

set_option autoImplicit false

namespace StingDB

open Machine

/-- A pool and its clients, beside another cache for the same pages. -/
structure PoolContest where
  /-- The pool and its clients. -/
  clients : PoolClients
  /-- The pages in the other cache. -/
  other : Finset PageId := ∅
  /-- How many pages have come into the pool. -/
  loads : ℕ := 0
  /-- How many have come into the other cache. -/
  otherLoads : ℕ := 0

/-- Whether the call has brought a page into the pool. -/
def PoolClients.loads (s : PoolClients) : Call → Result → ℕ
  | .newPage, .page (some _) => 1
  | .fetchPage p, .page (some _) => (s.store.pool.pageTable.lookup p).isNone.toNat
  | _, _ => 0

namespace PoolContest

def start (poolSize : ℕ) (file : PageId → Option PageData) : PoolContest :=
  { clients := .start poolSize file }

/-- A call, and what is in the other cache after it. -/
abbrev Move := PoolClients.Call × Finset PageId

/-- One call. -/
def step (s : PoolContest) (m : Move) : Option (PoolClients.Result × PoolContest) :=
  (s.clients.step m.1).map fun (o, clients) ↦
    (o, {
      clients
      other := m.2
      loads := s.loads + s.clients.loads m.1 o
      otherLoads := s.otherLoads + (m.2 \ s.other).card })

/-- The other cache has room for `h` pages, and has every page that is pinned after the call. -/
def Serves (h : ℕ) (s : PoolContest) (m : Move) : Prop :=
  m.2.card ≤ h ∧ ∀ o s', s.clients.step m.1 = some (o, s') → ∀ pin ∈ s'.pins, pin.page ∈ m.2

variable {s s' : PoolContest} {m : Move} {o : PoolClients.Result} {n h : ℕ}

theorem step_eq_some (hs : step s m = some (o, s')) :
    ∃ clients, s.clients.step m.1 = some (o, clients) ∧ s' = {
      clients
      other := m.2
      loads := s.loads + s.clients.loads m.1 o
      otherLoads := s.otherLoads + (m.2 \ s.other).card } := by
  obtain ⟨⟨o', clients⟩, hc, heq⟩ := Option.map_eq_some_iff.mp hs
  cases heq
  exact ⟨clients, hc, rfl⟩

/-- What holds for the clients along a run of theirs holds along it here. -/
theorem along_clients {P : PoolClients → PoolClients.Call → Prop} {ms : List Move}
    (hP : Along PoolClients.step P s.clients (ms.map Prod.fst)) :
    Along step (fun s m ↦ P s.clients m.1) s ms := by
  induction ms generalizing s with
  | nil => trivial
  | cons m ms ih =>
    refine ⟨hP.1, fun o s' hs ↦ ?_⟩
    obtain ⟨clients, hc, rfl⟩ := step_eq_some hs
    exact ih (hP.2 o clients hc)

/-- What holds between calls: the pool is in step with a stack, for which the account is kept. -/
structure Fair (s : PoolContest) (n h : ℕ) (r : RecencyStack PageId) : Prop where
  sound : s.clients.Sound
  mirrors : s.clients.Mirrors n r
  pinned : ∀ pin ∈ s.clients.pins, pin.page ∈ s.other
  within : r.Within n h s.other s.loads s.otherLoads

theorem fair_start (n h : ℕ) (file : PageId → Option PageData) : (start n file).Fair n h {} where
  sound := PoolClients.sound_start n file
  mirrors := PoolClients.mirrors_start n file
  pinned _ hpin := absurd hpin List.not_mem_nil
  within := .start n h

/-- What is in use is what is pinned. -/
theorem serves_of_pinned {b : BufferPoolManager} {pins : List Pin} {r : RecencyStack PageId}
    (hm : b.Mirrors n pins r) {c : Finset PageId} (hpins : ∀ pin ∈ pins, pin.page ∈ c) :
    r.Serves c := by
  intro p hp
  obtain ⟨pin, hpin, heq⟩ := List.countP_pos_iff.mp (Nat.pos_of_ne_zero (hm.mem_inUse.mp hp))
  rw [decide_eq_true_eq] at heq
  exact heq ▸ hpins pin hpin

namespace Fair

variable {r : RecencyStack PageId} {clients : PoolClients} {p : PageId} {d : Finset PageId}

/-- **A page comes into the pool.** -/
theorem load (hf : s.Fair n h r) (hh : h ≤ n) (hd : d.card ≤ h)
    (hp : s.clients.store.pool.pageTable.lookup p = none)
    (hm : clients.Mirrors n (r.take p)) (hsound : clients.Sound)
    (hpins : ∀ pin ∈ clients.pins, pin.page ∈ d) :
    (r.take p).Within n h d (s.loads + 1) (s.otherLoads + (d \ s.other).card) := by
  have hkeeps : ¬ r.Keeps n p :=
    (hf.mirrors.resident_iff hf.sound.holds.represents).not.mp (not_not.mpr hp)
  have hbusy : r.busy < n := by
    have hsize := hm.size_eq hsound.holds.represents
    rw [RecencyStack.busy_take, if_neg fun hmem ↦ hkeeps (Or.inl hmem)] at hsize
    omega
  exact (hf.within.change hf.mirrors.wellFormed d).load hf.mirrors.wellFormed
    (serves_of_pinned hm hpins) hkeeps hd hh hbusy

/-- **One call.** -/
theorem step (hf : s.Fair n h r) (hh : h ≤ n) (hc : s.clients.Countable m.1)
    (hserves : Serves h s m)
    (hs : PoolContest.step s m = some (o, s')) : ∃ r', s'.Fair n h r' := by
  obtain ⟨c, d⟩ := m
  obtain ⟨clients, hstep, rfl⟩ := step_eq_some hs
  clear hs
  have hs : s.clients.step c = some (o, clients) := hstep
  have hsound := hf.sound.step hc hs
  have hm := hf.sound.mirrors_step hf.mirrors hs
  have hpins := hserves.2 o clients hs
  have hwf := hf.mirrors.wellFormed
  have hrep := hf.sound.holds.represents
  refine ⟨_, hsound, hm, hpins, ?_⟩
  have hsame := hf.within.change hwf d
  dsimp only at hs hm hserves hpins ⊢
  cases c with
  | newPage =>
    obtain ⟨rfl, rfl⟩ | ⟨f, s₁, ha, heq⟩ := PoolClients.newPage_step hs
    · exact hsame
    · cases heq
      refine hf.load hh hserves.1 ?_ hm hsound hpins
      rw [Option.eq_none_iff_forall_ne_some, Store.acquireFrame_nextPageId ha]
      exact fun g hg ↦ hf.sound.nextPageId_notMem (hf.sound.resident_handed hg)
  | fetchPage p =>
    obtain ⟨-, ⟨rfl, rfl⟩ | ⟨f, hp, heq⟩ | ⟨hp, f, s₁, ha, heq⟩⟩ := PoolClients.fetchPage_step hs
    · exact hsame
    · cases heq
      have hkeeps : r.Keeps n p := (hf.mirrors.resident_iff hrep).mp (by simp [hp])
      rw [PoolClients.loads, hp]
      exact hsame.take hwf hkeeps
    · cases heq
      rw [PoolClients.loads, hp]
      exact hf.load hh hserves.1 hp hm hsound hpins
  | write pin data =>
    rw [PoolClients.step] at hs
    split at hs <;> cases hs
    exact hsame
  | unpinPage pin isDirty =>
    rw [PoolClients.step] at hs
    split at hs
    · rename_i hpin
      cases hs
      have hmem := hf.mirrors.mem_inUse.mpr (heldBy_pos hpin)
      have hbusy : r.busy ≤ n := by
        have := hf.mirrors.size_eq hrep
        omega
      -- the page is released first, while the other cache still has it
      have hwf' := hwf.release hmem
      exact (hf.within.release (serves_of_pinned hf.mirrors hf.pinned) hmem hbusy).change hwf' d
    · cases hs
  | flushPage p =>
    cases hs
    exact hsame
  | flushAllPages =>
    cases hs
    exact hsame

end Fair

/-- **No other cache does much better.**  Let a pool of `n` frames, over any file, and another cache
with room for `h ≤ n` pages serve the same calls, where of the other one nothing is known but that
it has every page that is pinned after each call.  Then `n - h + 1` times the number of pages that
come into the pool is no more than `n` times the number of those that come into the other cache,
and `n - h + 1` times `n` for a pool that is empty at first.  There are fewer than `2 ^ 32 - 1`
calls of `NewPage` and no more than `2 ^ 32` pins on any page at any time. -/
theorem loads_le (hh : h ≤ n) {file : PageId → Option PageData} {ms : List Move}
    {os : List PoolClients.Result} (hr : run step (start n file) ms = some (os, s))
    (hserves : Along step (Serves h) (start n file) ms)
    (hnew : (ms.map Prod.fst).countP PoolClients.Call.isNewPage < 2 ^ 32 - 1)
    (hpins : Along PoolClients.step (PoolClients.PinsAtMost (2 ^ 32)) (.start n file)
      (ms.map Prod.fst)) :
    (n - h + 1) * s.loads ≤ n * s.otherLoads + (n - h + 1) * n := by
  have hcountable : Along step (fun s m ↦ s.clients.Countable m.1) (start n file) ms :=
    along_clients (PoolClients.along_countable le_rfl
      (by simpa [start, PoolClients.start] using hnew) hpins)
  obtain ⟨r, hf⟩ := run_invariant (I := fun s : PoolContest ↦ ∃ r, s.Fair n h r)
    (fun _ _ _ _ hf hP hs ↦ hf.elim fun _ hf ↦ hf.step hh hP.1 hP.2 hs)
    ⟨_, fair_start n h file⟩ (hcountable.and hserves) hr
  exact hf.within.le

/-- Three pages in turn, in a pool of two frames; and the other cache keeps the first of them. -/
theorem loads_le_two :
    ∃ os s, run step (start 2 fun _ ↦ none) [(.newPage, {0}), (.unpinPage ⟨0, 0, false⟩ true, {0}),
        (.newPage, {0, 1}), (.unpinPage ⟨1, 1, false⟩ true, {0, 1}), (.newPage, {0, 2}),
        (.unpinPage ⟨2, 0, false⟩ true, {0, 2}), (.fetchPage 0, {0, 2})] = some (os, s) ∧
      (2 - 2 + 1) * s.loads ≤ 2 * s.otherLoads + (2 - 2 + 1) * 2 := by
  have hserves : Along step (Serves 2) (start 2 fun _ ↦ none) [(.newPage, {0}),
      (.unpinPage ⟨0, 0, false⟩ true, {0}), (.newPage, {0, 1}),
      (.unpinPage ⟨1, 1, false⟩ true, {0, 1}), (.newPage, {0, 2}),
      (.unpinPage ⟨2, 0, false⟩ true, {0, 2}), (.fetchPage 0, {0, 2})] := by
    refine .cons ⟨by decide, ?_⟩ rfl (.cons ⟨by decide, ?_⟩ rfl (.cons ⟨by decide, ?_⟩ rfl
      (.cons ⟨by decide, ?_⟩ rfl (.cons ⟨by decide, ?_⟩ rfl (.cons ⟨by decide, ?_⟩ rfl
        (.cons ⟨by decide, ?_⟩ rfl trivial))))))
    all_goals
      rintro _ _ ⟨⟩
      decide
  exact ⟨_, _, rfl, loads_le le_rfl rfl hserves (by decide)
    (PoolClients.along_pinsAtMost (by decide))⟩

end PoolContest

end StingDB
