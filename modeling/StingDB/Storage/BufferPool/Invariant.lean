import Mathlib.Data.List.Perm.Subperm
import StingDB.Lib.Machine
import StingDB.Storage.BufferPool

/-!
# What the five structures of the pool have to do with each other

`page_table_`, `free_list_`, `lru_replacer_` and the page id and pin count of each frame say
different things about the same frames.  `Represents` is what keeps them consistent, given how many
pins the clients hold on each page, and given the frame, if any, that has been taken for a page
which is not in it yet (`limbo`).  Each function the pool is made of keeps it; so it holds after
every call.

`pin_count_` wraps, so a frame counts the pins on its page modulo `2 ^ 32`.  That is harmless up to
`2 ^ 32` pins, and not beyond: releasing one of `2 ^ 32 + 1` looks like releasing the last.
-/

set_option autoImplicit false

namespace StingDB

namespace BufferPoolManager

/-- The representation invariant of the pool. -/
structure Represents (b : BufferPoolManager) (held : PageId → ℕ) (limbo : Option ℕ) : Prop where
  /-- A mapped frame carries the page id it is mapped by. -/
  pageId_eq : ∀ {p f}, b.pageTable.lookup p = some f → (b.pages f).pageId = p
  /-- A mapped frame counts the pins on its page. -/
  pinCount_eq : ∀ {p f}, b.pageTable.lookup p = some f → (b.pages f).pinCount = i32 (held p)
  mapped_lt : ∀ {p f}, b.pageTable.lookup p = some f → f < b.poolSize
  free_lt : ∀ {f}, f ∈ b.freeList → f < b.poolSize
  free_nodup : b.freeList.Nodup
  free_unmapped : ∀ {p f}, f ∈ b.freeList → b.pageTable.lookup p ≠ some f
  lru_nodup : b.lruReplacer.Nodup
  /-- The candidates for eviction are the frames of the pages nobody has pinned. -/
  mem_lru : ∀ {f}, f ∈ b.lruReplacer ↔ ∃ p, b.pageTable.lookup p = some f ∧ held p = 0
  /-- A pinned page is resident. -/
  held_mapped : ∀ {p}, held p ≠ 0 → b.pageTable.lookup p ≠ none
  limbo_lt : ∀ {f}, limbo = some f → f < b.poolSize
  limbo_free : ∀ {f}, limbo = some f → f ∉ b.freeList
  limbo_unmapped : ∀ {p f}, limbo = some f → b.pageTable.lookup p ≠ some f
  /-- No frame is lost. -/
  size_eq : b.freeList.length + b.pageTable.entries.length + limbo.toList.length = b.poolSize

theorem represents_create (poolSize : ℕ) : Represents (create poolSize) (fun _ ↦ 0) none where
  pageId_eq h := absurd h (by simp [create])
  pinCount_eq h := absurd h (by simp [create])
  mapped_lt h := absurd h (by simp [create])
  free_lt h := List.mem_range.mp h
  free_nodup := List.nodup_range
  free_unmapped _ := by simp [create]
  lru_nodup := List.nodup_nil
  mem_lru := by simp [create]
  held_mapped h := absurd rfl h
  limbo_lt h := by cases h
  limbo_free h := by cases h
  limbo_unmapped h := by cases h
  size_eq := by simp [create]

/-! ## The size of the page table -/

theorem length_erase {t : PageTable} {p : PageId} {f : ℕ} (h : t.lookup p = some f) :
    (t.erase p).entries.length + 1 = t.entries.length := by
  have hmem : p ∈ t.keys := AList.mem_keys.mp (AList.lookup_isSome.mp (by simp [h]))
  have hkeys := congrArg List.length (AList.keys_erase p t)
  rw [List.length_erase_of_mem hmem] at hkeys
  have hpos := List.length_pos_of_mem hmem
  simp only [AList.keys, List.length_map, List.keys] at hkeys hpos
  omega

theorem length_insert {t : PageTable} {p : PageId} {f : ℕ} (h : t.lookup p = none) :
    (t.insert p f).entries.length = t.entries.length + 1 := by
  rw [AList.entries_insert_of_notMem (AList.lookup_eq_none.mp h), List.length_cons]

/-! ## What keeps the invariant -/

namespace Represents

variable {b : BufferPoolManager} {held held' : PageId → ℕ} {limbo : Option ℕ} {p : PageId} {f : ℕ}

theorem injective (h : b.Represents held limbo) {p q : PageId}
    (hp : b.pageTable.lookup p = some f) (hq : b.pageTable.lookup q = some f) : p = q :=
  (h.pageId_eq hp).symm.trans (h.pageId_eq hq)

/-- Nobody has pinned the page of a candidate for eviction. -/
theorem unpinned (h : b.Represents held limbo) (hl : f ∈ b.lruReplacer)
    (hp : b.pageTable.lookup p = some f) : held p = 0 := by
  obtain ⟨q, hq, hq0⟩ := h.mem_lru.mp hl
  rwa [h.injective hq hp] at hq0

/-- Changes to the bytes and the dirty flag of a frame. -/
theorem setPage (h : b.Represents held limbo) {page : Page}
    (hid : page.pageId = (b.pages f).pageId) (hpin : page.pinCount = (b.pages f).pinCount) :
    (b.setPage f page).Represents held limbo := by
  have hpage : ∀ g, ((b.setPage f page).pages g).pageId = (b.pages g).pageId ∧
      ((b.setPage f page).pages g).pinCount = (b.pages g).pinCount := by
    intro g
    by_cases hg : g = f
    · subst hg; simp [BufferPoolManager.setPage, hid, hpin]
    · simp [BufferPoolManager.setPage, hg]
  exact { h with
    pageId_eq := fun hl ↦ (hpage _).1.trans (h.pageId_eq hl)
    pinCount_eq := fun hl ↦ (hpage _).2.trans (h.pinCount_eq hl) }

/-- The front of `free_list_` goes into limbo. -/
theorem takeFree (h : b.Represents held none) {rest : List ℕ} (hf : b.freeList = f :: rest) :
    { b with freeList := rest }.Represents held (some f) := by
  have hnodup : f ∉ rest ∧ rest.Nodup := List.nodup_cons.mp (hf ▸ h.free_nodup)
  have hmem : ∀ {g}, g ∈ rest → g ∈ b.freeList := fun hg ↦ hf ▸ List.mem_cons_of_mem _ hg
  have hself : f ∈ b.freeList := hf ▸ List.mem_cons_self
  have hsize := h.size_eq
  rw [hf] at hsize
  exact { h with
    free_lt := fun hg ↦ h.free_lt (hmem hg)
    free_nodup := hnodup.2
    free_unmapped := fun hg ↦ h.free_unmapped (hmem hg)
    limbo_lt := by rintro _ ⟨⟩; exact h.free_lt hself
    limbo_free := by rintro _ ⟨⟩; exact hnodup.1
    limbo_unmapped := by rintro _ _ ⟨⟩; exact h.free_unmapped hself
    size_eq := by simp at hsize ⊢; omega }

/-- The back of `lru_replacer_` goes into limbo, and the page that was in it out of the table. -/
theorem takeVictim (h : b.Represents held none) {rest : List ℕ} (hf : b.freeList = [])
    (hl : b.lruReplacer = rest ++ [f]) :
    ({ b with lruReplacer := rest }.unmapVictim f).Represents held (some f) := by
  obtain ⟨p, hp, hheld⟩ := h.mem_lru.mp (hl ▸ List.mem_append_right _ List.mem_cons_self)
  have hnodup := h.lru_nodup
  rw [hl, List.nodup_append] at hnodup
  obtain ⟨hrest, -, hdisj⟩ := hnodup
  have hpt : ({ b with lruReplacer := rest }.unmapVictim f).pageTable = b.pageTable.erase p := by
    simp [unmapVictim, h.pageId_eq hp]
  have hlook : ∀ {q g},
      ({ b with lruReplacer := rest }.unmapVictim f).pageTable.lookup q = some g ↔
        q ≠ p ∧ b.pageTable.lookup q = some g := by
    intro q g
    rw [lookup_unmapVictim]
    simp [h.pageId_eq hp]
  exact { h with
    pageId_eq := fun hq ↦ h.pageId_eq (hlook.mp hq).2
    pinCount_eq := fun hq ↦ h.pinCount_eq (hlook.mp hq).2
    mapped_lt := fun hq ↦ h.mapped_lt (hlook.mp hq).2
    free_unmapped := fun hg hq ↦ h.free_unmapped hg (hlook.mp hq).2
    lru_nodup := hrest
    mem_lru := by
      intro g
      show g ∈ rest ↔ _
      have hg : g ∈ rest ++ [f] ↔ _ := hl ▸ h.mem_lru (f := g)
      refine ⟨fun hmem ↦ ?_, ?_⟩
      · obtain ⟨q, hq, hq0⟩ := hg.mp (List.mem_append_left _ hmem)
        refine ⟨q, hlook.mpr ⟨?_, hq⟩, hq0⟩
        rintro rfl
        exact hdisj g hmem f List.mem_cons_self (Option.some.inj (hq.symm.trans hp))
      · rintro ⟨q, hq, hq0⟩
        refine (List.mem_append.mp (hg.mpr ⟨q, (hlook.mp hq).2, hq0⟩)).resolve_right fun hgf ↦ ?_
        rw [List.mem_singleton.mp hgf] at hq
        exact (hlook.mp hq).1 (h.injective (hlook.mp hq).2 hp)
    held_mapped := by
      intro q hq
      rw [hpt, AList.lookup_erase_ne (by rintro rfl; exact hq hheld)]
      exact h.held_mapped hq
    limbo_lt := by rintro _ ⟨⟩; exact h.mapped_lt hp
    limbo_free := by
      rintro _ ⟨⟩
      show f ∉ b.freeList
      simp [hf]
    limbo_unmapped := by
      rintro q _ ⟨⟩ hq
      exact (hlook.mp hq).1 (h.injective (hlook.mp hq).2 hp)
    size_eq := by
      have herase := length_erase hp
      have hsize := h.size_eq
      rw [hpt]
      show b.freeList.length + _ + 1 = b.poolSize
      simp only [Option.toList_none, List.length_nil] at hsize
      omega }

/-- A page that was not resident comes into the frame in limbo, with its first pin. -/
theorem install (h : b.Represents held (some f)) (hp : b.pageTable.lookup p = none)
    (hself : held' p = 1) (hother : ∀ q, q ≠ p → held' q = held q) (data : PageData) :
    (b.install f p data).Represents held' none := by
  have hpage : ∀ {q g}, b.pageTable.lookup q = some g →
      (b.install f p data).pages g = b.pages g := by
    intro q g hq
    have hg : g ≠ f := by rintro rfl; exact h.limbo_unmapped rfl hq
    exact install_pages_of_ne _ _ _ hg
  have hnew := b.install_pages_self f p data
  exact
    { pageId_eq := by
        intro q g hq
        rcases lookup_install.mp hq with ⟨rfl, rfl⟩ | ⟨-, hq⟩
        · rw [hnew]
        · rw [hpage hq, h.pageId_eq hq]
      pinCount_eq := by
        intro q g hq
        rcases lookup_install.mp hq with ⟨rfl, rfl⟩ | ⟨hne, hq⟩
        · rw [hnew, hself]
          rfl
        · rw [hpage hq, hother q hne, h.pinCount_eq hq]
      mapped_lt := by
        intro q g hq
        rcases lookup_install.mp hq with ⟨rfl, rfl⟩ | ⟨-, hq⟩
        · exact h.limbo_lt rfl
        · exact h.mapped_lt hq
      free_lt := h.free_lt
      free_nodup := h.free_nodup
      free_unmapped := by
        intro q g hg hq
        rcases lookup_install.mp hq with ⟨rfl, rfl⟩ | ⟨-, hq⟩
        · exact h.limbo_free rfl hg
        · exact h.free_unmapped hg hq
      lru_nodup := h.lru_nodup
      mem_lru := by
        intro g
        show g ∈ b.lruReplacer ↔ _
        rw [h.mem_lru]
        constructor
        · rintro ⟨q, hq, hq0⟩
          have hne : q ≠ p := by rintro rfl; rw [hp] at hq; cases hq
          exact ⟨q, lookup_install.mpr (Or.inr ⟨hne, hq⟩), (hother q hne).trans hq0⟩
        · rintro ⟨q, hq, hq0⟩
          rcases lookup_install.mp hq with ⟨rfl, rfl⟩ | ⟨hne, hq⟩
          · exact absurd (hself.symm.trans hq0) (by decide)
          · exact ⟨q, hq, (hother q hne).symm.trans hq0⟩
      held_mapped := by
        intro q hq
        by_cases hqp : q = p
        · subst hqp
          rw [lookup_install.mpr (Or.inl ⟨rfl, rfl⟩)]
          simp
        · rw [hother q hqp] at hq
          obtain ⟨g, hg⟩ := Option.ne_none_iff_exists'.mp (h.held_mapped hq)
          rw [lookup_install.mpr (Or.inr ⟨hqp, hg⟩)]
          simp
      limbo_lt := by rintro _ ⟨⟩
      limbo_free := by rintro _ ⟨⟩
      limbo_unmapped := by rintro _ _ ⟨⟩
      size_eq := by
        have hinsert := length_insert (f := f) hp
        have hsize := h.size_eq
        show b.freeList.length + (b.pageTable.insert p f).entries.length + 0 = b.poolSize
        simp only [Option.toList_some, List.length_singleton] at hsize
        omega }

/-- A resident page is pinned a different number of times than before: its frame counts the pins
it now has, and the candidates for eviction are those of the new pins. -/
theorem repin (h : b.Represents held limbo) (hp : b.pageTable.lookup p = some f)
    (hother : ∀ q, q ≠ p → held' q = held q) {page : Page}
    (hid : page.pageId = (b.pages f).pageId) (hpin : page.pinCount = i32 (held' p)) {lru : List ℕ}
    (hnodup : lru.Nodup)
    (hmem : ∀ {g}, g ∈ lru ↔ ∃ q, b.pageTable.lookup q = some g ∧ held' q = 0) :
    { b.setPage f page with lruReplacer := lru }.Represents held' limbo := by
  have hpage : ∀ {q g}, b.pageTable.lookup q = some g →
      ((b.setPage f page).pages g).pageId = q ∧
        ((b.setPage f page).pages g).pinCount = i32 (held' q) := by
    intro q g hq
    by_cases hqp : q = p
    · subst hqp
      cases Option.some.inj (hp.symm.trans hq)
      simp [BufferPoolManager.setPage, hid, hpin, h.pageId_eq hq]
    · have hg : g ≠ f := by rintro rfl; exact hqp (h.injective hq hp)
      simp [BufferPoolManager.setPage, hg, h.pageId_eq hq, h.pinCount_eq hq, hother q hqp]
  exact { h with
    pageId_eq := fun hq ↦ (hpage hq).1
    pinCount_eq := fun hq ↦ (hpage hq).2
    lru_nodup := hnodup
    mem_lru := hmem
    held_mapped := by
      intro q hq
      show b.pageTable.lookup q ≠ none
      by_cases hqp : q = p
      · subst hqp
        simp [hp]
      · exact h.held_mapped (hother q hqp ▸ hq) }

/-- One more pin on a resident page. -/
theorem pin (h : b.Represents held limbo) (hp : b.pageTable.lookup p = some f)
    (hself : held' p = held p + 1) (hother : ∀ q, q ≠ p → held' q = held q) :
    (b.pin f).Represents held' limbo := by
  refine h.repin hp hother ?_ ?_ (h.lru_nodup.filter _) ?_
  · rfl
  · rw [hself, h.pinCount_eq hp, i32_i32_add, Nat.cast_add, Nat.cast_one]
  · intro g
    show g ∈ b.lruReplacer.filter (· ≠ f) ↔ _
    rw [List.mem_filter, h.mem_lru, decide_eq_true_eq]
    constructor
    · rintro ⟨⟨q, hq, hq0⟩, hg⟩
      have hne : q ≠ p := by rintro rfl; exact hg (Option.some.inj (hq.symm.trans hp))
      exact ⟨q, hq, (hother q hne).trans hq0⟩
    · rintro ⟨q, hq, hq0⟩
      have hne : q ≠ p := by rintro rfl; omega
      refine ⟨⟨q, hq, (hother q hne).symm.trans hq0⟩, ?_⟩
      rintro rfl
      exact hne (h.injective hq hp)

/-- One pin less on a page that is pinned, and no more than `2 ^ 32` times. -/
theorem unpin (h : b.Represents held limbo) (hp : b.pageTable.lookup p = some f)
    (hle : held p ≤ 2 ^ 32) (hself : held' p + 1 = held p) (hother : ∀ q, q ≠ p → held' q = held q)
    (isDirty : Bool) : (b.unpin f isDirty).Represents held' limbo := by
  have hcount : (b.pages f).pinCount = 1 ↔ held' p = 0 := by
    rw [h.pinCount_eq hp, i32_natCast_eq_one_iff hle]
    omega
  have hpred : i32 ((b.pages f).pinCount - 1) = i32 (held' p) := by
    rw [h.pinCount_eq hp, i32_i32_sub]
    congr 1
    omega
  -- the frame becomes a candidate for eviction exactly when the branch is taken
  have hmem : ∀ {g}, (g = f ∧ held' p = 0 ∨ g ∈ b.lruReplacer) ↔
      ∃ q, b.pageTable.lookup q = some g ∧ held' q = 0 := by
    intro g
    constructor
    · rintro (⟨rfl, h0⟩ | hg)
      · exact ⟨p, hp, h0⟩
      · obtain ⟨q, hq, hq0⟩ := h.mem_lru.mp hg
        have hne : q ≠ p := by rintro rfl; omega
        exact ⟨q, hq, (hother q hne).trans hq0⟩
    · rintro ⟨q, hq, hq0⟩
      by_cases hqp : q = p
      · subst hqp
        exact Or.inl ⟨Option.some.inj (hq.symm.trans hp), hq0⟩
      · exact Or.inr (h.mem_lru.mpr ⟨q, hq, (hother q hqp).symm.trans hq0⟩)
  have hnot : f ∉ b.lruReplacer := by
    intro hf
    have hq0 := h.unpinned hf hp
    omega
  rw [BufferPoolManager.unpin]
  by_cases hone : held' p = 0
  · cases isDirty <;> simp only [Bool.false_eq_true, if_true, if_false, Page.setDirty_pinCount,
      if_pos (hcount.mpr hone)]
    all_goals
      refine h.repin hp hother ?_ hpred (List.nodup_cons.mpr ⟨hnot, h.lru_nodup⟩) ?_
      · rfl
      intro g
      show g ∈ f :: b.lruReplacer ↔ _
      rw [← hmem, List.mem_cons, and_iff_left hone]
  · cases isDirty <;> simp only [Bool.false_eq_true, if_true, if_false, Page.setDirty_pinCount,
      if_neg (mt hcount.mp hone)]
    all_goals
      refine h.repin hp hother ?_ hpred h.lru_nodup ?_
      · rfl
      intro g
      rw [← hmem, or_iff_right fun hg ↦ hone hg.2]

/-- Finding a frame, with its victim if it has one. -/
theorem acquireFrame {s s' : Store} (h : s.pool.Represents held none)
    (ha : s.acquireFrame = some (f, s')) : s'.pool.Represents held (some f) := by
  obtain ⟨rest, hf, rfl⟩ | ⟨hf, rest, hl, rfl⟩ := Store.acquireFrame_eq_some ha
  · exact h.takeFree hf
  · exact h.takeVictim hf hl

/-- The pages that stay resident when a frame is found are those in other frames. -/
theorem lookup_acquireFrame {s s' : Store} (h : s.pool.Represents held none)
    (ha : s.acquireFrame = some (f, s')) {q : PageId} {g : ℕ} :
    s'.pool.pageTable.lookup q = some g ↔ s.pool.pageTable.lookup q = some g ∧ g ≠ f := by
  have hlimbo := (h.acquireFrame ha).limbo_unmapped (p := q) rfl
  obtain ⟨rest, hf, rfl⟩ | ⟨hf, rest, hl, rfl⟩ := Store.acquireFrame_eq_some ha
  · refine ⟨fun hq ↦ ⟨hq, ?_⟩, fun hq ↦ hq.1⟩
    rintro rfl
    exact hlimbo hq
  · obtain ⟨p, hp, -⟩ := h.mem_lru.mp (hl ▸ List.mem_append_right _ List.mem_cons_self)
    have hpt : ({ s.pool with lruReplacer := rest }.unmapVictim f).pageTable =
        s.pool.pageTable.erase p := by
      simp [unmapVictim, h.pageId_eq hp]
    dsimp only
    rw [hpt]
    by_cases hq : q = p
    · subst hq
      simp only [AList.lookup_erase, hp, Option.some.injEq, reduceCtorEq, false_iff]
      rintro ⟨rfl, hne⟩
      exact hne rfl
    · rw [AList.lookup_erase_ne hq]
      refine ⟨fun hq' ↦ ⟨hq', ?_⟩, fun hq' ↦ hq'.1⟩
      rintro rfl
      exact hq (h.injective hq' hp)

theorem flushFrame {s : Store} (h : s.pool.Represents held limbo) (q : PageId) (g : ℕ) :
    (s.flushFrame q g).pool.Represents held limbo := by
  rw [Store.flushFrame]
  split
  · exact h.setPage rfl rfl
  · exact h

/-! ### No frame is lost -/

/-- Every frame is free, mapped or in limbo: there are as many of these as there are frames. -/
theorem covers (h : b.Represents held limbo) (hf : f < b.poolSize) :
    f ∈ b.freeList ∨ (∃ p, b.pageTable.lookup p = some f) ∨ limbo = some f := by
  have hval : ∀ {g}, g ∈ b.pageTable.entries.map Sigma.snd ↔
      ∃ p, b.pageTable.lookup p = some g := by
    intro g
    rw [List.mem_map]
    constructor
    · rintro ⟨⟨p, g'⟩, hmem, rfl⟩
      exact ⟨p, AList.mem_lookup_iff.mpr hmem⟩
    · rintro ⟨p, hp⟩
      exact ⟨⟨p, g⟩, AList.mem_lookup_iff.mp hp, rfl⟩
  have hvals : (b.pageTable.entries.map Sigma.snd).Nodup := nodup_frames h.injective
  let all := b.freeList ++ (b.pageTable.entries.map Sigma.snd ++ limbo.toList)
  have hall : ∀ {g}, g ∈ all ↔
      g ∈ b.freeList ∨ (∃ p, b.pageTable.lookup p = some g) ∨ limbo = some g := by
    intro g
    simp only [all, List.mem_append, hval, Option.mem_toList]
  have hnodup : all.Nodup := by
    refine List.nodup_append.mpr ⟨h.free_nodup, List.nodup_append.mpr ⟨hvals, ?_, ?_⟩, ?_⟩
    · cases limbo <;> simp
    · rintro g hg _ hl rfl
      obtain ⟨p, hp⟩ := hval.mp hg
      exact h.limbo_unmapped (Option.mem_toList.mp hl) hp
    · rintro g hg _ hl rfl
      rcases List.mem_append.mp hl with hl | hl
      · obtain ⟨p, hp⟩ := hval.mp hl
        exact h.free_unmapped hg hp
      · exact h.limbo_free (Option.mem_toList.mp hl) hg
  have hsub : all ⊆ List.range b.poolSize := by
    intro g hg
    rw [List.mem_range]
    rcases hall.mp hg with hg | ⟨p, hp⟩ | hg
    · exact h.free_lt hg
    · exact h.mapped_lt hp
    · exact h.limbo_lt hg
  have hlen : (List.range b.poolSize).length ≤ all.length := by
    simp [all, ← h.size_eq, Nat.add_assoc]
  have hperm := (List.subperm_of_subset hnodup hsub).perm_of_length_le hlen
  exact hall.mp (hperm.mem_iff.mpr (List.mem_range.mpr hf))

end Represents

end BufferPoolManager

end StingDB
