import StingDB.Storage.BufferPool.Faults

/-!
# What an exception of the disk leaves behind

A call of `FetchPage` or `NewPage` that is left by an exception should leave the pool `Intact`:
every frame still in exactly one of the three classes, and every page where it was, or written out
and its frame available.  No such call does (`disk_exceptions`).  If the write of the victim throws,
the victim has been popped from `lru_replacer_` and stays in the table, pinned by nobody.  If the
read throws, the frame is in no structure at all, and nothing ever puts it back into one.

The clients may call anything at any time, but `UnpinPage` aborts on a page that is not pinned.
-/

set_option autoImplicit false

namespace StingDB

open Machine

namespace BufferPoolManager

/-! ## The classes of a frame -/

/-- In `free_list_`, and in nothing else. -/
def InFreeList (b : BufferPoolManager) (f : ℕ) : Prop :=
  f ∈ b.freeList ∧ f ∉ b.lruReplacer ∧ ∀ p, b.pageTable.lookup p ≠ some f

/-- In `lru_replacer_`, mapped, and pinned by nobody. -/
def InLru (b : BufferPoolManager) (f : ℕ) : Prop :=
  f ∈ b.lruReplacer ∧ f ∉ b.freeList ∧ (∃ p, b.pageTable.lookup p = some f) ∧
    (b.pages f).pinCount = 0

/-- In neither list, mapped and pinned. -/
def InUse (b : BufferPoolManager) (f : ℕ) : Prop :=
  f ∉ b.freeList ∧ f ∉ b.lruReplacer ∧ (∃ p, b.pageTable.lookup p = some f) ∧
    (b.pages f).pinCount ≠ 0

/-- A frame of the pool that is in none of the classes. -/
def Lost (b : BufferPoolManager) (f : ℕ) : Prop :=
  f < b.poolSize ∧ ¬ b.InFreeList f ∧ ¬ b.InLru f ∧ ¬ b.InUse f

/-- A frame that is in none of the structures. -/
def Gone (b : BufferPoolManager) (f : ℕ) : Prop :=
  f ∉ b.freeList ∧ f ∉ b.lruReplacer ∧ ∀ p, b.pageTable.lookup p ≠ some f

/-! ## What the lists have in common in every run -/

/-- What every pool satisfies whose clients call `UnpinPage` on pinned pages only. -/
structure Usable (b : BufferPoolManager) (limbo : Option ℕ) : Prop extends b.Placed limbo where
  lru_nodup : b.lruReplacer.Nodup
  lru_unpinned : ∀ {f}, f ∈ b.lruReplacer → (b.pages f).pinCount = 0
  free_lt : ∀ {f}, f ∈ b.freeList → f < b.poolSize
  lru_lt : ∀ {f}, f ∈ b.lruReplacer → f < b.poolSize
  mapped_lt : ∀ {p f}, b.pageTable.lookup p = some f → f < b.poolSize
  limbo_lt : ∀ {f}, limbo = some f → f < b.poolSize
  limbo_lru : ∀ {f}, limbo = some f → f ∉ b.lruReplacer

theorem usable_create (poolSize : ℕ) : (create poolSize).Usable none :=
  { placed_create poolSize with
    lru_nodup := List.nodup_nil
    lru_unpinned := fun h ↦ absurd h List.not_mem_nil
    free_lt := List.mem_range.mp
    lru_lt := fun h ↦ absurd h List.not_mem_nil
    mapped_lt := fun h ↦ absurd h (by simp [create])
    limbo_lt := fun h ↦ by cases h
    limbo_lru := fun h ↦ by cases h }

namespace Usable

variable {b : BufferPoolManager} {limbo : Option ℕ} {p : PageId} {f : ℕ}

/-- Changes to the bytes and the dirty flag of a frame. -/
theorem setPage (h : b.Usable limbo) {page : Page} (hid : page.pageId = (b.pages f).pageId)
    (hpin : page.pinCount = (b.pages f).pinCount) : (b.setPage f page).Usable limbo :=
  { h.toPlaced.setPage hid with
    lru_nodup := h.lru_nodup
    lru_unpinned := by
      intro g hg
      by_cases hgf : g = f
      · subst hgf
        rw [setPage_pages_self, hpin]
        exact h.lru_unpinned hg
      · rw [setPage_pages_of_ne _ _ _ hgf]
        exact h.lru_unpinned hg
    free_lt := h.free_lt
    lru_lt := h.lru_lt
    mapped_lt := h.mapped_lt
    limbo_lt := h.limbo_lt
    limbo_lru := h.limbo_lru }

theorem pin (h : b.Usable limbo) : (b.pin f).Usable limbo :=
  { h.toPlaced.pin with
    lru_nodup := h.lru_nodup.filter _
    lru_unpinned := by
      intro g hg
      obtain ⟨hmem, hne⟩ := List.mem_filter.mp hg
      rw [show (b.pin f).pages g = b.pages g from
        setPage_pages_of_ne _ _ _ (of_decide_eq_true hne)]
      exact h.lru_unpinned hmem
    free_lt := h.free_lt
    lru_lt := fun hg ↦ h.lru_lt (List.mem_of_mem_filter hg)
    mapped_lt := h.mapped_lt
    limbo_lt := h.limbo_lt
    limbo_lru := fun hl hg ↦ h.limbo_lru hl (List.mem_of_mem_filter hg) }

/-- A page that is pinned is released. -/
theorem unpin (h : b.Usable limbo) (hp : b.pageTable.lookup p = some f)
    (hpos : 0 < (b.pages f).pinCount) (d : Bool) : (b.unpin f d).Usable limbo := by
  have hnot : f ∉ b.lruReplacer := fun hf ↦ hpos.ne' (h.lru_unpinned hf)
  have hlru : (b.unpin f d).lruReplacer =
      if (b.pages f).pinCount = 1 then f :: b.lruReplacer else b.lruReplacer := by
    rw [BufferPoolManager.unpin]
    split_ifs <;> simp_all [BufferPoolManager.setPage]
  have hpage : ∀ g, g ≠ f → (b.unpin f d).pages g = b.pages g :=
    fun _ hg ↦ unpin_pages_of_ne _ _ _ hg
  have hself := unpin_pinCount_self b f d
  have hsize : (b.unpin f d).poolSize = b.poolSize := by
    rw [BufferPoolManager.unpin]
    split_ifs <;> rfl
  exact
    { h.toPlaced.unpin hp d with
      lru_nodup := by
        rw [hlru]
        split
        · exact List.nodup_cons.mpr ⟨hnot, h.lru_nodup⟩
        · exact h.lru_nodup
      lru_unpinned := by
        intro g hg
        by_cases hgf : g = f
        · subst hgf
          rw [hlru] at hg
          split at hg
          · rename_i hone
            rw [hself, hone]
            rfl
          · exact absurd hg hnot
        · rw [hpage g hgf]
          exact h.lru_unpinned ((b.mem_lruReplacer_unpin f d hg).resolve_left hgf)
      free_lt := by
        intro g hg
        rw [hsize]
        exact h.free_lt (by simpa using hg)
      lru_lt := by
        intro g hg
        rw [hsize]
        rcases b.mem_lruReplacer_unpin f d hg with rfl | hg
        · exact h.mapped_lt hp
        · exact h.lru_lt hg
      mapped_lt := by
        intro q g hq
        rw [hsize]
        exact h.mapped_lt (by simpa using hq)
      limbo_lt := by
        intro g hg
        rw [hsize]
        exact h.limbo_lt hg
      limbo_lru := by
        intro g hg hmem
        rcases b.mem_lruReplacer_unpin f d hmem with rfl | hmem
        · exact h.limbo_unmapped hg hp
        · exact h.limbo_lru hg hmem }

theorem takeFree (h : b.Usable none) {rest : List ℕ} (hf : b.freeList = f :: rest) :
    { b with freeList := rest }.Usable (some f) :=
  { h.toPlaced.takeFree hf with
    lru_nodup := h.lru_nodup
    lru_unpinned := h.lru_unpinned
    free_lt := fun hg ↦ h.free_lt (hf ▸ List.mem_cons_of_mem _ hg)
    lru_lt := h.lru_lt
    mapped_lt := h.mapped_lt
    limbo_lt := by
      rintro _ ⟨⟩
      exact h.free_lt (hf ▸ List.mem_cons_self)
    limbo_lru := by
      rintro _ ⟨⟩
      exact h.free_lru (hf ▸ List.mem_cons_self) }

/-- The victim is popped: a frame of the pool that nobody has pinned and that is not in the list
any more. -/
theorem takeBack (h : b.Usable none) {rest : List ℕ} (hl : b.lruReplacer = rest ++ [f]) :
    { b with lruReplacer := rest }.Usable none ∧ f < b.poolSize ∧ f ∉ rest ∧
      (b.pages f).pinCount = 0 := by
  have hmem : ∀ {g}, g ∈ rest → g ∈ b.lruReplacer := fun hg ↦ hl ▸ List.mem_append_left _ hg
  have hself : f ∈ b.lruReplacer := hl ▸ List.mem_append_right _ List.mem_cons_self
  have hnodup := h.lru_nodup
  rw [hl, List.nodup_append] at hnodup
  obtain ⟨hrest, -, hdisj⟩ := hnodup
  refine ⟨?_, h.lru_lt hself, fun hf ↦ hdisj f hf f List.mem_cons_self rfl, h.lru_unpinned hself⟩
  exact
    { h.toPlaced.takeBack hl with
      lru_nodup := hrest
      lru_unpinned := fun hg ↦ h.lru_unpinned (hmem hg)
      free_lt := h.free_lt
      lru_lt := fun hg ↦ h.lru_lt (hmem hg)
      mapped_lt := h.mapped_lt
      limbo_lt := h.limbo_lt
      limbo_lru := fun hl ↦ by cases hl }

theorem unmapVictim (h : b.Usable none) (hfree : f ∉ b.freeList) (hlru : f ∉ b.lruReplacer)
    (hlt : f < b.poolSize) : (b.unmapVictim f).Usable (some f) :=
  { h.toPlaced.unmapVictim hfree with
    lru_nodup := h.lru_nodup
    lru_unpinned := h.lru_unpinned
    free_lt := h.free_lt
    lru_lt := h.lru_lt
    mapped_lt := fun hq ↦ h.mapped_lt (lookup_unmapVictim.mp hq).2
    limbo_lt := by rintro _ ⟨⟩; exact hlt
    limbo_lru := by rintro _ ⟨⟩; exact hlru }

theorem install (h : b.Usable (some f)) (p : PageId) (data : PageData) :
    (b.install f p data).Usable none :=
  { h.toPlaced.install p data with
    lru_nodup := h.lru_nodup
    lru_unpinned := by
      intro g hg
      have hgf : g ≠ f := by
        rintro rfl
        exact h.limbo_lru rfl hg
      rw [install_pages_of_ne _ _ _ hgf]
      exact h.lru_unpinned hg
    free_lt := h.free_lt
    lru_lt := h.lru_lt
    mapped_lt := by
      intro q g hq
      rcases lookup_install.mp hq with ⟨rfl, rfl⟩ | ⟨-, hold⟩
      · exact h.limbo_lt rfl
      · exact h.mapped_lt hold
    limbo_lt := by rintro _ ⟨⟩
    limbo_lru := by rintro _ ⟨⟩ }

end Usable

end BufferPoolManager

namespace Store

open BufferPoolManager

/-- What a call that is left by an exception is to leave of the pool it was called on. -/
structure Intact (s s' : Store) : Prop where
  classes : ∀ f < s'.pool.poolSize, s'.pool.InFreeList f ∨ s'.pool.InLru f ∨ s'.pool.InUse f
  /-- A resident page stays, or it was the victim, clean or written out. -/
  kept : ∀ p f, s.pool.pageTable.lookup p = some f →
    s'.pool.pageTable.lookup p = some f ∧ s'.pool.pages f = s.pool.pages f ∨
      ((s.pool.pages f).isDirty = true → s'.disk.file p = some (s.pool.pages f).data) ∧
        (s'.pool.InFreeList f ∨ s'.pool.InLru f)

theorem not_intact_of_lost {s s' : Store} {f : ℕ} (h : s'.pool.Lost f) : ¬ s.Intact s' := by
  intro hi
  obtain ⟨hlt, hfree, hlru, huse⟩ := h
  rcases hi.classes f hlt with hf | hf | hf
  · exact hfree hf
  · exact hlru hf
  · exact huse hf

/-! ## A frame that is lost -/

/-- The search for a frame: it throws with a victim lost, or has a frame in limbo, or none. -/
theorem usable_tryAcquireFrame {s s' : Store} {faults : Faults} {r : Except DiskError (Option ℕ)}
    (h : s.pool.Usable none) (ha : s.tryAcquireFrame faults = (r, s')) :
    (∃ f, r = .ok (some f) ∧ s'.pool.Usable (some f)) ∨
      s'.pool.Usable none ∧ (r = .ok none ∨ ∃ e f, r = .error e ∧ s'.pool.Lost f) := by
  obtain ⟨-, rfl, rfl⟩ | ⟨f, rest, hf, rfl, rfl⟩ | ⟨hf, f, rest, hl, hrest⟩ :=
    tryAcquireFrame_cases ha
  · exact Or.inr ⟨h, Or.inl rfl⟩
  · exact Or.inl ⟨f, rfl, h.takeFree hf⟩
  · obtain ⟨hback, hlt, hnot, hpin⟩ := h.takeBack hl
    have hfree : f ∉ s.pool.freeList := by simp [hf]
    obtain ⟨rfl, -, rfl⟩ | ⟨rfl, disk, rfl, -⟩ := hrest
    · refine Or.inr ⟨hback, Or.inr ⟨_, f, rfl, hlt, ?_, ?_, ?_⟩⟩
      · exact fun hc ↦ hfree hc.1
      · exact fun hc ↦ hnot hc.1
      · exact fun hc ↦ hc.2.2.2 hpin
    · exact Or.inl ⟨f, rfl, hback.unmapVictim hfree hnot hlt⟩

/-- A frame in limbo, when the call is left, is in no structure at all. -/
theorem gone_of_limbo {b : BufferPoolManager} {f : ℕ} (h : b.Usable (some f)) : b.Gone f :=
  ⟨h.limbo_free rfl, h.limbo_lru rfl, fun _ ↦ h.limbo_unmapped rfl⟩

theorem lost_of_gone {b : BufferPoolManager} {f : ℕ} (h : b.Gone f) (hlt : f < b.poolSize) :
    b.Lost f := by
  obtain ⟨hfree, hlru, hmap⟩ := h
  refine ⟨hlt, fun hc ↦ hfree hc.1, fun hc ↦ hlru hc.1, ?_⟩
  rintro ⟨-, -, ⟨p, hp⟩, -⟩
  exact hmap p hp

/-- `FetchPage`, left by an exception, has lost a frame, for good if it was the read that threw. -/
theorem lost_of_tryFetchPage {s s' : Store} {faults : Faults} {p : PageId} {e : DiskError}
    (h : s.pool.Usable none) (hs : s.tryFetchPage faults p = (.error e, s')) :
    ∃ f, s'.pool.Lost f ∧ (e = .readFailed → s'.pool.Gone f) := by
  obtain ⟨f, -, hr, -⟩ | ⟨-, ⟨ha, -⟩ | ⟨f, s₁, ha, hrest⟩⟩ := tryFetchPage_cases hs
  · cases hr
  · obtain ⟨f, hr, -⟩ | ⟨-, hr | ⟨e', f, hr, hlost⟩⟩ := usable_tryAcquireFrame h ha
    · cases hr
    · cases hr
    · refine ⟨f, hlost, fun he ↦ ?_⟩
      -- the search for a frame reads nothing
      subst he
      obtain ⟨-, hr, -⟩ | ⟨_, _, -, hr, -⟩ | ⟨-, _, _, -, ⟨hr, -⟩ | ⟨hr, -⟩⟩ :=
        tryAcquireFrame_cases ha
      all_goals cases hr
  · obtain ⟨f', hf', hlimbo⟩ | ⟨-, hr | ⟨e', f', hr, -⟩⟩ := usable_tryAcquireFrame h ha
    · cases hf'
      obtain ⟨-, -, rfl⟩ | ⟨hr, -⟩ := hrest
      · have hreset : (s₁.pool.setPage f (s₁.pool.pages f).resetMemory).Usable (some f) :=
          hlimbo.setPage rfl rfl
        have hgone := gone_of_limbo hreset
        exact ⟨f, lost_of_gone hgone (hreset.limbo_lt rfl), fun _ ↦ hgone⟩
      · cases hr
    · cases hr
    · cases hr

/-- `NewPage`, left by an exception, has lost a frame. -/
theorem lost_of_tryNewPage {s s' : Store} {faults : Faults} {e : DiskError}
    (h : s.pool.Usable none) (hs : s.tryNewPage faults = (.error e, s')) :
    ∃ f, s'.pool.Lost f := by
  obtain ⟨r', ha, ⟨hr, -⟩ | ⟨e', -, rfl⟩⟩ | ⟨f, s₁, -, hr, -⟩ := tryNewPage_cases hs
  · cases hr
  · obtain ⟨f, hr, -⟩ | ⟨-, hr | ⟨e', f, -, hlost⟩⟩ := usable_tryAcquireFrame h ha
    · cases hr
    · cases hr
    · exact ⟨f, hlost⟩
  · cases hr

/-! ## Every run -/

theorem usable_rules : StepRules fun limbo b ↦ b.Usable limbo where
  setPage h hid hpin := h.setPage hid hpin
  pin h _ := h.pin
  unpin h hp hpos := h.unpin hp hpos _
  takeFree h hf := h.takeFree hf
  takeBack h _ hl := (h.takeBack hl).1
  takeVictim h hf hl := by
    obtain ⟨hback, hlt, hnot, -⟩ := h.takeBack hl
    exact hback.unmapVictim (by simp [hf]) hnot hlt
  install h := h.install _ _
  forget h :=
    { h with
      limbo_free := fun hl ↦ by cases hl
      limbo_unmapped := fun hl ↦ by cases hl
      limbo_lt := fun hl ↦ by cases hl
      limbo_lru := fun hl ↦ by cases hl }

/-- What is in no structure stays so: frames only move from one structure to another. -/
theorem gone_rules (f : ℕ) : StepRules fun limbo b ↦ b.Gone f ∧ limbo ≠ some f where
  setPage h _ _ := h
  pin := by
    rintro b p g ⟨⟨hfree, hlru, hmap⟩, hne⟩ -
    exact ⟨⟨hfree, fun hg ↦ hlru (List.mem_of_mem_filter hg), hmap⟩, hne⟩
  unpin := by
    rintro b p g d ⟨⟨hfree, hlru, hmap⟩, hne⟩ hp -
    refine ⟨⟨by simpa using hfree, fun hf ↦ ?_, by simpa using hmap⟩, hne⟩
    rcases b.mem_lruReplacer_unpin g d hf with rfl | hf
    · exact hmap p hp
    · exact hlru hf
  takeFree := by
    rintro b g rest ⟨⟨hfree, hlru, hmap⟩, -⟩ hg
    refine ⟨⟨fun hf ↦ hfree (hg ▸ List.mem_cons_of_mem _ hf), hlru, hmap⟩, ?_⟩
    rintro ⟨⟩
    exact hfree (hg ▸ List.mem_cons_self)
  takeBack := by
    rintro b g rest ⟨⟨hfree, hlru, hmap⟩, hne⟩ - hl
    exact ⟨⟨hfree, fun hf ↦ hlru (hl ▸ List.mem_append_left _ hf), hmap⟩, hne⟩
  takeVictim := by
    rintro b g rest ⟨⟨hfree, hlru, hmap⟩, -⟩ - hl
    refine ⟨⟨hfree, fun hf ↦ hlru (hl ▸ List.mem_append_left _ hf), fun p hp ↦ ?_⟩, ?_⟩
    · exact hmap p (lookup_unmapVictim.mp hp).2
    · rintro ⟨⟩
      exact hlru (hl ▸ List.mem_append_right _ List.mem_cons_self)
  install := by
    rintro b g p data ⟨⟨hfree, hlru, hmap⟩, hne⟩
    refine ⟨⟨hfree, hlru, fun q hq ↦ ?_⟩, by simp⟩
    rcases lookup_install.mp hq with ⟨-, rfl⟩ | ⟨-, hold⟩
    · exact hne rfl
    · exact hmap q hold
  forget h := ⟨h.1, by simp⟩

/-- **No exception of the disk leaves the pool intact.**  For every pool size, file and run, in
which the disk may have failed before: a call of `FetchPage` or `NewPage` that is left by an
exception does not leave the pool `Intact`.  And where it was the read that threw, there is a frame
that no later run, with a working disk or not, ever takes into use again. -/
theorem disk_exceptions {poolSize : ℕ} {file : PageId → Option PageData} {s : Store}
    {es : List (Faults × Call)} {os : List (Option DiskError)}
    (hr : run tryStep (opened poolSize file) es = some (os, s)) :
    (∀ faults p e s', s.tryFetchPage faults p = (.error e, s') →
      ¬ s.Intact s' ∧ (e = .readFailed → ∃ f < s'.pool.poolSize, ∀ es' os' t,
        run tryStep s' es' = some (os', t) → t.pool.Gone f)) ∧
    ∀ faults e s', s.tryNewPage faults = (.error e, s') → ¬ s.Intact s' := by
  have husable : s.pool.Usable none :=
    run_invariant (I := fun s : Store ↦ s.pool.Usable none)
      (fun _ _ _ _ h _ hs ↦ usable_rules.tryStep h hs) (usable_create poolSize) along_true hr
  refine ⟨fun faults p e s' hs ↦ ?_, fun faults e s' hs ↦ ?_⟩
  · obtain ⟨f, hlost, hgone⟩ := lost_of_tryFetchPage husable hs
    refine ⟨not_intact_of_lost hlost, fun he ↦ ⟨f, hlost.1, fun es' os' t hr' ↦ ?_⟩⟩
    exact (run_invariant (I := fun s : Store ↦ s.pool.Gone f ∧ none ≠ some f)
      (fun _ _ _ _ h _ hs ↦ (gone_rules f).tryStep h hs) ⟨hgone he, by simp⟩ along_true hr').1
  · obtain ⟨f, hlost⟩ := lost_of_tryNewPage husable hs
    exact not_intact_of_lost hlost

/-- A pool of one frame, in which a page has been created and released as dirty: then the read of
another page throws, or the write of this one does. -/
theorem disk_exceptions_one :
    ∃ s os s₁ s₂, run tryStep (opened 1 fun _ ↦ none) [({}, .newPage), ({}, .unpinPage 0 true)] =
        some (os, s) ∧
      (s.tryFetchPage { readFails := true } 1 = (.error .readFailed, s₁) ∧ ¬ s.Intact s₁ ∧
        ∃ f < s₁.pool.poolSize, ∀ es' os' t, run tryStep s₁ es' = some (os', t) → t.pool.Gone f) ∧
      s.tryNewPage { write := fun _ ↦ .queueFull } = (.error .queueFull, s₂) ∧ ¬ s.Intact s₂ := by
  have hrun : ∃ s os s₁ s₂, run tryStep (opened 1 fun _ ↦ none)
        [({}, .newPage), ({}, .unpinPage 0 true)] = some (os, s) ∧
      s.tryFetchPage { readFails := true } 1 = (.error .readFailed, s₁) ∧
      s.tryNewPage { write := fun _ ↦ .queueFull } = (.error .queueFull, s₂) :=
    ⟨_, _, _, _, rfl, rfl, rfl⟩
  obtain ⟨s, os, s₁, s₂, hr, hfetch, hnew⟩ := hrun
  obtain ⟨hfetches, hnews⟩ := disk_exceptions hr
  obtain ⟨hlost, hgone⟩ := hfetches _ _ _ _ hfetch
  exact ⟨s, os, s₁, s₂, hr, ⟨hfetch, hlost, hgone rfl⟩, hnew, hnews _ _ _ hnew⟩

/-- In a pool of one frame, the first read throws: the frame is lost, and no page can be fetched or
created from then on, whatever the disk does.  In another, the write of a dirty victim throws: the
page is pinned by nobody, and still no other page can be fetched. -/
theorem frame_lost :
    (∃ s, (opened 1 fun _ ↦ none).tryFetchPage { readFails := true } 0 = (.error .readFailed, s) ∧
      ¬ Intact (opened 1 fun _ ↦ none) s ∧
      s.tryFetchPage {} 0 = (.ok none, s) ∧ s.tryNewPage {} = (.ok none, s)) ∧
    ∃ s s' os, run tryStep (opened 1 fun _ ↦ none)
        [({}, .newPage), ({}, .unpinPage 0 true)] = some (os, s) ∧
      s.tryFetchPage { write := fun _ ↦ .queueFull } 1 = (.error .queueFull, s') ∧
      (s'.pool.pages 0).pinCount = 0 ∧ s'.tryFetchPage {} 1 = (.ok none, s') := by
  refine ⟨⟨_, rfl, fun hi ↦ ?_, rfl, rfl⟩, _, _, _, rfl, rfl, rfl, rfl⟩
  rcases hi.classes 0 Nat.zero_lt_one with h | h | h
  · exact absurd h.1 List.not_mem_nil
  · exact absurd h.1 List.not_mem_nil
  · obtain ⟨p, hp⟩ := h.2.2.1
    exact absurd hp (by simp [opened, create])

end Store

end StingDB
