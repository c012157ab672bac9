import StingDB.Lib.RecencyStack

/-!
# What any other cache pays

A cache that keeps a `RecencyStack` is compared with another one, of which nothing is known but that
it has everything that is in use; it may know what will be taken next, and may throw out and bring
in what it likes at any time.  It has room for `h` things, and the first one for `n ≥ h`.  Then the
first one brings in no more than `n / (n - h + 1)` things for each that the other brings in, but for
`n` in the beginning.

The account that is kept for this is `Within`.  A thing that the first cache keeps and the other has
thrown out is worth the room that there is from its place in the first to the end (`rank`), so that
it costs the other one `n` at most to throw something out.  When the first cache has to make room,
everything behind comes one place nearer to the end, and of that at least `n - h + 1` things are
worth one less.
-/

set_option autoImplicit false

namespace RecencyStack

variable {α : Type*} [DecidableEq α]

/-! ## Ranks -/

/-- Those of the first `n` members that are not in the set, each with the number of places from it
to the end. -/
def rank : ℕ → List α → Finset α → ℕ
  | n + 1, a :: l, c => (if a ∈ c then 0 else n + 1) + rank n l c
  | _, _, _ => 0

variable {l : List α} {a : α} {c d : Finset α} {n : ℕ}

@[simp] theorem rank_zero : rank 0 l c = 0 := rfl

@[simp] theorem rank_nil : rank n [] c = 0 := by
  cases n <;> rfl

theorem rank_cons : rank (n + 1) (a :: l) c = (if a ∈ c then 0 else n + 1) + rank n l c := rfl

theorem rank_take : rank n (l.take n) c = rank n l c := by
  induction l generalizing n with
  | nil => rw [List.take_nil]
  | cons b l ih =>
    cases n with
    | zero => rfl
    | succ n => rw [List.take_succ_cons, rank_cons, rank_cons, ih]

/-- What has left the set is worth `n` at most. -/
theorem rank_le_add_countP :
    rank n l d ≤ rank n l c + n * l.countP fun b ↦ b ∈ c ∧ b ∉ d := by
  induction l generalizing n with
  | nil => simp
  | cons b l ih =>
    cases n with
    | zero => simp
    | succ n =>
      have hrest := ih (n := n)
      have hle := Nat.mul_le_mul_right (l.countP fun b ↦ b ∈ c ∧ b ∉ d) (Nat.le_add_right n 1)
      rw [rank_cons, rank_cons, List.countP_cons, Nat.mul_add]
      by_cases hd : b ∈ d
      · rw [if_pos hd]
        omega
      · rw [if_neg hd]
        by_cases hc : b ∈ c
        · rw [if_pos hc, if_pos (decide_eq_true ⟨hc, hd⟩)]
          omega
        · rw [if_neg hc]
          omega

/-- So the rank of a list without repetitions rises by no more than `n` for each thing that leaves
the set. -/
theorem rank_le_add_card (hl : l.Nodup) : rank n l d ≤ rank n l c + n * (c \ d).card := by
  refine rank_le_add_countP.trans (Nat.add_le_add_left (Nat.mul_le_mul_left _ ?_) _)
  rw [List.countP_eq_length_filter, ← List.toFinset_card_of_nodup (hl.filter _)]
  refine Finset.card_le_card fun b hb ↦ ?_
  rw [List.mem_toFinset, List.mem_filter, decide_eq_true_eq] at hb
  exact Finset.mem_sdiff.mpr hb.2

/-- One place less, and something has gone that may have been in front. -/
theorem rank_erase_le : rank n (l.erase a) c ≤ rank (n + 1) l c := by
  induction l generalizing n with
  | nil => simp
  | cons b l ih =>
    by_cases hb : b = a
    · rw [hb, List.erase_cons_head, rank_cons]
      exact Nat.le_add_left ..
    · rw [List.erase_cons_tail (by simpa using hb), rank_cons]
      cases n with
      | zero => exact Nat.zero_le _
      | succ n =>
        rw [rank_cons]
        refine Nat.add_le_add ?_ ih
        split
        · exact le_rfl
        · exact Nat.le_succ _

/-- One place less takes one off each. -/
theorem rank_succ :
    rank (n + 1) l c = rank n l c + (l.take (n + 1)).countP fun b ↦ b ∉ c := by
  induction l generalizing n with
  | nil => simp
  | cons b l ih =>
    rw [rank_cons, List.take_succ_cons, List.countP_cons]
    cases n with
    | zero => by_cases hb : b ∈ c <;> simp [hb]
    | succ n =>
      rw [rank_cons, ih]
      by_cases hb : b ∈ c
      · simp [hb]
      · simp [hb]
        omega

/-! ## What is owed -/

variable {s : RecencyStack α} {h : ℕ}

/-- The rank of what is idle in a cache of `n`, against what another one has. -/
def owed (s : RecencyStack α) (n : ℕ) (c : Finset α) : ℕ := rank (n - s.busy) s.idle c

/-- How many things there are. -/
def seen (s : RecencyStack α) : ℕ := s.busy + s.idle.length

/-- The other cache has everything that is in use. -/
def Serves (s : RecencyStack α) (c : Finset α) : Prop := ∀ a ∈ s.inUse, a ∈ c

/-- The other cache brings things in, and throws things out. -/
theorem owed_le (hs : s.WellFormed) : s.owed n d ≤ s.owed n c + n * (c \ d).card :=
  (rank_le_add_card hs.nodup).trans
    (Nat.add_le_add_left (Nat.mul_le_mul_right _ (Nat.sub_le _ _)) _)

theorem owed_take_of_inUse (hs : s.WellFormed) (ha : a ∈ s.inUse) :
    (s.take a).owed n c = s.owed n c := by
  rw [owed, owed, busy_take, if_pos ha, Nat.add_zero, take,
    List.erase_of_not_mem (hs.disjoint a ha)]

theorem owed_take_le (ha : a ∉ s.inUse) (hn : s.busy < n) :
    (s.take a).owed n c ≤ s.owed n c := by
  obtain ⟨m, hm⟩ : ∃ m, n - s.busy = m + 1 := Nat.exists_eq_succ_of_ne_zero (by omega)
  rw [owed, owed, busy_take, if_neg ha, ← Nat.sub_sub, hm, Nat.add_sub_cancel]
  exact rank_erase_le

/-- Of what the first cache keeps, the other one has no more than it has room for beside what is in
use. -/
theorem le_countP_kept (hs : s.WellFormed) (hserves : (s.take a).Serves c) (ha : a ∉ s.inUse)
    (hk : a ∉ s.kept n) (hfull : n - s.busy ≤ s.idle.length) (hc : c.card ≤ h) (hh : h ≤ n)
    (hn : s.busy < n) : n - h + 1 ≤ (s.kept n).countP fun b ↦ b ∉ c := by
  have hnodup : (s.kept n).Nodup := hs.nodup.sublist (List.take_sublist _ _)
  have hlen : (s.kept n).length = n - s.busy := List.length_take_of_le hfull
  have hsplit := List.length_eq_countP_add_countP (l := s.kept n) fun b ↦ decide (b ∈ c)
  -- what both have is not in use
  have hshared : ((s.kept n).countP fun b ↦ b ∈ c) + (s.take a).busy ≤ c.card := by
    rw [List.countP_eq_length_filter, ← List.toFinset_card_of_nodup (hnodup.filter _), busy,
      ← Finset.card_union_of_disjoint]
    · refine Finset.card_le_card (Finset.union_subset (fun b hb ↦ ?_) fun b hb ↦ ?_)
      · rw [List.mem_toFinset, List.mem_filter, decide_eq_true_eq] at hb
        exact hb.2
      · exact hserves b (List.mem_toFinset.mp hb)
    · refine Finset.disjoint_left.mpr fun b hb hb' ↦ ?_
      rw [List.mem_toFinset, List.mem_filter] at hb
      rcases List.mem_cons.mp (List.mem_toFinset.mp hb') with rfl | hmem
      · exact hk hb.1
      · exact hs.disjoint b hmem (mem_idle_of_mem_kept hb.1)
  rw [busy_take, if_neg ha] at hshared
  simp only [decide_eq_true_eq] at hsplit
  omega

/-- **Making room.**  Something is taken that was not kept, while the cache is full. -/
theorem owed_take_of_new (hs : s.WellFormed) (hserves : (s.take a).Serves c) (ha : a ∉ s.inUse)
    (hk : a ∉ s.kept n) (hfull : n - s.busy ≤ s.idle.length) (hc : c.card ≤ h) (hh : h ≤ n)
    (hn : s.busy < n) : (s.take a).owed n c + (n - h + 1) ≤ s.owed n c := by
  have hcount := le_countP_kept hs hserves ha hk hfull hc hh hn
  obtain ⟨m, hm⟩ : ∃ m, n - s.busy = m + 1 := Nat.exists_eq_succ_of_ne_zero (by omega)
  rw [kept, hm] at hcount hk
  have hnot : a ∉ s.idle.take m := fun hmem ↦
    hk ((List.take_sublist_take_left (Nat.le_succ m)).subset hmem)
  rw [owed, owed, busy_take, if_neg ha, ← Nat.sub_sub, hm, Nat.add_sub_cancel, take, ← rank_take,
    take_erase_of_notMem hnot, rank_take, rank_succ]
  exact Nat.add_le_add_left hcount _

theorem owed_release (hserves : s.Serves c) (ha : a ∈ s.inUse) (hn : s.busy ≤ n) :
    (s.release a).owed n c = s.owed n c := by
  have hbusy := busy_release ha
  by_cases hmem : a ∈ s.inUse.erase a
  · rw [if_pos hmem] at hbusy
    rw [owed, owed, hbusy, Nat.add_zero, release, if_pos hmem]
  · rw [if_neg hmem] at hbusy
    have hroom : n - (s.release a).busy = n - s.busy + 1 := by omega
    rw [owed, owed, hroom, release, if_neg hmem, rank_cons, if_pos (hserves a ha), Nat.zero_add]

theorem seen_take_of_new (ha : a ∉ s.inUse) (hidle : a ∉ s.idle) :
    (s.take a).seen = s.seen + 1 := by
  rw [seen, seen, busy_take, if_neg ha, take, List.erase_of_not_mem hidle]
  exact Nat.add_right_comm ..

theorem le_seen_take (hs : s.WellFormed) : s.seen ≤ (s.take a).seen := by
  rw [seen, seen, busy_take, take]
  split
  · rename_i ha
    rw [List.erase_of_not_mem (hs.disjoint a ha), Nat.add_zero]
  · rw [List.length_erase]
    split <;> omega

theorem seen_release (ha : a ∈ s.inUse) : (s.release a).seen = s.seen := by
  have hbusy := busy_release ha
  rw [seen, seen, hbusy]
  by_cases hmem : a ∈ s.inUse.erase a
  · rw [release, if_pos hmem, if_pos hmem, Nat.add_zero]
  · rw [release, if_neg hmem, if_neg hmem, List.length_cons]
    omega

/-! ## The account -/

/-- A cache of `n` has brought in so many things, and another one, with room for `h` and with the
members of `c` in it now, so many others. -/
def Within (s : RecencyStack α) (n h : ℕ) (c : Finset α) (loads otherLoads : ℕ) : Prop :=
  (n - h + 1) * loads + s.owed n c + n * c.card ≤ n * otherLoads + (n - h + 1) * min n s.seen

namespace Within

variable {loads otherLoads : ℕ}

theorem start (n h : ℕ) : ({} : RecencyStack α).Within n h ∅ 0 0 := by
  simp [Within, owed]

/-- **The bound.** -/
theorem le (hw : s.Within n h c loads otherLoads) :
    (n - h + 1) * loads ≤ n * otherLoads + (n - h + 1) * n := by
  have hmin := Nat.mul_le_mul_left (n - h + 1) (min_le_left n s.seen)
  rw [Within] at hw
  omega

/-- The other cache changes. -/
theorem change (hw : s.Within n h c loads otherLoads) (hs : s.WellFormed) (d : Finset α) :
    s.Within n h d loads (otherLoads + (d \ c).card) := by
  have howed := owed_le (n := n) (c := c) (d := d) hs
  -- what goes and what stays of the old, and what comes and what stays of the new
  have hcard : n * (c \ d).card + n * d.card = n * (d \ c).card + n * c.card := by
    rw [← Nat.mul_add, ← Nat.mul_add, Finset.card_sdiff_add_card, Finset.card_sdiff_add_card,
      Finset.union_comm]
  rw [Within] at hw ⊢
  rw [Nat.mul_add]
  omega

/-- Something is taken that the cache has. -/
theorem take (hw : s.Within n h c loads otherLoads) (hs : s.WellFormed) (ha : s.Keeps n a) :
    (s.take a).Within n h c loads otherLoads := by
  have howed : (s.take a).owed n c ≤ s.owed n c := by
    by_cases hmem : a ∈ s.inUse
    · exact (owed_take_of_inUse hs hmem).le
    · have hlt : s.busy < n := by
        by_contra hle
        have hk := ha.resolve_left hmem
        rw [kept, Nat.sub_eq_zero_of_le (not_lt.mp hle), List.take_zero] at hk
        exact List.not_mem_nil hk
      exact owed_take_le hmem hlt
  have hmin := Nat.mul_le_mul_left (n - h + 1)
    (min_le_min_left n (le_seen_take (a := a) hs))
  rw [Within] at hw ⊢
  omega

/-- **Something is brought in.** -/
theorem load (hw : s.Within n h c loads otherLoads) (hs : s.WellFormed)
    (hserves : (s.take a).Serves c) (ha : ¬ s.Keeps n a) (hc : c.card ≤ h) (hh : h ≤ n)
    (hn : s.busy < n) : (s.take a).Within n h c (loads + 1) otherLoads := by
  rw [Keeps, not_or] at ha
  rw [Within] at hw ⊢
  rw [Nat.mul_add, Nat.mul_one]
  by_cases hfull : n - s.busy ≤ s.idle.length
  · have howed := owed_take_of_new hs hserves ha.1 ha.2 hfull hc hh hn
    have hmin := Nat.mul_le_mul_left (n - h + 1)
      (min_le_min_left n (le_seen_take (a := a) hs))
    omega
  · -- there is room, so that nothing has been thrown out so far
    have hidle : a ∉ s.idle := by
      rw [kept, List.take_of_length_le (by omega)] at ha
      exact ha.2
    have hseen : s.seen < n := by
      rw [seen]
      omega
    have howed := owed_take_le (c := c) ha.1 hn
    rw [seen_take_of_new ha.1 hidle, min_eq_right (Nat.succ_le_of_lt hseen), Nat.mul_succ]
    rw [min_eq_right hseen.le] at hw
    omega

theorem release (hw : s.Within n h c loads otherLoads) (hserves : s.Serves c) (ha : a ∈ s.inUse)
    (hn : s.busy ≤ n) : (s.release a).Within n h c loads otherLoads := by
  rwa [Within, owed_release hserves ha hn, seen_release ha]

end Within

end RecencyStack
