import Mathlib.Data.Finset.Card
import Mathlib.Data.Finset.Dedup
import Mathlib.Data.List.TakeDrop

/-!
# What a cache of any size keeps

Things are taken, as often as one likes, and released again; what has been released for the last
time is idle.  A cache keeps what is in use, and as much of what is idle as it has room for, those
that have become idle last.  `RecencyStack` is the history of a cache as far as this goes: it knows
nothing of the size, so one stack says what caches of all sizes keep (`RecencyStack.Keeps`), and a
larger one keeps all that a smaller one does (`Keeps.mono`).

`kept` is a prefix of the idle things, and the lemmas about it say how that prefix changes when
something is taken or released; a cache that changes its own list in the same way keeps this
prefix.
-/

set_option autoImplicit false

/-- The things in use, one entry for each time that they were taken, and the idle ones, in the
order in which they became idle, the last one first. -/
structure RecencyStack (α : Type*) where
  inUse : List α := []
  idle : List α := []

namespace RecencyStack

variable {α : Type*} [DecidableEq α]

/-- Something is taken. -/
def take (s : RecencyStack α) (a : α) : RecencyStack α :=
  { inUse := a :: s.inUse, idle := s.idle.erase a }

/-- Something is released, and idle if that was the last time. -/
def release (s : RecencyStack α) (a : α) : RecencyStack α :=
  let inUse := s.inUse.erase a
  { inUse, idle := if a ∈ inUse then s.idle else a :: s.idle }

/-- How many things are in use. -/
def busy (s : RecencyStack α) : ℕ := s.inUse.toFinset.card

/-- The idle things that a cache of `n` has room for. -/
def kept (s : RecencyStack α) (n : ℕ) : List α := s.idle.take (n - s.busy)

/-- What a cache of `n` keeps. -/
def Keeps (s : RecencyStack α) (n : ℕ) (a : α) : Prop := a ∈ s.inUse ∨ a ∈ s.kept n

/-- Nothing is idle twice, or while it is in use. -/
structure WellFormed (s : RecencyStack α) : Prop where
  nodup : s.idle.Nodup
  disjoint : ∀ a ∈ s.inUse, a ∉ s.idle

variable {s : RecencyStack α} {a b : α} {m n : ℕ}

/-- **Inclusion.**  A larger cache keeps what a smaller one keeps. -/
theorem Keeps.mono (h : s.Keeps m a) (hmn : m ≤ n) : s.Keeps n a :=
  h.imp_right fun hk ↦ (List.take_sublist_take_left (Nat.sub_le_sub_right hmn _)).subset hk

theorem mem_idle_of_mem_kept (h : a ∈ s.kept n) : a ∈ s.idle := List.mem_of_mem_take h

omit [DecidableEq α] in
theorem wellFormed_empty : ({} : RecencyStack α).WellFormed :=
  ⟨List.nodup_nil, fun _ h ↦ absurd h List.not_mem_nil⟩

theorem WellFormed.take (h : s.WellFormed) (a : α) : (s.take a).WellFormed where
  nodup := h.nodup.erase a
  disjoint := by
    refine List.forall_mem_cons.mpr ⟨h.nodup.not_mem_erase, fun b hb hmem ↦ ?_⟩
    exact h.disjoint b hb (List.mem_of_mem_erase hmem)

theorem WellFormed.release (h : s.WellFormed) (ha : a ∈ s.inUse) : (s.release a).WellFormed := by
  have hdisjoint : ∀ b ∈ s.inUse.erase a, b ∉ s.idle :=
    fun b hb ↦ h.disjoint b (List.mem_of_mem_erase hb)
  by_cases hmem : a ∈ s.inUse.erase a
  · refine ⟨?_, ?_⟩ <;> simp only [RecencyStack.release, if_pos hmem]
    · exact h.nodup
    · exact hdisjoint
  · refine ⟨?_, ?_⟩ <;> simp only [RecencyStack.release, if_neg hmem]
    · exact List.nodup_cons.mpr ⟨h.disjoint a ha, h.nodup⟩
    · intro b hb hb'
      rcases List.mem_cons.mp hb' with rfl | hb'
      · exact hmem hb
      · exact hdisjoint b hb hb'

/-! ## How many are in use -/

theorem busy_take : (s.take a).busy = s.busy + if a ∈ s.inUse then 0 else 1 := by
  rw [busy, take, List.toFinset_cons]
  split
  · rename_i ha
    rw [Finset.insert_eq_of_mem (List.mem_toFinset.mpr ha), busy, Nat.add_zero]
  · rename_i ha
    rw [Finset.card_insert_of_notMem (mt List.mem_toFinset.mp ha), busy]

/-- What is taken back is as if it had not been released. -/
theorem busy_release (ha : a ∈ s.inUse) :
    s.busy = (s.release a).busy + if a ∈ s.inUse.erase a then 0 else 1 := by
  have hperm : s.inUse.toFinset = (a :: s.inUse.erase a).toFinset :=
    List.toFinset_eq_of_perm _ _ (List.perm_cons_erase ha)
  rw [busy, hperm]
  exact busy_take (s := s.release a)

/-! ## What is kept when something is taken or released -/

/-- What is taken out of a prefix makes room for the next. -/
theorem take_erase_of_mem {l : List α} {k : ℕ} (h : a ∈ l.take (k + 1)) :
    (l.erase a).take k = (l.take (k + 1)).erase a := by
  induction l generalizing k with
  | nil => exact absurd h List.not_mem_nil
  | cons b l ih =>
    rw [List.take_succ_cons] at h ⊢
    by_cases hb : b = a
    · rw [hb, List.erase_cons_head, List.erase_cons_head]
    · have hmem : a ∈ l.take k := (List.mem_cons.mp h).resolve_left (Ne.symm hb)
      rw [List.erase_cons_tail (by simpa using hb), List.erase_cons_tail (by simpa using hb)]
      cases k with
      | zero => exact absurd hmem List.not_mem_nil
      | succ k => rw [List.take_succ_cons, ih hmem]

/-- What is taken out behind a prefix leaves that alone. -/
theorem take_erase_of_notMem {l : List α} {k : ℕ} (h : a ∉ l.take k) :
    (l.erase a).take k = l.take k := by
  induction l generalizing k with
  | nil => rfl
  | cons b l ih =>
    cases k with
    | zero => rfl
    | succ k =>
      rw [List.take_succ_cons, List.mem_cons, not_or] at h
      rw [List.erase_cons_tail (by simpa using Ne.symm h.1), List.take_succ_cons,
        List.take_succ_cons, ih h.2]

/-- One more of a thing in use. -/
theorem WellFormed.kept_take_of_inUse (h : s.WellFormed) (ha : a ∈ s.inUse) :
    (s.take a).kept n = s.kept n := by
  rw [kept, kept, busy_take, if_pos ha, Nat.add_zero, RecencyStack.take,
    List.erase_of_not_mem (h.disjoint a ha)]

/-- An idle thing that was kept. -/
theorem WellFormed.kept_take_of_kept (h : s.WellFormed) (ha : a ∈ s.kept n) :
    (s.take a).kept n = (s.kept n).erase a := by
  have hnot : a ∉ s.inUse := fun hmem ↦ h.disjoint a hmem (mem_idle_of_mem_kept ha)
  rw [kept] at ha
  obtain ⟨k, hk⟩ : ∃ k, n - s.busy = k + 1 := by
    refine Nat.exists_eq_succ_of_ne_zero fun h0 ↦ ?_
    rw [h0, List.take_zero] at ha
    exact List.not_mem_nil ha
  rw [kept, kept, busy_take, if_neg hnot, ← Nat.sub_sub, hk, Nat.add_sub_cancel]
  exact take_erase_of_mem (hk ▸ ha)

/-- A thing that was not kept: the last of the idle ones has to go for it, if there is no room. -/
theorem kept_take_of_new (hnot : a ∉ s.inUse) (hk : a ∉ s.kept n) :
    (s.take a).kept n = (s.kept n).take (n - s.busy - 1) := by
  rw [kept, busy_take, if_neg hnot, ← Nat.sub_sub, kept, List.take_take, Nat.min_eq_left
    (Nat.sub_le _ _), ← Nat.min_eq_left (Nat.sub_le (n - s.busy) 1), ← List.take_take,
    ← List.take_take]
  exact congrArg _ (take_erase_of_notMem hk)

/-- Not the last of a thing. -/
theorem kept_release_of_inUse (ha : a ∈ s.inUse) (hmem : a ∈ s.inUse.erase a) :
    (s.release a).kept n = s.kept n := by
  rw [kept, kept, busy_release ha, if_pos hmem, Nat.add_zero, release, if_pos hmem]

/-- What becomes idle goes in front. -/
theorem kept_release_of_last (ha : a ∈ s.inUse) (hmem : a ∉ s.inUse.erase a) (hn : s.busy ≤ n) :
    (s.release a).kept n = a :: s.kept n := by
  have hbusy := busy_release ha
  rw [if_neg hmem] at hbusy
  have hroom : n - (s.release a).busy = n - s.busy + 1 := by omega
  rw [kept, hroom, kept, release, if_neg hmem, List.take_succ_cons]

end RecencyStack
