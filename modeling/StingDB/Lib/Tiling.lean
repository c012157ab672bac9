import Mathlib.Algebra.BigOperators.Group.List.Basic
import Mathlib.Algebra.Order.Ring.Nat

/-!
# Ranges that tile an interval

A list of things that each have a first position and a length, `start` and `len`.  They tile the
positions from `lo` to `hi` if each one starts where the one before it ends, the first of them at
`lo`, and the last ends at `hi`.  Then no two of them overlap (`Tiles.pairwise`), all lie between
the bounds (`Tiles.inside`), and `hi` is determined by the lengths (`Tiles.hi_eq`).
-/

set_option autoImplicit false

namespace Tiling

variable {α : Type*} {start len : α → ℕ} {lo hi : ℕ} {r : α} {rs : List α}

/-- The ranges `[start r, start r + len r)` follow on each other from `lo` to `hi`. -/
def Tiles (start len : α → ℕ) : ℕ → List α → ℕ → Prop
  | lo, [], hi => lo = hi
  | lo, r :: rs, hi => start r = lo ∧ Tiles start len (lo + len r) rs hi

theorem Tiles.hi_eq (h : Tiles start len lo rs hi) : hi = lo + (rs.map len).sum := by
  induction rs generalizing lo with
  | nil => exact h.symm
  | cons r rs ih => rw [ih h.2, List.map_cons, List.sum_cons, Nat.add_assoc]

theorem Tiles.le (h : Tiles start len lo rs hi) : lo ≤ hi := by
  rw [h.hi_eq]
  exact Nat.le_add_right _ _

theorem Tiles.inside (h : Tiles start len lo rs hi) (hr : r ∈ rs) :
    lo ≤ start r ∧ start r + len r ≤ hi := by
  induction rs generalizing lo with
  | nil => exact absurd hr List.not_mem_nil
  | cons r' rs ih =>
    rcases List.mem_cons.mp hr with rfl | hr
    · rw [h.1]
      exact ⟨le_rfl, h.2.le⟩
    · obtain ⟨hlo, hhi⟩ := ih h.2 hr
      exact ⟨(Nat.le_add_right _ _).trans hlo, hhi⟩

/-- Later ranges come after earlier ones. -/
theorem Tiles.pairwise (h : Tiles start len lo rs hi) :
    rs.Pairwise fun r r' ↦ start r + len r ≤ start r' := by
  induction rs generalizing lo with
  | nil => exact List.Pairwise.nil
  | cons r rs ih =>
    refine List.pairwise_cons.mpr ⟨fun r' hr' ↦ ?_, ih h.2⟩
    rw [h.1]
    exact (h.2.inside hr').1

end Tiling
