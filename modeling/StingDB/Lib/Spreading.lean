import Mathlib.Logic.Basic

/-!
# Things that spread within a place

Things are in places, no thing in two of them, and from a thing come others by a relation `R`.
What comes from a thing is put where that is, unless it is somewhere already.  The order in which
this is done decides nothing where no thing comes from two others: when nothing is missing any
more, each place has what it had and what `Spread` says, and nothing else (`iff_of_closed`).
-/

set_option autoImplicit false

variable {α ι : Type*} {R : α → α → Prop} {P Q : ι → α → Prop} {i j : ι} {a : α}

/-- What comes to a place, if things are where `P` says at first. -/
inductive Spread (R : α → α → Prop) (P : ι → α → Prop) (i : ι) : α → Prop where
  | held {a : α} (h : P i a) : Spread R P i a
  | step {a b : α} (h : Spread R P i a) (hR : R a b) (hnew : ∀ j, ¬ P j b) : Spread R P i b

namespace Spread

/-- Nothing comes to two places. -/
theorem unique (hR : ∀ a a' b, R a b → R a' b → a = a')
    (hP : ∀ i j a, P i a → P j a → i = j) (hi : Spread R P i a) (hj : Spread R P j a) :
    i = j := by
  induction hi with
  | held h =>
    cases hj with
    | held h' => exact hP _ _ _ h h'
    | step _ _ hnew => exact absurd h (hnew i)
  | step _ hstep hnew ih =>
    cases hj with
    | held h' => exact absurd h' (hnew j)
    | step h' hstep' _ =>
      obtain rfl := hR _ _ _ hstep hstep'
      exact ih h'

/-- **What is where when nothing is missing**: `Q` has grown out of `P`, and of everything it has
it has what comes from that. -/
theorem iff_of_closed (hR : ∀ a a' b, R a b → R a' b → a = a')
    (hP : ∀ i j a, P i a → P j a → i = j) (hsub : ∀ {i a}, P i a → Q i a)
    (hspread : ∀ {i a}, Q i a → Spread R P i a) (hclosed : ∀ {i a b}, Q i a → R a b → ∃ j, Q j b) :
    Q i a ↔ Spread R P i a := by
  refine ⟨hspread, fun h ↦ ?_⟩
  induction h with
  | held h => exact hsub h
  | step h hstep hnew ih =>
    obtain ⟨j, hj⟩ := hclosed ih hstep
    have heq : i = j := unique hR hP (h.step hstep hnew) (hspread hj)
    exact heq ▸ hj

end Spread
