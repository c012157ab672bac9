import Mathlib.Data.List.Basic

/-!
# Lists in the order of their last uses

A history is a list of the things that were used, in order, and may name one many times.
`Recency.since` is how much of it came after the last use of a thing; `Recency.Ordered` says of a
list that its members were used, and that each was used after the ones behind it.  A list that is
kept by putting what is used in front, and taking out whatever one likes, is so ordered: its last
member is the one that has not been used for longest.
-/

set_option autoImplicit false

namespace Recency

variable {α : Type*} [DecidableEq α]

/-- How many uses have come since the last one of `a`. -/
def since (uses : List α) (a : α) : ℕ := uses.reverse.idxOf a

/-- The members were used, each after the ones behind it. -/
structure Ordered (l uses : List α) : Prop where
  pairwise : l.Pairwise fun a b ↦ since uses a < since uses b
  used : ∀ a ∈ l, a ∈ uses

variable {l l' uses : List α} {a b : α}

theorem since_concat_self : since (uses ++ [a]) a = 0 := by
  rw [since, List.reverse_append, List.reverse_singleton, List.singleton_append,
    List.idxOf_cons_self]

theorem since_concat_of_ne (h : b ≠ a) : since (uses ++ [a]) b = since uses b + 1 := by
  rw [since, List.reverse_append, List.reverse_singleton, List.singleton_append,
    List.idxOf_cons_ne _ (Ne.symm h), since]

theorem ordered_nil : Ordered [] uses := ⟨List.Pairwise.nil, fun _ h ↦ absurd h List.not_mem_nil⟩

theorem Ordered.sublist (h : Ordered l uses) (hsub : l'.Sublist l) : Ordered l' uses :=
  ⟨h.pairwise.sublist hsub, fun a ha ↦ h.used a (hsub.subset ha)⟩

/-- What is used goes in front. -/
theorem Ordered.use (h : Ordered l uses) (ha : a ∉ l) : Ordered (a :: l) (uses ++ [a]) where
  pairwise := by
    have hne : ∀ b ∈ l, b ≠ a := fun b hb heq ↦ ha (heq ▸ hb)
    refine List.pairwise_cons.mpr ⟨fun b hb ↦ ?_, ?_⟩
    · rw [since_concat_self, since_concat_of_ne (hne b hb)]
      exact Nat.succ_pos _
    · refine h.pairwise.imp_of_mem fun {b c} hb hc hlt ↦ ?_
      rw [since_concat_of_ne (hne b hb), since_concat_of_ne (hne c hc)]
      exact Nat.succ_lt_succ hlt
  used := by
    refine List.forall_mem_cons.mpr ⟨?_, fun b hb ↦ List.mem_append_left _ (h.used b hb)⟩
    exact List.mem_append_right _ (List.mem_singleton_self a)

/-- **The last member is the one whose last use is the oldest.** -/
theorem Ordered.since_lt_last (h : Ordered (l ++ [a]) uses) (hb : b ∈ l) :
    since uses b < since uses a :=
  (List.pairwise_append.mp h.pairwise).2.2 b hb a (List.mem_singleton_self a)

end Recency
