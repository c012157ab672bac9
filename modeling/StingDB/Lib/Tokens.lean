import Mathlib.Data.List.Basic
import Mathlib.Tactic.Linarith

/-!
# Tokens that are passed on

Parties in a list, where one of them is replaced at a time by those that it leaves behind.  What is
counted here is the parties with some property `p`, the ones that hold a token: a replacement that
leaves behind as many as it takes away keeps their number (`countP_replace`), and where there is one
at most, whoever else there is has none (`not_of_mem_erase`).
-/

set_option autoImplicit false

namespace Tokens

variable {α : Type*} [DecidableEq α] {l bs : List α} {a b : α} {p : α → Bool}

/-- `bs` in the place of `a`. -/
def replace (l : List α) (a : α) (bs : List α) : List α := bs ++ l.erase a

theorem mem_replace : b ∈ replace l a bs ↔ b ∈ bs ∨ b ∈ l.erase a := List.mem_append

theorem countP_replace (h : a ∈ l) (bs : List α) (p : α → Bool) :
    (replace l a bs).countP p + (p a).toNat = bs.countP p + l.countP p := by
  have hperm := (List.perm_cons_erase h).countP_eq p
  have htoNat : (p a).toNat = if p a = true then 1 else 0 := by cases p a <;> rfl
  rw [replace, List.countP_append, hperm, List.countP_cons, htoNat]
  exact Nat.add_assoc ..

/-- Where there is one token at most, the others have none. -/
theorem not_of_mem_erase (hone : l.countP p ≤ 1) (ha : a ∈ l) (hpa : p a = true)
    (hb : b ∈ l.erase a) : p b = false := by
  by_contra hpb
  rw [Bool.not_eq_false] at hpb
  have hpos : 0 < (l.erase a).countP p := List.countP_pos_iff.mpr ⟨b, hb, hpb⟩
  have hperm := (List.perm_cons_erase ha).countP_eq p
  rw [List.countP_cons, if_pos hpa] at hperm
  omega

end Tokens
