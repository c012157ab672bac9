import Mathlib.Data.List.Pairwise
import Mathlib.Order.Basic
import StingDB.Lib.Machine

/-!
# Chains in a log

The entries of a log have keys, which increase from 1 on, and each entry names another one by its
key, or none by 0.  A `Linked` list of entries is one in which each names the one before it, so that
the key of its last entry is all that is needed to find the whole of it in the log: `follow` goes
from entry to entry, latest first, and `follow_lastKey` says that it comes through that list and
through nothing else.
-/

set_option autoImplicit false

namespace Chain

variable {α : Type*} (key prev : α → ℕ)

/-- The key of the last entry, 0 if there is none. -/
def lastKey (l : List α) : ℕ := (l.getLast?.map key).getD 0

/-- Each entry names the one before it, and the first names none. -/
def Linked (l : List α) : Prop :=
  ∀ pre e post, l = pre ++ e :: post → prev e = lastKey key pre

/-- The entries that are come through from the key `k` on: the one with this key, the one that it
names and so on, up to the key 0.  `none` if there is no entry with a key that has come up, or if
there are more than `fuel` entries. -/
def follow (log : List α) : ℕ → ℕ → Option (List α)
  | _, 0 => some []
  | 0, _ + 1 => none
  | fuel + 1, k + 1 => do
    let e ← log.find? fun e ↦ key e = k + 1
    let es ← follow log fuel (prev e)
    some (e :: es)

variable {key prev} {l log : List α} {e : α}

@[simp] theorem lastKey_nil : lastKey key [] = 0 := rfl

@[simp] theorem lastKey_concat : lastKey key (l ++ [e]) = key e := by
  simp [lastKey]

theorem follow_zero (log : List α) (fuel : ℕ) : follow key prev log fuel 0 = some [] := by
  cases fuel <;> rfl

theorem linked_nil : Linked key prev ([] : List α) := by
  intro pre e post h
  simp at h

/-- One more entry. -/
theorem linked_concat :
    Linked key prev (l ++ [e]) ↔ Linked key prev l ∧ prev e = lastKey key l := by
  refine ⟨fun h ↦ ⟨fun pre e' post heq ↦ ?_, h l e [] rfl⟩, fun ⟨hl, he⟩ pre e' post heq ↦ ?_⟩
  · exact h pre e' (post ++ [e]) (by rw [heq, List.append_assoc, List.cons_append])
  · obtain ⟨post', -, hpre⟩ | ⟨-, rfl, rfl⟩ := Machine.concat_eq_append_cons.mp heq
    · exact hl pre e' post' hpre
    · exact he

/-- In a log with increasing keys an entry is found by its key. -/
theorem find?_key (hlog : log.Pairwise fun a b ↦ key a < key b) (he : e ∈ log) :
    log.find? (fun a ↦ key a = key e) = some e := by
  induction log with
  | nil => exact absurd he List.not_mem_nil
  | cons a log ih =>
    obtain ⟨ha, hlog⟩ := List.pairwise_cons.mp hlog
    rcases List.mem_cons.mp he with rfl | he
    · rw [List.find?_cons_of_pos (by simp)]
    · rw [List.find?_cons_of_neg (by simpa using Nat.ne_of_lt (ha e he)), ih hlog he]

/-- **Going back from the last entry** of a linked list of entries of the log comes through the
whole of it, latest first. -/
theorem follow_lastKey (hlog : log.Pairwise fun a b ↦ key a < key b) (hpos : ∀ a ∈ log, 0 < key a)
    (hmem : ∀ a ∈ l, a ∈ log) (hl : Linked key prev l) {fuel : ℕ} (hfuel : l.length ≤ fuel) :
    follow key prev log fuel (lastKey key l) = some l.reverse := by
  induction l using List.reverseRecOn generalizing fuel with
  | nil =>
    rw [lastKey_nil, follow_zero]
    rfl
  | append_singleton l e ih =>
    obtain ⟨hl, he⟩ := linked_concat.mp hl
    have hin : e ∈ log := hmem e (by simp)
    rw [List.length_append, List.length_singleton] at hfuel
    obtain ⟨fuel, rfl⟩ := Nat.exists_eq_add_one_of_ne_zero (by omega : fuel ≠ 0)
    obtain ⟨k, hk⟩ := Nat.exists_eq_add_one_of_ne_zero (Nat.ne_of_gt (hpos e hin))
    have hfind := find?_key hlog hin
    have hrest := ih (fun a ha ↦ hmem a (List.mem_append_left _ ha)) hl
      (Nat.le_of_succ_le_succ hfuel)
    rw [hk] at hfind
    rw [lastKey_concat, hk, follow, hfind]
    simp only [Option.bind_eq_bind, Option.bind_some, he, hrest, List.reverse_append,
      List.reverse_singleton, List.singleton_append]

end Chain
