import Mathlib.Data.List.Nodup
import StingDB.Planner.Memo

/-!
# The map and the groups agree

Insertions with a target group: `insertExpression` with `0` opens a group, with the id of a group
that is there it adds to that one, and a plan whose hash is known goes nowhere.  Whatever the mix,
`Memo.Consistent` says how the three places that know of an expression (the map, the list of a
group, and the group id in the expression itself) agree.

None of this depends on how many groups there are.  What does is whether the ids say which group is
meant: from `2 ^ 32` groups on they start again, and `Memo.Numbers` is about fewer.
-/

set_option autoImplicit false

namespace StingDB

namespace Memo

/-- All expressions, group after group. -/
def expressions (m : Memo) : List GroupExpression := m.groups.flatMap Group.logicalExpressions

/-- `e` is in the `i`th group. -/
def Holds (m : Memo) (i : ℕ) (e : GroupExpression) : Prop :=
  ∃ g, m.groups[i]? = some g ∧ e ∈ g.logicalExpressions

/-- The target group of an insertion is new, or there. -/
def Existing (m : Memo) (targetGroup : GroupId) : Prop :=
  targetGroup = 0 ∨ ∃ g ∈ m.groups, g.id = targetGroup

/-- The map, the groups and the expressions agree on who is where. -/
structure Consistent (m : Memo) : Prop where
  id_eq : ∀ (i : ℕ) (g : Group), m.groups[i]? = some g → g.id = .ofNat (i + 1)
  /-- What the map has under a hash has that hash and is in a group. -/
  of_exprMap : ∀ h e, m.exprMap h = some e → e.hash = h ∧ ∃ i, m.Holds i e
  /-- What is in a group is in the map, and knows the group. -/
  of_holds : ∀ i e, m.Holds i e → m.exprMap e.hash = some e ∧ e.targetGroupId = .ofNat (i + 1)
  /-- No hash is there twice. -/
  nodup : (m.expressions.map GroupExpression.hash).Nodup

variable {m m' : Memo} {expr : GroupExpression} {targetGroup id : GroupId}

/-! ## Opening a group and adding to one -/

/-- `groups_.push_back(std::make_shared<Group>(..))` -/
def openGroup (m : Memo) : Memo :=
  { m with groups := m.groups ++ [⟨.ofNat (m.groups.length + 1), []⟩] }

/-- `SetGroupId`, the entry in the map and `AddExpression`. -/
def add (m : Memo) (expr : GroupExpression) (id : GroupId) : Memo where
  groups := m.groups.modify (id - 1).toNat (·.addExpression (expr.setGroupId id))
  exprMap := Function.update m.exprMap expr.hash (some (expr.setGroupId id))

theorem add_exprMap_self : (m.add expr id).exprMap expr.hash = some (expr.setGroupId id) :=
  Function.update_self ..

theorem add_exprMap_of_ne {h : UInt64} (hne : h ≠ expr.hash) :
    (m.add expr id).exprMap h = m.exprMap h :=
  Function.update_of_ne hne ..

/-- What an insertion that comes back has done. -/
theorem insertExpression_cases (h : m.insertExpression expr targetGroup = some (id, m')) :
    (∃ e, m.exprMap expr.hash = some e ∧ id = e.targetGroupId ∧ m' = m) ∨
      m.exprMap expr.hash = none ∧
        ((targetGroup = 0 ∧ id = .ofNat (m.groups.length + 1) ∧ m' = m.openGroup.add expr id) ∨
          (targetGroup ≠ 0 ∧ id = targetGroup ∧ (id - 1).toNat < m.groups.length ∧
            m' = m.add expr id)) := by
  rw [insertExpression] at h
  split at h
  · rename_i e he
    cases h
    exact Or.inl ⟨e, he, rfl, rfl⟩
  · rename_i hnone
    refine Or.inr ⟨hnone, ?_⟩
    by_cases h0 : targetGroup = 0
    · simp only [if_pos h0, Option.ite_none_right_eq_some, Option.some.injEq, Prod.mk.injEq] at h
      obtain ⟨-, rfl, rfl⟩ := h
      exact Or.inl ⟨h0, rfl, rfl⟩
    · simp only [if_neg h0, Option.ite_none_right_eq_some, Option.some.injEq, Prod.mk.injEq] at h
      obtain ⟨hlt, rfl, rfl⟩ := h
      exact Or.inr ⟨h0, rfl, hlt, rfl⟩

/-- An expression whose hash is known is not inserted again, whatever its target. -/
theorem insertExpression_of_known {e : GroupExpression} (he : m.exprMap expr.hash = some e) :
    m.insertExpression expr targetGroup = some (e.targetGroupId, m) := by
  rw [insertExpression, he]

/-- An id is one more than the index it is turned into. -/
theorem ofNat_index (id : GroupId) : UInt32.ofNat ((id - 1).toNat + 1) = id := by
  rw [UInt32.ofNat_add, UInt32.ofNat_toNat]
  exact UInt32.sub_add_cancel id 1

theorem index_ofNat_le (i : ℕ) : (UInt32.ofNat (i + 1) - 1).toNat ≤ i :=
  Nat.le_of_lt_succ (newGroup_index_lt i)

/-- **No insertion into a group that is there goes out of bounds.** -/
theorem Consistent.insertExpression_isSome (h : m.Consistent) (expr : GroupExpression)
    (ht : m.Existing targetGroup) :
    ∃ id m', m.insertExpression expr targetGroup = some (id, m') := by
  rw [insertExpression]
  split
  · exact ⟨_, _, rfl⟩
  · by_cases h0 : targetGroup = 0
    · simp only [if_pos h0, List.length_append, List.length_singleton,
        if_pos (newGroup_index_lt m.groups.length)]
      exact ⟨_, _, rfl⟩
    · obtain ⟨g, hg, hid⟩ := ht.resolve_left h0
      obtain ⟨i, hi⟩ := List.mem_iff_getElem?.mp hg
      have hlt : (targetGroup - 1).toNat < m.groups.length := by
        rw [← hid, h.id_eq i g hi]
        exact lt_of_le_of_lt (index_ofNat_le i) (List.getElem?_eq_some_iff.mp hi).1
      simp only [if_neg h0, if_pos hlt]
      exact ⟨_, _, rfl⟩

/-! ## The agreement is kept -/

theorem holds_openGroup {i : ℕ} {e : GroupExpression} : m.openGroup.Holds i e ↔ m.Holds i e := by
  rw [Holds, Holds, openGroup]
  dsimp only
  rw [List.getElem?_append]
  split
  · rfl
  · rename_i hi
    rw [List.getElem?_eq_none (not_lt.mp hi), List.getElem?_singleton]
    refine iff_of_false ?_ (by simp)
    rintro ⟨g, hg, he⟩
    split at hg
    · cases hg
      exact List.not_mem_nil he
    · cases hg

theorem Consistent.openGroup (h : m.Consistent) : m.openGroup.Consistent where
  id_eq i g hg := by
    rw [Memo.openGroup] at hg
    dsimp only at hg
    rw [List.getElem?_append] at hg
    split at hg
    · exact h.id_eq i g hg
    · rename_i hi
      rw [List.getElem?_singleton] at hg
      split at hg
      · cases hg
        rw [show i = m.groups.length by omega]
      · cases hg
  of_exprMap key e he := by
    simp only [holds_openGroup]
    exact h.of_exprMap key e he
  of_holds i e he := h.of_holds i e (holds_openGroup.mp he)
  nodup := by
    rw [expressions, Memo.openGroup, List.flatMap_append, List.flatMap_singleton, List.append_nil]
    exact h.nodup

theorem holds_add {i : ℕ} {e : GroupExpression} (hlt : (id - 1).toNat < m.groups.length) :
    (m.add expr id).Holds i e ↔
      m.Holds i e ∨ i = (id - 1).toNat ∧ e = expr.setGroupId id := by
  rw [Holds, Holds, add]
  dsimp only
  by_cases hi : (id - 1).toNat = i
  · subst hi
    rw [List.getElem?_modify_eq, List.getElem?_eq_getElem hlt]
    simp [Group.addExpression]
  · rw [List.getElem?_modify_ne _ _ hi]
    simp [Ne.symm hi]

/-- Adding to a group adds one expression. -/
theorem flatMap_modify_perm {e : GroupExpression} :
    ∀ {groups : List Group} {i : ℕ}, i < groups.length →
      ((groups.modify i (·.addExpression e)).flatMap Group.logicalExpressions).Perm
        (e :: groups.flatMap Group.logicalExpressions)
  | g :: groups, 0, _ => by
    rw [List.modify_zero_cons, List.flatMap_cons, List.flatMap_cons, Group.addExpression,
      List.append_assoc]
    exact List.perm_middle
  | g :: groups, i + 1, hi => by
    have ih := flatMap_modify_perm (e := e) (Nat.lt_of_succ_lt_succ hi)
    rw [List.modify_succ_cons, List.flatMap_cons, List.flatMap_cons]
    exact (ih.append_left _).trans List.perm_middle

theorem Consistent.add (h : m.Consistent) (hnone : m.exprMap expr.hash = none)
    (hlt : (id - 1).toNat < m.groups.length) : (m.add expr id).Consistent := by
  have hnew : ∀ e, e.hash = expr.hash → ∀ i, ¬ m.Holds i e := fun e heq i he ↦ by
    have hmap := (h.of_holds i e he).1
    rw [heq, hnone] at hmap
    cases hmap
  refine ⟨fun i g hg ↦ ?_, fun key e he ↦ ?_, fun i e he ↦ ?_, ?_⟩
  · rw [Memo.add] at hg
    dsimp only at hg
    rw [List.getElem?_modify] at hg
    obtain ⟨g₀, hg₀, rfl⟩ := Option.map_eq_some_iff.mp hg
    rw [← h.id_eq i g₀ hg₀]
    split <;> rfl
  · simp only [holds_add hlt]
    by_cases hkey : key = expr.hash
    · subst hkey
      obtain rfl := Option.some.inj (add_exprMap_self.symm.trans he)
      exact ⟨rfl, _, Or.inr ⟨rfl, rfl⟩⟩
    · obtain ⟨hhash, i, hi⟩ := h.of_exprMap key e ((add_exprMap_of_ne hkey).symm.trans he)
      exact ⟨hhash, i, Or.inl hi⟩
  · rcases (holds_add hlt).mp he with hold | ⟨rfl, rfl⟩
    · obtain ⟨hmap, hid⟩ := h.of_holds i e hold
      have hne : e.hash ≠ expr.hash := fun heq ↦ hnew e heq i hold
      exact ⟨(add_exprMap_of_ne hne).trans hmap, hid⟩
    · exact ⟨add_exprMap_self, (ofNat_index id).symm⟩
  · have hperm := (flatMap_modify_perm (e := expr.setGroupId id) hlt).map GroupExpression.hash
    rw [List.map_cons] at hperm
    refine hperm.nodup_iff.mpr (List.nodup_cons.mpr ⟨fun hmem ↦ ?_, h.nodup⟩)
    obtain ⟨e, he, heq⟩ := List.mem_map.mp hmem
    obtain ⟨g, hg, heg⟩ := List.mem_flatMap.mp he
    obtain ⟨i, hi⟩ := List.mem_iff_getElem?.mp hg
    exact hnew e heq i ⟨g, hi, heg⟩

/-- **Every insertion keeps the agreement.** -/
theorem Consistent.insertExpression (h : m.Consistent)
    (hs : m.insertExpression expr targetGroup = some (id, m')) : m'.Consistent := by
  rcases insertExpression_cases hs with
    ⟨e, he, rfl, rfl⟩ | ⟨hnone, ⟨h0, rfl, rfl⟩ | ⟨h0, rfl, hlt, rfl⟩⟩
  · exact h
  · refine h.openGroup.add hnone ?_
    rw [Memo.openGroup, List.length_append, List.length_singleton]
    exact newGroup_index_lt _
  · exact h.add hnone hlt

theorem consistent_empty : ({} : Memo).Consistent where
  id_eq i g hg := by cases hg
  of_exprMap h e he := by cases he
  of_holds i e he := by
    obtain ⟨g, hg, -⟩ := he
    cases hg
  nodup := List.nodup_nil

/-- No hash is in two groups. -/
theorem Consistent.eq_of_holds (h : m.Consistent) {i j : ℕ} {e e' : GroupExpression}
    (he : m.Holds i e) (he' : m.Holds j e') (heq : e.hash = e'.hash) : i = j := by
  have hnodup := h.nodup
  rw [expressions, List.map_flatMap, List.nodup_flatMap] at hnodup
  have hdisjoint := List.pairwise_iff_getElem.mp hnodup.2
  obtain ⟨g, hg, he⟩ := he
  obtain ⟨g', hg', he'⟩ := he'
  obtain ⟨hi, rfl⟩ := List.getElem?_eq_some_iff.mp hg
  obtain ⟨hj, rfl⟩ := List.getElem?_eq_some_iff.mp hg'
  by_contra hne
  rcases Nat.lt_or_gt_of_ne hne with hlt | hgt
  · exact hdisjoint i j hi hj hlt (List.mem_map_of_mem he) (heq ▸ List.mem_map_of_mem he')
  · exact hdisjoint j i hj hi hgt (List.mem_map_of_mem he') (heq ▸ List.mem_map_of_mem he)

/-! ## What stays as it was -/

theorem exprMap_mono (hs : m.insertExpression expr targetGroup = some (id, m')) {h : UInt64}
    {e : GroupExpression} (he : m.exprMap h = some e) : m'.exprMap h = some e := by
  have hadd : ∀ {n : Memo} {i : GroupId}, n.exprMap = m.exprMap → m.exprMap expr.hash = none →
      (n.add expr i).exprMap h = some e := fun {n i} hn hnone ↦ by
    have hne : h ≠ expr.hash := by
      rintro rfl
      rw [hnone] at he
      cases he
    rw [add_exprMap_of_ne hne, hn, he]
  rcases insertExpression_cases hs with ⟨-, -, -, rfl⟩ | ⟨hnone, ⟨-, -, rfl⟩ | ⟨-, -, -, rfl⟩⟩
  · exact he
  · exact hadd rfl hnone
  · exact hadd rfl hnone

/-- After an insertion the map has the group that was returned. -/
theorem exprMap_of_inserted (hs : m.insertExpression expr targetGroup = some (id, m')) :
    ∃ e, m'.exprMap expr.hash = some e ∧ e.targetGroupId = id := by
  rcases insertExpression_cases hs with ⟨e, he, rfl, rfl⟩ | ⟨-, ⟨-, -, rfl⟩ | ⟨-, -, -, rfl⟩⟩
  · exact ⟨e, he, rfl⟩
  · exact ⟨_, add_exprMap_self, rfl⟩
  · exact ⟨_, add_exprMap_self, rfl⟩

theorem length_add : (m.add expr id).groups.length = m.groups.length := List.length_modify ..

theorem length_openGroup : m.openGroup.groups.length = m.groups.length + 1 := by
  rw [openGroup, List.length_append, List.length_singleton]

theorem length_mono (hs : m.insertExpression expr targetGroup = some (id, m')) :
    m.groups.length ≤ m'.groups.length := by
  rcases insertExpression_cases hs with ⟨-, -, -, rfl⟩ | ⟨-, ⟨-, -, rfl⟩ | ⟨-, -, -, rfl⟩⟩
  · exact le_rfl
  · rw [length_add, length_openGroup]
    exact Nat.le_succ _
  · rw [length_add]

/-- An insertion takes no expression out of its group. -/
theorem Holds.mono {i : ℕ} {e : GroupExpression} (h : m.Holds i e)
    (hs : m.insertExpression expr targetGroup = some (id, m')) : m'.Holds i e := by
  rcases insertExpression_cases hs with ⟨-, -, -, rfl⟩ | ⟨-, ⟨-, rfl, rfl⟩ | ⟨-, -, hlt, rfl⟩⟩
  · exact h
  · refine (holds_add ?_).mpr (Or.inl (holds_openGroup.mpr h))
    rw [length_openGroup]
    exact newGroup_index_lt _
  · exact (holds_add hlt).mpr (Or.inl h)

/-! ## Fewer than `2 ^ 32` groups -/

/-- The ids are the numbers from one on, and no group is empty. -/
structure Numbers (m : Memo) : Prop where
  length_lt : m.groups.length < 2 ^ 32
  ne_nil : ∀ g ∈ m.groups, g.logicalExpressions ≠ []

theorem toNat_groupId {i : ℕ} (hi : i < m.groups.length) (hlt : m.groups.length < 2 ^ 32) :
    (UInt32.ofNat (i + 1)).toNat = i + 1 := by
  rw [UInt32.toNat_ofNat']
  exact Nat.mod_eq_of_lt (by omega)

theorem Consistent.toNat_id (h : m.Consistent) (hlt : m.groups.length < 2 ^ 32) {i : ℕ} {g : Group}
    (hg : m.groups[i]? = some g) : g.id.toNat = i + 1 := by
  rw [h.id_eq i g hg]
  exact toNat_groupId (List.getElem?_eq_some_iff.mp hg).1 hlt

/-- A group that is new is filled at once, and the others only grow. -/
theorem Numbers.insertExpression (h : m.Numbers) (hlt : m'.groups.length < 2 ^ 32)
    (hs : m.insertExpression expr targetGroup = some (id, m')) : m'.Numbers := by
  refine ⟨hlt, fun g hg ↦ ?_⟩
  obtain ⟨i, hi⟩ := List.mem_iff_getElem?.mp hg
  -- what is in the group is what some expression is held for
  suffices ∃ e, m'.Holds i e by
    obtain ⟨e, g', hg', he⟩ := this
    rw [hi] at hg'
    cases hg'
    exact List.ne_nil_of_mem he
  by_cases hold : i < m.groups.length
  · obtain ⟨e, he⟩ := List.exists_mem_of_ne_nil _ (h.ne_nil _ (List.getElem_mem hold))
    exact ⟨e, Holds.mono ⟨_, List.getElem?_eq_getElem hold, he⟩ hs⟩
  · have hlast := (List.getElem?_eq_some_iff.mp hi).1
    rcases insertExpression_cases hs with ⟨-, -, -, rfl⟩ | ⟨-, ⟨-, rfl, rfl⟩ | ⟨-, -, -, rfl⟩⟩
    · exact absurd hlast hold
    · rw [length_add, length_openGroup] at hlast
      have hindex : (UInt32.ofNat (m.groups.length + 1) - 1).toNat = i := by
        rw [UInt32.ofNat_add, show UInt32.ofNat 1 = 1 from rfl, UInt32.add_sub_cancel,
          UInt32.toNat_ofNat', Nat.mod_eq_of_lt h.length_lt]
        omega
      refine ⟨_, (holds_add ?_).mpr (Or.inr ⟨hindex.symm, rfl⟩)⟩
      rw [length_openGroup]
      exact newGroup_index_lt _
    · rw [length_add] at hlast
      exact absurd hlast hold

end Memo

end StingDB
