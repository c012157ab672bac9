import StingDB.Lib.Machine
import StingDB.Planner.MemoConsistency

/-!
# Commuted joins

`LogicalJoinCommutativityRule` of `sql/planner/rule.h`, applied to expressions of a memo: what comes
out of the rule is inserted into the group that the expression is in, since it stands for the same
result.

A commuted join that the memo has already stays where it is.  So it is in the group of the join it
comes from exactly if it was not in another one before, and the id of that group leads there
(`commuted_iff`): groups are never merged, and of two joins of the same children in either order
that were inserted on their own each has a group for itself (`not_commuted`).
-/

set_option autoImplicit false

namespace StingDB

open Machine

/-- `LogicalJoinCommutativityRule::Transform` -/
def LogicalJoinCommutativityRule.transform (expr : GroupExpression) : List GroupExpression :=
  match expr.children with
  | [left, right] => [{ opType := .logicalJoin, children := [right, left] }]
  | _ => []

namespace Memo

/-! ## Exploring a memo -/

/-- A plan is inserted on its own, or the rule is applied to an expression of a group. -/
inductive Exploration where
  | insertExpression (expr : GroupExpression)
  | applyRule (group index : ℕ)

/-- Insert each expression into the group, and say which group it got. -/
def insertAll (targetGroup : GroupId) :
    List GroupExpression → Memo → Option (List (GroupExpression × GroupId) × Memo)
  | [], m => some ([], m)
  | expr :: exprs, m => do
    let (id, m) ← m.insertExpression expr targetGroup
    let (inserted, m) ← insertAll targetGroup exprs m
    some ((expr, id) :: inserted, m)

/-- One step: the expressions that were inserted, with the groups they got. -/
def explore (m : Memo) : Exploration → Option (List (GroupExpression × GroupId) × Memo)
  | .insertExpression expr => insertAll 0 [expr] m
  | .applyRule group index => do
    let g ← m.groups[group]?
    let expr ← g.logicalExpressions[index]?
    insertAll g.id (LogicalJoinCommutativityRule.transform expr) m

/-- No two different expressions of the run have the same hash. -/
def Distinct (os : List (List (GroupExpression × GroupId))) : Prop :=
  ∀ p ∈ os.flatten, ∀ p' ∈ os.flatten, p.1.hash = p'.1.hash → p.1.plan = p'.1.plan

/-- The `i`th group has an expression with this plan. -/
def HoldsPlan (m : Memo) (i : ℕ) (plan : OperatorType × List GroupId) : Prop :=
  ∃ e, m.Holds i e ∧ e.plan = plan

variable {m m₁ m₂ : Memo} {expr : GroupExpression} {exprs : List GroupExpression}
  {targetGroup id : GroupId} {o o₁ o₂ : List (GroupExpression × GroupId)}

/-! ## A memo only grows -/

/-- From `m₁` to `m₂`, with `o` inserted, nothing leaves its group and nothing comes from elsewhere
than `o`. -/
structure Grown (m₁ : Memo) (o : List (GroupExpression × GroupId)) (m₂ : Memo) : Prop where
  consistent : m₂.Consistent
  length_le : m₁.groups.length ≤ m₂.groups.length
  holds : ∀ i e, m₁.Holds i e → m₂.Holds i e
  origin : ∀ i e, m₂.Holds i e → m₁.Holds i e ∨ ∃ p ∈ o, p.1.plan = e.plan

theorem Consistent.grown (h : m.Consistent) : Grown m [] m :=
  ⟨h, le_rfl, fun _ _ ↦ id, fun _ _ ↦ Or.inl⟩

theorem Grown.trans {m₃ : Memo} (h₁ : Grown m₁ o₁ m₂) (h₂ : Grown m₂ o₂ m₃) :
    Grown m₁ (o₁ ++ o₂) m₃ where
  consistent := h₂.consistent
  length_le := h₁.length_le.trans h₂.length_le
  holds i e he := h₂.holds i e (h₁.holds i e he)
  origin i e he := by
    rcases h₂.origin i e he with hold | ⟨p, hp, hplan⟩
    · refine (h₁.origin i e hold).imp_right ?_
      rintro ⟨p, hp, hplan⟩
      exact ⟨p, List.mem_append_left _ hp, hplan⟩
    · exact Or.inr ⟨p, List.mem_append_right _ hp, hplan⟩

theorem Grown.holdsPlan {plan : OperatorType × List GroupId} {i : ℕ} (h : Grown m₁ o m₂)
    (hp : m₁.HoldsPlan i plan) : m₂.HoldsPlan i plan := by
  obtain ⟨e, he, hplan⟩ := hp
  exact ⟨e, h.holds i e he, hplan⟩

theorem Consistent.grown_insertExpression (h : m₁.Consistent)
    (hs : m₁.insertExpression expr targetGroup = some (id, m₂)) : Grown m₁ [(expr, id)] m₂ := by
  refine ⟨h.insertExpression hs, length_mono hs, fun i e he ↦ he.mono hs, fun i e he ↦ ?_⟩
  have hadd : ∀ {n : Memo} {g : GroupId}, (g - 1).toNat < n.groups.length →
      (n.add expr g).Holds i e → n.Holds i e ∨ ∃ p ∈ [(expr, id)], p.1.plan = e.plan := by
    intro n g hlt hn
    refine ((holds_add hlt).mp hn).imp_right ?_
    rintro ⟨-, rfl⟩
    exact ⟨_, List.mem_singleton_self _, rfl⟩
  rcases insertExpression_cases hs with ⟨-, -, -, rfl⟩ | ⟨-, ⟨-, rfl, rfl⟩ | ⟨-, -, hlt, rfl⟩⟩
  · exact Or.inl he
  · refine (hadd ?_ he).imp_left holds_openGroup.mp
    rw [length_openGroup]
    exact newGroup_index_lt _
  · exact hadd hlt he

theorem insertAll_cons : insertAll targetGroup (expr :: exprs) m₁ = some (o, m₂) ↔
    ∃ id m o', m₁.insertExpression expr targetGroup = some (id, m) ∧
      insertAll targetGroup exprs m = some (o', m₂) ∧ o = (expr, id) :: o' := by
  simp only [insertAll, Option.bind_eq_bind, Option.bind_eq_some_iff, Option.some.injEq,
    Prod.mk.injEq, Prod.exists]
  constructor
  · rintro ⟨id, m, hs, o', m', hr, rfl, rfl⟩
    exact ⟨id, m, o', hs, hr, rfl⟩
  · rintro ⟨id, m, o', hs, hr, rfl⟩
    exact ⟨id, m, hs, o', m₂, hr, rfl, rfl⟩

theorem Consistent.grown_insertAll (h : m₁.Consistent)
    (hs : insertAll targetGroup exprs m₁ = some (o, m₂)) : Grown m₁ o m₂ := by
  induction exprs generalizing m₁ o with
  | nil =>
    cases hs
    exact h.grown
  | cons expr exprs ih =>
    obtain ⟨id, m, o', hs₁, hs₂, rfl⟩ := insertAll_cons.mp hs
    have h₁ := h.grown_insertExpression hs₁
    exact h₁.trans (ih h₁.consistent hs₂)

theorem explore_applyRule {group index : ℕ} :
    m₁.explore (.applyRule group index) = some (o, m₂) ↔
      ∃ g expr, m₁.groups[group]? = some g ∧ g.logicalExpressions[index]? = some expr ∧
        insertAll g.id (LogicalJoinCommutativityRule.transform expr) m₁ = some (o, m₂) := by
  simp only [explore, Option.bind_eq_bind, Option.bind_eq_some_iff]
  constructor
  · rintro ⟨g, hg, expr, hexpr, hs⟩
    exact ⟨g, expr, hg, hexpr, hs⟩
  · rintro ⟨g, expr, hg, hexpr, hs⟩
    exact ⟨g, hg, expr, hexpr, hs⟩

theorem Consistent.grown_explore (h : m₁.Consistent) {x : Exploration}
    (hs : m₁.explore x = some (o, m₂)) : Grown m₁ o m₂ := by
  cases x with
  | insertExpression expr => exact h.grown_insertAll hs
  | applyRule group index =>
    obtain ⟨_, _, _, _, hs'⟩ := explore_applyRule.mp hs
    exact h.grown_insertAll hs'

theorem Consistent.grown_run (h : m₁.Consistent) {xs : List Exploration}
    {os : List (List (GroupExpression × GroupId))} (hr : run explore m₁ xs = some (os, m₂)) :
    Grown m₁ os.flatten m₂ := by
  induction xs generalizing m₁ os with
  | nil =>
    cases hr
    exact h.grown
  | cons x xs ih =>
    obtain ⟨o, m, os', hs, hr', rfl⟩ := run_cons.mp hr
    have h₁ := h.grown_explore hs
    exact h₁.trans (ih h₁.consistent hr')

/-! ## One application of the rule -/

/-- The place of the group that an expression with a new hash goes to. -/
def place (m : Memo) (targetGroup : GroupId) : ℕ :=
  if targetGroup = 0 then (UInt32.ofNat (m.groups.length + 1) - 1).toNat
  else (targetGroup - 1).toNat

/-- What is inserted with the id of the `i`th group goes to this group: one of those before the ids
start again, or else the one with the id `0`, which asks for a new group, if that is numbered like
this one. -/
def Addressed (m : Memo) (i : ℕ) : Prop :=
  i + 1 < 2 ^ 32 ∨ i + 1 = 2 ^ 32 ∧ m.groups.length % 2 ^ 32 = i

theorem place_zero : m.place 0 = m.groups.length % 2 ^ 32 := by
  rw [place, if_pos rfl, UInt32.ofNat_add, show UInt32.ofNat 1 = 1 from rfl, UInt32.add_sub_cancel,
    UInt32.toNat_ofNat']

theorem Consistent.place_eq_iff (h : m.Consistent) {i : ℕ} {g : Group}
    (hg : m.groups[i]? = some g) : m.place g.id = i ↔ m.Addressed i := by
  have hnat : g.id.toNat = (i + 1) % 2 ^ 32 := by
    rw [h.id_eq i g hg, UInt32.toNat_ofNat']
  by_cases h0 : g.id = 0
  · have hwrap : (i + 1) % 2 ^ 32 = 0 := by
      rw [← hnat, h0]
      rfl
    rw [h0, place_zero, Addressed]
    omega
  · have hpos : g.id.toNat ≠ 0 := fun heq ↦ h0 (UInt32.toNat_inj.mp heq)
    have hindex : (g.id - 1).toNat = g.id.toNat - 1 := by
      refine UInt32.toNat_sub_of_le _ _ (UInt32.le_iff_toNat_le.mpr ?_)
      exact Nat.one_le_iff_ne_zero.mpr hpos
    rw [place, if_neg h0, hindex, Addressed]
    omega

/-- No plan is in two groups. -/
theorem Consistent.eq_of_holdsPlan (h : m.Consistent) {plan : OperatorType × List GroupId} {i j : ℕ}
    (hi : m.HoldsPlan i plan) (hj : m.HoldsPlan j plan) : i = j := by
  obtain ⟨e, he, heplan⟩ := hi
  obtain ⟨e', he', heplan'⟩ := hj
  exact h.eq_of_holds he he' (GroupExpression.hash_eq_of_plan_eq (heplan.trans heplan'.symm))

/-- Where an expression is that has been inserted: where it was, or in the group of its target. -/
theorem Consistent.holdsPlan_inserted (h : m₁.Consistent)
    (hs : m₁.insertExpression expr targetGroup = some (id, m₂))
    (hdistinct : ∀ j e, m₁.Holds j e → e.hash = expr.hash → e.plan = expr.plan) :
    ∃ j, m₂.HoldsPlan j expr.plan ∧
      (m₁.HoldsPlan j expr.plan ∨
        j = m₁.place targetGroup ∧ ∀ k, ¬ m₁.HoldsPlan k expr.plan) := by
  have hnew : m₁.exprMap expr.hash = none → ∀ k, ¬ m₁.HoldsPlan k expr.plan := by
    rintro hnone k ⟨e, he, hplan⟩
    have hmap := (h.of_holds k e he).1
    rw [GroupExpression.hash_eq_of_plan_eq hplan, hnone] at hmap
    cases hmap
  rcases insertExpression_cases hs with
    ⟨e, he, -⟩ | ⟨hnone, ⟨rfl, rfl, rfl⟩ | ⟨h0, rfl, hlt, rfl⟩⟩
  · obtain ⟨hhash, j, hj⟩ := h.of_exprMap _ e he
    have hplan := hdistinct j e hj hhash
    exact ⟨j, ⟨e, hj.mono hs, hplan⟩, Or.inl ⟨e, hj, hplan⟩⟩
  · have hlt : (UInt32.ofNat (m₁.groups.length + 1) - 1).toNat < m₁.openGroup.groups.length := by
      rw [length_openGroup]
      exact newGroup_index_lt _
    exact ⟨_, ⟨_, (holds_add hlt).mpr (Or.inr ⟨rfl, rfl⟩), rfl⟩,
      Or.inr ⟨(if_pos rfl).symm, hnew hnone⟩⟩
  · exact ⟨_, ⟨_, (holds_add hlt).mpr (Or.inr ⟨rfl, rfl⟩), rfl⟩,
      Or.inr ⟨(if_neg h0).symm, hnew hnone⟩⟩

/-- **When commuted joins share a group.**  In any run of insertions and applications of the rule in
which no two different expressions have the same hash: after the rule has been applied to a join of
`left` and `right` in a group, the join of `right` and `left` is in that group, then and ever after,
if and only if it was in no other group before, and was in this one or the id of this one leads
there. -/
theorem commuted_iff {pre post : List Exploration}
    {os₁ os₂ : List (List (GroupExpression × GroupId))}
    {group index : ℕ} {g : Group} {left right : GroupId}
    (hpre : run explore {} pre = some (os₁, m₁))
    (hr : run explore m₁ (.applyRule group index :: post) = some (os₂, m₂))
    (hdistinct : Distinct (os₁ ++ os₂))
    (hg : m₁.groups[group]? = some g) (hexpr : g.logicalExpressions[index]? = some expr)
    (hplan : expr.plan = (.logicalJoin, [left, right])) :
    m₂.HoldsPlan group (.logicalJoin, [right, left]) ↔
      (∀ other, other ≠ group → ¬ m₁.HoldsPlan other (.logicalJoin, [right, left])) ∧
        (m₁.HoldsPlan group (.logicalJoin, [right, left]) ∨ m₁.Addressed group) := by
  have h₁ := consistent_empty.grown_run hpre
  have h₂ := h₁.consistent.grown_run hr
  obtain ⟨o, m, os', hs, hpost, rfl⟩ := run_cons.mp hr
  obtain ⟨g', expr', hg', hexpr', hall⟩ := explore_applyRule.mp hs
  rw [hg] at hg'
  obtain rfl := Option.some.inj hg'
  rw [hexpr] at hexpr'
  obtain rfl := Option.some.inj hexpr'
  have hchildren : expr.children = [left, right] := (Prod.mk.inj hplan).2
  rw [LogicalJoinCommutativityRule.transform, hchildren] at hall
  obtain ⟨id, m', o', hins, hnil, rfl⟩ := insertAll_cons.mp hall
  cases hnil
  -- the commuted join is in one group, before or by this insertion, and stays there
  obtain ⟨j, hj, horigin⟩ := h₁.consistent.holdsPlan_inserted hins fun j e he heq ↦ by
    obtain ⟨p, hp, hpe⟩ := (h₁.origin j e he).resolve_left fun ⟨_, hnone, _⟩ ↦ by cases hnone
    rw [← hpe]
    refine hdistinct p ?_ (_, id) ?_ ((GroupExpression.hash_eq_of_plan_eq hpe).trans heq)
    · rw [List.flatten_append]
      exact List.mem_append_left _ hp
    · rw [List.flatten_append]
      exact List.mem_append_right _ List.mem_cons_self
  have hlast := ((h₁.consistent.grown_explore hs).consistent.grown_run hpost).holdsPlan hj
  constructor
  · intro hgroup
    obtain rfl := h₂.consistent.eq_of_holdsPlan hlast hgroup
    refine ⟨fun other hne hother ↦ hne ?_, horigin.imp_right fun hplace ↦ ?_⟩
    · exact h₂.consistent.eq_of_holdsPlan (h₂.holdsPlan hother) hgroup
    · exact (h₁.consistent.place_eq_iff hg).mp hplace.1.symm
  · rintro ⟨hapart, hhere⟩
    suffices j = group from this ▸ hlast
    rcases horigin with hold | ⟨rfl, hnone⟩
    · by_contra hne
      exact hapart j hne hold
    · exact (h₁.consistent.place_eq_iff hg).mpr (hhere.resolve_left (hnone group))

/-- The join of two groups. -/
def join (left right : GroupId) : GroupExpression :=
  { opType := .logicalJoin, children := [left, right] }

/-- One join, and the rule applied to it. -/
theorem commuted_iff_one :
    ∃ os₁ m₁ os₂ m₂, run explore {} [.insertExpression (join 1 2)] = some (os₁, m₁) ∧
      run explore m₁ [.applyRule 0 0] = some (os₂, m₂) ∧
      (m₂.HoldsPlan 0 (.logicalJoin, [2, 1]) ↔
        (∀ other, other ≠ 0 → ¬ m₁.HoldsPlan other (.logicalJoin, [2, 1])) ∧
          (m₁.HoldsPlan 0 (.logicalJoin, [2, 1]) ∨ m₁.Addressed 0)) := by
  have hdistinct : Distinct ([[(join 1 2, 1)]] ++ [[(join 2 1, 1)]]) := by
    rw [Distinct]
    decide
  have hpre : run explore {} [.insertExpression (join 1 2)] =
    some ([[(join 1 2, 1)]], ({} : Memo).openGroup.add (join 1 2) 1) := rfl
  have hr : run explore (({} : Memo).openGroup.add (join 1 2) 1) [.applyRule 0 0] =
    some ([[(join 2 1, 1)]], (({} : Memo).openGroup.add (join 1 2) 1).add (join 2 1) 1) := rfl
  have hg : (({} : Memo).openGroup.add (join 1 2) 1).groups[0]? =
    some ⟨1, [(join 1 2).setGroupId 1]⟩ := rfl
  have hexpr : [(join 1 2).setGroupId 1][0]? = some ((join 1 2).setGroupId 1) := rfl
  exact ⟨_, _, _, _, hpre, hr, commuted_iff hpre hr hdistinct hg hexpr rfl⟩

/-- A join and the commuted join, each inserted on its own. -/
theorem not_commuted :
    ¬ ∀ (exprs : List GroupExpression) (rules : List (ℕ × ℕ)) (os : List (List (GroupExpression ×
        GroupId))) (m : Memo) (group index : ℕ) (o : List (GroupExpression × GroupId)) (m' : Memo)
        (g : Group) (expr : GroupExpression) (left right : GroupId),
      run explore {} (exprs.map .insertExpression ++ rules.map fun r ↦ .applyRule r.1 r.2) =
        some (os, m) →
      m.explore (.applyRule group index) = some (o, m') → Distinct (os ++ [o]) →
      m.groups[group]? = some g → g.logicalExpressions[index]? = some expr →
      expr.plan = (.logicalJoin, [left, right]) →
        m'.HoldsPlan group (.logicalJoin, [right, left]) := by
  intro h
  have hdistinct : Distinct ([[(join 1 2, 1)], [(join 2 1, 2)]] ++ [[(join 2 1, 2)]]) := by
    rw [Distinct]
    decide
  let m : Memo := (({} : Memo).openGroup.add (join 1 2) 1).openGroup.add (join 2 1) 2
  let g : Group := ⟨1, [(join 1 2).setGroupId 1]⟩
  have hr : run explore {} [.insertExpression (join 1 2), .insertExpression (join 2 1)] =
    some ([[(join 1 2, 1)], [(join 2 1, 2)]], m) := rfl
  have hs : m.explore (.applyRule 0 0) = some ([(join 2 1, 2)], m) := rfl
  have hg : m.groups[0]? = some g := rfl
  have hexpr : g.logicalExpressions[0]? = some ((join 1 2).setGroupId 1) := rfl
  obtain ⟨e, ⟨g', hg', he⟩, hplan⟩ := h [join 1 2, join 2 1] [] _ m 0 0 _ m g _ 1 2 hr hs
    hdistinct hg hexpr rfl
  rw [hg] at hg'
  obtain rfl := Option.some.inj hg'
  obtain rfl := List.mem_singleton.mp he
  exact absurd hplan (by decide)

end Memo

end StingDB
