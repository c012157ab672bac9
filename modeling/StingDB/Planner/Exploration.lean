import StingDB.Lib.Spreading
import StingDB.Planner.JoinCommutativity

/-!
# The rules of the optimizer

`sql/planner/rule.h` and the rules that `Optimizer` of `sql/planner/optimizer.h` registers: joins
commute, and a join is implemented by a hash join.  A rule is applied to an expression of a group
that it matches, and what comes out is inserted into that group.

In which order and where the optimizer does this is left open, and `explorations_end` says that it
ends: no more than three applications for each join ever add anything.  When nothing is added any
more, the order has made no difference (`confluent`), as long as no two of the plans in question
have the same hash.
-/

set_option autoImplicit false

namespace StingDB

open Machine

/-! ## The rules -/

/-- `Rule` -/
structure Rule where
  /-- `Match` -/
  isMatch : GroupExpression → Bool
  /-- `Transform` -/
  transform : GroupExpression → List GroupExpression
  /-- `GetName` -/
  getName : String

/-- `LogicalJoinCommutativityRule` -/
def LogicalJoinCommutativityRule : Rule where
  isMatch expr := expr.opType = .logicalJoin
  transform := LogicalJoinCommutativityRule.transform
  getName := "JoinCommutativity"

/-- `LogicalToPhysicalHashJoinRule::Transform` -/
def LogicalToPhysicalHashJoinRule.transform (expr : GroupExpression) : List GroupExpression :=
  [{ opType := .physicalHashJoin, children := expr.children }]

/-- `LogicalToPhysicalHashJoinRule` -/
def LogicalToPhysicalHashJoinRule : Rule where
  isMatch expr := expr.opType = .logicalJoin
  transform := LogicalToPhysicalHashJoinRule.transform
  getName := "ToHashJoin"

/-- `Optimizer` -/
structure Optimizer where
  /-- `rules_` -/
  rules : List Rule := []

namespace Optimizer

/-- `AddRule` -/
def addRule (optimizer : Optimizer) (rule : Rule) : Optimizer :=
  { optimizer with rules := optimizer.rules ++ [rule] }

/-- The constructor. -/
def create : Optimizer :=
  (({} : Optimizer).addRule LogicalJoinCommutativityRule).addRule LogicalToPhysicalHashJoinRule

end Optimizer

/-- An operator and the groups of its children. -/
abbrev OperatorPlan := OperatorType × List GroupId

/-- What the rules make of a plan. -/
inductive Rewrites : OperatorPlan → OperatorPlan → Prop where
  | commute (left right : GroupId) :
    Rewrites (.logicalJoin, [left, right]) (.logicalJoin, [right, left])
  | hashJoin (children : List GroupId) :
    Rewrites (.logicalJoin, children) (.physicalHashJoin, children)

theorem rewrites_iff {e e' : GroupExpression} :
    Rewrites e.plan e'.plan ↔ ∃ rule ∈ Optimizer.create.rules, rule.isMatch e ∧
      ∃ e₁ ∈ rule.transform e, e₁.plan = e'.plan := by
  have hrules : Optimizer.create.rules =
    [LogicalJoinCommutativityRule, LogicalToPhysicalHashJoinRule] := rfl
  obtain ⟨op, children, _, _, _⟩ := e
  obtain ⟨op', children', _, _, _⟩ := e'
  simp only [hrules, List.mem_cons, List.not_mem_nil, or_false, exists_eq_or_imp, exists_eq_left,
    LogicalJoinCommutativityRule, LogicalToPhysicalHashJoinRule, decide_eq_true_eq,
    GroupExpression.plan, LogicalToPhysicalHashJoinRule.transform,
    LogicalJoinCommutativityRule.transform]
  constructor
  · rintro (⟨left, right⟩ | ⟨children⟩)
    · exact Or.inl ⟨rfl, _, List.mem_singleton_self _, rfl⟩
    · exact Or.inr ⟨rfl, rfl⟩
  · rintro (⟨rfl, h⟩ | ⟨rfl, h⟩)
    · rcases children with _ | ⟨left, _ | ⟨right, _ | ⟨_, children⟩⟩⟩
      case cons.cons.nil =>
        obtain ⟨e₁, he₁, heq⟩ := h
        rw [List.mem_singleton] at he₁
        subst he₁
        cases heq
        exact .commute left right
      all_goals exact absurd h (by simp)
    · cases h
      exact .hashJoin _

namespace Rewrites

/-- No plan comes from two others. -/
theorem unique {p p' q : OperatorPlan} (h : Rewrites p q) (h' : Rewrites p' q) : p = p' := by
  cases h <;> cases h' <;> rfl

/-- The children of a join, and those of the commuted join. -/
def orders : List GroupId → List (List GroupId)
  | [left, right] => [[left, right], [right, left]]
  | children => [children]

/-- What may come of a plan. -/
def variants (p : OperatorPlan) : List OperatorPlan :=
  if p.1 = .logicalJoin then
    (orders p.2).map (.logicalJoin, ·) ++ (orders p.2).map (.physicalHashJoin, ·)
  else [p]

theorem self_mem_orders (children : List GroupId) : children ∈ orders children := by
  rw [orders.eq_def]
  split <;> exact List.mem_cons_self

theorem swap_mem_orders {left right : GroupId} :
    ∀ {children : List GroupId}, [left, right] ∈ orders children → [right, left] ∈ orders children
  | [], h => by simp [orders] at h
  | [_], h => by simp [orders] at h
  | [l, r], h => by
    simp only [orders, List.mem_cons, List.cons.injEq, and_true, List.not_mem_nil, or_false] at h ⊢
    exact h.symm.imp And.symm And.symm
  | _ :: _ :: _ :: _, h => by simp [orders] at h

theorem length_orders_le (children : List GroupId) : (orders children).length ≤ 2 := by
  rw [orders.eq_def]
  split
  · exact le_rfl
  · exact Nat.le_succ 1

theorem self_mem_variants (p : OperatorPlan) : p ∈ variants p := by
  obtain ⟨op, children⟩ := p
  rw [variants]
  split_ifs with hop
  · subst hop
    exact List.mem_append_left _ (List.mem_map_of_mem (self_mem_orders children))
  · exact List.mem_singleton_self _

theorem mem_variants {p p' q : OperatorPlan} (h : Rewrites p p') (hp : p ∈ variants q) :
    p' ∈ variants q := by
  obtain ⟨op, children⟩ := q
  rw [variants] at hp ⊢
  split_ifs at hp ⊢ with hop
  · simp only [List.mem_append, List.mem_map] at hp ⊢
    cases h with
    | commute left right =>
      obtain ⟨cs, hcs, heq⟩ | ⟨cs, hcs, heq⟩ := hp <;> cases heq
      exact Or.inl ⟨_, swap_mem_orders hcs, rfl⟩
    | hashJoin cs =>
      obtain ⟨cs, hcs, heq⟩ | ⟨cs, hcs, heq⟩ := hp <;> cases heq
      exact Or.inr ⟨_, hcs, rfl⟩
  · rw [List.mem_singleton] at hp
    subst hp
    cases h <;> exact absurd rfl hop

theorem length_variants_le (e : GroupExpression) :
    (variants e.plan).length ≤ 1 + 3 * if e.opType = .logicalJoin then 1 else 0 := by
  rw [variants]
  have horders := length_orders_le e.children
  by_cases hop : e.opType = .logicalJoin
  · rw [if_pos hop, if_pos (by exact hop), List.length_append, List.length_map, List.length_map]
    change (orders e.children).length + (orders e.children).length ≤ _
    omega
  · rw [if_neg hop, if_neg (by exact hop)]
    exact le_rfl

end Rewrites

namespace Memo

open Rewrites

/-! ## Applying a rule -/

/-- Where the optimizer applies which of its rules. -/
structure Application where
  /-- The rule, by its place in `rules_`. -/
  rule : ℕ
  /-- The group, by its place in `groups_`. -/
  group : ℕ
  /-- The expression, by its place in the group. -/
  index : ℕ
  deriving DecidableEq

/-- One application: the expressions that were inserted, with the groups they got.  `none` if there
is no such expression, or the rule does not match it. -/
def apply (m : Memo) (a : Application) : Option (List (GroupExpression × GroupId) × Memo) := do
  let rule ← Optimizer.create.rules[a.rule]?
  let g ← m.groups[a.group]?
  let expr ← g.logicalExpressions[a.index]?
  if rule.isMatch expr then insertAll g.id (rule.transform expr) m else none

variable {m m' m₁ m₂ : Memo} {expr e : GroupExpression} {exprs : List GroupExpression}
  {id : GroupId} {o : List (GroupExpression × GroupId)} {a : Application} {i : ℕ}
  {p q : OperatorPlan}

theorem apply_eq_some : m.apply a = some (o, m') ↔
    ∃ rule g expr, Optimizer.create.rules[a.rule]? = some rule ∧ m.groups[a.group]? = some g ∧
      g.logicalExpressions[a.index]? = some expr ∧ rule.isMatch expr ∧
      insertAll g.id (rule.transform expr) m = some (o, m') := by
  simp only [apply, Option.bind_eq_bind, Option.bind_eq_some_iff, Option.ite_none_right_eq_some]
  constructor
  · rintro ⟨rule, hrule, g, hg, expr, hexpr, hmatch, hs⟩
    exact ⟨rule, g, expr, hrule, hg, hexpr, hmatch, hs⟩
  · rintro ⟨rule, g, expr, hrule, hg, hexpr, hmatch, hs⟩
    exact ⟨rule, hrule, g, hg, expr, hexpr, hmatch, hs⟩

/-- A memo that a run can have led to, with fewer groups than the ids can tell apart. -/
structure Proper (m : Memo) : Prop where
  consistent : m.Consistent
  length_lt : m.groups.length < 2 ^ 32

theorem index_ofNat (hi : i + 1 < 2 ^ 32) : (UInt32.ofNat (i + 1) - 1).toNat = i := by
  rw [UInt32.ofNat_add, show UInt32.ofNat 1 = 1 from rfl, UInt32.add_sub_cancel,
    UInt32.toNat_ofNat']
  exact Nat.mod_eq_of_lt (by omega)

theorem ofNat_ne_zero (hi : i + 1 < 2 ^ 32) : UInt32.ofNat (i + 1) ≠ 0 := by
  intro heq
  have hnat := congrArg UInt32.toNat heq
  rw [UInt32.toNat_ofNat', Nat.mod_eq_of_lt hi] at hnat
  exact absurd hnat (Nat.succ_ne_zero i)

/-- From `m` to `m'`: no group is new, and what is new is in the `i`th group, is one of these
plans, and was nowhere. -/
structure Extends (m : Memo) (i : ℕ) (plans : OperatorPlan → Prop) (m' : Memo) : Prop where
  proper : m'.Proper
  length_eq : m'.groups.length = m.groups.length
  holds : ∀ j e, m.Holds j e → m'.Holds j e
  origin : ∀ j e, m'.Holds j e →
    m.Holds j e ∨ j = i ∧ plans e.plan ∧ ∀ k, ¬ m.HoldsPlan k e.plan
  /-- Either nothing has changed, or there are more expressions. -/
  length_lt : m' = m ∨ m.expressions.length < m'.expressions.length

theorem Proper.extends (h : m.Proper) (i : ℕ) (plans : OperatorPlan → Prop) :
    Extends m i plans m :=
  ⟨h, rfl, fun _ _ ↦ id, fun _ _ ↦ Or.inl, Or.inl rfl⟩

theorem Extends.trans {plans : OperatorPlan → Prop} (h₁ : Extends m i plans m₁)
    (h₂ : Extends m₁ i plans m₂) : Extends m i plans m₂ where
  proper := h₂.proper
  length_eq := h₂.length_eq.trans h₁.length_eq
  holds j e he := h₂.holds j e (h₁.holds j e he)
  origin j e he := by
    rcases h₂.origin j e he with hold | ⟨hj, hp, hnew⟩
    · exact h₁.origin j e hold
    · refine Or.inr ⟨hj, hp, fun k hk ↦ hnew k ?_⟩
      obtain ⟨e₀, he₀, hplan⟩ := hk
      exact ⟨e₀, h₁.holds k e₀ he₀, hplan⟩
  length_lt := by
    rcases h₁.length_lt with rfl | hlt₁
    · exact h₂.length_lt
    · rcases h₂.length_lt with rfl | hlt₂
      · exact Or.inr hlt₁
      · exact Or.inr (hlt₁.trans hlt₂)

theorem Extends.mono {plans plans' : OperatorPlan → Prop} (h : Extends m i plans m')
    (hp : ∀ p, plans p → plans' p) : Extends m i plans' m' :=
  { h with origin := fun j e he ↦ (h.origin j e he).imp_right fun ⟨hj, hpe, hnew⟩ ↦
      ⟨hj, hp _ hpe, hnew⟩ }

theorem Proper.extends_insertExpression (h : m.Proper) (hi : i < m.groups.length)
    (hs : m.insertExpression expr (.ofNat (i + 1)) = some (id, m')) :
    Extends m i (· = expr.plan) m' := by
  have hlt : i + 1 < 2 ^ 32 := lt_of_le_of_lt hi h.length_lt
  have hc := h.consistent.insertExpression hs
  rcases insertExpression_cases hs with
    ⟨-, -, -, rfl⟩ | ⟨hnone, ⟨h0, -, -⟩ | ⟨-, rfl, hindex, rfl⟩⟩
  · exact h.extends ..
  · exact absurd h0 (ofNat_ne_zero hlt)
  · refine ⟨⟨hc, by rw [length_add]; exact h.length_lt⟩, length_add, fun j e he ↦ ?_,
      fun j e he ↦ ?_, Or.inr ?_⟩
    · exact (holds_add hindex).mpr (Or.inl he)
    · refine ((holds_add hindex).mp he).imp_right ?_
      rintro ⟨rfl, rfl⟩
      refine ⟨index_ofNat hlt, rfl, ?_⟩
      rintro k ⟨e₀, he₀, hplan⟩
      have hmap := (h.consistent.of_holds k e₀ he₀).1
      rw [GroupExpression.hash_eq_of_plan_eq hplan] at hmap
      exact absurd (hnone.symm.trans hmap) (by simp)
    · rw [expressions, expressions, add]
      exact (flatMap_modify_perm hindex).length_eq ▸ Nat.lt_succ_self _

theorem Proper.extends_insertAll (h : m.Proper) (hi : i < m.groups.length)
    (hs : insertAll (.ofNat (i + 1)) exprs m = some (o, m')) :
    Extends m i (∃ e₁ ∈ exprs, e₁.plan = ·) m' := by
  induction exprs generalizing m o with
  | nil =>
    cases hs
    exact h.extends ..
  | cons expr exprs ih =>
    obtain ⟨id, m₁, o', hs₁, hs₂, -⟩ := insertAll_cons.mp hs
    have h₁ := h.extends_insertExpression hi hs₁
    have h₂ := ih h₁.proper (h₁.length_eq ▸ hi) hs₂
    refine (h₁.mono fun p hp ↦ ?_).trans (h₂.mono fun p hp ↦ ?_)
    · exact ⟨expr, List.mem_cons_self, hp.symm⟩
    · obtain ⟨e₁, he₁, hplan⟩ := hp
      exact ⟨e₁, List.mem_cons_of_mem _ he₁, hplan⟩

/-- **What an application adds** comes from an expression of the group it is added to. -/
theorem Proper.extends_apply (h : m.Proper) (hs : m.apply a = some (o, m')) :
    ∃ e₀, m.Holds a.group e₀ ∧ Extends m a.group (Rewrites e₀.plan) m' := by
  obtain ⟨rule, g, e₀, hrule, hg, he₀, hmatch, hall⟩ := apply_eq_some.mp hs
  have hi := (List.getElem?_eq_some_iff.mp hg).1
  rw [h.consistent.id_eq _ g hg] at hall
  refine ⟨e₀, ⟨g, hg, List.mem_of_getElem? he₀⟩, (h.extends_insertAll hi hall).mono ?_⟩
  rintro p ⟨e₁, he₁, rfl⟩
  exact rewrites_iff.mpr ⟨rule, List.mem_of_getElem? hrule, hmatch, e₁, he₁, rfl⟩

/-! ## Any number of applications -/

theorem run_apply_extends (h : m.Proper) {as : List Application}
    {os : List (List (GroupExpression × GroupId))} (hr : run apply m as = some (os, m')) :
    m'.Proper ∧ m'.groups.length = m.groups.length ∧ (∀ j e, m.Holds j e → m'.Holds j e) ∧
      ∀ j e, m'.Holds j e → Spread Rewrites m.HoldsPlan j e.plan := by
  induction as using List.reverseRecOn generalizing os m' with
  | nil =>
    cases hr
    exact ⟨h, rfl, fun _ _ ↦ id, fun j e he ↦ .held ⟨e, he, rfl⟩⟩
  | append_singleton as a ih =>
    obtain ⟨m₁, os₁, o, hr₁, hs, -⟩ := run_concat.mp hr
    obtain ⟨hproper, hlen, hholds, hspread⟩ := ih hr₁
    obtain ⟨e₀, he₀, hext⟩ := hproper.extends_apply hs
    refine ⟨hext.proper, hext.length_eq.trans hlen, fun j e he ↦ hext.holds j e (hholds j e he),
      fun j e he ↦ ?_⟩
    rcases hext.origin j e he with hold | ⟨rfl, hrw, hnew⟩
    · exact hspread j e hold
    · refine .step (hspread _ _ he₀) hrw fun k ↦ ?_
      rintro ⟨e₁, he₁, hplan⟩
      exact hnew k ⟨e₁, hholds k e₁ he₁, hplan⟩

/-! ## How long it goes on -/

/-- The joins among the expressions. -/
def joins (m : Memo) : ℕ := m.expressions.countP (·.opType = .logicalJoin)

theorem holdsPlan_iff : (∃ i, m.HoldsPlan i p) ↔ p ∈ m.expressions.map GroupExpression.plan := by
  simp only [HoldsPlan, Holds, expressions, List.mem_map, List.mem_flatMap,
    List.mem_iff_getElem? (l := m.groups)]
  constructor
  · rintro ⟨i, e, ⟨g, hg, he⟩, hp⟩
    exact ⟨e, ⟨g, ⟨i, hg⟩, he⟩, hp⟩
  · rintro ⟨e, ⟨g, ⟨i, hg⟩, he⟩, hp⟩
    exact ⟨i, e, ⟨g, hg, he⟩, hp⟩

/-- What spreads is a variant of what was there. -/
theorem exists_mem_variants (h : Spread Rewrites m.HoldsPlan i p) :
    ∃ e ∈ m.expressions, p ∈ variants e.plan := by
  induction h with
  | held h =>
    obtain ⟨e, he, hp⟩ := List.mem_map.mp (holdsPlan_iff.mp ⟨_, h⟩)
    exact ⟨e, he, hp ▸ self_mem_variants _⟩
  | step _ hrw _ ih =>
    obtain ⟨e, he, hp⟩ := ih
    exact ⟨e, he, hrw.mem_variants hp⟩

theorem nodup_plans (h : m.Consistent) : (m.expressions.map GroupExpression.plan).Nodup := by
  have hhash : (m.expressions.map GroupExpression.plan).map (fun p ↦ computeHash p.1 p.2) =
      m.expressions.map GroupExpression.hash := by
    rw [List.map_map]
    exact List.map_congr_left fun e _ ↦ e.hash_eq.symm
  exact (hhash ▸ h.nodup).of_map

/-- There are four times as many expressions at most. -/
theorem length_le_of_run (h : m.Proper) {as : List Application}
    {os : List (List (GroupExpression × GroupId))} (hr : run apply m as = some (os, m')) :
    m'.expressions.length ≤ m.expressions.length + 3 * m.joins := by
  obtain ⟨hproper, -, -, hspread⟩ := run_apply_extends h hr
  have hsub : m'.expressions.map GroupExpression.plan ⊆
      m.expressions.flatMap fun e ↦ variants e.plan := fun p hp ↦ by
    obtain ⟨i, e, he, rfl⟩ := holdsPlan_iff.mpr hp
    obtain ⟨e₀, he₀, hp⟩ := exists_mem_variants (hspread i e he)
    exact List.mem_flatMap.mpr ⟨e₀, he₀, hp⟩
  calc m'.expressions.length
      = (m'.expressions.map GroupExpression.plan).length := (List.length_map ..).symm
    _ ≤ (m.expressions.flatMap fun e ↦ variants e.plan).length :=
        ((nodup_plans hproper.consistent).subperm hsub).length_le
    _ ≤ m.expressions.length + 3 * m.joins := by
        rw [joins]
        induction m.expressions with
        | nil => exact le_rfl
        | cons e es ih =>
          rw [List.flatMap_cons, List.length_append, List.length_cons, List.countP_cons]
          have hle := length_variants_le e
          simp only [decide_eq_true_eq]
          omega

/-! ## The memo of an optimizer -/

/-- A plan is inserted, on its own or into a group, or a rule is applied. -/
inductive Move where
  | insertExpression (expr : GroupExpression) (targetGroup : GroupId)
  | apply (a : Application)

/-- One move: the expressions that were inserted, with the groups they got. -/
def move (m : Memo) : Move → Option (List (GroupExpression × GroupId) × Memo)
  | .insertExpression expr targetGroup => insertAll targetGroup [expr] m
  | .apply a => m.apply a

theorem Consistent.grown_move (h : m.Consistent) {x : Move} (hs : m.move x = some (o, m')) :
    Grown m o m' := by
  cases x with
  | insertExpression expr targetGroup => exact h.grown_insertAll hs
  | apply a =>
    obtain ⟨_, _, _, _, _, _, _, hall⟩ := apply_eq_some.mp hs
    exact h.grown_insertAll hall

theorem consistent_of_run {xs : List Move} {os : List (List (GroupExpression × GroupId))}
    (hr : run move {} xs = some (os, m)) : m.Consistent :=
  run_invariant (P := fun _ _ ↦ True) (fun _ _ _ _ h _ hs ↦ (h.grown_move hs).consistent)
    consistent_empty along_true hr

/-- The application adds something. -/
def Productive (m : Memo) (a : Application) : Prop := ∀ o m', m.apply a = some (o, m') → m' ≠ m

/-- No application adds anything. -/
def Saturated (m : Memo) : Prop := ∀ a o m', m.apply a = some (o, m') → m' = m

theorem length_add_le_of_productive (h : m.Proper) {as : List Application}
    {os : List (List (GroupExpression × GroupId))} (hr : run apply m as = some (os, m'))
    (hp : Along apply Productive m as) :
    m.expressions.length + as.length ≤ m'.expressions.length := by
  induction as generalizing m os with
  | nil =>
    cases hr
    exact le_rfl
  | cons a as ih =>
    obtain ⟨o, m₁, os', hs, hr', -⟩ := run_cons.mp hr
    obtain ⟨e₀, -, hext⟩ := h.extends_apply hs
    have hlt := hext.length_lt.resolve_left (hp.1 o m₁ hs)
    have hle := ih hext.proper hr' (hp.2 o m₁ hs)
    rw [List.length_cons]
    omega

theorem exists_saturated_or (m : Memo) (k : ℕ) :
    (∃ as os m', run apply m as = some (os, m') ∧ m'.Saturated) ∨
      ∃ as os m', run apply m as = some (os, m') ∧ Along apply Productive m as ∧ as.length = k := by
  induction k with
  | zero => exact Or.inr ⟨[], [], m, rfl, trivial, rfl⟩
  | succ k ih =>
    obtain hsat | ⟨as, os, m', hr, hp, hk⟩ := ih
    · exact Or.inl hsat
    · by_cases hsat : m'.Saturated
      · exact Or.inl ⟨as, os, m', hr, hsat⟩
      · simp only [Saturated, not_forall] at hsat
        obtain ⟨a, o, m'', hs, hne⟩ := hsat
        refine Or.inr ⟨as ++ [a], os ++ [o], m'', run_concat.mpr ⟨m', os, o, hr, hs, rfl⟩,
          along_concat.mpr ⟨hp, fun os₁ m₁ hr₁ ↦ ?_⟩, by simp [hk]⟩
        obtain ⟨-, rfl⟩ := Prod.mk.inj (Option.some.inj (hr₁.symm.trans hr))
        intro o₁ m₂ hs₁
        obtain ⟨-, rfl⟩ := Prod.mk.inj (Option.some.inj (hs₁.symm.trans hs))
        exact hne

/-- **Explorations end.**  Whatever plans have been inserted and whatever rules have been applied
to them so far, with fewer than `2 ^ 32` groups, and whichever rule is applied to whichever
expression from here on: at most three applications for each join of the memo add anything, so
after that many there is no application left that does, and a memo where there is none can be
reached. -/
theorem explorations_end {xs : List Move} {os : List (List (GroupExpression × GroupId))}
    (hr : run move {} xs = some (os, m)) (hlt : m.groups.length < 2 ^ 32) :
    (∀ as os' m', run apply m as = some (os', m') → Along apply Productive m as →
        as.length ≤ 3 * m.joins ∧ (as.length = 3 * m.joins → m'.Saturated)) ∧
      ∃ as os' m', run apply m as = some (os', m') ∧ m'.Saturated := by
  have hproper : m.Proper := ⟨consistent_of_run hr, hlt⟩
  have hbound : ∀ as os' m', run apply m as = some (os', m') → Along apply Productive m as →
      as.length ≤ 3 * m.joins := fun as os' m' ha hp ↦ by
    have hle := length_add_le_of_productive hproper ha hp
    have hle' := length_le_of_run hproper ha
    omega
  refine ⟨fun as os' m' ha hp ↦ ⟨hbound as os' m' ha hp, fun hlen a o m'' hs ↦ ?_⟩, ?_⟩
  · by_contra hne
    have hle := hbound (as ++ [a]) (os' ++ [o]) m'' (run_concat.mpr ⟨m', os', o, ha, hs, rfl⟩)
      (along_concat.mpr ⟨hp, fun os₁ m₁ hr₁ o₁ m₂ hs₁ ↦ by
        obtain ⟨-, rfl⟩ := Prod.mk.inj (Option.some.inj (hr₁.symm.trans ha))
        obtain ⟨-, rfl⟩ := Prod.mk.inj (Option.some.inj (hs₁.symm.trans hs))
        exact hne⟩)
    rw [List.length_append, hlen, List.length_singleton] at hle
    omega
  · obtain hsat | ⟨as, os', m', ha, hp, hk⟩ := exists_saturated_or m (3 * m.joins + 1)
    · exact hsat
    · have hle := hbound as os' m' ha hp
      omega

/-- One join: the rules add the commuted join, and two hash joins. -/
theorem explorations_end_one :
    ∃ os m, run move {} [.insertExpression (join 1 2) 0] = some (os, m) ∧
      (∀ as os' m', run apply m as = some (os', m') → Along apply Productive m as →
        as.length ≤ 3 ∧ (as.length = 3 → m'.Saturated)) ∧
      ∃ as os' m', run apply m as = some (os', m') ∧ m'.Saturated := by
  have hr : run move {} [.insertExpression (join 1 2) 0] =
    some ([[(join 1 2, 1)]], ({} : Memo).openGroup.add (join 1 2) 1) := rfl
  obtain ⟨hends, hreaches⟩ := explorations_end hr (by decide)
  exact ⟨_, _, hr, hends, hreaches⟩

/-! ## The order makes no difference -/

/-- No two of the plans that there may come to be have the same hash. -/
def Discernible (m : Memo) : Prop :=
  ∀ e ∈ m.expressions, ∀ e' ∈ m.expressions, ∀ p ∈ variants e.plan, ∀ q ∈ variants e'.plan,
    computeHash p.1 p.2 = computeHash q.1 q.2 → p = q

theorem Proper.insertAll_isSome (h : m.Proper) (hi : i < m.groups.length)
    (exprs : List GroupExpression) : ∃ o m', insertAll (.ofNat (i + 1)) exprs m = some (o, m') := by
  induction exprs generalizing m with
  | nil => exact ⟨[], m, rfl⟩
  | cons expr exprs ih =>
    obtain ⟨id, m₁, hs₁⟩ := h.consistent.insertExpression_isSome expr
      (Or.inr ⟨m.groups[i], List.getElem_mem hi,
        h.consistent.id_eq i _ (List.getElem?_eq_getElem hi)⟩)
    have h₁ := h.extends_insertExpression hi hs₁
    obtain ⟨o, m', hs⟩ := ih h₁.proper (h₁.length_eq ▸ hi)
    exact ⟨_, m', insertAll_cons.mpr ⟨id, m₁, o, hs₁, hs, rfl⟩⟩

theorem exprMap_mono_insertAll {targetGroup : GroupId} {h : UInt64}
    (hs : insertAll targetGroup exprs m = some (o, m')) (he : m.exprMap h = some e) :
    m'.exprMap h = some e := by
  induction exprs generalizing m o with
  | nil =>
    cases hs
    exact he
  | cons expr exprs ih =>
    obtain ⟨id, m₁, o', hs₁, hs₂, -⟩ := insertAll_cons.mp hs
    exact ih hs₂ (exprMap_mono hs₁ he)

theorem known_of_insertAll {targetGroup : GroupId}
    (hs : insertAll targetGroup exprs m = some (o, m')) (hmem : expr ∈ exprs) : ∃ e, m'.exprMap expr.hash = some e := by
  induction exprs generalizing m o with
  | nil => exact absurd hmem List.not_mem_nil
  | cons expr' exprs ih =>
    obtain ⟨id, m₁, o', hs₁, hs₂, -⟩ := insertAll_cons.mp hs
    rcases List.mem_cons.mp hmem with rfl | hmem
    · obtain ⟨e, he, -⟩ := exprMap_of_inserted hs₁
      exact ⟨e, exprMap_mono_insertAll hs₂ he⟩
    · exact ih hs₂ hmem

/-- In a saturated memo the rules lead nowhere new. -/
theorem Saturated.closed (hsat : m.Saturated) (h : m.Proper) (hp : m.HoldsPlan i p)
    (hrw : Rewrites p q) (hdistinct : ∀ e ∈ m.expressions,
      computeHash e.plan.1 e.plan.2 = computeHash q.1 q.2 → e.plan = q) :
    ∃ j, m.HoldsPlan j q := by
  obtain ⟨e, ⟨g, hg, he⟩, rfl⟩ := hp
  let e' : GroupExpression := { opType := q.1, children := q.2 }
  have hrw : Rewrites e.plan e'.plan := hrw
  obtain ⟨rule, hrule, hmatch, e₁, he₁, heq⟩ := rewrites_iff.mp hrw
  obtain ⟨r, hr⟩ := List.mem_iff_getElem?.mp hrule
  obtain ⟨k, hk⟩ := List.mem_iff_getElem?.mp he
  -- applying the rule there changes nothing, so what it makes is known
  have hi := (List.getElem?_eq_some_iff.mp hg).1
  obtain ⟨o, m', hs⟩ := h.insertAll_isSome hi (rule.transform e)
  rw [← h.consistent.id_eq i g hg] at hs
  obtain rfl := hsat ⟨r, i, k⟩ o m' (apply_eq_some.mpr ⟨rule, g, e, hr, hg, hk, hmatch, hs⟩)
  obtain ⟨e₂, he₂⟩ := known_of_insertAll hs he₁
  obtain ⟨hhash, j, hj⟩ := h.consistent.of_exprMap _ e₂ he₂
  refine ⟨j, e₂, hj, hdistinct e₂ ?_ ?_⟩
  · obtain ⟨g₂, hg₂, he₂⟩ := hj
    exact List.mem_flatMap.mpr ⟨g₂, List.mem_of_getElem? hg₂, he₂⟩
  · calc computeHash e₂.opType e₂.children
        = e₂.hash := e₂.hash_eq.symm
      _ = e₁.hash := hhash
      _ = computeHash e₁.plan.1 e₁.plan.2 := e₁.hash_eq
      _ = computeHash q.1 q.2 := by rw [heq]; rfl

/-- Where the rules lead nowhere new, the memo is saturated. -/
theorem saturated_of_known (h : ∀ e ∈ m.expressions, ∀ rule ∈ Optimizer.create.rules,
    rule.isMatch e → ∀ e₁ ∈ rule.transform e, (m.exprMap e₁.hash).isSome) : m.Saturated := by
  intro a o m' hs
  obtain ⟨rule, g, e, hrule, hg, he, hmatch, hall⟩ := apply_eq_some.mp hs
  have hknown := h e (List.mem_flatMap.mpr ⟨g, List.mem_of_getElem? hg, List.mem_of_getElem? he⟩)
    rule (List.mem_of_getElem? hrule) hmatch
  clear hmatch hs
  generalize rule.transform e = exprs at hall hknown
  induction exprs generalizing o with
  | nil =>
    cases hall
    rfl
  | cons e₁ exprs ih =>
    obtain ⟨id, m₁, o', hs₁, hs₂, -⟩ := insertAll_cons.mp hall
    obtain ⟨e₂, he₂⟩ := Option.isSome_iff_exists.mp (hknown e₁ List.mem_cons_self)
    rw [insertExpression_of_known he₂] at hs₁
    obtain ⟨-, rfl⟩ := Prod.mk.inj (Option.some.inj hs₁)
    exact ih o' hs₂ fun e' he' ↦ hknown e' (List.mem_cons_of_mem _ he')

/-- What is in each group of a saturated memo. -/
theorem Saturated.holdsPlan_iff (hsat : m'.Saturated) (h : m.Proper) (hd : m.Discernible)
    {as : List Application} {os : List (List (GroupExpression × GroupId))}
    (hr : run apply m as = some (os, m')) :
    m'.HoldsPlan i p ↔ Spread Rewrites m.HoldsPlan i p := by
  obtain ⟨hproper, -, hholds, hspread⟩ := run_apply_extends h hr
  have hspread' : ∀ {i p}, m'.HoldsPlan i p → Spread Rewrites m.HoldsPlan i p := by
    rintro i p ⟨e, he, rfl⟩
    exact hspread i e he
  refine Spread.iff_of_closed (fun _ _ _ ↦ Rewrites.unique)
    (fun _ _ _ ↦ h.consistent.eq_of_holdsPlan) ?_ hspread' fun {i p q} hp hrw ↦ ?_
  · rintro i p ⟨e, he, hp⟩
    exact ⟨e, hholds i e he, hp⟩
  · refine hsat.closed hproper hp hrw fun e he heq ↦ ?_
    obtain ⟨e₀, he₀, hq⟩ := exists_mem_variants (hspread' hp)
    obtain ⟨j, hj⟩ := Memo.holdsPlan_iff.mpr (List.mem_map_of_mem he)
    obtain ⟨e₁, he₁, hp₁⟩ := exists_mem_variants (hspread' hj)
    exact hd e₁ he₁ e₀ he₀ _ hp₁ _ (hrw.mem_variants hq) heq

/-- **The order makes no difference.**  Whatever has been inserted and applied so far, with fewer
than `2 ^ 32` groups: if two optimizers go on until no application adds anything any more, each in
an order of its own, then each group has the same plans with both, unless two of the plans that the
rules lead to have the same hash. -/
theorem confluent {xs : List Move} {os os₁ os₂ : List (List (GroupExpression × GroupId))}
    {as₁ as₂ : List Application} (hr : run move {} xs = some (os, m))
    (hlt : m.groups.length < 2 ^ 32) (hd : m.Discernible)
    (hr₁ : run apply m as₁ = some (os₁, m₁)) (hsat₁ : m₁.Saturated)
    (hr₂ : run apply m as₂ = some (os₂, m₂)) (hsat₂ : m₂.Saturated) (i : ℕ) (p : OperatorPlan) :
    m₁.HoldsPlan i p ↔ m₂.HoldsPlan i p := by
  have h : m.Proper := ⟨consistent_of_run hr, hlt⟩
  rw [hsat₁.holdsPlan_iff h hd hr₁, hsat₂.holdsPlan_iff h hd hr₂]

/-- The hash join of two groups. -/
def hashJoin (left right : GroupId) : GroupExpression :=
  { opType := .physicalHashJoin, children := [left, right] }

/-- One join, which one optimizer commutes first and the other one later. -/
theorem confluent_one :
    ∃ os m os₁ m₁ os₂ m₂, run move {} [.insertExpression (join 1 2) 0] = some (os, m) ∧
      run apply m [⟨0, 0, 0⟩, ⟨1, 0, 0⟩, ⟨1, 0, 1⟩] = some (os₁, m₁) ∧
      run apply m [⟨1, 0, 0⟩, ⟨0, 0, 0⟩, ⟨1, 0, 2⟩] = some (os₂, m₂) ∧
      (m₁.HoldsPlan 0 (.physicalHashJoin, [2, 1]) ↔
        m₂.HoldsPlan 0 (.physicalHashJoin, [2, 1])) := by
  let m := ({} : Memo).openGroup.add (join 1 2) 1
  have hr : run move {} [.insertExpression (join 1 2) 0] = some ([[(join 1 2, 1)]], m) := rfl
  have hd : m.Discernible := by
    rw [Discernible]
    decide
  have hr₁ : run apply m [⟨0, 0, 0⟩, ⟨1, 0, 0⟩, ⟨1, 0, 1⟩] =
    some ([[(join 2 1, 1)], [(hashJoin 1 2, 1)], [(hashJoin 2 1, 1)]],
      ((m.add (join 2 1) 1).add (hashJoin 1 2) 1).add (hashJoin 2 1) 1) := by
    with_unfolding_all rfl
  have hr₂ : run apply m [⟨1, 0, 0⟩, ⟨0, 0, 0⟩, ⟨1, 0, 2⟩] =
    some ([[(hashJoin 1 2, 1)], [(join 2 1, 1)], [(hashJoin 2 1, 1)]],
      ((m.add (hashJoin 1 2) 1).add (join 2 1) 1).add (hashJoin 2 1) 1) := by
    with_unfolding_all rfl
  exact ⟨_, _, _, _, _, _, hr, hr₁, hr₂, confluent hr (by decide) hd
    hr₁ (saturated_of_known (by decide)) hr₂ (saturated_of_known (by decide)) 0 _⟩

end Memo

end StingDB
