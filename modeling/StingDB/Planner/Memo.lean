import Mathlib.Algebra.Group.Nat.Defs
import Mathlib.Data.Finset.Card
import Mathlib.Logic.Function.Basic
import StingDB.Lib.Machine

/-!
# The memo

`sql/planner/memo.h`: the groups of equivalent plans, and a map by which a plan that is there
already is found again.

The map is keyed by the hash of a plan, and a plan with a known hash is taken for the one that is
there without being compared with it.  `exact_iff_distinguished` says what that costs: plans get the
same group exactly when they are the same as long as no two of them have the same hash, and there
are no more groups than a `GroupId` can number.  `collision` has two plans of one child each with
the same hash.

`std::hash` of an integer is the integer.
-/

set_option autoImplicit false

namespace StingDB

open Machine

/-- `OperatorType` -/
inductive OperatorType where
  | logicalGet
  | logicalFilter
  | logicalJoin
  | logicalAggregation
  | physicalSeqScan
  | physicalIndexScan
  | physicalHashJoin
  | physicalNestedLoopJoin
  deriving DecidableEq

/-- `static_cast<int>` -/
def OperatorType.toInt : OperatorType → UInt64
  | .logicalGet => 0
  | .logicalFilter => 1
  | .logicalJoin => 2
  | .logicalAggregation => 3
  | .physicalSeqScan => 4
  | .physicalIndexScan => 5
  | .physicalHashJoin => 6
  | .physicalNestedLoopJoin => 7

/-- `GroupId`, a `uint32_t`. -/
abbrev GroupId := UInt32

/-! ## Expressions -/

/-- `ComputeHash` -/
def computeHash (opType : OperatorType) (children : List GroupId) : UInt64 :=
  children.foldl
    (fun h child ↦ h ^^^ (child.toUInt64 + (0x9e3779b9 : UInt64) + (h <<< 6) + (h >>> 2)))
    opType.toInt

/-- `GroupExpression` -/
structure GroupExpression where
  /-- `op_type_` -/
  opType : OperatorType
  /-- `children_` -/
  children : List GroupId
  /-- `hash_`, which the constructor computes. -/
  hash : UInt64 := computeHash opType children
  /-- `target_group_id_` -/
  targetGroupId : GroupId := 0
  hash_eq : hash = computeHash opType children := by rfl

namespace GroupExpression

/-- `SetGroupId` -/
def setGroupId (e : GroupExpression) (id : GroupId) : GroupExpression :=
  { e with targetGroupId := id }

/-- What an exact copy of the expression has in common with it. -/
def plan (e : GroupExpression) : OperatorType × List GroupId := (e.opType, e.children)

theorem hash_eq_of_plan_eq {e e' : GroupExpression} (h : e.plan = e'.plan) : e.hash = e'.hash := by
  obtain ⟨hop, hchildren⟩ := Prod.mk.inj h
  rw [e.hash_eq, e'.hash_eq, hop, hchildren]

end GroupExpression

/-! ## The memo -/

/-- `Group` -/
structure Group where
  /-- `id_` -/
  id : GroupId
  /-- `logical_expressions_` -/
  logicalExpressions : List GroupExpression := []

/-- `AddExpression` -/
def Group.addExpression (g : Group) (expr : GroupExpression) : Group :=
  { g with logicalExpressions := g.logicalExpressions ++ [expr] }

/-- `Memo` -/
structure Memo where
  /-- `groups_` -/
  groups : List Group := []
  /-- `expr_map_` -/
  exprMap : UInt64 → Option GroupExpression := fun _ ↦ none

namespace Memo

/-- `InsertExpression`: the group and the memo.  `none` if `groups_` is indexed out of bounds. -/
def insertExpression (m : Memo) (expr : GroupExpression) (targetGroup : GroupId) :
    Option (GroupId × Memo) :=
  match m.exprMap expr.hash with
  | some e => some (e.targetGroupId, m)
  | none =>
    let newGroup : GroupId := .ofNat (m.groups.length + 1)
    let assignedGroup := if targetGroup = 0 then newGroup else targetGroup
    let groups := if targetGroup = 0 then m.groups ++ [⟨newGroup, []⟩] else m.groups
    let expr := expr.setGroupId assignedGroup
    let index := (assignedGroup - 1).toNat
    if index < groups.length then
      some (assignedGroup,
        { groups := groups.modify index (·.addExpression expr)
          exprMap := Function.update m.exprMap expr.hash (some expr) })
    else none

/-- `InsertExpression(expr)` -/
def step (m : Memo) (expr : GroupExpression) : Option (GroupId × Memo) := m.insertExpression expr 0

/-- Any two calls of a run have returned the same group if and only if their plans are the same. -/
def Exact (es : List GroupExpression) (ids : List GroupId) : Prop :=
  ∀ c ∈ es.zip ids, ∀ c' ∈ es.zip ids, c.2 = c'.2 ↔ c.1.plan = c'.1.plan

/-- No two different plans have the same hash, and there are no more plans than group ids. -/
def Distinguished (es : List GroupExpression) : Prop :=
  (∀ e ∈ es, ∀ e' ∈ es, e.hash = e'.hash → e.plan = e'.plan) ∧
    (es.map GroupExpression.plan).toFinset.card ≤ 2 ^ 32

/-! ## The groups are numbered by the hashes -/

/-- The group of a hash, when `keys` are the different hashes so far, in the order they came. -/
def groupOf (keys : List UInt64) (h : UInt64) : GroupId := .ofNat (keys.idxOf h + 1)

theorem groupOf_append {keys : List UInt64} {h : UInt64} (hmem : h ∈ keys) (h' : UInt64) :
    groupOf (keys ++ [h']) h = groupOf keys h := by
  rw [groupOf, List.idxOf_append_of_mem hmem, groupOf]

theorem groupOf_append_self {keys : List UInt64} {h : UInt64} (hmem : h ∉ keys) :
    groupOf (keys ++ [h]) h = .ofNat (keys.length + 1) := by
  rw [groupOf, List.idxOf_append_of_notMem hmem, List.idxOf_cons_self, Nat.add_zero]

/-- Up to `2 ^ 32` hashes have different groups. -/
theorem groupOf_injOn {keys : List UInt64} (hlen : keys.length ≤ 2 ^ 32) {h h' : UInt64}
    (hmem : h ∈ keys) (hmem' : h' ∈ keys) (heq : groupOf keys h = groupOf keys h') : h = h' := by
  have hlt := List.idxOf_lt_length_of_mem hmem
  have hlt' := List.idxOf_lt_length_of_mem hmem'
  have hnat := congrArg UInt32.toNat heq
  rw [groupOf, groupOf, UInt32.toNat_ofNat', UInt32.toNat_ofNat'] at hnat
  exact (List.idxOf_inj hmem).mp (by omega)

/-- What the map and the groups say of the hashes so far. -/
structure Numbered (m : Memo) (keys : List UInt64) : Prop where
  nodup : keys.Nodup
  length_eq : m.groups.length = keys.length
  exprMap_of_notMem : ∀ h, h ∉ keys → m.exprMap h = none
  exprMap_of_mem : ∀ h ∈ keys, ∃ e, m.exprMap h = some e ∧ e.targetGroupId = groupOf keys h

/-- A new group is indexed by its own id. -/
theorem newGroup_index_lt (n : ℕ) : ((UInt32.ofNat (n + 1)) - 1).toNat < n + 1 := by
  rw [UInt32.ofNat_add, show UInt32.ofNat 1 = 1 from rfl, UInt32.add_sub_cancel,
    UInt32.toNat_ofNat']
  exact Nat.lt_succ_of_le (Nat.mod_le _ _)

/-- A plan with a new hash gets a new group. -/
theorem step_of_new {m : Memo} {expr : GroupExpression} (hnone : m.exprMap expr.hash = none) :
    ∃ m', m.step expr = some (.ofNat (m.groups.length + 1), m') ∧
      m'.groups.length = m.groups.length + 1 ∧
      m'.exprMap = Function.update m.exprMap expr.hash
        (some (expr.setGroupId (.ofNat (m.groups.length + 1)))) := by
  have hindex := newGroup_index_lt m.groups.length
  rw [step, insertExpression, hnone]
  simp only [if_true, List.length_append, List.length_singleton]
  rw [if_pos hindex]
  exact ⟨_, rfl, by simp, rfl⟩

theorem Numbered.step {m : Memo} {keys : List UInt64} (h : m.Numbered keys)
    (expr : GroupExpression) : ∃ m' keys', m.step expr = some (groupOf keys' expr.hash, m') ∧
      m'.Numbered keys' ∧ (∀ k, k ∈ keys' ↔ k ∈ keys ∨ k = expr.hash) ∧
      ∀ k ∈ keys, groupOf keys' k = groupOf keys k := by
  by_cases hmem : expr.hash ∈ keys
  · obtain ⟨e, he, hid⟩ := h.exprMap_of_mem _ hmem
    refine ⟨m, keys, ?_, h, fun k ↦ ⟨Or.inl, ?_⟩, fun k _ ↦ rfl⟩
    · rw [Memo.step, insertExpression, he]
      dsimp only
      rw [hid]
    · rintro (hk | rfl)
      · exact hk
      · exact hmem
  · obtain ⟨m', hs, hlen, hmap⟩ := step_of_new (h.exprMap_of_notMem _ hmem)
    rw [h.length_eq, ← groupOf_append_self hmem] at hs
    refine ⟨m', keys ++ [expr.hash], hs, ⟨?_, ?_, fun k hk ↦ ?_, fun k hk ↦ ?_⟩, fun k ↦ by simp,
      fun k hk ↦ groupOf_append hk _⟩
    · exact List.nodup_append.mpr ⟨h.nodup, List.nodup_singleton _, by
        rintro k hk _ hk' rfl
        exact hmem (List.mem_singleton.mp hk' ▸ hk)⟩
    · simp [hlen, h.length_eq]
    · rw [List.mem_append, List.mem_singleton, not_or] at hk
      rw [hmap, Function.update_of_ne hk.2, h.exprMap_of_notMem k hk.1]
    · rw [hmap]
      by_cases hself : k = expr.hash
      · subst hself
        refine ⟨_, Function.update_self .., ?_⟩
        rw [groupOf_append_self hmem, ← h.length_eq]
        rfl
      · have hold : k ∈ keys := by simpa [hself] using hk
        obtain ⟨e, he, hid⟩ := h.exprMap_of_mem k hold
        exact ⟨e, (Function.update_of_ne hself ..).trans he,
          hid.trans (groupOf_append hold _).symm⟩

/-- **What a run returns**: for each expression, the group of its hash. -/
theorem numbered_of_run (es : List GroupExpression) :
    ∃ m keys, run step {} es = some (es.map fun e ↦ groupOf keys e.hash, m) ∧ m.Numbered keys ∧
      ∀ k, k ∈ keys ↔ k ∈ es.map GroupExpression.hash := by
  induction es using List.reverseRecOn with
  | nil =>
    refine ⟨{}, [], rfl, ⟨List.nodup_nil, rfl, fun _ _ ↦ rfl, ?_⟩, fun k ↦ Iff.rfl⟩
    exact fun k hk ↦ absurd hk List.not_mem_nil
  | append_singleton es expr ih =>
    obtain ⟨m, keys, hr, h, hkeys⟩ := ih
    obtain ⟨m', keys', hs, h', hkeys', hsame⟩ := h.step expr
    refine ⟨m', keys', ?_, h', fun k ↦ by simp [hkeys', hkeys]⟩
    have hold : es.map (fun e ↦ groupOf keys e.hash) = es.map fun e ↦ groupOf keys' e.hash :=
      List.map_congr_left fun e he ↦ (hsame _ ((hkeys _).mpr (List.mem_map_of_mem he))).symm
    rw [hold] at hr
    rw [List.map_append]
    exact run_concat.mpr ⟨m, _, _, hr, hs, rfl⟩

/-! ## When the groups are right -/

theorem exact_map_iff {es : List GroupExpression} {f : GroupExpression → GroupId} :
    Exact es (es.map f) ↔ ∀ e ∈ es, ∀ e' ∈ es, f e = f e' ↔ e.plan = e'.plan := by
  have hzip : es.zip (es.map f) = es.map fun e ↦ (e, f e) := by
    rw [← List.zip_map', List.map_id']
  rw [Exact, hzip]
  simp only [List.forall_mem_map]

/-- Where the groups are right, they number the plans. -/
theorem Exact.card_le {es : List GroupExpression} {keys : List UInt64}
    (h : Exact es (es.map fun e ↦ groupOf keys e.hash)) :
    (es.map GroupExpression.plan).toFinset.card ≤ 2 ^ 32 := by
  have hinj := exact_map_iff.mp h
  let number : OperatorType × List GroupId → ℕ := fun p ↦ (groupOf keys (computeHash p.1 p.2)).toNat
  have hnumber : ∀ e : GroupExpression, number e.plan = (groupOf keys e.hash).toNat := by
    intro e
    rw [e.hash_eq]
    rfl
  calc (es.map GroupExpression.plan).toFinset.card
      ≤ (Finset.range (2 ^ 32)).card := by
        refine Finset.card_le_card_of_injOn number (fun p _ ↦ ?_) ?_
        · exact Finset.mem_coe.mpr (Finset.mem_range.mpr (UInt32.toNat_lt _))
        · intro p hp p' hp' heq
          obtain ⟨e, he, rfl⟩ := List.mem_map.mp (List.mem_toFinset.mp hp)
          obtain ⟨e', he', rfl⟩ := List.mem_map.mp (List.mem_toFinset.mp hp')
          rw [hnumber, hnumber] at heq
          exact (hinj e he e' he').mp (UInt32.toNat_inj.mp heq)
    _ = 2 ^ 32 := Finset.card_range _

/-- There are no more hashes than plans. -/
theorem length_keys_le {es : List GroupExpression} {keys : List UInt64} (hnodup : keys.Nodup)
    (hkeys : ∀ k, k ∈ keys → k ∈ es.map GroupExpression.hash) :
    keys.length ≤ (es.map GroupExpression.plan).toFinset.card := by
  rw [← List.toFinset_card_of_nodup hnodup]
  refine (Finset.card_le_card ?_).trans
    (Finset.card_image_le (f := fun p : OperatorType × List GroupId ↦ computeHash p.1 p.2))
  intro k hk
  obtain ⟨e, he, rfl⟩ := List.mem_map.mp (hkeys k (List.mem_toFinset.mp hk))
  exact Finset.mem_image.mpr
    ⟨e.plan, List.mem_toFinset.mpr (List.mem_map_of_mem he), e.hash_eq.symm⟩

/-- **The deduplication, over every run.**  Every sequence of insertions returns groups, and any two
of its insertions return the same group exactly if their plans are the same, if and only if no two
different plans of the sequence have the same hash and there are at most `2 ^ 32` of them. -/
theorem exact_iff_distinguished (es : List GroupExpression) :
    ∃ ids m, run step {} es = some (ids, m) ∧ (Exact es ids ↔ Distinguished es) := by
  obtain ⟨m, keys, hr, hnum, hkeys⟩ := numbered_of_run es
  refine ⟨_, m, hr, fun h ↦ ⟨fun e he e' he' heq ↦ ?_, h.card_le⟩, fun h ↦ ?_⟩
  · exact (exact_map_iff.mp h e he e' he').mp (by rw [heq])
  · refine exact_map_iff.mpr fun e he e' he' ↦ ⟨fun heq ↦ ?_, fun heq ↦ ?_⟩
    · refine h.1 e he e' he' (groupOf_injOn ((length_keys_le hnum.nodup ?_).trans h.2) ?_ ?_ heq)
      · exact fun k ↦ (hkeys k).mp
      · exact (hkeys _).mpr (List.mem_map_of_mem he)
      · exact (hkeys _).mpr (List.mem_map_of_mem he')
    · rw [GroupExpression.hash_eq_of_plan_eq heq]

/-- A scan of group 66 and a filter of group 1 have the same hash: the filter is taken for the
scan. -/
theorem collision :
    ∃ m, run step {} [{ opType := .logicalGet, children := [66] },
        { opType := .logicalFilter, children := [1] }] = some ([1, 1], m) :=
  ⟨_, rfl⟩

end Memo

end StingDB
