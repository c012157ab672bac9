import StingDB.Planner.Exploration

/-!
# What the groups stand for

A group is said to hold equivalent plans.  `Memo.Denotes` is what a group stands for once the
operators have been given a meaning: a result of an expression of the group, for results of the
groups that are its children, over all plans that can be read out of the memo.

For a meaning where a join commutes and a hash join is a join, the rules change nothing that any
group stands for (`denotes_iff_of_run`), and every group stands for one result at most, which is
that of each of its plans (`denotes_unique`).  Neither depends on the hashes: a plan that is taken
for another one because of its hash is not inserted, so nothing wrong gets into a group.

Both are about memos of fewer than `2 ^ 32` groups, whose numbers are different.

`not_denotes_physical` is about what the rules do not lead to: a plan with physical operators only.
-/

set_option autoImplicit false

namespace StingDB

open Machine

namespace Memo

variable {R : Type*}

/-- What a group stands for, where `eval` is what the operators compute. -/
inductive Denotes (m : Memo) (eval : OperatorType → List R → R) : GroupId → R → Prop where
  | of {i : ℕ} {e : GroupExpression} {rs : List R} (he : m.Holds i e)
    (hlen : e.children.length = rs.length)
    (h : ∀ x ∈ e.children.zip rs, Denotes m eval x.1 x.2) :
    Denotes m eval (.ofNat (i + 1)) (eval e.opType rs)

/-- The plan has this result, for some of the results that `P` allows its children. -/
def Yields (eval : OperatorType → List R → R) (P : GroupId → R → Prop) (p : OperatorPlan) (r : R) :
    Prop :=
  ∃ rs, p.2.length = rs.length ∧ (∀ x ∈ p.2.zip rs, P x.1 x.2) ∧ eval p.1 rs = r

/-- Whatever the groups stand for, the two plans have the same results. -/
def Agree (eval : OperatorType → List R → R) (p q : OperatorPlan) : Prop :=
  ∀ P r, Yields eval P p r ↔ Yields eval P q r

/-- What the two rules take for granted: a join commutes, and a hash join is a join. -/
structure Respects (eval : OperatorType → List R → R) : Prop where
  comm : ∀ r r', eval .logicalJoin [r, r'] = eval .logicalJoin [r', r]
  hashJoin : ∀ rs, eval .physicalHashJoin rs = eval .logicalJoin rs

variable {eval : OperatorType → List R → R} {P Q : GroupId → R → Prop} {p q : OperatorPlan}
  {r r' : R} {m m' : Memo} {id : GroupId} {i : ℕ} {o : List (GroupExpression × GroupId)}

theorem denotes_iff : m.Denotes eval id r ↔
    ∃ i e, id = .ofNat (i + 1) ∧ m.Holds i e ∧ Yields eval (m.Denotes eval) e.plan r := by
  constructor
  · rintro ⟨he, hlen, h⟩
    exact ⟨_, _, rfl, he, _, hlen, h, rfl⟩
  · rintro ⟨i, e, rfl, he, rs, hlen, h, rfl⟩
    exact .of he hlen h

theorem Yields.mono (h : Yields eval P p r) (hPQ : ∀ id r, P id r → Q id r) :
    Yields eval Q p r := by
  obtain ⟨rs, hlen, hrs, hr⟩ := h
  exact ⟨rs, hlen, fun x hx ↦ hPQ _ _ (hrs x hx), hr⟩

theorem Yields.commute (h : Respects eval) {left right : GroupId}
    (hy : Yields eval P (.logicalJoin, [left, right]) r) :
    Yields eval P (.logicalJoin, [right, left]) r := by
  obtain ⟨rs, hlen, hrs, rfl⟩ := hy
  obtain ⟨r₁, r₂, rfl⟩ := List.length_eq_two.mp hlen.symm
  refine ⟨[r₂, r₁], rfl, fun x hx ↦ hrs x ?_, h.comm _ _⟩
  simp only [List.zip_cons_cons, List.mem_cons] at hx ⊢
  tauto

/-- **Each rule preserves results.** -/
theorem agree_of_rewrites (h : Respects eval) (hrw : Rewrites p q) : Agree eval p q := by
  intro P r
  cases hrw with
  | commute left right => exact ⟨.commute h, .commute h⟩
  | hashJoin children =>
    simp only [Yields, h.hashJoin]

/-- So does any number of applications. -/
theorem exists_agree (h : Respects eval) (hs : Spread Rewrites m.HoldsPlan i p) :
    ∃ e, m.Holds i e ∧ Agree eval e.plan p := by
  induction hs with
  | held hp =>
    obtain ⟨e, he, rfl⟩ := hp
    exact ⟨e, he, fun _ _ ↦ Iff.rfl⟩
  | step _ hrw _ ih =>
    obtain ⟨e, he, hag⟩ := ih
    exact ⟨e, he, fun P r ↦ (hag P r).trans (agree_of_rewrites h hrw P r)⟩

theorem Denotes.mono (h : m.Denotes eval id r) (hm : ∀ i e, m.Holds i e → m'.Holds i e) :
    m'.Denotes eval id r := by
  induction h with
  | of he hlen _ ih => exact .of (hm _ _ he) hlen ih

/-- **The rules preserve what the groups stand for.**  Whatever plans have been inserted, with any
targets, and whatever rules applied to them, with fewer than `2 ^ 32` groups: applying further
rules, in any order and anywhere, adds no result to what a group stands for and takes none away,
for operators of any meaning for which a join commutes and a hash join is a join. -/
theorem denotes_iff_of_run (h : Respects eval) {xs : List Move} {as : List Application}
    {os os' : List (List (GroupExpression × GroupId))} (hr : run move {} xs = some (os, m))
    (hlt : m.groups.length < 2 ^ 32) (ha : run apply m as = some (os', m')) :
    m'.Denotes eval id r ↔ m.Denotes eval id r := by
  obtain ⟨-, -, hholds, hspread⟩ := run_apply_extends ⟨consistent_of_run hr, hlt⟩ ha
  refine ⟨fun hd ↦ ?_, fun hd ↦ hd.mono hholds⟩
  induction hd with
  | @of i e rs he hlen _ ih =>
    -- an expression that was in the group before has the same result, for the same children
    obtain ⟨e₀, he₀, hag⟩ := exists_agree h (hspread i e he)
    have hy : Yields eval (m.Denotes eval) e.plan (eval e.opType rs) := ⟨rs, hlen, ih, rfl⟩
    exact denotes_iff.mpr ⟨i, e₀, rfl, he₀, (hag _ _).mpr hy⟩

/-- One join, and what the rules make of it. -/
theorem denotes_iff_of_run_one :
    ∃ os m os' m', run move {} [.insertExpression (join 1 2) 0] = some (os, m) ∧
      run apply m [⟨0, 0, 0⟩, ⟨1, 0, 0⟩] = some (os', m') ∧
      (m'.Denotes (fun _ rs ↦ rs.foldl Nat.add 0) 1 3 ↔
        m.Denotes (fun _ rs ↦ rs.foldl Nat.add 0) 1 3) := by
  let m := ({} : Memo).openGroup.add (join 1 2) 1
  have hr : run move {} [.insertExpression (join 1 2) 0] = some ([[(join 1 2, 1)]], m) := rfl
  have ha : run apply m [⟨0, 0, 0⟩, ⟨1, 0, 0⟩] =
    some ([[(join 2 1, 1)], [(hashJoin 1 2, 1)]],
      (m.add (join 2 1) 1).add (hashJoin 1 2) 1) := by
    with_unfolding_all rfl
  refine ⟨_, _, _, _, hr, ha, denotes_iff_of_run ⟨fun r r' ↦ ?_, fun _ ↦ rfl⟩ hr (by decide) ha⟩
  show Nat.add (Nat.add 0 r) r' = Nat.add (Nat.add 0 r') r
  rw [Nat.add_eq, Nat.add_eq, Nat.add_eq, Nat.add_eq]
  omega

/-! ## One result for each group -/

/-- The plans of a group have the same results. -/
def Coherent (eval : OperatorType → List R → R) (m : Memo) : Prop :=
  ∀ i e e', m.Holds i e → m.Holds i e' → Agree eval e.plan e'.plan

/-- Plans are inserted on their own. -/
def Plain : Move → Prop
  | .insertExpression _ targetGroup => targetGroup = 0
  | .apply _ => True

theorem Coherent.insertExpression (h : m.Coherent eval) {expr : GroupExpression}
    (hlt : m.groups.length < 2 ^ 32) (hs : m.insertExpression expr 0 = some (id, m')) :
    m'.Coherent eval := by
  rcases insertExpression_cases hs with ⟨-, -, -, rfl⟩ | ⟨-, ⟨-, rfl, rfl⟩ | ⟨h0, -⟩⟩
  · exact h
  · have hplace := place_zero (m := m)
    rw [place, if_pos rfl, Nat.mod_eq_of_lt hlt] at hplace
    have hindex : (UInt32.ofNat (m.groups.length + 1) - 1).toNat < m.openGroup.groups.length := by
      rw [hplace, length_openGroup]
      exact Nat.lt_succ_self _
    -- nothing was in the group that is new
    have hnone : ∀ e, ¬ m.Holds m.groups.length e := by
      rintro e ⟨g, hg, -⟩
      exact absurd (List.getElem?_eq_some_iff.mp hg).1 (lt_irrefl _)
    intro i e e' he he'
    rw [holds_add hindex, holds_openGroup, hplace] at he he'
    rcases he with he | ⟨rfl, rfl⟩ <;> rcases he' with he' | ⟨hi, rfl⟩
    · exact h i e e' he he'
    · exact absurd (hi ▸ he) (hnone e)
    · exact absurd he' (hnone e')
    · exact fun _ _ ↦ Iff.rfl
  · exact absurd rfl h0

theorem Coherent.apply (h : m.Coherent eval) (hrespects : Respects eval) (hproper : m.Proper)
    {a : Application} (hs : m.apply a = some (o, m')) : m'.Coherent eval := by
  obtain ⟨e₀, he₀, hext⟩ := hproper.extends_apply hs
  -- every expression agrees with one that was there
  have hold : ∀ i e, m'.Holds i e → ∃ e₁, m.Holds i e₁ ∧ Agree eval e₁.plan e.plan := by
    intro i e he
    rcases hext.origin i e he with he | ⟨rfl, hrw, -⟩
    · exact ⟨e, he, fun _ _ ↦ Iff.rfl⟩
    · exact ⟨e₀, he₀, agree_of_rewrites hrespects hrw⟩
  intro i e e' he he'
  obtain ⟨e₁, he₁, hag⟩ := hold i e he
  obtain ⟨e₂, he₂, hag'⟩ := hold i e' he'
  exact fun P r ↦ (hag P r).symm.trans ((h i e₁ e₂ he₁ he₂ P r).trans (hag' P r))

theorem Coherent.move (h : m.Coherent eval) (hrespects : Respects eval) (hproper : m.Proper)
    {x : Move} (hx : Plain x) (hs : m.move x = some (o, m')) : m'.Coherent eval := by
  cases x with
  | insertExpression expr targetGroup =>
    obtain rfl : targetGroup = 0 := hx
    obtain ⟨id, m₁, o', hs₁, hnil, -⟩ := insertAll_cons.mp hs
    cases hnil
    exact h.insertExpression hproper.length_lt hs₁
  | apply a => exact h.apply hrespects hproper hs

theorem coherent_of_run (hrespects : Respects eval) {xs : List Move}
    {os : List (List (GroupExpression × GroupId))} (hplain : ∀ x ∈ xs, Plain x)
    (hr : run move {} xs = some (os, m)) (hlt : m.groups.length < 2 ^ 32) : m.Coherent eval := by
  induction xs using List.reverseRecOn generalizing os m with
  | nil =>
    cases hr
    rintro i e e' ⟨g, hg, -⟩
    cases hg
  | append_singleton xs x ih =>
    obtain ⟨m₁, os₁, o, hr₁, hs, -⟩ := run_concat.mp hr
    have hc := consistent_of_run hr₁
    have hlt₁ := lt_of_le_of_lt (hc.grown_move hs).length_le hlt
    have hcoherent := ih (fun x hx ↦ hplain x (List.mem_append_left _ hx)) hr₁ hlt₁
    exact hcoherent.move hrespects ⟨hc, hlt₁⟩
      (hplain x (List.mem_append_right _ (List.mem_singleton_self x))) hs

theorem index_inj (hlt : m.groups.length < 2 ^ 32) {j : ℕ} {e e' : GroupExpression}
    (he : m.Holds i e) (he' : m.Holds j e') (hid : UInt32.ofNat (i + 1) = UInt32.ofNat (j + 1)) :
    i = j := by
  obtain ⟨g, hg, -⟩ := he
  obtain ⟨g', hg', -⟩ := he'
  have hnat := congrArg UInt32.toNat hid
  rw [toNat_groupId (List.getElem?_eq_some_iff.mp hg).1 hlt,
    toNat_groupId (List.getElem?_eq_some_iff.mp hg').1 hlt] at hnat
  exact Nat.succ.inj hnat

/-- Children with one result each have one list of results. -/
theorem results_eq {children : List GroupId} {rs rs' : List R} (hlen : children.length = rs.length)
    (hlen' : children.length = rs'.length)
    (h : ∀ x ∈ children.zip rs, ∀ r', P x.1 r' → x.2 = r')
    (h' : ∀ x ∈ children.zip rs', P x.1 x.2) : rs = rs' := by
  induction children generalizing rs rs' with
  | nil =>
    rw [List.length_eq_zero_iff.mp hlen.symm, List.length_eq_zero_iff.mp hlen'.symm]
  | cons child children ih =>
    obtain ⟨r, rs, rfl⟩ := List.exists_cons_of_length_eq_add_one hlen.symm
    obtain ⟨r', rs', rfl⟩ := List.exists_cons_of_length_eq_add_one hlen'.symm
    obtain rfl : r = r' :=
      h (child, r) List.mem_cons_self r' (h' (child, r') List.mem_cons_self)
    refine congrArg _ (ih (Nat.succ.inj hlen) (Nat.succ.inj hlen') (fun x hx ↦ ?_) fun x hx ↦ ?_)
    · exact h x (List.mem_cons_of_mem _ hx)
    · exact h' x (List.mem_cons_of_mem _ hx)

/-- **A group holds equivalent plans.**  Whatever plans are inserted, without a target (`Plain`: a
caller could put any plan into any group with one), and whatever rules are applied to them, in any
order, with fewer than `2 ^ 32` groups: two plans that can be read out of the memo for the same
group have the same result, for operators of any meaning for which a join commutes and a hash join
is a join. -/
theorem denotes_unique (hrespects : Respects eval) {xs : List Move}
    {os : List (List (GroupExpression × GroupId))} (hplain : ∀ x ∈ xs, Plain x)
    (hr : run move {} xs = some (os, m)) (hlt : m.groups.length < 2 ^ 32)
    (h : m.Denotes eval id r) (h' : m.Denotes eval id r') : r = r' := by
  have hcoherent := coherent_of_run hrespects hplain hr hlt
  induction h generalizing r' with
  | @of i e rs he hlen _ ih =>
    obtain ⟨j, e', hid, he', hy⟩ := denotes_iff.mp h'
    obtain rfl := index_inj hlt he he' hid
    obtain ⟨rs', hlen', hrs', rfl⟩ := (hcoherent _ _ _ he' he _ _).mp hy
    rw [results_eq hlen hlen' (fun x hx r' ↦ ih x hx) hrs']
    rfl

/-- A plan without children. -/
def leaf : GroupExpression := { opType := .logicalGet, children := [] }

/-- A leaf, and the join of it with itself. -/
theorem denotes_unique_two :
    ∃ os m, run move {} [.insertExpression leaf 0, .insertExpression (join 1 1) 0,
        .apply ⟨1, 1, 0⟩] = some (os, m) ∧
      ∀ r, m.Denotes (fun _ rs ↦ rs.length) 2 r → 2 = r := by
  let m₁ := (({} : Memo).openGroup.add leaf 1).openGroup.add (join 1 1) 2
  let m := m₁.add (hashJoin 1 1) 2
  have hr₁ : run move {} [.insertExpression leaf 0, .insertExpression (join 1 1) 0] =
    some ([[(leaf, 1)], [(join 1 1, 2)]], m₁) := rfl
  have hs : m₁.move (.apply ⟨1, 1, 0⟩) = some ([(hashJoin 1 1, 2)], m) := by
    simp only [move, apply, m₁, m]
    rfl
  have hr : run move {} [.insertExpression leaf 0, .insertExpression (join 1 1) 0,
      .apply ⟨1, 1, 0⟩] = some ([[(leaf, 1)], [(join 1 1, 2)], [(hashJoin 1 1, 2)]], m) :=
    run_concat.mpr ⟨m₁, _, _, hr₁, hs, rfl⟩
  have hplain : ∀ x ∈ [Move.insertExpression leaf 0, .insertExpression (join 1 1) 0,
      .apply ⟨1, 1, 0⟩], Plain x := by
    simp [Plain]
  have hleaf : m.Denotes (fun _ rs ↦ rs.length) 1 0 :=
    denotes_iff.mpr ⟨0, leaf.setGroupId 1, rfl, ⟨_, rfl, List.mem_cons_self⟩, [], rfl,
      fun x hx ↦ absurd hx List.not_mem_nil, rfl⟩
  have hjoin : m.Denotes (fun _ rs ↦ rs.length) 2 2 :=
    denotes_iff.mpr ⟨1, (join 1 1).setGroupId 2, rfl, ⟨_, rfl, List.mem_cons_self⟩, [0, 0], rfl,
      List.forall_mem_cons.mpr ⟨hleaf, List.forall_mem_singleton.mpr hleaf⟩, rfl⟩
  exact ⟨_, _, hr, fun r h ↦
    denotes_unique ⟨fun _ _ ↦ rfl, fun _ ↦ rfl⟩ hplain hr (by decide) hjoin h⟩

/-! ## No plan is physical throughout -/

/-- `OperatorType::PHYSICAL_...` -/
def isPhysical : OperatorType → Bool
  | .logicalGet | .logicalFilter | .logicalJoin | .logicalAggregation => false
  | .physicalSeqScan | .physicalIndexScan | .physicalHashJoin | .physicalNestedLoopJoin => true

/-- Whether all operators of a plan are physical, from whether those of its children are. -/
def allPhysical (opType : OperatorType) (children : List Bool) : Bool :=
  isPhysical opType && children.all (·)

/-- A plan that is not there at first if it is a leaf. -/
def Inner (p : OperatorPlan) : Prop := isPhysical p.1 ∨ p.1 = .logicalJoin → p.2 ≠ []

theorem inner_of_rewrites (hp : Inner p) (h : Rewrites p q) : Inner q := by
  cases h with
  | commute left right => exact fun _ ↦ List.cons_ne_nil _ _
  | hashJoin children => exact fun _ ↦ hp (Or.inr rfl)

theorem map_fst_of_insertAll {targetGroup : GroupId} {exprs : List GroupExpression}
    (hs : insertAll targetGroup exprs m = some (o, m')) : o.map Prod.fst = exprs := by
  induction exprs generalizing m o with
  | nil =>
    cases hs
    rfl
  | cons expr exprs ih =>
    obtain ⟨id, m₁, o', -, hs₂, rfl⟩ := insertAll_cons.mp hs
    rw [List.map_cons, ih hs₂]

/-- Logical plans are inserted, and joins have children. -/
def Logical : Move → Prop
  | .insertExpression expr _ => isPhysical expr.opType = false ∧ Inner expr.plan
  | .apply _ => True

theorem inner_of_move (hc : m.Consistent) (h : ∀ i e, m.Holds i e → Inner e.plan) {x : Move}
    (hx : Logical x) (hs : m.move x = some (o, m')) : ∀ i e, m'.Holds i e → Inner e.plan := by
  intro i e he
  rcases (hc.grown_move hs).origin i e he with he | ⟨y, hy, hplan⟩
  · exact h i e he
  rw [← hplan]
  have hmem := List.mem_map_of_mem (f := Prod.fst) hy
  cases x with
  | insertExpression expr targetGroup =>
    rw [map_fst_of_insertAll hs, List.mem_singleton] at hmem
    exact hmem ▸ hx.2
  | apply a =>
    obtain ⟨rule, g, e₀, hrule, hg, he₀, hmatch, hall⟩ := apply_eq_some.mp hs
    rw [map_fst_of_insertAll hall] at hmem
    exact inner_of_rewrites (h a.group e₀ ⟨g, hg, List.mem_of_getElem? he₀⟩)
      (rewrites_iff.mpr ⟨rule, List.mem_of_getElem? hrule, hmatch, y.1, hmem, rfl⟩)

/-- **No plan is physical throughout.**  Whatever logical plans are inserted and whatever rules
are applied to them, in any order: every plan that can be read out of the memo has a logical
operator, since joins are the only operators that a rule implements and no join is a leaf. -/
theorem not_denotes_physical {xs : List Move} {os : List (List (GroupExpression × GroupId))}
    (hlogical : ∀ x ∈ xs, Logical x) (hr : run move {} xs = some (os, m)) :
    ¬ m.Denotes allPhysical id true := by
  have hinner : ∀ i e, m.Holds i e → Inner e.plan := by
    induction xs using List.reverseRecOn generalizing os m with
    | nil =>
      cases hr
      rintro i e ⟨g, hg, -⟩
      cases hg
    | append_singleton xs x ih =>
      obtain ⟨m₁, os₁, o, hr₁, hs, -⟩ := run_concat.mp hr
      refine inner_of_move (consistent_of_run hr₁)
        (ih (fun x hx ↦ hlogical x (List.mem_append_left _ hx)) hr₁) ?_ hs
      exact hlogical x (List.mem_append_right _ (List.mem_singleton_self x))
  suffices ∀ {id r}, m.Denotes allPhysical id r → r = false from fun h ↦ Bool.noConfusion (this h)
  intro id r h
  induction h with
  | @of i e rs he hlen _ ih =>
    rw [allPhysical, Bool.and_eq_false_iff]
    cases hop : isPhysical e.opType with
    | false => exact Or.inl rfl
    | true =>
      -- the first child has a logical operator
      obtain ⟨child, children, hchildren⟩ := List.exists_cons_of_ne_nil (hinner i e he (Or.inl hop))
      change e.children = _ at hchildren
      rw [hchildren] at hlen ih
      obtain ⟨r, rs, rfl⟩ := List.exists_cons_of_length_eq_add_one hlen.symm
      have hfirst : r = false := ih (child, r) List.mem_cons_self
      rw [hfirst]
      exact Or.inr rfl

/-- A join, and the hash join. -/
theorem not_denotes_physical_one :
    ∃ os m, run move {} [.insertExpression (join 1 2) 0, .apply ⟨1, 0, 0⟩] = some (os, m) ∧
      ¬ m.Denotes allPhysical 1 true := by
  have hr : run move {} [.insertExpression (join 1 2) 0, .apply ⟨1, 0, 0⟩] =
    some ([[(join 1 2, 1)], [(hashJoin 1 2, 1)]],
      (({} : Memo).openGroup.add (join 1 2) 1).add (hashJoin 1 2) 1) := by
    with_unfolding_all rfl
  refine ⟨_, _, hr, not_denotes_physical (fun x hx ↦ ?_) hr⟩
  simp only [List.mem_cons, List.not_mem_nil, or_false] at hx
  rcases hx with rfl | rfl
  · exact ⟨rfl, fun _ ↦ List.cons_ne_nil _ _⟩
  · trivial

end Memo

end StingDB
