import StingDB.Planner.MemoConsistency

/-!
# The memo with its shared expressions

In `sql/planner/memo.h` the map and the groups hold `std::shared_ptr<GroupExpression>`: an
expression is one object, whoever has a pointer to it sees the group that `SetGroupId` writes into
it, and a caller may insert an object that is there already.  Here the objects are a heap and the
pointers its addresses.

With every pointer followed this is the memo of values (`insertExpression_view`), and what is
claimed of the two maps, the lists and the back pointers is read off there.  What the heap adds is
that an object is where its value is: `Linked`.
-/

set_option autoImplicit false

namespace StingDB

open Machine

/-- `std::shared_ptr<GroupExpression>` -/
abbrev ExprRef := ℕ

/-- `Group` -/
structure SharedGroup where
  /-- `id_` -/
  id : GroupId
  /-- `logical_expressions_` -/
  logicalExpressions : List ExprRef := []

/-- `AddExpression` -/
def SharedGroup.addExpression (g : SharedGroup) (expr : ExprRef) : SharedGroup :=
  { g with logicalExpressions := g.logicalExpressions ++ [expr] }

/-- `Memo`, and the objects that the pointers in it point to. -/
structure SharedMemo where
  heap : ExprRef → GroupExpression
  /-- `groups_` -/
  groups : List SharedGroup := []
  /-- `expr_map_` -/
  exprMap : UInt64 → Option ExprRef := fun _ ↦ none

/-- The arguments of an `InsertExpression`. -/
structure InsertCall where
  expr : ExprRef
  targetGroup : GroupId

namespace SharedMemo

/-- `InsertExpression`: the group and the memo.  `none` if `groups_` is indexed out of bounds. -/
def insertExpression (s : SharedMemo) (expr : ExprRef) (targetGroup : GroupId) :
    Option (GroupId × SharedMemo) :=
  match s.exprMap (s.heap expr).hash with
  | some e => some ((s.heap e).targetGroupId, s)
  | none =>
    let newGroup : GroupId := .ofNat (s.groups.length + 1)
    let assignedGroup := if targetGroup = 0 then newGroup else targetGroup
    let groups := if targetGroup = 0 then s.groups ++ [⟨newGroup, []⟩] else s.groups
    let index := (assignedGroup - 1).toNat
    if index < groups.length then
      some (assignedGroup,
        { heap := Function.update s.heap expr ((s.heap expr).setGroupId assignedGroup)
          groups := groups.modify index (·.addExpression expr)
          exprMap := Function.update s.exprMap (s.heap expr).hash (some expr) })
    else none

/-- The machine whose runs are the sequences of calls. -/
def step (s : SharedMemo) (c : InsertCall) : Option (GroupId × SharedMemo) :=
  s.insertExpression c.expr c.targetGroup

/-- The target group of a call is new, or there. -/
def Existing (s : SharedMemo) (c : InsertCall) : Prop :=
  c.targetGroup = 0 ∨ ∃ g ∈ s.groups, g.id = c.targetGroup

/-- All pointers of the groups, group after group. -/
def expressions (s : SharedMemo) : List ExprRef := s.groups.flatMap SharedGroup.logicalExpressions

/-- The structural invariant as far as it does not need that there are fewer than `2 ^ 32` groups: a
number is the place of its group modulo that, and nothing is said of empty groups. -/
structure Indexed (s : SharedMemo) : Prop where
  id_eq : ∀ (i : ℕ) (g : SharedGroup), s.groups[i]? = some g → g.id = .ofNat (i + 1)
  /-- What the map has under a hash has that hash, -/
  hash_eq : ∀ h r, s.exprMap h = some r → (s.heap r).hash = h
  /-- is once in all the groups, -/
  count_eq : ∀ h r, s.exprMap h = some r → s.expressions.count r = 1
  /-- and that is in the group it names. -/
  mem_group : ∀ h r, s.exprMap h = some r →
    ∃ g ∈ s.groups, g.id = (s.heap r).targetGroupId ∧ r ∈ g.logicalExpressions
  /-- What is in a group is in the map. -/
  exprMap_of_mem : ∀ g ∈ s.groups, ∀ r ∈ g.logicalExpressions,
    s.exprMap (s.heap r).hash = some r

/-- The structural invariant. -/
structure WellFormed (s : SharedMemo) : Prop where
  id_eq : ∀ (i : ℕ) (g : SharedGroup), s.groups[i]? = some g → g.id.toNat = i + 1
  ne_nil : ∀ g ∈ s.groups, g.logicalExpressions ≠ []
  /-- What the map has under a hash has that hash, -/
  hash_eq : ∀ h r, s.exprMap h = some r → (s.heap r).hash = h
  /-- is once in all the groups, -/
  count_eq : ∀ h r, s.exprMap h = some r → s.expressions.count r = 1
  /-- and that is in the group it names. -/
  mem_group : ∀ h r, s.exprMap h = some r →
    ∃ g ∈ s.groups, g.id = (s.heap r).targetGroupId ∧ r ∈ g.logicalExpressions
  /-- What is in a group is in the map. -/
  exprMap_of_mem : ∀ g ∈ s.groups, ∀ r ∈ g.logicalExpressions,
    s.exprMap (s.heap r).hash = some r

/-! ## The values behind the pointers -/

/-- A group with its pointers followed. -/
def viewGroup (heap : ExprRef → GroupExpression) (g : SharedGroup) : Group :=
  ⟨g.id, g.logicalExpressions.map heap⟩

/-- The memo with its pointers followed. -/
def view (s : SharedMemo) : Memo where
  groups := s.groups.map (viewGroup s.heap)
  exprMap h := (s.exprMap h).map s.heap

/-- What has a hash is found under it, in the map and in the groups. -/
structure Linked (s : SharedMemo) : Prop where
  hash_eq : ∀ h r, s.exprMap h = some r → (s.heap r).hash = h
  exprMap_of_mem : ∀ g ∈ s.groups, ∀ r ∈ g.logicalExpressions,
    s.exprMap (s.heap r).hash = some r

/-- `groups_.push_back(std::make_shared<Group>(..))` -/
def openGroup (s : SharedMemo) : SharedMemo :=
  { s with groups := s.groups ++ [⟨.ofNat (s.groups.length + 1), []⟩] }

/-- `SetGroupId`, the entry in the map and `AddExpression`. -/
def add (s : SharedMemo) (expr : ExprRef) (id : GroupId) : SharedMemo where
  heap := Function.update s.heap expr ((s.heap expr).setGroupId id)
  groups := s.groups.modify (id - 1).toNat (·.addExpression expr)
  exprMap := Function.update s.exprMap (s.heap expr).hash (some expr)

variable {s s' : SharedMemo} {expr r : ExprRef} {targetGroup id : GroupId}

/-- What an insertion that comes back has done. -/
theorem insertExpression_cases (h : s.insertExpression expr targetGroup = some (id, s')) :
    (∃ e, s.exprMap (s.heap expr).hash = some e ∧ id = (s.heap e).targetGroupId ∧ s' = s) ∨
      s.exprMap (s.heap expr).hash = none ∧
        (s' = s.openGroup.add expr id ∨ s' = s.add expr id) := by
  rw [insertExpression] at h
  split at h
  · rename_i e he
    cases h
    exact Or.inl ⟨e, he, rfl, rfl⟩
  · rename_i hnone
    refine Or.inr ⟨hnone, ?_⟩
    by_cases h0 : targetGroup = 0
    · simp only [if_pos h0, Option.ite_none_right_eq_some, Option.some.injEq, Prod.mk.injEq] at h
      obtain ⟨-, rfl, rfl⟩ := h
      exact Or.inl rfl
    · simp only [if_neg h0, Option.ite_none_right_eq_some, Option.some.injEq, Prod.mk.injEq] at h
      obtain ⟨-, rfl, rfl⟩ := h
      exact Or.inr rfl

/-- An expression whose hash is known is not inserted again, whatever its target. -/
theorem insertExpression_of_known {e : ExprRef} (he : s.exprMap (s.heap expr).hash = some e) :
    s.insertExpression expr targetGroup = some ((s.heap e).targetGroupId, s) := by
  rw [insertExpression, he]

@[simp] theorem view_groups_length : s.view.groups.length = s.groups.length := List.length_map _

/-- `SetGroupId` leaves every object the plan it was made with. -/
theorem add_heap_plan : ((s.add expr id).heap r).plan = (s.heap r).plan := by
  rw [add]
  dsimp only
  by_cases hr : r = expr
  · subst hr
    rw [Function.update_self]
    rfl
  · rw [Function.update_of_ne hr]

theorem add_heap_hash : ((s.add expr id).heap r).hash = (s.heap r).hash :=
  GroupExpression.hash_eq_of_plan_eq add_heap_plan

theorem add_exprMap_self : (s.add expr id).exprMap (s.heap expr).hash = some expr :=
  Function.update_self ..

theorem add_exprMap_of_ne {h : UInt64} (hne : h ≠ (s.heap expr).hash) :
    (s.add expr id).exprMap h = s.exprMap h :=
  Function.update_of_ne hne ..

theorem view_openGroup : s.openGroup.view = s.view.openGroup := by
  rw [view, openGroup, Memo.openGroup, view_groups_length, List.map_append]
  rfl

theorem Linked.openGroup (h : s.Linked) : s.openGroup.Linked where
  hash_eq := h.hash_eq
  exprMap_of_mem g hg r hr := by
    rcases List.mem_append.mp hg with hold | hnew
    · exact h.exprMap_of_mem g hold r hr
    · rw [List.mem_singleton.mp hnew] at hr
      exact absurd hr List.not_mem_nil

section Add

variable (h : s.Linked) (hnone : s.exprMap (s.heap expr).hash = none)

include h hnone

/-- An object with a new hash is in no group yet. -/
theorem Linked.ne_of_mem {g : SharedGroup} (hg : g ∈ s.groups) (hr : r ∈ g.logicalExpressions) :
    r ≠ expr := by
  rintro rfl
  rw [h.exprMap_of_mem g hg r hr] at hnone
  cases hnone

theorem Linked.view_add : (s.add expr id).view = s.view.add (s.heap expr) id := by
  have hself : (s.add expr id).heap expr = (s.heap expr).setGroupId id := Function.update_self ..
  have hother : ∀ {r}, r ≠ expr → (s.add expr id).heap r = s.heap r :=
    fun hr ↦ Function.update_of_ne hr ..
  have hgroup : ∀ g ∈ s.groups, viewGroup (s.add expr id).heap g = viewGroup s.heap g := by
    intro g hg
    rw [viewGroup, viewGroup, List.map_congr_left fun r hr ↦ hother (h.ne_of_mem hnone hg hr)]
  rw [view, Memo.add]
  congr 1
  · refine List.ext_getElem? fun j ↦ ?_
    change (((s.groups.modify (id - 1).toNat (·.addExpression expr)).map
      (viewGroup (s.add expr id).heap))[j]?) = _
    rw [view, List.getElem?_map, List.getElem?_modify, List.getElem?_modify, List.getElem?_map]
    rcases hj : s.groups[j]? with _ | g
    · rfl
    · have hg := hgroup g (List.mem_of_getElem? hj)
      simp only [Option.map_eq_map, Option.map_some, Option.some.injEq]
      split
      · rw [Group.addExpression, ← hg, ← hself]
        simp [viewGroup, SharedGroup.addExpression]
      · exact hg
  · funext key
    by_cases hkey : key = (s.heap expr).hash
    · rw [hkey, add_exprMap_self, Function.update_self, Option.map_some, hself]
    · rw [add_exprMap_of_ne hkey, Function.update_of_ne hkey, view]
      dsimp only
      rcases hr : s.exprMap key with _ | r
      · rfl
      · refine congrArg some (hother ?_)
        rintro rfl
        exact hkey (h.hash_eq key r hr).symm

theorem Linked.add : (s.add expr id).Linked where
  hash_eq key r hr := by
    rw [add_heap_hash]
    by_cases hkey : key = (s.heap expr).hash
    · rw [hkey, add_exprMap_self] at hr
      rw [hkey, Option.some.inj hr]
    · rw [add_exprMap_of_ne hkey] at hr
      exact h.hash_eq key r hr
  exprMap_of_mem g hg r hr := by
    rw [add_heap_hash]
    obtain ⟨j, hj⟩ := List.mem_iff_getElem?.mp hg
    rw [SharedMemo.add, List.getElem?_modify] at hj
    obtain ⟨g₀, hg₀, rfl⟩ := Option.map_eq_some_iff.mp hj
    have hold : ∀ r ∈ g₀.logicalExpressions,
        (s.add expr id).exprMap (s.heap r).hash = some r := fun r hr ↦ by
      have hmap := h.exprMap_of_mem g₀ (List.mem_of_getElem? hg₀) r hr
      have hne : (s.heap r).hash ≠ (s.heap expr).hash := by
        intro heq
        rw [heq, hnone] at hmap
        cases hmap
      rw [add_exprMap_of_ne hne, hmap]
    split at hr
    · rcases List.mem_append.mp hr with hr | hr
      · exact hold r hr
      · rw [List.mem_singleton.mp hr, add_exprMap_self]
    · exact hold r hr

end Add

/-- **With the pointers followed an insertion is one into the memo of values.** -/
theorem Linked.insertExpression_view (h : s.Linked) (expr : ExprRef) (targetGroup : GroupId) :
    (s.insertExpression expr targetGroup).map (fun r ↦ (r.1, r.2.view)) =
      s.view.insertExpression (s.heap expr) targetGroup := by
  have hview : s.view.exprMap (s.heap expr).hash =
    (s.exprMap (s.heap expr).hash).map s.heap := rfl
  rw [insertExpression, Memo.insertExpression, hview]
  rcases hmap : s.exprMap (s.heap expr).hash with _ | e
  · have hopen : (s.openGroup.add expr (.ofNat (s.groups.length + 1))).view =
        s.openGroup.view.add (s.openGroup.heap expr) (.ofNat (s.groups.length + 1)) :=
      h.openGroup.view_add hmap
    rw [view_openGroup] at hopen
    by_cases h0 : targetGroup = 0
    · simp only [Option.map_none, h0, if_true, view_groups_length, List.length_append,
        List.length_singleton, if_pos (Memo.newGroup_index_lt s.groups.length), Option.map_some]
      refine congrArg (fun v ↦ some (_, v)) (hopen.trans ?_)
      rw [Memo.openGroup, view_groups_length]
      rfl
    · simp only [Option.map_none, if_neg h0, view_groups_length]
      split
      · exact congrArg (fun v ↦ some (_, v)) (h.view_add hmap)
      · rfl
  · rfl

/-! ## What every insertion keeps -/

/-- The objects are where their values are, and these are where they should be. -/
structure Sound (s : SharedMemo) : Prop where
  linked : s.Linked
  consistent : s.view.Consistent
  numbers : s.groups.length < 2 ^ 32 → s.view.Numbers

theorem sound_init (heap : ExprRef → GroupExpression) : Sound { heap } where
  linked :=
    { hash_eq := fun h r hr ↦ by cases hr
      exprMap_of_mem := fun g hg ↦ absurd hg List.not_mem_nil }
  consistent := Memo.consistent_empty
  numbers _ := ⟨(by decide : 0 < 2 ^ 32), fun g hg ↦ absurd hg List.not_mem_nil⟩

theorem Linked.view_step (h : s.Linked)
    (hs : s.insertExpression expr targetGroup = some (id, s')) :
    s.view.insertExpression (s.heap expr) targetGroup = some (id, s'.view) := by
  rw [← h.insertExpression_view, hs]
  rfl

theorem Linked.insertExpression (h : s.Linked)
    (hs : s.insertExpression expr targetGroup = some (id, s')) : s'.Linked := by
  rcases insertExpression_cases hs with ⟨-, -, -, rfl⟩ | ⟨hnone, rfl | rfl⟩
  · exact h
  · exact h.openGroup.add hnone
  · exact h.add hnone

theorem length_mono (h : s.Linked) (hs : s.insertExpression expr targetGroup = some (id, s')) :
    s.groups.length ≤ s'.groups.length := by
  have hlen := Memo.length_mono (h.view_step hs)
  rwa [view_groups_length, view_groups_length] at hlen

theorem Sound.insertExpression (h : s.Sound)
    (hs : s.insertExpression expr targetGroup = some (id, s')) : s'.Sound := by
  have hview := h.linked.view_step hs
  refine ⟨h.linked.insertExpression hs, h.consistent.insertExpression hview, fun hlt ↦ ?_⟩
  have hold := h.numbers (lt_of_le_of_lt (length_mono h.linked hs) hlt)
  exact hold.insertExpression (by rwa [view_groups_length]) hview

theorem Sound.insertExpression_isSome (h : s.Sound) {c : InsertCall} (ht : s.Existing c) :
    ∃ id s', s.step c = some (id, s') := by
  have htarget : s.view.Existing c.targetGroup := by
    refine ht.imp_right ?_
    rintro ⟨g, hg, hid⟩
    exact ⟨_, List.mem_map_of_mem hg, hid⟩
  obtain ⟨id, m', hs⟩ := h.consistent.insertExpression_isSome (s.heap c.expr) htarget
  rw [← h.linked.insertExpression_view] at hs
  obtain ⟨⟨id', s'⟩, hs', -⟩ := Option.map_eq_some_iff.mp hs
  exact ⟨id', s', hs'⟩

theorem view_expressions : s.view.expressions = s.expressions.map s.heap := by
  rw [Memo.expressions, expressions, view, List.flatMap_map, List.map_flatMap]
  rfl

theorem getElem?_view {i : ℕ} {g : SharedGroup} (hg : s.groups[i]? = some g) :
    s.view.groups[i]? = some (viewGroup s.heap g) := by
  rw [view, List.getElem?_map, hg, Option.map_some]

theorem Sound.indexed (h : s.Sound) : s.Indexed := by
  have hmem : ∀ key r, s.exprMap key = some r →
      ∃ g ∈ s.groups, g.id = (s.heap r).targetGroupId ∧ r ∈ g.logicalExpressions := by
    intro key r hr
    have hmap : s.view.exprMap key = some (s.heap r) := congrArg (Option.map s.heap) hr
    obtain ⟨hhash, i, g', hg', hin⟩ := h.consistent.of_exprMap key _ hmap
    obtain ⟨g, hg, rfl⟩ := List.mem_map.mp (List.mem_of_getElem? hg')
    obtain ⟨r', hr', heq⟩ := List.mem_map.mp hin
    -- the object in the group is the one in the map
    have hsame := h.linked.exprMap_of_mem g hg r' hr'
    rw [heq, hhash, hr] at hsame
    obtain rfl := Option.some.inj hsame
    refine ⟨g, hg, ?_, hr'⟩
    rw [(h.consistent.of_holds i _ ⟨_, hg', hin⟩).2]
    exact h.consistent.id_eq i _ hg'
  refine ⟨fun i g hg ↦ h.consistent.id_eq i _ (getElem?_view hg), h.linked.hash_eq,
    fun key r hr ↦ ?_, hmem, h.linked.exprMap_of_mem⟩
  obtain ⟨g, hg, -, hin⟩ := hmem key r hr
  have hnodup := h.consistent.nodup
  rw [view_expressions] at hnodup
  exact List.count_eq_one_of_mem hnodup.of_map.of_map (List.mem_flatMap.mpr ⟨g, hg, hin⟩)

theorem Sound.wellFormed (h : s.Sound) (hlt : s.groups.length < 2 ^ 32) : s.WellFormed := by
  have hindexed := h.indexed
  have hviewlt : s.view.groups.length < 2 ^ 32 := by rwa [view_groups_length]
  refine ⟨fun i g hg ↦ h.consistent.toNat_id hviewlt (getElem?_view hg), fun g hg hnil ↦ ?_,
    hindexed.hash_eq, hindexed.count_eq, hindexed.mem_group, hindexed.exprMap_of_mem⟩
  refine (h.numbers hlt).ne_nil (viewGroup s.heap g) (List.mem_map_of_mem hg) ?_
  rw [viewGroup, hnil]
  rfl

/-! ## What no insertion changes -/

theorem insertExpression_plan (hs : s.insertExpression expr targetGroup = some (id, s'))
    (r : ExprRef) : (s'.heap r).plan = (s.heap r).plan := by
  rcases insertExpression_cases hs with ⟨-, -, -, rfl⟩ | ⟨-, rfl | rfl⟩
  · rfl
  · exact add_heap_plan
  · exact add_heap_plan

theorem insertExpression_hash (hs : s.insertExpression expr targetGroup = some (id, s'))
    (r : ExprRef) : (s'.heap r).hash = (s.heap r).hash :=
  GroupExpression.hash_eq_of_plan_eq (insertExpression_plan hs r)

/-- An insertion writes no object but one whose hash is new. -/
theorem insertExpression_heap (hs : s.insertExpression expr targetGroup = some (id, s'))
    {e : ExprRef} (he : s.exprMap (s.heap r).hash = some e) : s'.heap r = s.heap r := by
  have hne : s.exprMap (s.heap expr).hash = none → r ≠ expr := by
    rintro hnone rfl
    rw [hnone] at he
    cases he
  rcases insertExpression_cases hs with ⟨-, -, -, rfl⟩ | ⟨hnone, rfl | rfl⟩
  · rfl
  · exact Function.update_of_ne (hne hnone) ..
  · exact Function.update_of_ne (hne hnone) ..

theorem exprMap_mono (hs : s.insertExpression expr targetGroup = some (id, s')) {h : UInt64}
    {e : ExprRef} (he : s.exprMap h = some e) : s'.exprMap h = some e := by
  have hne : s.exprMap (s.heap expr).hash = none → h ≠ (s.heap expr).hash := by
    rintro hnone rfl
    rw [hnone] at he
    cases he
  rcases insertExpression_cases hs with ⟨-, -, -, rfl⟩ | ⟨hnone, rfl | rfl⟩
  · exact he
  · exact (add_exprMap_of_ne (s := s.openGroup) (hne hnone)).trans he
  · exact (add_exprMap_of_ne (hne hnone)).trans he

/-- The map has the object for the expression in the group that was returned. -/
def Recorded (s : SharedMemo) (expr : ExprRef) (id : GroupId) : Prop :=
  ∃ e, s.exprMap (s.heap expr).hash = some e ∧ (s.heap e).targetGroupId = id

theorem Recorded.mono {i : GroupId} (h : s.Recorded r i) (hl : s.Linked)
    (hs : s.insertExpression expr targetGroup = some (id, s')) : s'.Recorded r i := by
  obtain ⟨e, he, hid⟩ := h
  have hself : s.exprMap (s.heap e).hash = some e := by rw [hl.hash_eq _ e he, he]
  refine ⟨e, ?_, by rw [insertExpression_heap hs hself, hid]⟩
  rw [insertExpression_hash hs]
  exact exprMap_mono hs he

theorem recorded_of_inserted (h : s.Linked)
    (hs : s.insertExpression expr targetGroup = some (id, s')) : s'.Recorded expr id := by
  obtain ⟨e, he, hid⟩ := Memo.exprMap_of_inserted (h.view_step hs)
  obtain ⟨r, hr, rfl⟩ := Option.map_eq_some_iff.mp he
  exact ⟨r, by rw [insertExpression_hash hs, hr], hid⟩

/-! ## Runs -/

/-- What a run leaves, given its calls and what they returned. -/
structure After (cs : List InsertCall) (ids : List GroupId) (s : SharedMemo) : Prop where
  sound : s.Sound
  length_eq : cs.length = ids.length
  recorded : ∀ p ∈ cs.zip ids, s.Recorded p.1.expr p.2

theorem After.step {cs : List InsertCall} {ids : List GroupId} {c : InsertCall}
    (h : After cs ids s) (hs : s.step c = some (id, s')) : After (cs ++ [c]) (ids ++ [id]) s' := by
  refine ⟨h.sound.insertExpression hs, by simp [h.length_eq], fun p hp ↦ ?_⟩
  rw [List.zip_append h.length_eq, List.mem_append] at hp
  rcases hp with hp | hp
  · exact (h.recorded p hp).mono h.sound.linked hs
  · rw [List.mem_singleton.mp hp]
    exact recorded_of_inserted h.sound.linked hs

theorem after_of_run {heap : ExprRef → GroupExpression} {cs : List InsertCall}
    {ids : List GroupId} (hr : run step { heap } cs = some (ids, s)) : After cs ids s :=
  run_history (P := fun _ _ ↦ True)
    ⟨sound_init heap, rfl, fun _ hp ↦ absurd hp List.not_mem_nil⟩
    (fun _ _ _ _ _ _ _ h _ hs ↦ h.step hs) along_true hr

theorem run_isSome {heap : ExprRef → GroupExpression} {cs : List InsertCall}
    (ht : Along step Existing { heap } cs) : ∃ ids s, run step { heap } cs = some (ids, s) := by
  induction cs using List.reverseRecOn with
  | nil => exact ⟨[], _, rfl⟩
  | append_singleton cs c ih =>
    obtain ⟨hold, hlast⟩ := along_concat.mp ht
    obtain ⟨ids, s, hr⟩ := ih hold
    obtain ⟨id, s', hs⟩ := (after_of_run hr).sound.insertExpression_isSome (hlast ids s hr)
    exact ⟨ids ++ [id], s', run_concat.mpr ⟨s, ids, id, hr, hs, rfl⟩⟩

/-- **The structural invariant of the memo.**  Take any objects and any calls, with targets that are
`0` or the id of a group that is there.  No call goes out of bounds, and the memo is `Indexed`; an
expression with the operator and the children of one that was inserted, with any target, gets the
group that one got and changes nothing; and no further call changes the group of an object that was
inserted.  As long as there are fewer than `2 ^ 32` groups the memo is well formed and every id that
was returned is that of a group. -/
theorem wellFormed_of_run (heap : ExprRef → GroupExpression) (cs : List InsertCall)
    (ht : Along step Existing { heap } cs) :
    ∃ ids s, run step { heap } cs = some (ids, s) ∧
      s.Indexed ∧
      (∀ p ∈ cs.zip ids, ∀ expr targetGroup, (s.heap expr).plan = (s.heap p.1.expr).plan →
        s.insertExpression expr targetGroup = some (p.2, s)) ∧
      (∀ c id s', s.step c = some (id, s') → ∀ c' ∈ cs, s'.heap c'.expr = s.heap c'.expr) ∧
      (s.groups.length < 2 ^ 32 → s.WellFormed ∧
        ∀ p ∈ cs.zip ids, 1 ≤ p.2.toNat ∧ p.2.toNat ≤ s.groups.length) := by
  obtain ⟨ids, s, hr⟩ := run_isSome ht
  have h := after_of_run hr
  refine ⟨ids, s, hr, h.sound.indexed, fun p hp expr targetGroup heq ↦ ?_,
    fun c id s' hs c' hc' ↦ ?_, fun hlt ↦ ⟨h.sound.wellFormed hlt, fun p hp ↦ ?_⟩⟩
  · obtain ⟨e, he, hid⟩ := h.recorded p hp
    rw [← GroupExpression.hash_eq_of_plan_eq heq] at he
    rw [insertExpression_of_known he, hid]
  · have hfst : (cs.zip ids).map Prod.fst = cs := List.map_fst_zip h.length_eq.le
    rw [← hfst] at hc'
    obtain ⟨p, hp, rfl⟩ := List.mem_map.mp hc'
    obtain ⟨e, he, -⟩ := h.recorded p hp
    exact insertExpression_heap hs he
  · obtain ⟨e, he, hid⟩ := h.recorded p hp
    obtain ⟨g, hg, hgid, -⟩ := (h.sound.wellFormed hlt).mem_group _ e he
    obtain ⟨i, hi⟩ := List.mem_iff_getElem?.mp hg
    have hnat := (h.sound.wellFormed hlt).id_eq i g hi
    have hilt := (List.getElem?_eq_some_iff.mp hi).1
    rw [← hid, ← hgid, hnat]
    exact ⟨Nat.le_add_left 1 i, hilt⟩

/-- Two calls, with the same expression: the second returns the group of the first. -/
theorem wellFormed_of_run_two :
    ∃ ids s, run step { heap := fun _ ↦ { opType := .logicalGet, children := [1] } }
        [⟨0, 0⟩, ⟨1, 1⟩] = some (ids, s) ∧ ids = [1, 1] ∧ s.groups.length = 1 ∧
      s.Indexed ∧ s.WellFormed ∧
      (∀ p ∈ [(⟨0, 0⟩, 1), ((⟨1, 1⟩, 1) : InsertCall × GroupId)],
        (1 ≤ p.2.toNat ∧ p.2.toNat ≤ s.groups.length) ∧
        ∀ expr targetGroup, (s.heap expr).plan = (s.heap p.1.expr).plan →
          s.insertExpression expr targetGroup = some (p.2, s)) ∧
      ∀ c id s', s.step c = some (id, s') → s'.heap 0 = s.heap 0 ∧ s'.heap 1 = s.heap 1 := by
  have hrun : ∃ s, run step { heap := fun _ ↦ { opType := .logicalGet, children := [1] } }
      [⟨0, 0⟩, ⟨1, 1⟩] = some ([1, 1], s) ∧ s.groups.length = 1 := ⟨_, rfl, rfl⟩
  obtain ⟨s, hr, hlen⟩ := hrun
  obtain ⟨ids, s', hr', hindexed, hagain, hkeeps, hbounded⟩ := wellFormed_of_run
    (fun _ ↦ { opType := .logicalGet, children := [1] }) [⟨0, 0⟩, ⟨1, 1⟩]
    ⟨Or.inl rfl, fun o s hs ↦ ⟨Or.inr ⟨⟨1, [0]⟩, by cases hs; exact List.mem_singleton_self _, rfl⟩,
      fun _ _ _ ↦ trivial⟩⟩
  cases hr.symm.trans hr'
  obtain ⟨hwell, hids⟩ := hbounded (hlen ▸ by decide)
  exact ⟨_, s, hr, rfl, hlen, hindexed, hwell, fun p hp ↦ ⟨hids p hp, hagain p hp⟩,
    fun c id s' hs ↦ ⟨hkeeps c id s' hs ⟨0, 0⟩ (by simp), hkeeps c id s' hs ⟨1, 1⟩ (by simp)⟩⟩

/-! ## Too many groups -/

/-- The scan of each group. -/
def scan (r : ExprRef) : GroupExpression := { opType := .logicalGet, children := [.ofNat r] }

theorem scan_hash (r : ExprRef) :
    (scan r).hash = (UInt32.ofNat r).toUInt64 + (0x9e3779b9 : UInt64) := by
  change (0 : UInt64) ^^^ ((UInt32.ofNat r).toUInt64 +
    (0x9e3779b9 : UInt64) + ((0 : UInt64) <<< 6) + ((0 : UInt64) >>> 2)) = _
  simp

theorem scan_hash_inj {r r' : ExprRef} (hr : r < 2 ^ 32) (hr' : r' < 2 ^ 32)
    (heq : (scan r).hash = (scan r').hash) : r = r' := by
  rw [scan_hash, scan_hash] at heq
  have hsub := congrArg (· - (0x9e3779b9 : UInt64)) heq
  simp only [UInt64.add_sub_cancel] at hsub
  have hnat := congrArg UInt32.toNat (UInt32.toUInt64_inj.mp hsub)
  rwa [UInt32.toNat_ofNat', UInt32.toNat_ofNat', Nat.mod_eq_of_lt hr, Nat.mod_eq_of_lt hr'] at hnat

/-- Scans of different groups get different groups. -/
theorem run_scans (n : ℕ) (hn : n ≤ 2 ^ 32) :
    ∃ s, run step { heap := scan } ((List.range n).map fun r ↦ ⟨r, 0⟩) =
        some ((List.range n).map fun r ↦ .ofNat (r + 1), s) ∧
      s.groups.length = n ∧ (∀ r, (s.heap r).hash = (scan r).hash) ∧
      ∀ r, n ≤ r → r < 2 ^ 32 → s.exprMap (scan r).hash = none := by
  induction n with
  | zero => exact ⟨_, rfl, rfl, fun _ ↦ rfl, fun _ _ _ ↦ rfl⟩
  | succ n ih =>
    obtain ⟨s, hr, hlen, hheap, hmap⟩ := ih (by omega)
    have hnone : s.exprMap (s.heap n).hash = none := by
      rw [hheap]
      exact hmap n le_rfl (by omega)
    have hstep : s.step ⟨n, 0⟩ = some (.ofNat (n + 1), s.openGroup.add n (.ofNat (n + 1))) := by
      rw [step, SharedMemo.insertExpression, hnone]
      simp only [if_true, List.length_append, List.length_singleton,
        hlen, if_pos (Memo.newGroup_index_lt n)]
      rw [openGroup, hlen]
      rfl
    refine ⟨s.openGroup.add n (.ofNat (n + 1)), ?_, ?_, fun r ↦ ?_, fun r hle hlt ↦ ?_⟩
    · rw [List.range_succ, List.map_append, List.map_append]
      exact run_concat.mpr ⟨s, _, _, hr, hstep, rfl⟩
    · rw [add, List.length_modify, openGroup, List.length_append, hlen, List.length_singleton]
    · rw [add_heap_hash]
      exact hheap r
    · have hne : (scan r).hash ≠ (s.openGroup.heap n).hash := by
        intro heq
        have hrn : r = n := scan_hash_inj hlt (Nat.lt_of_succ_le hn) (heq.trans (hheap n))
        omega
      rw [add_exprMap_of_ne hne]
      exact hmap r (by omega) hlt

/-- The scan of the last of `2 ^ 32` groups gets the group `0`. -/
theorem not_one_le_id :
    ¬ ∀ heap cs ids s, Along step Existing { heap } cs → run step { heap } cs = some (ids, s) →
      ∀ id ∈ ids, 1 ≤ id.toNat := by
  intro h
  obtain ⟨n, hn⟩ : ∃ n, n = 2 ^ 32 := ⟨_, rfl⟩
  obtain ⟨s, hr, -⟩ := run_scans n hn.le
  have htargets : Along step Existing { heap := scan } ((List.range n).map fun r ↦ ⟨r, 0⟩) := by
    refine along_of_forall fun c hc _ ↦ Or.inl ?_
    obtain ⟨r, -, rfl⟩ := List.mem_map.mp hc
    rfl
  have hlast : UInt32.ofNat (n - 1 + 1) = 0 := by
    rw [Nat.sub_add_cancel (hn ▸ by decide), hn]
    decide
  have hmem : (0 : GroupId) ∈ (List.range n).map fun r ↦ UInt32.ofNat (r + 1) :=
    List.mem_map.mpr ⟨n - 1, List.mem_range.mpr (by omega), hlast⟩
  exact absurd (h scan _ _ s htargets hr 0 hmem) (by decide)

end SharedMemo

end StingDB
