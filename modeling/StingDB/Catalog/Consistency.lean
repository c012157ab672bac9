import Mathlib.Data.List.Basic
import StingDB.Catalog.CatalogManager
import StingDB.Lib.Machine

/-!
# Names, ids and tables

The catalog finds a table by its name or by its id, in two maps that are updated one after the other
in `CreateTable`.  `Recorded` says what they have to do with each other and with the calls that
there have been: the ids are the numbers of the successful creations, and a table has the name and
the schema of its creation and the first page that it was given last.  Every run of calls keeps
this (`recorded_of_run`), until the ids run out.

Pages are updated through pointers that the catalog has returned, so these are of its tables.
-/

set_option autoImplicit false

namespace StingDB

open Machine

/-! ## Calls -/

/-- `SQLStatement`, by its `GetType`.  The source defines a class for the first type only. -/
inductive SQLStatement where
  /-- `CreateStatement` -/
  | createTable (tableName : String) (columns : List Column)
  | insert
  | select

namespace CatalogManager

/-- `GetTable(table_id)`: the table, or `none` for `nullptr`. -/
def getTableById (c : CatalogManager) (id : TableId) : Option TableId :=
  if (c.tables id).isSome then some id else none

/-- `BindStatement` -/
def bindStatement (c : CatalogManager) : SQLStatement → Except String CatalogManager
  | .createTable tableName columns => c.bindCreateTable tableName columns
  | .insert | .select => .error "Unsupported statement type for binding"

/-- What the users of a catalog do to it. -/
inductive Call where
  | createTable (tableName : String) (schema : Schema) (firstPage : PageId)
  | bindStatement (stmt : SQLStatement)
  /-- `UpdateFirstPageId` of the table with this id. -/
  | updateFirstPageId (id : TableId) (root : PageId)

/-- What a call throws, or else the table that it returns, if it returns one. -/
abbrev Out := Except String (Option TableId)

/-- One call.  What throws leaves the catalog as it was. -/
def step (c : CatalogManager) : Call → Option (Out × CatalogManager)
  | .createTable tableName schema firstPage =>
    match c.createTable tableName schema firstPage with
    | .ok c' => some (.ok (some c.nextTableId), c')
    | .error what => some (.error what, c)
  | .bindStatement stmt =>
    match c.bindStatement stmt with
    | .ok c' => some (.ok none, c')
    | .error what => some (.error what, c)
  | .updateFirstPageId id root =>
    if (c.tables id).isSome then some (.ok none, c.updateFirstPageId id root) else none

/-! ## What has been created -/

/-- What `CreateTable` is called with. -/
structure Creation where
  /-- `table_name` -/
  tableName : String
  /-- `schema` -/
  schema : Schema
  /-- `first_page` -/
  firstPage : PageId

/-- What a call creates if it succeeds. -/
def Call.creation : Call → Option Creation
  | .createTable tableName schema firstPage => some ⟨tableName, schema, firstPage⟩
  | .bindStatement (.createTable tableName columns) =>
    some ⟨tableName, .create columns, invalidPageId⟩
  | .bindStatement _ | .updateFirstPageId _ _ => none

/-- The creations that have succeeded, in order. -/
def creations (calls : List Call) (outs : List Out) : List Creation :=
  (calls.zip outs).filterMap fun (call, out) ↦ if out.toBool then call.creation else none

/-- The first page of a table after these calls, if it was `page` before them. -/
def lastPage (id : TableId) (page : PageId) (calls : List Call) : PageId :=
  calls.foldl (fun page call ↦
    match call with
    | .updateFirstPageId id' root => if id' = id then root else page
    | .createTable .. | .bindStatement _ => page) page

/-- The table of a creation. -/
def Creation.table (r : Creation) (id : TableId) (calls : List Call) : TableInfo :=
  ⟨id, r.tableName, r.schema, lastPage id r.firstPage calls⟩

/-- The catalog records what has happened. -/
structure Recorded (calls : List Call) (outs : List Out) (c : CatalogManager) : Prop where
  next : c.nextTableId = .ofNat (creations calls outs).length
  tables : ∀ id, c.tables id =
    (creations calls outs)[id.toNat]?.map fun r ↦ r.table id calls
  names : ∀ name id, c.tableNames name = some id ↔
    ((creations calls outs)[id.toNat]?.map Creation.tableName) = some name
  /-- No name was created twice. -/
  nodup : ((creations calls outs).map Creation.tableName).Nodup
  /-- Pages have been set of tables that had been created. -/
  fresh : ∀ id page, (creations calls outs).length ≤ id.toNat → lastPage id page calls = page
  /-- Tables that have been returned had been created. -/
  returned : ∀ id, .ok (some id) ∈ outs → id.toNat < (creations calls outs).length

/-! ## One call -/

variable {c c' : CatalogManager} {call : Call} {out : Out} {calls : List Call} {outs : List Out}
  {r : Creation} {id : TableId} {page : PageId}

/-- The catalog with one more table. -/
def created (c : CatalogManager) (r : Creation) : CatalogManager where
  nextTableId := c.nextTableId + 1
  tables := Function.update c.tables c.nextTableId
    (some ((c.tables c.nextTableId).getD ⟨c.nextTableId, r.tableName, r.schema, r.firstPage⟩))
  tableNames := Function.update c.tableNames r.tableName (some c.nextTableId)

/-- What is created, or that the name is taken. -/
theorem createTable_cases (c : CatalogManager) (r : Creation) :
    (∃ what, c.createTable r.tableName r.schema r.firstPage = .error what) ∨
      (c.tableNames r.tableName = none ∧
        c.createTable r.tableName r.schema r.firstPage = .ok (c.created r)) := by
  by_cases hname : (c.tableNames r.tableName).isSome
  · exact Or.inl ⟨_, if_pos hname⟩
  · exact Or.inr ⟨Option.not_isSome_iff_eq_none.mp hname, if_neg hname⟩

theorem createTable_of_isSome {name : String} (h : (c.tableNames name).isSome) {schema : Schema} :
    c.createTable name schema page = .error ("Table already exists: " ++ name) := if_pos h

/-- What a call can do: throw and change nothing, create a table under a new name, or set the first
page of a table. -/
theorem step_cases (h : c.step call = some (out, c')) :
    (out.toBool = false ∧ (∀ id root, call ≠ .updateFirstPageId id root) ∧ c' = c) ∨
      (∃ r, call.creation = some r ∧ c.tableNames r.tableName = none ∧
        (out = .ok (some c.nextTableId) ∨ out = .ok none) ∧ c' = c.created r) ∨
      ∃ id root, call = .updateFirstPageId id root ∧ (c.tables id).isSome ∧ out = .ok none ∧
        c' = c.updateFirstPageId id root := by
  cases call with
  | createTable tableName schema firstPage =>
    rw [step] at h
    rcases c.createTable_cases ⟨tableName, schema, firstPage⟩ with ⟨what, heq⟩ | ⟨hname, heq⟩
    · rw [heq] at h
      cases h
      exact Or.inl ⟨rfl, by rintro _ _ ⟨⟩, rfl⟩
    · rw [heq] at h
      cases h
      exact Or.inr (Or.inl ⟨_, rfl, hname, Or.inl rfl, rfl⟩)
  | bindStatement stmt =>
    cases stmt with
    | createTable tableName columns =>
      rw [step, bindStatement, bindCreateTable] at h
      rcases c.createTable_cases ⟨tableName, .create columns, invalidPageId⟩ with
        ⟨what, heq⟩ | ⟨hname, heq⟩
      · rw [heq] at h
        cases h
        exact Or.inl ⟨rfl, by rintro _ _ ⟨⟩, rfl⟩
      · rw [heq] at h
        cases h
        exact Or.inr (Or.inl ⟨_, rfl, hname, Or.inr rfl, rfl⟩)
    | insert | select =>
      cases h
      exact Or.inl ⟨rfl, by rintro _ _ ⟨⟩, rfl⟩
  | updateFirstPageId id root =>
    rw [step] at h
    split at h
    · rename_i hsome
      cases h
      exact Or.inr (Or.inr ⟨id, root, rfl, hsome, rfl, rfl⟩)
    · cases h

variable (call out) in
theorem creations_concat (hlen : outs.length = calls.length) :
    creations (calls ++ [call]) (outs ++ [out]) =
      creations calls outs ++ (if out.toBool then call.creation else none).toList := by
  rw [creations, List.zip_append hlen.symm, List.filterMap_append]
  cases h : if out.toBool then call.creation else none <;> simp [creations, h]

theorem creations_length_le (calls : List Call) (outs : List Out) :
    (creations calls outs).length ≤ calls.length := by
  refine (List.length_filterMap_le _ _).trans ?_
  rw [List.length_zip]
  exact Nat.min_le_left _ _

theorem lastPage_concat_update {id' : TableId} {root : PageId} :
    lastPage id page (calls ++ [.updateFirstPageId id' root]) =
      if id' = id then root else lastPage id page calls := by
  rw [lastPage, List.foldl_append]
  rfl

/-- Other calls set no page. -/
theorem lastPage_concat (h : ∀ id root, call ≠ .updateFirstPageId id root) :
    lastPage id page (calls ++ [call]) = lastPage id page calls := by
  rw [lastPage, List.foldl_append]
  cases call with
  | updateFirstPageId id' root => exact absurd rfl (h id' root)
  | createTable | bindStatement => rfl

/-! ## What calls preserve -/

theorem recorded_nil : Recorded [] [] {} where
  next := rfl
  tables _ := rfl
  names _ _ := by simp [creations]
  nodup := List.nodup_nil
  fresh _ _ _ := rfl
  returned _ h := absurd h List.not_mem_nil

namespace Recorded

theorem getElem?_concat_of_ne {l : List Creation} {k : ℕ} (hk : k ≠ l.length) :
    (l ++ [r])[k]? = l[k]? := by
  rcases Nat.lt_or_gt_of_ne hk with hlt | hgt
  · rw [List.getElem?_append_left hlt]
  · rw [List.getElem?_eq_none (by simpa using Nat.succ_le_of_lt hgt), List.getElem?_eq_none hgt.le]

theorem mem_outs_concat (hout : ∀ id, out ≠ .ok (some id)) :
    .ok (some id) ∈ outs ++ [out] ↔ .ok (some id) ∈ outs := by
  rw [List.mem_append, List.mem_singleton]
  exact or_iff_left fun h ↦ hout id h.symm

/-- The names in the catalog are those that have been created. -/
theorem tableNames_isSome_iff (h : Recorded calls outs c)
    (hids : (creations calls outs).length < 2 ^ 32) {name : String} :
    (c.tableNames name).isSome ↔ name ∈ (creations calls outs).map Creation.tableName := by
  rw [Option.isSome_iff_exists, List.mem_map]
  constructor
  · rintro ⟨id, hid⟩
    obtain ⟨r, hr, hname⟩ := Option.map_eq_some_iff.mp ((h.names name id).mp hid)
    exact ⟨r, List.mem_of_getElem? hr, hname⟩
  · rintro ⟨r, hr, hname⟩
    obtain ⟨k, hk, hget⟩ := List.mem_iff_getElem.mp hr
    have hnat : (UInt32.ofNat k).toNat = k := by
      rw [UInt32.toNat_ofNat']
      exact Nat.mod_eq_of_lt (by omega)
    refine ⟨.ofNat k, (h.names name _).mpr ?_⟩
    rw [hnat, List.getElem?_eq_getElem hk, hget, Option.map_some, hname]

/-- Calls that create nothing and set no page. -/
theorem unchanged (h : Recorded calls outs c)
    (hsame : creations (calls ++ [call]) (outs ++ [out]) = creations calls outs)
    (hcall : ∀ id root, call ≠ .updateFirstPageId id root) (hout : ∀ id, out ≠ .ok (some id)) :
    Recorded (calls ++ [call]) (outs ++ [out]) c where
  next := by rw [hsame, h.next]
  tables id := by
    simp only [hsame, Creation.table, lastPage_concat hcall]
    exact h.tables id
  names name id := by rw [hsame, h.names]
  nodup := by
    rw [hsame]
    exact h.nodup
  fresh id page hid := by
    rw [hsame] at hid
    rw [lastPage_concat hcall, h.fresh id page hid]
  returned id hid := by
    rw [hsame]
    exact h.returned id ((mem_outs_concat hout).mp hid)

theorem setPage (h : Recorded calls outs c) {root : PageId} (hid : (c.tables id).isSome)
    (hsame : creations (calls ++ [.updateFirstPageId id root]) (outs ++ [out]) =
      creations calls outs) (hout : ∀ id, out ≠ .ok (some id)) :
    Recorded (calls ++ [.updateFirstPageId id root]) (outs ++ [out])
      (c.updateFirstPageId id root) where
  next := by
    rw [hsame]
    exact h.next
  tables id' := by
    rw [hsame, updateFirstPageId]
    dsimp only
    by_cases heq : id' = id
    · rw [heq, Function.update_self, h.tables]
      cases (creations calls outs)[id.toNat]? with
      | none => rfl
      | some r => simp [Creation.table, lastPage_concat_update]
    · simp only [Creation.table, lastPage_concat_update, if_neg (Ne.symm heq)]
      exact (Function.update_of_ne heq _ _).trans (h.tables id')
  names name id' := by
    rw [hsame]
    exact h.names name id'
  nodup := by
    rw [hsame]
    exact h.nodup
  fresh id' page hid' := by
    rw [hsame] at hid'
    have hne : id ≠ id' := by
      rintro rfl
      rw [h.tables, List.getElem?_eq_none hid'] at hid
      cases hid
    rw [lastPage_concat_update, if_neg hne, h.fresh id' page hid']
  returned id' hid' := by
    rw [hsame]
    exact h.returned id' ((mem_outs_concat hout).mp hid')

theorem create (h : Recorded calls outs c) (hcall : call.creation = some r)
    (hnew : creations (calls ++ [call]) (outs ++ [out]) = creations calls outs ++ [r])
    (hname : c.tableNames r.tableName = none) (hids : (creations calls outs).length < 2 ^ 32)
    (hout : ∀ id, out = .ok (some id) → id = c.nextTableId) :
    Recorded (calls ++ [call]) (outs ++ [out]) (c.created r) := by
  have hset : ∀ id root, call ≠ .updateFirstPageId id root := by
    rintro id root rfl
    cases hcall
  have hnewId : c.nextTableId.toNat = (creations calls outs).length := by
    rw [h.next, UInt32.toNat_ofNat']
    exact Nat.mod_eq_of_lt hids
  have hne : ∀ {id : TableId}, id ≠ c.nextTableId → id.toNat ≠ (creations calls outs).length :=
    fun hid heq ↦ hid (UInt32.toNat_inj.mp (heq.trans hnewId.symm))
  have hfree : c.tables c.nextTableId = none := by
    rw [h.tables, hnewId, List.getElem?_eq_none le_rfl, Option.map_none]
  refine ⟨?_, fun id ↦ ?_, fun name id ↦ ?_, ?_, fun id page hid ↦ ?_, fun id hid ↦ ?_⟩
  · rw [hnew, List.length_append, List.length_singleton, UInt32.ofNat_add, ← h.next]
    rfl
  · simp only [hnew, Creation.table, lastPage_concat hset, created, hfree, Option.getD_none]
    by_cases hid : id = c.nextTableId
    · rw [hid, Function.update_self, hnewId, List.getElem?_concat_length, Option.map_some,
        h.fresh _ _ hnewId.ge]
    · rw [Function.update_of_ne hid, h.tables, getElem?_concat_of_ne (hne hid)]
      rfl
  · rw [hnew, created]
    dsimp only
    by_cases hself : name = r.tableName
    · rw [hself, Function.update_self]
      by_cases hid : id = c.nextTableId
      · rw [hid, hnewId, List.getElem?_concat_length, Option.map_some]
        exact iff_of_true rfl rfl
      · rw [getElem?_concat_of_ne (hne hid), ← h.names, hname]
        exact iff_of_false (fun heq ↦ hid (Option.some.inj heq).symm) (by simp)
    · rw [Function.update_of_ne hself, h.names]
      by_cases hid : id = c.nextTableId
      · rw [hid, hnewId, List.getElem?_concat_length, List.getElem?_eq_none le_rfl]
        exact iff_of_false (by simp) fun heq ↦ hself (Option.some.inj heq).symm
      · rw [getElem?_concat_of_ne (hne hid)]
  · rw [hnew, List.map_append]
    refine List.nodup_append.mpr ⟨h.nodup, List.nodup_cons.mpr ⟨by simp, List.nodup_nil⟩, ?_⟩
    rintro name hmem _ hr rfl
    rw [← h.tableNames_isSome_iff hids, List.mem_singleton.mp hr, hname] at hmem
    cases hmem
  · rw [hnew, List.length_append] at hid
    rw [lastPage_concat hset, h.fresh id page (Nat.le_of_add_right_le hid)]
  · rw [hnew, List.length_append, List.length_singleton]
    rcases List.mem_append.mp hid with hid | hid
    · exact (h.returned id hid).trans (Nat.lt_succ_self _)
    · rw [hout id (List.mem_singleton.mp hid).symm, hnewId]
      exact Nat.lt_succ_self _

/-- **One call.** -/
theorem step (h : Recorded calls outs c) (hlen : outs.length = calls.length)
    (hs : c.step call = some (out, c'))
    (hids : (creations (calls ++ [call]) (outs ++ [out])).length < 2 ^ 32) :
    Recorded (calls ++ [call]) (outs ++ [out]) c' := by
  have hconcat := creations_concat call out hlen
  obtain ⟨hout, hcall, rfl⟩ | ⟨r, hcall, hname, hout, rfl⟩ | ⟨id, root, rfl, hid, hout, rfl⟩ :=
    step_cases hs
  · refine h.unchanged ?_ hcall ?_
    · rw [hconcat, hout]
      exact List.append_nil _
    · rintro id rfl
      cases hout
  · have hok : out.toBool = true := by
      rcases hout with rfl | rfl <;> rfl
    rw [if_pos hok, hcall] at hconcat
    rw [hconcat, Option.toList_some, List.length_append] at hids
    refine h.create hcall hconcat hname (Nat.lt_of_add_right_lt hids) ?_
    rintro id rfl
    rcases hout with hout | hout <;> cases hout
    rfl
  · refine h.setPage hid ?_ ?_
    · rw [hconcat, hout]
      exact List.append_nil _
    · rw [hout]
      rintro id ⟨⟩

end Recorded

/-- **A run of calls** from an empty catalog. -/
theorem recorded_of_run (hr : run step {} calls = some (outs, c))
    (hids : (creations calls outs).length < 2 ^ 32) : Recorded calls outs c := by
  refine run_history (P := fun _ _ ↦ True)
    (I := fun calls outs c ↦ (creations calls outs).length < 2 ^ 32 → Recorded calls outs c)
    (fun _ ↦ recorded_nil) ?_ along_true hr hids
  intro calls outs c call out c' hrun ih _ hs hids
  have hlen := run_length hrun
  have hle : (creations calls outs).length < 2 ^ 32 := by
    rw [creations_concat _ _ hlen, List.length_append] at hids
    exact Nat.lt_of_add_right_lt hids
  exact (ih hle).step hlen hs hids

/-- Where no name comes twice, one entry has this name. -/
theorem filter_tableName {l : List Creation} (hl : (l.map Creation.tableName).Nodup) (hr : r ∈ l) :
    l.filter (·.tableName = r.tableName) = [r] := by
  induction l with
  | nil => exact absurd hr List.not_mem_nil
  | cons r' l ih =>
    obtain ⟨hnot, hl⟩ := List.nodup_cons.mp hl
    have hother : ∀ r'' ∈ l, r''.tableName ≠ r'.tableName :=
      fun r'' hmem heq ↦ hnot (heq ▸ List.mem_map_of_mem hmem)
    rcases List.mem_cons.mp hr with rfl | hr
    · rw [List.filter_cons_of_pos (by simp), List.filter_eq_nil_iff.mpr (by simpa using hother)]
    · rw [List.filter_cons_of_neg (by simpa using (hother r hr).symm), ih hl hr]

/-- **Catalog consistency.**  After any run of calls with fewer than `2 ^ 32` successful creations:

* a name is found exactly if a table of that name has been created;
* then the creation is the only one of that name, and the table is found by its id too, and has
  the name and the schema of the creation and the first page that was set last;
* different names have different tables, and each table that was returned is found by its id;
* a `CreateTable` of a name that is found throws, directly or through the binder, and changes
  nothing. -/
theorem catalog_consistent (hr : run step {} calls = some (outs, c))
    (hids : (creations calls outs).length < 2 ^ 32) :
    (∀ name, (c.getTable name).isSome ↔
      name ∈ (creations calls outs).map Creation.tableName) ∧
    (∀ name id, c.getTable name = some id → ∃ info r, c.tables id = some info ∧ info.id = id ∧
      c.getTableById id = some id ∧
      (creations calls outs).filter (·.tableName = name) = [r] ∧ info.name = name ∧
      info.schema = r.schema ∧ info.firstPageId = lastPage id r.firstPage calls) ∧
    (∀ name name' id, c.getTable name = some id → c.getTable name' = some id → name = name') ∧
    (∀ id, .ok (some id) ∈ outs → c.getTableById id = some id) ∧
    (∀ name, (c.getTable name).isSome →
      (∀ schema firstPage, c.step (.createTable name schema firstPage) =
        some (.error ("Table already exists: " ++ name), c)) ∧
      ∀ columns, c.step (.bindStatement (.createTable name columns)) =
        some (.error ("Table already exists: " ++ name), c)) := by
  have h := recorded_of_run hr hids
  refine ⟨fun name ↦ h.tableNames_isSome_iff hids, fun name id hname ↦ ?_,
    fun name name' id hname hname' ↦ ?_, fun id hid ↦ ?_, fun name hname ↦ ⟨?_, ?_⟩⟩
  · obtain ⟨r, hr, rfl⟩ := Option.map_eq_some_iff.mp ((h.names name id).mp hname)
    have htable : c.tables id = some (r.table id calls) := by rw [h.tables, hr, Option.map_some]
    refine ⟨_, r, htable, rfl, ?_, filter_tableName h.nodup (List.mem_of_getElem? hr), rfl, rfl,
      rfl⟩
    exact if_pos (Option.isSome_iff_exists.mpr ⟨_, htable⟩)
  · exact Option.some.inj (((h.names name id).mp hname).symm.trans ((h.names name' id).mp hname'))
  · have htable := h.tables id
    rw [List.getElem?_eq_getElem (h.returned id hid)] at htable
    exact if_pos (Option.isSome_iff_exists.mpr ⟨_, htable⟩)
  · intro schema firstPage
    rw [CatalogManager.step, createTable_of_isSome hname]
  · intro columns
    rw [CatalogManager.step, bindStatement, bindCreateTable, createTable_of_isSome hname]

/-- Two tables, one of them by the binder, then a name that is taken, then a page. -/
def fourCalls : List Call :=
  [.createTable "a" (.create []) 5, .bindStatement (.createTable "b" [.create "id" .integer]),
    .createTable "a" (.create []) 6, .updateFirstPageId 1 7]

/-- After these calls, "b" is a table with page 7. -/
theorem catalog_consistent_four :
    ∃ outs c, run step {} fourCalls = some (outs, c) ∧ c.getTable "b" = some 1 ∧
      ∃ info r, c.tables 1 = some info ∧ info.id = 1 ∧ c.getTableById 1 = some 1 ∧
        (creations fourCalls outs).filter (·.tableName = "b") = [r] ∧ info.name = "b" ∧
        info.schema = r.schema ∧ info.firstPageId = lastPage 1 r.firstPage fourCalls := by
  refine ⟨_, _, rfl, rfl, ?_⟩
  exact (catalog_consistent (rfl : run step {} fourCalls = some (_, _))
    ((creations_length_le _ _).trans_lt (by decide))).2.1 "b" 1 rfl

end CatalogManager

end StingDB
