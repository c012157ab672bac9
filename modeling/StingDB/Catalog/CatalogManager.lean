import Mathlib.Logic.Function.Basic
import StingDB.Storage.Page

/-!
# The catalog

`catalog/column.h`, `schema.h`, `table_info.h` and `catalog_manager.h`, with the type ids of
`execution/vector.h`, and the statement of `sql/ast.h` that `sql/binder.h` turns into a call of the
catalog.

Lengths and offsets are `uint32_t`: the offsets of a schema are sums that wrap.  What the source
throws is the `Except.error` of its text, and a `TableInfo*` is the id of its table: `tables_` owns
the table, and nothing takes it out again.
-/

set_option autoImplicit false

namespace StingDB

/-! ## Columns and schemas -/

/-- `execution::TypeId` -/
inductive TypeId where
  | invalid
  | boolean
  | integer
  | bigint
  | float
  | double
  | varchar
  deriving DecidableEq

/-- The length that the constructor of `Column` takes where it is given none. -/
def TypeId.defaultLength : TypeId → ℕ
  | .boolean => 1
  | .integer => 4
  | .bigint | .double => 8
  | .float => 4
  | .varchar => 255
  | .invalid => 0

/-- `Column` -/
structure Column where
  /-- `name_` -/
  name : String
  /-- `type_` -/
  type : TypeId
  /-- `length_` -/
  length : ℕ
  /-- `offset_` -/
  offset : ℕ := 0

/-- `Column(name, type, length)` -/
def Column.create (name : String) (type : TypeId) (length : ℕ := 0) : Column :=
  { name, type, length := if length = 0 then type.defaultLength else length }

/-- `Schema` -/
structure Schema where
  /-- `columns_` -/
  columns : List Column
  /-- `tuple_fixed_size_` -/
  tupleFixedSize : ℕ

namespace Schema

/-- The loop of the constructor: the columns with their offsets, and the offset after the last. -/
def setOffsets : ℕ → List Column → List Column × ℕ
  | currentOffset, [] => ([], currentOffset)
  | currentOffset, col :: cols =>
    let (rest, size) := setOffsets (u32 (currentOffset + col.length)) cols
    ({ col with offset := currentOffset } :: rest, size)

/-- `Schema(columns)` -/
def create (columns : List Column) : Schema :=
  { columns := (setOffsets 0 columns).1, tupleFixedSize := (setOffsets 0 columns).2 }

/-- `GetTupleFixedLength`. -/
def getTupleFixedLength (s : Schema) : ℕ := s.tupleFixedSize

theorem setOffsets_snd (n : ℕ) (cols : List Column) (hn : n < 2 ^ 32) :
    (setOffsets n cols).2 = u32 (n + (cols.map Column.length).sum) := by
  induction cols generalizing n with
  | nil => exact (u32_of_lt hn).symm
  | cons col cols ih =>
    have hstep : (setOffsets n (col :: cols)).2 =
        (setOffsets (u32 (n + col.length)) cols).2 := rfl
    have hlt : u32 (n + col.length) < 2 ^ 32 := Nat.mod_lt _ (by decide)
    rw [hstep, ih _ hlt, List.map_cons, List.sum_cons, ← Nat.add_assoc]
    simp [u32]

/-- The length of a tuple is the sum of the lengths of its columns, modulo `2 ^ 32`. -/
theorem getTupleFixedLength_create (cols : List Column) :
    (create cols).getTupleFixedLength = u32 (cols.map Column.length).sum := by
  have h := setOffsets_snd 0 cols (by decide)
  rwa [Nat.zero_add] at h

end Schema

/-! ## Tables -/

/-- `TableId`, a `uint32_t`. -/
abbrev TableId := UInt32

/-- `TableInfo` -/
structure TableInfo where
  /-- `id_` -/
  id : TableId
  /-- `name_` -/
  name : String
  /-- `schema_` -/
  schema : Schema
  /-- `first_page_id_` -/
  firstPageId : PageId

/-- `CatalogManager` -/
structure CatalogManager where
  /-- `next_table_id_` -/
  nextTableId : TableId := 0
  /-- `tables_` -/
  tables : TableId → Option TableInfo := fun _ ↦ none
  /-- `table_names_` -/
  tableNames : String → Option TableId := fun _ ↦ none

namespace CatalogManager

/-- `CreateTable`.  `emplace` leaves a table alone that has the id already. -/
def createTable (c : CatalogManager) (tableName : String) (schema : Schema) (firstPage : PageId) :
    Except String CatalogManager :=
  if (c.tableNames tableName).isSome then .error ("Table already exists: " ++ tableName)
  else
    let newId := c.nextTableId
    let tableInfo : TableInfo := ⟨newId, tableName, schema, firstPage⟩
    .ok
      { nextTableId := newId + 1
        tables := Function.update c.tables newId (some ((c.tables newId).getD tableInfo))
        tableNames := Function.update c.tableNames tableName (some newId) }

/-- `GetTable(table_name)`: the table, or `none` for `nullptr`. -/
def getTable (c : CatalogManager) (tableName : String) : Option TableId := c.tableNames tableName

/-- `UpdateFirstPageId` of the table with this id. -/
def updateFirstPageId (c : CatalogManager) (id : TableId) (root : PageId) : CatalogManager :=
  { c with
    tables := Function.update c.tables id
      ((c.tables id).map fun t ↦ { t with firstPageId := root }) }

/-- `BindStatement` of a `CreateStatement`, which is the only statement there is.  Its table has no
page yet. -/
def bindCreateTable (c : CatalogManager) (tableName : String) (columns : List Column) :
    Except String CatalogManager :=
  c.createTable tableName (.create columns) invalidPageId

end CatalogManager

end StingDB
