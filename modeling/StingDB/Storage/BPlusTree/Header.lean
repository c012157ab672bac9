import StingDB.Lib.Machine
import StingDB.Storage.BPlusTree

/-!
# The header of a node

The first 16 bytes of a node are four integers: its type, its size, its maximal size and its
parent.  `BPlusTreeNode` reads and writes them where they are in the page; here they are a record
(`NodeHeader`), and a sequence of its operations comes to the same with either
(`node_refines_header`): no field runs into another, and the bytes from 16 on, where the keys will
be, are left alone.

Sizes are `uint32_t` and `IncreaseSize` takes an `int`, so that a node can become smaller as well,
below zero too: it has a size of almost `2 ^ 32` then.
-/

set_option autoImplicit false

namespace StingDB

open Machine

/-! ## The bytes -/

namespace BPlusTreeNode

/-- `HEADER_SIZE` -/
def headerSize : ℕ := 16

/-- `GetSize()` -/
def getSize (data : PageData) : ℕ := data.field 4 4

/-- `SetSize(size)` -/
def setSize (data : PageData) (size : ℕ) : PageData := data.writeAll [.field 4 4 size]

/-- `static_cast<uint32_t>(by)`, of an `int`. -/
def toUnsigned (n : ℤ) : ℕ := (n % 2 ^ 32).toNat

/-- `IncreaseSize(by)` -/
def increaseSize (data : PageData) (n : ℤ) : PageData :=
  setSize data (u32 (getSize data + toUnsigned n))

/-- `GetMaxSize()` -/
def getMaxSize (data : PageData) : ℕ := data.field 8 4

/-- `GetParentPageId()` -/
def getParentPageId (data : PageData) : PageId := .ofNat (data.field 12 4)

/-- `SetParentPageId(parent)` -/
def setParentPageId (data : PageData) (parent : PageId) : PageData :=
  data.writeAll [.field 12 4 parent.toNat]

/-- `IsRootPage()` -/
def IsRootPage (data : PageData) : Prop := getParentPageId data = invalidPageId

instance (data : PageData) : Decidable (IsRootPage data) := inferInstanceAs (Decidable (_ = _))

end BPlusTreeNode

/-! ## The record -/

/-- The header of a node, as a record. -/
structure NodeHeader where
  type : ℕ
  size : ℕ
  maxSize : ℕ
  parent : PageId
  deriving DecidableEq

open BPlusTreeNode

/-- What is done to a node. -/
inductive NodeOp where
  | init (type : BPlusTreeNodeType) (maxSize : UInt32)
  | getType
  | getSize
  | setSize (size : UInt32)
  | increaseSize (n : ℤ)
  | getMaxSize
  | getParentPageId
  | setParentPageId (parent : PageId)
  | isLeafPage
  | isRootPage

/-- What it returns. -/
inductive NodeOut where
  | void
  | number (n : ℕ)
  | pageId (p : PageId)
  | flag (b : Bool)
  deriving DecidableEq

/-- An operation on the bytes. -/
def nodeStep (data : PageData) : NodeOp → Option (NodeOut × PageData)
  | .init type maxSize => some (.void, BPlusTreeNode.init data type maxSize.toNat)
  | .getType => some (.number (BPlusTreeNode.getType data), data)
  | .getSize => some (.number (BPlusTreeNode.getSize data), data)
  | .setSize size => some (.void, BPlusTreeNode.setSize data size.toNat)
  | .increaseSize n => some (.void, BPlusTreeNode.increaseSize data n)
  | .getMaxSize => some (.number (BPlusTreeNode.getMaxSize data), data)
  | .getParentPageId => some (.pageId (BPlusTreeNode.getParentPageId data), data)
  | .setParentPageId parent => some (.void, BPlusTreeNode.setParentPageId data parent)
  | .isLeafPage => some (.flag (IsLeafPage data), data)
  | .isRootPage => some (.flag (IsRootPage data), data)

/-- The same on the record. -/
def NodeHeader.step (h : NodeHeader) : NodeOp → Option (NodeOut × NodeHeader)
  | .init type maxSize => some (.void, ⟨type.value, 0, maxSize.toNat, invalidPageId⟩)
  | .getType => some (.number h.type, h)
  | .getSize => some (.number h.size, h)
  | .setSize size => some (.void, { h with size := size.toNat })
  | .increaseSize n => some (.void, { h with size := ((h.size + n) % 2 ^ 32).toNat })
  | .getMaxSize => some (.number h.maxSize, h)
  | .getParentPageId => some (.pageId h.parent, h)
  | .setParentPageId parent => some (.void, { h with parent })
  | .isLeafPage => some (.flag (h.type = BPlusTreeNodeType.leaf.value), h)
  | .isRootPage => some (.flag (h.parent = invalidPageId), h)

/-- The record that is in the bytes. -/
def nodeHeader (data : PageData) : NodeHeader :=
  ⟨getType data, getSize data, getMaxSize data, getParentPageId data⟩

/-! ## What an operation does to it -/

variable {data data' : PageData} {o : NodeOut} {e : NodeOp}

/-- A field of the header that is written. -/
theorem field_write_self {off v : ℕ} (hoff : off + 4 ≤ headerSize) :
    (data.writeAll [.field off 4 v]).field off 4 = v % 2 ^ 32 :=
  Block.field_writeAll_self data off 4 v [] [] (hoff.trans (by decide)) (by simp)

/-- A field of the header beside it. -/
theorem field_write_of_ne {off off' v : ℕ} (h : off + 4 ≤ off' ∨ off' + 4 ≤ off) :
    (data.writeAll [.field off 4 v]).field off' 4 = data.field off' 4 := by
  refine Block.field_writeAll_of_disjoint data fun u hu ↦ ?_
  obtain rfl := List.mem_singleton.mp hu
  simpa [Memcpy.Misses, Memcpy.stop] using h

theorem header_setSize (size : ℕ) :
    nodeHeader (BPlusTreeNode.setSize data size) =
      { nodeHeader data with size := size % 2 ^ 32 } := by
  simp only [nodeHeader, BPlusTreeNode.setSize, BPlusTreeNode.getType, BPlusTreeNode.getSize,
    BPlusTreeNode.getMaxSize, BPlusTreeNode.getParentPageId, NodeHeader.mk.injEq]
  exact ⟨field_write_of_ne (by decide), field_write_self (by decide), field_write_of_ne (by decide),
    congrArg _ (field_write_of_ne (by decide))⟩

theorem header_setParentPageId (parent : PageId) :
    nodeHeader (BPlusTreeNode.setParentPageId data parent) = { nodeHeader data with parent } := by
  simp only [nodeHeader, BPlusTreeNode.setParentPageId, BPlusTreeNode.getType,
    BPlusTreeNode.getSize, BPlusTreeNode.getMaxSize, BPlusTreeNode.getParentPageId,
    NodeHeader.mk.injEq]
  refine ⟨field_write_of_ne (by decide), field_write_of_ne (by decide),
    field_write_of_ne (by decide), ?_⟩
  rw [field_write_self (by decide), Nat.mod_eq_of_lt parent.toNat_lt, UInt32.ofNat_toNat]

/-- The stores of `Init`, one after the other. -/
theorem header_init (type : BPlusTreeNodeType) (maxSize : UInt32) :
    nodeHeader (BPlusTreeNode.init data type maxSize.toNat) =
      ⟨type.value, 0, maxSize.toNat, invalidPageId⟩ := by
  have hsize := Block.field_writeAll_self data 4 4 0 [.field 0 4 type.value]
    [.field 8 4 maxSize.toNat, .field 12 4 invalidPageId.toNat] (by decide)
    (by simp [Memcpy.Misses])
  have hmax := Block.field_writeAll_self data 8 4 maxSize.toNat
    [.field 0 4 type.value, .field 4 4 0] [.field 12 4 invalidPageId.toNat] (by decide)
    (by simp [Memcpy.Misses])
  have hparent := Block.field_writeAll_self data 12 4 invalidPageId.toNat
    [.field 0 4 type.value, .field 4 4 0, .field 8 4 maxSize.toNat] [] (by decide) (by simp)
  simp only [nodeHeader, getType_init, NodeHeader.mk.injEq, true_and]
  refine ⟨hsize, hmax.trans (Nat.mod_eq_of_lt maxSize.toNat_lt), ?_⟩
  rw [BPlusTreeNode.getParentPageId]
  exact (congrArg _ hparent).trans rfl

/-- `IncreaseSize` adds an integer, modulo `2 ^ 32`. -/
theorem u32_add_toUnsigned (size : ℕ) (n : ℤ) :
    u32 (size + toUnsigned n) = ((size + n) % 2 ^ 32).toNat := by
  rw [u32, toUnsigned]
  omega

/-- The bytes from 16 on are left alone by stores before them. -/
theorem read_writeAll_of_header {ws : List Memcpy} (h : ∀ w ∈ ws, w.stop ≤ headerSize)
    {off len : ℕ} (hoff : headerSize ≤ off) : (data.writeAll ws).read off len = data.read off len :=
  Block.read_writeAll_of_disjoint data fun w hw ↦ Or.inl ((h w hw).trans hoff)

/-- **One operation.** -/
theorem node_step (hs : nodeStep data e = some (o, data')) :
    (nodeHeader data).step e = some (o, nodeHeader data') ∧
      ∀ off len, headerSize ≤ off → data'.read off len = data.read off len := by
  cases e with
  | init type maxSize =>
    cases hs
    refine ⟨by rw [NodeHeader.step, header_init],
      fun off len hoff ↦ read_writeAll_of_header ?_ hoff⟩
    simp [initStores, Memcpy.stop, headerSize]
  | setSize size =>
    cases hs
    refine ⟨?_, fun off len hoff ↦ read_writeAll_of_header (by simp [Memcpy.stop, headerSize]) hoff⟩
    rw [NodeHeader.step, header_setSize, Nat.mod_eq_of_lt size.toNat_lt]
  | increaseSize n =>
    cases hs
    refine ⟨?_, fun off len hoff ↦ read_writeAll_of_header (by simp [Memcpy.stop, headerSize]) hoff⟩
    rw [NodeHeader.step, increaseSize, header_setSize, u32_add_toUnsigned, nodeHeader,
      Nat.mod_eq_of_lt (by omega)]
  | setParentPageId parent =>
    cases hs
    refine ⟨?_, fun off len hoff ↦ read_writeAll_of_header (by simp [Memcpy.stop, headerSize]) hoff⟩
    rw [NodeHeader.step, header_setParentPageId]
  | _ =>
    cases hs
    exact ⟨rfl, fun _ _ _ ↦ rfl⟩

/-- **A node is its header.**  For every page, whatever is in it, and every sequence of operations
on it: they return what they do on a record of four integers that starts as the page has them, and
leave the bytes behind the header as they were. -/
theorem node_refines_header {es : List NodeOp} {os : List NodeOut}
    (hr : run nodeStep data es = some (os, data')) :
    run NodeHeader.step (nodeHeader data) es = some (os, nodeHeader data') ∧
      ∀ off len, headerSize ≤ off → data'.read off len = data.read off len := by
  induction es generalizing data os with
  | nil =>
    cases hr
    exact ⟨rfl, fun _ _ _ ↦ rfl⟩
  | cons e es ih =>
    obtain ⟨o, data₁, os', hs, hr', rfl⟩ := run_cons.mp hr
    obtain ⟨hstep, hbytes⟩ := node_step hs
    obtain ⟨hrun, hrest⟩ := ih hr'
    exact ⟨run_cons.mpr ⟨o, _, os', hstep, hrun, rfl⟩,
      fun off len hoff ↦ (hrest off len hoff).trans (hbytes off len hoff)⟩

/-- A node that loses more than it has. -/
example (h : NodeHeader) : run NodeHeader.step h [.setSize 3, .increaseSize (-5), .getSize] =
    some ([.void, .void, .number 4294967294], { h with size := 4294967294 }) :=
  rfl

end StingDB
