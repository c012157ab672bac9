import StingDB.Storage.BufferPool
import StingDB.Storage.SlottedPage

/-!
# The index

`storage/index/b_plus_tree.{h,cpp}`, with the latch of `storage/page/page.h`.

A lookup goes from the root down to a leaf, and holds a pin and a latch on the node that it has come
to.  What is inside a node is not there yet: no key is compared, and the page that an inner node
leads to is always the one with the id `INVALID_PAGE_ID`.

The loop of the descent need not end, so it has `fuel`, one for each time it comes to its test.
-/

set_option autoImplicit false

namespace StingDB

/-! ## Nodes -/

/-- `BPlusTreeNodeType` -/
inductive BPlusTreeNodeType where
  | invalid
  | internal
  | leaf

/-- The number that stands for the type. -/
def BPlusTreeNodeType.value : BPlusTreeNodeType → ℕ
  | .invalid => 0
  | .internal => 1
  | .leaf => 2

namespace BPlusTreeNode

/-- The writes of `Init`: the type, the size, the maximal size and the parent. -/
def initStores (type : BPlusTreeNodeType) (maxSize : ℕ) : List Memcpy :=
  [.field 0 4 type.value, .field 4 4 0, .field 8 4 maxSize, .field 12 4 invalidPageId.toNat]

/-- `Init(type, max_size)` -/
def init (data : PageData) (type : BPlusTreeNodeType) (maxSize : ℕ) : PageData :=
  data.writeAll (initStores type maxSize)

/-- `GetType()`.  In a page that is not a node, this may be any number. -/
def getType (data : PageData) : ℕ := data.field 0 4

/-- `IsLeafPage()` -/
def IsLeafPage (data : PageData) : Prop := getType data = BPlusTreeNodeType.leaf.value

instance (data : PageData) : Decidable (IsLeafPage data) := inferInstanceAs (Decidable (_ = _))

theorem getType_init (data : PageData) (type : BPlusTreeNodeType) (maxSize : ℕ) :
    getType (init data type maxSize) = type.value := by
  have hfield := Block.field_writeAll_self data 0 4 type.value []
    [.field 4 4 0, .field 8 4 maxSize, .field 12 4 invalidPageId.toNat] (by decide)
    (by simp [Memcpy.Misses])
  refine hfield.trans ?_
  cases type <;> rfl

end BPlusTreeNode

/-! ## Latches -/

/-- `rwlatch_`: how many hold it for reading, and whether it is held for writing. -/
structure Latch where
  readers : ℕ := 0
  writer : Bool := false

namespace Latch

/-- `RLock()`.  It would wait for a writer, and there is none: nothing calls `WLock`. -/
def rLock (l : Latch) : Latch := { l with readers := l.readers + 1 }

/-- `RUnlock()` -/
def rUnlock (l : Latch) : Latch := { l with readers := l.readers - 1 }

/-- `WUnlock()` -/
def wUnlock (l : Latch) : Latch := { l with writer := false }

@[simp] theorem rUnlock_rLock (l : Latch) : l.rLock.rUnlock = l := rfl

end Latch

/-- The pool of an index, and the latches of its frames. -/
structure LatchedPool where
  /-- `*bpm_` -/
  bpm : Store
  latch : ℕ → Latch := fun _ ↦ {}

/-- Something is done to the latch of a frame. -/
def LatchedPool.onLatch (s : LatchedPool) (frameId : ℕ) (f : Latch → Latch) : LatchedPool :=
  { s with latch := Function.update s.latch frameId (f (s.latch frameId)) }

@[simp] theorem LatchedPool.onLatch_bpm (s : LatchedPool) (frameId : ℕ) (f : Latch → Latch) :
    (s.onLatch frameId f).bpm = s.bpm := rfl

/-- A latch that has been taken and released is as it was. -/
theorem LatchedPool.rUnlock_rLock (s : LatchedPool) (frameId : ℕ) :
    (s.onLatch frameId Latch.rLock).onLatch frameId Latch.rUnlock = s := by
  simp [onLatch]

/-! ## The tree -/

/-- How far a call has come: it has returned, it has used a null `Page*`, or it is still in the loop
of the descent. -/
inductive Progress (α : Type*) where
  | returned (result : α)
  | nullPage
  | running

/-- What is done after a part of a call. -/
def Progress.map {α β : Type*} (f : α → β) : Progress α → Progress β
  | returned result => returned (f result)
  | nullPage => nullPage
  | running => running

/-- `SearchContext` -/
structure SearchContext where
  page : Option ℕ := none
  isWrite : Bool := false

/-- `~SearchContext()`.  The `Unpin` is a comment. -/
def SearchContext.release (context : SearchContext) (s : LatchedPool) : LatchedPool :=
  match context.page with
  | none => s
  | some page => s.onLatch page (if context.isWrite then Latch.wUnlock else Latch.rUnlock)

/-- `BPlusTree`; `bpm_` is the pool that its calls are given. -/
structure BPlusTree where
  /-- `root_page_id_` -/
  rootPageId : PageId := invalidPageId

namespace BPlusTree

open BPlusTreeNode

/-- The loop of `FindLeafPage`, from its test on. -/
def descend : ℕ → ℕ → LatchedPool → Progress (ℕ × LatchedPool)
  | 0, _, _ => .running
  | fuel + 1, current, s =>
    if IsLeafPage (s.bpm.pool.pages current).data then .returned (current, s)
    else
      let nextPageId := invalidPageId
      match s.bpm.fetchPage nextPageId with
      | (none, _) => .nullPage
      | (some nextPage, bpm) =>
        let s := ({ s with bpm }.onLatch nextPage Latch.rLock).onLatch current Latch.rUnlock
        let bpm := (s.bpm.unpinPage (s.bpm.pool.pages current).pageId false).2
        descend fuel nextPage { s with bpm }

variable (t : BPlusTree) (fuel : ℕ)

/-- `FindLeafPage(key, context)`: the leaf, or `none` for `nullptr`, and the context. -/
def findLeafPage (_key : Int64) (context : SearchContext) (s : LatchedPool) :
    Progress (Option ℕ × SearchContext × LatchedPool) :=
  if t.rootPageId = invalidPageId then .returned (none, context, s)
  else
    match s.bpm.fetchPage t.rootPageId with
    | (none, _) => .nullPage
    | (some current, bpm) =>
      (descend fuel current ({ s with bpm }.onLatch current Latch.rLock)).map fun (current, s) ↦
        (some current, { page := some current, isWrite := false }, s)

/-- `Insert(key, rid)` -/
def insert (key : Int64) (_rid : RID) (s : LatchedPool) : Progress (Bool × LatchedPool) :=
  if t.rootPageId = invalidPageId then .returned (true, s)
  else
    (t.findLeafPage fuel key {} s).map fun (leaf, ctx, s) ↦ (leaf.isSome, ctx.release s)

/-- `FindValue(key, rid_out)`.  Nothing is written to `*rid_out`. -/
def findValue (key : Int64) (s : LatchedPool) : Progress (Bool × LatchedPool) :=
  (t.findLeafPage fuel key {} s).map fun (leaf, ctx, s) ↦ (leaf.isSome, ctx.release s)

/-- A call of the index. -/
inductive Call where
  | insert (key : Int64) (rid : RID)
  | findValue (key : Int64)

/-- One call. -/
def call (s : LatchedPool) : Call → Progress (Bool × LatchedPool)
  | .insert key rid => t.insert fuel key rid s
  | .findValue key => t.findValue fuel key s

variable {t : BPlusTree} {fuel : ℕ} {s : LatchedPool} {c : Call} {f : ℕ} {bpm : Store}

/-- Without a root, nothing is looked up. -/
theorem call_of_rootless (ht : t.rootPageId = invalidPageId) (fuel : ℕ) (s : LatchedPool)
    (c : Call) : ∃ b, t.call fuel s c = .returned (b, s) := by
  cases c with
  | insert key rid => exact ⟨true, by rw [call, insert, if_pos ht]⟩
  | findValue key =>
    refine ⟨false, ?_⟩
    rw [call, findValue, findLeafPage, if_pos ht]
    rfl

/-- All calls look up in the same way. -/
theorem call_eq_of_fetch (ht : t.rootPageId ≠ invalidPageId)
    (hf : s.bpm.fetchPage t.rootPageId = (some f, bpm)) (fuel : ℕ) (c : Call) :
    t.call fuel s c = (descend fuel f ({ s with bpm }.onLatch f Latch.rLock)).map fun r ↦
      (true, r.2.onLatch r.1 Latch.rUnlock) := by
  have hfind : ∀ key, t.findValue fuel key s =
      (descend fuel f ({ s with bpm }.onLatch f Latch.rLock)).map fun r ↦
        (true, r.2.onLatch r.1 Latch.rUnlock) := by
    intro key
    rw [findValue, findLeafPage, if_neg ht, hf]
    dsimp only
    cases descend fuel f ({ s with bpm }.onLatch f Latch.rLock) <;> rfl
  cases c with
  | insert key rid => rw [call, insert, if_neg ht, ← findValue, hfind]
  | findValue key => exact hfind key

/-- Where there is no frame for the root, the null pointer is used. -/
theorem call_eq_of_null (ht : t.rootPageId ≠ invalidPageId)
    (hf : s.bpm.fetchPage t.rootPageId = (none, bpm)) (fuel : ℕ) (c : Call) :
    t.call fuel s c = .nullPage := by
  cases c with
  | insert key rid =>
    rw [call, insert, if_neg ht, findLeafPage, if_neg ht, hf]
    rfl
  | findValue key =>
    rw [call, findValue, findLeafPage, if_neg ht, hf]
    rfl

end BPlusTree

end StingDB
