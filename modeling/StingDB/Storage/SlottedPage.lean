import StingDB.Storage.Page

/-!
# Slotted pages

`storage/table/slotted_page.{h,cpp}`: variable-length tuples in one page.

```
| LSN (8) | tuple count (2) | free space pointer (2) | slot array -> | ... free ... | <- tuples |
```

A slot is four bytes, the offset and the size of its tuple, both `uint16_t`.  The slot array grows
up from `headerSize`, the tuples grow down from the end of the page, and the free space is what
lies between.

A function that writes the page is given by the list of its `memcpy`s (`initStores`,
`insertStores`, `deleteStores`) and performs them with `Page.store`.  So which bytes a call writes
can be asked of the list, including the bytes that would land outside the page, which the page
itself cannot show.  Each of these functions reads everything it needs before its first write, so
computing the list first changes nothing.

What a `std::size_t`, `int` or `uint16_t` does here is explicit: `u16` stands where the source
casts or assigns to `uint16_t`, and the admission test subtracts in `int`, that is in `ℤ`.
-/

set_option autoImplicit false

namespace StingDB

/-- `RID`, a record id. -/
structure RID where
  /-- `page_id` -/
  pageId : PageId := invalidPageId
  /-- `slot_num` -/
  slotNum : UInt32 := 0
  deriving DecidableEq

namespace SlottedPage

/-- `LSN_OFFSET` -/
abbrev lsnOffset : ℕ := 0
/-- `TUPLE_COUNT_OFFSET` -/
abbrev tupleCountOffset : ℕ := 8
/-- `FREE_SPACE_OFFSET` -/
abbrev freeSpaceOffset : ℕ := 10
/-- `HEADER_SIZE` -/
abbrev headerSize : ℕ := 12
/-- `SLOT_SIZE` -/
abbrev slotSize : ℕ := 4

/-! ## The header -/

/-- `GetLSN`. -/
def getLSN (p : Page) : ℕ := p.data.field lsnOffset 8

/-- `GetTupleCount`. -/
def getTupleCount (p : Page) : ℕ := p.data.field tupleCountOffset 2

/-- `GetFreeSpacePointer`. -/
def getFreeSpacePointer (p : Page) : ℕ := p.data.field freeSpaceOffset 2

/-- The `memcpy` of `SetLSN`. -/
def lsnStore (lsn : ℕ) : Memcpy := .field lsnOffset 8 lsn

/-- The `memcpy` of `SetTupleCount`. -/
def tupleCountStore (count : ℕ) : Memcpy := .field tupleCountOffset 2 count

/-- The `memcpy` of `SetFreeSpacePointer`. -/
def freeSpaceStore (pointer : ℕ) : Memcpy := .field freeSpaceOffset 2 pointer

/-- `SetLSN`. -/
def setLSN (p : Page) (lsn : ℕ) : Page := p.store [lsnStore lsn]

/-- The writes of `Init` after `ResetMemory`. -/
def initStores : List Memcpy := [lsnStore 0, tupleCountStore 0, freeSpaceStore (u16 pageSize)]

/-- `Init`. -/
def init (p : Page) : Page := p.resetMemory.store initStores

/-! ## Slots -/

/-- Where slot `k` starts: `static_cast<uint16_t>(HEADER_SIZE + k * SLOT_SIZE)`. -/
def slotOffset (k : ℕ) : ℕ := u16 (headerSize + k * slotSize)

/-- The tuple offset stored in slot `k`. -/
def tupleOffset (p : Page) (k : ℕ) : ℕ := p.data.field (slotOffset k) 2

/-- The tuple size stored in slot `k`. -/
def tupleSize (p : Page) (k : ℕ) : ℕ := p.data.field (slotOffset k + 2) 2

/-! ## Operations -/

/-- The two tests of `InsertTuple`: the tuple's size fits in 16 bits, and the free space, computed
in `int`, is at least the required space, which has been cast to `uint16_t`. -/
def Admits (p : Page) (tuple : List UInt8) : Prop :=
  tuple.length ≤ 65535 ∧
    ¬ (getFreeSpacePointer p : ℤ) - slotOffset (getTupleCount p) <
      u16 (u16 tuple.length + slotSize)

instance (p : Page) (tuple : List UInt8) : Decidable (Admits p tuple) :=
  inferInstanceAs (Decidable (_ ∧ _))

/-- `free_space -= tuple_size` on a `uint16_t`. -/
def loweredPointer (p : Page) (tuple : List UInt8) : ℕ :=
  u16 (getFreeSpacePointer p + 2 ^ 16 - u16 tuple.length)

/-- The writes of an `InsertTuple` that passed its tests: the free space pointer, the tuple, the two
fields of its slot and the tuple count. -/
def insertStores (p : Page) (tuple : List UInt8) : List Memcpy :=
  [freeSpaceStore (loweredPointer p tuple),
    ⟨loweredPointer p tuple, tuple⟩,
    .field (slotOffset (getTupleCount p)) 2 (loweredPointer p tuple),
    .field (slotOffset (getTupleCount p) + 2) 2 (u16 tuple.length),
    tupleCountStore (u16 (getTupleCount p + 1))]

/-- `InsertTuple`: the result, `*rid` and the page.  Of a tuple that is copied past the end of the
page (as one of 65532 to 65535 bytes is, once admitted) the bytes behind the page are dropped; in
the source they overwrite the pin count of the page and the frames that follow.  What is written
there is in `insertStores`. -/
def insertTuple (p : Page) (tuple : List UInt8) (rid : RID) : Bool × RID × Page :=
  if Admits p tuple then
    (true, ⟨p.pageId, .ofNat (getTupleCount p)⟩, (p.store (insertStores p tuple)).setDirty true)
  else (false, rid, p)

/-- `GetTuple`: the tuple, or `none` where the source returns `false`.  A slot number is compared
with the count before it is used, and a size of zero marks a dead record. -/
def getTuple (p : Page) (rid : RID) : Option (List UInt8) :=
  if getTupleCount p ≤ rid.slotNum.toNat then none
  else if tupleSize p rid.slotNum.toNat = 0 then none
  else some (p.data.read (tupleOffset p rid.slotNum.toNat) (tupleSize p rid.slotNum.toNat))

/-- The one write of a `MarkDelete` that finds its slot. -/
def deleteStores (rid : RID) : List Memcpy := [.field (slotOffset rid.slotNum.toNat + 2) 2 0]

/-- `MarkDelete`: the result and the page. -/
def markDelete (p : Page) (rid : RID) : Bool × Page :=
  if getTupleCount p ≤ rid.slotNum.toNat then (false, p)
  else (true, (p.store (deleteStores rid)).setDirty true)

/-! ## Sequences of calls -/

/-- One call on a slotted page. -/
inductive Op where
  | insertTuple (tuple : List UInt8)
  | markDelete (rid : RID)
  | setLSN (lsn : UInt64)
  | getTuple (rid : RID)
  | getLSN

/-- What a call returns. -/
inductive Out where
  | inserted (result : Bool) (rid : RID)
  | deleted (result : Bool)
  | done
  | tuple (result : Option (List UInt8))
  | lsn (lsn : ℕ)

/-- The page after a call. -/
def next (p : Page) : Op → Page
  | .insertTuple tuple => (insertTuple p tuple {}).2.2
  | .markDelete rid => (markDelete p rid).2
  | .setLSN lsn => setLSN p lsn.toNat
  | .getTuple _ => p
  | .getLSN => p

/-- What the call returns. -/
def out (p : Page) : Op → Out
  | .insertTuple tuple => .inserted (insertTuple p tuple {}).1 (insertTuple p tuple {}).2.1
  | .markDelete rid => .deleted (markDelete p rid).1
  | .setLSN _ => .done
  | .getTuple rid => .tuple (getTuple p rid)
  | .getLSN => .lsn (getLSN p)

/-- The machine whose runs are the sequences of calls on one page. -/
def step (p : Page) (op : Op) : Option (Out × Page) := some (out p op, next p op)

/-- The writes a call makes. -/
def writes (p : Page) : Op → List Memcpy
  | .insertTuple tuple => if Admits p tuple then insertStores p tuple else []
  | .markDelete rid => if getTupleCount p ≤ rid.slotNum.toNat then [] else deleteStores rid
  | .setLSN lsn => [lsnStore lsn.toNat]
  | .getTuple _ => []
  | .getLSN => []

/-- The bytes after a call are those before it with its writes performed. -/
theorem next_data (p : Page) (op : Op) : (next p op).data = p.data.writeAll (writes p op) := by
  cases op with
  | insertTuple tuple => rw [next, insertTuple, writes]; split <;> rfl
  | markDelete rid => rw [next, markDelete, writes]; split <;> rfl
  | setLSN lsn => rfl
  | getTuple rid => rfl
  | getLSN => rfl

end SlottedPage

end StingDB
