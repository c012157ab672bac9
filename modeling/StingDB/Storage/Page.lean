import StingDB.Lib.Words

/-!
# Pages

The constants of `common/config.h` and the class `Page` of `storage/page/page.h`: one frame of the
buffer pool, which is `PAGE_SIZE` bytes of data and the metadata the pool keeps beside them.

The read-write latch of a page is not among them: the pool never takes it, and the index, which
does, has the latches of its own (`Latch`).
-/

set_option autoImplicit false

namespace StingDB

/-- `PAGE_SIZE`. -/
abbrev pageSize : ℕ := 8192

/-- `PageId`, a `uint32_t`. -/
abbrev PageId := UInt32

/-- `INVALID_PAGE_ID`. -/
def invalidPageId : PageId := 0xFFFFFFFF

/-- The bytes of one page. -/
abbrev PageData := Block pageSize

/-- `Page`: the bytes and the metadata of a frame.  `pin_count_` is an `std::atomic<int>`, so it
wraps: every update of `pinCount` goes through `i32`. -/
structure Page where
  /-- `data_` -/
  data : PageData := Block.zero
  /-- `page_id_` -/
  pageId : PageId := invalidPageId
  /-- `pin_count_` -/
  pinCount : ℤ := 0
  /-- `is_dirty_` -/
  isDirty : Bool := false

namespace Page

/-- `Page::ResetMemory`. -/
def resetMemory (p : Page) : Page := { p with data := Block.zero }

/-- `Page::SetDirty`. -/
def setDirty (p : Page) (d : Bool) : Page := { p with isDirty := d }

/-- The `memcpy`s `ws` into `data_`, in order. -/
def store (p : Page) (ws : List Memcpy) : Page := { p with data := p.data.writeAll ws }

variable (p : Page) (d : Bool) (ws : List Memcpy)

@[simp] theorem setDirty_data : (p.setDirty d).data = p.data := rfl
@[simp] theorem setDirty_pageId : (p.setDirty d).pageId = p.pageId := rfl
@[simp] theorem setDirty_pinCount : (p.setDirty d).pinCount = p.pinCount := rfl
@[simp] theorem setDirty_isDirty : (p.setDirty d).isDirty = d := rfl
@[simp] theorem store_data : (p.store ws).data = p.data.writeAll ws := rfl

end Page

end StingDB
