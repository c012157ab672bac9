import StingDB.Lib.Alignment
import StingDB.Storage.BufferPool

/-!
# Frames as buffers of direct I/O

The file is opened with `O_DIRECT`, for which the buffers that are read into or written from are to
begin at multiples of the sector size.  The constructor of the pool aligns the array of the frames.
But a `Page` has its metadata behind its bytes, so that the frames are no multiple of the sector
size apart, and only every 256th of them is aligned (`frames_aligned_iff`).

The sizes are those of libstdc++ on x86-64.  What the kernel does with a buffer that is not aligned
depends on the file system, the device and where the file ends, and is not part of this.
-/

set_option autoImplicit false

namespace StingDB

open Alignment

namespace Page

/-- The members of `Page`, in order. -/
def members : List Member :=
  [⟨pageSize, 16⟩, -- `data_`
    ⟨4, 4⟩, -- `page_id_`
    ⟨4, 4⟩, -- `pin_count_`
    ⟨1, 1⟩, -- `is_dirty_`
    ⟨56, 8⟩] -- `rwlatch_`

/-- `sizeof(Page)`: 80 bytes more than two sectors. -/
theorem recordSize_members : recordSize members = 8272 := by decide

theorem offsets_members : offsets members = [0, 8192, 8196, 8200, 8208] := by decide

end Page

/-- What the file wants buffers to be aligned to. -/
def sectorSize : ℕ := 4096

namespace BufferPoolManager

/-- The address of `pages_[frame_id].data_`, where `pages_` is this. -/
def dataAddress (pages frameId : ℕ) : ℕ :=
  element pages (recordSize Page.members) frameId + (offsets Page.members).headD 0

theorem sectorSize_dvd_dataAddress_iff {pages : ℕ} (hpages : sectorSize ∣ pages) (f : ℕ) :
    sectorSize ∣ dataAddress pages f ↔ 256 ∣ f := by
  have hstride : sectorSize / sectorSize.gcd (recordSize Page.members) = 256 := by
    rw [Page.recordSize_members]
    decide
  rw [dataAddress, Page.offsets_members, List.headD_cons, Nat.add_zero,
    dvd_element_iff hpages (by decide), hstride]

/-- **Which frames are aligned.**  Wherever the array of the frames begins, as long as it is aligned
itself: the bytes of a frame are exactly if its index is a multiple of 256, and so those of all
frames of a pool exactly if it has one at most. -/
theorem frames_aligned_iff {pages : ℕ} (hpages : sectorSize ∣ pages) :
    (∀ f, sectorSize ∣ dataAddress pages f ↔ 256 ∣ f) ∧
      ∀ poolSize, (∀ f < poolSize, sectorSize ∣ dataAddress pages f) ↔ poolSize ≤ 1 := by
  have hframe := sectorSize_dvd_dataAddress_iff hpages
  refine ⟨hframe, fun poolSize ↦ ⟨fun hall ↦ ?_, fun hle f hf ↦ ?_⟩⟩
  · by_contra hlt
    exact absurd ((hframe 1).mp (hall 1 (not_le.mp hlt))) (by decide)
  · rw [hframe, Nat.lt_one_iff.mp (hf.trans_le hle)]
    exact dvd_zero 256

/-- An array that begins at 4096. -/
theorem frames_aligned_iff_one :
    (∀ f, sectorSize ∣ dataAddress 4096 f ↔ 256 ∣ f) ∧
      ∀ poolSize, (∀ f < poolSize, sectorSize ∣ dataAddress 4096 f) ↔ poolSize ≤ 1 :=
  frames_aligned_iff (by decide)

/-- The second frame of a pool begins 8272 bytes after the first. -/
theorem not_aligned :
    ¬ ∀ poolSize, ∀ f < poolSize, ∀ pages, sectorSize ∣ pages →
      sectorSize ∣ dataAddress pages f := by
  intro h
  exact absurd (h 2 1 (by decide) 4096 (by decide)) (by decide)

end BufferPoolManager

end StingDB
