import StingDB.Catalog.CatalogManager
import StingDB.Lib.Tiling

/-!
# The layout of a tuple

`Schema` gives each column the offset at which the columns before it end, so that the fields of a
tuple lie side by side and take up the tuple (`Schema.Tiled`).  The offsets are `uint32_t` and
nobody looks whether they wrap.  So this is right exactly for columns that have less than `2 ^ 32`
bytes together (`tiled_iff`); with more, there are fields that overlap or lie outside the tuple.
-/

set_option autoImplicit false

namespace StingDB

open Tiling

/-- Byte `i` of a tuple belongs to the column. -/
def Column.Covers (c : Column) (i : ℕ) : Prop := c.offset ≤ i ∧ i < c.offset + c.length

namespace Schema

/-- The fields tile the tuple. -/
structure Tiled (s : Schema) : Prop where
  /-- They follow on each other, in the order of the columns and without gaps. -/
  tiles : Tiles Column.offset Column.length 0 s.columns s.getTupleFixedLength
  disjoint : s.columns.Pairwise fun c d ↦ ∀ i, ¬ (c.Covers i ∧ d.Covers i)
  inside : ∀ c ∈ s.columns, ∀ i, c.Covers i → i < s.getTupleFixedLength
  /-- The length of a tuple is the sum of the lengths of its fields. -/
  total : s.getTupleFixedLength = (s.columns.map Column.length).sum

theorem tiled_of_tiles {s : Schema}
    (h : Tiles Column.offset Column.length 0 s.columns s.getTupleFixedLength) : s.Tiled where
  tiles := h
  disjoint := h.pairwise.imp fun hcd i hi ↦ absurd (hi.2.1.trans_lt hi.1.2) (not_lt.mpr hcd)
  inside c hc i hi := hi.2.trans_le (h.inside hc).2
  total := by rw [h.hi_eq, Nat.zero_add]

theorem setOffsets_cons (n : ℕ) (col : Column) (cols : List Column) :
    setOffsets n (col :: cols) =
      ({ col with offset := n } :: (setOffsets (u32 (n + col.length)) cols).1,
        (setOffsets (u32 (n + col.length)) cols).2) := rfl

/-- Only the offsets of the columns change. -/
theorem setOffsets_columns (n : ℕ) (cols : List Column) :
    (setOffsets n cols).1.map ({ · with offset := 0 }) = cols.map ({ · with offset := 0 }) := by
  induction cols generalizing n with
  | nil => rfl
  | cons col cols ih => rw [setOffsets_cons, List.map_cons, ih, List.map_cons]

theorem setOffsets_lengths (n : ℕ) (cols : List Column) :
    (setOffsets n cols).1.map Column.length = cols.map Column.length := by
  have h := congrArg (List.map Column.length) (setOffsets_columns n cols)
  rwa [List.map_map, List.map_map] at h

/-- The loop lays out columns from `n` on exactly if they end before `2 ^ 32`. -/
theorem tiles_setOffsets_iff {n : ℕ} (hn : n < 2 ^ 32) (cols : List Column) :
    Tiles Column.offset Column.length n (setOffsets n cols).1 (setOffsets n cols).2 ↔
      n + (cols.map Column.length).sum < 2 ^ 32 := by
  constructor
  · intro h
    have hend := h.hi_eq
    rw [setOffsets_lengths, setOffsets_snd n cols hn] at hend
    rw [← hend]
    exact Nat.mod_lt _ (by decide)
  · intro hsum
    induction cols generalizing n with
    | nil => rfl
    | cons col cols ih =>
      rw [List.map_cons, List.sum_cons, ← Nat.add_assoc] at hsum
      have hlt : n + col.length < 2 ^ 32 := (Nat.le_add_right _ _).trans_lt hsum
      rw [setOffsets_cons, u32_of_lt hlt]
      exact ⟨rfl, ih hlt hsum⟩

/-- **The layout of a tuple.**  In the schema made of any columns, these are as they were but for
their offsets, and their fields tile the tuple exactly if they have less than `2 ^ 32` bytes
together. -/
theorem tiled_iff (cols : List Column) :
    (create cols).columns.map ({ · with offset := 0 }) = cols.map ({ · with offset := 0 }) ∧
      ((create cols).Tiled ↔ (cols.map Column.length).sum < 2 ^ 32) := by
  have hiff := tiles_setOffsets_iff (n := 0) (by decide) cols
  rw [Nat.zero_add] at hiff
  exact ⟨setOffsets_columns 0 cols, fun h ↦ hiff.mp h.tiles, fun h ↦ tiled_of_tiles (hiff.mpr h)⟩

/-- Three columns of 2^31, 2^31 and 4 bytes make a tuple of 4 bytes, and the first and the last of
them begin at the same byte. -/
theorem not_tiled :
    let s := create [.create "a" .varchar (2 ^ 31), .create "b" .varchar (2 ^ 31),
      .create "c" .integer]
    s.getTupleFixedLength = 4 ∧ s.columns.map Column.offset = [0, 2 ^ 31, 0] ∧ ¬ s.Tiled := by
  intro s
  have hlen : s.getTupleFixedLength = 4 := by decide
  refine ⟨hlen, by decide, fun h ↦ ?_⟩
  exact absurd (hlen.symm.trans h.total) (by decide)

end Schema

end StingDB
