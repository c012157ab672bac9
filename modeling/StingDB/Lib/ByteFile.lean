import Mathlib.Data.List.Basic

/-!
# Files of bytes

What `pread` and `pwrite` do to a file: a read stops at the end of the file, and a write beyond it
leaves zeros between.  A file is said by its length and by the byte at every offset, which is zero
from the end on; `byte_pwrite` is the rule for the second.
-/

set_option autoImplicit false

/-- The bytes of a file. -/
abbrev ByteFile := List UInt8

namespace ByteFile

variable {f : ByteFile} {bytes : List UInt8} {len off i : ℕ}

/-- The byte at an offset. -/
def byte (f : ByteFile) (i : ℕ) : UInt8 := f.getD i 0

/-- `pread`: the bytes there are, up to `len` of them, from an offset on. -/
def pread (f : ByteFile) (len off : ℕ) : List UInt8 := (f.drop off).take len

/-- `pwrite`, of all the bytes it is given. -/
def pwrite (f : ByteFile) (bytes : List UInt8) (off : ℕ) : ByteFile :=
  f.take off ++ List.replicate (off - f.length) 0 ++ bytes ++ f.drop (off + bytes.length)

theorem length_pread : (f.pread len off).length = min len (f.length - off) := by
  rw [pread, List.length_take, List.length_drop]

/-- What is read are the bytes of the file, and where it ends there would be zeros. -/
theorem getD_pread (hi : i < len) : (f.pread len off).getD i 0 = f.byte (off + i) := by
  simp only [pread, byte, List.getD_eq_getElem?_getD, List.getElem?_take, List.getElem?_drop,
    if_pos hi]

theorem length_pwrite_head : (f.take off ++ List.replicate (off - f.length) 0).length = off := by
  rw [List.length_append, List.length_take, List.length_replicate]
  omega

/-- **A write changes the bytes it is given**, and no others. -/
theorem byte_pwrite : (f.pwrite bytes off).byte i =
    if off ≤ i ∧ i < off + bytes.length then bytes.getD (i - off) 0 else f.byte i := by
  simp only [pwrite, byte, List.getD_eq_getElem?_getD]
  rcases Nat.lt_or_ge i off with hlt | hge
  · -- before it, where there may have been nothing
    rw [if_neg (by omega), List.append_assoc,
      List.getElem?_append_left (by rw [length_pwrite_head]; exact hlt)]
    rcases Nat.lt_or_ge i f.length with hi | hi
    · rw [List.getElem?_append_left (by rw [List.length_take]; omega), List.getElem?_take,
        if_pos hlt]
    · rw [List.getElem?_append_right (by rw [List.length_take]; omega), List.getElem?_replicate,
        if_pos (by rw [List.length_take]; omega), List.getElem?_eq_none hi]
      rfl
  · rcases Nat.lt_or_ge i (off + bytes.length) with hi | hi
    · rw [if_pos ⟨hge, hi⟩, List.append_assoc,
        List.getElem?_append_right (by rw [length_pwrite_head]; exact hge), length_pwrite_head,
        List.getElem?_append_left (by omega)]
    · rw [if_neg (by omega), List.getElem?_append_right (by
        rw [List.length_append, length_pwrite_head]; exact hi), List.getElem?_drop,
        List.length_append, length_pwrite_head, Nat.add_sub_cancel' hi]

end ByteFile
