import Mathlib.Data.Nat.GCD.Basic
import Mathlib.Order.Basic

/-!
# Alignment, and the layout of records

`padding align n` is what has to be added to `n` for a multiple of `align`, by the formula that
programs have for it; `dvd_add_padding` says that it is enough, and `padding_lt` that it is not a
whole `align` too much.

A record is laid out as a compiler does it: each member comes at the first multiple of its alignment
after the one before it (`offsets`), and the size of the record is the first multiple of the largest
alignment after the last (`recordSize`).  In an array of records a member has then a stride of that
size, and `dvd_element_iff` says which elements it is aligned in, for an alignment that the array
has and the record need not have.
-/

set_option autoImplicit false

namespace Alignment

/-! ## Padding -/

/-- What is missing from `n` to the next multiple of `align`. -/
def padding (align n : ℕ) : ℕ := (align - n % align) % align

/-- The next multiple of `align`. -/
def alignUp (align n : ℕ) : ℕ := n + padding align n

variable {align n : ℕ}

theorem padding_lt (h : 0 < align) : padding align n < align := Nat.mod_lt _ h

theorem dvd_add_padding (h : 0 < align) : align ∣ n + padding align n := by
  have hlt : n % align ≤ align := (Nat.mod_lt n h).le
  have hmod : (n + padding align n) % align = (n % align + (align - n % align)) % align := by
    rw [padding, Nat.add_mod_mod, Nat.mod_add_mod]
  rw [Nat.dvd_iff_mod_eq_zero, hmod, Nat.add_sub_of_le hlt, Nat.mod_self]

/-- Padding depends on the remainder only. -/
theorem padding_mod {m : ℕ} (h : align ∣ m) : padding align (n % m) = padding align n := by
  rw [padding, Nat.mod_mod_of_dvd n h, padding]

/-! ## Records -/

/-- A member of a record. -/
structure Member where
  size : ℕ
  align : ℕ

/-- The offsets of members that follow on `offset` bytes, and where the last of them ends. -/
def place : ℕ → List Member → List ℕ × ℕ
  | offset, [] => ([], offset)
  | offset, m :: ms =>
    let start := alignUp m.align offset
    let (starts, stop) := place (start + m.size) ms
    (start :: starts, stop)

/-- The offsets of the members of a record. -/
def offsets (ms : List Member) : List ℕ := (place 0 ms).1

/-- The alignment of a record, which is the largest of its members. -/
def recordAlign (ms : List Member) : ℕ := (ms.map Member.align).foldr max 1

/-- The size of a record, with the padding at its end. -/
def recordSize (ms : List Member) : ℕ := alignUp (recordAlign ms) (place 0 ms).2

/-! ## Arrays -/

/-- Element `i` of an array, `size` bytes each. -/
def element (base size i : ℕ) : ℕ := base + i * size

/-- **Which elements are aligned**, if the array is. -/
theorem dvd_element_iff {base size i : ℕ} (hbase : align ∣ base) (h : 0 < align) :
    align ∣ element base size i ↔ align / align.gcd size ∣ i := by
  have hgcd : 0 < align.gcd size := Nat.gcd_pos_of_pos_left size h
  have hcoprime : (align / align.gcd size).Coprime (size / align.gcd size) :=
    Nat.coprime_div_gcd_div_gcd hgcd
  rw [element, Nat.dvd_add_right hbase, ← hcoprime.dvd_mul_right]
  have hsize : size / align.gcd size * align.gcd size = size :=
    Nat.div_mul_cancel (Nat.gcd_dvd_right align size)
  have halign : align / align.gcd size * align.gcd size = align :=
    Nat.div_mul_cancel (Nat.gcd_dvd_left align size)
  calc align ∣ i * size
      ↔ align / align.gcd size * align.gcd size ∣ i * (size / align.gcd size) * align.gcd size := by
        rw [halign, Nat.mul_assoc, hsize]
    _ ↔ align / align.gcd size ∣ i * (size / align.gcd size) :=
        Nat.mul_dvd_mul_iff_right hgcd

end Alignment
