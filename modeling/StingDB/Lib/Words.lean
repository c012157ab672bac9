import Mathlib.Data.List.Basic
import Mathlib.Tactic.NormNum

/-!
# Fixed-width integers, little-endian fields and blocks of bytes

What a C++ program does with narrow integers, and with `memcpy` into and out of a fixed array, as
three small theories.

* `u16`, `u32`, `u64` and `i32` are the conversions to `uint16_t`, `uint32_t`, `uint64_t` and a
  wrapping `int`; a fixed-width quantity is a `ℕ` or a `ℤ` that one of them has been applied to.
* `encodeLE w v` and `decodeLE` are the little-endian bytes of an unsigned integer `w` bytes wide.
  `decodeLE_encodeLE` is the round trip, with the reduction modulo `256 ^ w` that storing into a
  narrow field performs.
* `Block n` is an array of `n` bytes, with `Block.read` and `Block.write` for a `memcpy` from and
  to an offset.  A `Memcpy` is one such write as a value, so that a function's writes can be
  spoken of as a list (`Block.writeAll`) before they are performed.

The rules that everything above rests on are `Block.read_write_self` (what was written is read
back), `Block.read_write_of_disjoint` (a read elsewhere does not see the write), with their versions
for one write of a whole list and for an integer field of the block.
-/

set_option autoImplicit false

/-! ## Fixed-width integers -/

/-- Conversion to `uint16_t`. -/
def u16 (v : ℕ) : ℕ := v % 2 ^ 16

/-- Conversion to `uint32_t`. -/
def u32 (v : ℕ) : ℕ := v % 2 ^ 32

/-- Conversion to `uint64_t` or `size_t`. -/
def u64 (v : ℕ) : ℕ := v % 2 ^ 64

/-- The two's complement `int` a sum or difference wraps to. -/
def i32 (v : ℤ) : ℤ := v.bmod (2 ^ 32)

theorem u16_of_lt {v : ℕ} (h : v < 2 ^ 16) : u16 v = v := Nat.mod_eq_of_lt h

theorem u32_of_lt {v : ℕ} (h : v < 2 ^ 32) : u32 v = v := Nat.mod_eq_of_lt h

theorem u64_of_lt {v : ℕ} (h : v < 2 ^ 64) : u64 v = v := Nat.mod_eq_of_lt h

@[simp] theorem i32_i32_add (v w : ℤ) : i32 (i32 v + w) = i32 (v + w) := Int.bmod_add_bmod

@[simp] theorem i32_i32_sub (v w : ℤ) : i32 (i32 v - w) = i32 (v - w) := Int.bmod_sub_bmod

theorem i32_of_lt {v : ℤ} (h₁ : -2 ^ 31 ≤ v) (h₂ : v < 2 ^ 31) : i32 v = v :=
  Int.bmod_eq_of_le (by norm_num; omega) (by norm_num; omega)

theorem i32_lt (v : ℤ) : i32 v < 2 ^ 31 := by
  have hlt := Int.bmod_lt (x := v) (m := 2 ^ 32) (by decide)
  simpa [i32] using hlt

/-- A count that has not gone once round the 32 bits reads as `1` only when it is `1`. -/
theorem i32_natCast_eq_one_iff {k : ℕ} (h : k ≤ 2 ^ 32) : i32 k = 1 ↔ k = 1 := by
  rw [i32, Int.bmod_eq_emod]
  norm_num
  split <;> omega

/-! ## Little-endian integers -/

/-- The low `w` bytes of `v`, least significant first. -/
def encodeLE : ℕ → ℕ → List UInt8
  | 0, _ => []
  | w + 1, v => UInt8.ofNat v :: encodeLE w (v / 256)

/-- The integer whose little-endian bytes these are. -/
def decodeLE : List UInt8 → ℕ
  | [] => 0
  | b :: bs => b.toNat + 256 * decodeLE bs

@[simp] theorem length_encodeLE (w v : ℕ) : (encodeLE w v).length = w := by
  induction w generalizing v with
  | zero => rfl
  | succ w ih => rw [encodeLE, List.length_cons, ih]

/-- **The round trip**: a `w`-byte field holds its value modulo `256 ^ w`. -/
theorem decodeLE_encodeLE (w v : ℕ) : decodeLE (encodeLE w v) = v % 256 ^ w := by
  induction w generalizing v with
  | zero => simp [encodeLE, decodeLE, Nat.mod_one]
  | succ w ih =>
    have hb : (UInt8.ofNat v).toNat = v % 256 := by simp
    rw [encodeLE, decodeLE, ih, hb, pow_succ', Nat.mod_mul]

theorem decodeLE_lt (bs : List UInt8) : decodeLE bs < 256 ^ bs.length := by
  induction bs with
  | nil => exact Nat.one_pos
  | cons b bs ih =>
    have hb := b.toNat_lt
    rw [decodeLE, List.length_cons, pow_succ']
    omega

/-! ## Blocks -/

/-- An array of `n` bytes. -/
abbrev Block (n : ℕ) := Fin n → UInt8

/-- One `memcpy` into a block: where it goes and the bytes it copies. -/
structure Memcpy where
  /-- Offset of the first byte written. -/
  dst : ℕ
  /-- The bytes. -/
  src : List UInt8
  deriving DecidableEq

/-- The offset one past the last byte written. -/
def Memcpy.stop (w : Memcpy) : ℕ := w.dst + w.src.length

/-- The write and the range `[off, off + len)` have no byte in common. -/
def Memcpy.Misses (w : Memcpy) (off len : ℕ) : Prop := w.stop ≤ off ∨ off + len ≤ w.dst

instance (w : Memcpy) (off len : ℕ) : Decidable (w.Misses off len) :=
  inferInstanceAs (Decidable (_ ∨ _))

/-- The `memcpy` that stores the integer `v` in the `w`-byte field at `off`. -/
def Memcpy.field (off w v : ℕ) : Memcpy := ⟨off, encodeLE w v⟩

@[simp] theorem Memcpy.field_dst (off w v : ℕ) : (Memcpy.field off w v).dst = off := rfl

@[simp] theorem Memcpy.length_field (off w v : ℕ) : (Memcpy.field off w v).src.length = w :=
  length_encodeLE w v

namespace Block

variable {n : ℕ}

/-- The block of zeros. -/
def zero : Block n := fun _ ↦ 0

/-- The byte at an offset; reads past the end give `0`. -/
def byte (b : Block n) (i : ℕ) : UInt8 := if h : i < n then b ⟨i, h⟩ else 0

/-- The `len` bytes from offset `off` on. -/
def read (b : Block n) (off len : ℕ) : List UInt8 :=
  (List.range len).map fun i ↦ b.byte (off + i)

/-- Copy `w.src` to offset `w.dst`.  Bytes that would land past the end are not part of the block
and are dropped here; whether there were any is a question about `w`, not about the result. -/
def write (b : Block n) (w : Memcpy) : Block n := fun i ↦
  if w.dst ≤ i then w.src.getD (i - w.dst) (b i) else b i

/-- A list of writes, performed in order. -/
def writeAll (b : Block n) (ws : List Memcpy) : Block n := ws.foldl write b

@[simp] theorem length_read (b : Block n) (off len : ℕ) : (b.read off len).length = len := by
  simp [read]

theorem byte_of_lt (b : Block n) {i : ℕ} (h : i < n) : b.byte i = b ⟨i, h⟩ := by
  rw [byte, dif_pos h]

theorem byte_write_of_outside (b : Block n) (w : Memcpy) {i : ℕ} (h : i < w.dst ∨ w.stop ≤ i) :
    (b.write w).byte i = b.byte i := by
  rw [Memcpy.stop] at h
  by_cases hi : i < n
  · rw [byte_of_lt _ hi, byte_of_lt _ hi, write]
    split
    · rename_i hd
      have hd : w.dst ≤ i := hd
      have hlen : w.src.length ≤ i - w.dst := by omega
      simp [List.getD_eq_getElem?_getD, hlen]
    · rfl
  · simp [byte, hi]

theorem byte_write_of_inside (b : Block n) (w : Memcpy) {i : ℕ} (h : i < w.src.length)
    (hn : w.dst + i < n) : (b.write w).byte (w.dst + i) = w.src[i] := by
  rw [byte_of_lt _ hn, write, if_pos (by simp)]
  simp [List.getD_eq_getElem?_getD, h]

/-- **What was written is read back**, when the whole write lies inside the block. -/
theorem read_write_self (b : Block n) (w : Memcpy) (h : w.stop ≤ n) :
    (b.write w).read w.dst w.src.length = w.src := by
  rw [Memcpy.stop] at h
  refine List.ext_getElem (by simp) fun i h₁ h₂ ↦ ?_
  simp only [read, List.getElem_map, List.getElem_range]
  exact byte_write_of_inside b w h₂ (by omega)

/-- **A read elsewhere does not see the write.** -/
theorem read_write_of_disjoint (b : Block n) (w : Memcpy) {off len : ℕ} (h : w.Misses off len) :
    (b.write w).read off len = b.read off len := by
  refine List.map_congr_left fun i hi ↦ byte_write_of_outside b w ?_
  rw [List.mem_range] at hi
  rcases h with h | h <;> omega

theorem read_writeAll_of_disjoint (b : Block n) {ws : List Memcpy} {off len : ℕ}
    (h : ∀ w ∈ ws, w.Misses off len) : (b.writeAll ws).read off len = b.read off len := by
  induction ws generalizing b with
  | nil => rfl
  | cons w ws ih =>
    rw [writeAll, List.foldl_cons]
    exact (ih (b.write w) fun v hv ↦ h v (List.mem_cons_of_mem _ hv)).trans
      (read_write_of_disjoint b w (h w (List.mem_cons_self ..)))

theorem writeAll_append (b : Block n) (vs ws : List Memcpy) :
    b.writeAll (vs ++ ws) = (b.writeAll vs).writeAll ws := List.foldl_append

/-- **Reading back one write of several**: those performed after it have to miss it. -/
theorem read_writeAll_self (b : Block n) (vs : List Memcpy) (w : Memcpy) (ws : List Memcpy)
    (hn : w.stop ≤ n) (h : ∀ v ∈ ws, v.Misses w.dst w.src.length) :
    (b.writeAll (vs ++ w :: ws)).read w.dst w.src.length = w.src := by
  rw [writeAll_append, ← List.singleton_append, writeAll_append, read_writeAll_of_disjoint _ h]
  exact read_write_self _ w hn

/-! ### Integer fields -/

/-- The `w`-byte little-endian integer at offset `off`. -/
def field (b : Block n) (off w : ℕ) : ℕ := decodeLE (b.read off w)

theorem field_lt (b : Block n) (off w : ℕ) : b.field off w < 256 ^ w := by
  have hlt := decodeLE_lt (b.read off w)
  rwa [length_read] at hlt

/-- A field holds what was last stored in it, as far as it fits. -/
theorem field_writeAll_self (b : Block n) (off w v : ℕ) (vs ws : List Memcpy) (hn : off + w ≤ n)
    (h : ∀ u ∈ ws, u.Misses off w) :
    (b.writeAll (vs ++ .field off w v :: ws)).field off w = v % 256 ^ w := by
  have hself := read_writeAll_self b vs (.field off w v) ws
    (by simpa [Memcpy.stop] using hn) (by simpa using h)
  rw [Memcpy.length_field, Memcpy.field_dst] at hself
  rw [field, hself]
  exact decodeLE_encodeLE w v

theorem field_writeAll_of_disjoint (b : Block n) {ws : List Memcpy} {off w : ℕ}
    (h : ∀ u ∈ ws, u.Misses off w) : (b.writeAll ws).field off w = b.field off w := by
  rw [field, field, read_writeAll_of_disjoint b h]

end Block
