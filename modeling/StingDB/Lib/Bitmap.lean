import Mathlib.Data.List.Basic

/-!
# Arrays of bits in words

A list of words of `w` bits each is an array of bits: bit `i` is bit `i % w` of word `i / w`.
`Bitmap.get` and `Bitmap.set` are as programs have them, with a mask that is shifted to the place,
and are `none` where there is no such word.  What is known of them is `isSome_get` and
`isSome_set` (there is a word for a bit exactly below `words.length * w`), and `get_set` (what was
set is got, and every other bit is as it was).
-/

set_option autoImplicit false

namespace Bitmap

variable {w : ℕ}

/-! ## One word -/

/-- `word & (1 << k)` is not zero. -/
def testBit (word : BitVec w) (k : ℕ) : Bool := (word &&& 1#w <<< k) != 0#w

/-- `word |= 1 << k`, or `word &= ~(1 << k)`. -/
def setBit (word : BitVec w) (k : ℕ) (b : Bool) : BitVec w :=
  if b then word ||| 1#w <<< k else word &&& ~~~(1#w <<< k)

theorem testBit_eq (word : BitVec w) {k : ℕ} (hk : k < w) :
    testBit word k = word.getLsbD k := by
  rw [testBit, ← BitVec.twoPow_eq, BitVec.and_twoPow]
  cases word.getLsbD k with
  | false => simp
  | true =>
    have hne : BitVec.twoPow w k ≠ 0#w := by
      intro h
      have hbit := congrArg (BitVec.getLsbD · k) h
      simp [hk] at hbit
    simpa using hne

theorem getLsbD_setBit (word : BitVec w) (k j : ℕ) (b : Bool) (hj : j < w) :
    (setBit word k b).getLsbD j = if j = k then b else word.getLsbD j := by
  rw [setBit, ← BitVec.twoPow_eq]
  by_cases hjk : j = k
  · subst hjk
    cases b <;> simp [hj]
  · have hkj : k ≠ j := fun h ↦ hjk h.symm
    cases b with
    | false => simp [hj, hjk]
    | true => simp [BitVec.getLsbD_twoPow, hjk, hkj]

/-! ## All words -/

/-- Bit `i`. -/
def get (words : List (BitVec w)) (i : ℕ) : Option Bool :=
  words[i / w]?.map fun word ↦ testBit word (i % w)

/-- The words after bit `i` has been set to `b`. -/
def set (words : List (BitVec w)) (i : ℕ) (b : Bool) : Option (List (BitVec w)) :=
  if i / w < words.length then some (words.modify (i / w) fun word ↦ setBit word (i % w) b)
  else none

variable {words words' : List (BitVec w)} {i j : ℕ} {b : Bool}

theorem isSome_get (hw : 0 < w) : (get words i).isSome ↔ i < words.length * w := by
  rw [get, Option.isSome_map, ← Nat.div_lt_iff_lt_mul hw]
  simp

theorem isSome_set (hw : 0 < w) : (set words i b).isSome ↔ i < words.length * w := by
  rw [set, ← Nat.div_lt_iff_lt_mul hw]
  split <;> simp_all

theorem length_set (h : set words i b = some words') : words'.length = words.length := by
  rw [set, Option.ite_none_right_eq_some] at h
  rw [← Option.some.inj h.2, List.length_modify]

/-- **What was set is got, and nothing else has changed.** -/
theorem get_set (hw : 0 < w) (h : set words i b = some words') :
    get words' j = if j = i then some b else get words j := by
  rw [set, Option.ite_none_right_eq_some] at h
  obtain ⟨hlt, heq⟩ := h
  rw [← Option.some.inj heq, get, List.getElem?_modify, get]
  by_cases hword : i / w = j / w
  · have hget : words[j / w]? = some words[i / w] := by
      rw [← hword, List.getElem?_eq_getElem hlt]
    have hbit : j % w = i % w ↔ j = i := by
      refine ⟨fun hmod ↦ ?_, fun hji ↦ by rw [hji]⟩
      rw [← Nat.div_add_mod j w, ← Nat.div_add_mod i w, hmod, hword]
    have hlt' : j % w < w := Nat.mod_lt j hw
    simp only [hget, Option.map_eq_map, Option.map_some, if_pos hword, testBit_eq _ hlt',
      getLsbD_setBit _ _ _ _ hlt', hbit]
    split <;> rfl
  · have hne : j ≠ i := fun hji ↦ hword (by rw [hji])
    rw [if_neg hne]
    cases words[j / w]? <;> simp [hword]

/-- Where every word is zero, so is every bit. -/
theorem get_replicate (hw : 0 < w) (n : ℕ) (hi : i < n * w) :
    get (List.replicate n (0#w)) i = some false := by
  have hlt : i / w < n := (Nat.div_lt_iff_lt_mul hw).mpr hi
  rw [get, List.getElem?_replicate_of_lt hlt, Option.map_some, testBit_eq _ (Nat.mod_lt i hw),
    BitVec.getLsbD_zero]

end Bitmap
