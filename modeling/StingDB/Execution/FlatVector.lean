import StingDB.Catalog.CatalogManager
import StingDB.Lib.Bitmap
import StingDB.Lib.Machine

/-!
# Vectors and their null masks

`FlatVector` of `execution/vector.h`, with what it inherits from `Vector`.

The null mask is meant to be an array of booleans as long as the vector.  But it is as long as the
constructor has made it, for the capacity, and `Resize` does not look at the capacity: a vector that
has grown beyond the words of its mask has elements without a bit (`isBooleanArray_iff`).
-/

set_option autoImplicit false

namespace StingDB

/-- `FlatVector<T>` -/
structure FlatVector (T : Type*) where
  /-- `type_` -/
  type : TypeId
  /-- `size_` -/
  size : ℕ
  /-- `data_` -/
  data : List T
  /-- `null_mask_` -/
  nullMask : List (BitVec 64)

namespace FlatVector

variable {T : Type*}

/-- The words of the mask for a capacity. -/
def maskWords (capacity : ℕ) : ℕ := u64 (capacity + 63) / 64

/-- `FlatVector(type, capacity)`, where `data_.reserve(capacity)` does not throw. -/
def create (type : TypeId) (capacity : ℕ := 1024) : FlatVector T where
  type
  size := 0
  data := []
  nullMask := List.replicate (maskWords capacity) 0

/-- `Resize(new_size)`.  New elements are value-initialised.  Where `data_.resize` throws for want
of memory, `size_` has its new value and `data_` the old one. -/
def resize [Inhabited T] (v : FlatVector T) (newSize : ℕ) (allocated : Bool := true) :
    FlatVector T :=
  let v := { v with size := newSize }
  if newSize ≤ v.data.length ∨ allocated then { v with data := v.data.takeD newSize default } else v

/-- `SetNull(index, is_null)`; `none` where there is no such word, which the source does not
check. -/
def setNull (v : FlatVector T) (index : ℕ) (isNull : Bool) : Option (FlatVector T) :=
  (Bitmap.set v.nullMask index isNull).map fun mask ↦ { v with nullMask := mask }

/-- `IsNull(index)`; `none` where there is no such word. -/
def isNull (v : FlatVector T) (index : ℕ) : Option Bool := Bitmap.get v.nullMask index

/-- What a mask is for: an array of booleans as long as the vector, with these values.  Each of them
can be set to any other, and then it alone is different. -/
structure IsBooleanArray (v : FlatVector T) (latest : ℕ → Bool) : Prop where
  isNull : ∀ j < v.size, v.isNull j = some (latest j)
  setNull : ∀ j < v.size, ∀ b, ∃ v', v.setNull j b = some v' ∧
    ∀ k, v'.isNull k = if k = j then some b else v.isNull k

section Mask

variable {v v' : FlatVector T} {i j : ℕ} {b : Bool}

theorem isSome_isNull : (v.isNull i).isSome ↔ i < v.nullMask.length * 64 :=
  Bitmap.isSome_get (by decide)

theorem setNull_eq_some : v.setNull i b = some v' ↔
    ∃ mask, Bitmap.set v.nullMask i b = some mask ∧ { v with nullMask := mask } = v' :=
  Option.map_eq_some_iff

theorem isNull_of_setNull (h : v.setNull i b = some v') :
    v'.isNull j = if j = i then some b else v.isNull j := by
  obtain ⟨mask, hmask, rfl⟩ := setNull_eq_some.mp h
  exact Bitmap.get_set (by decide) hmask

/-- Below the end of the mask, every bit can be set. -/
theorem exists_setNull (h : i < v.nullMask.length * 64) (b : Bool) :
    ∃ v', v.setNull i b = some v' := by
  have hsome : (Bitmap.set v.nullMask i b).isSome := (Bitmap.isSome_set (by decide)).mpr h
  obtain ⟨mask, hmask⟩ := Option.isSome_iff_exists.mp hsome
  exact ⟨_, setNull_eq_some.mpr ⟨mask, hmask, rfl⟩⟩

@[simp] theorem nullMask_resize [Inhabited T] (v : FlatVector T) (n : ℕ) (allocated : Bool) :
    (v.resize n allocated).nullMask = v.nullMask := by
  rw [resize]
  split <;> rfl

@[simp] theorem size_resize [Inhabited T] (v : FlatVector T) (n : ℕ) (allocated : Bool) :
    (v.resize n allocated).size = n := by
  rw [resize]
  split <;> rfl

end Mask

/-! ## Runs -/

/-- A call on a vector. -/
inductive Call where
  /-- `Resize(new_size)`, with whether there is memory for the elements. -/
  | resize (newSize : ℕ) (allocated : Bool)
  /-- `SetNull(index, is_null)` -/
  | setNull (index : ℕ) (isNull : Bool)
  deriving DecidableEq

/-- A vector and the calls of `SetNull` so far, the latest first. -/
structure Logged (T : Type*) where
  vector : FlatVector T
  sets : List (ℕ × Bool)

/-- What the latest `SetNull` of an index has set, if there was one. -/
def Logged.latest (s : Logged T) (j : ℕ) : Bool := (s.sets.lookup j).getD false

/-- A new vector. -/
def Logged.create (type : TypeId) (capacity : ℕ) : Logged T := ⟨.create type capacity, []⟩

/-- One call.  `SetNull` is for an index below `GetSize()`. -/
def Logged.step [Inhabited T] (s : Logged T) : Call → Option (Unit × Logged T)
  | .resize n allocated => some ((), { s with vector := s.vector.resize n allocated })
  | .setNull i b =>
    if i < s.vector.size then
      (s.vector.setNull i b).map fun v ↦ ((), { vector := v, sets := (i, b) :: s.sets })
    else none

/-- A vector of this capacity still has a bit for each element after the call. -/
def Call.Fits (capacity : ℕ) : Call → Prop
  | .resize n _ => n ≤ maskWords capacity * 64
  | .setNull .. => True

/-- The mask has so many words, enough for the elements, and all its bits are as they were set,
whether or not there is an element for them now. -/
structure Logged.Sound (words : ℕ) (s : Logged T) : Prop where
  length : s.vector.nullMask.length = words
  size_le : s.vector.size ≤ words * 64
  isNull : ∀ j < words * 64, s.vector.isNull j = some (s.latest j)

namespace Logged

variable {s s' : Logged T} {words : ℕ} {e : Call} {o : Unit}

theorem sound_create (type : TypeId) (capacity : ℕ) :
    (create type capacity : Logged T).Sound (maskWords capacity) where
  length := List.length_replicate
  size_le := Nat.zero_le _
  isNull := fun j hj ↦ Bitmap.get_replicate (by decide) _ hj

theorem Sound.isBooleanArray (h : s.Sound words) : s.vector.IsBooleanArray s.latest where
  isNull := fun j hj ↦ h.isNull j (hj.trans_le h.size_le)
  setNull := by
    intro j hj b
    have hword : j < s.vector.nullMask.length * 64 := h.length ▸ hj.trans_le h.size_le
    obtain ⟨v', hv'⟩ := exists_setNull hword b
    exact ⟨v', hv', fun k ↦ isNull_of_setNull hv'⟩

variable [Inhabited T]

theorem step_setNull_eq_some {i : ℕ} {b : Bool} : s.step (.setNull i b) = some (o, s') ↔
    i < s.vector.size ∧ ∃ v, s.vector.setNull i b = some v ∧
      s' = { vector := v, sets := (i, b) :: s.sets } := by
  simp only [step, Option.ite_none_right_eq_some, Option.map_eq_some_iff, Prod.mk.injEq, true_and,
    eq_comm (b := s')]

/-- A call that the mask has the words for keeps all answers right. -/
theorem Sound.step {capacity : ℕ} (h : s.Sound (maskWords capacity)) (hfits : e.Fits capacity)
    (hs : s.step e = some (o, s')) : s'.Sound (maskWords capacity) := by
  cases e with
  | resize n allocated =>
    cases hs
    have hle : n ≤ maskWords capacity * 64 := hfits
    refine ⟨by simpa using h.length, by simpa using hle, fun j hj ↦ ?_⟩
    rw [FlatVector.isNull, nullMask_resize]
    exact h.isNull j hj
  | setNull i b =>
    obtain ⟨-, v, hv, rfl⟩ := step_setNull_eq_some.mp hs
    have hanswer := fun j ↦ isNull_of_setNull (j := j) hv
    obtain ⟨mask, hmask, rfl⟩ := setNull_eq_some.mp hv
    refine ⟨(Bitmap.length_set hmask).trans h.length, h.size_le, fun j hj ↦ ?_⟩
    rw [hanswer j, latest, List.lookup_cons]
    by_cases hji : j = i
    · simp [hji]
    · rw [if_neg hji, h.isNull j hj, beq_false_of_ne hji]
      rfl

/-- A size that the mask has too few words for: there is no answer for the last element. -/
theorem fits_of_isBooleanArray {capacity : ℕ} (h : s.Sound (maskWords capacity))
    (hs : s.step e = some (o, s')) (harray : s'.vector.IsBooleanArray s'.latest) :
    e.Fits capacity := by
  cases e with
  | resize n allocated =>
    cases hs
    by_contra hlt
    have hword : maskWords capacity * 64 < n := not_le.mp hlt
    have hnull := harray.isNull (maskWords capacity * 64) (by simpa using hword)
    have hsome := isSome_isNull.mp (Option.isSome_of_mem hnull)
    rw [nullMask_resize, h.length] at hsome
    exact absurd hsome (lt_irrefl _)
  | setNull i b => trivial

theorem fits_of_step_eq_none {capacity : ℕ} (hs : s.step e = none) : e.Fits capacity := by
  cases e with
  | resize n allocated => cases hs
  | setNull i b => trivial

/-- **When the null mask is an array of booleans as long as the vector.**  For every element type,
every capacity and every sequence of calls: the mask answers for every element with what was set
last, and can be set for each of them alone, in every state that the calls come through, exactly if
each `Resize` among them is to a size that the words of the capacity have bits for. -/
theorem isBooleanArray_iff (type : TypeId) (capacity : ℕ) (es : List Call) :
    Machine.Always Logged.step (fun s : Logged T ↦ s.vector.IsBooleanArray s.latest)
        (create type capacity) es ↔
      Machine.Along Logged.step (fun _ e ↦ e.Fits capacity) (create type capacity : Logged T) es :=
  Machine.always_iff_along (K := Sound (maskWords capacity)) (fun _ h ↦ h.isBooleanArray)
    (fun _ _ _ _ h hs harray ↦ fits_of_isBooleanArray h hs harray)
    (fun _ _ _ _ h hfits hs ↦ h.step hfits hs) (fun _ _ _ hs ↦ fits_of_step_eq_none hs)
    (sound_create type capacity)

/-- A vector of the default capacity and one more element: there is no word for the bit of it. -/
theorem not_isBooleanArray :
    ¬ Machine.Always Logged.step (fun s : Logged ℤ ↦ s.vector.IsBooleanArray s.latest)
      (create .integer 1024) [.resize 1025 true] := by
  intro h
  have harray := (h.2 () _ rfl).head
  have hnull := harray.isNull 1024 (by simp)
  have hnone : ((create .integer 1024 : Logged ℤ).vector.resize 1025 true).isNull 1024 = none := by
    rw [FlatVector.isNull, nullMask_resize]
    decide
  exact absurd (hnone.symm.trans hnull) (by simp)

end Logged

end FlatVector

end StingDB
