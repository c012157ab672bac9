import StingDB.Lib.Machine
import StingDB.Storage.SlottedPage

/-!
# The layout of a slotted page

What keeps the slot array, the free space and the tuples of a page apart, and when it stops doing
so.

* `Layout p` is the invariant: the header and the slots end at or before the free space pointer,
  which is inside the page; every slot's extent lies between the two; and each tuple lies entirely
  below the ones inserted before it, so that no two of them overlap.
* `SafeCall p op` is what one call must do: leave a page with that layout, write no byte outside
  the page, and overwrite nothing but what the operation is entitled to.
* `NoWrap p op` is the condition under which it does.  `InsertTuple` casts
  `tuple_size + SLOT_SIZE` to `uint16_t` before it compares it with the free space, so a tuple of
  65532 to 65535 bytes asks for 0 to 3 bytes of space and is admitted almost always.

`safeCall_iff_noWrap` is the step lemma, and `layout_safe_iff` carries it to runs of any length.
-/

set_option autoImplicit false

namespace StingDB

namespace SlottedPage

open Machine

/-! ## The invariant -/

/-- The layout invariant, stated on the raw fields of the page. -/
structure Layout (p : Page) : Prop where
  /-- The slot array ends at or before the free space pointer. -/
  slots_le : headerSize + getTupleCount p * slotSize ≤ getFreeSpacePointer p
  /-- The free space pointer is inside the page, or at its end. -/
  free_le : getFreeSpacePointer p ≤ pageSize
  /-- The extent of every slot lies between the free space pointer and the end of the page. -/
  extent : ∀ k < getTupleCount p,
    getFreeSpacePointer p ≤ tupleOffset p k ∧ tupleOffset p k + tupleSize p k ≤ pageSize
  /-- A tuple ends at or before the start of every tuple inserted earlier. -/
  below : ∀ i j, i < j → j < getTupleCount p → tupleOffset p j + tupleSize p j ≤ tupleOffset p i

variable {p : Page} {t : List UInt8}

theorem Layout.tupleCount_le (h : Layout p) : getTupleCount p ≤ 2045 := by
  have h₁ := h.slots_le
  have h₂ := h.free_le
  simp only [headerSize, slotSize, pageSize] at h₁ h₂
  omega

/-- On a page with this layout the cast in `slotOffset` does nothing. -/
theorem Layout.slotOffset_eq (h : Layout p) {k : ℕ} (hk : k ≤ getTupleCount p) :
    slotOffset k = headerSize + k * slotSize := by
  have hn := h.tupleCount_le
  exact u16_of_lt (by simp only [headerSize, slotSize]; omega)

theorem init_getTupleCount (p : Page) : getTupleCount (init p) = 0 :=
  Block.field_writeAll_self _ _ _ _ [lsnStore 0] [freeSpaceStore (u16 pageSize)] (by decide)
    (by decide)

theorem init_getFreeSpacePointer (p : Page) : getFreeSpacePointer (init p) = pageSize :=
  Block.field_writeAll_self _ _ _ _ [lsnStore 0, tupleCountStore 0] [] (by decide) (by decide)

theorem init_getLSN (p : Page) : getLSN (init p) = 0 :=
  Block.field_writeAll_self _ _ _ _ [] [tupleCountStore 0, freeSpaceStore (u16 pageSize)]
    (by decide) (by decide)

theorem init_layout (p : Page) : Layout (init p) where
  slots_le := by rw [init_getTupleCount, init_getFreeSpacePointer]; decide
  free_le := by rw [init_getFreeSpacePointer]
  extent k hk := by rw [init_getTupleCount] at hk; omega
  below i j hij hj := by rw [init_getTupleCount] at hj; omega

/-! ## An admitted insert -/

/-- There is room for the tuple and its slot, as an inequality between integers that do not wrap. -/
def Room (p : Page) (t : List UInt8) : Prop :=
  headerSize + (getTupleCount p + 1) * slotSize + t.length ≤ getFreeSpacePointer p

/-- **The admission test is exact** for a tuple whose required space fits in 16 bits. -/
theorem Layout.admits_iff_room (h : Layout p) (ht : t.length + slotSize < 2 ^ 16) :
    Admits p t ↔ Room p t := by
  have hs := h.slots_le
  rw [Admits, h.slotOffset_eq le_rfl, u16_of_lt (v := t.length) (by omega), u16_of_lt ht, Room]
  simp only [headerSize, slotSize] at *
  omega

theorem Layout.loweredPointer_eq (h : Layout p) (hr : Room p t) :
    loweredPointer p t = getFreeSpacePointer p - t.length := by
  have hf := h.free_le
  rw [Room] at hr
  simp only [headerSize, slotSize, pageSize] at *
  rw [loweredPointer, u16_of_lt (v := t.length) (by omega)]
  rw [u16, show getFreeSpacePointer p + 2 ^ 16 - t.length
    = (getFreeSpacePointer p - t.length) + 2 ^ 16 by omega, Nat.add_mod_right]
  exact Nat.mod_eq_of_lt (by omega)

/-- The writes of an insert that has room, with every cast gone. -/
theorem Layout.insertStores_eq (h : Layout p) (hr : Room p t) :
    insertStores p t =
      [freeSpaceStore (getFreeSpacePointer p - t.length),
        ⟨getFreeSpacePointer p - t.length, t⟩,
        .field (headerSize + getTupleCount p * slotSize) 2 (getFreeSpacePointer p - t.length),
        .field (headerSize + getTupleCount p * slotSize + 2) 2 t.length,
        tupleCountStore (getTupleCount p + 1)] := by
  have hn := h.tupleCount_le
  have hf := h.free_le
  have hlen : t.length < 2 ^ 16 := by
    rw [Room] at hr
    simp only [headerSize, slotSize, pageSize] at *
    omega
  rw [insertStores, h.loweredPointer_eq hr, h.slotOffset_eq le_rfl, u16_of_lt hlen,
    u16_of_lt (v := getTupleCount p + 1) (by omega)]

/-- The bytes an insert leaves. -/
def inserted (p : Page) (t : List UInt8) : Page := p.store (insertStores p t)

section Insert

variable (h : Layout p) (hr : Room p t)

include h hr

/-- What an insert does not touch: whatever misses the two counters, the new slot and the bytes
the tuple is copied to. -/
theorem insert_frame {off len : ℕ} (h₁ : off + len ≤ tupleCountOffset ∨ headerSize ≤ off)
    (h₂ : off + len ≤ headerSize + getTupleCount p * slotSize ∨
      headerSize + (getTupleCount p + 1) * slotSize ≤ off)
    (h₃ : off + len ≤ getFreeSpacePointer p - t.length ∨ getFreeSpacePointer p ≤ off) :
    ∀ w ∈ insertStores p t, w.Misses off len := by
  rw [Room] at hr
  rw [h.insertStores_eq hr]
  simp only [headerSize, slotSize, tupleCountOffset, freeSpaceOffset, List.forall_mem_cons,
    Memcpy.Misses, Memcpy.stop, Memcpy.length_field, Memcpy.field_dst, freeSpaceStore,
    tupleCountStore, List.not_mem_nil, false_imp_iff, implies_true, and_true] at *
  omega

theorem insert_getLSN : getLSN (inserted p t) = getLSN p := by
  refine Block.field_writeAll_of_disjoint _ (insert_frame h hr ?_ ?_ ?_)
  · exact Or.inl (by decide)
  · exact Or.inl (by simp only [lsnOffset, headerSize]; omega)
  · rw [Room] at hr
    exact Or.inl (by simp only [lsnOffset, headerSize] at *; omega)

theorem insert_getTupleCount : getTupleCount (inserted p t) = getTupleCount p + 1 := by
  have hn := h.tupleCount_le
  rw [getTupleCount, inserted, Page.store_data, h.insertStores_eq hr]
  have hself := Block.field_writeAll_self p.data tupleCountOffset 2
    (getTupleCount p + 1)
    [freeSpaceStore (getFreeSpacePointer p - t.length),
      ⟨getFreeSpacePointer p - t.length, t⟩,
      .field (headerSize + getTupleCount p * slotSize) 2 (getFreeSpacePointer p - t.length),
      .field (headerSize + getTupleCount p * slotSize + 2) 2 t.length] [] (by decide) (by simp)
  refine hself.trans (Nat.mod_eq_of_lt ?_)
  omega

theorem insert_getFreeSpacePointer :
    getFreeSpacePointer (inserted p t) = getFreeSpacePointer p - t.length := by
  have hf := h.free_le
  rw [getFreeSpacePointer, inserted, Page.store_data, h.insertStores_eq hr]
  refine (Block.field_writeAll_self p.data _ _ _ [] _ (by decide) ?_).trans (Nat.mod_eq_of_lt ?_)
  · rw [Room] at hr
    simp only [headerSize, slotSize, tupleCountOffset, freeSpaceOffset, List.forall_mem_cons,
      Memcpy.Misses, Memcpy.stop, Memcpy.length_field, Memcpy.field_dst, tupleCountStore,
      List.not_mem_nil, false_imp_iff, implies_true, and_true] at *
    omega
  · simp only [pageSize] at hf
    omega

/-- A slot that was there before reads the same after an insert. -/
theorem insert_field_of_lt {k i : ℕ} (hk : k < getTupleCount p) (hi : i ≤ 2) :
    (inserted p t).data.field (slotOffset k + i) 2 = p.data.field (slotOffset k + i) 2 := by
  rw [h.slotOffset_eq hk.le]
  refine Block.field_writeAll_of_disjoint _ (insert_frame h hr ?_ ?_ ?_)
  · exact Or.inr (by omega)
  · exact Or.inl (by simp only [slotSize]; omega)
  · rw [Room] at hr
    exact Or.inl (by simp only [headerSize, slotSize] at *; omega)

theorem insert_tupleOffset_of_lt {k : ℕ} (hk : k < getTupleCount p) :
    tupleOffset (inserted p t) k = tupleOffset p k :=
  insert_field_of_lt h hr hk (Nat.zero_le 2)

theorem insert_tupleSize_of_lt {k : ℕ} (hk : k < getTupleCount p) :
    tupleSize (inserted p t) k = tupleSize p k :=
  insert_field_of_lt h hr hk le_rfl

theorem insert_tupleOffset_self :
    tupleOffset (inserted p t) (getTupleCount p) = getFreeSpacePointer p - t.length := by
  have hf := h.free_le
  rw [tupleOffset, inserted, Page.store_data, h.insertStores_eq hr, h.slotOffset_eq le_rfl]
  rw [Room] at hr
  simp only [headerSize, slotSize, pageSize] at *
  have hself := Block.field_writeAll_self p.data (12 + getTupleCount p * 4) 2
    (getFreeSpacePointer p - t.length)
    [freeSpaceStore (getFreeSpacePointer p - t.length), ⟨getFreeSpacePointer p - t.length, t⟩]
    [.field (12 + getTupleCount p * 4 + 2) 2 t.length, tupleCountStore (getTupleCount p + 1)]
    (by simp only [pageSize]; omega) (by
      simp only [tupleCountOffset, List.forall_mem_cons, Memcpy.Misses, Memcpy.stop,
        Memcpy.length_field, Memcpy.field_dst, tupleCountStore, List.not_mem_nil, false_imp_iff,
        implies_true, and_true]
      omega)
  refine hself.trans (Nat.mod_eq_of_lt ?_)
  omega

theorem insert_tupleSize_self : tupleSize (inserted p t) (getTupleCount p) = t.length := by
  have hf := h.free_le
  rw [tupleSize, inserted, Page.store_data, h.insertStores_eq hr, h.slotOffset_eq le_rfl]
  rw [Room] at hr
  simp only [headerSize, slotSize, pageSize] at *
  have hself := Block.field_writeAll_self p.data (12 + getTupleCount p * 4 + 2) 2
    t.length
    [freeSpaceStore (getFreeSpacePointer p - t.length), ⟨getFreeSpacePointer p - t.length, t⟩,
      .field (12 + getTupleCount p * 4) 2 (getFreeSpacePointer p - t.length)]
    [tupleCountStore (getTupleCount p + 1)] (by simp only [pageSize]; omega) (by
      simp only [tupleCountOffset, List.forall_mem_cons, Memcpy.Misses, Memcpy.stop,
        Memcpy.length_field, Memcpy.field_dst, tupleCountStore, List.not_mem_nil, false_imp_iff,
        implies_true, and_true]
      omega)
  refine hself.trans (Nat.mod_eq_of_lt ?_)
  omega

/-- The tuples stored before read the same after an insert. -/
theorem insert_read {off len : ℕ} (hoff : getFreeSpacePointer p ≤ off) :
    (inserted p t).data.read off len = p.data.read off len := by
  refine Block.read_writeAll_of_disjoint _ (insert_frame h hr ?_ ?_ (Or.inr hoff)) <;>
    rw [Room] at hr <;> simp only [headerSize, slotSize] at * <;> omega

/-- The tuple is where its slot says. -/
theorem insert_read_self :
    (inserted p t).data.read (getFreeSpacePointer p - t.length) t.length = t := by
  have hf := h.free_le
  rw [inserted, Page.store_data, h.insertStores_eq hr]
  rw [Room] at hr
  refine Block.read_writeAll_self p.data [freeSpaceStore (getFreeSpacePointer p - t.length)]
    ⟨getFreeSpacePointer p - t.length, t⟩ _ ?_ ?_
  · simp only [Memcpy.stop, headerSize, slotSize] at *
    omega
  · simp only [headerSize, slotSize, tupleCountOffset, List.forall_mem_cons,
      Memcpy.Misses, Memcpy.stop, Memcpy.length_field, Memcpy.field_dst, tupleCountStore,
      List.not_mem_nil, false_imp_iff, implies_true, and_true] at *
    omega

theorem insert_layout : Layout (inserted p t) where
  slots_le := by
    rw [insert_getTupleCount h hr, insert_getFreeSpacePointer h hr]
    rw [Room] at hr
    omega
  free_le := by
    have hf := h.free_le
    rw [insert_getFreeSpacePointer h hr]
    omega
  extent k hk := by
    have hf := h.free_le
    rw [insert_getTupleCount h hr] at hk
    rw [insert_getFreeSpacePointer h hr]
    rcases Nat.lt_succ_iff_lt_or_eq.mp hk with hlt | rfl
    · rw [insert_tupleOffset_of_lt h hr hlt, insert_tupleSize_of_lt h hr hlt]
      have he := h.extent k hlt
      exact ⟨(Nat.sub_le _ _).trans he.1, he.2⟩
    · rw [insert_tupleOffset_self h hr, insert_tupleSize_self h hr]
      rw [Room] at hr
      omega
  below i j hij hj := by
    rw [insert_getTupleCount h hr] at hj
    rcases Nat.lt_succ_iff_lt_or_eq.mp hj with hlt | rfl
    · rw [insert_tupleOffset_of_lt h hr hlt, insert_tupleSize_of_lt h hr hlt,
        insert_tupleOffset_of_lt h hr (hij.trans hlt)]
      exact h.below i j hij hlt
    · have he := h.extent i hij
      rw [insert_tupleOffset_self h hr, insert_tupleSize_self h hr,
        insert_tupleOffset_of_lt h hr hij]
      rw [Room] at hr
      omega

end Insert

/-! ## Deletes and LSN updates -/

/-- A page that keeps the counters and the offsets, and enlarges no tuple, keeps the layout. -/
theorem Layout.of_shrink {q : Page} (h : Layout p) (hn : getTupleCount q = getTupleCount p)
    (hf : getFreeSpacePointer q = getFreeSpacePointer p)
    (ho : ∀ k < getTupleCount p, tupleOffset q k = tupleOffset p k)
    (hs : ∀ k < getTupleCount p, tupleSize q k ≤ tupleSize p k) : Layout q where
  slots_le := by rw [hn, hf]; exact h.slots_le
  free_le := by rw [hf]; exact h.free_le
  extent k hk := by
    rw [hn] at hk
    have he := h.extent k hk
    have hsk := hs k hk
    rw [hf, ho k hk]
    exact ⟨he.1, by omega⟩
  below i j hij hj := by
    rw [hn] at hj
    have hb := h.below i j hij hj
    have hsj := hs j hj
    rw [ho j hj, ho i (hij.trans hj)]
    omega

/-- The bytes a delete of an existing slot leaves. -/
def deleted (p : Page) (rid : RID) : Page := p.store (deleteStores rid)

section Delete

variable {rid : RID} (h : Layout p) (hk : rid.slotNum.toNat < getTupleCount p)

include h hk

/-- What a delete does not touch: whatever misses the size field of its slot. -/
theorem delete_frame {off len : ℕ}
    (ho : off + len ≤ headerSize + rid.slotNum.toNat * slotSize + 2 ∨
      headerSize + (rid.slotNum.toNat + 1) * slotSize ≤ off) :
    ∀ w ∈ deleteStores rid, w.Misses off len := by
  rw [deleteStores, h.slotOffset_eq hk.le]
  simp only [headerSize, slotSize, List.forall_mem_cons, Memcpy.Misses, Memcpy.stop,
    Memcpy.length_field, Memcpy.field_dst, List.not_mem_nil, false_imp_iff, implies_true,
    and_true] at *
  omega

theorem delete_getLSN : getLSN (deleted p rid) = getLSN p :=
  Block.field_writeAll_of_disjoint _ (delete_frame h hk (Or.inl (by
    simp only [lsnOffset, headerSize]; omega)))

theorem delete_getTupleCount : getTupleCount (deleted p rid) = getTupleCount p :=
  Block.field_writeAll_of_disjoint _ (delete_frame h hk (Or.inl (by
    simp only [tupleCountOffset, headerSize]; omega)))

theorem delete_getFreeSpacePointer : getFreeSpacePointer (deleted p rid) = getFreeSpacePointer p :=
  Block.field_writeAll_of_disjoint _ (delete_frame h hk (Or.inl (by
    simp only [freeSpaceOffset, headerSize]; omega)))

theorem delete_tupleOffset {k : ℕ} (hlt : k < getTupleCount p) :
    tupleOffset (deleted p rid) k = tupleOffset p k := by
  refine Block.field_writeAll_of_disjoint _ (delete_frame h hk ?_)
  rw [h.slotOffset_eq hlt.le]
  simp only [headerSize, slotSize]
  omega

theorem delete_tupleSize_of_ne {k : ℕ} (hlt : k < getTupleCount p) (hne : k ≠ rid.slotNum.toNat) :
    tupleSize (deleted p rid) k = tupleSize p k := by
  refine Block.field_writeAll_of_disjoint _ (delete_frame h hk ?_)
  rw [h.slotOffset_eq hlt.le]
  simp only [headerSize, slotSize]
  omega

theorem delete_tupleSize_self : tupleSize (deleted p rid) rid.slotNum.toNat = 0 := by
  have hn := h.tupleCount_le
  refine Block.field_writeAll_self p.data _ _ _ [] [] ?_ (by simp)
  rw [h.slotOffset_eq hk.le]
  simp only [headerSize, slotSize, pageSize]
  omega

/-- The tuples read the same after a delete. -/
theorem delete_read {off len : ℕ} (hoff : getFreeSpacePointer p ≤ off) :
    (deleted p rid).data.read off len = p.data.read off len := by
  have hs := h.slots_le
  refine Block.read_writeAll_of_disjoint _ (delete_frame h hk (Or.inr ?_))
  simp only [headerSize, slotSize] at *
  omega

theorem delete_layout : Layout (deleted p rid) := by
  refine h.of_shrink (delete_getTupleCount h hk) (delete_getFreeSpacePointer h hk)
    (fun k hlt ↦ delete_tupleOffset h hk hlt) fun k hlt ↦ ?_
  by_cases hne : k = rid.slotNum.toNat
  · rw [hne, delete_tupleSize_self h hk]
    exact Nat.zero_le _
  · rw [delete_tupleSize_of_ne h hk hlt hne]

end Delete

section SetLSN

variable (p) (v : ℕ)

/-- What `SetLSN` does not touch: everything after the first eight bytes. -/
theorem setLSN_frame {off len : ℕ} (ho : tupleCountOffset ≤ off) :
    ∀ w ∈ [lsnStore v], w.Misses off len := by
  simp only [lsnStore, lsnOffset, tupleCountOffset, List.forall_mem_cons, Memcpy.Misses,
    Memcpy.stop, Memcpy.length_field, Memcpy.field_dst, List.not_mem_nil, false_imp_iff,
    implies_true, and_true] at *
  omega

/-- Every field after the first eight bytes reads the same after `SetLSN`. -/
theorem setLSN_field {off w : ℕ} (ho : tupleCountOffset ≤ off) :
    (setLSN p v).data.field off w = p.data.field off w :=
  Block.field_writeAll_of_disjoint _ (setLSN_frame v ho)

theorem setLSN_getLSN : getLSN (setLSN p v) = v % 2 ^ 64 :=
  Block.field_writeAll_self p.data _ _ _ [] [] (by decide) (by simp)

theorem setLSN_getTupleCount : getTupleCount (setLSN p v) = getTupleCount p :=
  setLSN_field p v le_rfl

theorem setLSN_getFreeSpacePointer : getFreeSpacePointer (setLSN p v) = getFreeSpacePointer p :=
  setLSN_field p v (by decide)

variable {p}

theorem Layout.setLSN_tupleOffset (h : Layout p) {k : ℕ} (hk : k < getTupleCount p) :
    tupleOffset (setLSN p v) k = tupleOffset p k := by
  refine setLSN_field p v ?_
  rw [h.slotOffset_eq hk.le]
  simp only [tupleCountOffset, headerSize]
  omega

theorem Layout.setLSN_tupleSize (h : Layout p) {k : ℕ} (hk : k < getTupleCount p) :
    tupleSize (setLSN p v) k = tupleSize p k := by
  refine setLSN_field p v ?_
  rw [h.slotOffset_eq hk.le]
  simp only [tupleCountOffset, headerSize]
  omega

/-- The tuples read the same after `SetLSN`. -/
theorem Layout.setLSN_read (h : Layout p) {off len : ℕ} (hoff : getFreeSpacePointer p ≤ off) :
    (setLSN p v).data.read off len = p.data.read off len := by
  have hs := h.slots_le
  refine Block.read_writeAll_of_disjoint _ (setLSN_frame v ?_)
  simp only [headerSize, tupleCountOffset] at *
  omega

theorem Layout.of_setLSN (h : Layout p) : Layout (setLSN p v) :=
  h.of_shrink (setLSN_getTupleCount p v) (setLSN_getFreeSpacePointer p v)
    (fun _ hk ↦ h.setLSN_tupleOffset v hk) fun _ hk ↦ (h.setLSN_tupleSize v hk).le

end SetLSN

/-! ## What a call has to do, and when it does -/

/-- The page's layout is a matter of its bytes alone. -/
theorem Layout.of_data_eq {q : Page} (h : Layout p) (hd : q.data = p.data) : Layout q := by
  refine h.of_shrink ?_ ?_ (fun k _ ↦ ?_) fun k _ ↦ le_of_eq ?_
  · rw [getTupleCount, hd, getTupleCount]
  · rw [getFreeSpacePointer, hd, getFreeSpacePointer]
  · rw [tupleOffset, hd, tupleOffset]
  · rw [tupleSize, hd, tupleSize]

/-- The bytes of the page that a call is entitled to overwrite. -/
def MayWrite (p : Page) : Op → ℕ → Prop
  -- the two counters of the header, and the free space
  | .insertTuple _, i => (tupleCountOffset ≤ i ∧ i < headerSize) ∨
      (headerSize + getTupleCount p * slotSize ≤ i ∧ i < getFreeSpacePointer p)
  -- the size field of the named slot
  | .markDelete rid, i => headerSize + rid.slotNum.toNat * slotSize + 2 ≤ i ∧
      i < headerSize + (rid.slotNum.toNat + 1) * slotSize
  | .setLSN _, i => i < tupleCountOffset
  | .getTuple _, _ => False
  | .getLSN, _ => False

/-- What one call must do on a page with the layout. -/
structure SafeCall (p : Page) (op : Op) : Prop where
  /-- It leaves a page with the layout. -/
  layout : Layout (next p op)
  /-- No byte it writes lies outside the page. -/
  inside : ∀ w ∈ writes p op, w.stop ≤ pageSize
  /-- It overwrites nothing but what it may. -/
  mayWrite : ∀ w ∈ writes p op, ∀ i, w.dst ≤ i → i < w.stop → MayWrite p op i

/-- The cast of `tuple_size + SLOT_SIZE` to `uint16_t` does no harm: the sum fits, or the tuple is
refused for its size, or the gap between the slots and the tuples is smaller even than what is left
of the sum. -/
def NoWrap (p : Page) : Op → Prop
  | .insertTuple t => t.length + slotSize < 2 ^ 16 ∨ 2 ^ 16 ≤ t.length ∨
      getFreeSpacePointer p <
        headerSize + getTupleCount p * slotSize + (t.length + slotSize - 2 ^ 16)
  | _ => True

theorem Layout.admits_of_wrap (h : Layout p) (h₁ : 2 ^ 16 ≤ t.length + slotSize)
    (h₂ : t.length < 2 ^ 16) :
    Admits p t ↔ headerSize + getTupleCount p * slotSize + (t.length + slotSize - 2 ^ 16) ≤
      getFreeSpacePointer p := by
  have hu : u16 (t.length + slotSize) = t.length + slotSize - 2 ^ 16 := by
    simp only [slotSize] at *
    rw [u16]
    omega
  rw [Admits, h.slotOffset_eq le_rfl, u16_of_lt h₂, hu]
  simp only [headerSize, slotSize] at *
  omega

/-- **The defect**: an insert that was admitted because the sum wrapped writes past the page. -/
theorem Layout.insert_escapes (h : Layout p) (h₁ : 2 ^ 16 ≤ t.length + slotSize)
    (h₂ : t.length < 2 ^ 16) : ∃ w ∈ insertStores p t, pageSize < w.stop := by
  have hf := h.free_le
  refine ⟨⟨loweredPointer p t, t⟩, by simp [insertStores], ?_⟩
  have hl : loweredPointer p t = getFreeSpacePointer p + 2 ^ 16 - t.length := by
    simp only [slotSize, pageSize] at *
    rw [loweredPointer, u16_of_lt h₂]
    exact u16_of_lt (by omega)
  rw [Memcpy.stop, hl]
  simp only [slotSize, pageSize] at *
  omega

theorem Layout.safeCall_insert_of_room (h : Layout p) (ha : Admits p t) (hr : Room p t) :
    SafeCall p (.insertTuple t) := by
  have hf := h.free_le
  have hw : writes p (.insertTuple t) = insertStores p t := if_pos ha
  have hnext : next p (.insertTuple t) = (inserted p t).setDirty true := by
    rw [next, insertTuple, if_pos ha, inserted]
  refine ⟨?_, fun w hmem ↦ ?_, fun w hmem i hi₁ hi₂ ↦ ?_⟩
  · rw [hnext]
    exact (insert_layout h hr).of_data_eq rfl
  all_goals
    rw [hw, h.insertStores_eq hr] at hmem
    rw [Room] at hr
    simp only [List.mem_cons, List.not_mem_nil, or_false] at hmem
    simp only [headerSize, slotSize, pageSize] at *
  · rcases hmem with rfl | rfl | rfl | rfl | rfl <;>
      simp only [freeSpaceStore, tupleCountStore, Memcpy.stop, Memcpy.length_field,
        Memcpy.field_dst, freeSpaceOffset, tupleCountOffset] <;> omega
  · rw [MayWrite]
    rcases hmem with rfl | rfl | rfl | rfl | rfl <;>
      simp only [freeSpaceStore, tupleCountStore, Memcpy.stop, Memcpy.length_field,
        Memcpy.field_dst, freeSpaceOffset, tupleCountOffset, headerSize, slotSize] at * <;> omega

/-- A call that writes nothing and leaves the page as it was. -/
theorem Layout.safeCall_of_eq (h : Layout p) {op : Op} (hn : next p op = p)
    (hw : writes p op = []) : SafeCall p op :=
  ⟨by rwa [hn], by simp [hw], by simp [hw]⟩

theorem Layout.safeCall_markDelete (h : Layout p) (rid : RID) : SafeCall p (.markDelete rid) := by
  by_cases hk : getTupleCount p ≤ rid.slotNum.toNat
  · exact h.safeCall_of_eq (by rw [next, markDelete, if_pos hk]) (if_pos hk)
  · have hlt : rid.slotNum.toNat < getTupleCount p := not_le.mp hk
    have hn := h.tupleCount_le
    have hw : writes p (.markDelete rid) = deleteStores rid := if_neg hk
    rw [deleteStores, h.slotOffset_eq hlt.le] at hw
    refine ⟨?_, ?_, ?_⟩
    · rw [next, markDelete, if_neg hk]
      exact (delete_layout h hlt).of_data_eq rfl
    · simp only [hw, headerSize, slotSize, pageSize, List.forall_mem_cons, Memcpy.stop,
        Memcpy.length_field, Memcpy.field_dst, List.not_mem_nil, false_imp_iff, implies_true,
        and_true]
      omega
    · simp only [hw, headerSize, slotSize, List.forall_mem_cons, Memcpy.stop, MayWrite,
        Memcpy.length_field, Memcpy.field_dst, List.not_mem_nil, false_imp_iff, implies_true,
        and_true]
      omega

theorem Layout.safeCall_setLSN (h : Layout p) (v : UInt64) : SafeCall p (.setLSN v) := by
  refine ⟨h.of_setLSN v.toNat, ?_, ?_⟩
  · simp [writes, lsnStore, Memcpy.stop, pageSize]
  · simp [writes, lsnStore, Memcpy.stop, MayWrite]

/-- **One call**: on a page with the layout it does what it must exactly when the cast does no
harm. -/
theorem Layout.safeCall_iff_noWrap (h : Layout p) (op : Op) : SafeCall p op ↔ NoWrap p op := by
  cases op with
  | insertTuple t =>
    by_cases hsum : t.length + slotSize < 2 ^ 16
    · refine iff_of_true ?_ (Or.inl hsum)
      by_cases ha : Admits p t
      · exact h.safeCall_insert_of_room ha ((h.admits_iff_room hsum).mp ha)
      · exact h.safeCall_of_eq (by rw [next, insertTuple, if_neg ha]) (if_neg ha)
    · rw [not_lt] at hsum
      by_cases hlen : t.length < 2 ^ 16
      · have ha := h.admits_of_wrap hsum hlen
        refine ⟨fun hs ↦ ?_, fun hno ↦ ?_⟩
        · refine Or.inr (Or.inr (not_le.mp fun hle ↦ ?_))
          obtain ⟨w, hmem, hout⟩ := h.insert_escapes hsum hlen
          have hin := hs.inside w (by rwa [writes, if_pos (ha.mpr hle)])
          omega
        · have hna : ¬ Admits p t := by
            rw [ha]
            simp only [NoWrap, headerSize, slotSize] at *
            omega
          exact h.safeCall_of_eq (by rw [next, insertTuple, if_neg hna]) (if_neg hna)
      · have hna : ¬ Admits p t := fun ha ↦ hlen (by have := ha.1; omega)
        exact iff_of_true
          (h.safeCall_of_eq (by rw [next, insertTuple, if_neg hna]) (if_neg hna))
          (Or.inr (Or.inl (not_lt.mp hlen)))
  | markDelete rid => exact iff_of_true (h.safeCall_markDelete rid) trivial
  | setLSN v => exact iff_of_true (h.safeCall_setLSN v) trivial
  | getTuple rid => exact iff_of_true (h.safeCall_of_eq rfl rfl) trivial
  | getLSN => exact iff_of_true (h.safeCall_of_eq rfl rfl) trivial

/-! ## Runs -/

/-- A run from a page with the layout is safe at every call exactly when no call is one at which
the cast does harm. -/
theorem Layout.along_safeCall_iff (h : Layout p) (ops : List Op) :
    Along step SafeCall p ops ↔ Along step NoWrap p ops := by
  constructor
  · refine along_of_invariant (I := Layout) (fun s op hs hsafe ↦ ?_)
      (fun s op o s' _ hsafe hst ↦ ?_) h
    · exact (hs.safeCall_iff_noWrap op).mp hsafe
    · cases hst; exact hsafe.layout
  · refine along_of_invariant (I := Layout) (fun s op hs hno ↦ ?_) (fun s op o s' hs hno hst ↦ ?_) h
    · exact (hs.safeCall_iff_noWrap op).mpr hno
    · cases hst; exact ((hs.safeCall_iff_noWrap op).mpr hno).layout

/-- **The layout invariant and its exact condition.**  On a run of any length from `Init`, the page
has the layout after `Init` and after every call, and every call writes only inside the page and
only what it may, exactly when no call of the run is an `InsertTuple` at which the cast of
`tuple_size + SLOT_SIZE` does harm. -/
theorem layout_safe_iff (p : Page) (ops : List Op) :
    (Layout (init p) ∧ Along step SafeCall (init p) ops) ↔ Along step NoWrap (init p) ops := by
  rw [(init_layout p).along_safeCall_iff ops]
  exact and_iff_right (init_layout p)

/-- Any tuple of 65532 bytes is admitted to a page that holds none. -/
theorem Layout.not_noWrap_of_length (h : Layout p) (hn : getTupleCount p = 0)
    (ht : t.length = 65532) : ¬ NoWrap p (.insertTuple t) := by
  have hs := h.slots_le
  simp only [NoWrap, ht, hn, headerSize, slotSize] at *
  omega

/-- A tuple of 65532 bytes, offered to an empty page. -/
theorem layout_unsafe_of_wrap :
    ¬ (Layout (init {}) ∧
      Along step SafeCall (init {}) [.insertTuple (List.replicate 65532 0)]) := by
  rintro ⟨hl, hs⟩
  exact hl.not_noWrap_of_length (init_getTupleCount {}) List.length_replicate
    ((hl.safeCall_iff_noWrap _).mp hs.1)

end SlottedPage

end StingDB
