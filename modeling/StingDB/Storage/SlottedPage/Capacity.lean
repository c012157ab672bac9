import Mathlib.Tactic.Ring
import StingDB.Storage.SlottedPage.Layout

/-!
# How much a page takes

The free space of a page is what the header, the slots and the tuples leave of `pageSize`, whatever
the order in which tuples came and were deleted: a tombstone keeps its slot and its bytes.  So an
insert is accepted exactly if everything accepted so far, the new tuple and its slot fit, to the
last byte (`insertTuple_iff_fits`).

`Occupied` is the invariant behind that, for a page with any mix of tuples.
-/

set_option autoImplicit false

namespace StingDB

namespace SlottedPage

open Machine

/-- The page has `n` tuples, deleted ones included, of `bytes` bytes together. -/
structure Occupied (p : Page) (n bytes : ℕ) : Prop where
  layout : Layout p
  count_eq : getTupleCount p = n
  pointer_eq : getFreeSpacePointer p + bytes = pageSize

/-- What a page must hold for `n` tuples of `bytes` bytes. -/
def occupation (n bytes : ℕ) : ℕ := headerSize + slotSize * n + bytes

/-- No tuple larger than a page. -/
def Offered : Op → Prop
  | .insertTuple t => t.length ≤ pageSize
  | _ => True

/-- The tuple that a call has put on the page. -/
def acceptedTuple : Op × Out → Option (List UInt8)
  | (.insertTuple t, .inserted true _) => some t
  | _ => none

/-- The tuples that the calls have put on the page, in order. -/
def accepted (ops : List Op) (os : List Out) : List (List UInt8) :=
  (ops.zip os).filterMap acceptedTuple

variable {p : Page} {t : List UInt8} {n bytes : ℕ}

theorem occupied_init (p : Page) : Occupied (init p) 0 0 where
  layout := init_layout p
  count_eq := init_getTupleCount p
  pointer_eq := init_getFreeSpacePointer p

namespace Occupied

theorem of_data_eq {q : Page} (h : Occupied p n bytes) (hd : q.data = p.data) :
    Occupied q n bytes where
  layout := h.layout.of_data_eq hd
  count_eq := by rw [getTupleCount, hd, ← getTupleCount, h.count_eq]
  pointer_eq := by rw [getFreeSpacePointer, hd, ← getFreeSpacePointer, h.pointer_eq]

theorem setLSN (h : Occupied p n bytes) (lsn : ℕ) :
    Occupied (SlottedPage.setLSN p lsn) n bytes where
  layout := h.layout.of_setLSN lsn
  count_eq := by rw [setLSN_getTupleCount, h.count_eq]
  pointer_eq := by rw [setLSN_getFreeSpacePointer, h.pointer_eq]

theorem room_iff (h : Occupied p n bytes) :
    Room p t ↔ occupation (n + 1) (bytes + t.length) ≤ pageSize := by
  have hp := h.pointer_eq
  rw [Room, h.count_eq, occupation, Nat.mul_comm slotSize]
  omega

/-- **The admission test**, in terms of what the page has. -/
theorem admits_iff (h : Occupied p n bytes) (ht : t.length + slotSize < 2 ^ 16) :
    Admits p t ↔ occupation (n + 1) (bytes + t.length) ≤ pageSize := by
  rw [h.layout.admits_iff_room ht, h.room_iff]

theorem occupation_le (h : Occupied p n bytes) : occupation n bytes ≤ pageSize := by
  have hs := h.layout.slots_le
  have hp := h.pointer_eq
  rw [h.count_eq] at hs
  rw [occupation, Nat.mul_comm slotSize]
  omega

/-- One more tuple. -/
theorem insert (h : Occupied p n bytes) (hr : Room p t) :
    Occupied ((inserted p t).setDirty true) (n + 1) (bytes + t.length) := by
  have hp := h.pointer_eq
  have hinserted : Occupied (inserted p t) (n + 1) (bytes + t.length) :=
    { layout := insert_layout h.layout hr
      count_eq := by rw [insert_getTupleCount h.layout hr, h.count_eq]
      pointer_eq := by
        rw [insert_getFreeSpacePointer h.layout hr]
        rw [Room] at hr
        omega }
  exact hinserted.of_data_eq rfl

/-- A delete gives nothing back. -/
theorem delete (h : Occupied p n bytes) {rid : RID} (hk : rid.slotNum.toNat < getTupleCount p) :
    Occupied ((deleted p rid).setDirty true) n bytes := by
  have hdeleted : Occupied (deleted p rid) n bytes :=
    { layout := delete_layout h.layout hk
      count_eq := by rw [delete_getTupleCount h.layout hk, h.count_eq]
      pointer_eq := by rw [delete_getFreeSpacePointer h.layout hk, h.pointer_eq] }
  exact hdeleted.of_data_eq rfl

/-- **One call** adds what it has put on the page. -/
theorem next (h : Occupied p n bytes) {op : Op} (hop : Offered op) :
    Occupied (SlottedPage.next p op) (n + (accepted [op] [out p op]).length)
      (bytes + ((accepted [op] [out p op]).map List.length).sum) := by
  cases op with
  | insertTuple t =>
    by_cases ha : Admits p t
    · have hr : Room p t := (h.layout.admits_iff_room (by
        have hle : t.length ≤ pageSize := hop
        simp only [slotSize, pageSize] at *
        omega)).mp ha
      have hnext : SlottedPage.next p (.insertTuple t) = (inserted p t).setDirty true := by
        rw [SlottedPage.next, insertTuple, if_pos ha, inserted]
      have haccepted : accepted [.insertTuple t] [out p (.insertTuple t)] = [t] := by
        rw [out, insertTuple, if_pos ha]
        rfl
      rw [hnext, haccepted]
      exact h.insert hr
    · have haccepted : accepted [.insertTuple t] [out p (.insertTuple t)] = [] := by
        rw [out, insertTuple, if_neg ha]
        rfl
      rw [SlottedPage.next, insertTuple, if_neg ha, haccepted]
      exact h
  | markDelete rid =>
    rw [SlottedPage.next, markDelete]
    split
    · exact h
    · rename_i hk
      exact h.delete (not_le.mp hk)
  | setLSN lsn => exact h.setLSN lsn.toNat
  | getTuple rid => exact h
  | getLSN => exact h

/-- **A run** adds what its calls have put on the page. -/
theorem run (h : Occupied p n bytes) {ops : List Op} (hops : ∀ op ∈ ops, Offered op)
    {os : List Out} {q : Page} (hr : Machine.run step p ops = some (os, q)) :
    Occupied q (n + (accepted ops os).length)
      (bytes + ((accepted ops os).map List.length).sum) := by
  induction ops generalizing p os n bytes with
  | nil =>
    cases hr
    exact h
  | cons op ops ih =>
    obtain ⟨o, p', os', hs, hr', rfl⟩ := run_cons.mp hr
    cases hs
    have hcons : accepted (op :: ops) (out p op :: os') =
        accepted [op] [out p op] ++ accepted ops os' := by
      rw [accepted, accepted, accepted, ← List.filterMap_append]
      rfl
    have hq := ih (h.next (hops op List.mem_cons_self))
      (fun o ho ↦ hops o (List.mem_cons_of_mem _ ho)) hr'
    rw [hcons, List.length_append, List.map_append, List.sum_append, ← Nat.add_assoc,
      ← Nat.add_assoc]
    exact hq

end Occupied

/-- **Capacity and rejection.**  After any run from `Init` that offers no tuple larger than a page,
a tuple that is not larger than a page either is accepted if and only if the header, a slot for each
tuple accepted so far and for the new one, and the bytes of all of these fit in a page; and if it is
not accepted then nothing about the page has changed, and nor has `*rid`. -/
theorem insertTuple_iff_fits (p₀ : Page) {ops : List Op} (hops : ∀ op ∈ ops, Offered op) :
    ∃ os p, run step (init p₀) ops = some (os, p) ∧ ∀ (t : List UInt8) (rid : RID),
      t.length ≤ pageSize →
        ((insertTuple p t rid).1 = true ↔
          headerSize + slotSize * ((accepted ops os).length + 1) +
            ((accepted ops os).map List.length).sum + t.length ≤ pageSize) ∧
        ((insertTuple p t rid).1 = false → (insertTuple p t rid).2 = (rid, p)) := by
  obtain ⟨os, p, hr⟩ := run_total (f := fun p op ↦ (out p op, next p op)) (init p₀) ops
  refine ⟨os, p, hr, fun t rid ht ↦ ?_⟩
  have h := (occupied_init p₀).run hops hr
  rw [Nat.zero_add, Nat.zero_add] at h
  have hadmits := h.admits_iff (t := t) (by
    simp only [slotSize, pageSize] at *
    omega)
  rw [occupation, ← Nat.add_assoc] at hadmits
  rw [← hadmits, insertTuple]
  by_cases ha : Admits p t
  · simp [ha]
  · simp [ha]

/-- An empty tuple on a fresh page, and then one that fits to the last byte. -/
theorem insertTuple_iff_fits_two :
    ∃ os p, run step (init {}) [.insertTuple []] = some (os, p) ∧
      ((insertTuple p (List.replicate 8172 0) {}).1 = true ↔
        headerSize + slotSize * ((accepted [.insertTuple []] os).length + 1) +
          ((accepted [.insertTuple []] os).map List.length).sum + 8172 ≤ pageSize) := by
  have hops : ∀ op ∈ [Op.insertTuple []], Offered op := by simp [Offered]
  obtain ⟨os, p, hr, h⟩ := insertTuple_iff_fits {} hops
  have hlen : (List.replicate 8172 (0 : UInt8)).length ≤ pageSize := by
    rw [List.length_replicate]
    decide
  have hfits := (h (List.replicate 8172 0) {} hlen).1
  rw [List.length_replicate] at hfits
  exact ⟨os, p, hr, hfits⟩

end SlottedPage

end StingDB
