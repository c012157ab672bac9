import StingDB.Lib.Machine
import StingDB.Storage.BPlusTree
import StingDB.Storage.BufferPool.Pins

/-!
# The pins of lookups

A call of `FindValue` or `Insert` fetches the root, which is one pin more on it.  Where the root is
a leaf, the latch on it is released by the destructor of the context, and the pin is not: the call
of `UnpinPage` there is a comment.  So each call leaves a pin behind, whatever the state of the pool
(`lookups_pinNeutral_iff`).
-/

set_option autoImplicit false

namespace StingDB

open Machine

/-! ## One fetch -/

/-- A pin more is never the same number of pins, not even where the count wraps. -/
theorem i32_add_one_ne (c : ℤ) : i32 (c + 1) ≠ c := by
  intro h
  have hmod : i32 (c + 1) % 2 ^ 32 = (c + 1) % 2 ^ 32 := Int.bmod_emod
  rw [h] at hmod
  omega

/-- A page that is fetched has one pin more than it had. -/
theorem Store.pinCount_fetchPage {s s' : Store} {p : PageId} {f : ℕ}
    (hf : s.fetchPage p = (some f, s')) : s'.pinCount p = i32 (s.pinCount p + 1) := by
  rw [pinCount_of_lookup (fetchPage_resident hf)]
  obtain ⟨f', hp, ho, rfl⟩ | ⟨-, -, ho, -⟩ | ⟨hp, f', s₁, -, ho, rfl⟩ := fetchPage_cases hf
  · cases ho
    rw [BufferPoolManager.pin_pinCount_self, pinCount_of_lookup hp]
  · cases ho
  · cases ho
    have hzero : s.pinCount p = 0 := by
      rw [pinCount, hp, Option.elim_none]
    rw [hzero]
    exact congrArg Page.pinCount (BufferPoolManager.install_pages_self ..)

namespace BPlusTree

open BPlusTreeNode

variable {t : BPlusTree} {fuel : ℕ} {s s' : LatchedPool} {c : Call} {b : Bool}

/-! ## One lookup -/

/-- The root page, as the pool gives it out, is a leaf. -/
def RootIsLeaf (t : BPlusTree) (s : LatchedPool) : Prop :=
  t.rootPageId ≠ invalidPageId → ∀ f bpm, s.bpm.fetchPage t.rootPageId = (some f, bpm) →
    IsLeafPage (bpm.pool.pages f).data

/-- One call, if it returns. -/
def step (t : BPlusTree) (fuel : ℕ) (s : LatchedPool) (c : Call) : Option (Bool × LatchedPool) :=
  match t.call fuel s c with
  | .returned r => some r
  | .nullPage => none
  | .running => none

/-- **A lookup in a leaf** fetches the page and does nothing else; the latch is as it was. -/
theorem step_cases (hleaf : t.RootIsLeaf s) (hs : t.step (fuel + 1) s c = some (b, s')) :
    t.rootPageId = invalidPageId ∧ s' = s ∨
      t.rootPageId ≠ invalidPageId ∧
        ∃ f bpm, s.bpm.fetchPage t.rootPageId = (some f, bpm) ∧ s' = { s with bpm } := by
  rw [step] at hs
  by_cases ht : t.rootPageId = invalidPageId
  · obtain ⟨b', hcall⟩ := call_of_rootless ht (fuel + 1) s c
    rw [hcall] at hs
    cases hs
    exact Or.inl ⟨ht, rfl⟩
  · refine Or.inr ⟨ht, ?_⟩
    rcases hf : s.bpm.fetchPage t.rootPageId with ⟨_ | f, bpm⟩
    · rw [call_eq_of_null ht hf] at hs
      cases hs
    · have hdata : IsLeafPage (bpm.pool.pages f).data := hleaf ht f bpm hf
      rw [call_eq_of_fetch ht hf, descend, LatchedPool.onLatch_bpm, if_pos hdata, Progress.map,
        LatchedPool.rUnlock_rLock] at hs
      cases hs
      exact ⟨f, bpm, rfl, rfl⟩

/-- The root is a leaf after the call as well. -/
theorem RootIsLeaf.step (hleaf : t.RootIsLeaf s) (hs : t.step (fuel + 1) s c = some (b, s')) :
    t.RootIsLeaf s' := by
  obtain ⟨-, rfl⟩ | ⟨ht, f, bpm, hf, rfl⟩ := step_cases hleaf hs
  · exact hleaf
  · intro _ g bpm' hg
    have hresident := Store.fetchPage_resident hf
    rw [Store.fetchPage_of_resident hresident] at hg
    cases hg
    dsimp only
    rw [BufferPoolManager.pin_data]
    exact hleaf ht f bpm hf

/-- A call that returns is pin-neutral only where there is no root. -/
theorem pinNeutral_step_iff (hleaf : t.RootIsLeaf s)
    (hs : t.step (fuel + 1) s c = some (b, s')) :
    s.bpm.PinNeutral s'.bpm ↔ t.rootPageId = invalidPageId := by
  obtain ⟨ht, rfl⟩ | ⟨ht, f, bpm, hf, rfl⟩ := step_cases hleaf hs
  · exact iff_of_true (.refl _) ht
  · refine iff_of_false (fun hneutral ↦ ?_) ht
    have hres : (bpm.pool.pageTable.lookup t.rootPageId).isSome := by
      rw [Store.fetchPage_resident hf]
      rfl
    have hcount := hneutral t.rootPageId hres
    rw [Store.pinCount_fetchPage hf] at hcount
    exact i32_add_one_ne _ hcount

/-! ## Sequences of lookups -/

/-- Every call returns, with the pins and the latches as it found them. -/
def Neutral (t : BPlusTree) (fuel : ℕ) (s : LatchedPool) (calls : List Call) : Prop :=
  (∃ os s', run (t.step fuel) s calls = some (os, s')) ∧
    Throughout (t.step fuel) (fun _ s _ s' ↦ s.bpm.PinNeutral s'.bpm ∧ s'.latch = s.latch) s calls

/-- Without a root, a run of lookups is a run of nothing. -/
theorem run_of_rootless (ht : t.rootPageId = invalidPageId) (fuel : ℕ) (s : LatchedPool)
    (calls : List Call) : ∃ os, run (t.step fuel) s calls = some (os, s) := by
  induction calls with
  | nil => exact ⟨[], rfl⟩
  | cons c calls ih =>
    obtain ⟨os, hr⟩ := ih
    obtain ⟨b, hcall⟩ := call_of_rootless ht fuel s c
    have hs : t.step fuel s c = some (b, s) := by
      rw [step, hcall]
    exact ⟨b :: os, run_cons.mpr ⟨b, s, os, hs, hr, rfl⟩⟩

/-- What a run of lookups leaves behind: a pin for each, and no latch. -/
structure LeavesPins (t : BPlusTree) (s : LatchedPool) (calls : List Call) (s' : LatchedPool) :
    Prop where
  rootIsLeaf : t.RootIsLeaf s'
  latch : s'.latch = s.latch
  pinCount : t.rootPageId ≠ invalidPageId → calls ≠ [] →
    s'.bpm.pinCount t.rootPageId = i32 (s.bpm.pinCount t.rootPageId + calls.length)

theorem leavesPins_of_run (hleaf : t.RootIsLeaf s) {calls : List Call} {os : List Bool}
    (hr : run (t.step (fuel + 1)) s calls = some (os, s')) : t.LeavesPins s calls s' := by
  refine run_history (P := fun _ _ ↦ True) (I := fun calls _ s' ↦ t.LeavesPins s calls s')
    ⟨hleaf, rfl, fun _ h ↦ absurd rfl h⟩ ?_ along_true hr
  intro calls os s₁ c b s₂ hr₁ h _ hs
  obtain ⟨hroot, rfl⟩ | ⟨ht, f, bpm, hf, rfl⟩ := step_cases h.rootIsLeaf hs
  · exact ⟨h.rootIsLeaf, h.latch, fun ht ↦ absurd hroot ht⟩
  · refine ⟨h.rootIsLeaf.step hs, h.latch, fun _ _ ↦ ?_⟩
    rw [List.length_append, List.length_singleton, Nat.cast_add, Nat.cast_one, ← add_assoc]
    dsimp only
    rw [Store.pinCount_fetchPage hf]
    -- the count before the first call need not be an `int`, the later ones are
    rcases eq_or_ne calls [] with rfl | hne
    · cases hr₁
      simp
    · rw [h.pinCount ht hne, i32_i32_add]

/-- **When lookups are pin-neutral.**  For every state of the pool, every tree whose root page is a
leaf and every sequence of calls: each of them returns and leaves the pins as it found them exactly
if there is no root or no call.  With a root, every call that returns leaves one pin more on it; the
latches are always as they were. -/
theorem lookups_pinNeutral_iff (hleaf : t.RootIsLeaf s) (fuel : ℕ) (calls : List Call) :
    (t.Neutral (fuel + 1) s calls ↔ t.rootPageId = invalidPageId ∨ calls = []) ∧
      ∀ os s', run (t.step (fuel + 1)) s calls = some (os, s') →
        s'.latch = s.latch ∧ (t.rootPageId ≠ invalidPageId → calls ≠ [] →
          s'.bpm.pinCount t.rootPageId = i32 (s.bpm.pinCount t.rootPageId + calls.length)) := by
  refine ⟨⟨fun ⟨⟨os, s', hr⟩, hneutral⟩ ↦ ?_, fun h ↦ ⟨?_, ?_⟩⟩, fun os s' hr ↦
    ⟨(leavesPins_of_run hleaf hr).latch, (leavesPins_of_run hleaf hr).pinCount⟩⟩
  · cases calls with
    | nil => exact Or.inr rfl
    | cons c calls =>
      obtain ⟨b, s₁, os', hs, -, -⟩ := run_cons.mp hr
      have hfirst := hneutral [] c calls [] s b s₁ rfl rfl hs
      exact Or.inl ((pinNeutral_step_iff hleaf hs).mp hfirst.1)
  · rcases h with ht | rfl
    · obtain ⟨os, hr⟩ := run_of_rootless ht (fuel + 1) s calls
      exact ⟨os, s, hr⟩
    · exact ⟨[], s, rfl⟩
  · intro pre c post os s₁ b s₂ heq hr hs
    rcases h with ht | rfl
    · have hleaf₁ := (leavesPins_of_run hleaf hr).rootIsLeaf
      refine ⟨(pinNeutral_step_iff hleaf₁ hs).mpr ht, ?_⟩
      obtain ⟨-, rfl⟩ | ⟨hne, -⟩ := step_cases hleaf₁ hs
      · rfl
      · exact absurd ht hne
    · simp at heq

/-- A pool over a file whose page 0 is a leaf. -/
def leafPool (poolSize : ℕ) : LatchedPool where
  bpm := .opened poolSize fun p ↦ if p = 0 then some (init Block.zero .leaf 100) else none

theorem rootIsLeaf_leafPool : RootIsLeaf ⟨0⟩ (leafPool 1) := by
  intro _ f bpm hf
  cases hf
  exact getType_init Block.zero .leaf 100

/-- Two lookups in the leaf. -/
theorem lookups_pinNeutral_iff_two :
    Neutral ⟨0⟩ 1 (leafPool 1) [.findValue 7, .insert 7 ⟨0, 0⟩] ↔
      (0 : PageId) = invalidPageId ∨ [Call.findValue 7, .insert 7 ⟨0, 0⟩] = [] :=
  (lookups_pinNeutral_iff rootIsLeaf_leafPool 0 [.findValue 7, .insert 7 ⟨0, 0⟩]).1

/-- One lookup in a pool of one frame, which has no frame for another page then. -/
theorem not_pinNeutral_lookup :
    RootIsLeaf ⟨0⟩ (leafPool 1) ∧ (leafPool 1).bpm.newPage.1 = some (0, 0) ∧
      ∃ s, findValue ⟨0⟩ 1 7 (leafPool 1) = .returned (true, s) ∧ s.bpm.pinCount 0 = 1 ∧
        ¬ (leafPool 1).bpm.PinNeutral s.bpm ∧ s.bpm.newPage.1 = none := by
  refine ⟨rootIsLeaf_leafPool, rfl, _, rfl, rfl, fun h ↦ ?_, rfl⟩
  exact absurd (h 0 rfl) (by decide)

end BPlusTree

end StingDB
