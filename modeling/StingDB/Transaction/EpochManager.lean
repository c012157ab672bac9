import Mathlib.Data.List.MinMax
import Mathlib.Logic.Function.Basic
import StingDB.Lib.Machine
import StingDB.Lib.Words

/-!
# Epochs

`transaction/epoch_manager.h`: a global epoch and a ring of counters, one for each residue modulo
`MAX_EPOCHS`, which count the transactions that have entered an epoch and not left it.

`getOldestActiveEpoch` walks from the global epoch *down* and stops at the first epoch whose
counter is positive.  That is the newest epoch whose ring slot is in use, not the oldest: with
transactions in two epochs it returns the later of them, and with one transaction a full turn of
the ring behind it returns an epoch nobody is in.  `oldestActive_iff_clear` says exactly when
the answer is right all the same.

Epochs are `uint64_t` and taken as unbounded; the counters are `std::atomic<int32_t>` and wrap.
-/

set_option autoImplicit false

namespace StingDB

/-- `MAX_EPOCHS`. -/
abbrev maxEpochs : ℕ := 1024

/-- `EpochManager`. -/
structure EpochManager where
  /-- `global_epoch_` -/
  globalEpoch : ℕ := 1
  /-- `active_epochs_`, by ring slot -/
  activeEpochs : ℕ → ℤ := fun _ ↦ 0

namespace EpochManager

/-- `fetch_add(v)` on the counter of an epoch's ring slot. -/
def addCount (m : EpochManager) (epoch : ℕ) (v : ℤ) : EpochManager :=
  let slot := epoch % maxEpochs
  { m with activeEpochs := Function.update m.activeEpochs slot (i32 (m.activeEpochs slot + v)) }

/-- `EnterEpoch`: the epoch entered and the manager. -/
def enterEpoch (m : EpochManager) : ℕ × EpochManager := (m.globalEpoch, m.addCount m.globalEpoch 1)

/-- `ExitEpoch`. -/
def exitEpoch (m : EpochManager) (epoch : ℕ) : EpochManager := m.addCount epoch (-1)

/-- `AdvanceEpoch`. -/
def advanceEpoch (m : EpochManager) : EpochManager := { m with globalEpoch := m.globalEpoch + 1 }

/-- The loop of `GetOldestActiveEpoch`, from epoch `e` down to 1. -/
def scanDown (m : EpochManager) : ℕ → Option ℕ
  | 0 => none
  | e + 1 => if 0 < m.activeEpochs ((e + 1) % maxEpochs) then some (e + 1) else m.scanDown e

/-- `GetOldestActiveEpoch`. -/
def getOldestActiveEpoch (m : EpochManager) : ℕ := (m.scanDown m.globalEpoch).getD m.globalEpoch

theorem scanDown_eq_none {m : EpochManager} {e : ℕ}
    (h : ∀ r, 1 ≤ r → r ≤ e → ¬ 0 < m.activeEpochs (r % maxEpochs)) : m.scanDown e = none := by
  induction e with
  | zero => rfl
  | succ e ih =>
    rw [scanDown, if_neg (h (e + 1) (by omega) le_rfl)]
    exact ih fun r h₁ h₂ ↦ h r h₁ (by omega)

/-- **What the loop finds**: the greatest epoch whose ring slot has a positive counter. -/
theorem scanDown_spec {m : EpochManager} {e r₀ : ℕ} (h₁ : 1 ≤ r₀) (h₂ : r₀ ≤ e)
    (h₀ : 0 < m.activeEpochs (r₀ % maxEpochs)) :
    ∃ r, m.scanDown e = some r ∧ r ≤ e ∧ 0 < m.activeEpochs (r % maxEpochs) ∧
      ∀ r', r' ≤ e → 0 < m.activeEpochs (r' % maxEpochs) → r' ≤ r := by
  induction e with
  | zero => omega
  | succ e ih =>
    by_cases hc : 0 < m.activeEpochs ((e + 1) % maxEpochs)
    · exact ⟨e + 1, by rw [scanDown, if_pos hc], le_rfl, hc, fun r' hr' _ ↦ hr'⟩
    · have hle : r₀ ≤ e := by
        by_contra hlt
        rw [show r₀ = e + 1 by omega] at h₀
        exact hc h₀
      obtain ⟨r, hr, hre, hrc, hmax⟩ := ih hle
      refine ⟨r, by rw [scanDown, if_neg hc, hr], by omega, hrc, fun r' hr' hr'c ↦ ?_⟩
      by_cases hr'e : r' = e + 1
      · exact absurd (hr'e ▸ hr'c) hc
      · exact hmax r' (by omega) hr'c

end EpochManager

/-! ## Clients of the epoch manager -/

/-- The manager and, beside it, the epochs entered and not yet exited. -/
structure EpochClients where
  /-- The manager. -/
  manager : EpochManager := {}
  /-- One entry for each `EnterEpoch` that has not been matched by an `ExitEpoch`. -/
  active : List ℕ := []

namespace EpochClients

open Machine

/-- A call on the manager. -/
inductive Call where
  | enterEpoch
  | exitEpoch (epoch : ℕ)
  | advanceEpoch
  deriving DecidableEq

/-- One call: what `EnterEpoch` returned, if it was one, and the state after it.  Only an epoch
that is active can be exited. -/
def step (s : EpochClients) : Call → Option (Option ℕ × EpochClients)
  | .enterEpoch =>
    some (some s.manager.enterEpoch.1,
      ⟨s.manager.enterEpoch.2, s.manager.enterEpoch.1 :: s.active⟩)
  | .exitEpoch epoch =>
    if epoch ∈ s.active then some (none, ⟨s.manager.exitEpoch epoch, s.active.erase epoch⟩)
    else none
  | .advanceEpoch => some (none, { s with manager := s.manager.advanceEpoch })

/-- What `GetOldestActiveEpoch` should return: the smallest epoch entered and not yet exited, or
the current one when there is none. -/
def oldestActive (s : EpochClients) : ℕ := s.active.min?.getD s.manager.globalEpoch

/-- All active epochs are the same one, and it is less than a turn of the ring behind. -/
def Aligned (s : EpochClients) : Prop :=
  ∀ a ∈ s.active, (∀ b ∈ s.active, b = a) ∧ s.manager.globalEpoch < a + maxEpochs

/-- The number of active epochs in the ring slot of epoch `e`. -/
def slotCount (active : List ℕ) (e : ℕ) : ℕ :=
  active.countP fun a ↦ a % maxEpochs = e % maxEpochs

/-- That number is positive as an `int32_t`. -/
def InUse (s : EpochClients) (e : ℕ) : Prop := 0 < i32 (slotCount s.active e)

/-- The oldest active epoch has its ring slot in use (or is the current one), and between it and
the current epoch there is no other epoch whose slot is. -/
def Clear (s : EpochClients) : Prop :=
  ∀ m ∈ s.active.min?, (s.InUse m ∨ m = s.manager.globalEpoch) ∧
    ∀ e, m < e → e ≤ s.manager.globalEpoch → ¬ s.InUse e

/-! ## The ring counts the active epochs -/

theorem slotCount_cons (a : ℕ) (l : List ℕ) (e : ℕ) :
    slotCount (a :: l) e = slotCount l e + if a % maxEpochs = e % maxEpochs then 1 else 0 := by
  simp [slotCount, List.countP_cons]

theorem slotCount_erase {a : ℕ} {l : List ℕ} (ha : a ∈ l) (e : ℕ) :
    slotCount l e =
      slotCount (l.erase a) e + if a % maxEpochs = e % maxEpochs then 1 else 0 := by
  rw [← slotCount_cons]
  exact (List.perm_cons_erase ha).countP_eq _

theorem slotCount_pos_iff {l : List ℕ} {e : ℕ} :
    0 < slotCount l e ↔ ∃ a ∈ l, a % maxEpochs = e % maxEpochs := by
  simp [slotCount, List.countP_pos_iff]

/-- What ties the ring to the active epochs. -/
structure Consistent (s : EpochClients) : Prop where
  /-- Each counter is the number of active epochs of its slot, as an `int32_t`. -/
  count : ∀ e, s.manager.activeEpochs (e % maxEpochs) = i32 (slotCount s.active e)
  /-- Active epochs lie between the first epoch and the current one. -/
  range : ∀ a ∈ s.active, 1 ≤ a ∧ a ≤ s.manager.globalEpoch
  /-- The first epoch is 1. -/
  pos : 1 ≤ s.manager.globalEpoch

theorem consistent_init : Consistent {} where
  count _ := by simp [slotCount, i32]
  range := by simp
  pos := le_rfl

/-- A counter after `fetch_add(v)`, from what it was before. -/
theorem addCount_count (m : EpochManager) (epoch e : ℕ) (v n : ℤ)
    (h : m.activeEpochs (e % maxEpochs) = i32 n) :
    (m.addCount epoch v).activeEpochs (e % maxEpochs) =
      i32 (n + if epoch % maxEpochs = e % maxEpochs then v else 0) := by
  by_cases heq : epoch % maxEpochs = e % maxEpochs
  · simp only [EpochManager.addCount, heq, Function.update_self, h, i32_i32_add, if_true]
  · simp only [EpochManager.addCount, Function.update_of_ne (Ne.symm heq), h, if_neg heq, add_zero]

theorem Consistent.step {s s' : EpochClients} {c : Call} {o : Option ℕ} (h : Consistent s)
    (hs : step s c = some (o, s')) : Consistent s' := by
  cases c with
  | enterEpoch =>
    cases hs
    refine ⟨fun e ↦ ?_, List.forall_mem_cons.mpr ⟨⟨h.pos, le_rfl⟩, h.range⟩, h.pos⟩
    refine (addCount_count s.manager _ e 1 _ (h.count e)).trans ?_
    rw [slotCount_cons, Nat.cast_add, Nat.cast_ite, Nat.cast_one, Nat.cast_zero]
    rfl
  | exitEpoch epoch =>
    rw [EpochClients.step] at hs
    split at hs
    · rename_i hmem
      cases hs
      refine ⟨fun e ↦ ?_, fun a ha ↦ h.range a (List.mem_of_mem_erase ha), h.pos⟩
      refine (addCount_count s.manager epoch e (-1) _ (h.count e)).trans ?_
      rw [slotCount_erase hmem e]
      split <;> simp
    · exact absurd hs (by simp)
  | advanceEpoch =>
    cases hs
    exact ⟨h.count, fun a ha ↦ ⟨(h.range a ha).1, (h.range a ha).2.trans (Nat.le_succ _)⟩,
      h.pos.trans (Nat.le_succ _)⟩

theorem consistent_of_run {s : EpochClients} {cs : List Call} {os : List (Option ℕ)}
    (hr : run EpochClients.step {} cs = some (os, s)) : Consistent s :=
  run_invariant (P := fun _ _ ↦ True) (fun _ _ _ _ h _ hs ↦ h.step hs) consistent_init along_true hr

/-! ## When the scan is right -/

theorem Consistent.inUse_iff {s : EpochClients} (h : Consistent s) (e : ℕ) :
    0 < s.manager.activeEpochs (e % maxEpochs) ↔ s.InUse e := by
  rw [h.count e, InUse]

/-- A slot in use is the slot of some active epoch. -/
theorem InUse.exists {s : EpochClients} {e : ℕ} (h : s.InUse e) :
    ∃ a ∈ s.active, a % maxEpochs = e % maxEpochs := by
  refine slotCount_pos_iff.mp (Nat.pos_of_ne_zero fun h₀ ↦ ?_)
  rw [InUse, h₀] at h
  exact absurd h (by decide)

/-- While fewer than `2 ^ 31` epochs are active, no counter has wrapped. -/
theorem inUse_of_mem {s : EpochClients} (hlen : s.active.length < 2 ^ 31) {a e : ℕ}
    (ha : a ∈ s.active) (he : a % maxEpochs = e % maxEpochs) : s.InUse e := by
  have hpos : 0 < slotCount s.active e := slotCount_pos_iff.mpr ⟨a, ha, he⟩
  have hle : slotCount s.active e ≤ s.active.length := List.countP_le_length
  rw [InUse, i32_of_lt (by omega) (by omega)]
  exact_mod_cast hpos

/-- **The answer of `GetOldestActiveEpoch` is right exactly when the way down is clear.** -/
theorem Consistent.oldest_iff_clear {s : EpochClients} (h : Consistent s) :
    s.manager.getOldestActiveEpoch = s.oldestActive ↔ s.Clear := by
  cases hm : s.active.min? with
  | none =>
    -- nobody is active: every counter is zero and the loop runs out
    have hact : s.active = [] := by simpa using hm
    have hnone : s.manager.scanDown s.manager.globalEpoch = none :=
      EpochManager.scanDown_eq_none fun r _ _ hpos ↦ by
        obtain ⟨a, ha, -⟩ := ((h.inUse_iff r).mp hpos).exists
        simp [hact] at ha
    refine iff_of_true ?_ fun m hm' ↦ by simp [hm] at hm'
    rw [EpochManager.getOldestActiveEpoch, hnone, oldestActive, hm]
  | some m =>
    obtain ⟨hmem, hmin⟩ := List.min?_eq_some_iff.mp hm
    obtain ⟨hm₁, hm₂⟩ := h.range m hmem
    have hclear : s.Clear ↔ (s.InUse m ∨ m = s.manager.globalEpoch) ∧
        ∀ e, m < e → e ≤ s.manager.globalEpoch → ¬ s.InUse e := by simp [Clear, hm]
    rw [EpochManager.getOldestActiveEpoch, oldestActive, hm, Option.getD_some, hclear]
    by_cases hany : ∃ r, 1 ≤ r ∧ r ≤ s.manager.globalEpoch ∧ s.InUse r
    · obtain ⟨r₀, hr₁, hr₂, hr₀⟩ := hany
      obtain ⟨r, hr, hrle, hrpos, hmax⟩ :=
        EpochManager.scanDown_spec hr₁ hr₂ ((h.inUse_iff r₀).mpr hr₀)
      simp only [h.inUse_iff] at hrpos hmax
      rw [hr, Option.getD_some]
      constructor
      · rintro rfl
        exact ⟨Or.inl hrpos, fun e hlt hle huse ↦ absurd (hmax e hle huse) (by omega)⟩
      · intro ⟨huse, hfree⟩
        have hrm : r ≤ m := not_lt.mp fun hlt ↦ hfree r hlt hrle hrpos
        rcases huse with huse | hcur
        · exact le_antisymm hrm (hmax m hm₂ huse)
        · -- everyone is in the current epoch, so the slot in use is its own
          obtain ⟨a, ha, hres⟩ := hrpos.exists
          have ham : a = m := le_antisymm (hcur ▸ (h.range a ha).2) (hmin a ha)
          have huse : s.InUse m := by rwa [InUse, slotCount, ← ham, hres]
          exact le_antisymm hrm (hmax m hm₂ huse)
    · have hnone : s.manager.scanDown s.manager.globalEpoch = none :=
        EpochManager.scanDown_eq_none fun r h₁ h₂ hpos ↦
          hany ⟨r, h₁, h₂, (h.inUse_iff r).mp hpos⟩
      rw [hnone, Option.getD_none]
      refine ⟨fun heq ↦ ?_, ?_⟩
      · exact ⟨Or.inr heq.symm, fun e _ hle huse ↦ hany ⟨e, by omega, hle, huse⟩⟩
      · rintro ⟨huse | hcur, -⟩
        · exact absurd ⟨m, hm₁, hm₂, huse⟩ hany
        · exact hcur.symm

/-- Unless a counter has wrapped, the way down is clear exactly when the epochs are aligned. -/
theorem Consistent.clear_iff_aligned {s : EpochClients} (h : Consistent s)
    (hlen : s.active.length < 2 ^ 31) : s.Clear ↔ s.Aligned := by
  refine ⟨fun hc ↦ ?_, fun hal m hm ↦ ?_⟩
  · suffices hal : ∀ m, s.active.min? = some m → (∀ b ∈ s.active, b = m) ∧
        s.manager.globalEpoch < m + maxEpochs by
      intro a ha
      obtain ⟨m, hm⟩ := Option.isSome_iff_exists.mp
        (List.isSome_min?_of_ne_nil (List.ne_nil_of_mem ha))
      rw [(hal m hm).1 a ha]
      exact hal m hm
    intro m hm
    obtain ⟨hmem, hmin⟩ := List.min?_eq_some_iff.mp hm
    obtain ⟨-, hfree⟩ := hc m hm
    refine ⟨fun b hb ↦ ?_, ?_⟩
    · by_contra hne
      exact hfree b (lt_of_le_of_ne (hmin b hb) (Ne.symm hne)) (h.range b hb).2
        (inUse_of_mem hlen hb rfl)
    · -- a turn of the ring later, the scan would meet an alias of `m`
      by_contra hge
      exact hfree (m + maxEpochs) (by simp [maxEpochs]) (not_lt.mp hge)
        (inUse_of_mem hlen hmem (Nat.add_mod_right _ _).symm)
  · obtain ⟨hmem, hmin⟩ := List.min?_eq_some_iff.mp hm
    obtain ⟨heq, hturn⟩ := hal m hmem
    refine ⟨Or.inl (inUse_of_mem hlen hmem rfl), fun e hlt hle huse ↦ ?_⟩
    obtain ⟨a, ha, hres⟩ := huse.exists
    rw [heq a ha] at hres
    simp only [maxEpochs] at *
    omega

/-- **`GetOldestActiveEpoch`, over every run.**  After any sequence of matched calls it returns
the smallest epoch entered and not yet exited (or the current epoch when there is none) exactly
when the way down to that epoch is clear; and with fewer than `2 ^ 31` epochs active, so that no
counter has wrapped, this means that all active epochs are one and the same and the current
epoch is less than `MAX_EPOCHS` ahead of it. -/
theorem oldestActive_iff_clear {s : EpochClients} {cs : List Call} {os : List (Option ℕ)}
    (hr : run EpochClients.step {} cs = some (os, s)) :
    (s.manager.getOldestActiveEpoch = s.oldestActive ↔ s.Clear) ∧
      (s.active.length < 2 ^ 31 → (s.Clear ↔ s.Aligned)) :=
  ⟨(consistent_of_run hr).oldest_iff_clear, (consistent_of_run hr).clear_iff_aligned⟩

/-- One transaction, and the current epoch 3 ahead of it. -/
theorem oldestActive_iff_clear_one :
    ∃ s os, run EpochClients.step {}
        [.enterEpoch, .advanceEpoch, .advanceEpoch, .advanceEpoch] = some (os, s) ∧
      (s.manager.getOldestActiveEpoch = s.oldestActive ↔ s.Clear) ∧
      (s.active.length < 2 ^ 31 → (s.Clear ↔ s.Aligned)) :=
  ⟨_, _, rfl, oldestActive_iff_clear
    (rfl : run EpochClients.step {} [.enterEpoch, .advanceEpoch, .advanceEpoch, .advanceEpoch] =
      some _)⟩

/-- Two transactions in successive epochs: the answer is the younger one. -/
theorem newest_returned :
    ∃ s os, run EpochClients.step {} [.enterEpoch, .advanceEpoch, .enterEpoch] = some (os, s) ∧
      s.oldestActive = 1 ∧ s.manager.getOldestActiveEpoch = 2 :=
  ⟨_, _, rfl, by decide, by decide⟩

end EpochClients

end StingDB
