import Mathlib.Tactic.NormNum
import StingDB.Lib.Alignment
import StingDB.Lib.Machine
import StingDB.Lib.Words

/-!
# The arena

`common/memory/arena_allocator.h`.

`Allocate` cuts blocks off the current chunk, one after the other, with padding before each for its
alignment, and opens a new chunk where a block does not fit.  It takes a new chunk for aligned, as
it is to 16 bytes and need not be to more (`aligned_iff`), and for large enough, as it is for sizes
up to the size of a chunk (`inPlace_iff`).  All arithmetic is that of `size_t`.
-/

set_option autoImplicit false

namespace StingDB

/-- `ArenaAllocator`.  A chunk is the address of its first byte. -/
structure ArenaAllocator where
  /-- `chunk_size_` -/
  chunkSize : ℕ
  /-- `current_offset_` -/
  currentOffset : ℕ
  /-- `chunks_` -/
  chunks : List ℕ
  chunks_ne_nil : chunks ≠ []

namespace ArenaAllocator

/-- `ArenaAllocator(chunk_size)`, where `operator new[]` returns `base`. -/
def create (chunkSize base : ℕ) : ArenaAllocator where
  chunkSize
  currentOffset := 0
  chunks := [base]
  chunks_ne_nil := List.cons_ne_nil _ _

/-- `chunks_.back()` -/
def back (a : ArenaAllocator) : ℕ := a.chunks.getLast a.chunks_ne_nil

/-- `AllocateChunk()`, where `operator new[]` returns `base`. -/
def allocateChunk (a : ArenaAllocator) (base : ℕ) : ArenaAllocator where
  chunkSize := a.chunkSize
  currentOffset := 0
  chunks := a.chunks ++ [base]
  chunks_ne_nil := List.append_ne_nil_of_right_ne_nil _ (List.cons_ne_nil _ _)

/-- `padding`, as `Allocate` computes it for the current chunk. -/
def padding (a : ArenaAllocator) (align : ℕ) : ℕ :=
  Alignment.padding align (u64 (a.back + a.currentOffset))

/-- The test that `Allocate` makes for the current chunk. -/
def Fits (a : ArenaAllocator) (size align : ℕ) : Prop :=
  u64 (a.currentOffset + size + a.padding align) ≤ a.chunkSize

instance (a : ArenaAllocator) (size align : ℕ) : Decidable (a.Fits size align) :=
  inferInstanceAs (Decidable (_ ≤ _))

/-- The end of `Allocate`: the pointer, and the offset behind the block. -/
def bump (a : ArenaAllocator) (size padding : ℕ) : ℕ × ArenaAllocator :=
  (u64 (a.back + a.currentOffset + padding),
    { a with currentOffset := u64 (a.currentOffset + (size + padding)) })

/-- `Allocate(size, align)`, where `operator new[]` returns `newChunk` if it is called, or throws,
which leaves the arena as it was. -/
def allocate (a : ArenaAllocator) (size align : ℕ) (newChunk : Option ℕ) :
    Option (ℕ × ArenaAllocator) :=
  if a.Fits size align then some (a.bump size (a.padding align))
  else newChunk.map fun base ↦ (a.allocateChunk base).bump size 0

/-- `Reset()` -/
def reset (a : ArenaAllocator) : ArenaAllocator where
  chunkSize := a.chunkSize
  currentOffset := 0
  chunks := [a.chunks.head a.chunks_ne_nil]
  chunks_ne_nil := List.cons_ne_nil _ _

section

variable {a a' : ArenaAllocator} {size align p : ℕ} {newChunk : Option ℕ}

theorem back_mem (a : ArenaAllocator) : a.back ∈ a.chunks := List.getLast_mem _

@[simp] theorem back_allocateChunk (a : ArenaAllocator) (base : ℕ) :
    (a.allocateChunk base).back = base := by
  simp [back, allocateChunk]

/-- The two ways in which `Allocate` returns. -/
theorem allocate_cases (h : a.allocate size align newChunk = some (p, a')) :
    (a.Fits size align ∧ p = u64 (a.back + a.currentOffset + a.padding align) ∧
      a' = { a with currentOffset := u64 (a.currentOffset + (size + a.padding align)) }) ∨
    ∃ base, ¬ a.Fits size align ∧ newChunk = some base ∧ p = u64 base ∧
      a' = { a.allocateChunk base with currentOffset := u64 size } := by
  rw [allocate] at h
  split at h
  · rename_i hfits
    cases h
    exact Or.inl ⟨hfits, rfl, rfl⟩
  · rename_i hfits
    obtain ⟨base, hbase, heq⟩ := Option.map_eq_some_iff.mp h
    cases heq
    refine Or.inr ⟨base, hfits, hbase, ?_, ?_⟩
    · rw [back_allocateChunk]
      rfl
    · simp [allocateChunk]

end

/-! ## Runs -/

/-- A block that `Allocate` has returned. -/
structure Allocation where
  address : ℕ
  size : ℕ
  align : ℕ
  deriving DecidableEq

/-- The block lies in the `len` bytes from `c` on. -/
def Allocation.Inside (x : Allocation) (c len : ℕ) : Prop :=
  c ≤ x.address ∧ x.address + x.size ≤ c + len

instance (x : Allocation) (c len : ℕ) : Decidable (x.Inside c len) :=
  inferInstanceAs (Decidable (_ ∧ _))

/-- No byte is in both blocks. -/
def Allocation.Apart (x y : Allocation) : Prop :=
  x.address + x.size ≤ y.address ∨ y.address + y.size ≤ x.address

instance (x y : Allocation) : Decidable (x.Apart y) := inferInstanceAs (Decidable (_ ∨ _))

/-- An arena and what it has returned since the last `Reset`, the latest first. -/
structure User where
  arena : ArenaAllocator
  allocations : List Allocation

/-- A call of the arena. -/
inductive Call where
  /-- `Allocate(size, align)`, with what `operator new[]` would return. -/
  | allocate (size align : ℕ) (newChunk : Option ℕ)
  /-- `Reset()` -/
  | reset
  deriving DecidableEq

namespace User

/-- A new arena. -/
def create (chunkSize base : ℕ) : User := ⟨.create chunkSize base, []⟩

/-- One call, and the pointer that it returns, if it is one that does. -/
def step (s : User) : Call → Option (Option ℕ × User)
  | .allocate size align newChunk =>
    match s.arena.allocate size align newChunk with
    | none => some (none, s)
    | some (p, a) => some (some p, { arena := a, allocations := ⟨p, size, align⟩ :: s.allocations })
  | .reset => some (none, { arena := s.arena.reset, allocations := [] })

variable {s s' : User} {e : Call} {o : Option ℕ} {Promised : ArenaAllocator → ℕ → Prop}
  {size align base : ℕ} {newChunk : Option ℕ}

/-- The call is one that can be made: the size is a `size_t`, the alignment a power of two, and a
new chunk is as `operator new[]` promises. -/
def Proper (Promised : ArenaAllocator → ℕ → Prop) (s : User) : Call → Prop
  | .allocate size align newChunk =>
    size < 2 ^ 64 ∧ (∃ k < 64, align = 2 ^ k) ∧ ∀ base ∈ newChunk, Promised s.arena base
  | .reset => True

instance [∀ a base, Decidable (Promised a base)] (s : User) :
    ∀ e, Decidable (s.Proper Promised e)
  | .allocate .. => inferInstanceAs (Decidable (_ ∧ _ ∧ _))
  | .reset => isTrue trivial

/-- Every block has the alignment that was asked for. -/
def Aligned (s : User) : Prop := ∀ x ∈ s.allocations, x.align ∣ x.address

instance (s : User) : Decidable s.Aligned := inferInstanceAs (Decidable (∀ x ∈ _, _))

/-- Every block lies in one of the chunks, and no two of them overlap. -/
structure InPlace (s : User) : Prop where
  inside : ∀ x ∈ s.allocations, ∃ c ∈ s.arena.chunks, x.Inside c s.arena.chunkSize
  apart : s.allocations.Pairwise Allocation.Apart

instance (s : User) : Decidable s.InPlace :=
  decidable_of_iff
    ((∀ x ∈ s.allocations, ∃ c ∈ s.arena.chunks, x.Inside c s.arena.chunkSize) ∧
      s.allocations.Pairwise Allocation.Apart)
    ⟨fun h ↦ ⟨h.1, h.2⟩, fun h ↦ ⟨h.inside, h.apart⟩⟩

/-- What an `Allocate` does to the blocks: nothing, if it throws. -/
theorem step_allocate_cases (h : s.step (.allocate size align newChunk) = some (o, s')) :
    (¬ s.arena.Fits size align ∧ newChunk = none ∧ s' = s) ∨
      ∃ p a, s.arena.allocate size align newChunk = some (p, a) ∧
        s' = { arena := a, allocations := ⟨p, size, align⟩ :: s.allocations } := by
  rw [step] at h
  cases ha : s.arena.allocate size align newChunk with
  | none =>
    rw [ha] at h
    cases h
    rw [ArenaAllocator.allocate] at ha
    split at ha
    · cases ha
    · rename_i hfits
      exact Or.inl ⟨hfits, Option.map_eq_none_iff.mp ha, rfl⟩
  | some r =>
    obtain ⟨p, a⟩ := r
    rw [ha] at h
    cases h
    exact Or.inr ⟨p, a, rfl, rfl⟩

/-! ## Alignment -/

/-- The block goes into the current chunk, or the new chunk has the alignment. -/
def KeepsAlignment (s : User) : Call → Prop
  | .allocate size align newChunk =>
    s.arena.Fits size align ∨ ∀ base ∈ newChunk, align ∣ base
  | .reset => True

theorem align_dvd (halign : ∃ k < 64, align = 2 ^ k) : align ∣ 2 ^ 64 := by
  obtain ⟨k, hk, rfl⟩ := halign
  exact pow_dvd_pow 2 hk.le

/-- An address is a `size_t`, which powers of two do not see. -/
theorem dvd_u64_iff (halign : ∃ k < 64, align = 2 ^ k) (p : ℕ) : align ∣ u64 p ↔ align ∣ p :=
  Nat.dvd_mod_iff (align_dvd halign)

/-- In the current chunk, the padding makes up for any base and any offset. -/
theorem dvd_address (halign : ∃ k < 64, align = 2 ^ k) (a : ArenaAllocator) :
    align ∣ u64 (a.back + a.currentOffset + a.padding align) := by
  have hpos : 0 < align := by
    obtain ⟨k, -, rfl⟩ := halign
    exact Nat.two_pow_pos k
  rw [dvd_u64_iff halign, ArenaAllocator.padding, u64, Alignment.padding_mod (align_dvd halign)]
  exact Alignment.dvd_add_padding hpos

theorem Aligned.step (h : s.Aligned) (hproper : s.Proper Promised e) (hkeeps : s.KeepsAlignment e)
    (hs : s.step e = some (o, s')) : s'.Aligned := by
  cases e with
  | reset =>
    cases hs
    exact fun _ hx ↦ absurd hx List.not_mem_nil
  | allocate size align newChunk =>
    obtain ⟨-, -, rfl⟩ | ⟨p, a, ha, rfl⟩ := step_allocate_cases hs
    · exact h
    · have hp : align ∣ p := by
        obtain ⟨-, rfl, -⟩ | ⟨base, hfits, hbase, rfl, -⟩ := allocate_cases ha
        · exact dvd_address hproper.2.1 s.arena
        · exact (dvd_u64_iff hproper.2.1 base).mpr (hkeeps.resolve_left hfits base hbase)
      exact List.forall_mem_cons.mpr ⟨hp, h⟩

theorem keepsAlignment_of_aligned (hproper : s.Proper Promised e)
    (hs : s.step e = some (o, s')) (h : s'.Aligned) : s.KeepsAlignment e := by
  cases e with
  | reset => trivial
  | allocate size align newChunk =>
    obtain ⟨-, rfl, -⟩ | ⟨p, a, ha, rfl⟩ := step_allocate_cases hs
    · exact Or.inr fun base hbase ↦ absurd hbase (by simp)
    · have hp : align ∣ p := (List.forall_mem_cons.mp h).1
      obtain ⟨hfits, -⟩ | ⟨base, -, hbase, rfl, -⟩ := allocate_cases ha
      · exact Or.inl hfits
      · refine Or.inr fun b hb ↦ ?_
        rw [← Option.some.inj (hbase.symm.trans hb)]
        exact (dvd_u64_iff hproper.2.1 base).mp hp

/-- Alignments that every chunk has. -/
theorem keepsAlignment_of_le (hproper : s.Proper (fun _ base ↦ 16 ∣ base) e)
    (hle : ∀ size align newChunk, e = .allocate size align newChunk → align ≤ 16) :
    s.KeepsAlignment e := by
  cases e with
  | reset => trivial
  | allocate size align newChunk =>
    refine Or.inr fun base hbase ↦ ?_
    obtain ⟨k, -, rfl⟩ := hproper.2.1
    have hk : k ≤ 4 := (Nat.pow_le_pow_iff_right one_lt_two).mp (hle size (2 ^ k) newChunk rfl)
    exact (pow_dvd_pow 2 hk).trans (hproper.2.2 base hbase)

theorem ne_none_of_step : s.step e ≠ none := by
  cases e with
  | reset => simp [step]
  | allocate size align newChunk =>
    rw [step]
    split <;> simp

/-- **When the blocks are aligned.**  For every size of the chunks and every sequence of calls,
where a chunk is aligned to 16 bytes and nothing more is known of it: every pointer that is returned
is aligned as it was asked for, exactly if each new chunk that is opened for a block has the
alignment of the block.  So they all are where no alignment is over 16. -/
theorem aligned_iff {chunkSize base : ℕ} {es : List Call}
    (hproper : Machine.Along step (Proper fun _ base ↦ 16 ∣ base) (create chunkSize base) es) :
    (Machine.Always step Aligned (create chunkSize base) es ↔
      Machine.Along step KeepsAlignment (create chunkSize base) es) ∧
    ((∀ size align newChunk, .allocate size align newChunk ∈ es → align ≤ 16) →
      Machine.Always step Aligned (create chunkSize base) es) := by
  have hiff : Machine.Always step Aligned (create chunkSize base) es ↔
      Machine.Along step KeepsAlignment (create chunkSize base) es :=
    Machine.always_iff_along_of_along (K := Aligned) (fun _ h ↦ h)
      (fun _ _ _ _ _ hproper hs h ↦ keepsAlignment_of_aligned hproper hs h)
      (fun _ _ _ _ h hproper hkeeps hs ↦ h.step hproper hkeeps hs)
      (fun _ _ _ _ hs ↦ absurd hs ne_none_of_step) (fun _ hx ↦ absurd hx List.not_mem_nil) hproper
  refine ⟨hiff, fun hle ↦ hiff.mpr ?_⟩
  have hsmall : Machine.Along step
      (fun _ e ↦ ∀ size align newChunk, e = .allocate size align newChunk → align ≤ 16)
      (create chunkSize base) es := by
    refine Machine.along_of_forall fun e he s size align newChunk heq ↦ ?_
    exact hle size align newChunk (heq ▸ he)
  exact (hproper.and hsmall).mono fun s e h ↦ keepsAlignment_of_le h.1 h.2

/-- A chunk that is filled, and a second one at a multiple of 16. -/
theorem aligned_iff_two :
    Machine.Always step Aligned (create 4096 4096)
        [.allocate 4096 16 none, .allocate 64 16 (some 8208)] ↔
      Machine.Along step KeepsAlignment (create 4096 4096)
        [.allocate 4096 16 none, .allocate 64 16 (some 8208)] :=
  (aligned_iff (by decide)).1

/-- The same chunks, and a block that should be aligned to 64 bytes. -/
theorem not_aligned_chunk :
    Machine.Along step (Proper fun _ base ↦ 16 ∣ base) (create 4096 4096)
        [.allocate 4096 16 none, .allocate 64 64 (some 8208)] ∧
      ¬ Machine.Always step Aligned (create 4096 4096)
        [.allocate 4096 16 none, .allocate 64 64 (some 8208)] := by
  decide

/-! ## Places -/

/-- A new chunk lies in the address space and does not overlap the others. -/
def Separate (a : ArenaAllocator) (base : ℕ) : Prop :=
  base + a.chunkSize < 2 ^ 64 ∧
    ∀ c ∈ a.chunks, base + a.chunkSize ≤ c ∨ c + a.chunkSize ≤ base

instance (a : ArenaAllocator) (base : ℕ) : Decidable (Separate a base) :=
  inferInstanceAs (Decidable (_ ∧ _))

/-- The block is no larger than a chunk, or it would need a new one and there is no memory. -/
def FitsChunk (s : User) : Call → Prop
  | .allocate size align newChunk =>
    size ≤ s.arena.chunkSize ∨ ¬ s.arena.Fits size align ∧ newChunk = none
  | .reset => True

/-- Where the sum that the test is made of is too large for the chunk, it does not look small
because it has gone round. -/
def NoWrap (s : User) : Call → Prop
  | .allocate size align _ =>
    s.arena.Fits size align →
      s.arena.currentOffset + size + s.arena.padding align ≤ s.arena.chunkSize
  | .reset => True

/-- The invariant: the chunks lie in the address space, and the rest of the current one is free. -/
structure Sound (chunkSize : ℕ) (s : User) : Prop where
  size_eq : s.arena.chunkSize = chunkSize
  offset_le : s.arena.currentOffset ≤ chunkSize
  in_space : ∀ c ∈ s.arena.chunks, c + chunkSize < 2 ^ 64
  inPlace : s.InPlace
  free : ∀ x ∈ s.allocations, x.address + x.size ≤ s.arena.back + s.arena.currentOffset ∨
    s.arena.back + chunkSize ≤ x.address

theorem sound_create {chunkSize : ℕ} (h : base + chunkSize < 2 ^ 64) :
    (create chunkSize base).Sound chunkSize where
  size_eq := rfl
  offset_le := Nat.zero_le _
  in_space := fun _ hc ↦ List.mem_singleton.mp hc ▸ h
  inPlace := ⟨fun _ hx ↦ absurd hx List.not_mem_nil, List.Pairwise.nil⟩
  free := fun _ hx ↦ absurd hx List.not_mem_nil

theorem Sound.reset {chunkSize : ℕ} (h : s.Sound chunkSize) :
    Sound chunkSize { arena := s.arena.reset, allocations := [] } where
  size_eq := h.size_eq
  offset_le := Nat.zero_le _
  in_space := fun c hc ↦ h.in_space c (List.mem_singleton.mp hc ▸ List.head_mem _)
  inPlace := ⟨fun _ hx ↦ absurd hx List.not_mem_nil, List.Pairwise.nil⟩
  free := fun _ hx ↦ absurd hx List.not_mem_nil

/-- A block in the current chunk begins behind the padding and ends where the next one may begin. -/
theorem Sound.bump {chunkSize : ℕ} (h : s.Sound chunkSize)
    (hle : s.arena.currentOffset + size + s.arena.padding align ≤ chunkSize) :
    Sound chunkSize
      { arena :=
          { s.arena with
            currentOffset := u64 (s.arena.currentOffset + (size + s.arena.padding align)) },
        allocations :=
          ⟨u64 (s.arena.back + s.arena.currentOffset + s.arena.padding align), size, align⟩ ::
            s.allocations } := by
  have hback := h.in_space s.arena.back s.arena.back_mem
  have hp : u64 (s.arena.back + s.arena.currentOffset + s.arena.padding align) =
      s.arena.back + s.arena.currentOffset + s.arena.padding align := u64_of_lt (by omega)
  have hoff : u64 (s.arena.currentOffset + (size + s.arena.padding align)) =
      s.arena.currentOffset + (size + s.arena.padding align) := u64_of_lt (by omega)
  rw [hp, hoff]
  refine ⟨h.size_eq, ?_, h.in_space, ⟨?_, ?_⟩, ?_⟩
  · show s.arena.currentOffset + (size + s.arena.padding align) ≤ chunkSize
    omega
  · refine List.forall_mem_cons.mpr ⟨⟨s.arena.back, s.arena.back_mem, ?_⟩, h.inPlace.inside⟩
    simp only [Allocation.Inside, h.size_eq]
    omega
  · refine List.pairwise_cons.mpr ⟨fun x hx ↦ ?_, h.inPlace.apart⟩
    have hfree := h.free x hx
    simp only [Allocation.Apart]
    omega
  · refine List.forall_mem_cons.mpr ⟨Or.inl ?_, fun x hx ↦ (h.free x hx).imp_left fun hle ↦ ?_⟩
    · show _ ≤ s.arena.back + (s.arena.currentOffset + (size + s.arena.padding align))
      simp only
      omega
    · show _ ≤ s.arena.back + (s.arena.currentOffset + (size + s.arena.padding align))
      omega

/-- A block at the beginning of a new chunk that is large enough for it. -/
theorem Sound.open {chunkSize : ℕ} (h : s.Sound chunkSize) (hsep : Separate s.arena base)
    (hle : size ≤ chunkSize) :
    Sound chunkSize
      { arena := { s.arena.allocateChunk base with currentOffset := u64 size },
        allocations := ⟨u64 base, size, align⟩ :: s.allocations } := by
  obtain ⟨hspace, hchunks⟩ := hsep
  rw [h.size_eq] at hspace hchunks
  have hp : u64 base = base := u64_of_lt (by omega)
  have hoff : u64 size = size := u64_of_lt (by omega)
  -- the blocks so far lie in the other chunks
  have hother : ∀ x ∈ s.allocations, x.address + x.size ≤ base ∨ base + chunkSize ≤ x.address := by
    intro x hx
    obtain ⟨c, hc, hlo, hhi⟩ := h.inPlace.inside x hx
    rw [h.size_eq] at hhi
    have hsep := hchunks c hc
    omega
  have hback : back { s.arena.allocateChunk base with currentOffset := size } = base :=
    back_allocateChunk s.arena base
  rw [hp, hoff]
  refine ⟨h.size_eq, hle, ?_, ⟨?_, ?_⟩, ?_⟩
  · exact List.forall_mem_append.mpr ⟨h.in_space, List.forall_mem_singleton.mpr hspace⟩
  · refine List.forall_mem_cons.mpr ⟨⟨base, by simp [allocateChunk], ?_⟩, fun x hx ↦ ?_⟩
    · simp only [Allocation.Inside, allocateChunk, h.size_eq]
      omega
    · obtain ⟨c, hc, hin⟩ := h.inPlace.inside x hx
      exact ⟨c, List.mem_append_left _ hc, hin⟩
  · refine List.pairwise_cons.mpr ⟨fun x hx ↦ ?_, h.inPlace.apart⟩
    have hapart := hother x hx
    simp only [Allocation.Apart]
    omega
  · simp only [hback]
    refine List.forall_mem_cons.mpr ⟨Or.inl le_rfl, fun x hx ↦ (hother x hx).imp_left fun hle ↦ ?_⟩
    exact hle.trans (Nat.le_add_right _ _)

theorem Sound.step {chunkSize : ℕ} (h : s.Sound chunkSize) (hproper : s.Proper Separate e)
    (hfits : s.FitsChunk e) (hwrap : s.NoWrap e) (hs : s.step e = some (o, s')) :
    s'.Sound chunkSize := by
  cases e with
  | reset =>
    cases hs
    exact h.reset
  | allocate size align newChunk =>
    obtain ⟨-, -, rfl⟩ | ⟨p, a, ha, rfl⟩ := step_allocate_cases hs
    · exact h
    · obtain ⟨hfit, rfl, rfl⟩ | ⟨base, hfit, hbase, rfl, rfl⟩ := allocate_cases ha
      · exact h.bump (h.size_eq ▸ hwrap hfit)
      · have hle : size ≤ chunkSize := by
          refine h.size_eq ▸ hfits.resolve_right fun hnone ↦ ?_
          rw [hnone.2] at hbase
          cases hbase
        exact h.open (hproper.2.2 base hbase) hle

/-- In chunks of up to 2^62 bytes, the sum of the test does not go round for blocks that are no
larger. -/
theorem Sound.noWrap {chunkSize : ℕ} (h : s.Sound chunkSize) (hsize : chunkSize ≤ 2 ^ 62)
    (hproper : s.Proper Promised e) (hfits : s.FitsChunk e) : s.NoWrap e := by
  cases e with
  | reset => trivial
  | allocate size align newChunk =>
    intro hfit
    have hle : size ≤ chunkSize := h.size_eq ▸ hfits.resolve_right fun hnone ↦ hnone.1 hfit
    obtain ⟨k, hk, rfl⟩ := hproper.2.1
    have hpad : s.arena.padding (2 ^ k) < 2 ^ k := Alignment.padding_lt (Nat.two_pow_pos k)
    have halign : 2 ^ k ≤ 2 ^ 63 := Nat.pow_le_pow_right two_pos (Nat.lt_succ_iff.mp hk)
    have hoff := h.offset_le
    have hlt : s.arena.currentOffset + size + s.arena.padding (2 ^ k) < 2 ^ 64 := by omega
    rw [Fits, u64_of_lt hlt] at hfit
    exact hfit

/-- A block that is larger than a chunk does not lie in one. -/
theorem fitsChunk_of_inPlace (hs : s.step e = some (o, s')) (hplace : s'.InPlace) :
    s.FitsChunk e := by
  cases e with
  | reset => trivial
  | allocate size align newChunk =>
    obtain ⟨hfit, hnone, -⟩ | ⟨p, a, ha, rfl⟩ := step_allocate_cases hs
    · exact Or.inr ⟨hfit, hnone⟩
    · obtain ⟨c, -, hlo, hhi⟩ := (List.forall_mem_cons.mp hplace.inside).1
      have hsize : a.chunkSize = s.arena.chunkSize := by
        obtain ⟨-, -, rfl⟩ | ⟨base, -, -, -, rfl⟩ := allocate_cases ha <;> rfl
      simp only [hsize] at hlo hhi
      refine Or.inl ?_
      omega

/-- **When the blocks are in bounds and do not overlap.**  For every size of the chunks and every
sequence of calls, where chunks are separate ranges of addresses: every block lies in a chunk and no
two since the last `Reset` overlap, as long as no block is larger than a chunk and the sum of the
test does not go round the 64 bits.  The sum does not, for chunks of up to 2^62 bytes, and there a
block that is larger than a chunk is all that can go wrong. -/
theorem inPlace_iff {chunkSize base : ℕ} {es : List Call} (hbase : base + chunkSize < 2 ^ 64)
    (hproper : Machine.Along step (Proper Separate) (create chunkSize base) es) :
    (Machine.Along step (fun s e ↦ s.FitsChunk e ∧ s.NoWrap e) (create chunkSize base) es →
      Machine.Always step InPlace (create chunkSize base) es) ∧
    (chunkSize ≤ 2 ^ 62 →
      (Machine.Always step InPlace (create chunkSize base) es ↔
        Machine.Along step FitsChunk (create chunkSize base) es)) := by
  refine ⟨fun hguard ↦ ?_, fun hsize ↦ ?_⟩
  · exact Machine.always_of_invariant (K := Sound chunkSize) (fun _ h ↦ h.inPlace)
      (fun _ _ _ _ h hg hs ↦ h.step hg.1 hg.2.1 hg.2.2 hs) (sound_create hbase)
      (hproper.and hguard)
  · exact Machine.always_iff_along_of_along (K := Sound chunkSize) (fun _ h ↦ h.inPlace)
      (fun _ _ _ _ _ _ hs hplace ↦ fitsChunk_of_inPlace hs hplace)
      (fun _ _ _ _ h hproper hfits hs ↦ h.step hproper hfits (h.noWrap hsize hproper hfits) hs)
      (fun _ _ _ _ hs ↦ absurd hs ne_none_of_step) (sound_create hbase) hproper

/-- A block in the first chunk, one that needs a second chunk, and one after a `Reset`. -/
theorem inPlace_iff_three :
    Machine.Always step InPlace (create 4096 4096)
        [.allocate 100 16 none, .allocate 4096 16 (some 8208), .reset, .allocate 5 8 none] ↔
      Machine.Along step FitsChunk (create 4096 4096)
        [.allocate 100 16 none, .allocate 4096 16 (some 8208), .reset, .allocate 5 8 none] :=
  (inPlace_iff (by decide) (by decide)).2 (by decide)

/-- A block of 5000 bytes in chunks of 4096: it gets a chunk of its own, which is too small. -/
theorem not_inPlace :
    Machine.Along step (Proper Separate) (create 4096 4096) [.allocate 5000 16 (some 8208)] ∧
      ¬ Machine.Always step InPlace (create 4096 4096) [.allocate 5000 16 (some 8208)] := by
  decide

end User

end ArenaAllocator

end StingDB
