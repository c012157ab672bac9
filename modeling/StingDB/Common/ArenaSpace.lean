import StingDB.Common.ArenaAllocator

/-!
# How much memory the arena takes

A block that does not fit leaves the rest of its chunk unused for good, since `Allocate` only looks
at the last one.  Less than half of the memory is lost in this way: two chunks that follow on one
another hold more than one of them has room for, counting for each block what its alignment can cost
at most.  `space_le` is this over every run, with any number of `Reset`s.

All arithmetic is that of `size_t`.  Where a sum wraps a block is taken to fit, so that the bound
holds for sizes of any kind, also for those that no chunk has room for.
-/

set_option autoImplicit false

namespace StingDB

open Machine

namespace ArenaAllocator

/-- What a block can take up at most, with the padding before it. -/
def Allocation.weight (x : Allocation) : ℕ := x.size + (x.align - 1)

namespace User

/-- What the blocks since the last `Reset` can take up at most. -/
def weight (s : User) : ℕ := (s.allocations.map Allocation.weight).sum

/-- All chunks but the last, and what is used of the last, come to no more than twice the weight of
the blocks. -/
def Packed (s : User) : Prop :=
  (s.arena.chunks.length - 1) * s.arena.chunkSize + s.arena.currentOffset ≤ 2 * s.weight

variable {s s' : User} {e : Call} {o : Option ℕ} {Promised : ArenaAllocator → ℕ → Prop}

/-- A block that does not fit makes up for what it leaves unused. -/
theorem lt_of_not_fits {a : ArenaAllocator} {size align : ℕ} (halign : 0 < align)
    (h : ¬ a.Fits size align) : a.chunkSize < a.currentOffset + (size + (align - 1)) := by
  rw [Fits, not_le] at h
  have hle : u64 (a.currentOffset + size + a.padding align) ≤
      a.currentOffset + size + a.padding align := Nat.mod_le _ _
  have hpad : a.padding align < align := Alignment.padding_lt halign
  omega

theorem Packed.step (h : s.Packed) (hproper : s.Proper Promised e)
    (hs : s.step e = some (o, s')) : s'.Packed := by
  cases e with
  | reset =>
    cases hs
    simp [Packed, reset]
  | allocate size align newChunk =>
    obtain ⟨-, -, rfl⟩ | ⟨p, a, ha, rfl⟩ := step_allocate_cases hs
    · exact h
    · have halign : 0 < align := by
        obtain ⟨-, ⟨k, -, rfl⟩, -⟩ := hproper
        exact Nat.two_pow_pos k
      rw [Packed] at h
      obtain ⟨-, -, rfl⟩ | ⟨base, hfits, -, -, rfl⟩ := allocate_cases ha
      · -- the block takes up its size and its padding
        have hpad : s.arena.padding align < align := Alignment.padding_lt halign
        have hle : u64 (s.arena.currentOffset + (size + s.arena.padding align)) ≤
            s.arena.currentOffset + (size + s.arena.padding align) := Nat.mod_le _ _
        simp only [Packed, weight, Allocation.weight, List.map_cons, List.sum_cons] at h ⊢
        omega
      · -- it is counted once for the chunk it leaves, and once for the new one
        have hlt := lt_of_not_fits halign hfits
        have hle : u64 size ≤ size := Nat.mod_le _ _
        have hpos : 0 < s.arena.chunks.length := List.length_pos_of_ne_nil s.arena.chunks_ne_nil
        have hchunks : (s.arena.chunks.length + 1 - 1) * s.arena.chunkSize =
            (s.arena.chunks.length - 1) * s.arena.chunkSize + s.arena.chunkSize := by
          rw [← Nat.succ_mul, Nat.succ_eq_add_one, Nat.sub_add_cancel hpos, Nat.add_sub_cancel]
        simp only [Packed, weight, Allocation.weight, List.map_cons, List.sum_cons, allocateChunk,
          List.length_append, List.length_singleton] at h ⊢
        rw [hchunks]
        omega

/-- **The arena takes less than twice the memory that is asked for**, and one chunk: for every size
of the chunks and every sequence of calls, the chunks that it holds at the end come to no more than
one chunk and twice the sizes of the blocks since the last `Reset`, where each block counts with the
padding that its alignment can cost. -/
theorem space_le {chunkSize base : ℕ} {es : List Call} {os : List (Option ℕ)}
    (hproper : Along step (Proper Promised) (create chunkSize base) es)
    (hr : run step (create chunkSize base) es = some (os, s)) :
    s.arena.chunks.length * s.arena.chunkSize ≤ s.arena.chunkSize + 2 * s.weight := by
  have hstart : (create chunkSize base).Packed := by simp [Packed, create, ArenaAllocator.create]
  have hpacked : s.Packed :=
    run_invariant (fun _ _ _ _ h hP hs ↦ h.step hP hs) hstart hproper hr
  have hpos : 0 < s.arena.chunks.length := List.length_pos_of_ne_nil s.arena.chunks_ne_nil
  calc s.arena.chunks.length * s.arena.chunkSize
    _ = (s.arena.chunks.length - 1) * s.arena.chunkSize + s.arena.chunkSize := by
      rw [← Nat.succ_mul, Nat.succ_eq_add_one, Nat.sub_add_cancel hpos]
    _ ≤ 2 * s.weight + s.arena.chunkSize :=
      Nat.add_le_add_right (le_of_add_le_left hpacked) _
    _ = s.arena.chunkSize + 2 * s.weight := Nat.add_comm ..

/-- Three blocks of 60 bytes, each in a chunk of its own. -/
theorem space_le_three :
    ∃ os s, run step (create 100 0) [.allocate 60 1 none, .allocate 60 1 (some 200),
        .allocate 60 1 (some 400)] = some (os, s) ∧ s.arena.chunks.length = 3 ∧
      s.arena.chunks.length * s.arena.chunkSize ≤ s.arena.chunkSize + 2 * s.weight := by
  have hproper : Along step (Proper fun _ _ ↦ True) (create 100 0) [.allocate 60 1 none,
      .allocate 60 1 (some 200), .allocate 60 1 (some 400)] := by
    refine along_of_forall fun e he s ↦ ?_
    obtain rfl | rfl | rfl : e = .allocate 60 1 none ∨ e = .allocate 60 1 (some 200) ∨
        e = .allocate 60 1 (some 400) := by simpa using he
    all_goals exact ⟨by decide, ⟨0, by decide, rfl⟩, fun _ _ ↦ trivial⟩
  have hrun : ∃ os s, run step (create 100 0) [.allocate 60 1 none, .allocate 60 1 (some 200),
      .allocate 60 1 (some 400)] = some (os, s) ∧ s.arena.chunks.length = 3 := ⟨_, _, rfl, rfl⟩
  obtain ⟨os, s, hr, hlen⟩ := hrun
  exact ⟨os, s, hr, hlen, space_le hproper hr⟩

end User

end ArenaAllocator

end StingDB
