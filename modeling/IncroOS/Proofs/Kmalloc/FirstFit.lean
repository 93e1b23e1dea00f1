import IncroOS.Lib.BlockGaps
import IncroOS.Proofs.Kmalloc.Shape

/-! `kmalloc` takes the lowest gap that is long enough, and fails only when there is none. -/

namespace IncroOS

open Lib

/-- An address inside an allocated block of the list in memory, header or payload. -/
def Allocated (kernel : Kernel) (x : Nat) : Prop :=
  ∃ nodes, Linked (blockNext kernel.mem) kernel.heapStart nodes ∧
    ∃ a ∈ nodes, blockIsFree kernel.mem a = false ∧
      a ≤ x ∧ x < a + blockHeaderSize + blockSize kernel.mem a

/-- A maximal address range of the heap that no allocated block covers. -/
def HeapGap (kernel : Kernel) (lo hi : Nat) : Prop :=
  Gap (Allocated kernel) heapBase (heapBase + heapSize) lo hi

/-- What a first fit over the gaps does with a rounded request. -/
structure FirstFit (kernel kernel' : Kernel) (need p : Nat) : Prop where
  null : p = 0 ↔ ∀ lo hi, HeapGap kernel lo hi → hi - lo < need + blockHeaderSize
  unchanged : p = 0 → kernel' = kernel
  taken : p ≠ 0 → ∃ lo hi, HeapGap kernel lo hi ∧ need + blockHeaderSize ≤ hi - lo ∧
    (∀ lo' hi', HeapGap kernel lo' hi' → need + blockHeaderSize ≤ hi' - lo' → lo ≤ lo') ∧
    p = lo + blockHeaderSize ∧
    blockSize kernel'.mem lo =
      (if hi - lo - blockHeaderSize - need < 40 then hi - lo - blockHeaderSize else need) ∧
    (∀ x, Allocated kernel' x ↔ Allocated kernel x ∨
      lo ≤ x ∧ x < p + blockSize kernel'.mem lo) ∧
    ∃ nodes, HeapWellFormed kernel' nodes

section Gaps

variable {kernel : Kernel} {front back blocks : List Block} {b : Block} {fuel need lo hi : Nat}

/-- The allocated addresses are those that the represented blocks in use cover. -/
theorem HeapRep.allocated_iff (heap : HeapRep kernel blocks) (x : Nat) :
    Allocated kernel x ↔ Block.Covered 24 heapBase blocks x := by
  constructor
  · rintro ⟨nodes, linked, s, listed, used, low, high⟩
    -- The list in memory is the one of the represented blocks.
    rw [linked.unique heap.linked] at listed
    obtain ⟨front, b, back, rfl, rfl⟩ := mem_starts.mp listed
    have header := heap.headers.at
    rw [header.free] at used
    rw [header.size] at high
    exact (Block.covered_within 24 low high).mpr used
  · intro covered
    have bounds := covered.bounds
    -- Every byte of the heap lies in some block.
    obtain ⟨front, b, back, rfl, low, high⟩ := Block.exists_block 24 bounds.1 bounds.2
    have header := heap.headers.at
    have used := (Block.covered_within 24 low high).mp covered
    rw [blockSpan_eq] at low high
    refine ⟨_, heap.linked, _, mem_starts.mpr ⟨front, b, back, rfl, rfl⟩, ?_, low, ?_⟩
    · rw [header.free, used]
    · rw [header.size]
      exact high

/-- The gaps of the heap are its free blocks. -/
theorem HeapRep.gap_iff (heap : HeapRep kernel blocks) :
    HeapGap kernel lo hi ↔ ∃ front b back, blocks = front ++ b :: back ∧ b.free = true ∧
      lo = heapBase + span front ∧ hi = heapBase + span front + 24 + b.size := by
  -- The gaps of memory are those of the blocks it represents.
  have limit : heapBase + Block.span 24 blocks = heapBase + heapSize := heap.covers
  have same := @Block.gap_iff 24 heapBase lo hi blocks (by decide) heap.coalesced
  rw [limit] at same
  refine Iff.trans ⟨fun gap => ?_, fun gap => ?_⟩ same
  · exact gap.congr heap.allocated_iff
  · exact gap.congr fun x => (heap.allocated_iff x).symm

/-- Without a block that fits, every gap is too short. -/
theorem HeapRep.gaps_short (heap : HeapRep kernel blocks)
    (misses : ∀ b ∈ blocks, ¬ Block.Fits need b) (gap : HeapGap kernel lo hi) :
    hi - lo < need + blockHeaderSize := by
  -- A gap is a free block with its header, and no free block is long enough.
  obtain ⟨front, b, back, rfl, raised, rfl, rfl⟩ := heap.gap_iff.mp gap
  have tooSmall : ¬ need ≤ b.size := fun enough => misses b (by simp) ⟨raised, enough⟩
  rw [blockHeaderSize_eq]
  omega

/-- The first block that fits is the lowest gap that is long enough. -/
theorem HeapRep.gap_lowest (heap : HeapRep kernel (front ++ b :: back))
    (misses : ∀ c ∈ front, ¬ Block.Fits need c) (gap : HeapGap kernel lo hi)
    (long : need + blockHeaderSize ≤ hi - lo) : heapBase + span front ≤ lo := by
  obtain ⟨front', c, back', shape, raised, rfl, rfl⟩ := heap.gap_iff.mp gap
  have fits : Block.Fits need c := by
    rw [blockHeaderSize_eq] at long
    exact ⟨raised, by omega⟩
  -- A gap that starts earlier would be one of the blocks that do not fit.
  rcases List.append_eq_append_iff.mp shape with ⟨later, rfl, -⟩ | ⟨earlier, same, rest⟩
  · rw [span_append]
    omega
  · cases earlier with
    | nil => simp [same]
    | cons d tail =>
      obtain ⟨rfl, -⟩ := List.cons.inj rest
      exact absurd fits (misses c (by simp [same]))

/-- Taking the first block that fits is a first fit over the gaps. -/
theorem takeBlock_firstFit (heap : HeapRep kernel (front ++ b :: back))
    (misses : ∀ c ∈ front, ¬ Block.Fits need c) (fits : Block.Fits need b) (even : need % 8 = 0) :
    FirstFit kernel (takeBlock kernel (heapBase + span front) need).1 need
      (takeBlock kernel (heapBase + span front) need).2 := by
  obtain ⟨after, place, -⟩ := takeBlock_spec heap fits even
  have gap : HeapGap kernel (heapBase + span front) (heapBase + span front + 24 + b.size) :=
    heap.gap_iff.mpr ⟨front, b, back, rfl, fits.1, rfl, rfl⟩
  have room := fits.2
  -- The header in front of the pointer records the size that the block was given.
  have size : blockSize (takeBlock kernel (heapBase + span front) need).1.mem
      (heapBase + span front) = given need b := by
    obtain ⟨rest, shape⟩ := carve_given need b
    have headers := after.headers
    rw [shape] at headers
    exact (headers_append.mp (headers_append.mp headers).1).2.1.size
  rw [place]
  refine ⟨⟨fun null => by omega, fun short => ?_⟩, fun null => by omega, fun _ => ?_⟩
  · have := short _ _ gap
    rw [blockHeaderSize_eq] at this
    omega
  · refine ⟨_, _, gap, ?_, fun lo' hi' other long => heap.gap_lowest misses other long, rfl, ?_, ?_,
      _, after.wellFormed⟩
    · rw [blockHeaderSize_eq]
      omega
    · rw [size, given, blockHeaderSize_eq]
      split <;> split <;> omega
    · intro x
      rw [after.allocated_iff, heap.allocated_iff, Block.covered_carve, Block.covered_append, size,
        blockSpan_eq]
      simp only [Block.Covered, fits.1, Bool.true_eq_false, false_and, false_or, given,
        Nat.add_assoc]

end Gaps

/--
A call of `kmalloc` is a complete first fit over the gaps, for every size that rounds without wrapping.

It takes the lowest gap that is long enough, splits it when forty bytes or more would remain, and
returns null only when no gap is long enough.
-/
theorem kmalloc_first_fit {kernel : Kernel} {state : HeapState} {fuel size : Nat}
    (run : Relation.ReflTransGen HeapStep (HeapState.initial kernel) state) (positive : 0 < size)
    (bound : size ≤ 2 ^ 64 - 16) (enough : heapSize / blockHeaderSize < fuel) :
    ∃ after p, kmalloc fuel state.kernel size = some (after, p) ∧
      FirstFit state.kernel after ((size + 15) / 16 * 16) p := by
  obtain ⟨blocks, inv⟩ := heapInv_reachable run
  have rounded : alignSize size = (size + 15) / 16 * 16 := by
    rw [alignSize_eq, u64_of_lt (by omega)]
  rw [← rounded]
  -- Either no block fits, or the first one that does is taken.
  rcases kmalloc_spec inv.heap (Nat.lt_of_le_of_lt inv.heap.length_le enough)
      (Nat.pos_iff_ne_zero.mp positive) with
    ⟨misses, result⟩ | ⟨front, b, back, rfl, misses, fits, result⟩
  · refine ⟨_, _, result, ⟨fun _ lo hi gap => inv.heap.gaps_short misses gap, fun _ => rfl⟩,
      fun _ => rfl, fun nonnull => absurd rfl nonnull⟩
  · have even := alignSize_mod size
    exact ⟨_, _, result, takeBlock_firstFit inv.heap misses fits (by omega)⟩

/-- Three hundred bytes pass over a gap that is too short, and come from the one behind it. -/
theorem kmalloc_first_fit_fragmented :
    ∃ state after, HeapInv state fragmentedBlocks ∧
      kmalloc 21846 state.kernel 300 = some (after, 0x1802D0) ∧
      FirstFit state.kernel after 304 0x1802D0 := by
  have enough : heapSize / blockHeaderSize < 21846 := by decide
  obtain ⟨state, run, inv⟩ := fragmented_reachable (Kernel.zeroed (fun _ => 0) 0x1000)
  obtain ⟨after, p, call, fit⟩ :=
    @kmalloc_first_fit _ _ 21846 300 run (by decide) (by decide) enough
  -- The gap of 232 bytes takes requests up to 208 bytes.
  obtain ⟨kernel, place, -⟩ := @HeapInv.kmalloc_first _ [⟨112, false⟩, ⟨208, true⟩, ⟨304, false⟩] []
    ⟨523568, true⟩ 300 _ inv (by decide) (by decide) (by decide) enough
  obtain ⟨rfl, rfl⟩ := Prod.mk.inj (Option.some.inj (call.symm.trans place))
  exact ⟨state, after, inv, call, fit⟩

end IncroOS
