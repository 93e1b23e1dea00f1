import IncroOS.Proofs.Kmalloc.Headers

/-! `kmalloc` carves the first block that fits out of the list of blocks. -/

namespace IncroOS

open Lib

/-- The address just past the heap. -/
def heapLimit : Nat := heapBase + heapSize

@[simp] theorem heapBase_eq : heapBase = 0x180000 := rfl
@[simp] theorem heapSize_eq : heapSize = 0x80000 := rfl
@[simp] theorem heapLimit_eq : heapLimit = 0x200000 := rfl

/-- The heap in memory is a tiling by the listed blocks, with no two free neighbours. -/
structure HeapRep (kernel : Kernel) (blocks : List Block) : Prop where
  start : kernel.heapStart = heapBase
  headers : Headers kernel.mem heapLimit heapBase blocks
  covers : heapBase + span blocks = heapLimit
  coalesced : Block.Coalesced blocks
  aligned : ∀ b ∈ blocks, b.size % 8 = 0

/-- A rounded size is a multiple of sixteen. -/
theorem alignSize_mod (size : Nat) : alignSize size % 16 = 0 := by
  -- The mask clears the low four bits.
  have low : (2 ^ 64 - 16) % 2 ^ 4 = 0 := by decide
  have cut : alignSize size % 2 ^ 4 = 0 := by
    rw [alignSize, Nat.and_mod_two_pow, low, Nat.and_zero]
  exact cut

/-- Rounding keeps the four high bits' worth of the wrapped sum. -/
theorem alignSize_eq (size : Nat) : alignSize size = u64 (size + 15) / 16 * 16 := by
  -- And-ing with the complement of fifteen drops the remainder by sixteen.
  have bound : u64 (size + 15) < 2 ^ 64 := Nat.mod_lt _ (by decide)
  have shifted : alignSize size / 2 ^ 4 = u64 (size + 15) / 2 ^ 4 := by
    have mask : (2 ^ 64 - 16) / 2 ^ 4 = 2 ^ 60 - 1 := by decide
    rw [alignSize, Nat.and_div_two_pow, mask, Nat.and_two_pow_sub_one_eq_mod]
    omega
  have exact_ := alignSize_mod size
  omega

/-- Up to the last sixteen sizes, rounding up does not wrap. -/
theorem alignSize_ge {size : Nat} (bound : size ≤ 2 ^ 64 - 16) :
    size ≤ alignSize size ∧ alignSize size < size + 16 := by
  rw [alignSize_eq, u64_of_lt (by omega)]
  omega

/-- The last fifteen sizes round to zero. -/
theorem alignSize_wraps {size : Nat} (large : 2 ^ 64 - 16 < size) (bound : size < 2 ^ 64) :
    alignSize size = 0 := by
  rw [alignSize_eq, u64]
  omega

section Split

variable {mem : Mem} {current need next : Nat} {b : Block}

/-- Splitting leaves a shortened block and a new free block that takes over its successor. -/
theorem splitBlock_spec (header : HeaderAt mem current b next) (room : need + 40 ≤ b.size)
    (bound : current + 24 + b.size < 2 ^ 64) :
    HeaderAt (splitBlock mem current need) current { b with size := need } (current + 24 + need) ∧
    HeaderAt (splitBlock mem current need) (current + 24 + need) ⟨b.size - need - 24, true⟩ next ∧
    Mem.ChangesOnly mem (splitBlock mem current need)
      (Set.Ico current (current + 24 + b.size)) := by
  -- The new header lies wholly inside the payload of the block being split.
  have place : u64 (u64 (current + blockHeaderSize) + need) = current + 24 + need := by
    rw [blockHeaderSize_eq, u64_of_lt (show current + 24 < 2 ^ 64 by omega), u64_of_lt (by omega)]
  have rest : u64Sub (u64Sub (blockSize mem current) need) blockHeaderSize =
      b.size - need - 24 := by
    rw [header.size, blockHeaderSize_eq, u64Sub_of_le (show need ≤ b.size by omega) (by omega),
      u64Sub_of_le (by omega) (by omega)]
  have apart : current + 24 ≤ current + 24 + need ∨ current + 24 + need + 24 ≤ current := by omega
  have apart' : current + 24 + need + 24 ≤ current ∨ current + 24 ≤ current + 24 + need := by omega
  have nextBound : next < 2 ^ 64 := by
    rw [← header.next]
    exact Mem.read_lt mem (current + 16) 8
  unfold splitBlock
  rw [place, rest]
  -- First the three fields of the new header, which the old header does not notice.
  have sized := header.frame (setSize_changes mem (current + 24 + need) (b.size - need - 24)) apart
  have flagged := sized.frame (setIsFree_changes _ (current + 24 + need) true) apart
  have follows := flagged.next
  have written := headerAt_write mem (current + 24 + need) true
    (show b.size - need - 24 < 2 ^ 64 by omega) nextBound
  have linked := flagged.frame (setNext_changes _ (current + 24 + need) next) apart
  -- Then the size and the successor of the old one, which the new header does not notice.
  have shortened := linked.setSize (show need < 2 ^ 64 by omega)
  dsimp only
  rw [follows]
  refine ⟨shortened.setNext (by omega), ?_, ?_⟩
  · exact (written.frame (setSize_changes _ current need) apart').frame
      (setNext_changes _ current _) apart'
  · have inner : headerSpan (current + 24 + need) ⊆ Set.Ico current (current + 24 + b.size) := by
      intro x member
      simp only [headerSpan, Set.mem_Ico] at member ⊢
      omega
    have outer : headerSpan current ⊆ Set.Ico current (current + 24 + b.size) := by
      intro x member
      simp only [headerSpan, Set.mem_Ico] at member ⊢
      omega
    exact (((((setSize_changes _ _ _).mono inner).trans ((setIsFree_changes _ _ _).mono inner)).trans
      ((setNext_changes _ _ _).mono inner)).trans ((setSize_changes _ _ _).mono outer)).trans
      ((setNext_changes _ _ _).mono outer)

end Split

/-- A block that is taken is carved, and only its own bytes change. -/
theorem takeBlock_headers {kernel : Kernel} {current need limit : Nat} {b : Block}
    (header : HeaderAt kernel.mem current b (link limit (current + 24 + b.size)))
    (fits : need ≤ b.size) (bound : current + 24 + b.size ≤ limit) (small : limit < 2 ^ 32) :
    Headers (takeBlock kernel current need).1.mem limit current (Block.carve 24 16 need b) ∧
    Mem.ChangesOnly kernel.mem (takeBlock kernel current need).1.mem
      (Set.Ico current (current + 24 + b.size)) := by
  have outer : headerSpan current ⊆ Set.Ico current (current + 24 + b.size) := by
    intro x member
    simp only [headerSpan, Set.mem_Ico] at member ⊢
    omega
  -- At these sizes the split test does not wrap.
  have need40 : u64 (u64 (need + blockHeaderSize) + 16) = need + 40 := by
    rw [blockHeaderSize_eq, u64_of_lt (show need + 24 < 2 ^ 64 by omega), u64_of_lt (by omega)]
  simp only [takeBlock, header.size, need40, Kernel.withTotalAllocated_mem, Kernel.withMem_mem]
  unfold Block.carve
  by_cases large : need + 40 ≤ b.size
  · -- The tail becomes a block of its own, which keeps the old successor.
    rw [if_pos large, if_pos (show need + 24 + 16 ≤ b.size by omega)]
    obtain ⟨kept, tail, changes⟩ := splitBlock_spec header large (by omega)
    have inner := setIsFree_changes (splitBlock kernel.mem current need) current false
    have place : current + 24 + need + 24 + (b.size - need - 24) = current + 24 + b.size := by omega
    have running : current + 24 + need ≠ limit := by omega
    refine ⟨⟨?_, ?_, trivial⟩, changes.trans (inner.mono outer)⟩
    · simpa [link, running] using kept.setIsFree false
    · rw [place]
      exact tail.frame inner (by omega)
  · -- The whole block is taken.
    rw [if_neg large, if_neg (show ¬ need + 24 + 16 ≤ b.size by omega)]
    have inner := setIsFree_changes kernel.mem current false
    exact ⟨⟨header.setIsFree false, trivial⟩, inner.mono outer⟩

/-- Carved sizes keep the alignment of the request and of the block. -/
theorem carve_aligned {need : Nat} {b c : Block} (request : need % 8 = 0) (aligned : b.size % 8 = 0)
    (member : c ∈ Block.carve 24 16 need b) : c.size % 8 = 0 := by
  unfold Block.carve at member
  -- A carved block is split into the request and a remainder, or taken whole.
  split at member
  · simp only [List.mem_cons, List.not_mem_nil, or_false] at member
    rcases member with rfl | rfl
    · exact request
    · show (b.size - need - 24) % 8 = 0
      omega
  · simp only [List.mem_cons, List.not_mem_nil, or_false] at member
    rw [member]
    exact aligned

section HeapRep

variable {kernel : Kernel} {front back : List Block} {b : Block}

/-- A block's payload ends within the heap. -/
theorem HeapRep.block_bounds (heap : HeapRep kernel (front ++ b :: back)) :
    heapBase + span front + 24 + b.size + span back = heapLimit := by
  have covers := heap.covers
  rw [span_append, span_cons] at covers
  omega

/-- Taking a free block carves it out of the list. -/
theorem takeBlock_spec {need : Nat} (heap : HeapRep kernel (front ++ b :: back))
    (fits : Block.Fits need b) (request : need % 8 = 0) :
    HeapRep (takeBlock kernel (heapBase + span front) need).1
      (front ++ Block.carve 24 16 need b ++ back) ∧
    (takeBlock kernel (heapBase + span front) need).2 = heapBase + span front + 24 ∧
    Mem.ChangesOnly kernel.mem (takeBlock kernel (heapBase + span front) need).1.mem
      (Set.Ico (heapBase + span front) (heapBase + span front + 24 + b.size)) := by
  have bounds := heap.block_bounds
  obtain ⟨raised, room⟩ := fits
  simp only [heapLimit_eq] at bounds
  obtain ⟨carved, changes⟩ := takeBlock_headers heap.headers.at room
    (show heapBase + span front + 24 + b.size ≤ heapLimit by rw [heapLimit_eq]; omega) (by simp)
  -- The carved blocks take exactly the bytes of the block.
  have same : span (Block.carve 24 16 need b) = span [b] := by
    rw [span, blockHeaderSize_eq, Block.span_carve]
    simp
  have shape : front ++ b :: back = front ++ [b] ++ back := by simp
  refine ⟨⟨?_, ?_, ?_, ?_, ?_⟩, ?_, changes⟩
  · rw [← heap.start]
    rfl
  · refine Headers.replace [b] (shape ▸ heap.headers) ?_ carved same
    simpa [Nat.add_assoc] using changes
  · rw [← heap.covers, shape]
    simp only [span_append, same]
  · exact Block.Coalesced.carve 24 16 need heap.coalesced raised
  · intro c member
    simp only [List.append_assoc, List.mem_append] at member
    rcases member with before | carved | behind
    · exact heap.aligned c (by simp [before])
    · exact carve_aligned request (heap.aligned b (by simp)) carved
    · exact heap.aligned c (by simp [behind])
  · rw [takeBlock, blockHeaderSize_eq]
    exact u64_of_lt (by omega)

/-- The size that a carved block is given: the request, or the whole block when little would remain. -/
def given (need : Nat) (b : Block) : Nat := if need + 40 ≤ b.size then need else b.size

/-- Carving starts with the block that is put to use. -/
theorem carve_given (need : Nat) (b : Block) :
    ∃ rest, Block.carve 24 16 need b = ⟨given need b, false⟩ :: rest := by
  -- The block is split, or it is put to use whole.
  unfold Block.carve given
  split
  · exact ⟨_, rfl⟩
  · exact ⟨[], rfl⟩

/-- The counter of `kmalloc` grows by the size the block was given. -/
theorem takeBlock_total {need : Nat} (heap : HeapRep kernel (front ++ b :: back))
    (fits : Block.Fits need b) (request : need % 8 = 0) :
    (takeBlock kernel (heapBase + span front) need).1.totalAllocated =
      u64 (kernel.totalAllocated + given need b) := by
  -- The counter reads the size in the header that the call leaves behind.
  obtain ⟨rest, shape⟩ := carve_given need b
  have taken := (takeBlock_spec heap fits request).1
  rw [shape] at taken
  have header := (headers_append.mp (headers_append.mp taken.headers).1).2.1
  rw [← show _ = given need b from header.size]
  rfl

/-- Headers that tile the heap are met in order by the walk from its first block. -/
theorem heap_linked {mem : Mem} {blocks : List Block} (headers : Headers mem heapLimit heapBase blocks)
    (covers : heapBase + span blocks = heapLimit) :
    Linked (blockNext mem) heapBase (starts heapBase blocks) :=
  headers.linked (by decide) covers

theorem HeapRep.linked {blocks : List Block} (heap : HeapRep kernel blocks) :
    Linked (blockNext kernel.mem) kernel.heapStart (starts heapBase blocks) :=
  heap.start ▸ heap_linked heap.headers heap.covers

/-- The test of `kmalloc` at a block says whether the block fits the request. -/
theorem HeapRep.fits_at (heap : HeapRep kernel (front ++ b :: back)) (need : Nat) :
    (blockIsFree kernel.mem (heapBase + span front) &&
      decide (blockSize kernel.mem (heapBase + span front) ≥ need)) = decide (Block.Fits need b) := by
  have header := heap.headers.at
  rw [header.free, header.size, Bool.eq_iff_iff, decide_eq_true_iff]
  simp [Block.Fits]

/-- A request of size zero gets the null pointer. -/
theorem kmalloc_zero (kernel : Kernel) (fuel : Nat) : kmalloc fuel kernel 0 = some (kernel, 0) := rfl

/-- A request that no block fits gets the null pointer, and one that some block fits takes the first. -/
theorem kmalloc_spec {blocks : List Block} {fuel size : Nat} (heap : HeapRep kernel blocks)
    (enough : blocks.length < fuel) (positive : size ≠ 0) :
    ((∀ b ∈ blocks, ¬ Block.Fits (alignSize size) b) ∧ kmalloc fuel kernel size = some (kernel, 0)) ∨
    ∃ front b back, blocks = front ++ b :: back ∧ (∀ c ∈ front, ¬ Block.Fits (alignSize size) c) ∧
      Block.Fits (alignSize size) b ∧
      kmalloc fuel kernel size =
        some (takeBlock kernel (heapBase + span front) (alignSize size)) := by
  have ends : ∀ stop : Nat → Bool, walk (blockNext kernel.mem) stop fuel kernel.heapStart =
      some (((starts heapBase blocks).find? stop).getD 0) :=
    fun stop => walk_of_linked heap.linked (by simpa using enough)
  simp only [kmalloc, if_neg positive, ends]
  cases found : blocks.find? fun b => decide (Block.Fits (alignSize size) b) with
  | none =>
    have misses : ∀ b ∈ blocks, ¬ Block.Fits (alignSize size) b := by
      simpa using List.find?_eq_none.mp found
    refine .inl ⟨misses, ?_⟩
    -- No address passes the test, so the walk runs off the end.
    rw [List.find?_eq_none.mpr]
    · simp
    · intro x member
      obtain ⟨front, b, back, rfl, rfl⟩ := mem_starts.mp member
      simp only [heap.fits_at, decide_eq_true_eq]
      exact misses b (by simp)
  | some b =>
    obtain ⟨fits, front, back, rfl, earlier⟩ := List.find?_eq_some_iff_append.mp found
    have misses : ∀ c ∈ front, ¬ Block.Fits (alignSize size) c := by simpa using earlier
    refine .inr ⟨front, b, back, rfl, misses, by simpa using fits, ?_⟩
    -- The walk stops at the block the list search stops at.
    rw [find_starts]
    · simp
    · intro x member
      obtain ⟨before, c, rest, rfl, rfl⟩ := mem_starts.mp member
      have here : HeapRep kernel (before ++ c :: (rest ++ b :: back)) := by simpa using heap
      rw [here.fits_at]
      exact decide_eq_false (misses c (by simp))
    · rw [heap.fits_at]
      exact fits

end HeapRep

end IncroOS
