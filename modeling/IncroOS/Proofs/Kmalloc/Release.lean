import IncroOS.Proofs.Kmalloc.Take

/-! `kfree` releases a block and joins it with its free neighbours. -/

namespace IncroOS

open Lib

section Merge

variable {mem : Mem} {limit a : Nat} {b c : Block} {rest : List Block}

/-- The header of a block that has taken in its successor. -/
def absorb (mem : Mem) (limit a : Nat) (b c : Block) : Mem :=
  setNext (setSize mem a (b.size + 24 + c.size)) a (link limit (a + 24 + b.size + 24 + c.size))

/-- Taking in the block behind leaves one block in place of two. -/
theorem absorb_headers (headers : Headers mem limit a (b :: c :: rest))
    (covers : a + span (b :: c :: rest) = limit) (small : limit < 2 ^ 32) :
    Headers (absorb mem limit a b c) limit a (⟨b.size + 24 + c.size, b.free⟩ :: rest) ∧
    Mem.ChangesOnly mem (absorb mem limit a b c) (headerSpan a) := by
  obtain ⟨first, second, others⟩ := headers
  simp only [span_cons] at covers
  have bound : link limit (a + 24 + b.size + 24 + c.size) < 2 ^ 64 := by
    unfold link
    split <;> omega
  -- The joined block ends where the second one ended.
  have place : a + 24 + (b.size + 24 + c.size) = a + 24 + b.size + 24 + c.size := by omega
  have changes : Mem.ChangesOnly mem (absorb mem limit a b c) (headerSpan a) :=
    (setSize_changes mem a _).trans (setNext_changes _ a _)
  refine ⟨⟨?_, ?_⟩, changes⟩
  · rw [place]
    exact (first.setSize (by omega)).setNext bound
  · -- What follows lies behind the only header that changed.
    rw [place]
    refine others.frame changes fun x member => ?_
    simp only [headerSpan, Set.mem_Ico] at member
    omega

/-- The values that `kfree` writes into a header that takes in its successor. -/
theorem absorb_eq (headers : Headers mem limit a (b :: c :: rest))
    (covers : a + span (b :: c :: rest) = limit) (small : limit < 2 ^ 32) :
    u64 (blockSize mem a + u64 (blockHeaderSize + blockSize mem (a + 24 + b.size))) =
      b.size + 24 + c.size ∧
    blockNext (setSize mem a (b.size + 24 + c.size)) (a + 24 + b.size) =
      link limit (a + 24 + b.size + 24 + c.size) := by
  obtain ⟨first, second, -⟩ := headers
  simp only [span_cons] at covers
  constructor
  · -- Sizes within the heap do not wrap.
    rw [first.size, second.size, blockHeaderSize_eq, u64_of_lt (show 24 + c.size < 2 ^ 64 by omega),
      u64_of_lt (by omega)]
    omega
  · -- The second header still has its link when the first one's size has been written.
    exact (second.frame (setSize_changes mem a _) (by omega)).next

/-- The first merge of `kfree` joins a released block with a free successor. -/
theorem mergeNext_spec {back : List Block} (headers : Headers mem limit a (b :: back))
    (raised : b.free = true) (covers : a + span (b :: back) = limit) (small : limit < 2 ^ 32) :
    Headers (mergeNext mem a) limit a (Block.push 24 b back) ∧
    Mem.ChangesOnly mem (mergeNext mem a) (headerSpan a) := by
  have follows := headers.1.next
  cases back with
  | nil =>
    -- The last block has no successor.
    have ended : a + 24 + b.size = limit := by
      simp only [span_cons, span_nil] at covers
      omega
    have same : mergeNext mem a = mem := by
      simp [mergeNext, follows, link, ended]
    rw [same]
    exact ⟨headers, Mem.ChangesOnly.refl mem _⟩
  | cons c rest =>
    have running : a + 24 + b.size ≠ limit := by
      simp only [span_cons] at covers
      omega
    have pointed : blockNext mem a = a + 24 + b.size := by
      rw [follows, link, if_neg running]
    cases joined : c.free with
    | false =>
      -- A successor in use stays where it is.
      have same : mergeNext mem a = mem := by
        simp [mergeNext, pointed, headers.2.1.free, joined]
      rw [same, Block.push, joined, Bool.and_false, if_neg (by simp)]
      exact ⟨headers, Mem.ChangesOnly.refl mem _⟩
    | true =>
      obtain ⟨absorbed, changes⟩ := absorb_headers headers covers small
      obtain ⟨total, beyond⟩ := absorb_eq headers covers small
      have same : mergeNext mem a = absorb mem limit a b c := by
        simp [mergeNext, absorb, pointed, headers.2.1.free, joined, total, beyond,
          -blockHeaderSize_eq]
      rw [same, Block.push, raised, joined, Bool.and_self, if_pos rfl]
      rw [raised] at absorbed
      exact ⟨absorbed, changes⟩

/-- The second merge of `kfree` joins a free predecessor with a released block. -/
theorem mergeInto_spec (headers : Headers mem limit a (b :: c :: rest)) (raised : c.free = true)
    (nonnull : a ≠ 0) (covers : a + span (b :: c :: rest) = limit) (small : limit < 2 ^ 32) :
    Headers (mergeInto mem a (a + 24 + b.size)) limit a (Block.push 24 b (c :: rest)) ∧
    Mem.ChangesOnly mem (mergeInto mem a (a + 24 + b.size)) (headerSpan a) := by
  cases joined : b.free with
  | false =>
    -- A predecessor in use stays as it is.
    have same : mergeInto mem a (a + 24 + b.size) = mem := by
      simp [mergeInto, headers.1.free, joined]
    rw [same, Block.push, joined, Bool.false_and, if_neg (by simp)]
    exact ⟨headers, Mem.ChangesOnly.refl mem _⟩
  | true =>
    obtain ⟨absorbed, changes⟩ := absorb_headers headers covers small
    obtain ⟨total, beyond⟩ := absorb_eq headers covers small
    have same : mergeInto mem a (a + 24 + b.size) = absorb mem limit a b c := by
      simp [mergeInto, absorb, headers.1.free, joined, nonnull, total, beyond, -blockHeaderSize_eq]
    rw [same, Block.push, joined, raised, Bool.and_self, if_pos rfl]
    rw [joined] at absorbed
    exact ⟨absorbed, changes⟩

end Merge

section Search

variable {kernel : Kernel} {mem : Mem} {limit : Nat} {front blocks : List Block} {b c d : Block}

/-- No block precedes the first one, so the search for its predecessor runs off the list. -/
theorem predecessor_first {a : Nat} (headers : Headers mem limit a blocks) (positive : 0 < a) :
    (starts a blocks).find? (fun current => blockNext mem current == a) = none := by
  -- A next pointer is null or lies behind the first block.
  rw [List.find?_eq_none]
  intro x member
  obtain ⟨before, e, rest, rfl, rfl⟩ := mem_starts.mp member
  rw [headers.at.next, link]
  split <;> simp <;> omega

/-- The search for a later block's predecessor finds the block before it. -/
theorem predecessor_after {a : Nat} (headers : Headers mem limit a (front ++ d :: b :: blocks))
    (positive : 0 < a) (covers : a + span (front ++ d :: b :: blocks) = limit) :
    (starts a (front ++ d :: b :: blocks)).find?
      (fun current => blockNext mem current == a + span (front ++ [d])) = some (a + span front) := by
  simp only [span_append, span_cons, span_nil] at covers ⊢
  refine find_starts ?_ ?_
  · -- Each earlier block points no further than the predecessor.
    intro x member
    obtain ⟨before, e, rest, rfl, rfl⟩ := mem_starts.mp member
    have here : Headers mem limit a (before ++ e :: (rest ++ d :: b :: blocks)) := by
      simpa using headers
    rw [here.at.next, link]
    simp only [span_append, span_cons] at covers ⊢
    split <;> simp <;> omega
  · -- The predecessor's own link is the address that is searched for.
    rw [headers.at.next, link, if_neg (by omega)]
    simp only [beq_iff_eq]
    omega

end Search

section Kfree

variable {kernel : Kernel} {front back blocks : List Block} {b : Block}

/-- Releasing a block keeps the bytes it takes. -/
theorem span_released : span (front ++ b.released :: back) = span (front ++ b :: back) := by
  simp [Block.released]

/-- The blocks that remain when one is released still tile the heap in aligned sizes. -/
theorem HeapRep.release {kernel' : Kernel} (heap : HeapRep kernel (front ++ b :: back))
    (start : kernel'.heapStart = kernel.heapStart)
    (headers : Headers kernel'.mem heapLimit heapBase
      (Block.coalesce 24 (front ++ b.released :: back))) :
    HeapRep kernel' (Block.coalesce 24 (front ++ b.released :: back)) := by
  -- Joining moves no boundary of the heap.
  have same : span (Block.coalesce 24 (front ++ b.released :: back)) = span (front ++ b :: back) := by
    rw [span, blockHeaderSize_eq, Block.span_coalesce]
    exact span_released
  refine ⟨start.trans heap.start, headers, ?_, Block.coalesced_coalesce 24 _, ?_⟩
  · rw [same, heap.covers]
  · -- Sizes that are joined are multiples of eight, and so is a header.
    have joins : ∀ m n : Nat, m % 8 = 0 → n % 8 = 0 → (m + 24 + n) % 8 = 0 := by omega
    refine Block.size_coalesce 24 joins ?_
    intro c member
    rcases List.mem_append.mp member with before | later
    · exact heap.aligned c (by simp [before])
    · rcases List.mem_cons.mp later with rfl | behind
      · exact heap.aligned b (by simp)
      · exact heap.aligned c (by simp [behind])

/-- Raising a block's flag releases it, before any merge. -/
theorem setIsFree_headers (heap : HeapRep kernel (front ++ b :: back)) :
    Headers (setIsFree kernel.mem (heapBase + span front) true) heapLimit heapBase
      (front ++ b.released :: back) := by
  have shape : front ++ b :: back = front ++ [b] ++ back := by simp
  have changes : Mem.ChangesOnly kernel.mem (setIsFree kernel.mem (heapBase + span front) true)
      (Set.Ico (heapBase + span front) (heapBase + span front + span [b])) := by
    refine (setIsFree_changes kernel.mem (heapBase + span front) true).mono fun x member => ?_
    simp only [headerSpan, Set.mem_Ico, span_cons] at member ⊢
    omega
  -- One block is replaced by itself with its flag raised.
  have raised : Headers (setIsFree kernel.mem (heapBase + span front) true) heapLimit heapBase
      (front ++ [b.released] ++ back) :=
    Headers.replace [b] (shape ▸ heap.headers) changes
      ⟨heap.headers.at.setIsFree true, trivial⟩ (by simp [Block.released])
  simpa using raised

/-- Raising a block's flag and merging its successor leaves one free block in their place. -/
theorem mergeNext_headers (heap : HeapRep kernel (front ++ b :: back)) :
    Headers (mergeNext (setIsFree kernel.mem (heapBase + span front) true) (heapBase + span front))
      heapLimit heapBase (front ++ Block.push 24 b.released back) ∧
    Mem.ChangesOnly kernel.mem
      (mergeNext (setIsFree kernel.mem (heapBase + span front) true) (heapBase + span front))
      (headerSpan (heapBase + span front)) := by
  have raised := setIsFree_headers heap
  have covers := heap.covers
  rw [← span_released, span_append] at covers
  obtain ⟨merged, changes⟩ := mergeNext_spec (headers_append.mp raised).2 rfl
    (by omega) (by simp)
  refine ⟨?_, (setIsFree_changes kernel.mem _ true).trans changes⟩
  -- The block and all behind it are replaced by what the merge leaves there.
  have whole : Headers (mergeNext (setIsFree kernel.mem (heapBase + span front) true)
      (heapBase + span front)) heapLimit heapBase (front ++ Block.push 24 b.released back ++ []) := by
    refine Headers.replace (b.released :: back) (by simpa using raised) (changes.mono ?_) merged ?_
    · intro x member
      simp only [headerSpan, Set.mem_Ico, span_cons] at member ⊢
      omega
    · rw [span, blockHeaderSize_eq, Block.span_push, span, blockHeaderSize_eq, Block.span_cons]
  simpa using whole

/-- The bytes of the blocks are the whole heap at every stage. -/
theorem span_pushed (heap : HeapRep kernel (front ++ b :: back)) :
    heapBase + span (front ++ Block.push 24 b.released back) = heapLimit := by
  rw [← heap.covers, span_append, span_append, span, span, blockHeaderSize_eq, Block.span_push,
    span, blockHeaderSize_eq, Block.span_cons]
  rfl

/-- After the first merge `kfree` walks the list for a predecessor, and the walk ends. -/
theorem kfree_walk {fuel : Nat} (heap : HeapRep kernel (front ++ b :: back)) (used : b.free = false)
    (enough : (front ++ b :: back).length < fuel) :
    let block := heapBase + span front
    let mem := mergeNext (setIsFree kernel.mem block true) block
    let current := ((starts heapBase (front ++ Block.push 24 b.released back)).find?
      fun current => blockNext mem current == block).getD 0
    kfree fuel kernel (block + 24) =
      some ((kernel.withMem (mergeInto mem current block)).withTotalAllocated
        (u64Sub kernel.totalAllocated (blockSize (setIsFree kernel.mem block true) block))) := by
  -- The list after the first merge is no longer than before, so the fuel is enough for the walk.
  intro block mem current
  have bounds := heap.block_bounds
  obtain ⟨merged, -⟩ := mergeNext_headers heap
  have here : u64Sub (block + 24) blockHeaderSize = block := by
    simp only [heapLimit_eq] at bounds
    rw [blockHeaderSize_eq, u64Sub_of_le (by omega) (by omega), Nat.add_sub_cancel]
  have busy : blockIsFree kernel.mem block = false := heap.headers.at.free.trans used
  have linked : Linked (blockNext mem) kernel.heapStart
      (starts heapBase (front ++ Block.push 24 b.released back)) := by
    rw [heap.start]
    exact heap_linked merged (span_pushed heap)
  have room := Block.length_push_le 24 b.released back
  have ends : walk (blockNext mem) (fun current => blockNext mem current == block) fuel
      kernel.heapStart = some current := by
    refine walk_of_linked linked ?_
    simp only [starts_length, List.length_append, List.length_cons] at enough ⊢
    omega
  rw [kfree, if_neg (by omega), here, if_neg (by simp [busy])]
  simp only [mem] at ends
  simp only [ends, Option.map_some, mem]

/-- The second merge completes the joining of the released block with its neighbours. -/
theorem mergeInto_headers {mem : Mem} (coalesced : Block.Coalesced (front ++ b :: back))
    (merged : Headers mem heapLimit heapBase (front ++ Block.push 24 b.released back))
    (covers : heapBase + span (front ++ Block.push 24 b.released back) = heapLimit) :
    let current := ((starts heapBase (front ++ Block.push 24 b.released back)).find?
      fun current => blockNext mem current == heapBase + span front).getD 0
    Headers (mergeInto mem current (heapBase + span front)) heapLimit heapBase
      (Block.coalesce 24 (front ++ b.released :: back)) ∧
    Mem.ChangesOnly mem (mergeInto mem current (heapBase + span front))
      {x | InHeader heapBase (front ++ b :: back) x} := by
  obtain ⟨size, rest, shape⟩ := Block.push_head 24 b.released back
  rw [shape] at merged covers ⊢
  -- Either the block is the first one, or some block comes right before it.
  rcases List.eq_nil_or_concat' front with rfl | ⟨init, d, rfl⟩
  · rw [List.nil_append] at merged ⊢
    rw [span_nil, Nat.add_zero, predecessor_first merged (by decide)]
    have same : mergeInto mem 0 heapBase = mem := rfl
    simp only [Option.getD_none, same]
    refine ⟨?_, Mem.ChangesOnly.refl mem _⟩
    have rest : Block.Coalesced back := coalesced.tail
    rw [List.nil_append, Block.coalesce_released_first 24 rest, shape]
    exact merged
  · simp only [List.append_assoc, List.singleton_append] at merged covers coalesced ⊢
    rw [predecessor_after merged (by decide) covers]
    simp only [Option.getD_some]
    have place : heapBase + span (init ++ [d]) = heapBase + span init + 24 + d.size := by
      simp only [span_append, span_cons, span_nil]
      omega
    have tail := (headers_append.mp merged).2
    rw [span_append] at covers
    obtain ⟨joined, changes⟩ := mergeInto_spec tail rfl (by simp) (by omega) (by simp)
    rw [place, Block.coalesce_released_after 24 coalesced, shape]
    refine ⟨?_, changes.mono headerSpan_subset⟩
    -- The predecessor and what follows it are replaced by what the merge made of them.
    have whole : Headers (mergeInto mem (heapBase + span init) (heapBase + span init + 24 + d.size))
        heapLimit heapBase
        (init ++ Block.push 24 d (⟨size, b.released.free⟩ :: rest) ++ []) := by
      refine Headers.replace (d :: ⟨size, b.released.free⟩ :: rest) (by simpa using merged)
        (changes.mono fun x member => ?_) joined ?_
      · simp only [headerSpan, Set.mem_Ico, span_cons] at member ⊢
        omega
      · rw [span, blockHeaderSize_eq, Block.span_push, span, blockHeaderSize_eq,
          Block.span_cons 24 d]
    simpa using whole

/--
Freeing a block in use releases it and joins it with whatever free neighbours it has.

Only block headers are written, so every payload keeps its contents.
-/
theorem kfree_spec {fuel : Nat} (heap : HeapRep kernel (front ++ b :: back)) (used : b.free = false)
    (enough : (front ++ b :: back).length < fuel) :
    ∃ kernel', kfree fuel kernel (heapBase + span front + 24) = some kernel' ∧
      HeapRep kernel' (Block.coalesce 24 (front ++ b.released :: back)) ∧
      kernel'.totalAllocated = u64Sub kernel.totalAllocated b.size ∧
      Mem.ChangesOnly kernel.mem kernel'.mem {x | InHeader heapBase (front ++ b :: back) x} := by
  obtain ⟨merged, changes⟩ := mergeNext_headers heap
  obtain ⟨joined, more⟩ := mergeInto_headers heap.coalesced merged (span_pushed heap)
  refine ⟨_, kfree_walk heap used enough, heap.release rfl joined, ?_,
    (changes.mono headerSpan_subset).trans more⟩
  -- The counter loses the size in the header, which raising the flag leaves alone.
  rw [Kernel.withTotalAllocated_totalAllocated, blockSize_setIsFree, heap.headers.at.size]

end Kfree

end IncroOS
