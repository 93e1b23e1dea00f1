import IncroOS.Lib.Search
import IncroOS.Proofs.Kmalloc.Runs

/-! The shape of the block list in memory: it tiles the heap, and every walk along it ends. -/

namespace IncroOS

open Lib

/-- The block list from `heap_start`, as the next pointers and headers in memory lay it out. -/
structure HeapWellFormed (kernel : Kernel) (nodes : List Nat) : Prop where
  linked : Linked (blockNext kernel.mem) kernel.heapStart nodes
  acyclic : nodes.Nodup
  first : nodes.head? = some heapBase
  adjacent : nodes.IsChain fun a b =>
    blockNext kernel.mem a = b ∧ b = a + blockHeaderSize + blockSize kernel.mem a ∧
      ¬(blockIsFree kernel.mem a = true ∧ blockIsFree kernel.mem b = true)
  last : ∀ a, nodes.getLast? = some a → blockNext kernel.mem a = 0 ∧
    a + blockHeaderSize + blockSize kernel.mem a = heapBase + heapSize
  aligned : ∀ a ∈ nodes, a % 8 = 0
  tiles : ∀ x, heapBase ≤ x → x < heapBase + heapSize →
    ∃! a, a ∈ nodes ∧ a ≤ x ∧ x < a + blockHeaderSize + blockSize kernel.mem a

section Shape

variable {mem : Mem} {limit a : Nat} {blocks : List Block}

/-- Neighbouring starts are linked, adjacent and not both free. -/
theorem starts_adjacent (headers : Headers mem limit a blocks) (covers : a + span blocks = limit)
    (coalesced : Block.Coalesced blocks) :
    (starts a blocks).IsChain fun a b => blockNext mem a = b ∧ b = a + 24 + blockSize mem a ∧
      ¬(blockIsFree mem a = true ∧ blockIsFree mem b = true) := by
  induction blocks generalizing a with
  | nil => exact List.isChain_nil
  | cons b rest ih =>
    -- The claim is about neighbours, so a single block has nothing to show.
    cases rest with
    | nil => exact List.isChain_singleton a
    | cons c tail =>
      simp only [span_cons] at covers
      have further := ih headers.2 (by simp only [span_cons]; omega) coalesced.tail
      have apart := (List.isChain_cons_cons.mp coalesced).1
      refine List.isChain_cons_cons.mpr ⟨⟨?_, ?_, ?_⟩, further⟩
      · rw [headers.1.next, link, if_neg (by omega)]
      · rw [headers.1.size]
      · rw [headers.1.free, headers.2.1.free]
        exact apart

/-- The last block ends the list and the heap. -/
theorem starts_last (headers : Headers mem limit a blocks) (covers : a + span blocks = limit) {z : Nat}
    (last : (starts a blocks).getLast? = some z) :
    blockNext mem z = 0 ∧ z + 24 + blockSize mem z = limit := by
  -- The last block is behind all others, and the blocks tile the heap.
  rcases List.eq_nil_or_concat' blocks with rfl | ⟨front, b, rfl⟩
  · simp [starts] at last
  · rw [starts_append] at last
    have place : a + span front = z := by simpa [starts] using last
    have header := headers.at
    simp only [span_append, span_cons, span_nil] at covers
    have ended : a + span front + 24 + b.size = limit := by omega
    rw [← place, header.next, header.size, link, if_pos ended]
    exact ⟨rfl, ended⟩

/-- Blocks of aligned sizes take an aligned number of bytes. -/
theorem span_aligned (aligned : ∀ b ∈ blocks, b.size % 8 = 0) : span blocks % 8 = 0 := by
  -- By induction on the blocks; a header has 24 bytes.
  induction blocks with
  | nil => rfl
  | cons b rest ih =>
    have first := aligned b (by simp)
    have others := ih fun c member => aligned c (by simp [member])
    rw [span_cons]
    omega

/-- Each byte that blocks take belongs to exactly one of them. -/
theorem starts_tile (headers : Headers mem limit a blocks) {x : Nat} (low : a ≤ x)
    (high : x < a + span blocks) :
    ∃! s, s ∈ starts a blocks ∧ s ≤ x ∧ x < s + 24 + blockSize mem s := by
  induction blocks generalizing a with
  | nil =>
    rw [span_nil] at high
    omega
  | cons b rest ih =>
    rw [span_cons] at high
    have size := headers.1.size
    -- Later blocks all start behind the first one.
    have later : ∀ s ∈ starts (a + 24 + b.size) rest, a + 24 + b.size ≤ s := by
      intro s member
      obtain ⟨front, c, back, -, rfl⟩ := mem_starts.mp member
      omega
    rcases Nat.lt_or_ge x (a + 24 + b.size) with inside | beyond
    · refine ⟨a, ⟨by simp [starts], low, by omega⟩, ?_⟩
      rintro s ⟨member, below, -⟩
      rcases List.mem_cons.mp member with rfl | behind
      · rfl
      · have := later s behind
        omega
    · obtain ⟨s, ⟨member, below, above⟩, only⟩ := ih headers.2 beyond (by omega)
      refine ⟨s, ⟨List.mem_cons_of_mem a member, below, above⟩, ?_⟩
      rintro t ⟨member', below', above'⟩
      rcases List.mem_cons.mp member' with rfl | behind
      · omega
      · exact only t ⟨behind, below', above'⟩

end Shape

section Heap

variable {kernel : Kernel} {blocks : List Block}

/-- A represented heap has the shape its headers promise. -/
theorem HeapRep.wellFormed (heap : HeapRep kernel blocks) :
    HeapWellFormed kernel (starts heapBase blocks) where
  linked := heap.linked
  acyclic := heap.linked.nodup
  first := by
    -- The heap is not empty, so there is a first block.
    cases blocks with
    | nil => exact absurd heap.covers (by decide)
    | cons b rest => rfl
  adjacent := starts_adjacent heap.headers heap.covers heap.coalesced
  last := fun _ last => starts_last heap.headers heap.covers last
  aligned := by
    intro a member
    obtain ⟨front, b, back, rfl, rfl⟩ := mem_starts.mp member
    have even := span_aligned fun c member => heap.aligned c (List.mem_append_left _ member)
    rw [heapBase_eq]
    omega
  tiles := fun x low high => starts_tile heap.headers low (heap.covers ▸ high)

/-- Every block takes at least its header, which bounds their number. -/
theorem HeapRep.length_le (heap : HeapRep kernel blocks) :
    blocks.length ≤ heapSize / blockHeaderSize := by
  -- By induction, each block takes 24 bytes and more.
  have each : ∀ list : List Block, 24 * list.length ≤ span list := by
    intro list
    induction list with
    | nil => simp
    | cons b rest ih =>
      rw [List.length_cons, span_cons]
      omega
  have total := each blocks
  have covers := heap.covers
  simp only [heapBase_eq, heapLimit_eq] at covers
  rw [heapSize_eq, blockHeaderSize_eq]
  omega

/-- With more turns than the heap has room for headers, every walk along the list ends. -/
theorem HeapInv.walks_end {state : HeapState} (inv : HeapInv state blocks) {fuel : Nat}
    (enough : heapSize / blockHeaderSize < fuel) :
    (∀ size, (kmalloc fuel state.kernel size).isSome = true) ∧
    (∀ p, p = 0 ∨ p ∈ state.live → (kfree fuel state.kernel p).isSome = true) ∧
    (kmallocGetFree fuel state.kernel).isSome = true := by
  -- The fuel exceeds the number of blocks, of which every walk visits each once at most.
  have room : blocks.length < fuel := Nat.lt_of_le_of_lt inv.heap.length_le enough
  refine ⟨fun size => ?_, fun p held => ?_, ?_⟩
  · by_cases zero : size = 0
    · rw [zero, kmalloc_zero]
      rfl
    · rcases kmalloc_spec inv.heap room zero with ⟨-, result⟩ | ⟨front, b, back, -, -, -, result⟩
      · rw [result]
        rfl
      · rw [result]
        rfl
  · rcases held with rfl | held
    · rfl
    · obtain ⟨n, member⟩ := (inv.live p).mp held
      obtain ⟨front, b, back, rfl, used, rfl, rfl⟩ := (Block.mem_inUse 24).mp member
      obtain ⟨after, result, -⟩ := kfree_spec inv.heap used room
      rw [blockSpan_eq, result]
      rfl
  · rw [kmallocGetFree, walkFold_of_linked _ inv.heap.linked (by simpa using room)]
    rfl

end Heap

section Requests
variable {state : HeapState} {front back blocks : List Block} {b : Block} {size p : Nat}

/-- A request takes the first block that fits. -/
theorem HeapInv.kmalloc_first {fuel : Nat} (inv : HeapInv state (front ++ b :: back))
    (positive : size ≠ 0) (misses : ∀ c ∈ front, ¬ Block.Fits (alignSize size) c)
    (fits : Block.Fits (alignSize size) b) (enough : heapSize / blockHeaderSize < fuel) :
    ∃ kernel, kmalloc fuel state.kernel size = some (kernel, heapBase + span front + 24) ∧
      HeapInv ⟨kernel, insert (heapBase + span front + 24) state.live⟩
        (front ++ Block.carve 24 16 (alignSize size) b ++ back) := by
  have even : alignSize size % 8 = 0 := by
    have := alignSize_mod size
    omega
  rcases kmalloc_spec inv.heap (Nat.lt_of_le_of_lt inv.heap.length_le enough) positive with
    ⟨none, -⟩ | ⟨front', b', back', split, misses', fits', result⟩
  · exact absurd fits (none b (by simp))
  · -- The search stops where it is said to.
    obtain ⟨rfl, rfl, rfl⟩ := first_unique split misses fits misses' fits'
    have pointer := (takeBlock_spec inv.heap fits even).2.1
    refine ⟨_, ?_, inv.take fits even⟩
    rw [result, ← pointer]

/-- The release of a block that is held. -/
theorem HeapInv.kfree_block {fuel : Nat} (inv : HeapInv state (front ++ b :: back))
    (used : b.free = false) (enough : heapSize / blockHeaderSize < fuel) :
    ∃ kernel, kfree fuel state.kernel (heapBase + span front + 24) = some kernel ∧
      HeapInv ⟨kernel, state.live.erase (heapBase + span front + 24)⟩
        (Block.coalesce 24 (front ++ b.released :: back)) ∧
      kernel.totalAllocated = u64Sub state.kernel.totalAllocated b.size := by
  have room := Nat.lt_of_le_of_lt inv.heap.length_le enough
  obtain ⟨kernel, result, heap, total, -⟩ := kfree_spec inv.heap used room
  exact ⟨kernel, result, inv.release used heap, total⟩

end Requests

/-- The heap from which 100 and 200 bytes have been taken. -/
def twoBlocks : List Block := [⟨112, false⟩, ⟨208, false⟩, ⟨523896, true⟩]

/-- The same heap with 300 more bytes taken, and with the block of the 200 bytes given back. -/
def fragmentedBlocks : List Block := [⟨112, false⟩, ⟨208, true⟩, ⟨304, false⟩, ⟨523568, true⟩]

/-- Two requests lead to the first one. -/
theorem twoBlocks_reachable (kernel : Kernel) :
    ∃ state, Relation.ReflTransGen HeapStep (HeapState.initial kernel) state ∧
      HeapInv state twoBlocks := by
  -- Each request is served by the free block behind the last one.
  have enough : heapSize / blockHeaderSize < 21846 := by decide
  obtain ⟨kernel1, call1, inv1⟩ := @HeapInv.kmalloc_first _ [] [] _ 100 _ (heapInv_initial kernel)
    (by decide) (by simp) (by decide) enough
  obtain ⟨kernel2, call2, inv2⟩ := @HeapInv.kmalloc_first _ [⟨112, false⟩] [] ⟨524128, true⟩ 200 _ inv1
    (by decide) (by decide) (by decide) enough
  have step1 := HeapStep.kmalloc (by decide) call1
  have step2 := @HeapStep.kmalloc ⟨kernel1, _⟩ _ _ _ _ (by decide) call2
  exact ⟨_, (Relation.ReflTransGen.single step1).tail step2, inv2⟩

/-- A third request and a release lead to the other. -/
theorem fragmented_reachable (kernel : Kernel) :
    ∃ state, Relation.ReflTransGen HeapStep (HeapState.initial kernel) state ∧
      HeapInv state fragmentedBlocks := by
  -- The block that is released has neighbours in use, so nothing is joined.
  have enough : heapSize / blockHeaderSize < 21846 := by decide
  obtain ⟨state, run, inv⟩ := twoBlocks_reachable kernel
  obtain ⟨kernel1, call1, inv1⟩ := @HeapInv.kmalloc_first _ [⟨112, false⟩, ⟨208, false⟩] []
    ⟨523896, true⟩ 300 _ inv (by decide) (by decide) (by decide) enough
  have step1 := HeapStep.kmalloc (by decide) call1
  obtain ⟨kernel2, call2, inv2, -⟩ := @HeapInv.kfree_block ⟨kernel1, _⟩ [⟨112, false⟩]
    [⟨304, false⟩, ⟨523568, true⟩] ⟨208, false⟩ _ inv1 rfl enough
  have held := (inv1.live 0x1800A0).mpr ⟨208, by decide⟩
  have step2 := @HeapStep.kfree ⟨kernel1, _⟩ _ _ _ (.inr held) call2
  exact ⟨_, (run.tail step1).tail step2, inv2⟩

/-- A request that fits the fresh heap takes its only block. -/
theorem kmalloc_fresh (kernel : Kernel) {size : Nat} (positive : size ≠ 0)
    (fits : alignSize size ≤ heapSize - blockHeaderSize) :
    kmalloc 2 (kmallocInit kernel) size =
      some (takeBlock (kmallocInit kernel) heapBase (alignSize size)) := by
  rcases kmalloc_spec (kmallocInit_heap kernel) (Nat.lt_succ_self _) positive with
    ⟨misses, -⟩ | ⟨front, b, back, shape, -, -, result⟩
  · exact absurd ⟨rfl, fits⟩ (misses _ (List.mem_singleton_self _))
  · -- The only block of the list has nothing before it.
    cases front with
    | nil => exact result
    | cons c rest => simp at shape

/-- The fresh heap after one allocation, whose pointer the client holds. -/
def HeapState.afterOne (kernel : Kernel) (size : Nat) : HeapState :=
  ⟨(takeBlock (kmallocInit kernel) heapBase (alignSize size)).1, {heapBase + blockHeaderSize}⟩

/-- One allocation that fits takes the fresh heap there. -/
theorem afterOne_reachable (kernel : Kernel) {size : Nat} (positive : size ≠ 0)
    (bound : size < 2 ^ 64) (fits : alignSize size ≤ heapSize - blockHeaderSize) :
    Relation.ReflTransGen HeapStep (HeapState.initial kernel) (HeapState.afterOne kernel size) :=
  .single (.kmalloc (p := heapBase + blockHeaderSize) bound (kmalloc_fresh kernel positive fits))

/--
The heap list is well formed after every run of calls and client writes.

Every search along it ends within as many turns as the heap has room for headers.
-/
theorem heap_stays_tiled {kernel : Kernel} {state : HeapState}
    (run : Relation.ReflTransGen HeapStep (HeapState.initial kernel) state) :
    (∃ nodes, HeapWellFormed state.kernel nodes) ∧
    ∀ fuel, heapSize / blockHeaderSize < fuel →
      (∀ size, (kmalloc fuel state.kernel size).isSome = true) ∧
      (∀ p, p = 0 ∨ p ∈ state.live → (kfree fuel state.kernel p).isSome = true) ∧
      (kmallocGetFree fuel state.kernel).isSome = true := by
  obtain ⟨blocks, inv⟩ := heapInv_reachable run
  exact ⟨⟨_, inv.heap.wellFormed⟩, fun fuel enough => inv.walks_end enough⟩

/-- After one allocation of a hundred bytes the list has been split, and it still tiles the heap. -/
theorem heap_stays_tiled_after_kmalloc :
    let taken := takeBlock (kmallocInit (Kernel.zeroed (fun _ => 0) 0x1000)) heapBase (alignSize 100)
    (∃ nodes, HeapWellFormed taken.1 nodes) ∧
    ∀ fuel, heapSize / blockHeaderSize < fuel →
      (∀ size, (kmalloc fuel taken.1 size).isSome = true) ∧
      (∀ p, p = 0 ∨ p ∈ (if taken.2 = 0 then ∅ else insert taken.2 ∅ : Finset Nat) →
        (kfree fuel taken.1 p).isSome = true) ∧
      (kmallocGetFree fuel taken.1).isSome = true :=
  heap_stays_tiled (.single (.kmalloc (by decide)
    (kmalloc_fresh (Kernel.zeroed (fun _ => 0) 0x1000) (by decide) (by decide))))

end IncroOS
