import IncroOS.Proofs.Kmalloc.Shape

/-! What the calls of the allocator leave alone: every allocation that lives on through the call. -/

namespace IncroOS

open Lib

/-- An allocation keeps its bytes, its recorded size and its flag. -/
structure KeepsAllocation (mem mem' : Mem) (q : Nat) : Prop where
  payload : ∀ x ∈ payload mem q, mem' x = mem x
  size : blockSize mem' (q - blockHeaderSize) = blockSize mem (q - blockHeaderSize)
  flag : blockIsFree mem' (q - blockHeaderSize) = blockIsFree mem (q - blockHeaderSize)

/-- The headers of the listed blocks. -/
def listHeaders (nodes : List Nat) : Set Nat := {x | ∃ a ∈ nodes, x ∈ headerSpan a}

/-- The payloads of the free ones among the listed blocks. -/
def freePayloads (mem : Mem) (nodes : List Nat) : Set Nat :=
  {x | ∃ a ∈ nodes, blockIsFree mem a = true ∧
    a + blockHeaderSize ≤ x ∧ x < a + blockHeaderSize + blockSize mem a}

/-- A call writes nothing but headers of the list it found and memory that was free. -/
def WritesSpare (kernel kernel' : Kernel) : Prop :=
  ∃ nodes, Linked (blockNext kernel.mem) kernel.heapStart nodes ∧
    Mem.ChangesOnly kernel.mem kernel'.mem (listHeaders nodes ∪ freePayloads kernel.mem nodes)

section Frame

variable {state : HeapState} {kernel kernel' : Kernel} {front back blocks : List Block} {b : Block}
  {fuel size p q n : Nat}

/-- The header before a payload in use shows that it is not free. -/
theorem HeapRep.flag_at (heap : HeapRep kernel blocks)
    (member : (p, n) ∈ Block.inUse 24 heapBase blocks) :
    blockIsFree kernel.mem (p - blockHeaderSize) = false := by
  obtain ⟨front, b, back, rfl, used, rfl, -⟩ := (Block.mem_inUse 24).mp member
  rw [blockHeaderSize_eq, blockSpan_eq, Nat.add_sub_cancel, heap.headers.at.free, used]

/-- An allocation listed with one size before and after keeps it, when its bytes are not written. -/
theorem keepsAllocation (before : HeapRep kernel blocks) {blocks' : List Block}
    (after : HeapRep kernel' blocks') (old : (q, n) ∈ Block.inUse 24 heapBase blocks)
    (new : (q, n) ∈ Block.inUse 24 heapBase blocks') {region : Set Nat}
    (changes : Mem.ChangesOnly kernel.mem kernel'.mem region)
    (apart : ∀ x ∈ Set.Ico q (q + n), x ∉ region) :
    KeepsAllocation kernel.mem kernel'.mem q := by
  -- Size and flag are read from the header, which the list gives before and after.
  refine ⟨fun x inside => ?_, ?_, ?_⟩
  · rw [payload, before.size_at old] at inside
    exact changes x (apart x inside)
  · rw [before.size_at old, after.size_at new]
  · rw [before.flag_at old, after.flag_at new]

/-- The headers of the represented blocks are those on the list in memory. -/
theorem inHeader_subset {a : Nat} : {x | InHeader a blocks x} ⊆ listHeaders (starts a blocks) := by
  -- The induction walks along the blocks, each of which starts at its own header.
  intro x inside
  induction blocks generalizing a with
  | nil => exact inside.elim
  | cons c rest ih =>
    rcases inside with here | later
    · exact ⟨a, by simp [starts], here⟩
    · obtain ⟨s, member, within⟩ := ih later
      exact ⟨s, List.mem_cons_of_mem a member, within⟩

/-- The bytes of a free block are its header and memory that is free. -/
theorem free_block_subset (heap : HeapRep kernel (front ++ b :: back)) (raised : b.free = true) :
    Set.Ico (heapBase + span front) (heapBase + span front + 24 + b.size) ⊆
      listHeaders (starts heapBase (front ++ b :: back)) ∪
        freePayloads kernel.mem (starts heapBase (front ++ b :: back)) := by
  have header := heap.headers.at
  have listed : heapBase + span front ∈ starts heapBase (front ++ b :: back) :=
    mem_starts.mpr ⟨front, b, back, rfl, rfl⟩
  intro x inside
  obtain ⟨low, high⟩ := Set.mem_Ico.mp inside
  -- The first 24 bytes are the header, the others the payload.
  rcases Nat.lt_or_ge x (heapBase + span front + 24) with first | beyond
  · exact .inl ⟨_, listed, Set.mem_Ico.mpr ⟨low, first⟩⟩
  · refine .inr ⟨_, listed, header.free.trans raised, beyond, ?_⟩
    rw [header.size]
    exact high

/-- An allocation made while a block is free lies before or behind that block. -/
theorem inUse_apart_free {a : Nat} (raised : b.free = true)
    (member : (q, n) ∈ Block.inUse 24 a (front ++ b :: back)) :
    ((q, n) ∈ Block.inUse 24 a front ∨
      (q, n) ∈ Block.inUse 24 (a + span front + 24 + b.size) back) ∧
    ∀ x ∈ Set.Ico q (q + n), x ∉ Set.Ico (a + span front) (a + span front + 24 + b.size) := by
  -- The free block adds no allocation, so the others are those of the two sides.
  rw [Block.inUse_around 24 raised, blockSpan_eq, List.mem_append] at member
  have order := inUse_beside member
  refine ⟨member, fun x inside within => ?_⟩
  simp only [Set.mem_Ico] at inside within
  omega

/-- Taking a free block keeps every allocation and writes within that block. -/
theorem takeBlock_frame {need : Nat} (inv : HeapInv state (front ++ b :: back))
    (fits : Block.Fits need b) (even : need % 8 = 0) :
    (∀ q ∈ state.live, KeepsAllocation state.kernel.mem
      (takeBlock state.kernel (heapBase + span front) need).1.mem q) ∧
    WritesSpare state.kernel (takeBlock state.kernel (heapBase + span front) need).1 := by
  obtain ⟨heap, -, changes⟩ := takeBlock_spec inv.heap fits even
  refine ⟨fun q held => ?_, _, inv.heap.linked, changes.mono (free_block_subset inv.heap fits.1)⟩
  obtain ⟨n, member⟩ := (inv.live q).mp held
  obtain ⟨place, apart⟩ := inUse_apart_free fits.1 member
  refine keepsAllocation inv.heap heap member ?_ changes apart
  -- The allocations before the block and behind it stay where they are.
  obtain ⟨given, -, carved⟩ := @Block.inUse_carved 24 heapBase front back b need 16 fits
  rw [carved, blockSpan_eq]
  rcases place with before | behind
  · exact List.mem_append_left _ before
  · exact List.mem_append_right _ (List.mem_cons_of_mem _ behind)

/-- A call of `kmalloc` keeps every allocation held before it. -/
theorem HeapInv.kmalloc_frame (inv : HeapInv state blocks)
    (call : kmalloc fuel state.kernel size = some (kernel, p)) :
    (∀ q ∈ state.live, KeepsAllocation state.kernel.mem kernel.mem q) ∧
    WritesSpare state.kernel kernel := by
  rcases kmalloc_taken inv.heap call with
    ⟨rfl, -⟩ | ⟨front, b, back, rfl, fits, even, rfl, -⟩
  · -- Without a block that fits the kernel is left as it was.
    exact ⟨fun q held => ⟨fun x inside => rfl, rfl, rfl⟩, _, inv.heap.linked,
      Mem.ChangesOnly.refl state.kernel.mem _⟩
  · exact takeBlock_frame inv fits even

/-- A release of a held pointer keeps every other allocation. -/
theorem HeapInv.kfree_frame (inv : HeapInv state blocks) (held : p ∈ state.live)
    (call : kfree fuel state.kernel p = some kernel) :
    (∀ q ∈ state.live, q ≠ p → KeepsAllocation state.kernel.mem kernel.mem q) ∧
    WritesSpare state.kernel kernel := by
  obtain ⟨front, b, back, rfl, used, rfl, heap, -, changes⟩ := inv.kfree_cases held call
  refine ⟨fun q other distinct => ?_, _, inv.heap.linked,
    changes.mono (inHeader_subset.trans Set.subset_union_left)⟩
  obtain ⟨n, member⟩ := (inv.live q).mp other
  refine keepsAllocation inv.heap heap member ?_ changes
    fun x inside header => inUse_not_header member inside header
  -- Of the payloads in use only that of the released block is dropped.
  rw [Block.inUse_around_used 24 used, blockSpan_eq] at member
  rw [Block.inUse_released, blockSpan_eq]
  rcases List.mem_append.mp member with before | rest
  · exact List.mem_append_left _ before
  · rcases List.mem_cons.mp rest with same | behind
    · exact absurd (congrArg Prod.fst same) distinct
    · exact List.mem_append_right _ behind

end Frame

/--
No call of the allocator writes into an allocation that lives on through it.

Whatever a call does write lies in the headers of the list or in memory that was free.
-/
theorem allocator_spares_allocations {kernel : Kernel} {state : HeapState}
    (run : Relation.ReflTransGen HeapStep (HeapState.initial kernel) state) :
    (∀ fuel size after p, kmalloc fuel state.kernel size = some (after, p) →
      (∀ q ∈ state.live, KeepsAllocation state.kernel.mem after.mem q) ∧
      WritesSpare state.kernel after) ∧
    ∀ fuel p after, p ∈ state.live → kfree fuel state.kernel p = some after →
      (∀ q ∈ state.live, q ≠ p → KeepsAllocation state.kernel.mem after.mem q) ∧
      WritesSpare state.kernel after := by
  obtain ⟨blocks, inv⟩ := heapInv_reachable run
  exact ⟨fun _ _ _ _ call => inv.kmalloc_frame call,
    fun _ _ _ held call => inv.kfree_frame held call⟩

/-- With one allocation held, further calls spare it. -/
theorem allocator_spares_allocations_after_kmalloc :
    let state := HeapState.afterOne (Kernel.zeroed (fun _ => 0) 0x1000) 100
    (∀ fuel size after p, kmalloc fuel state.kernel size = some (after, p) →
      (∀ q ∈ state.live, KeepsAllocation state.kernel.mem after.mem q) ∧
      WritesSpare state.kernel after) ∧
    ∀ fuel p after, p ∈ state.live → kfree fuel state.kernel p = some after →
      (∀ q ∈ state.live, q ≠ p → KeepsAllocation state.kernel.mem after.mem q) ∧
      WritesSpare state.kernel after := by
  -- The run is the one allocation.
  intro state
  have run := afterOne_reachable (Kernel.zeroed (fun _ => 0) 0x1000) (show 100 ≠ 0 by decide)
    (by decide) (by decide)
  exact allocator_spares_allocations run

end IncroOS
