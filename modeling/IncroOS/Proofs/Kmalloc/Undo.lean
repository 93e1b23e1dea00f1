import Mathlib.Data.Finset.Basic
import IncroOS.Proofs.Kmalloc.Accounting

/-! Releases undo allocations: one call at once, and all of them in whatever order they come. -/

namespace IncroOS

open Lib

/-- Two kernels show the same heap: the same list of blocks and the same running counter. -/
structure SameHeap (kernel kernel' : Kernel) : Prop where
  start : kernel'.heapStart = kernel.heapStart
  blocks : ∃ nodes, Linked (blockNext kernel.mem) kernel.heapStart nodes ∧
    Linked (blockNext kernel'.mem) kernel'.heapStart nodes ∧
    ∀ a ∈ nodes, blockSize kernel'.mem a = blockSize kernel.mem a ∧
      blockIsFree kernel'.mem a = blockIsFree kernel.mem a ∧
      blockNext kernel'.mem a = blockNext kernel.mem a
  total : kernel'.totalAllocated = kernel.totalAllocated

/-- Release the listed pointers one after the other. -/
def kfreeAll (fuel : Nat) (kernel : Kernel) (pointers : List Nat) : Option Kernel :=
  pointers.foldlM (kfree fuel) kernel

section Undo

variable {state : HeapState} {kernel kernel' : Kernel} {front back blocks : List Block} {b : Block}
  {fuel size p q : Nat}

/-- Two heaps that represent the same blocks are the same to every reader of their headers. -/
theorem HeapRep.same (first : HeapRep kernel blocks) (second : HeapRep kernel' blocks)
    (total : kernel'.totalAllocated = kernel.totalAllocated) : SameHeap kernel kernel' := by
  -- Each header reads as its block says, on either side.
  refine ⟨second.start.trans first.start.symm, ⟨_, first.linked, second.linked, ?_⟩, total⟩
  intro a listed
  obtain ⟨front, b, back, rfl, rfl⟩ := mem_starts.mp listed
  have left := first.headers.at
  have right := second.headers.at
  exact ⟨right.size.trans left.size.symm, right.free.trans left.free.symm,
    right.next.trans left.next.symm⟩

theorem HeapCounted.same {live live' : Finset Nat} (first : HeapCounted ⟨kernel, live⟩ blocks)
    (second : HeapCounted ⟨kernel', live'⟩ blocks) : SameHeap kernel kernel' :=
  first.inv.heap.same second.inv.heap (second.total.trans first.total.symm)

/-- Releasing a block in use ends, and leaves the blocks joined as the flags then say. -/
theorem HeapCounted.kfree_block (counted : HeapCounted state (front ++ b :: back))
    (used : b.free = false) (enough : heapSize / blockHeaderSize < fuel) :
    ∃ kernel', kfree fuel state.kernel (heapBase + span front + 24) = some kernel' ∧
      HeapCounted ⟨kernel', state.live.erase (heapBase + span front + 24)⟩
        (Block.coalesce 24 (front ++ b.released :: back)) := by
  obtain ⟨kernel', result, inv, total⟩ := counted.inv.kfree_block used enough
  exact ⟨kernel', result, counted.release used inv.heap total⟩

/-- The same for a held pointer, with the flag raised at its address. -/
theorem HeapCounted.kfree_held (counted : HeapCounted state blocks) (held : p ∈ state.live)
    (enough : heapSize / blockHeaderSize < fuel) :
    ∃ kernel', kfree fuel state.kernel p = some kernel' ∧
      HeapCounted ⟨kernel', state.live.erase p⟩
        (Block.coalesce 24 (Block.raiseAt 24 p heapBase blocks)) := by
  -- A held pointer lies behind the header of a block in use.
  obtain ⟨n, member⟩ := (counted.inv.live p).mp held
  obtain ⟨front, b, back, rfl, used, rfl, -⟩ := (Block.mem_inUse 24).mp member
  rw [Block.raiseAt_here 24 (by decide)]
  exact counted.kfree_block used enough

/-- A release right after an allocation joins exactly what the allocation split. -/
theorem HeapCounted.kfree_taken {need : Nat} (counted : HeapCounted state (front ++ b :: back))
    (fits : Block.Fits need b) (even : need % 8 = 0) (enough : heapSize / blockHeaderSize < fuel) :
    ∃ kernel', kfree fuel (takeBlock state.kernel (heapBase + span front) need).1
      (heapBase + span front + 24) = some kernel' ∧ SameHeap state.kernel kernel' := by
  -- Before the call the free block has no free neighbour, so the joins stop at its own bounds.
  obtain ⟨c, rest, shape, used, restored⟩ :=
    Block.coalesce_carved 24 16 counted.inv.heap.coalesced fits
  have taken := counted.take fits even
  rw [shape, List.append_assoc, List.cons_append] at taken
  obtain ⟨kernel', result, released⟩ := taken.kfree_block used enough
  rw [restored] at released
  exact ⟨kernel', result, HeapCounted.same counted released⟩

/-- Two releases leave the same blocks in either order. -/
theorem HeapCounted.kfree_comm (counted : HeapCounted state blocks) (left : p ∈ state.live)
    (right : q ∈ state.live) (distinct : p ≠ q) (enough : heapSize / blockHeaderSize < fuel) :
    ∃ first second first' second',
      kfree fuel state.kernel p = some first ∧ kfree fuel first q = some second ∧
      kfree fuel state.kernel q = some first' ∧ kfree fuel first' p = some second' ∧
      SameHeap second second' := by
  obtain ⟨first, releaseP, afterP⟩ := counted.kfree_held left enough
  obtain ⟨second, thenQ, afterPQ⟩ :=
    afterP.kfree_held (Finset.mem_erase.mpr ⟨distinct.symm, right⟩) enough
  obtain ⟨first', releaseQ, afterQ⟩ := counted.kfree_held right enough
  obtain ⟨second', thenP, afterQP⟩ :=
    afterQ.kfree_held (Finset.mem_erase.mpr ⟨distinct, left⟩) enough
  -- Joining in between changes nothing, and flags can be raised in either order.
  rw [Block.coalesce_raiseAt_coalesce] at afterPQ afterQP
  rw [Block.raiseAt_comm] at afterQP
  exact ⟨first, second, first', second', releaseP, thenQ, releaseQ, thenP,
    HeapCounted.same afterPQ afterQP⟩

/-- Releasing held pointers one after the other ends, and takes them all from those held. -/
theorem HeapCounted.kfreeAll_held {pointers : List Nat} (counted : HeapCounted state blocks)
    (distinct : pointers.Nodup) (held : ∀ p ∈ pointers, p ∈ state.live)
    (enough : heapSize / blockHeaderSize < fuel) :
    ∃ kernel' blocks', kfreeAll fuel state.kernel pointers = some kernel' ∧
      HeapCounted ⟨kernel', state.live \ pointers.toFinset⟩ blocks' := by
  induction pointers generalizing state blocks with
  | nil => exact ⟨state.kernel, blocks, rfl, by simpa using counted⟩
  | cons p rest ih =>
    obtain ⟨absent, others⟩ := List.nodup_cons.mp distinct
    obtain ⟨kernel', release, after⟩ := counted.kfree_held (held p (by simp)) enough
    -- The remaining pointers differ from the one just released, so they are still held.
    have still : ∀ q ∈ rest, q ∈ state.live.erase p := fun q member =>
      Finset.mem_erase.mpr ⟨fun same => absent (same ▸ member), held q (by simp [member])⟩
    obtain ⟨last, blocks', releases, final⟩ := ih after others still
    refine ⟨last, blocks', ?_, ?_⟩
    · simp only [kfreeAll, List.foldlM_cons] at releases ⊢
      rw [release]
      exact releases
    · rw [List.toFinset_cons, Finset.sdiff_insert, ← Finset.erase_sdiff_comm]
      exact final

/-- A heap of which nothing is held is one free block. -/
theorem HeapInv.all_free (inv : HeapInv state blocks) (none : state.live = ∅) :
    blocks = [⟨heapSize - blockHeaderSize, true⟩] := by
  have allFree : ∀ b ∈ blocks, b.free = true := by
    intro b member
    by_contra used
    obtain ⟨front, back, rfl⟩ := List.append_of_mem member
    -- A block in use would have a payload that somebody holds.
    have held := (inv.live (heapBase + span front + 24)).mpr
      ⟨b.size, (Block.mem_inUse 24).mpr ⟨front, b, back, rfl, by simpa using used, rfl, rfl⟩⟩
    simp [none] at held
  have covers := inv.heap.covers
  have filled : blocks ≠ [] := by
    rintro rfl
    simp at covers
  have joined := Block.coalesce_all_free 24 allFree filled
  rw [Block.coalesce_of_coalesced 24 inv.heap.coalesced, blockSpan_eq] at joined
  simp only [heapBase_eq, heapLimit_eq] at covers
  rw [joined]
  congr 2
  rw [heapSize_eq, blockHeaderSize_eq]
  omega

end Undo

/-- A release right after a successful allocation restores the list and the counter. -/
theorem kfree_undoes_kmalloc {kernel after : Kernel} {state : HeapState} {fuel more size p : Nat}
    (fresh : kernel.totalAllocated = 0)
    (run : Relation.ReflTransGen HeapStep (HeapState.initial kernel) state)
    (call : kmalloc fuel state.kernel size = some (after, p)) (nonnull : p ≠ 0)
    (enough : heapSize / blockHeaderSize < more) :
    ∃ restored, kfree more after p = some restored ∧ SameHeap state.kernel restored := by
  obtain ⟨blocks, counted⟩ := heapCounted_reachable fresh run
  rcases kmalloc_taken counted.inv.heap call with
    ⟨-, null⟩ | ⟨front, b, back, rfl, fits, even, rfl, rfl⟩
  · exact absurd null nonnull
  · -- The block that was carved is released to what it was.
    exact counted.kfree_taken fits even enough

/-- A hundred bytes taken from the fresh heap are given back without a trace. -/
theorem kfree_undoes_kmalloc_fresh :
    let taken := takeBlock (kmallocInit (Kernel.zeroed (fun _ => 0) 0x1000)) heapBase (alignSize 100)
    ∃ restored, kfree 21846 taken.1 taken.2 = some restored ∧
      SameHeap (kmallocInit (Kernel.zeroed (fun _ => 0) 0x1000)) restored := by
  -- The first block is at 0x180000, and its header has 24 bytes.
  intro taken
  have call := kmalloc_fresh (Kernel.zeroed (fun _ => 0) 0x1000) (show 100 ≠ 0 by decide) (by decide)
  have place : taken.2 = 0x180018 := rfl
  have start : Relation.ReflTransGen HeapStep
      (HeapState.initial (Kernel.zeroed (fun _ => 0) 0x1000))
      (HeapState.initial (Kernel.zeroed (fun _ => 0) 0x1000)) := .refl
  exact kfree_undoes_kmalloc rfl start call (by rw [place]; decide) (by decide)

/--
The order of releases does not matter.

Two releases give the same heap in either order, and releasing everything gives the initial one.
-/
theorem kfree_order_irrelevant {kernel : Kernel} {state : HeapState} {fuel : Nat}
    (fresh : kernel.totalAllocated = 0)
    (run : Relation.ReflTransGen HeapStep (HeapState.initial kernel) state)
    (enough : heapSize / blockHeaderSize < fuel) :
    (∀ p ∈ state.live, ∀ q ∈ state.live, p ≠ q →
      ∃ first second first' second',
        kfree fuel state.kernel p = some first ∧ kfree fuel first q = some second ∧
        kfree fuel state.kernel q = some first' ∧ kfree fuel first' p = some second' ∧
        SameHeap second second') ∧
    ∀ pointers : List Nat, pointers.Nodup → (∀ p, p ∈ pointers ↔ p ∈ state.live) →
      ∃ emptied, kfreeAll fuel state.kernel pointers = some emptied ∧
        emptied.heapStart = heapBase ∧
        Linked (blockNext emptied.mem) emptied.heapStart [heapBase] ∧
        blockSize emptied.mem heapBase = heapSize - blockHeaderSize ∧
        blockIsFree emptied.mem heapBase = true ∧
        kmallocGetUsed emptied = 0 ∧
        kmallocGetFree fuel emptied = some (heapSize - blockHeaderSize) := by
  obtain ⟨blocks, counted⟩ := heapCounted_reachable fresh run
  refine ⟨fun p left q right distinct => counted.kfree_comm left right distinct enough, ?_⟩
  intro pointers distinct held
  obtain ⟨emptied, blocks', releases, after⟩ :=
    counted.kfreeAll_held distinct (fun p member => (held p).mp member) enough
  -- Nothing is held any more, so the heap is one free block again.
  have none : state.live \ pointers.toFinset = ∅ := by
    rw [Finset.sdiff_eq_empty_iff_subset]
    intro p member
    exact List.mem_toFinset.mpr ((held p).mpr member)
  obtain rfl := after.inv.all_free none
  have header := after.inv.heap.headers.1
  have room : (starts heapBase [⟨heapSize - blockHeaderSize, true⟩]).length < fuel := by
    have := after.inv.heap.length_le
    rw [starts_length]
    omega
  refine ⟨emptied, releases, after.inv.heap.start, after.inv.heap.linked, header.size, header.free,
    after.total, ?_⟩
  rw [kmallocGetFree, walkFold_of_linked 0 after.inv.heap.linked room,
    freeWalk_starts after.inv.heap.headers 0 (by simp)]
  rfl

/-- Two allocations are released in either order, and what is left is the initial heap. -/
theorem kfree_order_irrelevant_two :
    ∃ state first second first' second' emptied, HeapInv state twoBlocks ∧
      kfree 21846 state.kernel 0x180018 = some first ∧ kfree 21846 first 0x1800A0 = some second ∧
      kfree 21846 state.kernel 0x1800A0 = some first' ∧ kfree 21846 first' 0x180018 = some second' ∧
      SameHeap second second' ∧ kfreeAll 21846 state.kernel [0x1800A0, 0x180018] = some emptied ∧
      kmallocGetUsed emptied = 0 ∧
      kmallocGetFree 21846 emptied = some (heapSize - blockHeaderSize) := by
  -- Both pointers are live, and they are all that is.
  obtain ⟨state, run, inv⟩ := twoBlocks_reachable (Kernel.zeroed (fun _ => 0) 0x1000)
  obtain ⟨orders, all⟩ :=
    kfree_order_irrelevant rfl run (show heapSize / blockHeaderSize < 21846 by decide)
  have live : ∀ p, p ∈ [0x1800A0, 0x180018] ↔ p ∈ state.live := by
    intro p
    rw [inv.live]
    simp [twoBlocks, Block.inUse, heapBase_eq, or_comm, exists_or]
  obtain ⟨first, second, first', second', calls⟩ :=
    orders 0x180018 ((live _).mp (by simp)) 0x1800A0 ((live _).mp (by simp)) (by decide)
  obtain ⟨one, two, one', two', same⟩ := calls
  obtain ⟨emptied, releases, -, -, -, -, used, free⟩ := all [0x1800A0, 0x180018] (by decide) live
  exact ⟨state, first, second, first', second', emptied, inv, one, two, one', two', same, releases,
    used, free⟩

end IncroOS
