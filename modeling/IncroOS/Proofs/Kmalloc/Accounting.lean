import IncroOS.Lib.BlockRelease
import IncroOS.Proofs.Kmalloc.Shape

/-! The byte counter and the walk of `kmalloc_get_free` account for every byte of the heap. -/

namespace IncroOS

open Lib

/-- The sum of the recorded sizes of the listed blocks whose flag is as given. -/
def sizeSum (mem : Mem) (free : Bool) (nodes : List Nat) : Nat :=
  ((nodes.filter fun a => blockIsFree mem a == free).map (blockSize mem)).sum

/-- The heap's invariant together with its running counter. -/
structure HeapCounted (state : HeapState) (blocks : List Block) : Prop where
  inv : HeapInv state blocks
  total : state.kernel.totalAllocated = Block.usedSize blocks

section Sums

variable {mem : Mem} {limit a : Nat} {front back blocks : List Block} {b : Block}

/-- The sizes in memory add up to those of the represented blocks. -/
theorem sizeSum_starts (headers : Headers mem limit a blocks) :
    sizeSum mem false (starts a blocks) = Block.usedSize blocks ∧
    sizeSum mem true (starts a blocks) = Block.freeSize blocks := by
  -- Each header shows the size and the flag of its own block.
  induction blocks generalizing a with
  | nil => exact ⟨rfl, rfl⟩
  | cons c rest ih =>
    obtain ⟨used, free⟩ := ih headers.2
    simp only [sizeSum] at used free ⊢
    rw [starts, Block.usedSize_cons, Block.freeSize_cons, ← used, ← free]
    cases flag : c.free with
    | true => simp [headers.1.free, headers.1.size, flag]
    | false => simp [headers.1.free, headers.1.size, flag]

/-- The walk of `kmalloc_get_free` adds up the free sizes, as long as the sum does not wrap. -/
theorem freeWalk_starts (headers : Headers mem limit a blocks) (sum : Nat)
    (bound : sum + Block.freeSize blocks < 2 ^ 64) :
    (starts a blocks).foldl (fun freeMemory current =>
      if blockIsFree mem current then u64 (freeMemory + blockSize mem current) else freeMemory) sum =
      sum + Block.freeSize blocks := by
  induction blocks generalizing a sum with
  | nil => rfl
  | cons c rest ih =>
    rw [Block.freeSize_cons] at bound
    rw [starts, List.foldl_cons, headers.1.free, headers.1.size, Block.freeSize_cons]
    -- A free block adds its size, and a block in use adds nothing.
    cases flag : c.free with
    | true =>
      rw [flag, if_pos rfl] at bound
      rw [if_pos rfl, if_pos rfl, u64_of_lt (by omega), ih headers.2 _ (by omega)]
      omega
    | false =>
      rw [flag, if_neg (by simp)] at bound
      rw [if_neg (by simp), if_neg (by simp), ih headers.2 _ (by omega)]
      omega

/-- A carved block uses the size it was given. -/
theorem usedSize_carve (need : Nat) (b : Block) :
    Block.usedSize (Block.carve 24 16 need b) = given need b := by
  unfold Block.carve given
  split <;> simp

/-- Releasing a block in use takes its size off what is in use. -/
theorem usedSize_release (used : b.free = false) :
    Block.usedSize (Block.coalesce 24 (front ++ b.released :: back)) + b.size =
      Block.usedSize (front ++ b :: back) := by
  -- Joining free blocks moves nothing that is in use.
  rw [Block.usedSize_coalesce]
  simp only [Block.usedSize_append, Block.usedSize_cons, used, Block.released]
  simp only [if_true, Bool.false_eq_true, if_false]
  omega

end Sums

section Steps

variable {state state' : HeapState} {blocks : List Block} {fuel size p : Nat} {kernel : Kernel}

/-- Every byte of the heap is in use, free or part of a header. -/
theorem HeapRep.balance (heap : HeapRep kernel blocks) :
    Block.usedSize blocks + Block.freeSize blocks + 24 * blocks.length = heapSize := by
  -- The blocks tile the heap, and each has a header of 24 bytes.
  have covers := heap.covers
  rw [Block.usedSize_add_freeSize 24, blockSpan_eq, heapSize_eq]
  simp only [heapBase_eq, heapLimit_eq] at covers
  omega

theorem heapCounted_initial {kernel : Kernel} (fresh : kernel.totalAllocated = 0) :
    HeapCounted (HeapState.initial kernel) [⟨heapSize - blockHeaderSize, true⟩] :=
  ⟨heapInv_initial kernel, fresh⟩

/-- Taking a free block adds the size it was given to the counter. -/
theorem HeapCounted.take {front back : List Block} {b : Block} {need : Nat}
    (counted : HeapCounted state (front ++ b :: back)) (fits : Block.Fits need b)
    (even : need % 8 = 0) :
    HeapCounted ⟨(takeBlock state.kernel (heapBase + span front) need).1,
        insert (heapBase + span front + 24) state.live⟩
      (front ++ Block.carve 24 16 need b ++ back) := by
  refine ⟨counted.inv.take fits even, ?_⟩
  have after := (counted.inv.take fits even).heap.balance
  have sum : Block.usedSize (front ++ Block.carve 24 16 need b ++ back) =
      Block.usedSize (front ++ b :: back) + given need b := by
    simp only [Block.usedSize_append, Block.usedSize_cons, usedSize_carve, fits.1, if_true]
    omega
  -- What is in use after the call still fits the heap, so the counter does not wrap.
  rw [takeBlock_total counted.inv.heap fits even, counted.total, sum]
  rw [sum, heapSize_eq] at after
  exact u64_of_lt (by omega)

/-- Releasing a held block takes its size off the counter, which holds at least as much. -/
theorem HeapCounted.release {front back : List Block} {b : Block}
    (counted : HeapCounted state (front ++ b :: back)) (used : b.free = false)
    (heap : HeapRep kernel (Block.coalesce 24 (front ++ b.released :: back)))
    (total : kernel.totalAllocated = u64Sub state.kernel.totalAllocated b.size) :
    HeapCounted ⟨kernel, state.live.erase (heapBase + span front + 24)⟩
      (Block.coalesce 24 (front ++ b.released :: back)) := by
  refine ⟨counted.inv.release used heap, ?_⟩
  -- The sizes in use sum up to less than the heap, so the subtraction does not wrap.
  have before := counted.inv.heap.balance
  have sum : Block.usedSize (Block.coalesce 24 (front ++ b.released :: back)) + b.size =
      Block.usedSize (front ++ b :: back) := usedSize_release used
  rw [heapSize_eq] at before
  rw [total, counted.total, u64Sub_of_le (by omega) (by omega)]
  omega

/-- Every step keeps the counter right. -/
theorem HeapCounted.step (counted : HeapCounted state blocks) (step : HeapStep state state') :
    ∃ blocks', HeapCounted state' blocks' := by
  -- The counter moves with the block that a call carves or releases.
  cases step with
  | @kmalloc kernel fuel size p bound call =>
    rcases kmalloc_taken counted.inv.heap call with
      ⟨rfl, rfl⟩ | ⟨front, b, back, rfl, fits, even, rfl, rfl⟩
    · exact ⟨blocks, ⟨counted.inv.heap, by simpa using counted.inv.live⟩, counted.total⟩
    · -- The block that is carved is counted in by its own size.
      rw [if_neg (by omega)]
      exact ⟨_, counted.take fits even⟩
  | @kfree kernel fuel p held call =>
    rcases held with rfl | held
    · -- Freeing the null pointer does nothing.
      have same : kernel = state.kernel := kfree_unique call (kfree_null state.kernel fuel)
      have absent : 0 ∉ state.live := fun member => counted.inv.nonnull member rfl
      rw [same, Finset.erase_eq_of_notMem absent]
      exact ⟨blocks, counted⟩
    · obtain ⟨front, b, back, rfl, used, rfl, heap, total, -⟩ := counted.inv.kfree_cases held call
      exact ⟨_, counted.release used heap total⟩
  | write value held inside =>
    exact ⟨blocks, counted.inv.after_write value held inside, counted.total⟩

end Steps

/-- The counter is right in every state a run reaches. -/
theorem heapCounted_reachable {kernel : Kernel} {state : HeapState}
    (fresh : kernel.totalAllocated = 0)
    (run : Relation.ReflTransGen HeapStep (HeapState.initial kernel) state) :
    ∃ blocks, HeapCounted state blocks := by
  -- By induction on the run.
  induction run with
  | refl => exact ⟨_, heapCounted_initial fresh⟩
  | tail _ step ih =>
    obtain ⟨blocks, counted⟩ := ih
    exact counted.step step

/--
The two counters and the headers add up to the heap in every state of every run.

No release of a held pointer takes more off the running counter than it holds.
-/
theorem heap_accounting_conserved {kernel : Kernel} {state : HeapState}
    (fresh : kernel.totalAllocated = 0)
    (run : Relation.ReflTransGen HeapStep (HeapState.initial kernel) state) :
    ∃ nodes, Linked (blockNext state.kernel.mem) state.kernel.heapStart nodes ∧
      kmallocGetUsed state.kernel = sizeSum state.kernel.mem false nodes ∧
      (∀ fuel, heapSize / blockHeaderSize < fuel →
        kmallocGetFree fuel state.kernel = some (sizeSum state.kernel.mem true nodes)) ∧
      sizeSum state.kernel.mem false nodes + sizeSum state.kernel.mem true nodes +
        blockHeaderSize * nodes.length = heapSize ∧
      ∀ p ∈ state.live,
        blockSize state.kernel.mem (p - blockHeaderSize) ≤ state.kernel.totalAllocated := by
  obtain ⟨blocks, inv, total⟩ := heapCounted_reachable fresh run
  obtain ⟨used, free⟩ := sizeSum_starts inv.heap.headers
  have balance := inv.heap.balance
  refine ⟨_, inv.heap.linked, ?_, fun fuel enough => ?_, ?_, fun p held => ?_⟩
  · rw [used]
    exact total
  · -- The free sizes fit the heap, so their sum does not wrap.
    rw [heapSize_eq] at balance
    have room : (starts heapBase blocks).length < fuel := by
      rw [starts_length]
      exact Nat.lt_of_le_of_lt inv.heap.length_le enough
    rw [kmallocGetFree, walkFold_of_linked 0 inv.heap.linked room,
      freeWalk_starts inv.heap.headers 0 (by omega), free, Nat.zero_add]
  · rw [used, free, starts_length, blockHeaderSize_eq, balance]
  · -- The block of a held pointer is one of those the counter counts.
    obtain ⟨n, member⟩ := (inv.live p).mp held
    rw [inv.heap.size_at member, total]
    obtain ⟨front, b, back, rfl, taken, -, rfl⟩ := (Block.mem_inUse 24).mp member
    have sum := @usedSize_release front back b taken
    omega

/-- After one allocation of a hundred bytes the counters still add up. -/
theorem heap_accounting_conserved_after_kmalloc :
    let state := HeapState.afterOne (Kernel.zeroed (fun _ => 0) 0x1000) 100
    ∃ nodes, Linked (blockNext state.kernel.mem) state.kernel.heapStart nodes ∧
      kmallocGetUsed state.kernel = sizeSum state.kernel.mem false nodes ∧
      (∀ fuel, heapSize / blockHeaderSize < fuel →
        kmallocGetFree fuel state.kernel = some (sizeSum state.kernel.mem true nodes)) ∧
      sizeSum state.kernel.mem false nodes + sizeSum state.kernel.mem true nodes +
        blockHeaderSize * nodes.length = heapSize ∧
      ∀ p ∈ state.live,
        blockSize state.kernel.mem (p - blockHeaderSize) ≤ state.kernel.totalAllocated := by
  -- The run is the one allocation.
  intro state
  have run := afterOne_reachable (Kernel.zeroed (fun _ => 0) 0x1000) (show 100 ≠ 0 by decide)
    (by decide) (by decide)
  exact heap_accounting_conserved rfl run

end IncroOS
