import Mathlib.Data.Finset.Erase
import Mathlib.Data.Finset.Insert
import Mathlib.Logic.Relation
import IncroOS.Proofs.Kmalloc.Release

/-! The heap keeps its shape over every run of allocations, releases and client writes. -/

namespace IncroOS

open Lib

/-- A kernel together with the pointers that clients hold. -/
structure HeapState where
  kernel : Kernel
  live : Finset Nat

/-- The state right after `kmalloc_init`. -/
def HeapState.initial (kernel : Kernel) : HeapState := ⟨kmallocInit kernel, ∅⟩

/-- The bytes of an allocation, by the size in the header before it. -/
def payload (mem : Mem) (p : Nat) : Set Nat := Set.Ico p (p + blockSize mem (p - blockHeaderSize))

/-- One call by a client, or one write of a client to memory it holds. -/
inductive HeapStep : HeapState → HeapState → Prop
  | kmalloc {state : HeapState} {kernel : Kernel} {fuel size p : Nat} (bound : size < 2 ^ 64)
      (call : kmalloc fuel state.kernel size = some (kernel, p)) :
      HeapStep state ⟨kernel, if p = 0 then state.live else insert p state.live⟩
  | kfree {state : HeapState} {kernel : Kernel} {fuel p : Nat} (held : p = 0 ∨ p ∈ state.live)
      (call : kfree fuel state.kernel p = some kernel) :
      HeapStep state ⟨kernel, state.live.erase p⟩
  | write {state : HeapState} {p x : Nat} (value : UInt8) (held : p ∈ state.live)
      (inside : x ∈ payload state.kernel.mem p) :
      HeapStep state ⟨state.kernel.withMem (state.kernel.mem.set x value), state.live⟩

/-- The heap is a list of blocks, and clients hold exactly the payloads of those in use. -/
structure HeapInv (state : HeapState) (blocks : List Block) : Prop where
  heap : HeapRep state.kernel blocks
  live : ∀ p, p ∈ state.live ↔ ∃ n, (p, n) ∈ Block.inUse 24 heapBase blocks

/-- After `kmalloc_init` the heap is one free block. -/
theorem kmallocInit_heap (kernel : Kernel) :
    HeapRep (kmallocInit kernel) [⟨heapSize - blockHeaderSize, true⟩] := by
  refine ⟨rfl, ⟨?_, trivial⟩, by simp, List.isChain_singleton _, by simp⟩
  exact headerAt_write kernel.mem heapBase true (by simp) (by decide)

theorem heapInv_initial (kernel : Kernel) :
    HeapInv (HeapState.initial kernel) [⟨heapSize - blockHeaderSize, true⟩] :=
  ⟨kmallocInit_heap kernel, by simp [HeapState.initial, Block.inUse]⟩

section Calls

variable {kernel kernel' : Kernel} {blocks : List Block} {fuel size p : Nat}

/-- A call of `kmalloc` that ends gives the same result with any fuel that lets it end. -/
theorem kmalloc_unique {more : Nat} {first second : Kernel × Nat}
    (one : kmalloc fuel kernel size = some first) (two : kmalloc more kernel size = some second) :
    first = second := by
  -- The fuel bounds the walk only, so the branches agree.
  unfold kmalloc at one two
  split at one
  · rename_i zero
    rw [if_pos zero] at two
    exact Option.some.inj (one.symm.trans two)
  · rename_i nonzero
    rw [if_neg nonzero] at two
    obtain ⟨current, found, rfl⟩ := Option.map_eq_some_iff.mp one
    obtain ⟨other, found', rfl⟩ := Option.map_eq_some_iff.mp two
    rw [walk_unique found found']

/-- Releasing the null pointer does nothing. -/
theorem kfree_null (kernel : Kernel) (fuel : Nat) : kfree fuel kernel 0 = some kernel := rfl

theorem kfree_unique {more : Nat} {first second : Kernel} (one : kfree fuel kernel p = some first)
    (two : kfree more kernel p = some second) : first = second := by
  -- The fuel bounds the search for the predecessor only, so the branches agree.
  unfold kfree at one two
  split at one
  · rename_i null
    rw [if_pos null] at two
    exact Option.some.inj (one.symm.trans two)
  · rename_i nonnull
    rw [if_neg nonnull] at two
    dsimp only at one two
    split at one
    · rename_i raised
      rw [if_pos raised] at two
      exact Option.some.inj (one.symm.trans two)
    · rename_i busy
      rw [if_neg busy] at two
      obtain ⟨current, found, rfl⟩ := Option.map_eq_some_iff.mp one
      obtain ⟨other, found', rfl⟩ := Option.map_eq_some_iff.mp two
      rw [walk_unique found found']

/-- What a call of `kmalloc` that ends has done. -/
theorem kmalloc_cases (heap : HeapRep kernel blocks)
    (call : kmalloc fuel kernel size = some (kernel', p)) :
    (kernel' = kernel ∧ p = 0 ∧ (size = 0 ∨ ∀ b ∈ blocks, ¬ Block.Fits (alignSize size) b)) ∨
    ∃ front b back, blocks = front ++ b :: back ∧ size ≠ 0 ∧
      (∀ c ∈ front, ¬ Block.Fits (alignSize size) c) ∧ Block.Fits (alignSize size) b ∧
      (kernel', p) = takeBlock kernel (heapBase + span front) (alignSize size) := by
  -- A request for nothing ends at once; any other walks the list to the first block that fits.
  by_cases zero : size = 0
  · subst zero
    obtain ⟨rfl, rfl⟩ := Prod.mk.inj (kmalloc_unique call (kmalloc_zero kernel fuel))
    exact .inl ⟨rfl, rfl, .inl rfl⟩
  · -- With enough fuel the walk has the result that it has with any fuel that lets it end.
    rcases kmalloc_spec heap (Nat.lt_succ_self _) zero with
      ⟨misses, result⟩ | ⟨front, b, back, rfl, misses, fits, result⟩
    · obtain ⟨rfl, rfl⟩ := Prod.mk.inj (kmalloc_unique call result)
      exact .inl ⟨rfl, rfl, .inr misses⟩
    · exact .inr ⟨front, b, back, rfl, zero, misses, fits, kmalloc_unique call result⟩

/-- A call of `kmalloc` that ends does nothing, or carves an aligned size out of a block that fits. -/
theorem kmalloc_taken (heap : HeapRep kernel blocks)
    (call : kmalloc fuel kernel size = some (kernel', p)) :
    (kernel' = kernel ∧ p = 0) ∨
    ∃ front b back, blocks = front ++ b :: back ∧ Block.Fits (alignSize size) b ∧
      alignSize size % 8 = 0 ∧
      kernel' = (takeBlock kernel (heapBase + span front) (alignSize size)).1 ∧
      p = heapBase + span front + 24 := by
  -- The case without a pointer is one of two in which nothing happens.
  rcases kmalloc_cases heap call with
    ⟨same, null, -⟩ | ⟨front, b, back, rfl, -, -, fits, result⟩
  · exact .inl ⟨same, null⟩
  · -- The request is rounded up to a multiple of 16, of which the alignment is half.
    have even : alignSize size % 8 = 0 := by
      have := alignSize_mod size
      omega
    have pointer := (takeBlock_spec heap fits even).2.1
    exact .inr ⟨front, b, back, rfl, fits, even, congrArg Prod.fst result,
      (congrArg Prod.snd result).trans pointer⟩

end Calls

section Steps

variable {state : HeapState} {blocks : List Block} {fuel size p : Nat} {kernel : Kernel}

/-- The payload of an allocation is apart from every header. -/
theorem inUse_not_header {a n x : Nat} (member : (p, n) ∈ Block.inUse 24 a blocks)
    (inside : x ∈ Set.Ico p (p + n)) : ¬ InHeader a blocks x := by
  obtain ⟨front, b, back, rfl, -, rfl, rfl⟩ := (Block.mem_inUse 24).mp member
  rw [Set.mem_Ico, blockSpan_eq] at inside
  intro header
  -- The header is one before the payload's block, its own or one behind it.
  rcases inHeader_append.mp header with before | here | behind
  · have := before.bounds
    omega
  · omega
  · have := behind.bounds
    omega

/-- The header before a payload in use records the payload's size. -/
theorem HeapRep.size_at {n : Nat} (heap : HeapRep kernel blocks)
    (member : (p, n) ∈ Block.inUse 24 heapBase blocks) :
    blockSize kernel.mem (p - blockHeaderSize) = n := by
  obtain ⟨front, b, back, rfl, -, rfl, rfl⟩ := (Block.mem_inUse 24).mp member
  rw [blockHeaderSize_eq, blockSpan_eq, Nat.add_sub_cancel]
  exact heap.headers.at.size

/-- Taking a free block puts one more payload to use. -/
theorem HeapInv.take {front back : List Block} {b : Block} {need : Nat}
    (inv : HeapInv state (front ++ b :: back)) (fits : Block.Fits need b) (even : need % 8 = 0) :
    HeapInv ⟨(takeBlock state.kernel (heapBase + span front) need).1,
        insert (heapBase + span front + 24) state.live⟩
      (front ++ Block.carve 24 16 need b ++ back) := by
  obtain ⟨heap, -, -⟩ := takeBlock_spec inv.heap fits even
  refine ⟨heap, fun q => ?_⟩
  -- The payloads in use are those before the block, the new one, and those behind it.
  obtain ⟨given, -, carved⟩ := @Block.inUse_carved 24 heapBase front back b need 16 fits
  have old := inv.live q
  rw [Block.inUse_around 24 fits.1, blockSpan_eq] at old
  rw [blockSpan_eq] at carved
  rw [Finset.mem_insert, old, carved]
  simp only [List.mem_append, List.mem_cons, Prod.mk.injEq]
  constructor
  · rintro (rfl | ⟨n, before | behind⟩)
    · exact ⟨given, .inr (.inl ⟨rfl, rfl⟩)⟩
    · exact ⟨n, .inl before⟩
    · exact ⟨n, .inr (.inr behind)⟩
  · rintro ⟨n, before | ⟨rfl, -⟩ | behind⟩
    · exact .inr ⟨n, .inl before⟩
    · exact .inl rfl
    · exact .inr ⟨n, .inr behind⟩

/-- A call of `kmalloc` keeps the invariant. -/
theorem HeapInv.after_kmalloc (inv : HeapInv state blocks)
    (call : kmalloc fuel state.kernel size = some (kernel, p)) :
    ∃ blocks', HeapInv ⟨kernel, if p = 0 then state.live else insert p state.live⟩ blocks' := by
  -- The pointers that are held only change when the call gives one.
  rcases kmalloc_taken inv.heap call with
    ⟨rfl, rfl⟩ | ⟨front, b, back, rfl, fits, even, rfl, rfl⟩
  · exact ⟨blocks, inv.heap, by simpa using inv.live⟩
  · -- The address behind a header is not null, so the pointer is held from now on.
    rw [if_neg (by omega)]
    exact ⟨_, inv.take fits even⟩

/-- The payloads in use are ordered by address: those of other blocks end before or start behind. -/
theorem inUse_beside {a p n : Nat} {front back : List Block} {b : Block}
    (member : (p, n) ∈ Block.inUse 24 a front ∨
      (p, n) ∈ Block.inUse 24 (a + span front + 24 + b.size) back) :
    p + n ≤ a + span front ∨ a + span front + 24 + b.size + 24 ≤ p := by
  -- Both sides keep their payloads within the bytes of their own blocks.
  rcases member with before | behind
  · have bounds := Block.inUse_bounds 24 before
    rw [blockSpan_eq] at bounds
    exact .inl bounds.2
  · exact .inr (Block.inUse_bounds 24 behind).1

/-- Pointers that clients hold are not null. -/
theorem HeapInv.nonnull (inv : HeapInv state blocks) (held : p ∈ state.live) : p ≠ 0 := by
  obtain ⟨n, member⟩ := (inv.live p).mp held
  have := (Block.inUse_bounds 24 member).1
  omega

/-- What a release of a held pointer that ends has done. -/
theorem HeapInv.kfree_cases (inv : HeapInv state blocks) (held : p ∈ state.live)
    (call : kfree fuel state.kernel p = some kernel) :
    ∃ front b back, blocks = front ++ b :: back ∧ b.free = false ∧ p = heapBase + span front + 24 ∧
      HeapRep kernel (Block.coalesce 24 (front ++ b.released :: back)) ∧
      kernel.totalAllocated = u64Sub state.kernel.totalAllocated b.size ∧
      Mem.ChangesOnly state.kernel.mem kernel.mem {x | InHeader heapBase blocks x} := by
  -- What is held is the payload of a block in use, and the call has one result only.
  obtain ⟨n, member⟩ := (inv.live p).mp held
  obtain ⟨front, b, back, rfl, used, rfl, rfl⟩ := (Block.mem_inUse 24).mp member
  obtain ⟨after, result, heap, total, changes⟩ := kfree_spec inv.heap used (Nat.lt_succ_self _)
  obtain rfl := kfree_unique call result
  exact ⟨front, b, back, rfl, used, rfl, heap, total, changes⟩

/-- Releasing a held block drops its payload from those in use. -/
theorem HeapInv.release {front back : List Block} {b : Block}
    (inv : HeapInv state (front ++ b :: back)) (used : b.free = false)
    (heap : HeapRep kernel (Block.coalesce 24 (front ++ b.released :: back))) :
    HeapInv ⟨kernel, state.live.erase (heapBase + span front + 24)⟩
      (Block.coalesce 24 (front ++ b.released :: back)) := by
  refine ⟨heap, fun q => ?_⟩
  -- Joining does not move payloads, and releasing the block drops its own.
  have old := inv.live q
  rw [Block.inUse_around_used 24 used, blockSpan_eq] at old
  rw [Finset.mem_erase, old, Block.inUse_released, blockSpan_eq]
  simp only [List.mem_append, List.mem_cons, Prod.mk.injEq]
  constructor
  · rintro ⟨other, n, before | ⟨rfl, -⟩ | behind⟩
    · exact ⟨n, .inl before⟩
    · exact absurd rfl other
    · exact ⟨n, .inr behind⟩
  · rintro ⟨n, member⟩
    have order := inUse_beside member
    refine ⟨by omega, n, ?_⟩
    rcases member with before | behind
    · exact .inl before
    · exact .inr (.inr behind)

/-- Freeing a held pointer, or the null pointer, keeps the invariant. -/
theorem HeapInv.after_kfree (inv : HeapInv state blocks) (held : p = 0 ∨ p ∈ state.live)
    (call : kfree fuel state.kernel p = some kernel) :
    ∃ blocks', HeapInv ⟨kernel, state.live.erase p⟩ blocks' := by
  rcases held with rfl | held
  · -- Freeing the null pointer does nothing, and nobody holds it.
    have same : kernel = state.kernel := kfree_unique call (kfree_null state.kernel fuel)
    have absent : 0 ∉ state.live := fun member => inv.nonnull member rfl
    rw [same, Finset.erase_eq_of_notMem absent]
    exact ⟨blocks, inv⟩
  · obtain ⟨front, b, back, rfl, used, rfl, heap, -, -⟩ := inv.kfree_cases held call
    exact ⟨_, inv.release used heap⟩

/-- A client's write to its own payload keeps the invariant. -/
theorem HeapInv.after_write {x : Nat} (inv : HeapInv state blocks) (value : UInt8)
    (held : p ∈ state.live) (inside : x ∈ payload state.kernel.mem p) :
    HeapInv ⟨state.kernel.withMem (state.kernel.mem.set x value), state.live⟩ blocks := by
  obtain ⟨n, member⟩ := (inv.live p).mp held
  rw [payload, inv.heap.size_at member] at inside
  refine ⟨⟨inv.heap.start, ?_, inv.heap.covers, inv.heap.coalesced, inv.heap.aligned⟩, inv.live⟩
  -- A payload in use contains no byte of a header.
  refine inv.heap.headers.congr fun y header => ?_
  have apart : y ≠ x := by
    rintro rfl
    exact inUse_not_header member inside header
  exact Mem.set_changes state.kernel.mem x value y apart

/-- Every step keeps the invariant, for some list of blocks. -/
theorem HeapInv.step {state' : HeapState} (inv : HeapInv state blocks) (step : HeapStep state state') :
    ∃ blocks', HeapInv state' blocks' := by
  -- One lemma for each kind of step.
  cases step with
  | kmalloc bound call => exact inv.after_kmalloc call
  | kfree held call => exact inv.after_kfree held call
  | write value held inside => exact ⟨blocks, inv.after_write value held inside⟩

end Steps

/-- The invariant holds in every state a run reaches. -/
theorem heapInv_reachable {kernel : Kernel} {state : HeapState}
    (run : Relation.ReflTransGen HeapStep (HeapState.initial kernel) state) :
    ∃ blocks, HeapInv state blocks := by
  -- The blocks change from step to step, so that the induction carries their existence.
  induction run with
  | refl => exact ⟨_, heapInv_initial kernel⟩
  | tail _ step ih =>
    obtain ⟨blocks, inv⟩ := ih
    exact inv.step step

end IncroOS
