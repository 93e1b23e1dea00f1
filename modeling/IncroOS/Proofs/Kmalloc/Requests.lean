import Mathlib.Order.CompletePartialOrder
import Mathlib.Order.Interval.Set.Disjoint
import IncroOS.Proofs.Kmalloc.Shape

/-! What a pointer from `kmalloc` is good for: exactly which requests get the bytes they asked for. -/

namespace IncroOS

open Lib

/-- The bytes asked for lie in the heap, apart from every header and from every earlier payload. -/
structure CoversRequest (state : HeapState) (size : Nat) (kernel : Kernel) (p : Nat) : Prop where
  inside : heapBase ≤ p ∧ p + size ≤ heapBase + heapSize
  headers : ∃ nodes, Linked (blockNext kernel.mem) kernel.heapStart nodes ∧
    ∀ a ∈ nodes, Disjoint (Set.Ico p (p + size)) (Set.Ico a (a + blockHeaderSize))
  payloads : ∀ q ∈ state.live, Disjoint (Set.Ico p (p + size)) (payload state.kernel.mem q)
  recorded : size ≤ blockSize kernel.mem (p - blockHeaderSize)

/-- No block on the list is free. -/
def NoFreeBlock (kernel : Kernel) : Prop :=
  ∃ nodes, Linked (blockNext kernel.mem) kernel.heapStart nodes ∧
    ∀ a ∈ nodes, blockIsFree kernel.mem a = false

section Requests

variable {state : HeapState} {kernel : Kernel} {front back : List Block} {b : Block} {size : Nat}

/-- The flags in memory are those of the represented blocks. -/
theorem HeapRep.noFreeBlock_iff {blocks : List Block} (heap : HeapRep kernel blocks) :
    NoFreeBlock kernel ↔ ∀ b ∈ blocks, b.free = false := by
  -- The listed headers are those of the represented blocks.
  constructor
  · rintro ⟨nodes, linked, busy⟩ b member
    rw [linked.unique heap.linked] at busy
    obtain ⟨front, back, rfl⟩ := List.append_of_mem member
    rw [← heap.headers.at.free]
    exact busy _ (mem_starts.mpr ⟨front, b, back, rfl, rfl⟩)
  · intro busy
    refine ⟨_, heap.linked, fun a member => ?_⟩
    obtain ⟨front, b, back, rfl, rfl⟩ := mem_starts.mp member
    rw [heap.headers.at.free]
    exact busy b (by simp)

/-- Payloads held before an allocation lie before or behind the block that was free. -/
theorem HeapInv.held_apart (inv : HeapInv state (front ++ b :: back)) (raised : b.free = true) {q : Nat}
    (held : q ∈ state.live) :
    Disjoint (Set.Ico (heapBase + span front + 24) (heapBase + span front + 24 + b.size))
      (payload state.kernel.mem q) := by
  -- A free block adds no allocation, so what is held is on one of its two sides.
  obtain ⟨n, member⟩ := (inv.live q).mp held
  rw [payload, inv.heap.size_at member, Set.Ico_disjoint_Ico]
  rw [Block.inUse_around 24 raised, blockSpan_eq, List.mem_append] at member
  have order := inUse_beside member
  omega

/-- A block taken for a rounded request serves every request up to that rounded size. -/
theorem takeBlock_covers {need : Nat} (inv : HeapInv state (front ++ b :: back))
    (fits : Block.Fits need b) (even : need % 8 = 0) (within : size ≤ need) :
    CoversRequest state size (takeBlock state.kernel (heapBase + span front) need).1
      (takeBlock state.kernel (heapBase + span front) need).2 := by
  obtain ⟨heap, place, -⟩ := takeBlock_spec inv.heap fits even
  obtain ⟨given, enough, carved⟩ := Block.inUse_carve 24 16 (heapBase + span front) fits
  have alone : (heapBase + span front + 24, given) ∈
      Block.inUse 24 (heapBase + span front) (Block.carve 24 16 need b) := by
    rw [carved]
    exact List.mem_singleton_self _
  -- The new payload is one of the payloads in use, inside the block that was taken.
  have member : (heapBase + span front + 24, given) ∈
      Block.inUse 24 heapBase (front ++ Block.carve 24 16 need b ++ back) := by
    rw [Block.inUse_append, Block.inUse_append, blockSpan_eq]
    exact List.mem_append_left _ (List.mem_append_right _ alone)
  have bounds := Block.inUse_bounds 24 alone
  rw [Block.span_carve] at bounds
  have covers := inv.heap.block_bounds
  simp only [heapLimit_eq] at covers
  rw [place]
  refine ⟨?_, ⟨_, heap.linked, fun a listed => ?_⟩, fun q held => ?_, ?_⟩
  · rw [heapSize_eq, heapBase_eq]
    simp only [heapBase_eq] at covers bounds
    omega
  · rw [Set.disjoint_left]
    intro x inside header
    obtain ⟨before, c, behind, shape, rfl⟩ := mem_starts.mp listed
    have inner : x ∈ Set.Ico (heapBase + span front + 24) (heapBase + span front + 24 + given) :=
      Set.Ico_subset_Ico_right (by omega) inside
    refine inUse_not_header member inner ?_
    rw [shape]
    exact headerSpan_subset header
  · exact (inv.held_apart fits.1 held).mono_left (Set.Ico_subset_Ico_right (by omega))
  · rw [heap.size_at member]
    omega

/--
A pointer from `kmalloc` covers its request exactly when the size does not wrap on rounding.

The last fifteen sizes round to zero, and then any free block is taken for them.
-/
theorem kmalloc_covers_iff {start : Kernel} {state : HeapState} {size : Nat}
    (run : Relation.ReflTransGen HeapStep (HeapState.initial start) state) (positive : 0 < size)
    (bound : size < 2 ^ 64) :
    (∀ fuel kernel p, kmalloc fuel state.kernel size = some (kernel, p) → p ≠ 0 →
      CoversRequest state size kernel p) ↔
    size ≤ 2 ^ 64 - 16 ∨ NoFreeBlock state.kernel := by
  obtain ⟨blocks, inv⟩ := heapInv_reachable run
  rw [inv.heap.noFreeBlock_iff]
  constructor
  · intro covers
    rcases Nat.lt_or_ge (2 ^ 64 - 16) size with wraps | fine
    · -- A free block would be handed out, and no block of the heap is that large.
      refine .inr fun b member => ?_
      by_contra raised
      have zero := alignSize_wraps wraps bound
      rcases kmalloc_spec inv.heap (Nat.lt_succ_self _) (show size ≠ 0 by omega) with
        ⟨misses, -⟩ | ⟨front, c, back, rfl, -, fits, result⟩
      · exact misses b member ⟨by simpa using raised, by omega⟩
      · have place := (takeBlock_spec inv.heap fits (by omega)).2.1
        have nonnull :
            (takeBlock state.kernel (heapBase + span front) (alignSize size)).2 ≠ 0 := by
          rw [place]
          omega
        have served := covers _ _ _ result nonnull
        have := served.inside.2
        rw [heapBase_eq, heapSize_eq] at this
        omega
    · exact .inl fine
  · -- In the other direction, a pointer is returned only for a block that fits.
    intro condition fuel kernel p call nonnull
    rcases kmalloc_cases inv.heap call with
      ⟨-, null, -⟩ | ⟨front, b, back, rfl, -, -, fits, result⟩
    · exact absurd null nonnull
    · have even := alignSize_mod size
      rcases condition with small | busy
      · have served := takeBlock_covers inv fits (by omega) (alignSize_ge small).1
        rw [← result] at served
        exact served
      · -- Nothing is free, so no block can have been taken.
        have taken : b.free = false := busy b (by simp)
        exact absurd fits.1 (by simp [taken])

end Requests

/-- On the fresh heap a hundred bytes are covered. -/
theorem kmalloc_covers_iff_fresh :
    (∀ fuel kernel p,
      kmalloc fuel (HeapState.initial (Kernel.zeroed (fun _ => 0) 0x1000)).kernel 100 =
        some (kernel, p) → p ≠ 0 →
      CoversRequest (HeapState.initial (Kernel.zeroed (fun _ => 0) 0x1000)) 100 kernel p) ↔
    100 ≤ 2 ^ 64 - 16 ∨
      NoFreeBlock (HeapState.initial (Kernel.zeroed (fun _ => 0) 0x1000)).kernel :=
  kmalloc_covers_iff .refl (by decide) (by decide)

/-- On the fresh heap the largest request gets a pointer to a block of no bytes. -/
theorem kmalloc_largest_gets_nothing :
    let state := HeapState.initial (Kernel.zeroed (fun _ => 0) 0x1000)
    let taken := takeBlock state.kernel heapBase 0
    kmalloc 2 state.kernel (2 ^ 64 - 1) = some taken ∧ taken.2 = 0x180018 ∧
      blockSize taken.1.mem 0x180000 = 0 ∧
      ¬ CoversRequest state (2 ^ 64 - 1) taken.1 taken.2 := by
  -- `align_size` wraps to 0, and a block of no bytes is split off.
  refine ⟨?_, by decide, by decide, fun served => ?_⟩
  · exact kmalloc_fresh (Kernel.zeroed (fun _ => 0) 0x1000) (by decide) (by decide)
  · have := served.inside.2
    rw [heapBase_eq, heapSize_eq] at this
    omega

end IncroOS
