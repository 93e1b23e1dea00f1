import IncroOS.Proofs.Kmalloc.Shape

/-! How the pointers from `kmalloc` are aligned: always to eight bytes, to sixteen by parity. -/

namespace IncroOS

open Lib

/-- The blocks that the search of `kmalloc` passes over before the first one that fits. -/
def passedOver (kernel : Kernel) (nodes : List Nat) (need : Nat) : List Nat :=
  nodes.takeWhile fun block =>
    !(blockIsFree kernel.mem block && decide (blockSize kernel.mem block ≥ need))

/-- Those of the listed blocks whose size is a multiple of sixteen, each of them with its header odd. -/
def sixteenSized (kernel : Kernel) (nodes : List Nat) : Nat :=
  nodes.countP fun block => blockSize kernel.mem block % 16 == 0

section Alignment

variable {kernel : Kernel} {mem : Mem} {limit a need : Nat} {front back blocks : List Block}
  {b : Block}

/-- A block takes an odd number of eight-byte units when its size is a multiple of sixteen. -/
theorem span_mod_sixteen (headers : Headers mem limit a blocks)
    (aligned : ∀ c ∈ blocks, c.size % 8 = 0) :
    span blocks % 16 =
      8 * (starts a blocks).countP (fun block => blockSize mem block % 16 == 0) % 16 := by
  -- The induction adds one block, of one parity or the other.
  induction blocks generalizing a with
  | nil => rfl
  | cons c rest ih =>
    have first := aligned c (by simp)
    have others := ih headers.2 fun d member => aligned d (by simp [member])
    rw [span_cons, starts, List.countP_cons, headers.1.size]
    by_cases sixteen : c.size % 16 = 0
    · simp only [sixteen, beq_self_eq_true, if_true]
      omega
    · simp only [beq_iff_eq, sixteen, if_false]
      omega

/-- What the search passes over is what lies before the first block that fits. -/
theorem passedOver_starts (headers : Headers kernel.mem limit a (front ++ b :: back))
    (misses : ∀ c ∈ front, ¬ Block.Fits need c) (fits : Block.Fits need b) :
    passedOver kernel (starts a (front ++ b :: back)) need = starts a front := by
  have before : ∀ x ∈ starts a front,
      (!(blockIsFree kernel.mem x && decide (blockSize kernel.mem x ≥ need))) = true := by
    intro x member
    obtain ⟨init, c, rest, rfl, rfl⟩ := mem_starts.mp member
    have here : Headers kernel.mem limit a (init ++ c :: (rest ++ b :: back)) := by
      simpa using headers
    have short := misses c (by simp)
    rw [here.at.free, here.at.size]
    -- A block that does not fit is in use or too small.
    cases raised : c.free with
    | false => rfl
    | true =>
      have small : ¬ need ≤ c.size := fun enough => short ⟨raised, enough⟩
      simp [small]
  have header := headers.at
  rw [passedOver, starts_append, List.takeWhile_append_of_pos before]
  -- The search stops at the block that fits.
  simp [starts, header.free, header.size, fits.1, fits.2]

end Alignment

/--
Every pointer from `kmalloc` is a multiple of eight, and of sixteen only by parity.

The blocks passed over whose sizes are multiples of sixteen must be odd in number.
-/
theorem kmalloc_aligned_iff {start : Kernel} {state : HeapState}
    (run : Relation.ReflTransGen HeapStep (HeapState.initial start) state) :
    ∃ nodes, Linked (blockNext state.kernel.mem) state.kernel.heapStart nodes ∧
      ∀ fuel size after p, kmalloc fuel state.kernel size = some (after, p) → p ≠ 0 →
        p % 8 = 0 ∧
        (p % 16 = 0 ↔
          sixteenSized state.kernel (passedOver state.kernel nodes (alignSize size)) % 2 = 1) := by
  obtain ⟨blocks, inv⟩ := heapInv_reachable run
  refine ⟨_, inv.heap.linked, fun fuel size after p call nonnull => ?_⟩
  rcases kmalloc_cases inv.heap call with
    ⟨-, null, -⟩ | ⟨front, b, back, rfl, -, misses, fits, result⟩
  · exact absurd null nonnull
  · have even := alignSize_mod size
    have pointer : p = heapBase + span front + 24 :=
      (congrArg Prod.snd result).trans (takeBlock_spec inv.heap fits (by omega)).2.1
    -- The address behind the blocks passed over has the parity of their units.
    have sizes := inv.heap.aligned
    have parity := span_mod_sixteen (headers_append.mp inv.heap.headers).1
      fun c member => sizes c (by simp [member])
    rw [passedOver_starts inv.heap.headers misses fits, sixteenSized, pointer]
    generalize (starts heapBase front).countP _ = count at parity ⊢
    rw [heapBase_eq]
    omega

/-- Behind three blocks of such sizes, one of them free, a pointer is a multiple of sixteen. -/
theorem kmalloc_aligned_iff_fragmented :
    ∃ state nodes after, HeapInv state fragmentedBlocks ∧
      Linked (blockNext state.kernel.mem) state.kernel.heapStart nodes ∧
      kmalloc 21846 state.kernel 300 = some (after, 0x1802D0) ∧
      sixteenSized state.kernel (passedOver state.kernel nodes 304) % 2 = 1 := by
  -- All three blocks that are passed over have sizes that are multiples of sixteen.
  obtain ⟨state, run, inv⟩ := fragmented_reachable (Kernel.zeroed (fun _ => 0) 0x1000)
  obtain ⟨nodes, linked, aligned⟩ := kmalloc_aligned_iff run
  obtain ⟨after, call, -⟩ := @HeapInv.kmalloc_first _ [⟨112, false⟩, ⟨208, true⟩, ⟨304, false⟩] []
    ⟨523568, true⟩ 300 21846 inv (by decide) (by decide) (by decide) (by decide)
  have odd := (aligned 21846 300 after _ call (by decide)).2.mp (by decide)
  exact ⟨state, nodes, after, inv, linked, call, odd⟩

/-- The first pointer that the fresh heap gives out is eight bytes off. -/
theorem kmalloc_first_pointer_misaligned :
    ∃ state after p,
      Relation.ReflTransGen HeapStep (HeapState.initial (Kernel.zeroed (fun _ => 0) 0x1000)) state ∧
      kmalloc 2 state.kernel 1 = some (after, p) ∧ p = 0x180018 ∧ p % 16 = 8 := by
  have call := kmalloc_fresh (Kernel.zeroed (fun _ => 0) 0x1000) (show 1 ≠ 0 by decide) (by decide)
  exact ⟨_, _, _, .refl, call, rfl, rfl⟩

end IncroOS
