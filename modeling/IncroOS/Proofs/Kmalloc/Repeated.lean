import IncroOS.Proofs.Kmalloc.Shape

/-! A second release of a pointer does nothing, as long as no memory is allocated in between. -/

namespace IncroOS

open Lib

/-- A release by a client, or a write of a client to memory it holds. -/
inductive QuietStep : HeapState → HeapState → Prop
  | kfree {state : HeapState} {kernel : Kernel} {fuel p : Nat} (held : p = 0 ∨ p ∈ state.live)
      (call : kfree fuel state.kernel p = some kernel) :
      QuietStep state ⟨kernel, state.live.erase p⟩
  | write {state : HeapState} {p x : Nat} (value : UInt8) (held : p ∈ state.live)
      (inside : x ∈ payload state.kernel.mem p) :
      QuietStep state ⟨state.kernel.withMem (state.kernel.mem.set x value), state.live⟩

/-- A header address that falls on the start of a block or clear of all the headers. -/
def OnGrid (blocks : List Block) (h : Nat) : Prop :=
  ∀ x ∈ starts heapBase blocks, h = x ∨ h + 24 ≤ x ∨ x + 24 ≤ h

/--
What remains of the header of a released block, on the list or left behind inside a free block.

Its flag is up, and neither another header nor a payload in use takes the byte of that flag.
-/
structure Stale (kernel : Kernel) (blocks : List Block) (h : Nat) : Prop where
  flag : blockIsFree kernel.mem h = true
  grid : OnGrid blocks h
  spared : ∀ q n, (q, n) ∈ Block.inUse 24 heapBase blocks → h + 8 ∉ Set.Ico q (q + n)

section Starts

variable {a x y : Nat} {front back blocks : List Block} {b : Block}

/-- Blocks of a list start at or behind the place where the list starts. -/
theorem le_of_mem_starts (member : x ∈ starts a blocks) : a ≤ x := by
  obtain ⟨front, b, back, -, rfl⟩ := mem_starts.mp member
  omega

/-- Two headers of one list are the same header or do not overlap. -/
theorem starts_apart (left : x ∈ starts a blocks) (right : y ∈ starts a blocks) :
    x = y ∨ x + 24 ≤ y ∨ y + 24 ≤ x := by
  -- The induction moves along the list until it meets the first of the two.
  induction blocks generalizing a with
  | nil => cases left
  | cons b rest ih =>
    rw [starts, List.mem_cons] at left right
    rcases left with rfl | left
    · rcases right with rfl | right
      · exact .inl rfl
      · have := le_of_mem_starts right
        omega
    · rcases right with rfl | right
      · have := le_of_mem_starts left
        omega
      · exact ih left right

/-- Joining two blocks drops the start of the second and moves no other. -/
theorem starts_push_subset : starts a (Block.push 24 b blocks) ⊆ starts a (b :: blocks) := by
  cases blocks with
  | nil => exact List.Subset.refl _
  | cons c rest =>
    simp only [Block.push]
    -- The blocks are joined when the second one is free.
    split
    · -- What follows the joined block starts where it did.
      have place : a + 24 + (b.size + 24 + c.size) = a + 24 + b.size + 24 + c.size := by omega
      intro y member
      simp only [starts, place, List.mem_cons] at member ⊢
      exact member.imp id .inr
    · exact List.Subset.refl _

theorem starts_coalesce_subset : starts a (Block.coalesce 24 blocks) ⊆ starts a blocks := by
  -- The induction coalesces the tail first and then pushes the head in front of it.
  induction blocks generalizing a with
  | nil => exact List.Subset.refl _
  | cons b rest ih =>
    refine List.Subset.trans starts_push_subset ?_
    exact List.cons_subset_cons a ih

/-- Releasing a block leaves it where it is. -/
theorem starts_released : starts a (front ++ b.released :: back) = starts a (front ++ b :: back) := by
  rw [starts_append, starts_append]
  rfl

/-- After a release no block starts where none did before. -/
theorem starts_release_subset :
    starts a (Block.coalesce 24 (front ++ b.released :: back)) ⊆ starts a (front ++ b :: back) := by
  rw [← starts_released]
  exact starts_coalesce_subset

end Starts

section Flags

variable (mem : Mem) {block current h value : Nat}

/-- Writing the size of a header leaves the flag of every header on the grid. -/
theorem blockIsFree_setSize_other (apart : h = block ∨ h + 24 ≤ block ∨ block + 24 ≤ h) :
    blockIsFree (setSize mem block value) h = blockIsFree mem h := by
  rcases apart with rfl | apart
  · exact blockIsFree_setSize mem h value
  · rw [blockIsFree, setSize, Mem.write_apart _ (by omega), blockIsFree]

/-- Writing the successor of a header leaves them as well. -/
theorem blockIsFree_setNext_other (apart : h = block ∨ h + 24 ≤ block ∨ block + 24 ≤ h) :
    blockIsFree (setNext mem block value) h = blockIsFree mem h := by
  rcases apart with rfl | apart
  · exact blockIsFree_setNext mem h value
  · rw [blockIsFree, setNext, Mem.write_apart _ (by omega), blockIsFree]

/-- Raising a flag lowers none. -/
theorem blockIsFree_raise (raised : blockIsFree mem h = true) :
    blockIsFree (setIsFree mem block true) h = true := by
  -- The flag that is written is either this one, or another byte.
  by_cases same : h + 8 = block + 8
  · have here : h = block := by omega
    rw [here]
    exact blockIsFree_setIsFree mem block true
  · rw [blockIsFree, setIsFree, Mem.set_other _ _ same]
    exact raised

/-- The first merge of `kfree` writes no flag. -/
theorem blockIsFree_mergeNext (apart : h = block ∨ h + 24 ≤ block ∨ block + 24 ≤ h) :
    blockIsFree (mergeNext mem block) h = blockIsFree mem h := by
  -- The merge writes a size and a link.
  unfold mergeNext
  dsimp only
  split
  · rw [blockIsFree_setNext_other _ apart, blockIsFree_setSize_other _ apart]
  · rfl

/-- Without a predecessor the second merge does nothing. -/
theorem mergeInto_null : mergeInto mem 0 block = mem := by
  simp [mergeInto]

/-- Nor does the second merge write any. -/
theorem blockIsFree_mergeInto (apart : h = current ∨ h + 24 ≤ current ∨ current + 24 ≤ h) :
    blockIsFree (mergeInto mem current block) h = blockIsFree mem h := by
  -- It too writes a size and a link.
  unfold mergeInto
  split
  · rw [blockIsFree_setNext_other _ apart, blockIsFree_setSize_other _ apart]
  · rfl

end Flags

section Release

variable {state : HeapState} {kernel kernel' : Kernel} {front back blocks : List Block} {b : Block}
  {fuel p h : Nat}

/-- A block of the list starts on the grid of its headers. -/
theorem onGrid_start : OnGrid (front ++ b :: back) (heapBase + span front) :=
  fun _ member => starts_apart (mem_starts.mpr ⟨front, b, back, rfl, rfl⟩) member

/-- The memory a release leaves: a raised flag, and a merge into each neighbour that was free. -/
theorem kfree_mem (heap : HeapRep kernel (front ++ b :: back)) (used : b.free = false)
    (call : kfree fuel kernel (heapBase + span front + 24) = some kernel') :
    ∃ current, (current = 0 ∨ current ∈ starts heapBase (front ++ b :: back)) ∧
      kernel'.mem = mergeInto (mergeNext (setIsFree kernel.mem (heapBase + span front) true)
        (heapBase + span front)) current (heapBase + span front) := by
  have ends := kfree_walk heap used (Nat.lt_succ_self _)
  dsimp only at ends
  generalize found : List.find? _ _ = result at ends
  have same := congrArg Kernel.mem (kfree_unique call ends)
  rw [Kernel.withTotalAllocated_mem, Kernel.withMem_mem] at same
  refine ⟨result.getD 0, ?_, same⟩
  -- The search for a predecessor found none, or a block of the list.
  cases result with
  | none => exact .inl rfl
  | some current =>
    have member := List.mem_of_find?_eq_some found
    rw [starts_append, List.mem_append] at member
    rw [← starts_released, starts_append, List.mem_append]
    exact .inr (member.imp id fun behind => starts_push_subset behind)

/-- A release raises the flag of its own block and keeps those that are up on the grid. -/
theorem kfree_flags (heap : HeapRep kernel (front ++ b :: back)) (used : b.free = false)
    (call : kfree fuel kernel (heapBase + span front + 24) = some kernel')
    (grid : OnGrid (front ++ b :: back) h)
    (raised : h = heapBase + span front ∨ blockIsFree kernel.mem h = true) :
    blockIsFree kernel'.mem h = true := by
  obtain ⟨current, place, result⟩ := kfree_mem heap used call
  -- The write of the flag comes first, and the two merges write sizes and links only.
  have up : blockIsFree (setIsFree kernel.mem (heapBase + span front) true) h = true := by
    rcases raised with rfl | already
    · exact blockIsFree_setIsFree kernel.mem _ true
    · exact blockIsFree_raise kernel.mem already
  have own := grid _ (mem_starts.mpr ⟨front, b, back, rfl, rfl⟩)
  rw [result]
  rcases place with rfl | listed
  · -- Without a predecessor there is no second merge.
    rw [mergeInto_null, blockIsFree_mergeNext _ own, up]
  · rw [blockIsFree_mergeInto _ (grid current listed), blockIsFree_mergeNext _ own, up]

/-- Releasing a block leaves its header stale. -/
theorem stale_of_release (heap : HeapRep kernel (front ++ b :: back)) (used : b.free = false)
    (call : kfree fuel kernel (heapBase + span front + 24) = some kernel') :
    Stale kernel' (Block.coalesce 24 (front ++ b.released :: back)) (heapBase + span front) where
  flag := kfree_flags heap used call onGrid_start (.inl rfl)
  grid := fun x member => onGrid_start x (starts_release_subset member)
  spared := fun q n member within => by
    -- The flag lies in a header, and no payload in use reaches into one.
    have old := Block.inUse_released_subset 24 used member
    refine inUse_not_header old within (headerSpan_subset ?_)
    simp only [headerSpan, Set.mem_Ico]
    omega

/-- A stale header stays stale when another block is released. -/
theorem Stale.release (stale : Stale kernel (front ++ b :: back) h)
    (heap : HeapRep kernel (front ++ b :: back)) (used : b.free = false)
    (call : kfree fuel kernel (heapBase + span front + 24) = some kernel') :
    Stale kernel' (Block.coalesce 24 (front ++ b.released :: back)) h where
  flag := kfree_flags heap used call stale.grid (.inr stale.flag)
  grid := fun x member => stale.grid x (starts_release_subset member)
  spared := fun q n member => stale.spared q n (Block.inUse_released_subset 24 used member)

/-- A client's write to memory it holds does not reach a stale header. -/
theorem Stale.write {x : Nat} (stale : Stale state.kernel blocks h) (inv : HeapInv state blocks)
    (value : UInt8) (held : p ∈ state.live) (inside : x ∈ payload state.kernel.mem p) :
    Stale (state.kernel.withMem (state.kernel.mem.set x value)) blocks h := by
  refine ⟨?_, stale.grid, stale.spared⟩
  obtain ⟨n, member⟩ := (inv.live p).mp held
  rw [payload, inv.heap.size_at member] at inside
  -- The flag's byte is in no payload.
  have other : h + 8 ≠ x := by
    rintro rfl
    exact stale.spared p n member inside
  rw [Kernel.withMem_mem, blockIsFree, Mem.set_other _ _ other]
  exact stale.flag

/-- Every step short of an allocation keeps the invariant and the stale header. -/
theorem Stale.step {state' : HeapState} (stale : Stale state.kernel blocks h)
    (inv : HeapInv state blocks) (step : QuietStep state state') :
    ∃ blocks', HeapInv state' blocks' ∧ Stale state'.kernel blocks' h := by
  cases step with
  | kfree held call =>
    rcases held with rfl | held
    · -- Freeing the null pointer does nothing.
      have same := kfree_unique call (kfree_null state.kernel 0)
      have absent : 0 ∉ state.live := fun member => inv.nonnull member rfl
      rw [same, Finset.erase_eq_of_notMem absent]
      exact ⟨blocks, inv, stale⟩
    · -- Another block's release joins blocks around the stale header.
      obtain ⟨front, b, back, rfl, used, rfl, heap, -, -⟩ := inv.kfree_cases held call
      exact ⟨_, inv.release used heap, stale.release inv.heap used call⟩
  | write value held inside =>
    exact ⟨blocks, inv.after_write value held inside, stale.write inv value held inside⟩

/-- Over a run without allocations a stale header stays stale. -/
theorem Stale.run {state' : HeapState} (stale : Stale state.kernel blocks h)
    (inv : HeapInv state blocks) (run : Relation.ReflTransGen QuietStep state state') :
    ∃ blocks', HeapInv state' blocks' ∧ Stale state'.kernel blocks' h := by
  -- The induction is on the length of the run.
  induction run with
  | refl => exact ⟨blocks, inv, stale⟩
  | tail _ step ih =>
    obtain ⟨_, before, kept⟩ := ih
    exact kept.step before step

/-- A raised flag in front of a pointer turns its release into nothing. -/
theorem kfree_of_raised (nonnull : p ≠ 0)
    (raised : blockIsFree kernel.mem (u64Sub p blockHeaderSize) = true) (fuel : Nat) :
    kfree fuel kernel p = some kernel := by
  rw [kfree, if_neg nonnull]
  dsimp only
  rw [if_pos raised]

end Release

/--
A second release of a pointer leaves the kernel exactly as it is.

Between the two, clients may release whatever else they hold and write to what they still hold.
-/
theorem kfree_again_harmless {start after : Kernel} {state later : HeapState} {fuel p : Nat}
    (run : Relation.ReflTransGen HeapStep (HeapState.initial start) state) (held : p ∈ state.live)
    (call : kfree fuel state.kernel p = some after)
    (quiet : Relation.ReflTransGen QuietStep ⟨after, state.live.erase p⟩ later) (again : Nat) :
    kfree again later.kernel p = some later.kernel := by
  obtain ⟨blocks, inv⟩ := heapInv_reachable run
  obtain ⟨front, b, back, rfl, used, rfl, heap, -, -⟩ := inv.kfree_cases held call
  obtain ⟨_, -, stale⟩ := (stale_of_release inv.heap used call).run (inv.release used heap) quiet
  -- The pointer leads back to the header whose flag is still up.
  have bounds := inv.heap.block_bounds
  have here : u64Sub (heapBase + span front + 24) blockHeaderSize = heapBase + span front := by
    simp only [heapLimit_eq] at bounds
    rw [blockHeaderSize_eq, u64Sub_of_le (by omega) (by omega), Nat.add_sub_cancel]
  refine kfree_of_raised (by omega) ?_ again
  rw [here]
  exact stale.flag

/-- A pointer is released again once the allocation behind it has been released as well. -/
theorem kfree_again_harmless_after_another :
    ∃ state first second, HeapInv state twoBlocks ∧
      kfree 21846 state.kernel 0x180018 = some first ∧ kfree 21846 first 0x1800A0 = some second ∧
      ∀ again, kfree again second 0x180018 = some second := by
  have enough : heapSize / blockHeaderSize < 21846 := by decide
  obtain ⟨state, run, inv⟩ := twoBlocks_reachable (Kernel.zeroed (fun _ => 0) 0x1000)
  obtain ⟨first, one, after, -⟩ := @HeapInv.kfree_block _ [] [⟨208, false⟩, ⟨523896, true⟩]
    ⟨112, false⟩ _ inv rfl enough
  obtain ⟨second, two, -⟩ := @HeapInv.kfree_block ⟨first, _⟩ [⟨112, true⟩] [⟨523896, true⟩]
    ⟨208, false⟩ _ after rfl enough
  have mine := (inv.live 0x180018).mpr ⟨112, by decide⟩
  have other := (after.live 0x1800A0).mpr ⟨208, by decide⟩
  -- The second release joins all blocks, and leaves the first header behind.
  have between := @QuietStep.kfree ⟨first, _⟩ _ _ _ (.inr other) two
  exact ⟨state, first, second, inv, one, two, kfree_again_harmless run mine one (.single between)⟩

end IncroOS
