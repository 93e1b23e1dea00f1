import IncroOS.Proofs.Kernel.Coexist
import IncroOS.Proofs.Kmalloc.Undo
import IncroOS.Proofs.Pmm.History

/-! The memory modules as `kMain` brings them up, and what its tests of them leave behind. -/

namespace IncroOS

open Lib

section Memory

variable {kernel kernel' : Kernel} {held held' : Finset Nat} {live : Prop}

/-- The memory modules with no page taken, and with some allocations held on the heap. -/
structure MemoryUp (held : Finset Nat) (kernel : Kernel) : Prop where
  cr3 : kernel.cr3 = bootCr3
  untouched : PagesUntouched kernel
  used : kernel.usedPages = 416
  heap : ∃ blocks, HeapCounted ⟨kernel, held⟩ blocks

theorem kmallocInit_cr3 (kernel : Kernel) : (kmallocInit kernel).cr3 = kernel.cr3 := rfl

/-- `pmm_init` on the tables of the loader marks the pages below 384. -/
theorem pmmInit_untouched (zeroed : kernel = Kernel.zeroed kernel.mem bootCr3)
    (entries : BootEntries kernel.mem) :
    PagesUntouched (vmmInit (pmmInit kernel totalMemory)) ∧
      (pmmInit kernel totalMemory).usedPages = 416 ∧
      (pmmInit kernel totalMemory).cr3 = bootCr3 ∧
      (pmmInit kernel totalMemory).totalAllocated = 0 ∧
      Mem.ChangesOnly kernel.mem (pmmInit kernel totalMemory).mem (Set.Ico 0x140000 0x160000) := by
  have large : 0x180000 ≤ totalMemory := by decide
  have bound : totalMemory < 2 ^ 64 := by decide
  have frame := pmmInit_frame large bound kernel
  have counted := pmmInit_usedPages large bound (congrArg Kernel.usedPages zeroed)
  have bits := fun page below => @pmmInit_bits totalMemory large bound kernel page below
  rw [totalMemory_pages] at frame counted bits
  -- From here on only what was said of the call counts.
  generalize pmmInit kernel totalMemory = started at frame counted bits ⊢
  have cr3 : started.cr3 = bootCr3 := frame.cr3.trans (congrArg Kernel.cr3 zeroed)
  -- All that is written is the bitmap, which ends below 0x160000.
  have last : bitmapAddress + (2 ^ 20 + 7) / 8 = 0x160000 := by decide
  have place : bitmapAddress = 0x140000 := rfl
  have changes := frame.mem
  simp only [bitmapSpan, placeBitmap, last] at changes
  rw [place] at changes
  have address : started.pageBitmap = bitmapAddress := frame.pageBitmap
  have total : started.totalPages = 1048576 := by
    exact frame.totalPages
  have used : started.usedPages = 416 := by
    rw [counted]
    decide
  have allocated : kernel.totalAllocated = 0 := by
    rw [zeroed]
    rfl
  have fresh : started.totalAllocated = 0 := frame.totalAllocated.trans allocated
  have linked : BootEntries started.mem := by
    refine entries.congr changes ?_
    rw [Set.disjoint_left]
    intro x low high
    simp only [Set.mem_Ico] at low high
    omega
  have marks : ∀ page < 1048576, isPageAllocated (vmmInit started) page =
      decide (page < 384) := by
    intro page below
    -- The bitmap's own pages lie among those of the kernel.
    have reserved : initiallyReserved (2 ^ 20) page ↔ page < 384 := by
      rw [initiallyReserved, bitmapPages_eq (by decide)]
      simp only [reservedLow_eq, kernelPages_eq, bitmapStartPage_eq]
      omega
    rw [vmmInit, isPageAllocated_withPml4, bits page (by omega), decide_eq_decide]
    exact reserved
  have untouched : PagesUntouched (vmmInit started) := by
    refine ⟨linked, ?_, ?_, ?_, fun page below => marks page (by omega)⟩
    · rw [vmmInit, Kernel.withPml4_pml4, cr3]
    · rw [vmmInit, Kernel.withPml4_pageBitmap, address]
    · rw [vmmInit, Kernel.withPml4_totalPages]
      omega
  exact ⟨untouched, used, cr3, fresh, changes⟩

/-- `kmalloc_init` brings the heap up beside the pages. -/
theorem memoryUp_initial (zeroed : kernel = Kernel.zeroed kernel.mem bootCr3)
    (entries : BootEntries kernel.mem) :
    MemoryUp ∅ (kmallocInit (vmmInit (pmmInit kernel totalMemory))) := by
  -- Neither `vmm_init` nor `kmalloc_init` takes a page; the first header is all they write.
  obtain ⟨untouched, used, cr3, fresh, -⟩ := pmmInit_untouched zeroed entries
  generalize pmmInit kernel totalMemory = started at untouched used cr3 fresh ⊢
  have above : headerSpan heapBase ⊆ Set.Ici 0x160000 := by
    intro x member
    simp only [headerSpan, heapBase_eq, Set.mem_Ico, Set.mem_Ici] at member ⊢
    omega
  rw [← Kernel.withPml4_usedPages started started.cr3] at used
  rw [← Kernel.withPml4_totalAllocated started started.cr3] at fresh
  rw [← Kernel.withPml4_cr3 started started.cr3] at cr3
  rw [vmmInit] at untouched ⊢
  generalize started.withPml4 started.cr3 = taken at untouched used cr3 fresh ⊢
  have changes := (kmallocInit_changes taken).mono above
  have counted : (kmallocInit taken).usedPages = taken.usedPages := rfl
  refine ⟨?_, untouched.frame (kmallocInit_layout taken) changes, ?_, _, heapCounted_initial fresh⟩
  · rw [kmallocInit_cr3, cr3]
  · rw [counted, used]

/-- What is drawn on the screen spares the pages and the tables. -/
theorem PagesUntouched.after_screen (untouched : PagesUntouched kernel) {mem : Mem}
    (changes : Mem.ChangesOnly kernel.mem mem screenSpan) : PagesUntouched (kernel.withMem mem) := by
  have place : bitmapAddress = 0x140000 := rfl
  refine ⟨untouched.entries.congr changes ?_, untouched.pml4, untouched.pageBitmap,
    untouched.totalPages, fun page below => ?_⟩
  · rw [Set.disjoint_left]
    intro x low shown
    rw [Set.mem_Ico] at low
    rw [mem_screenSpan] at shown
    omega
  · -- The marks lie behind the screen.
    have byte : mem (bitmapAddress + page / 8) = kernel.mem (bitmapAddress + page / 8) := by
      refine changes _ fun shown => ?_
      rw [mem_screenSpan, place] at shown
      omega
    rw [← untouched.marks page below, isPageAllocated_eq, isPageAllocated_eq, bitAt, bitAt,
      Kernel.withMem_pageBitmap, untouched.pageBitmap, Kernel.withMem_mem, byte]

/-- The memory modules survive what is written to the screen. -/
theorem MemoryUp.after_screen (up : MemoryUp held kernel) {mem : Mem}
    (changes : Mem.ChangesOnly kernel.mem mem screenSpan) : MemoryUp held (kernel.withMem mem) := by
  -- The pages are spared, as the screen is below them, and so is the heap.
  obtain ⟨blocks, heap⟩ := up.heap
  refine ⟨up.cr3, up.untouched.after_screen changes, up.used, blocks,
    heap.inv.congr rfl changes ?_, heap.total⟩
  rw [Set.disjoint_left]
  intro x inside shown
  rw [mem_heapSpan] at inside
  rw [mem_screenSpan] at shown
  omega

/-- A call to the heap is the heap's alone. -/
theorem MemoryUp.after_heap (up : MemoryUp held kernel) {blocks : List Block}
    (same : SameStatics kernel kernel') (used : kernel'.usedPages = kernel.usedPages)
    (changes : Mem.ChangesOnly kernel.mem kernel'.mem heapSpan)
    (heap : HeapCounted ⟨kernel', held'⟩ blocks) : MemoryUp held' kernel' := by
  -- The heap lies above every byte that the page allocator and the tables are read from.
  have layout : SameLayout kernel kernel' := ⟨same.pml4, same.pageBitmap, same.totalPages⟩
  exact ⟨same.cr3.trans up.cr3, up.untouched.frame layout (changes.mono heapSpan_above),
    used.trans up.used, blocks, heap⟩

/-- With nothing held the heap is one free block. -/
theorem MemoryUp.heap_free (up : MemoryUp ∅ kernel) :
    HeapCounted ⟨kernel, ∅⟩ [⟨heapSize - blockHeaderSize, true⟩] := by
  -- A list with no used block, and with free neighbours joined, is one block.
  obtain ⟨blocks, heap⟩ := up.heap
  obtain rfl := heap.inv.all_free rfl
  exact heap

/-- `kmalloc` ends on every heap. -/
theorem kmalloc_settles {blocks : List Block} {size : Nat} (heap : HeapRep kernel blocks) :
    Settles (fun fuel => kmalloc fuel kernel size) live
      (fun r => ∃ fuel, kmalloc fuel kernel size = some r) := by
  -- The list is finite, so fuel for one more turn than it has blocks is enough.
  refine Settles.of_unique (blocks.length + 1) (fun fuel enough => ?_)
    fun fuel more a b one two => kmalloc_unique one two
  by_cases zero : size = 0
  · rw [zero, kmalloc_zero]
    rfl
  · rcases kmalloc_spec heap enough zero with ⟨-, result⟩ | ⟨front, b, back, -, -, -, result⟩
    · rw [result]
      rfl
    · rw [result]
      rfl

/-- `kfree` ends for every pointer that is held. -/
theorem HeapInv.kfree_settles {blocks : List Block} {p : Nat}
    (inv : HeapInv ⟨kernel, held⟩ blocks) (mine : p ∈ held) :
    Settles (fun fuel => kfree fuel kernel p) live (fun r => ∃ fuel, kfree fuel kernel p = some r) := by
  -- The pointer is the start of a used block, and the list is finite.
  obtain ⟨n, member⟩ := (inv.live p).mp mine
  obtain ⟨front, b, back, rfl, used, rfl, rfl⟩ := (Block.mem_inUse 24).mp member
  refine Settles.of_unique ((front ++ b :: back).length + 1) (fun fuel enough => ?_)
    fun fuel more a b one two => kfree_unique one two
  obtain ⟨after, result, -⟩ := kfree_spec inv.heap used enough
  exact Option.isSome_iff_exists.mpr ⟨after, result⟩

/-- No call to the heap moves the count of pages. -/
theorem kmalloc_usedPages {fuel size p : Nat} (call : kmalloc fuel kernel size = some (kernel', p)) :
    kernel'.usedPages = kernel.usedPages := by
  -- Every branch of `kmalloc` returns the same count.
  unfold kmalloc at call
  split at call
  · obtain ⟨rfl, -⟩ := Prod.mk.inj (Option.some.inj call)
    rfl
  · obtain ⟨current, -, taken⟩ := Option.map_eq_some_iff.mp call
    split at taken
    · obtain ⟨rfl, -⟩ := Prod.mk.inj taken
      rfl
    · obtain ⟨rfl, -⟩ := Prod.mk.inj taken
      rfl

theorem kfree_usedPages {fuel p : Nat} (call : kfree fuel kernel p = some kernel') :
    kernel'.usedPages = kernel.usedPages := by
  -- Every branch of `kfree` returns the same count.
  unfold kfree at call
  split at call
  · obtain rfl := Option.some.inj call
    rfl
  · dsimp only at call
    split at call
    · obtain rfl := Option.some.inj call
      rfl
    · obtain ⟨current, -, rfl⟩ := Option.map_eq_some_iff.mp call
      rfl

/-- An allocation from the free heap succeeds where the request fits. -/
theorem MemoryUp.kmalloc (up : MemoryUp ∅ kernel) {size : Nat} (some : size ≠ 0)
    (room : alignSize size ≤ heapSize - blockHeaderSize) :
    Settles (fun fuel => kmalloc fuel kernel size) live (fun r => r.2 ≠ 0 ∧
      MemoryUp {r.2} r.1 ∧ Mem.ChangesOnly kernel.mem r.1.mem heapSpan) := by
  have counted := up.heap_free
  refine (kmalloc_settles counted.inv.heap).mono fun r ended => ?_
  obtain ⟨kernel', p⟩ := r
  obtain ⟨fuel, call⟩ := ended
  obtain ⟨-, changes⟩ := counted.inv.kmalloc_changes call
  rcases kmalloc_cases counted.inv.heap call with
    ⟨-, -, misses⟩ | ⟨front, b, back, split, -, -, fits, taken⟩
  · -- The heap is one block that the request fits into.
    exact absurd ⟨rfl, room⟩ (misses.resolve_left some _ List.mem_cons_self)
  · have even : alignSize size % 8 = 0 := by
      have := alignSize_mod size
      omega
    rw [split] at counted
    obtain ⟨-, pointer, -⟩ := takeBlock_spec counted.inv.heap fits even
    obtain rfl : p = heapBase + span front + 24 := (congrArg Prod.snd taken).trans pointer
    have after := counted.take fits even
    have carved : kernel' = _ := congrArg Prod.fst taken
    rw [← carved] at after
    exact ⟨by omega, up.after_heap (kmalloc_statics call) (kmalloc_usedPages call) changes after,
      changes⟩

/-- The release of the only allocation leaves nothing held. -/
theorem MemoryUp.kfree {p : Nat} (up : MemoryUp {p} kernel) :
    Settles (fun fuel => kfree fuel kernel p) live (fun r =>
      MemoryUp ∅ r ∧ Mem.ChangesOnly kernel.mem r.mem heapSpan) := by
  -- Once the only pointer is erased nothing is left in the set.
  obtain ⟨blocks, counted⟩ := up.heap
  have mine : p ∈ ({p} : Finset Nat) := Finset.mem_singleton_self p
  refine (counted.inv.kfree_settles mine).mono fun kernel' ended => ?_
  obtain ⟨fuel, call⟩ := ended
  have changes := counted.inv.kfree_changes mine call
  obtain ⟨front, b, back, rfl, used, rfl, heap, total, -⟩ := counted.inv.kfree_cases mine call
  have after := counted.release used heap total
  rw [Finset.erase_singleton] at after
  exact ⟨up.after_heap (kfree_statics call) (kfree_usedPages call) changes after, changes⟩

/-- The first page that is free is page 384, and giving it back undoes the call that took it. -/
theorem MemoryUp.alloc_free (up : MemoryUp held kernel) :
    (pmmAllocPage kernel).2 = heapBase ∧
      pmmFreePage (pmmAllocPage kernel).1 heapBase = kernel ∧
      Mem.ChangesOnly kernel.mem (pmmAllocPage kernel).1.mem (Set.Ico 0x140000 0x160000) := by
  have untouched := up.untouched
  have total := untouched.totalPages
  have used := up.used
  have page := untouched.alloc
  have null : isPageAllocated kernel 0 = true := untouched.marks 0 (by decide)
  have ready : PmmReady kernel := ⟨by omega, by omega, null⟩
  have nonzero : heapBase ≠ 0 := by decide
  -- The page is the only one that is held, and then none is.
  have taken := (HoldsSince.nothing ready).alloc ready
  rw [page, if_neg nonzero] at taken
  have returned := taken.free (Finset.mem_insert_self heapBase ∅)
  rw [Finset.erase_insert (Finset.notMem_empty heapBase)] at returned
  refine ⟨page, returned.unique (HoldsSince.nothing ready), ?_⟩
  have changes := taken.frame.mem
  have last : bitmapAddress + (2 ^ 20 + 7) / 8 = 0x160000 := by decide
  have place : bitmapAddress = 0x140000 := rfl
  simp only [bitmapSpan, untouched.pageBitmap, total, last] at changes
  rwa [place] at changes

/-- All of the free heap but its header is free. -/
theorem MemoryUp.getFree (up : MemoryUp ∅ kernel) :
    Settles (fun fuel => kmallocGetFree fuel kernel) live (fun free => free = 524264) := by
  -- The walk visits the one block, which is free: 524288 bytes less a header of 24.
  have counted := up.heap_free
  have linked := counted.inv.heap.linked
  have sum := freeWalk_starts counted.inv.heap.headers 0 (by simp)
  refine ⟨fun fuel free ends => ?_, fun _ => ⟨2, 524264, fun more enough => ?_⟩⟩
  · rw [walkFold_visits linked ends, sum]
    rfl
  · rw [kmallocGetFree, walkFold_of_linked 0 linked enough, sum]
    rfl

end Memory

end IncroOS
