import IncroOS.Kernel.System
import IncroOS.Proofs.Kmalloc.Requests
import IncroOS.Proofs.Vmm.Boot

/-! The first free page is the first page of the heap, so the first allocation overlaps it. -/

namespace IncroOS

open Lib

/-- The bytes of the heap. -/
def heapSpan : Set Nat := Set.Ico heapBase (heapBase + heapSize)

/-- A page is disjoint from the heap, and clearing it as a page table spares all of the heap. -/
structure KeepsOffHeap (a : Nat) : Prop where
  apart : Disjoint (pageSpan a) heapSpan
  cleared : ∀ kernel : Kernel, ∀ x ∈ heapSpan,
    (forLoop (clearPte a) 0 512 kernel).mem x = kernel.mem x

/-- A call that needs a page: an allocation, or a mapping outside the loader's identity map. -/
def SystemCall.takesPages : SystemCall → Bool
  | .allocPage => true
  | .mapPage virt _ _ => decide (OutsideBoot virt.toNat)
  | .freePage _ | .kmalloc _ | .kfree _ => false

/-- The page allocator and the tables as they are before any page is taken. -/
structure PagesUntouched (kernel : Kernel) : Prop where
  entries : BootEntries kernel.mem
  pml4 : kernel.pml4 = bootCr3
  pageBitmap : kernel.pageBitmap = bitmapAddress
  totalPages : kernel.totalPages = 2 ^ 20
  marks : ∀ page < 2 ^ 20, isPageAllocated kernel page = decide (page < 384)

/-- What holds while no page has been taken yet: the first free page is still page 384. -/
structure Untouched (state : SystemState) : Prop where
  pages : PagesUntouched state.kernel
  owned : state.owned = ∅
  heap : ∃ blocks, HeapInv ⟨state.kernel, state.live⟩ blocks

/-- The statics of the page allocator and of the page tables. -/
structure SameLayout (kernel kernel' : Kernel) : Prop where
  pml4 : kernel'.pml4 = kernel.pml4
  pageBitmap : kernel'.pageBitmap = kernel.pageBitmap
  totalPages : kernel'.totalPages = kernel.totalPages

section Frame

variable {kernel kernel' : Kernel} {region : Set Nat}

/-- The heap survives every change apart from its bytes. -/
theorem HeapInv.congr {live : Finset Nat} {blocks : List Block}
    (inv : HeapInv ⟨kernel, live⟩ blocks) (start : kernel'.heapStart = kernel.heapStart)
    (changes : Mem.ChangesOnly kernel.mem kernel'.mem region) (apart : Disjoint heapSpan region) :
    HeapInv ⟨kernel', live⟩ blocks := by
  have heap := inv.heap
  refine ⟨⟨start.trans heap.start, ?_, heap.covers, heap.coalesced, heap.aligned⟩, inv.live⟩
  -- Only the headers are read, and they lie within the heap.
  refine heap.headers.congr fun x inside => changes x (Set.disjoint_left.mp apart ?_)
  have bounds := inside.bounds
  rw [heap.covers] at bounds
  exact bounds

/-- What the page allocator and the tables rest on survives every change above the bitmap. -/
theorem PagesUntouched.frame (untouched : PagesUntouched kernel)
    (layout : SameLayout kernel kernel')
    (changes : Mem.ChangesOnly kernel.mem kernel'.mem (Set.Ici 0x160000)) :
    PagesUntouched kernel' := by
  have place : bitmapAddress = 0x140000 := rfl
  refine ⟨untouched.entries.congr changes ?_, layout.pml4.trans untouched.pml4,
    layout.pageBitmap.trans untouched.pageBitmap,
    layout.totalPages.trans untouched.totalPages, ?_⟩
  · rw [Set.disjoint_left]
    intro x low high
    simp only [Set.mem_Ico, Set.mem_Ici] at low high
    omega
  · intro page below
    -- The bitmap's bytes end where the change begins.
    have byte : kernel'.mem (bitmapAddress + page / 8) = kernel.mem (bitmapAddress + page / 8) := by
      refine changes _ ?_
      rw [Set.mem_Ici, place]
      omega
    rw [← untouched.marks page below, isPageAllocated_eq, isPageAllocated_eq, bitAt, bitAt,
      layout.pageBitmap, untouched.pageBitmap, byte]

end Frame

section Heap

variable {kernel kernel' : Kernel} {live : Finset Nat} {blocks : List Block} {fuel p : Nat}

/-- An allocation from the heap writes only to the heap. -/
theorem HeapInv.kmalloc_changes {size : Nat} (inv : HeapInv ⟨kernel, live⟩ blocks)
    (call : kmalloc fuel kernel size = some (kernel', p)) :
    SameLayout kernel kernel' ∧ Mem.ChangesOnly kernel.mem kernel'.mem heapSpan := by
  rcases kmalloc_taken inv.heap call with
    ⟨rfl, -⟩ | ⟨front, b, back, rfl, fits, even, rfl, -⟩
  · exact ⟨⟨rfl, rfl, rfl⟩, Mem.ChangesOnly.refl _ _⟩
  · obtain ⟨-, -, changes⟩ := takeBlock_spec inv.heap fits even
    have bounds := inv.heap.block_bounds
    -- The block that is carved lies within the heap.
    refine ⟨⟨rfl, rfl, rfl⟩, changes.mono ?_⟩
    refine Set.Ico_subset_Ico (by omega) ?_
    have limit : heapLimit = heapBase + heapSize := rfl
    omega

/-- A release to the heap keeps the other modules' statics. -/
theorem kfree_layout (call : kfree fuel kernel p = some kernel') : SameLayout kernel kernel' := by
  -- Every branch of `kfree` returns the same statics.
  unfold kfree at call
  split at call
  · rw [← Option.some.inj call]
    exact ⟨rfl, rfl, rfl⟩
  · dsimp only at call
    split at call
    · rw [← Option.some.inj call]
      exact ⟨rfl, rfl, rfl⟩
    · obtain ⟨current, -, rfl⟩ := Option.map_eq_some_iff.mp call
      exact ⟨rfl, rfl, rfl⟩

/-- A release to the heap writes only to the heap. -/
theorem HeapInv.kfree_changes (inv : HeapInv ⟨kernel, live⟩ blocks) (held : p ∈ live)
    (call : kfree fuel kernel p = some kernel') :
    Mem.ChangesOnly kernel.mem kernel'.mem heapSpan := by
  -- The headers that are written lie within the span of the blocks.
  obtain ⟨-, -, -, -, -, -, -, -, changes⟩ := inv.kfree_cases held call
  refine changes.mono fun x inside => ?_
  have bounds := InHeader.bounds inside
  rw [inv.heap.covers] at bounds
  exact bounds

end Heap

/-- The heap lies above the bitmap. -/
theorem heapSpan_above : heapSpan ⊆ Set.Ici 0x160000 := by
  -- The heap starts at 0x180000.
  intro x member
  simp only [heapSpan, heapBase_eq, Set.mem_Ico, Set.mem_Ici] at member ⊢
  omega

section Start

/-- Of 4 GiB exactly the pages below 384 are marked at the start. -/
theorem initPaging_marks (mem : Mem) {page : Nat} (below : page < 2 ^ 20) :
    isPageAllocated (initPaging mem) page = decide (page < 384) := by
  have inside : page < totalMemory / pageSize := by
    rw [totalMemory_pages]
    exact below
  have marks := pmmInit_bits (show 0x180000 ≤ totalMemory by decide)
    (show totalMemory < 2 ^ 64 by decide) (Kernel.zeroed (buildPageTables mem) bootCr3) inside
  -- The bitmap's own pages lie in the kernel area.
  have pages : bitmapPages (2 ^ 20) = 32 := by decide
  have same : initiallyReserved (totalMemory / pageSize) page ↔ page < 384 := by
    rw [totalMemory_pages, initiallyReserved, pages, reservedLow_eq, kernelPages_eq,
      bitmapStartPage_eq]
    omega
  rw [initPaging_eq, isPageAllocated_withPml4, marks]
  exact decide_eq_decide.mpr same

/-- Initialising the heap writes one header. -/
theorem kmallocInit_changes (kernel : Kernel) :
    Mem.ChangesOnly kernel.mem (kmallocInit kernel).mem (headerSpan heapBase) :=
  ((setSize_changes kernel.mem heapBase _).trans (setIsFree_changes _ heapBase true)).trans
    (setNext_changes _ heapBase 0)

theorem kmallocInit_layout (kernel : Kernel) : SameLayout kernel (kmallocInit kernel) :=
  ⟨rfl, rfl, rfl⟩

/-- Nothing has been taken when `kMain` has initialised the three modules. -/
theorem untouched_initial (mem : Mem) : Untouched (SystemState.initial mem) := by
  have inv := vmmInv_initPaging mem
  have paging : PagesUntouched (initPaging mem) :=
    ⟨initPaging_entries mem, inv.pml4, inv.pageBitmap, inv.totalPages,
      fun page below => initPaging_marks mem below⟩
  -- `kmalloc_init` writes the first header, which lies above the bitmap.
  have above : headerSpan heapBase ⊆ Set.Ici 0x160000 := by
    intro x member
    simp only [headerSpan, heapBase_eq, Set.mem_Ico, Set.mem_Ici] at member ⊢
    omega
  have changes := (kmallocInit_changes (initPaging mem)).mono above
  exact ⟨paging.frame (kmallocInit_layout (initPaging mem)) changes, rfl,
    _, heapInv_initial (initPaging mem)⟩

end Start

/-- The large pages that entries other than the first one map lie above 2 MiB. -/
theorem pageSpan_above {index : Nat} (above : index ≠ 0) :
    pageSpan (index * 0x200000) ⊆ Set.Ici 0x200000 := by
  -- Every entry but the first maps 2 MiB from a multiple of 2 MiB on.
  intro x member
  simp only [pageSpan, Set.mem_Ico, Set.mem_Ici] at member ⊢
  omega

/-- Replacing the memory keeps the statics. -/
theorem Kernel.withMem_layout (kernel : Kernel) (mem : Mem) :
    SameLayout kernel (kernel.withMem mem) := ⟨rfl, rfl, rfl⟩

section FirstPage

variable {kernel : Kernel} {virt : Nat}

/-- The first page that is taken is the first page of the heap. -/
theorem PagesUntouched.alloc (untouched : PagesUntouched kernel) :
    (pmmAllocPage kernel).2 = heapBase := by
  -- A bitmap without a free page would mark page 384.
  have total := untouched.totalPages
  obtain ⟨full, -⟩ | ⟨page, below, free, least, result⟩ := pmmAllocPage_cases kernel
  · have marked := full 384 (by omega)
    rw [untouched.marks 384 (by decide)] at marked
    exact absurd marked (by decide)
  · -- Below page 384 everything is marked, and page 384 is not.
    rw [total] at below
    have high : ¬ page < 384 := by
      rw [untouched.marks page below] at free
      simpa using free
    have low : page ≤ 384 := by
      by_contra beyond
      have marked := least 384 (by omega)
      rw [untouched.marks 384 (by decide)] at marked
      exact absurd marked (by decide)
    have first : page = 384 := by omega
    rw [result, first]
    show u64 (384 * pageSize) = heapBase
    decide

/-- Where an entry is followed, no page is taken. -/
theorem getOrCreatePages_of_follow {kernel : Kernel} {table index next : Nat}
    (followed : follow kernel.mem index table = some next) :
    getOrCreatePages kernel table index = [] := by
  rw [getOrCreatePages, if_pos (follow_eq_some.mp followed).1]

/-- Inside the first GiB no call of `get_or_create_table` needs a page. -/
theorem PagesUntouched.pages_inside (untouched : PagesUntouched kernel)
    (inside : ¬ OutsideBoot virt) : vmmMapPages kernel virt = [] := by
  -- Each of the three entries is present, so no level is made.
  have path := untouched.entries.pageTree.bootPath
  obtain ⟨follow4, follow3, follow2⟩ := path.follows inside
  obtain ⟨first, second, -⟩ := getOrCreateTable_inside path inside
  have nonnull4 : 0x2000 ≠ 0 := by decide
  have nonnull3 : 0x3000 ≠ 0 := by decide
  simp only [vmmMapPages, untouched.pml4, first, second, if_neg nonnull4, if_neg nonnull3,
    getOrCreatePages_of_follow follow4, getOrCreatePages_of_follow follow3,
    getOrCreatePages_of_follow follow2, List.append_nil]

/-- Inside the first GiB a map call writes above the heap, if it writes at all. -/
theorem PagesUntouched.mapPage_inside {live : Finset Nat} {blocks : List Block}
    (untouched : PagesUntouched kernel) (inv : HeapInv ⟨kernel, live⟩ blocks)
    (inside : ¬ OutsideBoot virt) (phys flags : Nat) :
    PagesUntouched (vmmMapPage kernel virt phys flags).1 ∧
      HeapInv ⟨(vmmMapPage kernel virt phys flags).1, live⟩ blocks := by
  rw [vmmMapPage_inside untouched.entries.pageTree.bootPath untouched.pml4 inside]
  -- On the first 2 MiB the call is refused.
  by_cases low : pdIndex virt = 0
  · rw [if_pos low]
    exact ⟨untouched, inv⟩
  · -- The write goes to a large page above the heap.
    rw [if_neg low]
    have changes := (setPte_changes kernel.mem (pdIndex virt * 0x200000) (ptIndex virt)
      (leafEntry phys flags) (ptSlot virt).isLt).mono (pageSpan_above low)
    have apart : Disjoint heapSpan (Set.Ici 0x200000) := by
      rw [Set.disjoint_left]
      intro x member high
      simp only [heapSpan, heapBase_eq, heapSize_eq, Set.mem_Ico, Set.mem_Ici] at member high
      omega
    have above : Set.Ici 0x200000 ⊆ Set.Ici 0x160000 := Set.Ici_subset_Ici.mpr (by omega)
    exact ⟨untouched.frame (kernel.withMem_layout _) (changes.mono above),
      inv.congr (kernel.withMem_heapStart _) changes apart⟩

/-- A vacant entry takes the first page of the heap for its table. -/
theorem PagesUntouched.getOrCreatePages_vacant (untouched : PagesUntouched kernel)
    {parent index : Nat} (vacant : pte kernel.mem parent index = 0) :
    getOrCreatePages kernel parent index = [heapBase] := by
  -- Page 384 is the first one that is free, and the heap lies there.
  have absent : isPresent 0 = false := by decide
  have nonnull : heapBase ≠ 0 := by decide
  rw [getOrCreatePages, vacant, absent, untouched.alloc, if_neg (by decide), if_neg nonnull]

/-- Outside the first GiB the first map call takes the first page of the heap for a table. -/
theorem PagesUntouched.pages_outside (untouched : PagesUntouched kernel)
    (outside : OutsideBoot virt) : heapBase ∈ vmmMapPages kernel virt := by
  -- The entries of the loader decide at which level the first table is missing.
  have entries := untouched.entries
  have entry4 := entries.pml4 (pml4Index virt) (pml4Slot virt).isLt
  have entry3 := entries.pdpt (pdptIndex virt) (pdptSlot virt).isLt
  have root : bootCr3 = 0x1000 := rfl
  rw [vmmMapPages, untouched.pml4]
  by_cases shared : pml4Index virt = 0
  · -- The loader's link is followed, and the entry behind it is vacant.
    have other : pdptIndex virt ≠ 0 := outside.resolve_left (not_not.mpr shared)
    rw [if_pos shared, ← root] at entry4
    rw [if_neg other] at entry3
    have first :
        getOrCreateTable kernel bootCr3 (pml4Index virt) ptWritable = (kernel, 0x2000) := by
      rw [getOrCreateTable, entry4, if_pos (by decide)]
      rfl
    have nonnull : 0x2000 ≠ 0 := by decide
    simp only [first, if_neg nonnull, untouched.getOrCreatePages_vacant entry3]
    simp
  · -- The top-level entry itself is vacant.
    rw [if_neg shared, ← root] at entry4
    rw [untouched.getOrCreatePages_vacant entry4]
    simp

end FirstPage

section Runs

variable {state state' : SystemState} {call : SystemCall} {pages : List Nat}

/-- Calls that need no page take none, and leave the first free page where it is. -/
theorem Untouched.quiet (untouched : Untouched state) (step : SystemStep state call pages state')
    (quiet : call.takesPages = false) : pages = [] ∧ Untouched state' := by
  obtain ⟨blocks, inv⟩ := untouched.heap
  cases step with
  | allocPage result => exact absurd quiet (by decide)
  -- Nobody owns a page that could be freed.
  | freePage mine =>
    rw [untouched.owned] at mine
    exact absurd mine (Finset.notMem_empty _)
  | mapPage virt phys flags =>
    have inside : ¬ OutsideBoot virt.toNat := of_decide_eq_false quiet
    obtain ⟨pages, heap⟩ := untouched.pages.mapPage_inside inv inside phys.toNat flags.toNat
    exact ⟨untouched.pages.pages_inside inside, pages, untouched.owned, blocks, heap⟩
  -- A call to the heap writes within the heap only, away from the tables and the bitmap.
  | kmalloc result =>
    obtain ⟨layout, changes⟩ := inv.kmalloc_changes result
    exact ⟨rfl, untouched.pages.frame layout (changes.mono heapSpan_above), untouched.owned,
      inv.after_kmalloc result⟩
  | kfree mine result =>
    have changes := inv.kfree_changes mine result
    exact ⟨rfl, untouched.pages.frame (kfree_layout result) (changes.mono heapSpan_above),
      untouched.owned, inv.after_kfree (.inr mine) result⟩

/-- The first call that needs a page is given the first page of the heap. -/
theorem Untouched.takes (untouched : Untouched state) (step : SystemStep state call pages state')
    (takes : call.takesPages = true) : heapBase ∈ pages := by
  cases step with
  | @allocPage kernel page result =>
    have first : page = heapBase := by
      rw [← untouched.pages.alloc, result]
    have nonnull : page ≠ 0 := by
      rw [first]
      decide
    rw [if_neg nonnull, first]
    exact List.mem_singleton_self _
  -- Its first table is the first page that is taken.
  | mapPage virt phys flags => exact untouched.pages.pages_outside (of_decide_eq_true takes)
  | freePage mine => exact absurd takes Bool.false_ne_true
  | kmalloc result => exact absurd takes Bool.false_ne_true
  | kfree mine result => exact absurd takes Bool.false_ne_true

/-- A run takes no page at all, or is given the first page of the heap. -/
theorem Untouched.run {calls : List SystemCall} (untouched : Untouched state)
    (run : SystemRun state calls pages state') :
    (pages = [] ∧ ∀ call ∈ calls, call.takesPages = false) ∨
    (heapBase ∈ pages ∧ ∃ call ∈ calls, call.takesPages = true) := by
  -- By induction on the run, up to the first call that needs a page.
  induction run with
  | nil state => exact .inl ⟨rfl, by simp⟩
  | @cons first middle last call calls pages more step rest ih =>
    cases needs : call.takesPages with
    | true =>
      exact .inr ⟨List.mem_append_left more (untouched.takes step needs), call, by simp, needs⟩
    | false =>
      obtain ⟨rfl, next⟩ := untouched.quiet step needs
      rcases ih next with ⟨rfl, others⟩ | ⟨given, later, member, takes⟩
      · refine .inl ⟨rfl, fun other member => ?_⟩
        rcases List.mem_cons.mp member with rfl | behind
        · exact needs
        · exact others other behind
      · exact .inr ⟨given, later, List.mem_cons_of_mem call member, takes⟩

end Runs

/-- The first page of the heap is not off the heap. -/
theorem heapBase_overlaps : ¬ Disjoint (pageSpan heapBase) heapSpan := by
  rw [Set.not_disjoint_iff]
  exact ⟨heapBase, by simp [pageSpan, pageSize], by simp [heapSpan]⟩

/--
Pages and heap stay apart in exactly those runs that never need a page.

The first page that any run takes, for a client or for a page table, is the heap's first page.
-/
theorem pages_off_heap_iff {mem : Mem} {calls : List SystemCall} {pages : List Nat}
    {state : SystemState} (run : SystemRun (SystemState.initial mem) calls pages state) :
    (∀ a ∈ pages, KeepsOffHeap a) ↔ ∀ call ∈ calls, call.takesPages = false := by
  -- A run that takes a page takes the first page of the heap.
  rcases (untouched_initial mem).run run with ⟨rfl, quiet⟩ | ⟨given, call, member, takes⟩
  · exact iff_of_true (by simp) quiet
  · refine iff_of_false (fun apart => ?_) (fun quiet => ?_)
    · exact heapBase_overlaps (apart heapBase given).apart
    · exact absurd (takes.symm.trans (quiet call member)) (by decide)

/-- A run that maps one page of the identity map again never needs a page. -/
theorem pages_off_heap_iff_map_inside :
    ∃ pages state, SystemRun (SystemState.initial fun _ => 0)
      [.mapPage 0x400000 0x400000 2] pages state ∧ ∀ a ∈ pages, KeepsOffHeap a := by
  -- The virtual address lies in the first GiB, which the loader has mapped.
  have run := @SystemRun.cons (SystemState.initial fun _ => 0) _ _ _ _ _ _
    (.mapPage 0x400000 0x400000 2) (.nil _)
  refine ⟨_, _, run, (pages_off_heap_iff run).mpr fun call member => ?_⟩
  rw [List.mem_singleton.mp member]
  decide

/-- The first page that `pmm_alloc_page` returns under `kMain` is the heap's first page. -/
theorem first_page_overlaps_heap :
    (pmmAllocPage (initMemory fun _ => 0)).2 = 0x180000 ∧ ¬ KeepsOffHeap 0x180000 := by
  -- The marks of `pmm_init` end at page 384, where `kmalloc_init` puts the heap.
  have base : heapBase = 0x180000 := heapBase_eq
  have first := (untouched_initial fun _ => 0).pages.alloc
  rw [base] at first
  exact ⟨first, fun apart => heapBase_overlaps (base.symm ▸ apart.apart)⟩

end IncroOS
