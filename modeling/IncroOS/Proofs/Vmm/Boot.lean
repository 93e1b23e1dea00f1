import IncroOS.Kernel.Main
import IncroOS.Proofs.Boot.PageTables
import IncroOS.Proofs.Vmm.Calls

/-! The loader's identity map: where the invariant starts, and what calls inside it do. -/

namespace IncroOS

open Lib

section Tables

variable {mem : Mem}

/-- The loader's tables hold two links and the large pages of the identity map. -/
structure BootEntries (mem : Mem) : Prop where
  pml4 : ∀ k < 512, pte mem 0x1000 k = if k = 0 then 0x2003 else 0
  pdpt : ∀ k < 512, pte mem 0x2000 k = if k = 0 then 0x3003 else 0
  pd : ∀ k < 512, pte mem 0x3000 k = k * 0x200000 + 0x83

/-- The 2 MiB page of an entry of the page directory leaves the low 21 bits to the flags. -/
theorem bootPde_testBit (k : Nat) {i : Nat} (low : i < 21) :
    (k * 0x200000 + 0x83).testBit i = (0x83 : Nat).testBit i := by
  -- The page is a multiple of 2 MiB, so it has no bit below 21.
  have flags : (k * 0x200000 + 0x83) % 2 ^ 21 = 0x83 := by omega
  have cut := Nat.testBit_mod_two_pow (k * 0x200000 + 0x83) 21 i
  rw [flags, decide_eq_true low, Bool.true_and] at cut
  exact cut.symm

/-- An entry of the page directory is present and large, and holds its own 2 MiB page. -/
theorem bootPde_fields {k : Nat} (within : k < 512) :
    isPresent (k * 0x200000 + 0x83) = true ∧ (k * 0x200000 + 0x83).testBit 7 = true ∧
      (k * 0x200000 + 0x83) &&& ptAddrMask = k * 0x200000 := by
  -- Bits 0 and 7 are set in 0x83, and the mask leaves the page alone.
  refine ⟨(isPresent_eq _).trans (bootPde_testBit k (by decide)), bootPde_testBit k (by decide), ?_⟩
  rw [and_ptAddrMask]
  unfold frameOf
  omega

/-- It sets no reserved bit, neither the upper one nor one between its flags and its page. -/
theorem bootPde_legal {k : Nat} (within : k < 512) :
    isReserved (k * 0x200000 + 0x83) = false ∧ (k * 0x200000 + 0x83) / 2 ^ 13 % 2 ^ 8 = 0 := by
  refine ⟨Nat.testBit_lt_two_pow (by omega), ?_⟩
  omega

/-- The loader's three tables are the only ones. -/
theorem BootEntries.tableAt (entries : BootEntries mem) {path : List (Fin 512)} {t : Nat}
    (met : tableAt mem path = some t) :
    (path = [] ∧ t = 0x1000) ∨ (path = [0] ∧ t = 0x2000) ∨ (path = [0, 0] ∧ t = 0x3000) := by
  have link4 : ∀ i : Fin 512, linkOf (slot mem 0x1000 i) = if i = 0 then some 0x2000 else none := by
    intro i
    rw [slot, entries.pml4 i i.isLt]
    by_cases zero : i = 0
    · rw [zero]
      rfl
    · have other : (i : Nat) ≠ 0 := fun same => zero (Fin.ext same)
      rw [if_neg other, if_neg zero, linkOf_zero]
  have link3 : ∀ i : Fin 512, linkOf (slot mem 0x2000 i) = if i = 0 then some 0x3000 else none := by
    intro i
    rw [slot, entries.pdpt i i.isLt]
    by_cases zero : i = 0
    · rw [zero]
      rfl
    · have other : (i : Nat) ≠ 0 := fun same => zero (Fin.ext same)
      rw [if_neg other, if_neg zero, linkOf_zero]
  have link2 : ∀ i : Fin 512, linkOf (slot mem 0x3000 i) = none := by
    intro i
    rw [slot, entries.pd i i.isLt, linkOf, (bootPde_fields i.isLt).2.1]
    simp
  have root : bootCr3 = 0x1000 := rfl
  -- Every step but the two links ends the path.
  cases path with
  | nil => exact .inl ⟨rfl, (Option.some.inj met).symm⟩
  | cons i rest =>
    simp only [IncroOS.tableAt, Radix.descend, root, link4] at met
    by_cases zero : i = 0
    · rw [if_pos zero, Option.bind_some] at met
      cases rest with
      | nil => exact .inr (.inl ⟨by rw [zero], (Option.some.inj met).symm⟩)
      | cons j tail =>
        simp only [Radix.descend, link3] at met
        by_cases zero' : j = 0
        · rw [if_pos zero', Option.bind_some] at met
          cases tail with
          | nil => exact .inr (.inr ⟨by rw [zero, zero'], (Option.some.inj met).symm⟩)
          | cons k last =>
            simp only [Radix.descend, link2, Option.bind_none] at met
            exact absurd met (by simp)
        · rw [if_neg zero', Option.bind_none] at met
          exact absurd met (by simp)
    · rw [if_neg zero, Option.bind_none] at met
      exact absurd met (by simp)

/-- The entries of the three tables survive every change apart from their pages. -/
theorem pte_bootTables {mem' : Mem} {region : Set Nat} {table k : Nat}
    (changes : Mem.ChangesOnly mem mem' region) (apart : Disjoint (Set.Ico 0x1000 0x4000) region)
    (low : 0x1000 ≤ table) (high : table ≤ 0x3000) (within : k < 512) :
    pte mem' table k = pte mem table k := by
  -- The table is one of three pages, and the change is apart from all of them.
  refine pte_congr changes within (apart.mono_left ?_)
  refine Set.Ico_subset_Ico low ?_
  unfold pageSize
  omega

theorem BootEntries.congr {mem' : Mem} {region : Set Nat} (entries : BootEntries mem)
    (changes : Mem.ChangesOnly mem mem' region)
    (apart : Disjoint (Set.Ico 0x1000 0x4000) region) : BootEntries mem' := by
  -- Each of the three tables keeps its 512 entries.
  refine ⟨fun k within => ?_, fun k within => ?_, fun k within => ?_⟩
  · rw [pte_bootTables changes apart (by decide) (by decide) within, entries.pml4 k within]
  · rw [pte_bootTables changes apart (by decide) (by decide) within, entries.pdpt k within]
  · rw [pte_bootTables changes apart (by decide) (by decide) within, entries.pd k within]

/-- Above the page directory the only present entries are the two links. -/
theorem BootEntries.link (entries : BootEntries mem) {path : List (Fin 512)} {t : Nat} {i : Fin 512}
    (other : path ≠ [0, 0]) (met : IncroOS.tableAt mem path = some t)
    (present : (slot mem t i).testBit 0 = true) : slot mem t i = 0x2003 ∨ slot mem t i = 0x3003 := by
  -- The two tables above it have one entry each.
  rcases entries.tableAt met with ⟨-, rfl⟩ | ⟨-, rfl⟩ | ⟨same, -⟩
  · rw [slot, entries.pml4 i i.isLt] at present ⊢
    split at present
    · rename_i zero
      exact .inl (if_pos zero)
    · exact absurd present (by decide)
  · rw [slot, entries.pdpt i i.isLt] at present ⊢
    split at present
    · rename_i zero
      exact .inr (if_pos zero)
    · exact absurd present (by decide)
  · exact absurd same other

/-- The loader's tables form a tree. -/
theorem BootEntries.pageTree (entries : BootEntries mem) : PageTree mem := by
  have first := entries.pml4 0 (by decide)
  have second := entries.pdpt 0 (by decide)
  refine ⟨?_, ?_, ?_, ?_, first, second, fun k => entries.pd k k.isLt⟩
  · -- The tree has three tables, each met on one path only.
    intro p q n _ _ pMet qMet
    rcases entries.tableAt pMet with ⟨rfl, rfl⟩ | ⟨rfl, rfl⟩ | ⟨rfl, rfl⟩
    · rcases entries.tableAt qMet with ⟨rfl, -⟩ | ⟨-, other⟩ | ⟨-, other⟩
      · rfl
      · exact absurd other (by decide)
      · exact absurd other (by decide)
    · rcases entries.tableAt qMet with ⟨-, other⟩ | ⟨rfl, -⟩ | ⟨-, other⟩
      · exact absurd other (by decide)
      · rfl
      · exact absurd other (by decide)
    · rcases entries.tableAt qMet with ⟨-, other⟩ | ⟨-, other⟩ | ⟨rfl, -⟩
      · exact absurd other (by decide)
      · exact absurd other (by decide)
      · rfl
  · intro path t _ met
    rcases entries.tableAt met with ⟨-, rfl⟩ | ⟨-, rfl⟩ | ⟨-, rfl⟩
    · decide
    · decide
    · decide
  · intro path t i _ other met present
    rcases entries.link other met present with same | same
    · rw [same]
      decide
    · rw [same]
      decide
  · intro path t i _ other met present
    rcases entries.link other met present with same | same
    · rw [same]
      decide
    · rw [same]
      decide

end Tables

section Start

theorem totalMemory_pages : totalMemory / pageSize = 2 ^ 20 := by decide

/-- Bringing up the page allocator writes nothing below the bitmap. -/
theorem initPaging_frame (mem : Mem) :
    PmmFrame (placeBitmap (Kernel.zeroed (buildPageTables mem) bootCr3) (2 ^ 20))
      (pmmInit (Kernel.zeroed (buildPageTables mem) bootCr3) totalMemory) := by
  have frame := pmmInit_frame (show 0x180000 ≤ totalMemory by decide)
    (show totalMemory < 2 ^ 64 by decide) (Kernel.zeroed (buildPageTables mem) bootCr3)
  rwa [totalMemory_pages] at frame

/-- Taking over the tables changes neither memory nor the page allocator. -/
theorem initPaging_eq (mem : Mem) :
    initPaging mem = (pmmInit (Kernel.zeroed (buildPageTables mem) bootCr3) totalMemory).withPml4
      (pmmInit (Kernel.zeroed (buildPageTables mem) bootCr3) totalMemory).cr3 := by
  rw [initPaging, vmmInit]

@[simp] theorem isPageAllocated_withPml4 (kernel : Kernel) (pml4 page : Nat) :
    isPageAllocated (kernel.withPml4 pml4) page = isPageAllocated kernel page := rfl

/-- Bringing up paging writes nothing but the bitmap. -/
theorem initPaging_changes (mem : Mem) :
    Mem.ChangesOnly (buildPageTables mem) (initPaging mem).mem (Set.Ico 0x140000 0x160000) := by
  -- All that is written is the bitmap of `pmm_init`, which ends below 0x160000.
  have changes := (initPaging_frame mem).mem
  have last : bitmapAddress + (2 ^ 20 + 7) / 8 = 0x160000 := by decide
  have place : bitmapAddress = 0x140000 := rfl
  simp only [bitmapSpan, placeBitmap, last, Kernel.zeroed_mem] at changes
  rw [place] at changes
  rw [initPaging_eq, Kernel.withPml4_mem]
  exact changes

/-- The loader's tables come through the initialisation of the page allocator. -/
theorem initPaging_entries (mem : Mem) : BootEntries (initPaging mem).mem := by
  obtain ⟨pml4, pdpt, pd⟩ := buildPageTables_entries mem
  have changes := initPaging_changes mem
  -- The tables lie far below the bitmap.
  have kept : ∀ table k, table ≤ 0x3000 → k < 512 →
      pte (initPaging mem).mem table k = (buildPageTables mem).read (table + 8 * k) 8 := by
    intro table k low within
    rw [pte]
    refine changes.read fun x _ high => ?_
    simp only [Set.mem_Ico]
    omega
  refine ⟨fun k within => ?_, fun k within => ?_, fun k within => ?_⟩
  · rw [kept 0x1000 k (by decide) within, pml4 k within]
  · rw [kept 0x2000 k (by decide) within, pdpt k within]
  · rw [kept 0x3000 k (by decide) within, pd k within]

/-- From the start, the pages below 384 are marked and no others. -/
theorem initPaging_bits (mem : Mem) {page : Nat} (below : page < 2 ^ 20) :
    isPageAllocated (initPaging mem) page = decide (page < 384) := by
  have marks := pmmInit_bits (show 0x180000 ≤ totalMemory by decide)
    (show totalMemory < 2 ^ 64 by decide) (Kernel.zeroed (buildPageTables mem) bootCr3)
    (totalMemory_pages.symm ▸ below)
  -- The bitmap's own pages lie among those of the kernel.
  have reserved : initiallyReserved (totalMemory / pageSize) page ↔ page < 384 := by
    rw [totalMemory_pages, initiallyReserved, bitmapPages_eq (by decide)]
    simp only [reservedLow_eq, kernelPages_eq, bitmapStartPage_eq]
    omega
  rw [initPaging_eq, isPageAllocated_withPml4, marks, decide_eq_decide]
  exact reserved

/-- Pages below 384 are marked from the start. -/
theorem initPaging_reserved (mem : Mem) {page : Nat} (low : page < 384) :
    isPageAllocated (initPaging mem) page = true := by
  rw [initPaging_bits mem (by omega), decide_eq_true low]

/-- The number of pages that the allocator starts out with. -/
theorem initPaging_totalPages (mem : Mem) : (initPaging mem).totalPages = 2 ^ 20 := by
  rw [initPaging_eq, Kernel.withPml4_totalPages, (initPaging_frame mem).totalPages]
  rfl

/-- The pages in use at the start are those below 384. -/
theorem initPaging_used (mem : Mem) : allocatedPages (initPaging mem) = Finset.range 384 := by
  -- The first 384 pages are marked, and no other page of the 4 GiB is.
  ext page
  rw [mem_allocatedPages, initPaging_totalPages, Finset.mem_range]
  constructor
  · rintro ⟨below, marked⟩
    rwa [initPaging_bits mem below, decide_eq_true_eq] at marked
  · intro low
    exact ⟨by omega, initPaging_reserved mem low⟩

/-- The pages that are free below a bound at the start are those from 384 on. -/
theorem initPaging_free (mem : Mem) (b : Nat) :
    (pagePool (initPaging mem)).freeBelow b = min b (2 ^ 20) - 384 := by
  have used := (pagePool_used (initPaging mem)).trans (initPaging_used mem)
  rw [Pool.freeBelow_of_used used, pagePool_bound, initPaging_totalPages]

/-- The invariant holds when paging has been brought up and nobody owns a page yet. -/
theorem vmmInv_initPaging (mem : Mem) : VmmInv (initPaging mem) ∅ := by
  have frame := initPaging_frame mem
  have entries := initPaging_entries mem
  have total := initPaging_totalPages mem
  have cr3 : (initPaging mem).cr3 = bootCr3 := by
    rw [initPaging_eq, Kernel.withPml4_cr3, frame.cr3]
    rfl
  have pml4 : (initPaging mem).pml4 = bootCr3 := by
    rw [initPaging_eq, Kernel.withPml4_pml4, frame.cr3]
    rfl
  have bitmap : (initPaging mem).pageBitmap = bitmapAddress := by
    rw [initPaging_eq, Kernel.withPml4_pageBitmap, frame.pageBitmap]
    rfl
  refine ⟨cr3, pml4, bitmap, total, fun page low => initPaging_reserved mem low,
    entries.pageTree, ?_, fun a member => absurd member (Finset.notMem_empty a)⟩
  intro path t _ met
  -- The loader's tables lie in the reserved pages and below the bitmap.
  have below : t / pageSize < 384 ∧ 0 < t / pageSize ∧ t / pageSize < 320 := by
    rcases entries.tableAt met with ⟨-, rfl⟩ | ⟨-, rfl⟩ | ⟨-, rfl⟩
    · decide
    · decide
    · decide
  exact ⟨below.2.1, by omega, initPaging_reserved mem below.1, .inl below.2.2⟩

end Start

section Inside

variable {kernel : Kernel} {virt phys flags : Nat}

/-- The address lies in the first GiB, which the loader maps in large pages. -/
theorem not_outsideBoot : ¬ OutsideBoot virt ↔ pml4Index virt = 0 ∧ pdptIndex virt = 0 := by
  unfold OutsideBoot
  omega

/-- The loader's own entries, which both walks meet inside the first GiB. -/
structure BootPath (mem : Mem) : Prop where
  pml4 : pte mem 0x1000 0 = 0x2003
  pdpt : pte mem 0x2000 0 = 0x3003
  pd : ∀ k < 512, pte mem 0x3000 k = k * 0x200000 + 0x83

theorem PageTree.bootPath {mem : Mem} (tree : PageTree mem) : BootPath mem :=
  ⟨tree.bootPml4, tree.bootPdpt, fun k within => tree.bootPd ⟨k, within⟩⟩

/-- The loader's entries survive every change apart from their three pages. -/
theorem BootPath.congr {mem mem' : Mem} {region : Set Nat} (path : BootPath mem)
    (changes : Mem.ChangesOnly mem mem' region)
    (apart : Disjoint (Set.Ico 0x1000 0x4000) region) : BootPath mem' := by
  -- Only the entries on the way to the large pages are asked for.
  refine ⟨?_, ?_, fun k within => ?_⟩
  · rw [pte_bootTables changes apart (by decide) (by decide) (by decide), path.pml4]
  · rw [pte_bootTables changes apart (by decide) (by decide) (by decide), path.pdpt]
  · rw [pte_bootTables changes apart (by decide) (by decide) within, path.pd k within]

/-- The entries that the two walks meet on the way to a large page. -/
theorem BootPath.entries {mem : Mem} (path : BootPath mem) (inside : ¬ OutsideBoot virt) :
    pte mem bootCr3 (pml4Index virt) = 0x2003 ∧ pte mem 0x2000 (pdptIndex virt) = 0x3003 ∧
      pte mem 0x3000 (pdIndex virt) = pdIndex virt * 0x200000 + 0x83 := by
  -- Inside the first GiB both upper indices are 0.
  obtain ⟨first, second⟩ := not_outsideBoot.mp inside
  have root : bootCr3 = 0x1000 := rfl
  rw [first, second, root]
  exact ⟨path.pml4, path.pdpt, path.pd _ (pdSlot virt).isLt⟩

/-- The three entries are followed, the last one to the start of the large page. -/
theorem BootPath.follows {mem : Mem} (path : BootPath mem) (inside : ¬ OutsideBoot virt) :
    follow mem (pml4Index virt) bootCr3 = some 0x2000 ∧
      follow mem (pdptIndex virt) 0x2000 = some 0x3000 ∧
      follow mem (pdIndex virt) 0x3000 = some (pdIndex virt * 0x200000) := by
  obtain ⟨entry4, entry3, entry2⟩ := path.entries inside
  -- The last entry's frame is its 2 MiB page, which the source takes for a table.
  obtain ⟨present, -, frame⟩ := bootPde_fields (pdSlot virt).isLt
  rw [pdSlot_val] at present frame
  refine ⟨follow_eq_some.mpr ?_, follow_eq_some.mpr ?_, follow_eq_some.mpr ?_⟩
  · rw [entry4]
    decide
  · rw [entry3]
    decide
  · rw [entry2]
    exact ⟨present, frame⟩

/-- Inside the first GiB the descent of the source ends at the start of the large page. -/
theorem findPageTable_inside (path : BootPath kernel.mem) (root : kernel.pml4 = bootCr3)
    (inside : ¬ OutsideBoot virt) :
    findPageTable kernel virt = some (pdIndex virt * 0x200000) := by
  obtain ⟨first, second, third⟩ := path.follows inside
  rw [findPageTable_eq, root, first, Option.bind_some, second, Option.bind_some, third]

/-- Inside the first GiB the processor's walk finds the address itself. -/
theorem translate_inside {mem : Mem} (path : BootPath mem) (inside : ¬ OutsideBoot virt)
    (canonical : Canonical virt) : translate mem bootCr3 virt = .found virt := by
  obtain ⟨entry4, entry3, entry2⟩ := path.entries inside
  obtain ⟨present, large, -⟩ := bootPde_fields (pdSlot virt).isLt
  obtain ⟨legal, clear⟩ := bootPde_legal (pdSlot virt).isLt
  rw [pdSlot_val] at present large legal clear
  have present4 : isPresent 0x2003 = true := by decide
  have present3 : isPresent 0x3003 = true := by decide
  have frame4 : 0x2003 &&& ptAddrMask = 0x2000 := by decide
  have frame3 : 0x3003 &&& ptAddrMask = 0x3000 := by decide
  have links : (isReserved 0x2003 || (0x2003 : Nat).testBit 7) = false ∧
      isReserved 0x3003 = false ∧ (0x3003 : Nat).testBit 7 = false := by decide
  rw [translate_eq mem canonical]
  simp only [entry4, present4, frame4, links, entry3, present3, frame3, entry2, present, legal, large,
    clear, Bool.not_true, Bool.false_eq_true, if_false, if_true, ne_eq, not_true_eq_false]
  -- A canonical address whose two upper indices are zero is below one GiB.
  obtain ⟨first, second⟩ := not_outsideBoot.mp inside
  rw [pml4Index_eq] at first
  rw [pdptIndex_eq] at second
  rw [pdIndex_eq]
  unfold Canonical at canonical
  have same : (virt / 2 ^ 21 % 512 * 0x200000 + 0x83) / 2 ^ 21 % 2 ^ 31 * 2 ^ 21 + virt % 2 ^ 21 =
      virt := by omega
  rw [same]

/-- Inside the first GiB `vmm_get_physical` takes a word of the mapped memory for an entry. -/
theorem vmmGetPhysical_inside (path : BootPath kernel.mem) (root : kernel.pml4 = bootCr3)
    (inside : ¬ OutsideBoot virt) :
    vmmGetPhysical kernel virt =
      if isPresent (pte kernel.mem (pdIndex virt * 0x200000) (ptIndex virt)) then
        (pte kernel.mem (pdIndex virt * 0x200000) (ptIndex virt) &&& ptAddrMask) + (virt &&& 0xFFF)
      else 0 := by
  -- The descent takes the large page for a table and reads its word in it.
  rw [vmmGetPhysical, findPageTable_inside path root inside]
  cases present : isPresent (pte kernel.mem (pdIndex virt * 0x200000) (ptIndex virt)) with
  | false => simp [present]
  | true => simp [present]

/-- Inside the first GiB each level's entry is present, down to the start of the large page. -/
theorem getOrCreateTable_inside (path : BootPath kernel.mem) (inside : ¬ OutsideBoot virt) :
    getOrCreateTable kernel bootCr3 (pml4Index virt) ptWritable = (kernel, 0x2000) ∧
    getOrCreateTable kernel 0x2000 (pdptIndex virt) ptWritable = (kernel, 0x3000) ∧
    getOrCreateTable kernel 0x3000 (pdIndex virt) ptWritable =
      (kernel, pdIndex virt * 0x200000) := by
  obtain ⟨first, second, third⟩ := path.follows inside
  exact ⟨getOrCreateTable_of_follow first, getOrCreateTable_of_follow second,
    getOrCreateTable_of_follow third⟩

/-- Inside the first GiB a map call is refused on the first 2 MiB and else writes mapped memory. -/
theorem vmmMapPage_inside (path : BootPath kernel.mem) (root : kernel.pml4 = bootCr3)
    (inside : ¬ OutsideBoot virt) :
    vmmMapPage kernel virt phys flags =
      if pdIndex virt = 0 then (kernel, false)
      else (kernel.withMem (setPte kernel.mem (pdIndex virt * 0x200000) (ptIndex virt)
        (leafEntry phys flags)), true) := by
  obtain ⟨first, second, third⟩ := getOrCreateTable_inside path inside
  have nonnull4 : 0x2000 ≠ 0 := by decide
  have nonnull3 : 0x3000 ≠ 0 := by decide
  simp only [vmmMapPage, root, first, second, third, if_neg nonnull4, if_neg nonnull3]
  -- The page of the first entry is page zero, which the source takes for a failure.
  by_cases low : pdIndex virt = 0
  · rw [if_pos low, if_pos (by rw [low])]
  · rw [if_neg low, if_neg (by omega)]
    rfl

end Inside

end IncroOS
