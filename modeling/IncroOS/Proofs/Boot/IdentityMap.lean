import IncroOS.Proofs.Vmm.Boot

/-! The loader's page tables map the first GiB to itself and nothing else, whatever was there before. -/

namespace IncroOS

open Lib

/-- The entries that the processor's walk reads on its way to a 2 MiB page, from the top down. -/
def largeWalk (mem : Mem) (cr3 virt : Nat) : List Nat :=
  let pml4e := mem.read (frameOf cr3 + 8 * (virt / 2 ^ 39 % 512)) 8
  let pdpte := mem.read (frameOf pml4e + 8 * (virt / 2 ^ 30 % 512)) 8
  let pde := mem.read (frameOf pdpte + 8 * (virt / 2 ^ 21 % 512)) 8
  [pml4e, pdpte, pde]

/-- The walk reads present and writable entries, and the last one, and no earlier one, is of a large page. -/
def WritableLargePage (mem : Mem) (cr3 virt : Nat) : Prop :=
  (∀ entry ∈ largeWalk mem cr3 virt, entry.testBit 0 = true ∧ entry.testBit 1 = true) ∧
    (largeWalk mem cr3 virt).map (·.testBit 7) = [false, false, true]

section Walk

variable {mem : Mem} {virt : Nat}

theorem buildPageTables_bootEntries (mem : Mem) : BootEntries (buildPageTables mem) := by
  obtain ⟨pml4, pdpt, pd⟩ := buildPageTables_entries mem
  exact ⟨pml4, pdpt, pd⟩

/-- Of the canonical addresses, those of the first GiB are the ones below its end. -/
theorem outsideBoot_iff (canonical : Canonical virt) : OutsideBoot virt ↔ 2 ^ 30 ≤ virt := by
  -- A canonical address with both upper indices 0 has no bit above 29.
  unfold OutsideBoot
  rw [pml4Index_eq, pdptIndex_eq]
  unfold Canonical at canonical
  omega

/-- The low bits of a page directory entry are its flags. -/
theorem bootPde_flags (k : Nat) :
    (k * 0x200000 + 0x83).testBit 0 = true ∧ (k * 0x200000 + 0x83).testBit 1 = true ∧
      (k * 0x200000 + 0x83).testBit 7 = true := by
  exact ⟨bootPde_testBit k (by decide), bootPde_testBit k (by decide), bootPde_testBit k (by decide)⟩

/-- In the first GiB the walk reads the two links and the entry of the address's own 2 MiB. -/
theorem BootEntries.largeWalk_eq (entries : BootEntries mem) (low : virt < 2 ^ 30) :
    largeWalk mem bootCr3 virt = [0x2003, 0x3003, virt / 2 ^ 21 * 0x200000 + 0x83] := by
  -- Below 1 GiB the two upper indices are zero.
  have top : virt / 2 ^ 39 % 512 = 0 := by omega
  have second : virt / 2 ^ 30 % 512 = 0 := by omega
  have third : virt / 2 ^ 21 % 512 = virt / 2 ^ 21 := by omega
  have pml4e : mem.read (frameOf bootCr3 + 8 * 0) 8 = 0x2003 := entries.pml4 0 (by decide)
  have pdpte : mem.read (frameOf 0x2003 + 8 * 0) 8 = 0x3003 := entries.pdpt 0 (by decide)
  have pde : mem.read (frameOf 0x3003 + 8 * (virt / 2 ^ 21)) 8 = virt / 2 ^ 21 * 0x200000 + 0x83 :=
    entries.pd (virt / 2 ^ 21) (by omega)
  simp only [largeWalk, top, second, third, pml4e, pdpte, pde]

/-- In the first GiB the walk ends on a present and writable 2 MiB page. -/
theorem BootEntries.writableLargePage (entries : BootEntries mem) (low : virt < 2 ^ 30) :
    WritableLargePage mem bootCr3 virt := by
  obtain ⟨present, writable, large⟩ := bootPde_flags (virt / 2 ^ 21)
  rw [WritableLargePage, entries.largeWalk_eq low]
  have earlier : (0x2003 : Nat).testBit 7 = false ∧ (0x3003 : Nat).testBit 7 = false := by decide
  refine ⟨fun entry member => ?_, by rw [List.map, List.map, List.map, earlier.1, earlier.2, large]; rfl⟩
  simp only [List.mem_cons, List.not_mem_nil, or_false] at member
  -- The two links, and then the page directory entry.
  rcases member with rfl | rfl | rfl
  · decide
  · decide
  · exact ⟨present, writable⟩

/-- Elsewhere the walk meets an entry that is zero, at the first or the second level. -/
theorem BootEntries.translate_absent (entries : BootEntries mem) (canonical : Canonical virt)
    (high : 2 ^ 30 ≤ virt) : translate mem bootCr3 virt = .absent := by
  have absent : isPresent 0 = false := by decide
  have root : bootCr3 = 0x1000 := rfl
  have pml4e : pte mem 0x1000 (pml4Index virt) = if pml4Index virt = 0 then 0x2003 else 0 :=
    entries.pml4 _ (pml4Slot virt).isLt
  have pdpte : pte mem 0x2000 (pdptIndex virt) = if pdptIndex virt = 0 then 0x3003 else 0 :=
    entries.pdpt _ (pdptSlot virt).isLt
  rw [translate_eq mem canonical, root]
  dsimp only
  rw [pml4e]
  by_cases first : pml4Index virt = 0
  · -- Below 512 GiB the top-level link is followed, and the next level holds one entry only.
    have second : pdptIndex virt ≠ 0 :=
      ((outsideBoot_iff canonical).mpr high).resolve_left fun other => other first
    have present : isPresent 0x2003 = true := by decide
    have frame : 0x2003 &&& ptAddrMask = 0x2000 := by decide
    have legal : (isReserved 0x2003 || (0x2003 : Nat).testBit 7) = false := by decide
    rw [if_pos first, present, Bool.not_true, if_neg Bool.false_ne_true, legal,
      if_neg Bool.false_ne_true, frame, pdpte, if_neg second, absent]
    rfl
  · rw [if_neg first, absent]
    rfl

end Walk

/--
The loader's page tables are an exact identity map of the first GiB, for every prior memory.

Each address there is on a present and writable 2 MiB page, and every other one has no translation.
-/
theorem loader_tables_identity_map (mem : Mem) :
    (∀ virt < 2 ^ 30, translate (buildPageTables mem) bootCr3 virt = .found virt ∧
      WritableLargePage (buildPageTables mem) bootCr3 virt) ∧
    ∀ virt, Canonical virt → 2 ^ 30 ≤ virt → translate (buildPageTables mem) bootCr3 virt = .absent := by
  have entries := buildPageTables_bootEntries mem
  refine ⟨fun virt low => ?_, fun virt canonical high => entries.translate_absent canonical high⟩
  have canonical : Canonical virt := .inl (by omega)
  -- The first GiB is the region that the boot tables map.
  have inside : ¬ OutsideBoot virt := by
    rw [outsideBoot_iff canonical]
    omega
  exact ⟨translate_inside entries.pageTree.bootPath inside canonical, entries.writableLargePage low⟩

end IncroOS
