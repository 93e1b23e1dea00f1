import IncroOS.Proofs.Pmm.Refinement

/-! Reserved pages stay reserved in exactly the runs that free none of them. -/

namespace IncroOS

open Lib

/-- At every point of a run, each initially reserved page is marked and not the one handed out. -/
def StaysReserved (totalPages : Nat) (start : Kernel) (ops : List PmmOp) : Prop :=
  ∀ before, before <+: ops → ∀ page, initiallyReserved totalPages page →
    isPageAllocated (runPmm start before) page = true ∧ ¬HandsOut (runPmm start before) page

/-- A marked page stays marked through every run that frees no address inside it. -/
theorem runPmm_keeps {kernel : Kernel} {ops : List PmmOp} {page : Nat}
    (member : page ∈ allocatedPages kernel)
    (unfreed : ∀ addr, PmmOp.free addr ∈ ops → addr.toNat / pageSize ≠ page) :
    page ∈ allocatedPages (runPmm kernel ops) := by
  -- This is the pool's law, read through the simulation.
  have unreleased : Pool.Op.release page ∉ ops.map PmmOp.onPool := by
    intro released
    obtain ⟨op, listed, same⟩ := List.mem_map.mp released
    cases op with
    | alloc => simp [PmmOp.onPool] at same
    | free addr => exact unfreed addr listed (by simpa [PmmOp.onPool] using same)
  have kept := Pool.run_keeps (show page ∈ (pagePool kernel).used from member) unreleased
  rwa [← pagePool_run] at kept

/-- A free of an address inside a marked page clears its mark. -/
theorem free_clears (kernel : Kernel) (addr : UInt64) :
    addr.toNat / pageSize ∉ allocatedPages ((PmmOp.free addr).apply kernel) := by
  rw [PmmOp.apply, allocatedPages_pmmFreePage]
  exact Finset.notMem_erase _ _

/-- A run in which reserved pages stay reserved frees none of them. -/
theorem StaysReserved.spares {kernel : Kernel} {totalMemory : Nat} {ops : List PmmOp}
    (large : 0x180000 ≤ totalMemory) (bound : totalMemory < 2 ^ 64)
    (stays : StaysReserved (totalMemory / pageSize) (pmmInit kernel totalMemory) ops)
    (addr : UInt64) (listed : PmmOp.free addr ∈ ops) :
    ¬initiallyReserved (totalMemory / pageSize) (addr.toNat / pageSize) := by
  -- The prefix that ends in such a free leaves the page unmarked.
  obtain ⟨enough, small⟩ := totalPages_bounds large bound
  intro reserved
  obtain ⟨before, after, rfl⟩ := List.append_of_mem listed
  have cut : before ++ [PmmOp.free addr] <+: before ++ PmmOp.free addr :: after :=
    ⟨after, by simp⟩
  obtain ⟨marked, -⟩ := stays _ cut _ reserved
  have cleared := free_clears (runPmm (pmmInit kernel totalMemory) before) addr
  rw [runPmm, List.foldl_append, List.foldl_cons, List.foldl_nil] at marked
  apply cleared
  rw [mem_allocatedPages, apply_totalPages, runPmm_totalPages, pmmInit_totalPages large bound]
  exact ⟨initiallyReserved_lt enough small reserved, marked⟩

/--
Reserved memory stays reserved exactly when no free in the run names a reserved page.

`pmm_free_page` does not distinguish reserved pages from allocated ones, so the caller must.
-/
theorem reserved_stays_reserved_iff (kernel : Kernel) (totalMemory : UInt64)
    (large : 0x180000 ≤ totalMemory.toNat) (ops : List PmmOp) :
    StaysReserved (totalMemory.toNat / pageSize) (pmmInit kernel totalMemory.toNat) ops ↔
      ∀ addr, PmmOp.free addr ∈ ops →
        ¬initiallyReserved (totalMemory.toNat / pageSize) (addr.toNat / pageSize) := by
  have bound : totalMemory.toNat < 2 ^ 64 := totalMemory.toNat_lt
  constructor
  · exact fun stays addr listed => stays.spares large bound addr listed
  · -- Without such a free, the mark set by the initialisation survives every prefix.
    intro spared before cut page reserved
    have member : page ∈ allocatedPages (runPmm (pmmInit kernel totalMemory.toNat) before) := by
      apply runPmm_keeps ((allocatedPages_pmmInit kernel large bound).mpr reserved)
      intro addr listed same
      exact spared addr (cut.subset listed) (same ▸ reserved)
    exact ⟨(mem_allocatedPages.mp member).2, fun handed => handed.2.1 member⟩

/-- The law at the kernel's memory size, for a run that allocates a page and frees it again. -/
theorem reserved_stays_reserved_alloc_free :
    StaysReserved ((0x100000000 : UInt64).toNat / pageSize)
      (pmmInit (Kernel.zeroed (fun _ => 0) 0x1000) (0x100000000 : UInt64).toNat)
      [.alloc, .free 0x180000] := by
  -- 0x180000 is page 384, the first one that is not reserved.
  refine (reserved_stays_reserved_iff _ 0x100000000 (by decide) _).mpr ?_
  intro addr listed
  have named : addr = 0x180000 := by simpa using listed
  subst named
  decide

/-- Freeing address zero of the initialised 4 GiB bitmap unmarks the reserved page zero. -/
theorem reserved_page_zero_freed :
    ¬StaysReserved ((0x100000000 : UInt64).toNat / pageSize)
      (pmmInit (Kernel.zeroed (fun _ => 0) 0x1000) (0x100000000 : UInt64).toNat)
      [.free 0] :=
  fun stays => stays.spares (by decide) (by decide) 0 (by decide) (by decide)

end IncroOS
