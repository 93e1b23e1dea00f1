import IncroOS.Proofs.Pmm.Reserved

/-! The failure value of `pmm_alloc_page` is also the address of page zero. -/

namespace IncroOS

open Lib

/-- A result of zero reports exhaustion, and a call with that result has changed nothing. -/
structure FailureClear (kernel : Kernel) : Prop where
  exhausted : (pmmAllocPage kernel).2 = 0 ↔
    ∀ page < kernel.totalPages, isPageAllocated kernel page = true
  unchanged : (pmmAllocPage kernel).2 = 0 →
    (pmmAllocPage kernel).1.mem = kernel.mem ∧
      (pmmAllocPage kernel).1.usedPages = kernel.usedPages

section Failure

variable {kernel : Kernel}

/-- When page zero is free it is handed out, under the address that reports failure. -/
theorem pmmAllocPage_zero (some : 0 < kernel.totalPages) (free : isPageAllocated kernel 0 = false) :
    pmmAllocPage kernel = (reservePage 0 kernel, 0) := by
  -- No page comes before page zero, so the search ends on it.
  obtain ⟨full, -⟩ | ⟨p, -, -, least, result⟩ := pmmAllocPage_cases kernel
  · rw [full 0 some] at free
    contradiction
  · cases p with
    | zero => exact result
    | succ p =>
      rw [least 0 (Nat.zero_lt_succ p)] at free
      contradiction

/-- While page zero is marked, every page that is handed out has an address other than zero. -/
theorem pmmAllocPage_nonzero {page : Nat} (small : page < 2 ^ 52)
    (free : isPageAllocated kernel page = false) (marked : isPageAllocated kernel 0 = true) :
    u64 (page * pageSize) ≠ 0 := by
  -- A marked page is not handed out, so the page is not page zero.
  have other : page ≠ 0 := by
    rintro rfl
    rw [free] at marked
    contradiction
  rw [pageAddress_eq small, pageSize]
  omega

/-- The failure value is clear exactly while page zero is marked. -/
theorem failureClear_iff (some : 0 < kernel.totalPages) (small : kernel.totalPages ≤ 2 ^ 52) :
    FailureClear kernel ↔ isPageAllocated kernel 0 = true := by
  constructor
  · intro clear
    by_contra unmarked
    -- The call hands out page zero, and its result then claims that page zero was marked.
    have result := pmmAllocPage_zero some (by simpa using unmarked)
    exact unmarked (clear.exhausted.mp (congrArg Prod.snd result) 0 some)
  · intro marked
    obtain ⟨full, result⟩ | ⟨p, below, free, -, result⟩ := pmmAllocPage_cases kernel
    · rw [← Prod.eta (pmmAllocPage kernel), Prod.mk.injEq] at result
      exact ⟨iff_of_true result.2 full, fun _ => by rw [result.1]; exact ⟨rfl, rfl⟩⟩
    · -- The page handed out is not page zero, so the result is not zero.
      have address : (pmmAllocPage kernel).2 ≠ 0 := by
        rw [result]
        exact pmmAllocPage_nonzero (by omega) free marked
      refine ⟨iff_of_false address fun full => ?_, fun null => absurd null address⟩
      rw [full p below] at free
      contradiction

/-- Freeing page zero makes the next call mark it as used and report failure. -/
theorem freed_zero_unclear (some : 0 < kernel.totalPages) :
    (pmmAllocPage (runPmm kernel [.free 0])).2 = 0 ∧
      isPageAllocated (runPmm kernel [.free 0]) 0 = false ∧
      isPageAllocated (pmmAllocPage (runPmm kernel [.free 0])).1 0 = true ∧
      ¬ FailureClear (runPmm kernel [.free 0]) := by
  have pages : 0 < (runPmm kernel [.free 0]).totalPages := by
    rw [runPmm_totalPages]
    exact some
  have unmarked : isPageAllocated (runPmm kernel [.free 0]) 0 = false := by
    -- The free has taken page zero out of the allocated pages.
    by_contra marked
    rw [Bool.not_eq_false] at marked
    exact free_clears kernel 0 (mem_allocatedPages.mpr ⟨pages, marked⟩)
  have result := pmmAllocPage_zero pages unmarked
  refine ⟨congrArg Prod.snd result, unmarked, ?_, fun clear => ?_⟩
  · rw [result, isPageAllocated_reservePage]
    rfl
  · have marked := clear.exhausted.mp (congrArg Prod.snd result) 0 pages
    rw [unmarked] at marked
    contradiction

end Failure

/--
The failure value is clear after a run exactly when the run has left page zero marked.

It is clear throughout a run exactly when the run frees no address of page zero.
-/
theorem pmm_failure_clear_iff (kernel : Kernel) (totalMemory : UInt64)
    (large : 0x180000 ≤ totalMemory.toNat) (ops : List PmmOp) :
    (FailureClear (runPmm (pmmInit kernel totalMemory.toNat) ops) ↔
      isPageAllocated (runPmm (pmmInit kernel totalMemory.toNat) ops) 0 = true) ∧
    ((∀ before, before <+: ops →
        FailureClear (runPmm (pmmInit kernel totalMemory.toNat) before)) ↔
      ∀ addr, PmmOp.free addr ∈ ops → pageSize ≤ addr.toNat) := by
  have bound : totalMemory.toNat < 2 ^ 64 := totalMemory.toNat_lt
  obtain ⟨enough, small⟩ := totalPages_bounds large bound
  have total : ∀ run, (runPmm (pmmInit kernel totalMemory.toNat) run).totalPages =
      totalMemory.toNat / pageSize :=
    fun run => (runPmm_totalPages _ run).trans (pmmInit_totalPages large bound kernel)
  have clear : ∀ run, FailureClear (runPmm (pmmInit kernel totalMemory.toNat) run) ↔
      isPageAllocated (runPmm (pmmInit kernel totalMemory.toNat) run) 0 = true := fun run =>
    failureClear_iff (by rw [total run]; omega) (by rw [total run]; omega)
  refine ⟨clear ops, ?_⟩
  constructor
  · -- A free of page zero ends a prefix that leaves it unmarked.
    intro throughout addr listed
    by_contra inside
    have page : addr.toNat / pageSize = 0 := Nat.div_eq_of_lt (by omega)
    obtain ⟨before, after, rfl⟩ := List.append_of_mem listed
    have cut : before ++ [PmmOp.free addr] <+: before ++ PmmOp.free addr :: after :=
      ⟨after, by simp⟩
    have marked := (clear _).mp (throughout _ cut)
    have pages := total (before ++ [PmmOp.free addr])
    rw [runPmm, List.foldl_append, List.foldl_cons, List.foldl_nil] at marked pages
    refine free_clears (runPmm (pmmInit kernel totalMemory.toNat) before) addr ?_
    rw [page, mem_allocatedPages, runPmm, pages]
    exact ⟨by omega, marked⟩
  · -- Without one, the mark that the initialisation sets on page zero survives every prefix.
    intro spared before cut
    have reserved : initiallyReserved (totalMemory.toNat / pageSize) 0 := .inl (by decide)
    have kept := @runPmm_keeps _ before _
      ((allocatedPages_pmmInit kernel large bound).mpr reserved) fun addr listed zero => by
        have := spared addr (cut.subset listed)
        have := Nat.div_pos this (by decide)
        omega
    exact (clear before).mpr (mem_allocatedPages.mp kept).2

/-- At the kernel's memory size the failure value stays clear when pages are freed as they were given. -/
theorem pmm_failure_clear_iff_four_gib :
    isPageAllocated (runPmm (pmmInit (Kernel.zeroed (fun _ => 0) 0x1000)
        (0x100000000 : UInt64).toNat) [.alloc, .free 0x180000]) 0 = true ∧
    ∀ before, before <+: [PmmOp.alloc, PmmOp.free 0x180000] →
      FailureClear (runPmm (pmmInit (Kernel.zeroed (fun _ => 0) 0x1000)
        (0x100000000 : UInt64).toNat) before) := by
  obtain ⟨state, run⟩ := pmm_failure_clear_iff (Kernel.zeroed (fun _ => 0) 0x1000) 0x100000000
    (by decide) [.alloc, .free 0x180000]
  -- The one address that is freed is that of page 384.
  have clear := run.mpr fun addr listed => by
    have named : addr = 0x180000 := by simpa using listed
    rw [named]
    decide
  exact ⟨state.mp (clear _ (List.prefix_refl _)), clear⟩

/-- Once page zero is freed, the next call marks it as used and reports failure. -/
theorem pmm_failure_unclear_after_free_zero :
    ∃ state, state = runPmm (pmmInit (Kernel.zeroed (fun _ => 0) 0x1000)
        (0x100000000 : UInt64).toNat) [.free 0] ∧
      (pmmAllocPage state).2 = 0 ∧ isPageAllocated state 0 = false ∧
      isPageAllocated (pmmAllocPage state).1 0 = true ∧ ¬ FailureClear state := by
  -- Page 0 is the lowest one that is free, and its address is the failure value.
  have pages := pmmInit_totalPages (show 0x180000 ≤ (0x100000000 : UInt64).toNat by decide)
    (by decide) (Kernel.zeroed (fun _ => 0) 0x1000)
  refine ⟨_, rfl, freed_zero_unclear ?_⟩
  rw [pages]
  decide

end IncroOS
