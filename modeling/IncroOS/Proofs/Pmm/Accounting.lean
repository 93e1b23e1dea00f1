import IncroOS.Proofs.Pmm.Refinement
import Mathlib.Data.Finset.Interval

/-! The page counter differs from the population of the bitmap by the pages counted twice. -/

namespace IncroOS

open Lib

/-- Bitmap pages inside the kernel area, which `pmm_init` counts in two loops. -/
def countedTwice (totalPages : Nat) : Nat := min (bitmapPages totalPages) 64

/-- The counter exceeds the number of marked pages by a fixed amount. -/
def CountsWithSlack (slack : Nat) (kernel : Kernel) : Prop :=
  kernel.usedPages = (allocatedPages kernel).card + slack

/-- Initialisation marks the union of its ranges, so the overlap is counted but not marked. -/
theorem pmmInit_counts {kernel : Kernel} (zeroed : kernel.usedPages = 0) {totalMemory : Nat}
    (large : 0x180000 ≤ totalMemory) (bound : totalMemory < 2 ^ 64) :
    CountsWithSlack (countedTwice (totalMemory / pageSize)) (pmmInit kernel totalMemory) := by
  -- The two marked ranges overlap or touch, so together they are an initial segment.
  have segment : allocatedPages (pmmInit kernel totalMemory) =
      Finset.range (max 384 (320 + bitmapPages (totalMemory / pageSize))) := by
    ext page
    rw [allocatedPages_pmmInit kernel large bound, Finset.mem_range, initiallyReserved]
    simp only [reservedLow_eq, kernelPages_eq, bitmapStartPage_eq]
    omega
  rw [CountsWithSlack, pmmInit_usedPages large bound zeroed, segment, Finset.card_range,
    countedTwice]
  omega

/-- The marked pages are at most as many as there are pages. -/
theorem allocatedPages_card_le (kernel : Kernel) :
    (allocatedPages kernel).card ≤ kernel.totalPages := by
  have inside := Finset.card_le_card (pagePool kernel).inside
  rwa [Finset.card_range] at inside

/-- Every call moves the counter together with the number of marked pages. -/
theorem apply_counts {slack : Nat} {kernel : Kernel} (total : kernel.totalPages < 2 ^ 52)
    (small : slack ≤ 64) (counts : CountsWithSlack slack kernel) (op : PmmOp) :
    CountsWithSlack slack (op.apply kernel) := by
  have atMost := allocatedPages_card_le kernel
  unfold CountsWithSlack at counts ⊢
  cases op with
  -- A page that is handed out was unmarked, and is counted once.
  | alloc =>
    obtain ⟨-, result⟩ | ⟨p, below, free, -, result⟩ := pmmAllocPage_cases kernel
    · simpa [PmmOp.apply, result] using counts
    · have absent : p ∉ allocatedPages kernel := by simp [free]
      have counted : (reservePage p kernel).usedPages = u64 (kernel.usedPages + 1) := rfl
      simp only [PmmOp.apply, result, allocatedPages_reservePage kernel below,
        Finset.card_insert_of_notMem absent, counted]
      rw [u64_of_lt (by omega)]
      omega
  -- A page that is freed was marked, so the counter is not zero.
  | free addr =>
    obtain ⟨-, result⟩ | ⟨below, bit, result⟩ := pmmFreePage_cases kernel addr.toNat
    · simpa [PmmOp.apply, result] using counts
    · have member : addr.toNat / pageSize ∈ allocatedPages kernel :=
        mem_allocatedPages.mpr ⟨below, bit⟩
      have erased := Finset.card_erase_of_mem member
      have occupied := Finset.card_pos.mpr ⟨_, member⟩
      have counted : (pmmFreePage kernel addr.toNat).usedPages = u64Sub kernel.usedPages 1 := by
        rw [result]
        rfl
      simp only [PmmOp.apply, counted, allocatedPages_pmmFreePage, erased]
      rw [u64Sub_of_le (by omega) (by omega)]
      omega

/-- The slack is the same after every run of calls. -/
theorem runPmm_counts {slack : Nat} {kernel : Kernel} (total : kernel.totalPages < 2 ^ 52)
    (small : slack ≤ 64) (counts : CountsWithSlack slack kernel) (ops : List PmmOp) :
    CountsWithSlack slack (runPmm kernel ops) := by
  -- By induction on the calls, none of which moves the end of memory.
  induction ops generalizing kernel with
  | nil => exact counts
  | cons op rest ih =>
    exact ih (by rw [apply_totalPages]; exact total) (apply_counts total small counts op)

/-- The reported statistics are the population counts of the bitmap, and do not wrap. -/
def AccountingExact (kernel : Kernel) : Prop :=
  pmmGetUsedPages kernel = (allocatedPages kernel).card ∧
  pmmGetFreePages kernel =
    ((Finset.range kernel.totalPages).filter fun page => !isPageAllocated kernel page).card ∧
  pmmGetUsedPages kernel ≤ pmmGetTotalPages kernel

/-- After every run on zeroed statics the counter is too large by the pages counted twice. -/
theorem runPmm_usedPages (mem : Mem) (cr3 totalMemory : Nat)
    (large : 0x180000 ≤ totalMemory) (bound : totalMemory < 2 ^ 64) (ops : List PmmOp) :
    pmmGetUsedPages (runPmm (pmmInit (Kernel.zeroed mem cr3) totalMemory) ops) =
      (allocatedPages (runPmm (pmmInit (Kernel.zeroed mem cr3) totalMemory) ops)).card +
        countedTwice (totalMemory / pageSize) := by
  -- The slack that `pmm_init` leaves is the number of pages that it counts twice.
  obtain ⟨-, small⟩ := totalPages_bounds large bound
  refine runPmm_counts ?_ (by unfold countedTwice; omega) (pmmInit_counts rfl large bound) ops
  rw [pmmInit_totalPages large bound]
  exact small

/-- The bitmap always occupies a page of the kernel area. -/
theorem countedTwice_pos {totalMemory : Nat} (large : 0x180000 ≤ totalMemory)
    (bound : totalMemory < 2 ^ 64) : 0 < countedTwice (totalMemory / pageSize) := by
  -- The bitmap starts in the kernel area and has a page at least.
  obtain ⟨enough, small⟩ := totalPages_bounds large bound
  unfold countedTwice
  rw [bitmapPages_eq small]
  omega

/--
The accounting is exact for no memory size and after no run.

The bitmap's pages lie in the kernel area, and the loops count those pages twice.
-/
theorem pmm_accounting_never_exact (mem : Mem) (cr3 : Nat) (totalMemory : UInt64)
    (large : 0x180000 ≤ totalMemory.toNat) (ops : List PmmOp) :
    let state := runPmm (pmmInit (Kernel.zeroed mem cr3) totalMemory.toNat) ops
    pmmGetUsedPages state =
        (allocatedPages state).card + min (bitmapPages (totalMemory.toNat / pageSize)) 64 ∧
      ¬AccountingExact state := by
  -- The excess is never 0, so the counter is never the number of marked pages.
  intro state
  have bound : totalMemory.toNat < 2 ^ 64 := totalMemory.toNat_lt
  have used : pmmGetUsedPages state = (allocatedPages state).card +
      countedTwice (totalMemory.toNat / pageSize) := runPmm_usedPages mem cr3 _ large bound ops
  have extra := countedTwice_pos large bound
  refine ⟨used, fun exact_ => ?_⟩
  have same : pmmGetUsedPages state = (allocatedPages state).card := exact_.1
  omega

/-- The accounting law after the kernel's own initialisation and one allocation. -/
theorem pmm_accounting_never_exact_after_alloc :
    0x180000 ≤ (0x100000000 : UInt64).toNat ∧
    ¬AccountingExact (runPmm (pmmInit (Kernel.zeroed (fun _ => 0) 0x1000)
      (0x100000000 : UInt64).toNat) [.alloc]) :=
  ⟨by decide, (pmm_accounting_never_exact (fun _ => 0) 0x1000 0x100000000 (by decide) [.alloc]).2⟩

/-- Right after `pmm_init(4 GiB)` the reported count is not the number of marked pages. -/
theorem pmm_accounting_off_at_four_gib :
    ¬AccountingExact (runPmm (pmmInit (Kernel.zeroed (fun _ => 0) 0x1000) 0x100000000) []) := by
  -- Exactness would make the excess 0.
  rintro ⟨same, -, -⟩
  have used := runPmm_usedPages (fun _ => 0) 0x1000 0x100000000 (by decide)
    (by decide) []
  have extra : 0 < countedTwice (0x100000000 / pageSize) :=
    countedTwice_pos (by decide) (by decide)
  omega

end IncroOS
