import IncroOS.Proofs.Pmm.Bitmap

/-! The bitmap and the page count that `pmm_init` leaves behind. -/

namespace IncroOS

open Lib

theorem PmmFrame.trans {k₁ k₂ k₃ : Kernel} (first : PmmFrame k₁ k₂) (second : PmmFrame k₂ k₃) :
    PmmFrame k₁ k₃ := by
  -- Both steps agree on where the bitmap is and how long it is.
  have span : bitmapSpan k₂ = bitmapSpan k₁ := by
    simp only [bitmapSpan, first.pageBitmap, first.totalPages]
  exact {
    mem := first.mem.trans (span ▸ second.mem)
    cr3 := second.cr3.trans first.cr3
    pageBitmap := second.pageBitmap.trans first.pageBitmap
    totalPages := second.totalPages.trans first.totalPages
    pml4 := second.pml4.trans first.pml4
    heapStart := second.heapStart.trans first.heapStart
    totalAllocated := second.totalAllocated.trans first.totalAllocated }

/-- No 64-bit memory size makes the bitmap length wrap. -/
theorem bitmapSize_eq {totalPages : Nat} (bound : totalPages < 2 ^ 52) :
    bitmapSize totalPages = (totalPages + 7) / 8 := by
  simp only [bitmapSize, pagesPerByte]
  rw [u64_of_lt (by omega)]
  omega

/-- No 64-bit memory size makes the bitmap's page count wrap. -/
theorem bitmapPages_eq {totalPages : Nat} (bound : totalPages < 2 ^ 52) :
    bitmapPages totalPages = ((totalPages + 7) / 8 + 4095) / 4096 := by
  simp only [bitmapPages, bitmapSize_eq bound, pageSize]
  rw [u64_of_lt (by omega)]
  omega

/-- The pages that `pmm_init` marks: low memory, the kernel area and the bitmap itself. -/
def initiallyReserved (totalPages page : Nat) : Prop :=
  page < reservedLow + kernelPages ∨
    (bitmapStartPage ≤ page ∧ page < bitmapStartPage + bitmapPages totalPages)

instance (totalPages page : Nat) : Decidable (initiallyReserved totalPages page) :=
  inferInstanceAs (Decidable (_ ∨ _))

@[simp] theorem reservedLow_eq : reservedLow = 256 := rfl
@[simp] theorem kernelPages_eq : kernelPages = 128 := rfl
@[simp] theorem bitmapStartPage_eq : bitmapStartPage = 320 := rfl

/-- Every reserved page lies below the total once the kernel area does. -/
theorem initiallyReserved_lt {totalPages page : Nat} (large : 384 ≤ totalPages)
    (bound : totalPages < 2 ^ 52) (reserved : initiallyReserved totalPages page) :
    page < totalPages := by
  -- The bitmap of so much memory ends below the memory's end.
  unfold initiallyReserved at reserved
  rw [bitmapPages_eq bound] at reserved
  simp only [reservedLow_eq, kernelPages_eq, bitmapStartPage_eq] at reserved
  omega

/-- The zeroing loop clears the bit of every page its bytes describe. -/
theorem clearLoop_bits (kernel : Kernel) (count page : Nat) (covered : page / 8 < count) :
    isPageAllocated (forLoop clearBitmapByte 0 count kernel) page = false := by
  have cleared := forLoop_invariant clearBitmapByte 0 count kernel
    (fun i s => s.pageBitmap = kernel.pageBitmap ∧
      ∀ j < i, s.mem (kernel.pageBitmap + j) = 0)
    ⟨rfl, fun j impossible => by omega⟩ (by
      rintro i s - - ⟨same, zeros⟩
      refine ⟨same, fun j below => ?_⟩
      -- The byte stored now is zero, and those before it were not touched.
      by_cases here : j = i
      · simp [clearBitmapByte, same, here]
      · simp only [clearBitmapByte, same, Kernel.withMem_mem]
        rw [Mem.set_other _ _ (by omega)]
        exact zeros j (by omega))
  obtain ⟨same, zeros⟩ := cleared
  rw [isPageAllocated_eq, bitAt, same, zeros (page / 8) (by omega)]
  simp

/-- The zeroing loop stays inside the bitmap. -/
theorem clearLoop_frame (kernel : Kernel) (count : Nat)
    (within : count ≤ (kernel.totalPages + 7) / 8) :
    PmmFrame kernel (forLoop clearBitmapByte 0 count kernel) := by
  -- The loop's invariant is the statement itself.
  refine forLoop_preserves (PmmFrame kernel) (PmmFrame.refl kernel) ?_
  intro i s _ below frame
  refine frame.trans ⟨(Mem.set_changes _ _ _).mono ?_, rfl, rfl, rfl, rfl, rfl, rfl⟩
  rintro a rfl
  simp only [bitmapSpan, frame.totalPages, Set.mem_Ico]
  omega

/-- The zeroing loop does not count pages. -/
theorem clearLoop_usedPages (kernel : Kernel) (count : Nat) :
    (forLoop clearBitmapByte 0 count kernel).usedPages = kernel.usedPages :=
  forLoop_preserves (fun s : Kernel => s.usedPages = kernel.usedPages) rfl fun _ _ _ _ same => same

/-- A reservation loop marks exactly its range of pages. -/
theorem reserveLoop_bits (kernel : Kernel) (first count page : Nat) :
    isPageAllocated (forLoop reservePage first count kernel) page =
      (decide (first ≤ page ∧ page < first + count) || isPageAllocated kernel page) := by
  -- The invariant: up to the turn the pages of the range are marked, and no others are touched.
  refine forLoop_invariant reservePage first count kernel (fun i s => ∀ p, isPageAllocated s p =
    (decide (first ≤ p ∧ p < i) || isPageAllocated kernel p)) ?_ ?_ page
  · intro p
    simp only [show ¬(first ≤ p ∧ p < first) by omega, decide_false, Bool.false_or]
  · intro i s low _ marked p
    have range : (first ≤ p ∧ p < i + 1) ↔ p = i ∨ (first ≤ p ∧ p < i) := by omega
    simp only [isPageAllocated_reservePage, marked p, range, Bool.decide_or, Bool.or_assoc]

/-- A reservation loop counts one page a turn, whether or not the page was free. -/
theorem reserveLoop_usedPages (kernel : Kernel) (first count : Nat)
    (bound : kernel.usedPages + count < 2 ^ 64) :
    (forLoop reservePage first count kernel).usedPages = kernel.usedPages + count := by
  -- The invariant: one page is counted a turn.
  have counted := forLoop_invariant reservePage first count kernel
    (fun i s => s.usedPages + first = kernel.usedPages + i) rfl ?_
  · omega
  · intro i s low high same
    have next : (reservePage i s).usedPages = u64 (s.usedPages + 1) := rfl
    rw [next, u64_of_lt (by omega)]
    omega

/-- A reservation loop below the total stays inside the bitmap. -/
theorem reserveLoop_frame (kernel : Kernel) (first count : Nat)
    (within : first + count ≤ kernel.totalPages) :
    PmmFrame kernel (forLoop reservePage first count kernel) := by
  -- Each turn marks a page below the total.
  refine forLoop_preserves (PmmFrame kernel) (PmmFrame.refl kernel) ?_
  intro i s _ below frame
  have inside : i < s.totalPages := by
    rw [frame.totalPages]
    omega
  exact frame.trans (PmmFrame.ofPage s inside _ _)

section Init

variable {totalMemory : Nat} (large : 0x180000 ≤ totalMemory) (bound : totalMemory < 2 ^ 64)
include large bound

/-- A memory of at least 0x180000 bytes has every page that `pmm_init` reserves. -/
theorem totalPages_bounds :
    384 ≤ totalMemory / pageSize ∧ totalMemory / pageSize < 2 ^ 52 := by
  unfold pageSize
  omega

/-- Initialisation writes nothing but the bitmap and the statics of the page allocator. -/
theorem pmmInit_frame (kernel : Kernel) :
    PmmFrame (placeBitmap kernel (totalMemory / pageSize)) (pmmInit kernel totalMemory) := by
  obtain ⟨enough, small⟩ := totalPages_bounds large bound
  have pages := bitmapPages_eq small
  have total : (placeBitmap kernel (totalMemory / pageSize)).totalPages =
      totalMemory / pageSize := rfl
  -- The four loops in their order, each within the bitmap.
  have clear := clearLoop_frame (placeBitmap kernel (totalMemory / pageSize))
    (bitmapSize (totalMemory / pageSize)) (by rw [bitmapSize_eq small, total])
  have low := reserveLoop_frame (forLoop clearBitmapByte 0 (bitmapSize (totalMemory / pageSize))
    (placeBitmap kernel (totalMemory / pageSize))) 0 reservedLow (by
      rw [clear.totalPages, total, reservedLow_eq]
      omega)
  have middle := reserveLoop_frame _ reservedLow kernelPages (by
    rw [low.totalPages, clear.totalPages, total, reservedLow_eq, kernelPages_eq]
    omega)
  refine ((clear.trans low).trans middle).trans (reserveLoop_frame _ _ _ ?_)
  rw [middle.totalPages, low.totalPages, clear.totalPages, total, bitmapStartPage_eq]
  omega

theorem pmmInit_totalPages (kernel : Kernel) :
    (pmmInit kernel totalMemory).totalPages = totalMemory / pageSize :=
  (pmmInit_frame large bound kernel).totalPages

/-- After initialisation the marked pages are exactly the reserved ones. -/
theorem pmmInit_bits (kernel : Kernel) {page : Nat} (below : page < totalMemory / pageSize) :
    isPageAllocated (pmmInit kernel totalMemory) page =
      decide (initiallyReserved (totalMemory / pageSize) page) := by
  obtain ⟨enough, small⟩ := totalPages_bounds large bound
  -- The zeroing loop covers the page's byte, so only the three reservations count.
  have covered : page / 8 < bitmapSize (totalMemory / pageSize) := by
    rw [bitmapSize_eq small]
    omega
  simp only [pmmInit, reserveLoop_bits, clearLoop_bits _ _ _ covered, Bool.or_false,
    initiallyReserved, ← Bool.decide_or]
  apply decide_eq_decide.mpr
  simp only [reservedLow_eq, kernelPages_eq, bitmapStartPage_eq]
  omega

/-- On zeroed statics the three loops count 384 pages and the bitmap's, overlaps included. -/
theorem pmmInit_usedPages {kernel : Kernel} (zeroed : kernel.usedPages = 0) :
    (pmmInit kernel totalMemory).usedPages = 384 + bitmapPages (totalMemory / pageSize) := by
  obtain ⟨enough, small⟩ := totalPages_bounds large bound
  have pages := bitmapPages_eq small
  have cleared := (clearLoop_usedPages (placeBitmap kernel (totalMemory / pageSize))
    (bitmapSize (totalMemory / pageSize))).trans zeroed
  -- The three reservations in their order, none of which wraps the counter.
  have low := reserveLoop_usedPages (forLoop clearBitmapByte 0
    (bitmapSize (totalMemory / pageSize)) (placeBitmap kernel (totalMemory / pageSize)))
    0 reservedLow (by rw [cleared]; decide)
  have middle := reserveLoop_usedPages _ reservedLow kernelPages (by
    rw [low, cleared]; decide)
  have top := reserveLoop_usedPages _ bitmapStartPage (bitmapPages (totalMemory / pageSize)) (by
    rw [middle, low, cleared, reservedLow_eq, kernelPages_eq]
    omega)
  unfold pmmInit
  rw [top, middle, low, cleared, reservedLow_eq, kernelPages_eq]

end Init

end IncroOS
