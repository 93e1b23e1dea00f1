import IncroOS.Memory.Pmm

/-! What each update of the page bitmap changes, and the page that an allocation picks. -/

namespace IncroOS

open Lib

/-- The page test reads the page's bit of the array at `page_bitmap`. -/
theorem isPageAllocated_eq (kernel : Kernel) (page : Nat) :
    isPageAllocated kernel page = bitAt kernel.mem kernel.pageBitmap page := by
  have within : page % 8 < 8 := Nat.mod_lt _ (by decide)
  exact andMask_ne_zero _ within

/-- Setting a page's bit marks that page and no other. -/
theorem isPageAllocated_set (kernel : Kernel) (n page : Nat) :
    isPageAllocated (setPageAllocated kernel n) page =
      (decide (page = n) || isPageAllocated kernel page) := by
  -- The byte of the page changes in one bit, and the other bytes do not change.
  have within : n % 8 < 8 := Nat.mod_lt _ (by decide)
  rw [isPageAllocated_eq, isPageAllocated_eq]
  refine (bitAt_set true ?_ page).trans ?_
  · -- Within the byte, the mask sets the bit of the page.
    intro j small
    refine (orMask_testBit _ within small).trans ?_
    by_cases same : n % 8 = j <;> simp [pageToByte, pagesPerByte, same]
  · by_cases same : page = n <;> simp [same]

/-- Clearing a page's bit frees that page and no other. -/
theorem isPageAllocated_setFree (kernel : Kernel) (n page : Nat) :
    isPageAllocated (setPageFree kernel n) page =
      (decide (page ≠ n) && isPageAllocated kernel page) := by
  -- The byte of the page changes in one bit, and the other bytes do not change.
  have within : n % 8 < 8 := Nat.mod_lt _ (by decide)
  rw [isPageAllocated_eq, isPageAllocated_eq]
  refine (bitAt_set false ?_ page).trans ?_
  · -- Within the byte, the mask clears the bit of the page.
    intro j small
    refine (andMask_testBit _ within small).trans ?_
    by_cases same : n % 8 = j <;> simp [pageToByte, pagesPerByte, same]
  · by_cases same : page = n <;> simp [same]

/-- The page counter plays no part in the bitmap. -/
@[simp] theorem isPageAllocated_withUsedPages (kernel : Kernel) (count page : Nat) :
    isPageAllocated (kernel.withUsedPages count) page = isPageAllocated kernel page := rfl

/-- Reserving a page marks that page and no other. -/
theorem isPageAllocated_reservePage (kernel : Kernel) (n page : Nat) :
    isPageAllocated (reservePage n kernel) page =
      (decide (page = n) || isPageAllocated kernel page) := by
  rw [reservePage, countPage, isPageAllocated_withUsedPages, isPageAllocated_set]

/-- The bytes of the bitmap that describe pages below the total. -/
def bitmapSpan (kernel : Kernel) : Set Nat :=
  Set.Ico kernel.pageBitmap (kernel.pageBitmap + (kernel.totalPages + 7) / 8)

/-- A page operation writes nothing but the bitmap's bytes and the page counter. -/
structure PmmFrame (kernel kernel' : Kernel) : Prop where
  mem : Mem.ChangesOnly kernel.mem kernel'.mem (bitmapSpan kernel)
  cr3 : kernel'.cr3 = kernel.cr3
  pageBitmap : kernel'.pageBitmap = kernel.pageBitmap
  totalPages : kernel'.totalPages = kernel.totalPages
  pml4 : kernel'.pml4 = kernel.pml4
  heapStart : kernel'.heapStart = kernel.heapStart
  totalAllocated : kernel'.totalAllocated = kernel.totalAllocated

theorem PmmFrame.refl (kernel : Kernel) : PmmFrame kernel kernel :=
  ⟨Mem.ChangesOnly.refl _ _, rfl, rfl, rfl, rfl, rfl, rfl⟩

/-- Storing to the byte of a page below the total stays inside the bitmap. -/
theorem PmmFrame.ofPage (kernel : Kernel) {page : Nat} (below : page < kernel.totalPages)
    (byte : UInt8) (count : Nat) :
    PmmFrame kernel ((kernel.withMem
      (kernel.mem.set (kernel.pageBitmap + pageToByte page) byte)).withUsedPages count) := by
  -- The byte of a page below the total is a byte of the bitmap.
  refine ⟨(Mem.set_changes _ _ _).mono ?_, rfl, rfl, rfl, rfl, rfl, rfl⟩
  rintro a rfl
  simp only [bitmapSpan, pageToByte, pagesPerByte, Set.mem_Ico]
  omega

/-- The search returns nothing over allocated pages, and otherwise takes the lowest free one. -/
theorem pmmAllocFrom_cases (kernel : Kernel) (page count : Nat) :
    ((∀ p, page ≤ p → p < page + count → isPageAllocated kernel p) ∧
      pmmAllocFrom kernel page count = (kernel, 0)) ∨
    ∃ p, page ≤ p ∧ p < page + count ∧ isPageAllocated kernel p = false ∧
      (∀ q, page ≤ q → q < p → isPageAllocated kernel q) ∧
      pmmAllocFrom kernel page count = (reservePage p kernel, u64 (p * pageSize)) := by
  -- The induction follows the search: the page in hand is free, or the rest is searched.
  induction count generalizing page with
  | zero => exact .inl ⟨fun p low high => by omega, rfl⟩
  | succ count ih =>
    cases bit : isPageAllocated kernel page with
    | false =>
      refine .inr ⟨page, by omega, by omega, bit, fun q low high => by omega, ?_⟩
      simp [pmmAllocFrom, bit, reservePage]
    | true =>
      have same : pmmAllocFrom kernel page (count + 1) = pmmAllocFrom kernel (page + 1) count := by
        simp [pmmAllocFrom, bit]
      rw [same]
      obtain ⟨full, result⟩ | ⟨p, low, high, free, least, result⟩ := ih (page + 1)
      · refine .inl ⟨fun p low high => ?_, result⟩
        by_cases here : p = page
        · rw [here, bit]
        · exact full p (by omega) (by omega)
      · refine .inr ⟨p, by omega, by omega, free, fun q low below => ?_, result⟩
        by_cases here : q = page
        · rw [here, bit]
        · exact least q (by omega) below

/-- An allocation fails on a full bitmap, and otherwise reserves the lowest free page. -/
theorem pmmAllocPage_cases (kernel : Kernel) :
    ((∀ p < kernel.totalPages, isPageAllocated kernel p) ∧ pmmAllocPage kernel = (kernel, 0)) ∨
    ∃ p < kernel.totalPages, isPageAllocated kernel p = false ∧
      (∀ q < p, isPageAllocated kernel q) ∧
      pmmAllocPage kernel = (reservePage p kernel, u64 (p * pageSize)) := by
  -- The search starts at page 0, so what it has passed over is all that lies below.
  obtain ⟨full, result⟩ | ⟨p, -, high, free, least, result⟩ :=
    pmmAllocFrom_cases kernel 0 kernel.totalPages
  · exact .inl ⟨fun p below => full p (by omega) (by omega), result⟩
  · exact .inr ⟨p, by omega, free, fun q below => least q (by omega) below, result⟩

/-- A free does nothing, or clears the bit of an allocated page below the total. -/
theorem pmmFreePage_cases (kernel : Kernel) (addr : Nat) :
    ((kernel.totalPages ≤ addr / pageSize ∨ isPageAllocated kernel (addr / pageSize) = false) ∧
      pmmFreePage kernel addr = kernel) ∨
    (addr / pageSize < kernel.totalPages ∧ isPageAllocated kernel (addr / pageSize) = true ∧
      pmmFreePage kernel addr = uncountPage (setPageFree kernel (addr / pageSize))) := by
  -- The source's two tests: the page is below the total, and it is marked.
  by_cases outside : addr / pageSize ≥ kernel.totalPages
  · exact .inl ⟨.inl outside, by simp [pmmFreePage, outside]⟩
  · cases bit : isPageAllocated kernel (addr / pageSize) with
    | false => exact .inl ⟨.inr rfl, by simp [pmmFreePage, bit]⟩
    | true =>
      refine .inr ⟨by omega, rfl, ?_⟩
      simp only [pmmFreePage, if_neg outside, bit, if_true]

/-- An allocation writes nothing but the bitmap and the page counter. -/
theorem pmmAllocPage_frame (kernel : Kernel) : PmmFrame kernel (pmmAllocPage kernel).1 := by
  -- Either nothing is written, or what belongs to one page.
  obtain ⟨-, result⟩ | ⟨p, below, -, -, result⟩ := pmmAllocPage_cases kernel
  · rw [result]
    exact PmmFrame.refl kernel
  · rw [result]
    exact PmmFrame.ofPage kernel below _ _

/-- A free writes nothing but the bitmap and the page counter. -/
theorem pmmFreePage_frame (kernel : Kernel) (addr : Nat) :
    PmmFrame kernel (pmmFreePage kernel addr) := by
  -- Either nothing is written, or what belongs to one page.
  obtain ⟨-, result⟩ | ⟨below, -, result⟩ := pmmFreePage_cases kernel addr
  · rw [result]
    exact PmmFrame.refl kernel
  · rw [result]
    exact PmmFrame.ofPage kernel below _ _

end IncroOS
