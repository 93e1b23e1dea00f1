import IncroOS.Lib.Pool
import IncroOS.Proofs.Pmm.Init

/-! The bitmap allocator simulates a pool of pages that hands out the lowest free one. -/

namespace IncroOS

open Lib

/-- The pages below the total whose bit is set. -/
def allocatedPages (kernel : Kernel) : Finset Nat :=
  (Finset.range kernel.totalPages).filter fun page => isPageAllocated kernel page

@[simp] theorem mem_allocatedPages {kernel : Kernel} {page : Nat} :
    page ∈ allocatedPages kernel ↔
      page < kernel.totalPages ∧ isPageAllocated kernel page = true := by
  simp [allocatedPages]

/-- The pool of pages that a bitmap stands for. -/
def pagePool (kernel : Kernel) : Pool where
  bound := kernel.totalPages
  used := allocatedPages kernel
  inside := Finset.filter_subset _ _

@[simp] theorem pagePool_used (kernel : Kernel) :
    (pagePool kernel).used = allocatedPages kernel := rfl

@[simp] theorem pagePool_bound (kernel : Kernel) :
    (pagePool kernel).bound = kernel.totalPages := rfl

/-- A call into the page allocator, with any 64-bit argument. -/
inductive PmmOp where
  | alloc
  | free (addr : UInt64)
  deriving DecidableEq

/-- The state a call leaves behind. -/
def PmmOp.apply (kernel : Kernel) : PmmOp → Kernel
  | .alloc => (pmmAllocPage kernel).1
  | .free addr => pmmFreePage kernel addr.toNat

/-- The state a sequence of calls leaves behind. -/
def runPmm (kernel : Kernel) (ops : List PmmOp) : Kernel :=
  ops.foldl PmmOp.apply kernel

/-- What a call means for the pool of pages. -/
def PmmOp.onPool : PmmOp → Pool.Op
  | .alloc => .take
  | .free addr => .release (addr.toNat / pageSize)

/-- No call moves the page count. -/
@[simp] theorem apply_totalPages (kernel : Kernel) (op : PmmOp) :
    (op.apply kernel).totalPages = kernel.totalPages := by
  cases op with
  | alloc => exact (pmmAllocPage_frame kernel).totalPages
  | free addr => exact (pmmFreePage_frame kernel addr.toNat).totalPages

/-- No run of calls moves the page count. -/
@[simp] theorem runPmm_totalPages (kernel : Kernel) (ops : List PmmOp) :
    (runPmm kernel ops).totalPages = kernel.totalPages := by
  induction ops generalizing kernel with
  | nil => rfl
  | cons op rest ih => exact (ih (op.apply kernel)).trans (apply_totalPages kernel op)

/-- Reserving a page below the total adds it to the allocated ones. -/
theorem allocatedPages_reservePage (kernel : Kernel) {page : Nat}
    (below : page < kernel.totalPages) :
    allocatedPages (reservePage page kernel) = insert page (allocatedPages kernel) := by
  -- The total does not change, so both sides agree page by page.
  ext p
  have total : (reservePage page kernel).totalPages = kernel.totalPages := rfl
  simp only [mem_allocatedPages, isPageAllocated_reservePage, total, Finset.mem_insert,
    Bool.or_eq_true, decide_eq_true_eq]
  by_cases same : p = page
  · simp [same, below]
  · simp [same]

/-- Freeing an address removes its page from the allocated ones. -/
theorem allocatedPages_pmmFreePage (kernel : Kernel) (addr : Nat) :
    allocatedPages (pmmFreePage kernel addr) =
      (allocatedPages kernel).erase (addr / pageSize) := by
  -- Either the free is ignored, or it clears the bit of one page.
  obtain ⟨absent, same⟩ | ⟨below, bit, result⟩ := pmmFreePage_cases kernel addr
  · -- The page was not among the allocated ones, so removing it changes nothing.
    have outside : addr / pageSize ∉ allocatedPages kernel := by
      rintro member
      obtain ⟨below, bit⟩ := mem_allocatedPages.mp member
      rcases absent with far | clear
      · exact absurd below (Nat.not_lt.mpr far)
      · simp [bit] at clear
    rw [same, Finset.erase_eq_of_notMem outside]
  · ext p
    have bits : isPageAllocated (pmmFreePage kernel addr) p =
        (decide (p ≠ addr / pageSize) && isPageAllocated kernel p) := by
      rw [result, uncountPage, isPageAllocated_withUsedPages, isPageAllocated_setFree]
    have total : (pmmFreePage kernel addr).totalPages = kernel.totalPages :=
      (pmmFreePage_frame kernel addr).totalPages
    simp only [mem_allocatedPages, bits, total, Finset.mem_erase, Bool.and_eq_true,
      decide_eq_true_eq]
    exact and_left_comm

/-- One more page marked is one more page in use. -/
theorem pagePool_marked {kernel kernel' : Kernel} {page : Nat} (below : page < kernel.totalPages)
    (total : kernel'.totalPages = kernel.totalPages)
    (bits : ∀ q < kernel.totalPages, isPageAllocated kernel' q =
      (decide (q = page) || isPageAllocated kernel q)) :
    pagePool kernel' = (pagePool kernel).mark page below := by
  -- The bounds are equal, and the marks are compared page by page.
  refine Pool.ext total (Finset.ext fun q => ?_)
  have marked : q ∈ ((pagePool kernel).mark page below).used ↔ q = page ∨ q ∈ allocatedPages kernel :=
    Finset.mem_insert
  rw [marked, mem_allocatedPages]
  show q ∈ allocatedPages kernel' ↔ _
  rw [mem_allocatedPages, total]
  constructor
  · rintro ⟨inside, set⟩
    rw [bits q inside, Bool.or_eq_true, decide_eq_true_eq] at set
    exact set.imp_right fun old => ⟨inside, old⟩
  · rintro (rfl | ⟨inside, set⟩)
    · exact ⟨below, by rw [bits q below, decide_eq_true rfl, Bool.true_or]⟩
    · exact ⟨inside, by rw [bits q inside, set, Bool.or_true]⟩

/-- Reserving a page below the total marks it in the pool. -/
theorem pagePool_reservePage (kernel : Kernel) {page : Nat} (below : page < kernel.totalPages) :
    pagePool (reservePage page kernel) = (pagePool kernel).mark page below :=
  pagePool_marked below rfl fun q _ => isPageAllocated_reservePage kernel page q

/-- The pool and `pmm_alloc_page` are exhausted together, or take the same page. -/
theorem pagePool_take (kernel : Kernel) :
    ((pagePool kernel).take = (pagePool kernel, none) ∧ pmmAllocPage kernel = (kernel, 0)) ∨
    ∃ p, ∃ below : p < kernel.totalPages, isPageAllocated kernel p = false ∧
      (pagePool kernel).take = ((pagePool kernel).mark p below, some p) ∧
      pmmAllocPage kernel = (reservePage p kernel, u64 (p * pageSize)) := by
  -- Both sides pick the least page that is not allocated, and there is only one such page.
  obtain ⟨full, result⟩ | ⟨p, below, free, least, result⟩ := pmmAllocPage_cases kernel
  · obtain ⟨-, same⟩ | ⟨q, inside, absent, -, -⟩ := (pagePool kernel).take_cases
    · exact .inl ⟨same, result⟩
    · exact absurd (mem_allocatedPages.mpr ⟨inside, full q inside⟩) absent
  · obtain ⟨all, -⟩ | ⟨q, inside, absent, lower, same⟩ := (pagePool kernel).take_cases
    · have member : p ∈ allocatedPages kernel := by
        have everything : allocatedPages kernel = Finset.range kernel.totalPages := all
        rw [everything]
        exact Finset.mem_range.mpr below
      simp [free] at member
    · obtain rfl : q = p := by
        rcases Nat.lt_trichotomy q p with before | equal | after
        · exact absurd (mem_allocatedPages.mpr ⟨inside, least q before⟩) absent
        · exact equal
        · have member : p ∈ allocatedPages kernel := lower p after
          simp [free] at member
      exact .inr ⟨q, below, free, same, result⟩

/-- The pool's choice is the page that `pmm_alloc_page` takes, or neither has one. -/
theorem pagePool_alloc (kernel : Kernel) :
    (pagePool (pmmAllocPage kernel).1, (pmmAllocPage kernel).2) =
      ((pagePool kernel).take.1, ((pagePool kernel).take.2.map fun p => u64 (p * pageSize)).getD 0)
    := by
  obtain ⟨same, result⟩ | ⟨p, below, -, same, result⟩ := pagePool_take kernel
  · simp [result, same]
  · simp [result, same, pagePool_reservePage kernel below]

/-- Each call of the allocator is a step of the pool. -/
theorem pagePool_apply (kernel : Kernel) (op : PmmOp) :
    pagePool (op.apply kernel) = (pagePool kernel).step op.onPool := by
  -- The two calls are the two steps of a pool.
  cases op with
  | alloc => exact congrArg Prod.fst (pagePool_alloc kernel)
  | free addr =>
    exact Pool.ext (pmmFreePage_frame kernel addr.toNat).totalPages
      (allocatedPages_pmmFreePage kernel addr.toNat)

/-- Every run of the allocator is a run of the pool. -/
theorem pagePool_run (kernel : Kernel) (ops : List PmmOp) :
    pagePool (runPmm kernel ops) = (pagePool kernel).run (ops.map PmmOp.onPool) := by
  -- The pool takes its step along with each call.
  induction ops generalizing kernel with
  | nil => rfl
  | cons op rest ih =>
    have rest := ih (op.apply kernel)
    rwa [pagePool_apply] at rest

/-- `pmm_alloc_page` hands out the page: it was free, and it is the one returned and added. -/
def HandsOut (kernel : Kernel) (page : Nat) : Prop :=
  page < kernel.totalPages ∧ page ∉ allocatedPages kernel ∧
    (pmmAllocPage kernel).2 = pageSize * page ∧
    allocatedPages (pmmAllocPage kernel).1 = insert page (allocatedPages kernel)

/-- Page addresses of a 64-bit memory do not wrap. -/
theorem pageAddress_eq {page : Nat} (bound : page < 2 ^ 52) :
    u64 (page * pageSize) = pageSize * page := by
  unfold pageSize
  rw [u64_of_lt (by omega), Nat.mul_comm]

/-- An allocation hands out the lowest free page, or finds every page allocated. -/
theorem pmmAllocPage_handsOut (kernel : Kernel) (bound : kernel.totalPages ≤ 2 ^ 52) :
    (allocatedPages kernel = Finset.range kernel.totalPages ∧
      pmmAllocPage kernel = (kernel, 0)) ∨
    ∃ page, HandsOut kernel page ∧ ∀ q < page, q ∈ allocatedPages kernel := by
  -- The two cases of the scan are those of the pool.
  obtain ⟨full, result⟩ | ⟨p, below, free, least, result⟩ := pmmAllocPage_cases kernel
  · -- Every page below the total is marked.
    refine .inl ⟨?_, result⟩
    exact Finset.filter_true_of_mem fun p member => full p (Finset.mem_range.mp member)
  · refine .inr ⟨p, ⟨below, by simp [free], ?_, ?_⟩, fun q lower => ?_⟩
    · rw [result]
      exact pageAddress_eq (by omega)
    · rw [result]
      exact allocatedPages_reservePage kernel below
    · exact mem_allocatedPages.mpr ⟨by omega, least q lower⟩

/-- Handing out a page is the pool's taking it. -/
theorem HandsOut.taken {kernel : Kernel} {page : Nat} (handed : HandsOut kernel page) :
    (pagePool kernel).take.2 = some page := by
  obtain ⟨below, absent, -, grown⟩ := handed
  have pools := congrArg Prod.fst (pagePool_alloc kernel)
  -- The pool has grown by the page that was handed out.
  have used : (pagePool kernel).take.1.used = insert page (allocatedPages kernel) := by
    rw [← grown]
    exact congrArg Pool.used pools.symm
  obtain ⟨-, same⟩ | ⟨q, inside, free, -, same⟩ := (pagePool kernel).take_cases
  · -- An exhausted pool would not have grown.
    rw [same] at used
    have member : page ∈ (pagePool kernel).used := by
      rw [used]
      exact Finset.mem_insert_self page (allocatedPages kernel)
    exact absurd member absent
  · rw [same] at used
    have member : q ∈ insert page (allocatedPages kernel) := by
      rw [← used]
      exact Finset.mem_insert_self q (pagePool kernel).used
    rcases Finset.mem_insert.mp member with named | old
    · rw [same, ← named]
    · exact absurd old free

/-- A page handed out is not handed out again before a free of an address inside it. -/
theorem handsOut_once {kernel : Kernel} {page : Nat} (handed : HandsOut kernel page)
    {later : List PmmOp} (unfreed : ∀ addr, PmmOp.free addr ∈ later →
      addr.toNat / pageSize ≠ page) : ¬HandsOut (runPmm (pmmAllocPage kernel).1 later) page := by
  intro again
  -- A free of another page is a release of another page.
  have unreleased : Pool.Op.release page ∉ later.map PmmOp.onPool := by
    intro member
    obtain ⟨op, listed, same⟩ := List.mem_map.mp member
    cases op with
    | alloc => simp [PmmOp.onPool] at same
    | free addr => exact unfreed addr listed (by simpa [PmmOp.onPool] using same)
  apply Pool.not_taken_twice handed.taken unreleased
  have pools : pagePool (pmmAllocPage kernel).1 = (pagePool kernel).take.1 :=
    congrArg Prod.fst (pagePool_alloc kernel)
  rw [← pools, ← pagePool_run]
  exact again.taken

/-- After initialisation the allocated pages are exactly the reserved ones. -/
theorem allocatedPages_pmmInit (kernel : Kernel) {totalMemory page : Nat}
    (large : 0x180000 ≤ totalMemory) (bound : totalMemory < 2 ^ 64) :
    page ∈ allocatedPages (pmmInit kernel totalMemory) ↔
      initiallyReserved (totalMemory / pageSize) page := by
  -- Below the total the marks are the reserved pages, and all of these lie below it.
  obtain ⟨enough, small⟩ := totalPages_bounds large bound
  rw [mem_allocatedPages, pmmInit_totalPages large bound]
  constructor
  · rintro ⟨below, bit⟩
    rw [pmmInit_bits large bound kernel below] at bit
    exact of_decide_eq_true bit
  · intro reserved
    have below := initiallyReserved_lt enough small reserved
    exact ⟨below, by rw [pmmInit_bits large bound kernel below]; exact decide_eq_true reserved⟩

/--
The bitmap allocator refines a set of allocated pages with lowest-first choice.

The set starts as the reserved pages, an allocation adds the least absent page or reports
exhaustion, a free removes exactly its own page, and no page is handed out twice without a free.
-/
theorem pmm_refines_page_set (kernel : Kernel) (totalMemory : UInt64)
    (large : 0x180000 ≤ totalMemory.toNat) :
    let total := totalMemory.toNat / pageSize
    let start := pmmInit kernel totalMemory.toNat
    (∀ page, page ∈ allocatedPages start ↔
      page < 384 ∨ (320 ≤ page ∧ page < 320 + bitmapPages total)) ∧
    ∀ ops : List PmmOp, let state := runPmm start ops
      ((allocatedPages state = Finset.range total ∧ pmmAllocPage state = (state, 0)) ∨
        ∃ page, HandsOut state page ∧ ∀ q < page, q ∈ allocatedPages state) ∧
      (∀ addr : UInt64, allocatedPages (pmmFreePage state addr.toNat) =
        if addr.toNat / pageSize < total then (allocatedPages state).erase (addr.toNat / pageSize)
        else allocatedPages state) ∧
      ∀ page, HandsOut state page → ∀ later : List PmmOp,
        (∀ addr, PmmOp.free addr ∈ later → addr.toNat / pageSize ≠ page) →
          ¬HandsOut (runPmm (pmmAllocPage state).1 later) page := by
  intro total start
  have bound : totalMemory.toNat < 2 ^ 64 := totalMemory.toNat_lt
  obtain ⟨-, small⟩ := totalPages_bounds large bound
  refine ⟨fun page => allocatedPages_pmmInit kernel large bound, fun ops => ?_⟩
  intro state
  have pages : state.totalPages = total :=
    (runPmm_totalPages start ops).trans (pmmInit_totalPages large bound kernel)
  refine ⟨?_, fun addr => ?_, fun page handed later unfreed => handsOut_once handed unfreed⟩
  · rw [← pages]
    exact pmmAllocPage_handsOut state (by rw [pages]; exact small.le)
  · rw [allocatedPages_pmmFreePage]
    split
    · rfl
    · -- A page at or above the total is in no set of allocated pages.
      rename_i outside
      apply Finset.erase_eq_of_notMem
      simp [pages, outside]

/-- The refinement at the memory size the kernel passes. -/
theorem pmm_refines_page_set_four_gib :
    (0x180000 ≤ (0x100000000 : UInt64).toNat) ∧
    ∀ page, page ∈ allocatedPages (pmmInit (Kernel.zeroed (fun _ => 0) 0x1000)
        (0x100000000 : UInt64).toNat) ↔
      page < 384 ∨
        (320 ≤ page ∧ page < 320 + bitmapPages ((0x100000000 : UInt64).toNat / pageSize)) :=
  ⟨by decide, (pmm_refines_page_set (Kernel.zeroed (fun _ => 0) 0x1000) 0x100000000
    (by decide)).1⟩

end IncroOS
