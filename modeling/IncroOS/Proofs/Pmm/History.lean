import Mathlib.Logic.Relation
import IncroOS.Proofs.Pmm.Refinement

/-! The pages that clients hold decide all of the allocator's state, whatever calls led there. -/

namespace IncroOS

open Lib

/-- The kernel, with the pages that clients hold. -/
structure PageState where
  kernel : Kernel
  owned : Finset Nat

/-- A page is taken, unless none is left, or one that is held is given back. -/
inductive PageStep : PageState → PageState → Prop
  | alloc (state : PageState) :
      PageStep state
        ⟨(pmmAllocPage state.kernel).1,
          if (pmmAllocPage state.kernel).2 = 0 then state.owned
          else insert (pmmAllocPage state.kernel).2 state.owned⟩
  | free {state : PageState} {addr : UInt64} (mine : addr.toNat ∈ state.owned) :
      PageStep state ⟨pmmFreePage state.kernel addr.toNat, state.owned.erase addr.toNat⟩

/-- Any number of such calls. -/
abbrev PageRun : PageState → PageState → Prop := Relation.ReflTransGen PageStep

/-- What an initialised allocator has: 64-bit statics, and no page at the address that means none. -/
structure PmmReady (kernel : Kernel) : Prop where
  total : kernel.totalPages ≤ 2 ^ 52
  counter : kernel.usedPages < 2 ^ 64
  null : isPageAllocated kernel 0 = true

/-- The state that differs from a base in the pages that are held, which were free in the base. -/
structure HoldsSince (base : Kernel) (owned : Finset Nat) (kernel : Kernel) : Prop where
  frame : PmmFrame base kernel
  marks : ∀ page, isPageAllocated kernel page =
    (decide (page * pageSize ∈ owned) || isPageAllocated base page)
  fresh : ∀ a ∈ owned, a % pageSize = 0 ∧ a / pageSize < base.totalPages ∧
    isPageAllocated base (a / pageSize) = false
  count : kernel.usedPages = u64 (base.usedPages + owned.card)

section History

variable {base kernel kernel' : Kernel} {owned : Finset Nat} {state state' : PageState}

theorem HoldsSince.nothing (ready : PmmReady base) : HoldsSince base ∅ base := by
  refine ⟨PmmFrame.refl base, fun page => ?_, fun a member => absurd member (Finset.notMem_empty a),
    (u64_of_lt ready.counter).symm⟩
  rw [decide_eq_false (Finset.notMem_empty _), Bool.false_or]

/-- Only one state holds given pages. -/
theorem HoldsSince.unique (holds : HoldsSince base owned kernel)
    (holds' : HoldsSince base owned kernel') : kernel = kernel' := by
  have frame := holds.frame
  have frame' := holds'.frame
  have place := frame.pageBitmap.trans frame'.pageBitmap.symm
  -- Nothing below the bitmap was written, and the marks are the same.
  have below : ∀ a < kernel.pageBitmap, kernel.mem a = kernel'.mem a := by
    intro a low
    have outside : a ∉ bitmapSpan base := by
      rw [bitmapSpan, Set.mem_Ico]
      rw [frame.pageBitmap] at low
      omega
    rw [frame.mem a outside, frame'.mem a outside]
  have bits : ∀ page, bitAt kernel.mem kernel.pageBitmap page =
      bitAt kernel'.mem kernel.pageBitmap page := by
    intro page
    have bit := holds.marks page
    rw [← holds'.marks page, isPageAllocated_eq, isPageAllocated_eq] at bit
    rwa [← place] at bit
  have mem := mem_eq_of_bits below bits
  have cr3 := frame.cr3.trans frame'.cr3.symm
  have total := frame.totalPages.trans frame'.totalPages.symm
  have used := holds.count.trans holds'.count.symm
  have pml4 := frame.pml4.trans frame'.pml4.symm
  have start := frame.heapStart.trans frame'.heapStart.symm
  have allocated := frame.totalAllocated.trans frame'.totalAllocated.symm
  cases kernel
  cases kernel'
  subst mem cr3 place total used pml4 start allocated
  rfl

/-- A taking adds one page to those held. -/
theorem HoldsSince.alloc (ready : PmmReady base) (holds : HoldsSince base owned kernel) :
    HoldsSince base
      (if (pmmAllocPage kernel).2 = 0 then owned else insert (pmmAllocPage kernel).2 owned)
      (pmmAllocPage kernel).1 := by
  have frame := holds.frame.trans (pmmAllocPage_frame kernel)
  obtain ⟨-, result⟩ | ⟨p, below, free, -, result⟩ := pmmAllocPage_cases kernel
  · rw [result]
    exact holds
  · have bound := ready.total
    rw [holds.frame.totalPages] at below
    have mark := holds.marks p
    rw [free, eq_comm, Bool.or_eq_false_iff, decide_eq_false_iff_not] at mark
    have nonzero : p ≠ 0 := by
      rintro rfl
      exact absurd (mark.2.symm.trans ready.null) (by decide)
    have address : u64 (p * pageSize) = p * pageSize := by
      rw [pageAddress_eq (by omega), Nat.mul_comm]
    rw [result, address] at frame ⊢
    have valid : p * pageSize ≠ 0 := by
      simp only [pageSize]
      omega
    rw [if_neg valid]
    refine ⟨frame, fun page => ?_, fun a member => ?_, ?_⟩
    · -- The mark of the new page is set, and the others are as they were.
      have same : page * pageSize = p * pageSize ↔ page = p :=
        Nat.mul_left_inj (show pageSize ≠ 0 by decide)
      rw [isPageAllocated_reservePage, holds.marks page, ← Bool.or_assoc]
      simp only [Finset.mem_insert, same, Bool.decide_or]
    · rcases Finset.mem_insert.mp member with rfl | old
      · rw [Nat.mul_div_cancel p (show 0 < pageSize by decide)]
        exact ⟨Nat.mul_mod_left p pageSize, below, mark.2⟩
      · exact holds.fresh a old
    · have counted : (reservePage p kernel).usedPages = u64 (kernel.usedPages + 1) := rfl
      rw [counted, holds.count, Finset.card_insert_of_notMem mark.1]
      simp only [u64]
      omega

/-- A release takes one page away from those held. -/
theorem HoldsSince.free (holds : HoldsSince base owned kernel) {a : Nat} (mine : a ∈ owned) :
    HoldsSince base (owned.erase a) (pmmFreePage kernel a) := by
  obtain ⟨aligned, below, unmarked⟩ := holds.fresh a mine
  have frame := holds.frame.trans (pmmFreePage_frame kernel a)
  have address : a / pageSize * pageSize = a := Nat.div_mul_cancel (Nat.dvd_of_mod_eq_zero aligned)
  have marked : isPageAllocated kernel (a / pageSize) = true := by
    rw [holds.marks, address, decide_eq_true mine, Bool.true_or]
  obtain ⟨far | unset, -⟩ | ⟨-, -, result⟩ := pmmFreePage_cases kernel a
  · -- What is held lies below the total.
    rw [holds.frame.totalPages] at far
    omega
  · exact absurd (unset.symm.trans marked) (by decide)
  · rw [result] at frame ⊢
    refine ⟨frame, fun page => ?_, fun b member => ?_, ?_⟩
    · rw [uncountPage, isPageAllocated_withUsedPages, isPageAllocated_setFree, holds.marks page]
      by_cases same : page = a / pageSize
      · -- The page that is given back was not marked in the base.
        rw [same, address, unmarked, decide_eq_false (Finset.notMem_erase a owned)]
        simp
      · have other : page * pageSize ≠ a := fun equal => same (by
          rw [← equal, Nat.mul_div_cancel page (show 0 < pageSize by decide)])
        simp [same, other]
    · exact holds.fresh b (Finset.mem_of_mem_erase member)
    · have counted : (uncountPage (setPageFree kernel (a / pageSize))).usedPages =
          u64Sub kernel.usedPages 1 := rfl
      have some := Finset.card_pos.mpr ⟨a, mine⟩
      rw [counted, holds.count, Finset.card_erase_of_mem mine]
      simp only [u64Sub, u64]
      omega

/-- Every call keeps count of what is held. -/
theorem HoldsSince.step (ready : PmmReady base) (holds : HoldsSince base state.owned state.kernel)
    (step : PageStep state state') : HoldsSince base state'.owned state'.kernel := by
  cases step with
  | alloc => exact holds.alloc ready
  | free mine => exact holds.free mine

theorem HoldsSince.run (ready : PmmReady base) (holds : HoldsSince base state.owned state.kernel)
    (run : PageRun state state') : HoldsSince base state'.owned state'.kernel := by
  induction run with
  | refl => exact holds
  | tail _ step ih => exact ih.step ready step

/--
What is held decides the whole state: the memory, the counter and the marks.

No order of calls and no page held in between leaves a trace, and giving everything back undoes them.
-/
theorem page_history_irrelevant (ready : PmmReady base) (run : PageRun ⟨base, ∅⟩ ⟨kernel, owned⟩) :
    (∀ kernel', PageRun ⟨base, ∅⟩ ⟨kernel', owned⟩ → kernel' = kernel) ∧
    (owned = ∅ → kernel = base) ∧
    pmmGetUsedPages kernel = u64 (pmmGetUsedPages base + owned.card) ∧
    ∀ page, isPageAllocated kernel page =
      (decide (page * pageSize ∈ owned) || isPageAllocated base page) := by
  -- What the run comes to is fixed by the pages that are held, as `HoldsSince` says.
  have holds : HoldsSince base owned kernel := (HoldsSince.nothing ready).run ready run
  refine ⟨fun kernel' run' => ?_, ?_, holds.count, holds.marks⟩
  · exact ((HoldsSince.nothing ready).run ready run').unique holds
  · rintro rfl
    exact holds.unique (HoldsSince.nothing ready)

/-- What `pmm_init` sets up is ready. -/
theorem pmmReady_init {totalMemory : Nat} (zeroed : base.usedPages = 0)
    (large : 0x180000 ≤ totalMemory) (bound : totalMemory < 2 ^ 64) :
    PmmReady (pmmInit base totalMemory) := by
  obtain ⟨enough, small⟩ := totalPages_bounds large bound
  have total := pmmInit_totalPages large bound base
  have counter := pmmInit_usedPages large bound zeroed
  have pages := bitmapPages_eq small
  refine ⟨by omega, by omega, ?_⟩
  -- Page zero is among those that are reserved.
  rw [pmmInit_bits large bound base (by omega)]
  exact decide_eq_true (.inl (by decide))

/-- With the first page taken, the state is the only one in which that page is held. -/
theorem page_history_irrelevant_first :
    let base := pmmInit (Kernel.zeroed (fun _ => 0) 0x1000) 0x100000000
    let taken := pmmAllocPage base
    ∀ kernel', PageRun ⟨base, ∅⟩ ⟨kernel', if taken.2 = 0 then ∅ else insert taken.2 ∅⟩ →
      kernel' = taken.1 := by
  intro base taken
  have ready : PmmReady base := pmmReady_init rfl (by decide) (by decide)
  exact (page_history_irrelevant ready (.single (.alloc ⟨base, ∅⟩))).1

end History

section Row

variable {kernel : Kernel}

/-- A number of calls of `pmm_alloc_page` in a row, with what they return. -/
def allocPages : Nat → Kernel → Kernel × List Nat
  | 0, kernel => (kernel, [])
  | n + 1, kernel =>
    let first := pmmAllocPage kernel
    let rest := allocPages n first.1
    (rest.1, first.2 :: rest.2)

/-- The calls take from the pool until nothing is left, and return zeros from then on. -/
theorem allocPages_takes (n : Nat) (small : kernel.totalPages ≤ 2 ^ 52) :
    (allocPages n kernel).2 = (Pool.takes n (pagePool kernel)).map (· * pageSize) ++
      List.replicate (n - (pagePool kernel).free) 0 ∧
    pagePool (allocPages n kernel).1 = Pool.drain n (pagePool kernel) := by
  induction n generalizing kernel with
  | zero =>
    rw [Nat.zero_sub]
    exact ⟨rfl, rfl⟩
  | succ n ih =>
    have total : (pmmAllocPage kernel).1.totalPages = kernel.totalPages :=
      (pmmAllocPage_frame kernel).totalPages
    obtain ⟨returned, drained⟩ := ih (total ▸ small)
    rw [allocPages]
    dsimp only
    rw [returned, drained]
    obtain ⟨full, result⟩ | ⟨p, below, free, taken, result⟩ := pagePool_take kernel
    · -- Nothing is left, now or later.
      rw [result, Pool.takes_full full, Pool.takes_full full, Pool.free_of_take full, Pool.drain, full]
      exact ⟨rfl, rfl⟩
    · have address : u64 (p * pageSize) = p * pageSize := by
        rw [pageAddress_eq (by omega), Nat.mul_comm]
      have unused : p ∉ (pagePool kernel).used := by
        rw [pagePool_used, mem_allocatedPages, free]
        simp
      have fewer := Pool.free_mark below unused
      rw [result, pagePool_reservePage kernel below, Pool.takes_succ taken, Pool.drain, taken, address]
      have left : n + 1 - (pagePool kernel).free =
          n - ((pagePool kernel).mark p below).free := by omega
      rw [left]
      exact ⟨rfl, rfl⟩

/--
Calls in a row return the lowest free pages in ascending order, and zeros once these are used up.
-/
theorem allocations_in_a_row (ready : PmmReady kernel) (n : Nat) :
    ∃ taken : List Nat,
      (allocPages n kernel).2 = taken.map (· * pageSize) ++ List.replicate (n - taken.length) 0 ∧
      taken.length = min n (Finset.range kernel.totalPages \ allocatedPages kernel).card ∧
      taken.Pairwise (· < ·) ∧ 0 ∉ taken ∧
      (∀ p ∈ taken, p ∉ allocatedPages kernel ∧
        ∀ q < p, q ∈ allocatedPages kernel ∨ q ∈ taken) ∧
      allocatedPages (allocPages n kernel).1 = allocatedPages kernel ∪ taken.toFinset := by
  obtain ⟨returned, drained⟩ := allocPages_takes n ready.total
  have length := Pool.takes_length_eq n (pagePool kernel)
  have count : (pagePool kernel).free =
      (Finset.range kernel.totalPages \ allocatedPages kernel).card := by
    rw [Pool.free, Pool.freeBelow, Nat.min_self]
    rfl
  obtain ⟨unused, -⟩ := Pool.takes_free n (pagePool kernel)
  refine ⟨Pool.takes n (pagePool kernel), ?_, by rw [length, count],
    Pool.takes_ascending n _, fun zero => ?_, fun p member => ⟨(unused p member).2, ?_⟩, ?_⟩
  · have left : n - (Pool.takes n (pagePool kernel)).length = n - (pagePool kernel).free := by
      rw [length]
      omega
    rw [returned, left]
  · -- Page zero is marked, and would have to be free.
    obtain ⟨below, absent⟩ := unused 0 zero
    exact absent (mem_allocatedPages.mpr ⟨below, ready.null⟩)
  · intro q low
    by_cases used : q ∈ allocatedPages kernel
    · exact .inl used
    · exact .inr (Pool.takes_lowest member low used)
  · have used := congrArg Pool.used drained
    rwa [Pool.drain_used] at used

/-- Three calls in a row after the initialisation. -/
theorem allocations_in_a_row_first :
    let kernel := pmmInit (Kernel.zeroed (fun _ => 0) 0x1000) 0x100000000
    ∃ taken : List Nat, (allocPages 3 kernel).2 =
      taken.map (· * pageSize) ++ List.replicate (3 - taken.length) 0 ∧
      taken.Pairwise (· < ·) := by
  -- `pmm_init` marks page 0, so the theorem applies.
  intro kernel
  have ready : PmmReady kernel := pmmReady_init rfl (by decide) (by decide)
  obtain ⟨taken, returned, -, ascending, -⟩ := allocations_in_a_row ready 3
  exact ⟨taken, returned, ascending⟩

end Row

end IncroOS
