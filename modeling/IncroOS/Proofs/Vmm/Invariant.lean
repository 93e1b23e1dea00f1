import Mathlib.Data.Finset.Erase
import Mathlib.Data.Finset.Insert
import IncroOS.Proofs.Pmm.Refinement
import IncroOS.Proofs.Vmm.Tree

/-! Page tables and the page allocator together: every table lies in a page of its own. -/

namespace IncroOS

open Lib

/-- A table lies in an allocated page, apart from the bitmap. -/
structure TablePage (kernel : Kernel) (t : Nat) : Prop where
  positive : 0 < t / pageSize
  below : t / pageSize < kernel.totalPages
  allocated : isPageAllocated kernel (t / pageSize) = true
  apart : t / pageSize < 320 ∨ 384 ≤ t / pageSize

/-- A client's page is allocated, lies beyond the reserved ones, and is no table. -/
structure OwnedPage (kernel : Kernel) (a : Nat) : Prop where
  aligned : a % pageSize = 0
  below : a / pageSize < kernel.totalPages
  allocated : isPageAllocated kernel (a / pageSize) = true
  beyond : 384 ≤ a / pageSize
  unlinked : ∀ path, path.length ≤ 3 → tableAt kernel.mem path ≠ some a

/-- What holds of the kernel between calls, given the pages that clients own. -/
structure VmmInv (kernel : Kernel) (owned : Finset Nat) : Prop where
  cr3 : kernel.cr3 = bootCr3
  pml4 : kernel.pml4 = bootCr3
  pageBitmap : kernel.pageBitmap = bitmapAddress
  totalPages : kernel.totalPages = 2 ^ 20
  reserved : ∀ page < 384, isPageAllocated kernel page = true
  tree : PageTree kernel.mem
  tables : ∀ path t, path.length ≤ 3 → tableAt kernel.mem path = some t → TablePage kernel t
  owned : ∀ a ∈ owned, OwnedPage kernel a

/-- The bytes of all tables, and the bytes of the bitmap that record their pages. -/
def treeBytes (kernel : Kernel) : Set Nat :=
  {x | ∃ path t, path.length ≤ 3 ∧ tableAt kernel.mem path = some t ∧
    (x ∈ pageSpan t ∨ x = kernel.pageBitmap + pageToByte (t / pageSize))}

/-- A call that at most adds tables: it writes only to them, and no leaf entry changes. -/
structure Grows (kernel kernel' : Kernel) : Prop where
  paths : ∀ q t, q.length ≤ 3 → tableAt kernel.mem q = some t → tableAt kernel'.mem q = some t
  leaves : ∀ q j, q.length = 3 → leafAt kernel'.mem q j = leafAt kernel.mem q j
  changes : Mem.ChangesOnly kernel.mem kernel'.mem (treeBytes kernel')
  pageBitmap : kernel'.pageBitmap = kernel.pageBitmap

theorem Grows.refl (kernel : Kernel) : Grows kernel kernel :=
  ⟨fun _ _ _ met => met, fun _ _ _ => rfl, Mem.ChangesOnly.refl _ _, rfl⟩

/-- Tables that stay keep their bytes among those of the tree. -/
theorem treeBytes_mono {kernel kernel' : Kernel} (same : kernel'.pageBitmap = kernel.pageBitmap)
    (paths : ∀ q t, q.length ≤ 3 → tableAt kernel.mem q = some t → tableAt kernel'.mem q = some t) :
    treeBytes kernel ⊆ treeBytes kernel' := by
  rintro x ⟨path, t, short, met, place⟩
  exact ⟨path, t, short, paths path t short met, same ▸ place⟩

theorem Grows.trans {k₁ k₂ k₃ : Kernel} (first : Grows k₁ k₂) (second : Grows k₂ k₃) :
    Grows k₁ k₃ where
  paths q t short met := second.paths q t short (first.paths q t short met)
  leaves q j full := (second.leaves q j full).trans (first.leaves q j full)
  changes := (first.changes.mono (treeBytes_mono second.pageBitmap second.paths)).trans
    second.changes
  pageBitmap := second.pageBitmap.trans first.pageBitmap

section Bits

variable {kernel : Kernel} {mem : Mem} {region : Set Nat}

/-- Changes apart from the bitmap leave every page's mark alone. -/
theorem isPageAllocated_congr (changes : Mem.ChangesOnly kernel.mem mem region)
    (apart : Disjoint (bitmapSpan kernel) region) {page : Nat} (below : page < kernel.totalPages) :
    isPageAllocated (kernel.withMem mem) page = isPageAllocated kernel page := by
  -- The mark is read from one byte of the bitmap.
  have byte : mem (kernel.pageBitmap + page / 8) = kernel.mem (kernel.pageBitmap + page / 8) := by
    refine changes _ (Set.disjoint_left.mp apart ?_)
    simp only [bitmapSpan, Set.mem_Ico]
    omega
  rw [isPageAllocated_eq, isPageAllocated_eq, bitAt, bitAt, Kernel.withMem_mem,
    Kernel.withMem_pageBitmap, byte]

end Bits

section Layout

variable {kernel : Kernel} {owned : Finset Nat} (inv : VmmInv kernel owned)
include inv

/-- The bitmap of 4 GiB takes the pages from 320 up to 352. -/
theorem VmmInv.bitmap_bounds : bitmapSpan kernel = Set.Ico 0x140000 0x160000 := by
  have last : bitmapAddress + (2 ^ 20 + 7) / 8 = 0x160000 := by decide
  have place : bitmapAddress = 0x140000 := rfl
  rw [bitmapSpan, inv.pageBitmap, inv.totalPages, last, place]

/-- Pages outside the reserved range from 320 to 384 are apart from the bitmap. -/
theorem VmmInv.bitmap_apart {a : Nat} (aligned : a % pageSize = 0)
    (apart : a / pageSize < 320 ∨ 384 ≤ a / pageSize) :
    Disjoint (bitmapSpan kernel) (pageSpan a) := by
  -- The bitmap takes the pages from 320 to 351.
  rw [inv.bitmap_bounds, Set.disjoint_left]
  intro x inside
  simp only [pageSpan, Set.mem_Ico] at inside ⊢
  simp only [pageSize] at *
  omega

/-- Tables lie in pages, and different tables in different ones. -/
theorem VmmInv.table_aligned {path : List (Fin 512)} {t : Nat} (short : path.length ≤ 3)
    (met : tableAt kernel.mem path = some t) : t % pageSize = 0 :=
  inv.tree.aligned path t short met

/-- The address of a page below the total does not wrap. -/
theorem VmmInv.page_address {page : Nat} (below : page < kernel.totalPages) :
    u64 (page * pageSize) = page * pageSize := by
  have total := inv.totalPages
  rw [pageAddress_eq (by omega), Nat.mul_comm]

/-- A free page is beyond the reserved ones and holds no table. -/
theorem VmmInv.free_page {page : Nat} (free : isPageAllocated kernel page = false) :
    384 ≤ page ∧ ∀ path, path.length ≤ 3 → tableAt kernel.mem path ≠ some (page * pageSize) := by
  -- Both the reserved pages and the tables are marked.
  constructor
  · by_contra low
    have marked := inv.reserved page (by omega)
    exact absurd (marked.symm.trans free) (by decide)
  · intro path short met
    have marked := (inv.tables path _ short met).allocated
    rw [Nat.mul_div_cancel page (show 0 < pageSize by decide)] at marked
    exact absurd (marked.symm.trans free) (by decide)

/-- A table's entry reads the same after changes to the bitmap and to a page that is no table. -/
theorem VmmInv.slot_congr {mem : Mem} {a : Nat} (aligned : a % pageSize = 0)
    (changes : Mem.ChangesOnly kernel.mem mem (bitmapSpan kernel ∪ pageSpan a))
    {path : List (Fin 512)} {t : Nat} (short : path.length ≤ 3)
    (met : tableAt kernel.mem path = some t) (other : t ≠ a) (i : Fin 512) :
    slot mem t i = slot kernel.mem t i := by
  -- The entry lies in a page of its own, which the changes do not reach.
  have tableAligned := inv.table_aligned short met
  refine pte_congr changes i.isLt (Set.disjoint_union_right.mpr ⟨?_, ?_⟩)
  · exact (inv.bitmap_apart tableAligned (inv.tables path t short met).apart).symm
  · -- Pages with different addresses do not overlap.
    rw [Set.disjoint_left]
    intro x inside
    simp only [pageSpan, Set.mem_Ico] at inside ⊢
    simp only [pageSize] at *
    omega

end Layout

section Allocation

variable {kernel : Kernel} {owned : Finset Nat} (inv : VmmInv kernel owned)

/-- The zeroing loop of `alloc_page_table` clears the entries of one page. -/
theorem clearLoop_table (kernel : Kernel) (table : Nat) :
    ∃ mem, forLoop (clearPte table) 0 512 kernel = kernel.withMem mem ∧
      Mem.ChangesOnly kernel.mem mem (pageSpan table) ∧ ∀ j < 512, pte mem table j = 0 := by
  -- After `i` turns the first `i` entries are zero.
  refine forLoop_invariant (clearPte table) 0 512 kernel (fun i s => ∃ mem, s = kernel.withMem mem ∧
    Mem.ChangesOnly kernel.mem mem (pageSpan table) ∧ ∀ j < i, pte mem table j = 0) ?_ ?_
  · exact ⟨kernel.mem, rfl, Mem.ChangesOnly.refl _ _, fun j impossible => absurd impossible (by omega)⟩
  · rintro i s - within ⟨mem, rfl, changes, zeros⟩
    refine ⟨setPte mem table i 0, rfl, changes.trans (setPte_changes mem table i 0 (by omega)), ?_⟩
    intro j below
    by_cases here : j = i
    · rw [here, pte_setPte mem table i 0 (by decide)]
    · rw [← zeros j (by omega)]
      exact Mem.read_write_apart mem (by omega)

/-- The memory in which a free page has been marked and cleared for a table. -/
structure FreshTable (kernel : Kernel) (page : Nat) (mem : Mem) : Prop where
  below : page < kernel.totalPages
  free : isPageAllocated kernel page = false
  changes : Mem.ChangesOnly kernel.mem mem
    ({kernel.pageBitmap + pageToByte page} ∪ pageSpan (page * pageSize))
  zeros : ∀ j < 512, pte mem (page * pageSize) j = 0
  marks : ∀ q < kernel.totalPages, isPageAllocated (kernel.withMem mem) q =
    (decide (q = page) || isPageAllocated kernel q)

/-- A fresh table comes from a free page, is cleared, and nothing else but its mark changes. -/
theorem allocPageTable_cases (inv : VmmInv kernel owned) :
    ((pagePool kernel).take = (pagePool kernel, none) ∧ pmmAllocPage kernel = (kernel, 0) ∧
      allocPageTable kernel = (kernel, 0)) ∨
    ∃ page, ∃ below : page < kernel.totalPages, ∃ mem, FreshTable kernel page mem ∧
      (pagePool kernel).take = ((pagePool kernel).mark page below, some page) ∧
      pmmAllocPage kernel = (reservePage page kernel, page * pageSize) ∧
      allocPageTable kernel =
        ((kernel.withMem mem).withUsedPages (u64 (kernel.usedPages + 1)), page * pageSize) := by
  -- The cases are those of the pool.
  obtain ⟨empty, result⟩ | ⟨page, below, free, taken, result⟩ := pagePool_take kernel
  · refine .inl ⟨empty, result, ?_⟩
    rw [allocPageTable, result]
    rfl
  · right
    have beyond := (inv.free_page free).1
    have address := inv.page_address below
    obtain ⟨mem, cleared, changes, zeros⟩ :=
      clearLoop_table (reservePage page kernel) (page * pageSize)
    have aligned : page * pageSize % pageSize = 0 := Nat.mul_mod_left page pageSize
    have quotient : page * pageSize / pageSize = page := Nat.mul_div_cancel page (by decide)
    have marked : Mem.ChangesOnly kernel.mem (reservePage page kernel).mem
        {kernel.pageBitmap + pageToByte page} := Mem.set_changes _ _ _
    refine ⟨page, below, mem, ⟨below, free, ?_, zeros, ?_⟩, taken, by rw [result, address], ?_⟩
    · exact (marked.mono Set.subset_union_left).trans (changes.mono Set.subset_union_right)
    · -- Clearing the page leaves the marks alone, since the bitmap lies in reserved pages.
      intro q inside
      have apart : Disjoint (bitmapSpan (reservePage page kernel)) (pageSpan (page * pageSize)) :=
        inv.bitmap_apart aligned (.inr (by rw [quotient]; exact beyond))
      have same := isPageAllocated_congr changes apart inside
      have marks := isPageAllocated_reservePage kernel page q
      rw [← same] at marks
      exact marks
    · have nonnull : page * pageSize ≠ 0 := by
        simp only [pageSize]
        omega
      simp only [allocPageTable, result, address, if_neg nonnull, cleared]
      rfl

end Allocation

end IncroOS
