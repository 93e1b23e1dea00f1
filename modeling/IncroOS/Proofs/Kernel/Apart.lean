import IncroOS.Proofs.Kernel.Modules
import IncroOS.Proofs.Kernel.Overlap
import IncroOS.Proofs.Kmalloc.Frame
import IncroOS.Proofs.Output.Terminal
import IncroOS.Proofs.Vmm.Demand
import IncroOS.Proofs.Vmm.Tables

/-! The memory of each module, and why no other module writes to it once the heap's pages are taken. -/

namespace IncroOS

open Lib

section Places

variable {x a : Nat}

/-- The pages under the heap. -/
def heapPages : Finset Nat := (Finset.range 128).image fun k => heapBase + k * pageSize

theorem mem_heapPages : a ∈ heapPages ↔ ∃ k < 128, heapBase + k * pageSize = a := by
  simp [heapPages]

/-- The bytes of the screen. -/
def screenSpan : Set Nat := Set.Ico 0xB8000 (0xB8000 + 2 * screenSize)

theorem mem_heapSpan : x ∈ heapSpan ↔ 0x180000 ≤ x ∧ x < 0x200000 := by
  rw [heapSpan, Set.mem_Ico, heapBase_eq, heapSize_eq]

theorem mem_screenSpan : x ∈ screenSpan ↔ 0xB8000 ≤ x ∧ x < 0xB8FA0 := Iff.rfl

theorem mem_pageSpan : x ∈ pageSpan a ↔ a ≤ x ∧ x < a + 4096 := Iff.rfl

/-- A page that is none of the heap's has no byte of the heap. -/
theorem pageSpan_off_heap (aligned : a % pageSize = 0) (other : a ∉ heapPages)
    (inside : x ∈ pageSpan a) : x ∉ heapSpan := by
  intro member
  rw [mem_heapSpan] at member
  rw [mem_pageSpan] at inside
  simp only [pageSize] at aligned
  -- A page that reaches into the heap starts within it.
  refine other (mem_heapPages.mpr ⟨a / pageSize - 384, ?_, ?_⟩)
  · simp only [pageSize]
    omega
  · rw [heapBase_eq]
    simp only [pageSize]
    omega

end Places

section Frames

variable {kernel kernel' : Kernel} {owned : Finset Nat} {region : Set Nat}

/-- Where the tables lie: in the pages of the loader, or beyond the reserved ones in the first GiB. -/
def TablesPlaced (kernel : Kernel) : Prop :=
  ∀ t ∈ tableSet kernel.mem, (t ∈ bootTables ∨ 384 * pageSize ≤ t) ∧ InIdentityMap t

/-- A table of the tree has no byte in the heap or on the screen. -/
theorem table_apart {t x : Nat} (inv : VmmInv kernel (owned ∪ heapPages))
    (placed : TablesPlaced kernel) (member : t ∈ tableSet kernel.mem) (inside : x ∈ pageSpan t) :
    x ∉ heapSpan ∧ x ∉ screenSpan := by
  obtain ⟨path, short, met⟩ := member
  have aligned := inv.table_aligned short met
  refine ⟨pageSpan_off_heap aligned (fun mine => ?_) inside, fun shown => ?_⟩
  · -- The pages of the heap are taken, and no table hangs in them.
    exact (inv.owned t (Finset.mem_union_right owned mine)).unlinked path short met
  · rw [mem_screenSpan] at shown
    rw [mem_pageSpan] at inside
    rcases (placed t ⟨path, short, met⟩).1 with (rfl | rfl | rfl) | beyond
    · omega
    · omega
    · omega
    · simp only [pageSize] at beyond
      omega

/-- The bytes that a growing tree writes to are none of the heap's or the screen's. -/
theorem treeBytes_apart {x : Nat} (inv : VmmInv kernel (owned ∪ heapPages))
    (placed : TablesPlaced kernel) (written : x ∈ treeBytes kernel) :
    x ∉ heapSpan ∧ x ∉ screenSpan := by
  obtain ⟨path, t, short, met, inside | mark⟩ := written
  · exact table_apart inv placed ⟨path, short, met⟩ inside
  · -- A mark lies in the bitmap, which is apart from both.
    have below := (inv.tables path t short met).below
    have total := inv.totalPages
    have place := inv.pageBitmap
    have address : bitmapAddress = 0x140000 := rfl
    generalize t / pageSize = page at below mark
    rw [mem_heapSpan, mem_screenSpan, mark, place, address]
    simp only [pageToByte, pagesPerByte]
    omega

/-- The heap and the screen are apart from the bitmap. -/
theorem bitmap_apart_places {x : Nat} (inv : VmmInv kernel owned) (inside : x ∈ bitmapSpan kernel) :
    x ∉ heapSpan ∧ x ∉ screenSpan := by
  -- The bitmap is from 0x140000 to 0x160000, between the screen and the heap.
  rw [inv.bitmap_bounds, Set.mem_Ico] at inside
  rw [mem_heapSpan, mem_screenSpan]
  omega

/-- The statics that the pages and the mappings rest on. -/
structure SameStatics (kernel kernel' : Kernel) : Prop where
  cr3 : kernel'.cr3 = kernel.cr3
  pml4 : kernel'.pml4 = kernel.pml4
  pageBitmap : kernel'.pageBitmap = kernel.pageBitmap
  totalPages : kernel'.totalPages = kernel.totalPages

/-- A page's mark is read from the memory at the bitmap. -/
theorem SameStatics.mark (same : SameStatics kernel kernel') (page : Nat) :
    isPageAllocated kernel' page = isPageAllocated (kernel.withMem kernel'.mem) page := by
  rw [isPageAllocated_eq, isPageAllocated_eq, same.pageBitmap]
  rfl

/-- The pool is read from the marks. -/
theorem SameStatics.pool (same : SameStatics kernel kernel') :
    pagePool kernel' = pagePool (kernel.withMem kernel'.mem) := by
  -- A mark depends on `page_bitmap` and memory, which are the same on both sides.
  refine Pool.ext same.totalPages (Finset.ext fun page => ?_)
  show page ∈ allocatedPages kernel' ↔ page ∈ allocatedPages (kernel.withMem kernel'.mem)
  rw [mem_allocatedPages, mem_allocatedPages, same.totalPages, same.mark]
  rfl

/-- What writes neither to tables nor to the bitmap spares the pages and every mapping. -/
theorem VmmInv.elsewhere (inv : VmmInv kernel owned) (same : SameStatics kernel kernel')
    (changes : Mem.ChangesOnly kernel.mem kernel'.mem region)
    (bitmap : ∀ x ∈ region, x ∉ bitmapSpan kernel)
    (tables : ∀ t ∈ tableSet kernel.mem, ∀ x ∈ pageSpan t, x ∉ region) :
    TablesSpared kernel kernel' owned ∧ pagePool kernel' = pagePool kernel := by
  -- Marks and entries are read from bytes outside the region, so each reads as before.
  have apart : Disjoint (bitmapSpan kernel) region := by
    rw [Set.disjoint_left]
    exact fun x inside written => bitmap x written inside
  have marks : ∀ q < kernel.totalPages, isPageAllocated kernel' q = isPageAllocated kernel q :=
    fun q below => (same.mark q).trans (isPageAllocated_congr changes apart below)
  have total := inv.totalPages
  refine ⟨inv.frame same.cr3 same.pml4 same.pageBitmap same.totalPages ?_ ?_ ?_ ?_,
    same.pool.trans (pagePool_congr changes apart)⟩
  · intro path t i short met
    refine pte_congr changes i.isLt ?_
    rw [Set.disjoint_left]
    exact tables t ⟨path, short, met⟩
  · intro q low
    rw [marks q (by omega)]
    exact inv.reserved q low
  · intro path t short met
    have page := inv.tables path t short met
    rw [marks _ page.below]
    exact page.allocated
  · intro b member
    have page := inv.owned b member
    exact ⟨page.aligned, page.below, (marks _ page.below).trans page.allocated, page.beyond,
      page.unlinked⟩

/-- No call adds tables in other places where it adds none at all. -/
theorem TablesPlaced.kept (placed : TablesPlaced kernel)
    (extends_ : Extends kernel.mem kernel'.mem []) : TablesPlaced kernel' := by
  -- With no path added, every table was one before.
  intro t member
  rw [extends_.tables] at member
  exact placed t (member.resolve_right List.not_mem_nil)

/-- Mapping a page does not move the heap. -/
theorem getOrCreateTable_heapStart (kernel : Kernel) (parent index flags : Nat) :
    (getOrCreateTable kernel parent index flags).1.heapStart = kernel.heapStart := by
  -- Of the statics, a new table changes only the counter of used pages.
  have allocated := (pmmAllocPage_frame kernel).heapStart
  have made : (allocPageTable kernel).1.heapStart = kernel.heapStart := by
    unfold allocPageTable
    dsimp only
    split
    · exact allocated
    · exact forLoop_preserves (fun s : Kernel => s.heapStart = kernel.heapStart) allocated
        fun _ _ _ _ same => same
  unfold getOrCreateTable
  dsimp only
  split
  · rfl
  · split
    · exact made
    · exact made

theorem vmmMapPage_heapStart (kernel : Kernel) (virt phys flags : Nat) :
    (vmmMapPage kernel virt phys flags).1.heapStart = kernel.heapStart := by
  -- By induction on the levels: each may make a table, and none moves the heap.
  have made : ∀ (rest : List (Fin 512)) (kernel : Kernel) (n : Nat),
      (makeTables kernel n rest).1.heapStart = kernel.heapStart := by
    intro rest
    induction rest with
    | nil => exact fun _ _ => rfl
    | cons i rest ih =>
      intro kernel n
      have first := getOrCreateTable_heapStart kernel n i ptWritable
      rw [makeTables]
      split
      · exact first
      · exact (ih _ _).trans first
  obtain ⟨-, result⟩ | ⟨-, result⟩ := vmmMapPage_cases kernel virt phys flags
  · rw [result]
    exact made _ _ _
  · rw [result]
    exact made _ _ _

/-- Unmapping a page writes to a page table, and to no mark. -/
theorem vmmUnmapPage_pool {virt : Nat} (inv : VmmInv kernel owned) (outside : OutsideBoot virt) :
    pagePool (vmmUnmapPage kernel virt) = pagePool kernel ∧
      (vmmUnmapPage kernel virt).heapStart = kernel.heapStart := by
  -- The entry that is cleared lies in a table, and no table has a byte of the bitmap.
  rw [vmmUnmapPage, findPageTable_outside inv outside]
  cases met : tableAt kernel.mem (pathOf virt) with
  | none => exact ⟨rfl, rfl⟩
  | some pt =>
    have short : (pathOf virt).length ≤ 3 := Nat.le_refl 3
    have page := inv.tables _ _ short met
    have changes := setPte_changes kernel.mem pt (ptIndex virt) 0 (ptSlot virt).isLt
    exact ⟨pagePool_congr changes (inv.bitmap_apart (inv.table_aligned short met) page.apart), rfl⟩

/-- The screen shows the same where its bytes are the same. -/
theorem ScreenShows.frame {terminal terminal' : Terminal} {color : UInt8}
    {history : List (UInt8 × UInt8)} (shows : ScreenShows terminal color history)
    (row : terminal'.terminalRow = terminal.terminalRow)
    (column : terminal'.terminalColumn = terminal.terminalColumn)
    (colour : terminal'.terminalColor = terminal.terminalColor)
    (buffer : terminal'.terminalBuffer = terminal.terminalBuffer)
    (same : ∀ x ∈ screenSpan, terminal'.mem x = terminal.mem x) :
    ScreenShows terminal' color history := by
  -- A cell is read from its two bytes, and both are in `screenSpan`.
  refine ⟨buffer.trans shows.buffer, ?_, colour.trans shows.color, ?_⟩
  · rw [← shows.cursor, Terminal.cursor, Terminal.cursor, row, column]
  · refine shows.cells.congr fun k within => ?_
    rw [Terminal.entryAt, Terminal.entryAt, buffer, shows.buffer]
    refine congrArg UInt16.ofNat (Mem.read_congr fun x low high => same x ?_)
    rw [mem_screenSpan]
    have size : screenSize = 2000 := rfl
    omega

end Frames

end IncroOS
