import IncroOS.Memory.Pmm

/-! The bytes of the page bitmap that each function of `pmm.c` accesses, in the order it does. -/

namespace IncroOS

/-- The accesses of a reservation loop, one byte a page. -/
def reserveAccesses (first count : Nat) : List Nat := (List.range' first count).map pageToByte

/-- The accesses of `pmm_init`: the zeroing loop, then the three reservation loops. -/
def pmmInitAccesses (totalMemory : Nat) : List Nat :=
  let totalPages := totalMemory / pageSize
  List.range (bitmapSize totalPages) ++ reserveAccesses 0 reservedLow ++
    reserveAccesses reservedLow kernelPages ++
    reserveAccesses bitmapStartPage (bitmapPages totalPages)

/-- The accesses of the search of `pmm_alloc_page`. -/
def pmmAllocAccessesFrom (kernel : Kernel) : Nat → Nat → List Nat
  | _, 0 => []
  | page, count + 1 =>
    -- A free page is tested and then marked.
    if !isPageAllocated kernel page then [pageToByte page, pageToByte page]
    else pageToByte page :: pmmAllocAccessesFrom kernel (page + 1) count

def pmmAllocAccesses (kernel : Kernel) : List Nat :=
  pmmAllocAccessesFrom kernel 0 kernel.totalPages

def pmmFreeAccesses (kernel : Kernel) (addr : Nat) : List Nat :=
  let page := addr / pageSize
  if page ≥ kernel.totalPages then []
  else if isPageAllocated kernel page then [pageToByte page, pageToByte page]
  else [pageToByte page]

end IncroOS
