import IncroOS.Kernel.State
import IncroOS.Lib.Bitmap
import IncroOS.Lib.Loop

/-! The physical memory manager of `pmm.c`: a page bitmap with a running count of used pages. -/

namespace IncroOS

open Lib

/-- Bytes in a physical page. -/
def pageSize : Nat := 4096

/-- Pages described by one byte of the bitmap. -/
def pagesPerByte : Nat := 8

/-- The byte of the bitmap that describes a page. -/
def pageToByte (page : Nat) : Nat := page / pagesPerByte

/-- The bit of that byte. -/
def pageToBit (page : Nat) : Nat := page % pagesPerByte

/-- Is the page's bit set? -/
def isPageAllocated (kernel : Kernel) (page : Nat) : Bool :=
  let byte := pageToByte page
  let bit := pageToBit page
  ((kernel.mem (kernel.pageBitmap + byte)).toUInt32 &&& bitMask bit) != 0

/-- Set the page's bit, `page_bitmap[byte] |= (1 << bit)`. -/
def setPageAllocated (kernel : Kernel) (page : Nat) : Kernel :=
  let address := kernel.pageBitmap + pageToByte page
  let bit := pageToBit page
  kernel.withMem (kernel.mem.set address
    ((kernel.mem address).toUInt32 ||| bitMask bit).toUInt8)

/-- Clear the page's bit, `page_bitmap[byte] &= ~(1 << bit)`. -/
def setPageFree (kernel : Kernel) (page : Nat) : Kernel :=
  let address := kernel.pageBitmap + pageToByte page
  let bit := pageToBit page
  kernel.withMem (kernel.mem.set address
    ((kernel.mem address).toUInt32 &&& ~~~bitMask bit).toUInt8)

/-- `used_pages++`. -/
def countPage (kernel : Kernel) : Kernel :=
  kernel.withUsedPages (u64 (kernel.usedPages + 1))

/-- `used_pages--`. -/
def uncountPage (kernel : Kernel) : Kernel :=
  kernel.withUsedPages (u64Sub kernel.usedPages 1)

/-- The body of the three reservation loops of `pmm_init`. -/
def reservePage (page : Nat) (kernel : Kernel) : Kernel :=
  countPage (setPageAllocated kernel page)

/-- Where `pmm_init` puts the bitmap. -/
def bitmapAddress : Nat := 0x140000

/-- Pages of the low memory that `pmm_init` reserves. -/
def reservedLow : Nat := 0x100000 / pageSize

/-- Pages of the kernel area that `pmm_init` reserves. -/
def kernelPages : Nat := 0x80000 / pageSize

/-- The page at which the bitmap starts. -/
def bitmapStartPage : Nat := bitmapAddress / pageSize

/-- Bytes of bitmap needed for a page count. -/
def bitmapSize (totalPages : Nat) : Nat := u64 (totalPages + pagesPerByte - 1) / pagesPerByte

/-- Pages occupied by the bitmap itself. -/
def bitmapPages (totalPages : Nat) : Nat := u64 (bitmapSize totalPages + pageSize - 1) / pageSize

/-- Zero one byte of the bitmap. -/
def clearBitmapByte (i : Nat) (kernel : Kernel) : Kernel :=
  kernel.withMem (kernel.mem.set (kernel.pageBitmap + i) 0)

/-- The assignments to `total_pages` and `page_bitmap` that open `pmm_init`. -/
def placeBitmap (kernel : Kernel) (totalPages : Nat) : Kernel :=
  { kernel with totalPages, pageBitmap := bitmapAddress }

def pmmInit (kernel : Kernel) (totalMemory : Nat) : Kernel :=
  let totalPages := totalMemory / pageSize
  let kernel := placeBitmap kernel totalPages
  let kernel := forLoop clearBitmapByte 0 (bitmapSize totalPages) kernel
  let kernel := forLoop reservePage 0 reservedLow kernel
  let kernel := forLoop reservePage reservedLow kernelPages kernel
  forLoop reservePage bitmapStartPage (bitmapPages totalPages) kernel

/-- The search of `pmm_alloc_page` over `count` pages from `page` upwards. -/
def pmmAllocFrom (kernel : Kernel) : Nat → Nat → Kernel × Nat
  | _, 0 => (kernel, 0)
  | page, count + 1 =>
    if !isPageAllocated kernel page then
      (countPage (setPageAllocated kernel page), u64 (page * pageSize))
    else pmmAllocFrom kernel (page + 1) count

def pmmAllocPage (kernel : Kernel) : Kernel × Nat :=
  pmmAllocFrom kernel 0 kernel.totalPages

def pmmFreePage (kernel : Kernel) (addr : Nat) : Kernel :=
  let page := addr / pageSize
  if page ≥ kernel.totalPages then kernel
  else if isPageAllocated kernel page then uncountPage (setPageFree kernel page)
  else kernel

def pmmGetTotalPages (kernel : Kernel) : Nat := kernel.totalPages

def pmmGetFreePages (kernel : Kernel) : Nat := u64Sub kernel.totalPages kernel.usedPages

def pmmGetUsedPages (kernel : Kernel) : Nat := kernel.usedPages

end IncroOS
