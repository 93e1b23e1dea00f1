import IncroOS.Memory.Pmm

/-! The virtual memory manager of `vmm.c`, which edits the page tables below `pml4`. -/

namespace IncroOS

open Lib

/-- The macro `PT_PRESENT`. -/
def ptPresent : Nat := 1 <<< 0

/-- The macro `PT_WRITABLE`. -/
def ptWritable : Nat := 1 <<< 1

/-- The macro `PT_USER`. -/
def ptUser : Nat := 1 <<< 2

/-- The macro `PT_ADDR_MASK`. -/
def ptAddrMask : Nat := 0x000FFFFFFFFFF000

/-- The macro `PML4_INDEX`. -/
def pml4Index (addr : Nat) : Nat := (addr >>> 39) &&& 0x1FF

/-- The macro `PDPT_INDEX`. -/
def pdptIndex (addr : Nat) : Nat := (addr >>> 30) &&& 0x1FF

/-- The macro `PD_INDEX`. -/
def pdIndex (addr : Nat) : Nat := (addr >>> 21) &&& 0x1FF

/-- The macro `PT_INDEX`. -/
def ptIndex (addr : Nat) : Nat := (addr >>> 12) &&& 0x1FF

/-- `table[index]`. -/
def pte (mem : Mem) (table index : Nat) : Nat := mem.read (table + 8 * index) 8

/-- `table[index] = value`. -/
def setPte (mem : Mem) (table index value : Nat) : Mem := mem.write (table + 8 * index) 8 value

/-- The test `entry & PT_PRESENT`. -/
def isPresent (entry : Nat) : Bool := entry &&& ptPresent != 0

/-- `table[i] = 0`, the body of the loop in `alloc_page_table`. -/
def clearPte (table i : Nat) (kernel : Kernel) : Kernel :=
  kernel.withMem (setPte kernel.mem table i 0)

/-- `alloc_page_table`, which returns zero where the source returns `NULL`. -/
def allocPageTable (kernel : Kernel) : Kernel × Nat :=
  let (kernel, phys) := pmmAllocPage kernel
  if phys = 0 then (kernel, 0)
  else (forLoop (clearPte phys) 0 512 kernel, phys)

def getOrCreateTable (kernel : Kernel) (parent index flags : Nat) : Kernel × Nat :=
  if isPresent (pte kernel.mem parent index) then
    (kernel, pte kernel.mem parent index &&& ptAddrMask)
  else
    let (kernel, table) := allocPageTable kernel
    if table = 0 then (kernel, 0)
    else (kernel.withMem (setPte kernel.mem parent index (table ||| flags ||| ptPresent)), table)

/-- `vmm_init`, which takes the tables over from the loader. -/
def vmmInit (kernel : Kernel) : Kernel := kernel.withPml4 kernel.cr3

def vmmMapPage (kernel : Kernel) (virt phys flags : Nat) : Kernel × Bool :=
  let (kernel, pdpt) := getOrCreateTable kernel kernel.pml4 (pml4Index virt) ptWritable
  if pdpt = 0 then (kernel, false)
  else
    let (kernel, pd) := getOrCreateTable kernel pdpt (pdptIndex virt) ptWritable
    if pd = 0 then (kernel, false)
    else
      let (kernel, pt) := getOrCreateTable kernel pd (pdIndex virt) ptWritable
      if pt = 0 then (kernel, false)
      else
        let entry := (phys &&& ptAddrMask) ||| flags ||| ptPresent
        (kernel.withMem (setPte kernel.mem pt (ptIndex virt) entry), true)

/-- The descent that `vmm_unmap_page` and `vmm_get_physical` share, down to the page table. -/
def findPageTable (kernel : Kernel) (virt : Nat) : Option Nat :=
  if !isPresent (pte kernel.mem kernel.pml4 (pml4Index virt)) then none
  else
    let pdpt := pte kernel.mem kernel.pml4 (pml4Index virt) &&& ptAddrMask
    if !isPresent (pte kernel.mem pdpt (pdptIndex virt)) then none
    else
      let pd := pte kernel.mem pdpt (pdptIndex virt) &&& ptAddrMask
      if !isPresent (pte kernel.mem pd (pdIndex virt)) then none
      else some (pte kernel.mem pd (pdIndex virt) &&& ptAddrMask)

def vmmUnmapPage (kernel : Kernel) (virt : Nat) : Kernel :=
  match findPageTable kernel virt with
  | none => kernel
  | some pt => kernel.withMem (setPte kernel.mem pt (ptIndex virt) 0)

def vmmGetPhysical (kernel : Kernel) (virt : Nat) : Nat :=
  match findPageTable kernel virt with
  | none => 0
  | some pt =>
    if !isPresent (pte kernel.mem pt (ptIndex virt)) then 0
    else
      let physBase := pte kernel.mem pt (ptIndex virt) &&& ptAddrMask
      let offset := virt &&& 0xFFF
      physBase + offset

def vmmIsMapped (kernel : Kernel) (virt : Nat) : Bool := vmmGetPhysical kernel virt != 0

end IncroOS
