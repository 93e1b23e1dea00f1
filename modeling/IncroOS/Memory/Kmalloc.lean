import IncroOS.Kernel.State
import IncroOS.Lib.Walk

/-! The kernel heap of `kmalloc.c`: a list of blocks with inline headers, searched first fit. -/

namespace IncroOS

open Lib

/-- The macro `HEAP_START`. -/
def heapBase : Nat := 0x180000

/-- The macro `HEAP_SIZE`. -/
def heapSize : Nat := 0x80000

/-- The size of `block_header_t`: `size` at 0, `is_free` at 8, padding, `next` at 16. -/
def blockHeaderSize : Nat := 24

/-- `block->size`. -/
def blockSize (mem : Mem) (block : Nat) : Nat := mem.read block 8

/-- `block->is_free`. -/
def blockIsFree (mem : Mem) (block : Nat) : Bool := mem (block + 8) != 0

/-- `block->next`. -/
def blockNext (mem : Mem) (block : Nat) : Nat := mem.read (block + 16) 8

def setSize (mem : Mem) (block value : Nat) : Mem := mem.write block 8 value

def setIsFree (mem : Mem) (block : Nat) (value : Bool) : Mem :=
  mem.set (block + 8) (if value then 1 else 0)

def setNext (mem : Mem) (block value : Nat) : Mem := mem.write (block + 16) 8 value

/-- `(size + 15) & ~15` on 64-bit integers. -/
def alignSize (size : Nat) : Nat := u64 (size + 15) &&& (2 ^ 64 - 16)

def kmallocInit (kernel : Kernel) : Kernel :=
  let mem := setSize kernel.mem heapBase (heapSize - blockHeaderSize)
  let mem := setIsFree mem heapBase true
  let mem := setNext mem heapBase 0
  { kernel with heapStart := heapBase, mem }

/-- The inner branch of `kmalloc`, which turns the tail of a block into a new free block. -/
def splitBlock (mem : Mem) (current size : Nat) : Mem :=
  let newBlock := u64 (u64 (current + blockHeaderSize) + size)
  let mem := setSize mem newBlock (u64Sub (u64Sub (blockSize mem current) size) blockHeaderSize)
  let mem := setIsFree mem newBlock true
  let mem := setNext mem newBlock (blockNext mem current)
  let mem := setSize mem current size
  setNext mem current newBlock

/-- What `kmalloc` does with the block its search found. -/
def takeBlock (kernel : Kernel) (current size : Nat) : Kernel × Nat :=
  let mem :=
    if blockSize kernel.mem current ≥ u64 (u64 (size + blockHeaderSize) + 16) then
      splitBlock kernel.mem current size
    else kernel.mem
  let mem := setIsFree mem current false
  let totalAllocated := u64 (kernel.totalAllocated + blockSize mem current)
  ((kernel.withMem mem).withTotalAllocated totalAllocated, u64 (current + blockHeaderSize))

/-- `kmalloc`, whose list search takes at most `fuel` turns. -/
def kmalloc (fuel : Nat) (kernel : Kernel) (size : Nat) : Option (Kernel × Nat) :=
  if size = 0 then some (kernel, 0)
  else
    let size := alignSize size
    let fits block := blockIsFree kernel.mem block && decide (blockSize kernel.mem block ≥ size)
    (walk (blockNext kernel.mem) fits fuel kernel.heapStart).map fun current =>
      if current = 0 then (kernel, 0) else takeBlock kernel current size

/-- The first merge of `kfree`: a free successor is taken into the block. -/
def mergeNext (mem : Mem) (block : Nat) : Mem :=
  let next := blockNext mem block
  if next ≠ 0 && blockIsFree mem next then
    let mem := setSize mem block
      (u64 (blockSize mem block + u64 (blockHeaderSize + blockSize mem next)))
    setNext mem block (blockNext mem (blockNext mem block))
  else mem

/-- The second merge of `kfree`: the block is taken into a free predecessor. -/
def mergeInto (mem : Mem) (current block : Nat) : Mem :=
  if current ≠ 0 && blockIsFree mem current then
    let mem := setSize mem current
      (u64 (blockSize mem current + u64 (blockHeaderSize + blockSize mem block)))
    setNext mem current (blockNext mem block)
  else mem

/-- `kfree`, whose search for the predecessor takes at most `fuel` turns. -/
def kfree (fuel : Nat) (kernel : Kernel) (ptr : Nat) : Option Kernel :=
  if ptr = 0 then some kernel
  else
    let block := u64Sub ptr blockHeaderSize
    if blockIsFree kernel.mem block then some kernel
    else
      let mem := setIsFree kernel.mem block true
      let totalAllocated := u64Sub kernel.totalAllocated (blockSize mem block)
      let mem := mergeNext mem block
      let isPredecessor current := blockNext mem current == block
      (walk (blockNext mem) isPredecessor fuel kernel.heapStart).map fun current =>
        (kernel.withMem (mergeInto mem current block)).withTotalAllocated totalAllocated

def kmallocGetUsed (kernel : Kernel) : Nat := kernel.totalAllocated

/-- `kmalloc_get_free`, whose walk takes at most `fuel` turns. -/
def kmallocGetFree (fuel : Nat) (kernel : Kernel) : Option Nat :=
  walkFold (blockNext kernel.mem)
    (fun freeMemory current =>
      if blockIsFree kernel.mem current then u64 (freeMemory + blockSize kernel.mem current)
      else freeMemory)
    fuel kernel.heapStart 0

end IncroOS
