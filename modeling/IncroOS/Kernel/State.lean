import IncroOS.Lib.Memory

/-! The state the kernel's memory modules share: physical memory, CR3, and their static variables. -/

namespace IncroOS

open Lib

/-- A 64-bit unsigned result. -/
def u64 (n : Nat) : Nat := n % 2 ^ 64

@[simp] theorem u64_of_lt {n : Nat} (bound : n < 2 ^ 64) : u64 n = n :=
  Nat.mod_eq_of_lt bound

/-- 64-bit unsigned subtraction, which wraps below zero. -/
def u64Sub (a b : Nat) : Nat := u64 (a + (2 ^ 64 - b))

theorem u64Sub_of_le {a b : Nat} (fits : b ≤ a) (bound : a < 2 ^ 64) : u64Sub a b = a - b := by
  unfold u64Sub u64
  omega

/--
Physical memory and the statics of `pmm.c`, `vmm.c` and `kmalloc.c`.

The kernel runs under the boot identity map, so a C pointer is a physical address.
-/
structure Kernel where
  mem : Mem
  cr3 : Nat
  pageBitmap : Nat
  totalPages : Nat
  usedPages : Nat
  pml4 : Nat
  heapStart : Nat
  totalAllocated : Nat

/-- The statics before any module is initialised, with the CR3 the loader installed. -/
def Kernel.zeroed (mem : Mem) (cr3 : Nat) : Kernel :=
  { mem, cr3, pageBitmap := 0, totalPages := 0, usedPages := 0, pml4 := 0, heapStart := 0,
    totalAllocated := 0 }

@[simp] theorem Kernel.zeroed_mem (mem : Mem) (cr3 : Nat) : (Kernel.zeroed mem cr3).mem = mem := rfl

/-- Replace physical memory, keeping CR3 and every static. -/
def Kernel.withMem (kernel : Kernel) (mem : Mem) : Kernel := { kernel with mem }

/-- Replace the page counter, keeping everything else. -/
def Kernel.withUsedPages (kernel : Kernel) (usedPages : Nat) : Kernel := { kernel with usedPages }

/-- Replace the heap's byte counter, keeping everything else. -/
def Kernel.withTotalAllocated (kernel : Kernel) (totalAllocated : Nat) : Kernel :=
  { kernel with totalAllocated }

/-- Replace the top-level table that the manager of virtual memory works on. -/
def Kernel.withPml4 (kernel : Kernel) (pml4 : Nat) : Kernel := { kernel with pml4 }

section Fields

variable (kernel : Kernel) (mem : Mem) (count : Nat)

@[simp] theorem Kernel.withMem_mem : (kernel.withMem mem).mem = mem := rfl
@[simp] theorem Kernel.withMem_cr3 : (kernel.withMem mem).cr3 = kernel.cr3 := rfl
@[simp] theorem Kernel.withMem_pageBitmap :
    (kernel.withMem mem).pageBitmap = kernel.pageBitmap := rfl
@[simp] theorem Kernel.withMem_totalPages :
    (kernel.withMem mem).totalPages = kernel.totalPages := rfl
@[simp] theorem Kernel.withMem_usedPages :
    (kernel.withMem mem).usedPages = kernel.usedPages := rfl
@[simp] theorem Kernel.withMem_pml4 : (kernel.withMem mem).pml4 = kernel.pml4 := rfl
@[simp] theorem Kernel.withMem_heapStart :
    (kernel.withMem mem).heapStart = kernel.heapStart := rfl
@[simp] theorem Kernel.withMem_totalAllocated :
    (kernel.withMem mem).totalAllocated = kernel.totalAllocated := rfl

@[simp] theorem Kernel.withUsedPages_mem : (kernel.withUsedPages count).mem = kernel.mem := rfl
@[simp] theorem Kernel.withUsedPages_cr3 : (kernel.withUsedPages count).cr3 = kernel.cr3 := rfl
@[simp] theorem Kernel.withUsedPages_pageBitmap :
    (kernel.withUsedPages count).pageBitmap = kernel.pageBitmap := rfl
@[simp] theorem Kernel.withUsedPages_totalPages :
    (kernel.withUsedPages count).totalPages = kernel.totalPages := rfl
@[simp] theorem Kernel.withUsedPages_usedPages :
    (kernel.withUsedPages count).usedPages = count := rfl
@[simp] theorem Kernel.withUsedPages_pml4 :
    (kernel.withUsedPages count).pml4 = kernel.pml4 := rfl
@[simp] theorem Kernel.withUsedPages_heapStart :
    (kernel.withUsedPages count).heapStart = kernel.heapStart := rfl
@[simp] theorem Kernel.withUsedPages_totalAllocated :
    (kernel.withUsedPages count).totalAllocated = kernel.totalAllocated := rfl

@[simp] theorem Kernel.withTotalAllocated_mem :
    (kernel.withTotalAllocated count).mem = kernel.mem := rfl
@[simp] theorem Kernel.withTotalAllocated_cr3 :
    (kernel.withTotalAllocated count).cr3 = kernel.cr3 := rfl
@[simp] theorem Kernel.withTotalAllocated_pageBitmap :
    (kernel.withTotalAllocated count).pageBitmap = kernel.pageBitmap := rfl
@[simp] theorem Kernel.withTotalAllocated_totalPages :
    (kernel.withTotalAllocated count).totalPages = kernel.totalPages := rfl
@[simp] theorem Kernel.withTotalAllocated_usedPages :
    (kernel.withTotalAllocated count).usedPages = kernel.usedPages := rfl
@[simp] theorem Kernel.withTotalAllocated_pml4 :
    (kernel.withTotalAllocated count).pml4 = kernel.pml4 := rfl
@[simp] theorem Kernel.withTotalAllocated_heapStart :
    (kernel.withTotalAllocated count).heapStart = kernel.heapStart := rfl
@[simp] theorem Kernel.withTotalAllocated_totalAllocated :
    (kernel.withTotalAllocated count).totalAllocated = count := rfl

@[simp] theorem Kernel.withPml4_mem : (kernel.withPml4 count).mem = kernel.mem := rfl
@[simp] theorem Kernel.withPml4_cr3 : (kernel.withPml4 count).cr3 = kernel.cr3 := rfl
@[simp] theorem Kernel.withPml4_pageBitmap :
    (kernel.withPml4 count).pageBitmap = kernel.pageBitmap := rfl
@[simp] theorem Kernel.withPml4_totalPages :
    (kernel.withPml4 count).totalPages = kernel.totalPages := rfl
@[simp] theorem Kernel.withPml4_usedPages :
    (kernel.withPml4 count).usedPages = kernel.usedPages := rfl
@[simp] theorem Kernel.withPml4_heapStart :
    (kernel.withPml4 count).heapStart = kernel.heapStart := rfl
@[simp] theorem Kernel.withPml4_totalAllocated :
    (kernel.withPml4 count).totalAllocated = kernel.totalAllocated := rfl
@[simp] theorem Kernel.withPml4_pml4 : (kernel.withPml4 count).pml4 = count := rfl

end Fields

end IncroOS
