import Mathlib.Data.Finset.Erase
import Mathlib.Data.Finset.Insert
import IncroOS.Kernel.Main

/-! Runs of the three memory modules together, and the pages that the page allocator hands out. -/

namespace IncroOS

open Lib

/-- The pages that `pmm_alloc_page` returns during one call of `get_or_create_table`. -/
def getOrCreatePages (kernel : Kernel) (parent index : Nat) : List Nat :=
  if isPresent (pte kernel.mem parent index) then []
  else if (pmmAllocPage kernel).2 = 0 then []
  else [(pmmAllocPage kernel).2]

/-- The pages that `pmm_alloc_page` returns during one call of `vmm_map_page`. -/
def vmmMapPages (kernel : Kernel) (virt : Nat) : List Nat :=
  let pdpt := getOrCreateTable kernel kernel.pml4 (pml4Index virt) ptWritable
  getOrCreatePages kernel kernel.pml4 (pml4Index virt) ++
    if pdpt.2 = 0 then []
    else
      let pd := getOrCreateTable pdpt.1 pdpt.2 (pdptIndex virt) ptWritable
      getOrCreatePages pdpt.1 pdpt.2 (pdptIndex virt) ++
        if pd.2 = 0 then [] else getOrCreatePages pd.1 pd.2 (pdIndex virt)

/-- The kernel, with the pages and the heap pointers that clients hold. -/
structure SystemState where
  kernel : Kernel
  owned : Finset Nat
  live : Finset Nat

/-- The state once `kMain` has initialised the three modules. -/
def SystemState.initial (mem : Mem) : SystemState := ⟨initMemory mem, ∅, ∅⟩

/-- A call into one of the three modules. -/
inductive SystemCall where
  | allocPage
  | freePage (addr : UInt64)
  | mapPage (virt phys flags : UInt64)
  | kmalloc (size : UInt64)
  | kfree (ptr : UInt64)

/-- A call that ends, with the pages that `pmm_alloc_page` returned during it. -/
inductive SystemStep : SystemState → SystemCall → List Nat → SystemState → Prop
  | allocPage {state : SystemState} {kernel : Kernel} {page : Nat}
      (result : pmmAllocPage state.kernel = (kernel, page)) :
      SystemStep state .allocPage (if page = 0 then [] else [page])
        { state with kernel, owned := if page = 0 then state.owned else insert page state.owned }
  | freePage {state : SystemState} {addr : UInt64} (mine : addr.toNat ∈ state.owned) :
      SystemStep state (.freePage addr) []
        { state with
          kernel := pmmFreePage state.kernel addr.toNat, owned := state.owned.erase addr.toNat }
  | mapPage {state : SystemState} (virt phys flags : UInt64) :
      SystemStep state (.mapPage virt phys flags) (vmmMapPages state.kernel virt.toNat)
        { state with
          kernel := (vmmMapPage state.kernel virt.toNat phys.toNat flags.toNat).1 }
  | kmalloc {state : SystemState} {kernel : Kernel} {fuel p : Nat} {size : UInt64}
      (result : kmalloc fuel state.kernel size.toNat = some (kernel, p)) :
      SystemStep state (.kmalloc size) []
        { state with kernel, live := if p = 0 then state.live else insert p state.live }
  | kfree {state : SystemState} {kernel : Kernel} {fuel : Nat} {ptr : UInt64}
      (mine : ptr.toNat ∈ state.live) (result : kfree fuel state.kernel ptr.toNat = some kernel) :
      SystemStep state (.kfree ptr) [] { state with kernel, live := state.live.erase ptr.toNat }

/-- A run of calls, with all the pages that `pmm_alloc_page` returned in it. -/
inductive SystemRun : SystemState → List SystemCall → List Nat → SystemState → Prop
  | nil (state : SystemState) : SystemRun state [] [] state
  | cons {first middle last : SystemState} {call : SystemCall} {calls : List SystemCall}
      {pages more : List Nat} (step : SystemStep first call pages middle)
      (rest : SystemRun middle calls more last) :
      SystemRun first (call :: calls) (pages ++ more) last

end IncroOS
