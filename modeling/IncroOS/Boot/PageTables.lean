import IncroOS.Lib.Loop
import IncroOS.Lib.Memory

/-! The page tables that Stage2 builds, and the processor's walk along page tables. -/

namespace IncroOS

open Lib

/-- Memory and the two registers that run along the page directory. -/
structure PageDirectoryFill where
  mem : Mem
  edi : Nat
  ebx : Nat

/-- One turn of `.SetEntry`, which maps the next 2 MiB page. -/
def setEntry (_ : Nat) (s : PageDirectoryFill) : PageDirectoryFill where
  mem := (s.mem.write s.edi 4 (s.ebx ||| 0x83)).write (s.edi + 4) 4 0
  edi := s.edi + 8
  ebx := s.ebx + 0x200000

/-- `rep stosd` over the memory of the tables. -/
def clearTables (mem : Mem) : Mem :=
  forLoop (fun i (mem : Mem) => mem.write (0x1000 + 4 * i) 4 0) 0 4096 mem

/-- The first entry of a table, written as two double words. -/
def writeFirstEntry (mem : Mem) (edi entry : Nat) : Mem :=
  (mem.write edi 4 entry).write (edi + 4) 4 0

/-- The page tables of `LoaderEntry32`: an identity map of the first GiB in 2 MiB pages. -/
def buildPageTables (mem : Mem) : Mem :=
  let mem := clearTables mem
  let mem := writeFirstEntry mem 0x1000 0x2003
  let mem := writeFirstEntry mem 0x2000 0x3003
  (forLoop setEntry 0 512 ⟨mem, 0x3000, 0⟩).mem

/-- The value `LoaderEntry32` loads into CR3. -/
def bootCr3 : Nat := 0x1000

/-- Bits 47 to 63 of a canonical address are all equal. -/
def Canonical (virt : Nat) : Prop := virt / 2 ^ 47 = 0 ∨ virt / 2 ^ 47 = 2 ^ 17 - 1

instance (virt : Nat) : Decidable (Canonical virt) := inferInstanceAs (Decidable (_ ∨ _))

/-- The physical address in bits 12 to 51 of a table entry or of CR3. -/
def frameOf (entry : Nat) : Nat := entry / 2 ^ 12 % 2 ^ 40 * 2 ^ 12

/-- What the processor's walk along the tables ends in. -/
inductive Walk where
  | found (a : Nat)
  /-- An entry on the way is not present. -/
  | absent
  /-- The address is not canonical, or a present entry sets a reserved bit. -/
  | refused
  deriving DecidableEq

/-- Bit 63 of a present entry is reserved, since the loader leaves `EFER.NXE` off. -/
def isReserved (entry : Nat) : Bool := entry.testBit 63

/-- The four-level walk of the processor, which stops early at large pages. -/
def translate (mem : Mem) (cr3 virt : Nat) : Walk :=
  if ¬ Canonical virt then .refused
  else
    let pml4e := mem.read (frameOf cr3 + 8 * (virt / 2 ^ 39 % 512)) 8
    if !pml4e.testBit 0 then .absent
    else if isReserved pml4e || pml4e.testBit 7 then .refused
    else
      let pdpte := mem.read (frameOf pml4e + 8 * (virt / 2 ^ 30 % 512)) 8
      if !pdpte.testBit 0 then .absent
      else if isReserved pdpte then .refused
      -- Bit 7 is the page size bit: the entry maps 1 GiB here, and 2 MiB one level down.
      else if pdpte.testBit 7 then
        if pdpte / 2 ^ 13 % 2 ^ 17 ≠ 0 then .refused
        else .found (pdpte / 2 ^ 30 % 2 ^ 22 * 2 ^ 30 + virt % 2 ^ 30)
      else
        let pde := mem.read (frameOf pdpte + 8 * (virt / 2 ^ 21 % 512)) 8
        if !pde.testBit 0 then .absent
        else if isReserved pde then .refused
        else if pde.testBit 7 then
          if pde / 2 ^ 13 % 2 ^ 8 ≠ 0 then .refused
          else .found (pde / 2 ^ 21 % 2 ^ 31 * 2 ^ 21 + virt % 2 ^ 21)
        else
          let pte := mem.read (frameOf pde + 8 * (virt / 2 ^ 12 % 512)) 8
          if !pte.testBit 0 then .absent
          else if isReserved pte then .refused
          else .found (frameOf pte + virt % 2 ^ 12)

/-- A right that the processor's walk grants: the flag must be set in all four entries on the path. -/
def effectiveRight (mem : Mem) (cr3 virt flag : Nat) : Bool :=
  let pml4e := mem.read (frameOf cr3 + 8 * (virt / 2 ^ 39 % 512)) 8
  let pdpte := mem.read (frameOf pml4e + 8 * (virt / 2 ^ 30 % 512)) 8
  let pde := mem.read (frameOf pdpte + 8 * (virt / 2 ^ 21 % 512)) 8
  let pte := mem.read (frameOf pde + 8 * (virt / 2 ^ 12 % 512)) 8
  pml4e &&& flag != 0 && pdpte &&& flag != 0 && pde &&& flag != 0 && pte &&& flag != 0

end IncroOS
