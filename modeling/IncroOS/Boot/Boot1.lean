import IncroOS.Boot.Loader

/-! Boot1 from `FixCS` to the jump into Stage2. -/

namespace IncroOS

open Lib

/--
The assembled image of Boot1, the boot sector at 0x7C00.

Its data lies between the end of the parameter block and the boot signature.
-/
structure Boot1Image extends Image where
  start : codeStart = 0x7C00
  sector : codeEnd = 0x7E00
  driveNumber : bPhysicalDriveNum = 0x7C40
  stack : stackTop = 0x7C00
  base : loadBase = 0x7E00
  dapLow : 0x7C5A ≤ dap
  dapHigh : dap + 16 ≤ 0x7DFE
  nameLow : 0x7C5A ≤ szFile
  nameHigh : szFile + 11 ≤ dap

/-- `FixCS` up to the call of `LoadFile`: `ESI` is the first cluster of Stage2's file. -/
def findStage2 (image : Boot1Image) (bios : Bios) (fuel : Nat) (m : Machine) : Run := do
  let m ← rootLoop image.toImage bios fuel (fixCS image.toImage m)
  .ok (firstCluster m)

end IncroOS
