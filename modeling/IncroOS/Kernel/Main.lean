import IncroOS.Boot.PageTables
import IncroOS.Memory.Kmalloc
import IncroOS.Memory.Vmm

/-! How `kMain` brings up memory on the page tables that Stage2 installs. -/

namespace IncroOS

/-- The `total_memory` that `kMain` assumes. -/
def totalMemory : Nat := 4 * 1024 * 1024 * 1024

/-- `pmm_init` and `vmm_init`, as `kMain` calls them. -/
def initPaging (mem : Lib.Mem) : Kernel :=
  vmmInit (pmmInit (Kernel.zeroed (buildPageTables mem) bootCr3) totalMemory)

/-- All three modules initialised, in the order of `kMain`. -/
def initMemory (mem : Lib.Mem) : Kernel := kmallocInit (initPaging mem)

end IncroOS
