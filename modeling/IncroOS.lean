import IncroOS.Lib.Memory
import IncroOS.Lib.Loop
import IncroOS.Lib.Bitmap
import IncroOS.Lib.Pool
import IncroOS.Lib.Prefixes
import IncroOS.Lib.Runs
import IncroOS.Lib.Search
import IncroOS.Lib.Walk
import IncroOS.Lib.Chase
import IncroOS.Lib.BlockList
import IncroOS.Lib.BlockRelease
import IncroOS.Lib.BlockGaps
import IncroOS.Lib.Radix
import IncroOS.Lib.Outcome
import IncroOS.Lib.Ring
import IncroOS.Lib.Buffer
import IncroOS.Lib.Waiting
import IncroOS.Memory.Pmm
import IncroOS.Memory.PmmAccess
import IncroOS.Boot.PageTables
import IncroOS.Boot.Machine
import IncroOS.Boot.Loader
import IncroOS.Boot.Boot1
import IncroOS.Boot.Stage2
import IncroOS.Boot.Volume
import IncroOS.Boot.Directory
import IncroOS.Memory.Kmalloc
import IncroOS.Memory.Vmm
import IncroOS.Kernel.Main
import IncroOS.Kernel.System
import IncroOS.Kernel.Decimal
import IncroOS.Output.Strings
import IncroOS.Output.Terminal
import IncroOS.Output.Serial
import IncroOS.Kernel.Machine
import IncroOS.Kernel.KMain
import IncroOS.Proofs.Kmalloc.Headers
import IncroOS.Proofs.Kmalloc.Take
import IncroOS.Proofs.Kmalloc.Release
import IncroOS.Proofs.Kmalloc.Runs
import IncroOS.Proofs.Kmalloc.Shape
import IncroOS.Proofs.Kmalloc.Requests
import IncroOS.Proofs.Kmalloc.Accounting
import IncroOS.Proofs.Kmalloc.Undo
import IncroOS.Proofs.Kmalloc.Repeated
import IncroOS.Proofs.Kmalloc.Alignment
import IncroOS.Proofs.Kmalloc.Frame
import IncroOS.Proofs.Kmalloc.FirstFit
import IncroOS.Proofs.Pmm.Bitmap
import IncroOS.Proofs.Pmm.Init
import IncroOS.Proofs.Pmm.Refinement
import IncroOS.Proofs.Pmm.History
import IncroOS.Proofs.Pmm.Reserved
import IncroOS.Proofs.Pmm.Failure
import IncroOS.Proofs.Pmm.Access
import IncroOS.Proofs.Pmm.Accounting
import IncroOS.Proofs.Boot.PageTables
import IncroOS.Proofs.Boot.Placement
import IncroOS.Proofs.Boot.Sectors
import IncroOS.Proofs.Boot.Clusters
import IncroOS.Proofs.Boot.Truncation
import IncroOS.Proofs.Boot.Files
import IncroOS.Proofs.Boot.Scan
import IncroOS.Proofs.Boot.Search
import IncroOS.Proofs.Boot.RootDirectory
import IncroOS.Proofs.Boot.Stage1
import IncroOS.Proofs.Boot.FindFile
import IncroOS.Proofs.Boot.Retries
import IncroOS.Proofs.Boot.LargeVolumes
import IncroOS.Proofs.Boot.Missed
import IncroOS.Proofs.Boot.ChainLoops
import IncroOS.Proofs.Boot.Handover
import IncroOS.Proofs.Boot.Stage2
import IncroOS.Proofs.Vmm.Entries
import IncroOS.Proofs.Vmm.Tree
import IncroOS.Proofs.Vmm.Invariant
import IncroOS.Proofs.Vmm.Descent
import IncroOS.Proofs.Vmm.Mapping
import IncroOS.Proofs.Vmm.Levels
import IncroOS.Proofs.Vmm.Calls
import IncroOS.Proofs.Vmm.Boot
import IncroOS.Proofs.Boot.IdentityMap
import IncroOS.Proofs.Vmm.Runs
import IncroOS.Proofs.Vmm.PartialMap
import IncroOS.Proofs.Vmm.Rights
import IncroOS.Proofs.Vmm.IsMapped
import IncroOS.Proofs.Vmm.Tables
import IncroOS.Proofs.Vmm.Reach
import IncroOS.Proofs.Vmm.Hardware
import IncroOS.Proofs.Vmm.Demand
import IncroOS.Proofs.Kernel.Overlap
import IncroOS.Proofs.Kernel.Decimal
import IncroOS.Proofs.Output.Strings
import IncroOS.Proofs.Output.Serial
import IncroOS.Proofs.Output.Terminal
import IncroOS.Proofs.Kernel.Texts
import IncroOS.Proofs.Kernel.Calls
import IncroOS.Proofs.Kernel.Modules
import IncroOS.Proofs.Kernel.Apart
import IncroOS.Proofs.Kernel.Coexist
import IncroOS.Proofs.Kernel.Messages
import IncroOS.Proofs.Kernel.Literals
import IncroOS.Proofs.Kernel.MemoryUp
import IncroOS.Proofs.Kernel.KMain
import IncroOS.Proofs.Kernel.Reserve
