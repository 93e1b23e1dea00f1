import IncroOS.Kernel.Decimal
import IncroOS.Kernel.Machine

/-! `kMain`, which brings up the modules, tries the allocators out and reports on the serial line. -/

namespace IncroOS

open Lib

/-- The bytes of a string literal, without the NUL that the compiler puts behind them. -/
def ascii (s : String) : List UInt8 := s.toList.map fun c => UInt8.ofNat c.toNat

/--
What the linker and the stack leave open.

These are the address of each literal, and the bytes that `buffer` and the calls' `temp` start with.
-/
structure KernelImage where
  place : String → Nat
  buffer : Vector UInt8 32
  temp : Nat → Vector UInt8 32

section Output

variable (line : SerialLine) (image : KernelImage) (fuel : Nat)

/-- `serial_writestring` of a literal. -/
def sayLiteral (s : String) (machine : KernelMachine) : Option KernelMachine := do
  let uart ← serialWritestring line fuel (machine.text (image.place s)) machine.uart
  some (machine.withUart uart)

/-- `serial_writestring` of a local array. -/
def sayArray {size : Nat} (array : Vector UInt8 size) (machine : KernelMachine) :
    Option KernelMachine := do
  let uart ← serialWritestring line fuel (arrayText array) machine.uart
  some (machine.withUart uart)

/-- `terminal_writestring` of a literal. -/
def showLiteral (s : String) (machine : KernelMachine) : Option KernelMachine :=
  terminalWritestring line fuel (image.place s) machine

/-- `uint64_to_string` into `buffer`, which is then output between two literals. -/
def sayNumber (temp : Vector UInt8 32) (value : Nat) (label unit : String)
    (buffer : Vector UInt8 32) (machine : KernelMachine) :
    Option (Vector UInt8 32 × KernelMachine) := do
  let buffer ← uint64ToString temp (UInt64.ofNat value) buffer
  let machine ← sayLiteral line image fuel label machine
  let machine ← sayArray line fuel buffer machine
  let machine ← sayLiteral line image fuel unit machine
  some (buffer, machine)

/-- The `hex` of one nibble of `page`. -/
def hexChar (page i : Nat) : UInt8 :=
  let nibble := UInt8.ofNat ((page >>> i) &&& 0xF)
  if nibble < 10 then 0x30 + nibble else 0x41 + (nibble - 10)

/-- One turn of the loop `for (int i = 60; i >= 0; i -= 4)`, of which there are sixteen. -/
def sayNibble (page turn : Nat) (machine : KernelMachine) : Option KernelMachine :=
  sayArray line fuel #v[hexChar page (60 - 4 * turn), 0] machine

end Output

section Phases

variable (line : SerialLine) (image : KernelImage) (fuel : Nat)

/-- The first lines of `kMain`, up to `pmm_init`. -/
def greet (machine : KernelMachine) : Option KernelMachine := do
  let uart ← serialInit line fuel machine.uart
  let machine := machine.withUart uart
  let machine ← sayLiteral line image fuel "\n\n=== IncroOS Kernel Starting ===\n" machine
  let machine := machine.withTerminal (terminalInitialize machine.terminal)
  let machine ← sayLiteral line image fuel "===========================================\n" machine
  let machine ← sayLiteral line image fuel "  IncroOS - Kernel Starting\n" machine
  let machine ← sayLiteral line image fuel "===========================================\n" machine
  let machine ← showLiteral line image fuel "Hello, 64-bit kernel World!\n" machine
  sayLiteral line image fuel "\n[INIT] Initializing Memory Subsystem...\n" machine

/-- The initialisation of the three modules, with the pages that `kMain` counts in between. -/
def bringUpMemory (machine : KernelMachine) :
    Option (Vector UInt8 32 × KernelMachine) := do
  let machine := machine.withKernel (pmmInit machine.kernel totalMemory)
  let machine ← sayLiteral line image fuel "[PMM] Physical Memory Manager initialized\n" machine
  let (buffer, machine) ← sayNumber line image fuel (image.temp 0)
    (pmmGetTotalPages machine.kernel) "[PMM] Total pages: " "\n" image.buffer machine
  let (buffer, machine) ← sayNumber line image fuel (image.temp 1)
    (pmmGetFreePages machine.kernel) "[PMM] Free pages: " "\n" buffer machine
  let (buffer, machine) ← sayNumber line image fuel (image.temp 2)
    (pmmGetUsedPages machine.kernel) "[PMM] Used pages: " "\n" buffer machine
  let machine := machine.withKernel (vmmInit machine.kernel)
  let machine ← sayLiteral line image fuel "[VMM] Virtual Memory Manager initialized\n" machine
  let machine := machine.withKernel (kmallocInit machine.kernel)
  let machine ← sayLiteral line image fuel "[KMALLOC] Kernel heap allocator initialized\n" machine
  let machine ← sayLiteral line image fuel
    "\n[INIT] Memory Subsystem Initialized Successfully\n" machine
  some (buffer, machine)

/-- `kmalloc` of some bytes, and `kfree` of them if there were enough. -/
def tryKmalloc (size : Nat) (allocated released failed : String) (machine : KernelMachine) :
    Option KernelMachine := do
  let (kernel, ptr) ← kmalloc fuel machine.kernel size
  let machine := machine.withKernel kernel
  if ptr ≠ 0 then
    let machine ← sayLiteral line image fuel allocated machine
    let kernel ← kfree fuel machine.kernel ptr
    sayLiteral line image fuel released (machine.withKernel kernel)
  else sayLiteral line image fuel failed machine

/-- `pmm_alloc_page`, and `pmm_free_page` of its page if there was one. -/
def tryPage (machine : KernelMachine) : Option KernelMachine := do
  let (kernel, page) := pmmAllocPage machine.kernel
  let machine := machine.withKernel kernel
  if page ≠ 0 then
    let machine ← sayLiteral line image fuel
      "[TEST] pmm_alloc_page() succeeded, page at: 0x" machine
    let machine ← waitingLoop (sayNibble line fuel page) 0 16 machine
    let machine ← sayLiteral line image fuel "\n" machine
    let machine := machine.withKernel (pmmFreePage machine.kernel page)
    sayLiteral line image fuel "[TEST] pmm_free_page() succeeded\n" machine
  else sayLiteral line image fuel "[TEST] pmm_alloc_page() failed\n" machine

/-- The tests of `kMain`. -/
def testMemory (machine : KernelMachine) : Option KernelMachine := do
  let machine ← sayLiteral line image fuel "\n[TEST] Testing Memory Allocation...\n" machine
  let machine ← tryKmalloc line image fuel 64 "[TEST] kmalloc(64) succeeded\n"
    "[TEST] kfree(64) succeeded\n" "[TEST] kmalloc(64) failed\n" machine
  let machine ← tryKmalloc line image fuel 1024 "[TEST] kmalloc(1024) succeeded\n"
    "[TEST] kfree(1024) succeeded\n" "[TEST] kmalloc(1024) failed\n" machine
  tryPage line image fuel machine

/-- The last lines of `kMain`, from the statistics of the heap on. -/
def reportHeap (buffer : Vector UInt8 32) (machine : KernelMachine) : Option KernelMachine := do
  let (buffer, machine) ← sayNumber line image fuel (image.temp 3)
    (kmallocGetUsed machine.kernel) "\n[HEAP] Used memory: " " bytes\n" buffer machine
  let freeMemory ← kmallocGetFree fuel machine.kernel
  let (_, machine) ← sayNumber line image fuel (image.temp 4)
    freeMemory "[HEAP] Free memory: " " bytes\n" buffer machine
  let machine ← sayLiteral line image fuel "\n===========================================\n" machine
  let machine ← sayLiteral line image fuel "  Memory Manager Tests Complete\n" machine
  let machine ← sayLiteral line image fuel "===========================================\n" machine
  showLiteral line image fuel "Memory Manager Initialized!\n" machine

/-- `kMain` up to the loop in which it halts, with at most `fuel` turns for each of its loops. -/
def kMain (machine : KernelMachine) : Option KernelMachine := do
  let machine ← greet line image fuel machine
  let (buffer, machine) ← bringUpMemory line image fuel machine
  let machine ← testMemory line image fuel machine
  reportHeap line image fuel buffer machine

end Phases

end IncroOS
