import IncroOS.Proofs.Boot.IdentityMap
import IncroOS.Proofs.Kernel.Literals
import IncroOS.Proofs.Kernel.MemoryUp
import IncroOS.Proofs.Kernel.Messages

/-! What `kMain` does on its whole run: all that it says and shows, and the state that it leaves. -/

namespace IncroOS

open Lib

section Saying

variable {line : SerialLine} {start : Uart} {image : KernelImage} {kernel : Kernel} {color : UInt8}
  {shown : List (UInt8 × UInt8)} {said : List UInt8} {machine : KernelMachine} {s : String}

/-- A literal of the image joins what was said. -/
theorem Stands.literal {screen : Terminal → Prop} (stands : Stands start kernel screen said machine)
    (loaded : image.Loaded kernel.mem) (member : s ∈ kernelStrings) :
    Settles (fun fuel => IncroOS.sayLiteral line image fuel s machine) line.Live
      (Stands start kernel screen (said ++ ascii s)) := by
  have high := loaded.high s member
  exact stands.sayLiteral (loaded.strings s member) (by omega)

/-- A number between two literals of the image joins what was said. -/
theorem Stands.number {screen : Terminal → Prop} (stands : Stands start kernel screen said machine)
    (loaded : image.Loaded kernel.mem) {temp buffer : Vector UInt8 32} {value : Nat}
    {label unit : String} (bound : value < 2 ^ 64) (first : label ∈ kernelStrings)
    (last : unit ∈ kernelStrings) :
    Settles (fun fuel => IncroOS.sayNumber line image fuel temp value label unit buffer machine) line.Live
      (fun r => Stands start kernel screen
        (said ++ (ascii label ++ decimalText value ++ ascii unit)) r.2) := by
  -- The image holds every literal of the kernel, and each is short.
  have short := loaded.high label first
  have short' := loaded.high unit last
  exact stands.sayNumber bound (loaded.strings label first) (loaded.strings unit last) (by omega)
    (by omega)

/-- What is written apart from the screen changes the kernel only. -/
theorem Stands.withKernel {kernel' : Kernel} {color : UInt8} {shown : List (UInt8 × UInt8)}
    {region : Set Nat}
    (stands : Stands start kernel (fun t => ScreenShows t color shown) said machine)
    (changes : Mem.ChangesOnly kernel.mem kernel'.mem region)
    (apart : ∀ x ∈ region, x ∉ screenSpan) :
    Stands start kernel' (fun t => ScreenShows t color shown) said (machine.withKernel kernel') := by
  -- The cells of the screen read as before, and the line is not in memory.
  refine ⟨rfl, stands.screen.frame rfl rfl rfl rfl fun x shown => ?_, stands.console⟩
  have same := changes x fun written => apart x written shown
  rw [← stands.kernel] at same
  exact same

/-- A literal of the image is shown on the screen, and joins what was said. -/
theorem Stands.showLiteral
    (stands : Stands start kernel (fun t => ScreenShows t color shown) said machine)
    (loaded : image.Loaded kernel.mem) (member : s ∈ kernelStrings) :
    Settles (fun fuel => IncroOS.showLiteral line image fuel s machine) line.Live
      (fun last => ∃ mem, Mem.ChangesOnly kernel.mem mem screenSpan ∧
        Stands start (kernel.withMem mem)
          (fun t => ScreenShows t color (shown ++ (ascii s).map fun c => (c, color)))
          (said ++ ascii s) last) := by
  have low := loaded.low s member
  have high := loaded.high s member
  have is := loaded.strings s member
  -- The image lies in the first GiB, behind the screen.
  have inside : InFirstGib (image.place s) ((ascii s).length + 1) := by
    unfold InFirstGib
    omega
  have off : OffScreen (image.place s) ((ascii s).length + 1) := .inr (by omega)
  rw [← stands.kernel] at is ⊢
  refine (terminalWritestring_settles stands.screen stands.console.programmed is inside off).mono
    fun last returned => ?_
  obtain ⟨terminal, uart, rfl, shows, ⟨indices, draws⟩, output⟩ := returned
  have console := stands.console.output output
  rw [List.cons_append, ← List.flatMap_append] at console
  exact ⟨terminal.mem, draws.screen, rfl, shows, console⟩

/-- The colour that the screen is cleared in. -/
def greyOnBlack : UInt8 := vgaEntryColor .lightGrey .black

/-- Clearing the screen changes nothing else. -/
theorem Stands.clearScreen {screen : Terminal → Prop}
    (stands : Stands start kernel screen said machine) :
    ∃ mem, Mem.ChangesOnly kernel.mem mem screenSpan ∧
      Stands start (kernel.withMem mem) (fun t => ScreenShows t greyOnBlack []) said
        (machine.withTerminal (terminalInitialize machine.terminal)) := by
  have drawn : Mem.ChangesOnly machine.kernel.mem
      (terminalInitialize machine.terminal).mem screenSpan :=
    (@terminalInitialize_draws machine.terminal).screen
  have cleared := @terminalInitialize_shows machine.terminal
  rw [← greyOnBlack] at cleared
  -- What the initialisation does in detail does not matter any more.
  generalize terminalInitialize machine.terminal = terminal at drawn cleared ⊢
  rw [stands.kernel] at drawn
  refine ⟨terminal.mem, drawn, ?_, ?_, stands.console⟩
  · rw [KernelMachine.withTerminal_kernel, stands.kernel]
  · rw [KernelMachine.withTerminal_terminal]
    exact cleared

end Saying

section Lines

/-- What `kMain` says before it brings up the memory modules. -/
def greeting : List String :=
  ["\n\n=== IncroOS Kernel Starting ===\n", "===========================================\n",
    "  IncroOS - Kernel Starting\n", "===========================================\n",
    "Hello, 64-bit kernel World!\n", "\n[INIT] Initializing Memory Subsystem...\n"]

/-- What `kMain` says while it brings them up. -/
def memoryLines : List String :=
  ["[PMM] Physical Memory Manager initialized\n", "[PMM] Total pages: 1048576\n",
    "[PMM] Free pages: 1048160\n", "[PMM] Used pages: 416\n",
    "[VMM] Virtual Memory Manager initialized\n", "[KMALLOC] Kernel heap allocator initialized\n",
    "\n[INIT] Memory Subsystem Initialized Successfully\n"]

/-- What `kMain` says while it tries the allocators out. -/
def testLines : List String :=
  ["\n[TEST] Testing Memory Allocation...\n", "[TEST] kmalloc(64) succeeded\n",
    "[TEST] kfree(64) succeeded\n", "[TEST] kmalloc(1024) succeeded\n",
    "[TEST] kfree(1024) succeeded\n",
    "[TEST] pmm_alloc_page() succeeded, page at: 0x0000000000180000\n",
    "[TEST] pmm_free_page() succeeded\n"]

/-- What `kMain` says of the heap at its end. -/
def heapLines : List String :=
  ["\n[HEAP] Used memory: 0 bytes\n", "[HEAP] Free memory: 524264 bytes\n",
    "\n===========================================\n", "  Memory Manager Tests Complete\n",
    "===========================================\n", "Memory Manager Initialized!\n"]

/-- All that `kMain` says. -/
def kernelReport : List UInt8 := (greeting ++ memoryLines ++ testLines ++ heapLines).flatMap ascii

/-- The grey text on black that `kMain` shows on the screen. -/
def kernelScreen : List (UInt8 × UInt8) :=
  (ascii "Hello, 64-bit kernel World!\n" ++ ascii "Memory Manager Initialized!\n").map
    fun c => (c, greyOnBlack)

end Lines

section Phases

variable {line : SerialLine} {start : Uart} {image : KernelImage} {kernel : Kernel}
  {held : Finset Nat} {color : UInt8} {shown : List (UInt8 × UInt8)} {said : List UInt8}
  {machine : KernelMachine} {s : String}

/-- What holds of the machine between two steps of `kMain` once all modules are up. -/
structure Running (start : Uart) (image : KernelImage) (held : Finset Nat) (color : UInt8)
    (shown : List (UInt8 × UInt8)) (said : List UInt8) (machine : KernelMachine) : Prop where
  up : MemoryUp held machine.kernel
  loaded : image.Loaded machine.kernel.mem
  stands : Stands start machine.kernel (fun t => ScreenShows t color shown) said machine

theorem Running.of_stands (up : MemoryUp held kernel) (loaded : image.Loaded kernel.mem)
    (stands : Stands start kernel (fun t => ScreenShows t color shown) said machine) :
    Running start image held color shown said machine := by
  rw [← stands.kernel] at up loaded stands
  exact ⟨up, loaded, stands⟩

theorem Running.sayLiteral (running : Running start image held color shown said machine)
    (member : s ∈ kernelStrings) :
    Settles (fun fuel => IncroOS.sayLiteral line image fuel s machine) line.Live
      (Running start image held color shown (said ++ ascii s)) :=
  (running.stands.literal running.loaded member).mono fun _ stands =>
    .of_stands running.up running.loaded stands

/-- The heap is apart from the image and from the screen. -/
theorem heap_not_image {x : Nat} (inside : x ∈ heapSpan) : x ∉ imageSpan ∧ x ∉ screenSpan := by
  -- The image ends where the bitmap starts, below the heap, and the screen is below both.
  rw [mem_heapSpan] at inside
  rw [mem_screenSpan, imageSpan, Set.mem_Ico]
  omega

/-- The first header lies in the heap. -/
theorem headerSpan_heap : headerSpan heapBase ⊆ heapSpan := by
  -- A header has 24 bytes, and the heap has more.
  intro x member
  simp only [headerSpan, heapBase_eq, Set.mem_Ico] at member
  rw [mem_heapSpan]
  omega

/-- A call to the heap spares the image and the screen. -/
theorem Running.heap {held' : Finset Nat} (running : Running start image held color shown said machine)
    (up : MemoryUp held' kernel)
    (changes : Mem.ChangesOnly machine.kernel.mem kernel.mem heapSpan) :
    Running start image held' color shown said (machine.withKernel kernel) := by
  -- What was written lies in the heap, which is apart from both.
  refine ⟨up, running.loaded.frame changes fun x inside within => ?_,
    running.stands.withKernel changes fun x inside shown => ?_⟩
  · rw [mem_heapSpan] at inside
    rw [imageSpan, Set.mem_Ico] at within
    omega
  · rw [mem_heapSpan] at inside
    rw [mem_screenSpan] at shown
    omega

/-- The screen is apart from the image. -/
theorem screen_not_image {x : Nat} (shown : x ∈ screenSpan) : x ∉ imageSpan := by
  -- The screen ends below 1 MiB, where the image starts.
  rw [mem_screenSpan] at shown
  rw [imageSpan, Set.mem_Ico]
  omega

/-- The bitmap is apart from the image and from the screen. -/
theorem bitmap_not_image {x : Nat} (inside : x ∈ Set.Ico 0x140000 0x160000) :
    x ∉ imageSpan ∧ x ∉ screenSpan := by
  -- The image ends where the bitmap starts, and the screen is below both.
  rw [Set.mem_Ico] at inside
  rw [mem_screenSpan, imageSpan, Set.mem_Ico]
  omega

theorem Kernel.withMem_withMem (kernel : Kernel) (mem mem' : Mem) :
    (kernel.withMem mem).withMem mem' = kernel.withMem mem' := by
  unfold Kernel.withMem
  rfl

/-- The first lines of `kMain`. -/
theorem greet_settles (loaded : image.Loaded machine.kernel.mem) :
    Settles (fun fuel => greet line image fuel machine) line.Live
      (fun last => ∃ mem, Mem.ChangesOnly machine.kernel.mem mem screenSpan ∧
        Stands machine.uart (machine.kernel.withMem mem)
          (fun t => ScreenShows t greyOnBlack
            ((ascii "Hello, 64-bit kernel World!\n").map fun c => (c, greyOnBlack)))
          (greeting.flatMap ascii) last) := by
  unfold greet
  refine (ConsoleShows.init line machine.uart).bind fun uart shows => ?_
  have stands : Stands machine.uart machine.kernel (fun _ => True) [] (machine.withUart uart) :=
    ⟨rfl, trivial, shows⟩
  refine (stands.literal loaded (by decide)).bind fun m stands => ?_
  -- The screen is cleared, which spares the image.
  obtain ⟨mem, drawn, stands⟩ := stands.clearScreen
  have loaded := loaded.frame drawn fun x shown => screen_not_image shown
  refine (stands.literal loaded (by decide)).bind fun m stands => ?_
  refine (stands.literal loaded (by decide)).bind fun m stands => ?_
  refine (stands.literal loaded (by decide)).bind fun m stands => ?_
  refine (stands.showLiteral loaded (by decide)).bind fun m stands => ?_
  obtain ⟨mem', written, stands⟩ := stands
  have loaded := loaded.frame written fun x shown => screen_not_image shown
  refine (stands.literal loaded (by decide)).mono fun last stands => ?_
  refine ⟨mem', drawn.trans written, ?_⟩
  rw [Kernel.withMem_withMem] at stands
  simpa only [greeting, List.flatMap_cons, List.flatMap_nil, List.append_nil, List.nil_append,
    List.append_assoc] using stands

/-- The initialisation of the memory modules. -/
theorem bringUpMemory_settles
    (stands : Stands start kernel (fun t => ScreenShows t color shown) said machine)
    (loaded : image.Loaded kernel.mem) (zeroed : kernel = Kernel.zeroed kernel.mem bootCr3)
    (entries : BootEntries kernel.mem) :
    Settles (fun fuel => bringUpMemory line image fuel machine) line.Live
      (fun r => Running start image ∅ color shown (said ++ memoryLines.flatMap ascii) r.2) := by
  have up := memoryUp_initial zeroed entries
  obtain ⟨untouched, used, -, -, changes⟩ := pmmInit_untouched zeroed entries
  unfold bringUpMemory
  rw [stands.kernel]
  generalize pmmInit kernel totalMemory = started at up untouched used changes ⊢
  have pages := untouched.totalPages
  rw [vmmInit, Kernel.withPml4_totalPages] at pages
  have total : started.totalPages = 1048576 := by omega
  have loaded := loaded.frame changes fun x inside => (bitmap_not_image inside).1
  have stands := stands.withKernel changes fun x inside => (bitmap_not_image inside).2
  refine (stands.literal loaded (by decide)).bind fun m stands => ?_
  -- The counts are read while nothing but the console changes.
  have totalPages : pmmGetTotalPages m.kernel = 1048576 := by
    rw [stands.kernel, pmmGetTotalPages, total]
  rw [totalPages]
  refine (stands.number loaded (by decide) (by decide) (by decide)).bind fun r stands => ?_
  have freePages : pmmGetFreePages r.2.kernel = 1048160 := by
    rw [stands.kernel, pmmGetFreePages, total, used]
    decide
  dsimp only
  rw [freePages]
  refine (stands.number loaded (by decide) (by decide) (by decide)).bind fun r stands => ?_
  have usedPages : pmmGetUsedPages r.2.kernel = 416 := by
    rw [stands.kernel, pmmGetUsedPages, used]
  rw [usedPages]
  refine (stands.number loaded (by decide) (by decide) (by decide)).bind fun r stands => ?_
  rw [stands.kernel]
  -- The tables are taken over, and the heap gets its first header.
  have taken : Mem.ChangesOnly started.mem (vmmInit started).mem ∅ := Mem.ChangesOnly.refl _ _
  have stands := stands.withKernel taken fun x inside => absurd inside (Set.notMem_empty x)
  refine (stands.literal loaded (by decide)).bind fun m stands => ?_
  rw [stands.kernel]
  have header := (kmallocInit_changes (vmmInit started)).mono headerSpan_heap
  have stands := stands.withKernel header fun x inside => (heap_not_image inside).2
  have loaded := loaded.frame header fun x inside => (heap_not_image inside).1
  refine (stands.literal loaded (by decide)).bind fun m stands => ?_
  refine (stands.literal loaded (by decide)).bind fun m stands => .pure ?_
  have total : ascii "[PMM] Total pages: " ++ decimalText 1048576 ++ ascii "\n" =
      ascii "[PMM] Total pages: 1048576\n" := by decide
  have free : ascii "[PMM] Free pages: " ++ decimalText 1048160 ++ ascii "\n" =
      ascii "[PMM] Free pages: 1048160\n" := by decide
  have used : ascii "[PMM] Used pages: " ++ decimalText 416 ++ ascii "\n" =
      ascii "[PMM] Used pages: 416\n" := by decide
  rw [total, free, used] at stands
  refine .of_stands up loaded ?_
  simpa only [memoryLines, List.flatMap_cons, List.flatMap_nil, List.append_nil, List.append_assoc]
    using stands

/-- `kmalloc` and `kfree` of some bytes on the free heap. -/
theorem Running.tryKmalloc (running : Running start image ∅ color shown said machine) {size : Nat}
    {allocated released failed : String} (some : size ≠ 0)
    (room : alignSize size ≤ heapSize - blockHeaderSize) (first : allocated ∈ kernelStrings)
    (second : released ∈ kernelStrings) :
    Settles (fun fuel => IncroOS.tryKmalloc line image fuel size allocated released failed machine)
      line.Live
      (Running start image ∅ color shown (said ++ (ascii allocated ++ ascii released))) := by
  -- There is room, so the branch of the failure is not taken, and `kfree` undoes the call.
  unfold IncroOS.tryKmalloc
  refine (running.up.kmalloc some room).bind fun r taken => ?_
  obtain ⟨kernel, p⟩ := r
  obtain ⟨valid, up, changes⟩ := taken
  have running := running.heap up changes
  dsimp only
  simp only [if_pos valid]
  refine (running.sayLiteral first).bind fun m running => ?_
  refine running.up.kfree.bind fun kernel freed => ?_
  refine ((running.heap freed.1 freed.2).sayLiteral second).mono fun last running => ?_
  rwa [List.append_assoc] at running

/-- The first free page is taken, named and given back. -/
theorem Running.tryPage (running : Running start image held color shown said machine) :
    Settles (fun fuel => IncroOS.tryPage line image fuel machine) line.Live
      (Running start image held color shown (said ++
        (ascii "[TEST] pmm_alloc_page() succeeded, page at: 0x0000000000180000\n" ++
          ascii "[TEST] pmm_free_page() succeeded\n"))) := by
  obtain ⟨page, undone, changes⟩ := running.up.alloc_free
  have valid : heapBase ≠ 0 := by decide
  unfold IncroOS.tryPage
  dsimp only
  rw [page]
  simp only [if_pos valid]
  -- While the page is held only its mark has changed.
  have loaded := running.loaded.frame changes fun x inside => (bitmap_not_image inside).1
  have stands := running.stands.withKernel changes fun x inside => (bitmap_not_image inside).2
  refine (stands.literal loaded (by decide)).bind fun m stands => ?_
  refine (stands.sayNibbles heapBase).bind fun m stands => ?_
  refine (stands.literal loaded (by decide)).bind fun m stands => ?_
  rw [stands.kernel, undone]
  have back := fun x outside => (changes x outside).symm
  have stands := stands.withKernel back fun x inside => (bitmap_not_image inside).2
  refine (stands.literal running.loaded (by decide)).mono fun last stands => ?_
  have address : ascii "[TEST] pmm_alloc_page() succeeded, page at: 0x" ++ hexText heapBase ++
      ascii "\n" = ascii "[TEST] pmm_alloc_page() succeeded, page at: 0x0000000000180000\n" := by
    decide
  rw [← address]
  refine .of_stands running.up running.loaded ?_
  simpa only [List.append_assoc] using stands

/-- The tests of `kMain` leave the modules as they were. -/
theorem Running.testMemory (running : Running start image ∅ color shown said machine) :
    Settles (fun fuel => IncroOS.testMemory line image fuel machine) line.Live
      (Running start image ∅ color shown (said ++ testLines.flatMap ascii)) := by
  -- One test after the other: each starts where the one before it has left the modules.
  unfold IncroOS.testMemory
  refine (running.sayLiteral (by decide)).bind fun m running => ?_
  refine (running.tryKmalloc (by decide) (by decide) (by decide) (by decide)).bind
    fun m running => ?_
  refine (running.tryKmalloc (by decide) (by decide) (by decide) (by decide)).bind
    fun m running => ?_
  refine running.tryPage.mono fun last running => ?_
  simpa only [testLines, List.flatMap_cons, List.flatMap_nil, List.append_nil, List.append_assoc]
    using running

/-- The last lines of `kMain`. -/
theorem Running.reportHeap {buffer : Vector UInt8 32}
    (running : Running start image ∅ color shown said machine) :
    Settles (fun fuel => IncroOS.reportHeap line image fuel buffer machine) line.Live
      (Running start image ∅ color
        (shown ++ (ascii "Memory Manager Initialized!\n").map fun c => (c, color))
        (said ++ heapLines.flatMap ascii)) := by
  -- Nothing is held, so the two numbers are 0 and all of the heap but its one header.
  have used : kmallocGetUsed machine.kernel = 0 := running.up.heap_free.total
  have up := running.up
  have loaded := running.loaded
  unfold IncroOS.reportHeap
  rw [used]
  refine (running.stands.number loaded (by decide) (by decide) (by decide)).bind
    fun r stands => ?_
  dsimp only
  rw [stands.kernel]
  refine (up.getFree.under fun _ => trivial).bind fun free counted => ?_
  subst counted
  refine (stands.number loaded (by decide) (by decide) (by decide)).bind fun r stands => ?_
  refine (stands.literal loaded (by decide)).bind fun m stands => ?_
  refine (stands.literal loaded (by decide)).bind fun m stands => ?_
  refine (stands.literal loaded (by decide)).bind fun m stands => ?_
  refine (stands.showLiteral loaded (by decide)).mono fun last shown => ?_
  obtain ⟨mem, written, stands⟩ := shown
  have usedLine : ascii "\n[HEAP] Used memory: " ++ decimalText 0 ++ ascii " bytes\n" =
      ascii "\n[HEAP] Used memory: 0 bytes\n" := by decide
  have freeLine : ascii "[HEAP] Free memory: " ++ decimalText 524264 ++ ascii " bytes\n" =
      ascii "[HEAP] Free memory: 524264 bytes\n" := by decide
  rw [usedLine, freeLine] at stands
  have loaded := loaded.frame written fun x shown => screen_not_image shown
  refine .of_stands (up.after_screen written) loaded ?_
  simpa only [heapLines, List.flatMap_cons, List.flatMap_nil, List.append_nil, List.append_assoc]
    using stands

end Phases

section Whole

variable {line : SerialLine} {image : KernelImage} {machine : KernelMachine}

/-- The machine as the loader hands it over: its page tables in memory, and no static set. -/
structure HandedOver (image : KernelImage) (machine : KernelMachine) : Prop where
  tables : ∃ mem, machine.kernel = .zeroed (buildPageTables mem) bootCr3
  loaded : image.Loaded machine.kernel.mem

/-- The phases of `kMain`, one behind the other. -/
theorem kMain_settles (handed : HandedOver image machine) :
    Settles (fun fuel => kMain line image fuel machine) line.Live
      (Running machine.uart image ∅ greyOnBlack kernelScreen kernelReport) := by
  obtain ⟨before, tables⟩ := handed.tables
  have entries : BootEntries machine.kernel.mem := by
    rw [tables, Kernel.zeroed_mem]
    exact buildPageTables_bootEntries before
  unfold kMain
  refine (greet_settles handed.loaded).bind fun m greeted => ?_
  obtain ⟨mem, drawn, stands⟩ := greeted
  -- The greeting is drawn apart from the image and the tables.
  have loaded := handed.loaded.frame drawn fun x shown => screen_not_image shown
  have entries : BootEntries mem := by
    refine entries.congr drawn (Set.disjoint_left.mpr fun x low shown => ?_)
    rw [Set.mem_Ico] at low
    rw [mem_screenSpan] at shown
    omega
  have zeroed : machine.kernel.withMem mem = .zeroed mem bootCr3 := by
    rw [tables]
    rfl
  refine (bringUpMemory_settles stands loaded zeroed entries).bind fun r running => ?_
  refine running.testMemory.bind fun m running => ?_
  refine running.reportHeap.mono fun last running => ?_
  simpa only [kernelScreen, kernelReport, List.map_append, List.flatMap_append] using running

/--
`kMain` comes to the loop in which it halts, and has then said and shown its messages and no others.

They name the counts of pages that the double count of the bitmap gives. Every page and every block
that it took for its tests is free again.
-/
theorem kMain_report (line : SerialLine) (image : KernelImage) (machine : KernelMachine)
    (handed : HandedOver image machine) :
    Settles (fun fuel => kMain line image fuel machine) line.Live
      (fun last => ConsoleShows machine.uart (0x53 :: kernelReport.flatMap crlf) last.uart ∧
        ScreenShows last.terminal greyOnBlack kernelScreen ∧
        PagesUntouched last.kernel ∧ last.kernel.usedPages = 416 ∧
        HeapInv ⟨last.kernel, ∅⟩ [⟨heapSize - blockHeaderSize, true⟩]) := by
  -- What `kMain` leaves is more than what is reported here.
  refine (kMain_settles handed).mono fun last running => ?_
  have up := running.up
  exact ⟨running.stands.console, running.stands.screen, up.untouched, up.used, up.heap_free.inv⟩

/-- The machine with that image loaded, and with the UART as after a reset. -/
def handedMachine : KernelMachine := .blank (.zeroed (buildPageTables imageMem) bootCr3) resetUart

/-- The loader's tables lie apart from the image. -/
theorem handedMachine_handedOver : HandedOver plainImage handedMachine := by
  -- The tables that Stage2 builds are below the image, which they leave as it was.
  refine ⟨⟨imageMem, rfl⟩, ?_⟩
  rw [handedMachine, KernelMachine.blank_kernel, Kernel.zeroed_mem]
  refine plainImage_loaded.frame (buildPageTables_changes imageMem) fun x low within => ?_
  rw [Set.mem_Ico] at low
  rw [imageSpan, Set.mem_Ico] at within
  omega

/-- On a machine as it comes out of the reset `kMain` ends, with its report on the line. -/
theorem kMain_report_plain :
    ∃ fuel last, kMain quickLine plainImage fuel handedMachine = some last ∧
      ConsoleShows handedMachine.uart (0x53 :: kernelReport.flatMap crlf) last.uart ∧
      ScreenShows last.terminal greyOnBlack kernelScreen := by
  -- The line is live, so the run ends, and what it ends in is what was reported.
  have report := kMain_report quickLine plainImage handedMachine handedMachine_handedOver
  obtain ⟨fuel, last, ends⟩ := report.settles quickLine_live
  have returned := ends fuel (Nat.le_refl fuel)
  obtain ⟨console, screen, -⟩ := report.sound fuel last returned
  exact ⟨fuel, last, returned, console, screen⟩

end Whole

end IncroOS
