import IncroOS.Proofs.Kernel.Apart

/-! Calls to all modules in any order: each module keeps to its own state, and to its own memory. -/

namespace IncroOS

open Lib

/-- Every module is in the state that its specification says, in memory of its own. -/
structure KernelInv (start : Uart) (state : KernelState) (modules : Modules) : Prop where
  pages : VmmInv state.machine.kernel (state.owned ∪ heapPages)
  apart : ∀ a ∈ state.owned, a ∉ heapPages
  placed : TablesPlaced state.machine.kernel
  pool : modules.pool = pagePool state.machine.kernel
  tables : modules.tables = tablePaths state.machine.kernel.mem
  entries : modules.entries = leafOf state.machine.kernel.mem
  heap : HeapInv ⟨state.machine.kernel, state.live⟩ modules.blocks
  screen : ScreenShows state.machine.terminal modules.color modules.shown
  console : ConsoleShows start (0x53 :: modules.log) state.machine.uart

section Memory

variable {line : SerialLine} {start : Uart} {state : KernelState} {modules : Modules}
  {kernel : Kernel} {owned : Finset Nat} {region : Set Nat}

/-- The heap stays as it is where its bytes do. -/
theorem KernelInv.heap_frame (inv : KernelInv start state modules)
    (place : kernel.heapStart = state.machine.kernel.heapStart)
    (changes : Mem.ChangesOnly state.machine.kernel.mem kernel.mem region)
    (apart : ∀ x ∈ region, x ∉ heapSpan) : HeapInv ⟨kernel, state.live⟩ modules.blocks := by
  -- The headers are read from `heapSpan` alone, and the region has no byte of it.
  refine inv.heap.congr place changes ?_
  rw [Set.disjoint_left]
  exact fun x inside written => apart x written inside

/-- The screen stays as it is where its bytes do. -/
theorem KernelInv.screen_frame (inv : KernelInv start state modules)
    (changes : Mem.ChangesOnly state.machine.kernel.mem kernel.mem region)
    (apart : ∀ x ∈ region, x ∉ screenSpan) :
    ScreenShows (state.machine.withKernel kernel).terminal modules.color modules.shown := by
  refine inv.screen.frame rfl rfl rfl rfl fun x shown => changes x fun written => ?_
  exact apart x written shown

/-- The same paths have tables where none is added. -/
theorem KernelInv.tables_kept (inv : KernelInv start state modules)
    (extension : Extends state.machine.kernel.mem kernel.mem []) (tree : PageTree kernel.mem) :
    modules.tables = tablePaths kernel.mem :=
  inv.tables.trans (extension.tablePaths_eq inv.pages.tree tree).symm

/-- A call to the page allocator writes to the bitmap, which leaves the heap and the screen alone. -/
theorem KernelInv.after_pages (inv : KernelInv start state modules)
    (frame : PmmFrame state.machine.kernel kernel)
    (spared : TablesSpared state.machine.kernel kernel (owned ∪ heapPages))
    (apart : ∀ a ∈ owned, a ∉ heapPages) :
    KernelInv start
      { state with machine := state.machine.withKernel kernel, owned }
      { modules with pool := pagePool kernel } := by
  -- The bitmap is apart from the heap and the screen, so of the modules only the pool moves.
  have places := fun x inside => bitmap_apart_places (x := x) inv.pages inside
  refine ⟨spared.inv, apart, inv.placed.kept spared.tree, rfl,
    inv.tables_kept spared.tree spared.inv.tree, ?_, ?_, ?_, inv.console⟩
  · rw [inv.entries]
    exact funext fun w => (spared.leaves w).symm
  · exact inv.heap_frame frame.heapStart frame.mem fun x inside => (places x inside).1
  · exact inv.screen_frame frame.mem fun x inside => (places x inside).2

/-- A page that is free is none of the heap's. -/
theorem KernelInv.free_off_heap (inv : KernelInv start state modules) {page : Nat}
    (free : isPageAllocated state.machine.kernel page = false) : page * pageSize ∉ heapPages := by
  -- The heap owns its pages in the page allocator, so each of them is marked.
  intro member
  have marked := (inv.pages.owned _ (Finset.mem_union_right _ member)).allocated
  rw [Nat.mul_div_cancel page (show 0 < pageSize by decide)] at marked
  exact absurd (marked.symm.trans free) (by decide)

/-- An allocation hands out a page that is none of the heap's. -/
theorem KernelInv.allocPage (inv : KernelInv start state modules) {page : Nat}
    (result : pmmAllocPage state.machine.kernel = (kernel, page)) :
    page = (modules.pool.take.2.map (· * pageSize)).getD 0 ∧
      KernelInv start
        { state with
          machine := state.machine.withKernel kernel
          owned := if page = 0 then state.owned else insert page state.owned }
        { modules with pool := modules.pool.take.1 } := by
  have frame := pmmAllocPage_frame state.machine.kernel
  have spared := inv.pages.alloc
  have pools := congrArg Prod.fst (pagePool_alloc state.machine.kernel)
  rw [result] at frame spared pools
  dsimp only at frame spared pools
  rw [inv.pool, ← pools]
  obtain ⟨full, taken⟩ | ⟨p, below, free, taken, given⟩ := pagePool_take state.machine.kernel
  · -- Nothing is left, and zero is returned.
    have null : page = 0 := congrArg Prod.snd (result.symm.trans taken)
    rw [if_pos null] at spared ⊢
    rw [full]
    exact ⟨null, inv.after_pages frame spared inv.apart⟩
  · have address : page = p * pageSize := by
      rw [← inv.pages.page_address below]
      exact congrArg Prod.snd (result.symm.trans given)
    have beyond := (inv.pages.free_page free).1
    have nonnull : page ≠ 0 := by
      rw [address]
      simp only [pageSize]
      omega
    rw [if_neg nonnull, ← Finset.insert_union] at spared
    rw [if_neg nonnull, taken]
    refine ⟨address, inv.after_pages frame spared fun a member => ?_⟩
    rcases Finset.mem_insert.mp member with rfl | old
    · rw [address]
      exact inv.free_off_heap free
    · exact inv.apart a old

/-- A release gives back a page of its client. -/
theorem KernelInv.freePage (inv : KernelInv start state modules) {addr : UInt64}
    (mine : addr.toNat ∈ state.owned) :
    KernelInv start
      { state with
        machine := state.machine.withKernel (pmmFreePage state.machine.kernel addr.toNat)
        owned := state.owned.erase addr.toNat }
      { modules with pool := modules.pool.release (addr.toNat / pageSize) } := by
  -- The page is no page of the heap, so the heap keeps every page it has.
  have spared := inv.pages.release (Finset.mem_union_left _ mine)
  have pools := pagePool_apply state.machine.kernel (.free addr)
  have others : (state.owned ∪ heapPages).erase addr.toNat =
      state.owned.erase addr.toNat ∪ heapPages := by
    rw [Finset.erase_union_distrib, Finset.erase_eq_of_notMem (inv.apart _ mine)]
  rw [others] at spared
  have after := inv.after_pages (pmmFreePage_frame _ addr.toNat) spared fun a member =>
    inv.apart a (Finset.mem_of_mem_erase member)
  have released : pagePool (pmmFreePage state.machine.kernel addr.toNat) =
      modules.pool.release (addr.toNat / pageSize) := by
    rw [inv.pool]
    exact pools
  rwa [released] at after

/-- The tables that a map call adds are placed beyond the reserved pages, in the first GiB. -/
theorem KernelInv.placed_map (inv : KernelInv start state modules) {virt phys flags : UInt64}
    (outside : OutsideBoot virt.toNat)
    (room : (VmmCall.map virt phys flags).HasRoom ⟨state.machine.kernel, state.owned⟩) :
    TablesPlaced (vmmMapPage state.machine.kernel virt.toNat phys.toNat flags.toNat).1 := by
  -- A new table was free before the call, and `room` keeps it in the first GiB.
  have reach : ReachInv ⟨state.machine.kernel, state.owned ∪ heapPages⟩ :=
    ⟨inv.pages, fun t member => (inv.placed t member).2⟩
  have low := (reach.mapPages_iff phys flags outside).mpr room
  have call : (VmmCall.map virt phys flags).Outside
      ⟨state.machine.kernel, state.owned ∪ heapPages⟩ := outside
  obtain ⟨fresh, -⟩ := VmmInv.tablePages_fresh inv.pages call
  intro t member
  rw [(vmmMapPage_extends inv.pages outside phys.toNat flags.toNat_lt).tables] at member
  rcases member with old | new
  · exact inv.placed t old
  · exact ⟨.inr (fresh t new).1, low t new⟩

/-- A call to the page tables writes to tables and marks, which leaves the heap and the screen alone. -/
theorem KernelInv.after_tables (inv : KernelInv start state modules)
    (after : VmmInv kernel (state.owned ∪ heapPages)) (placed : TablesPlaced kernel)
    (place : kernel.heapStart = state.machine.kernel.heapStart)
    (changes : Mem.ChangesOnly state.machine.kernel.mem kernel.mem (treeBytes kernel)) :
    KernelInv start (state.withMachine (state.machine.withKernel kernel))
      { modules with
        pool := pagePool kernel, tables := tablePaths kernel.mem, entries := leafOf kernel.mem } := by
  -- A table page is neither reserved nor owned, so neither module has a byte in it.
  have places := fun x written => treeBytes_apart (x := x) after placed written
  refine ⟨after, inv.apart, placed, rfl, rfl, rfl, ?_, ?_, inv.console⟩
  · exact inv.heap_frame place changes fun x written => (places x written).1
  · exact inv.screen_frame changes fun x written => (places x written).2

/-- The specification knows which tables a page is short of. -/
theorem KernelInv.lacking_eq (inv : KernelInv start state modules) (virt : Nat) :
    modules.lacking virt = lackingTables state.machine.kernel.mem [] (pathOf virt) := by
  rw [Modules.lacking, inv.tables, lackingTables]

/-- A map call takes the pages it needs, and gives one page a new entry if there are enough. -/
theorem KernelInv.mapPage (inv : KernelInv start state modules) {virt phys flags : UInt64}
    {mapped : Bool} (outside : OutsideBoot virt.toNat)
    (room : (VmmCall.map virt phys flags).HasRoom ⟨state.machine.kernel, state.owned⟩)
    (result : vmmMapPage state.machine.kernel virt.toNat phys.toNat flags.toNat =
      (kernel, mapped)) :
    mapped = modules.maps virt.toNat ∧
      KernelInv start (state.withMachine (state.machine.withKernel kernel))
        (modules.map virt.toNat (leafEntry phys.toNat flags.toNat)) := by
  have place := vmmMapPage_heapStart state.machine.kernel virt.toNat phys.toNat flags.toNat
  have placed := inv.placed_map outside room
  have tables := vmmMapPage_tables inv.pages outside phys.toNat flags.toNat_lt
  have count : demand state.machine.kernel virt.toNat = (modules.lacking virt.toNat).length := by
    rw [inv.lacking_eq]
    exact (inv.pages.demand_drains outside).short_of
  obtain ⟨drained, succeeds⟩ := vmmMapPage_demand inv.pages outside phys.toNat flags.toNat
  obtain ⟨after, outcome⟩ := vmmMapPage_outside inv.pages outside phys.toNat flags.toNat_lt
  rw [result] at place placed tables drained succeeds after outcome
  dsimp only at place placed tables drained succeeds after outcome
  rw [count, ← inv.pool] at drained succeeds
  have maps : mapped = modules.maps virt.toNat := by
    rw [Modules.maps, Bool.eq_iff_iff, decide_eq_true_iff, succeeds]
  have made : tablePaths kernel.mem = fun path => modules.tables path ||
      decide (path ∈ (modules.lacking virt.toNat).take modules.pool.free) := by
    rw [inv.lacking_eq, inv.tables, inv.pool]
    exact funext tables
  -- The bytes that are written, and the entries that come of it, differ between the outcomes.
  obtain ⟨changes, entries⟩ : Mem.ChangesOnly state.machine.kernel.mem kernel.mem (treeBytes kernel) ∧
      leafOf kernel.mem = fun w => if modules.maps virt.toNat ∧ SamePage w virt.toNat then
        leafEntry phys.toNat flags.toNat else modules.entries w := by
    rw [inv.entries, ← maps]
    rcases outcome with ⟨failed, grows⟩ | ⟨succeeded, assigns⟩
    · refine ⟨grows.changes, funext fun w => ?_⟩
      rw [failed, if_neg fun both => Bool.false_ne_true both.1]
      exact grows.leaves _ _ rfl
    · refine ⟨assigns.changes, funext fun w => ?_⟩
      simp only [succeeded, true_and]
      exact assigns.leafOf_eq w
  have kept := inv.after_tables after placed place changes
  rw [drained, made, entries] at kept
  exact ⟨maps, kept⟩

/-- An unmap call clears the entry of one page. -/
theorem KernelInv.unmapPage (inv : KernelInv start state modules) {virt : UInt64}
    (outside : OutsideBoot virt.toNat) :
    KernelInv start
      (state.withMachine
        (state.machine.withKernel (vmmUnmapPage state.machine.kernel virt.toNat)))
      { modules with
        entries := fun w => if SamePage w virt.toNat then 0 else modules.entries w } := by
  -- No mark moves and no table comes or goes: all that changes is one entry.
  obtain ⟨after, assigns, extension⟩ := vmmUnmapPage_outside inv.pages outside
  obtain ⟨pool, place⟩ := vmmUnmapPage_pool inv.pages outside
  have kept := inv.after_tables after (inv.placed.kept extension) place assigns.changes
  have entries : leafOf (vmmUnmapPage state.machine.kernel virt.toNat).mem = fun w =>
      if SamePage w virt.toNat then 0 else modules.entries w := by
    rw [inv.entries]
    exact funext assigns.leafOf_eq
  rwa [pool, entries, ← inv.tables_kept extension after.tree, ← inv.pool] at kept

end Memory

section Heap

variable {line : SerialLine} {start : Uart} {state : KernelState} {modules : Modules}
  {kernel : Kernel} {fuel p : Nat}

/-- What is written to the heap alone leaves the pages, the mappings and the screen as they are. -/
theorem KernelInv.after_heap (inv : KernelInv start state modules) {live : Finset Nat}
    {blocks : List Block} (same : SameStatics state.machine.kernel kernel)
    (changes : Mem.ChangesOnly state.machine.kernel.mem kernel.mem heapSpan)
    (heap : HeapInv ⟨kernel, live⟩ blocks) :
    KernelInv start { state with machine := state.machine.withKernel kernel, live }
      { modules with blocks } := by
  -- The heap is apart from the bitmap, from every table and from the screen.
  obtain ⟨spared, pool⟩ := inv.pages.elsewhere same changes
    (fun x member inside => (bitmap_apart_places inv.pages inside).1 member)
    (fun t table x inside => (table_apart inv.pages inv.placed table inside).1)
  refine ⟨spared.inv, inv.apart, inv.placed.kept spared.tree, ?_,
    inv.tables_kept spared.tree spared.inv.tree, ?_, heap, ?_, inv.console⟩
  · exact inv.pool.trans pool.symm
  · rw [inv.entries]
    exact funext fun w => (spared.leaves w).symm
  · refine inv.screen_frame changes fun x member shown => ?_
    rw [mem_heapSpan] at member
    rw [mem_screenSpan] at shown
    omega

/-- `kmalloc` keeps the statics of the other modules. -/
theorem kmalloc_statics {kernel' : Kernel} {size : Nat}
    (call : kmalloc fuel kernel size = some (kernel', p)) : SameStatics kernel kernel' := by
  -- Every branch of `kmalloc` returns the same statics.
  unfold kmalloc at call
  split at call
  · obtain ⟨rfl, -⟩ := Prod.mk.inj (Option.some.inj call)
    exact ⟨rfl, rfl, rfl, rfl⟩
  · obtain ⟨current, -, taken⟩ := Option.map_eq_some_iff.mp call
    split at taken
    · obtain ⟨rfl, -⟩ := Prod.mk.inj taken
      exact ⟨rfl, rfl, rfl, rfl⟩
    · obtain ⟨rfl, -⟩ := Prod.mk.inj taken
      exact ⟨rfl, rfl, rfl, rfl⟩

/-- `kfree` keeps the statics of the other modules. -/
theorem kfree_statics {kernel' : Kernel} (call : kfree fuel kernel p = some kernel') :
    SameStatics kernel kernel' := by
  -- Every branch of `kfree` returns the same statics.
  unfold kfree at call
  split at call
  · obtain rfl := Option.some.inj call
    exact ⟨rfl, rfl, rfl, rfl⟩
  · dsimp only at call
    split at call
    · obtain rfl := Option.some.inj call
      exact ⟨rfl, rfl, rfl, rfl⟩
    · obtain ⟨current, -, rfl⟩ := Option.map_eq_some_iff.mp call
      exact ⟨rfl, rfl, rfl, rfl⟩

/-- An allocation carves the first block that fits, or fails. -/
theorem KernelInv.kmalloc (inv : KernelInv start state modules) {size : UInt64}
    (result : kmalloc fuel state.machine.kernel size.toNat = some (kernel, p)) :
    ∃ modules', ModulesStep modules ⟨.kmalloc size, [], p⟩ modules' ∧
      KernelInv start
        { state with
          machine := state.machine.withKernel kernel
          live := if p = 0 then state.live else insert p state.live } modules' := by
  have same := kmalloc_statics result
  obtain ⟨-, changes⟩ := inv.heap.kmalloc_changes result
  rcases kmalloc_cases inv.heap.heap result with
    ⟨rfl, rfl, none⟩ | ⟨front, b, back, split, some, misses, fits, taken⟩
  · exact ⟨modules, .kmallocFails none, inv.after_heap same changes inv.heap⟩
  · -- The pointer is the one behind the header of the block.
    have heap := inv.heap
    rw [split] at heap
    have even : alignSize size.toNat % 8 = 0 := by
      have := alignSize_mod size.toNat
      omega
    obtain ⟨-, pointer, -⟩ := takeBlock_spec heap.heap fits even
    obtain rfl : p = heapBase + span front + 24 := (congrArg Prod.snd taken).trans pointer
    have held := heap.take fits even
    have carved : kernel = _ := congrArg Prod.fst taken
    rw [← carved] at held
    refine ⟨_, .kmalloc split some misses fits, ?_⟩
    rw [if_neg (by omega)]
    exact inv.after_heap same changes held

/-- A release joins the block of its pointer with free neighbours. -/
theorem KernelInv.kfree (inv : KernelInv start state modules) {ptr : UInt64}
    (mine : ptr.toNat ∈ state.live)
    (result : kfree fuel state.machine.kernel ptr.toNat = some kernel) :
    ∃ modules', ModulesStep modules ⟨.kfree ptr, [], 0⟩ modules' ∧
      KernelInv start
        { state with
          machine := state.machine.withKernel kernel, live := state.live.erase ptr.toNat }
        modules' := by
  -- The pointer is the start of a used block, which the abstract heap releases in place.
  have same := kfree_statics result
  have changes := inv.heap.kfree_changes mine result
  obtain ⟨front, b, back, split, used, place, heap, -, -⟩ := inv.heap.kfree_cases mine result
  have held := inv.heap
  rw [split] at held
  have released := held.release used heap
  rw [← place] at released
  exact ⟨_, .kfree split used place, inv.after_heap same changes released⟩

/-- The payload of an allocation lies in the heap. -/
theorem HeapInv.payload_inside {kernel : Kernel} {live : Finset Nat} {blocks : List Block}
    (inv : HeapInv ⟨kernel, live⟩ blocks) (held : p ∈ live) {x : Nat}
    (inside : x ∈ payload kernel.mem p) : x ∈ heapSpan := by
  -- A used block lies within the span of the list, and the list tiles the heap.
  obtain ⟨n, member⟩ := (inv.live p).mp held
  rw [payload, inv.heap.size_at member, Set.mem_Ico] at inside
  have bounds := Block.inUse_bounds 24 member
  have covers : heapBase + Block.span 24 blocks = heapBase + heapSize := inv.heap.covers
  rw [heapSpan, Set.mem_Ico]
  omega

end Heap

section Output

variable {line : SerialLine} {start : Uart} {state : KernelState} {modules : Modules}

/-- What is drawn lies on the screen. -/
theorem Draws.screen {before after : Terminal} {indices : List Nat}
    (draws : Draws before after indices) : Mem.ChangesOnly before.mem after.mem screenSpan := by
  -- Each index that is drawn is below 2000, and a cell has two bytes.
  refine draws.changes.mono fun x inside => ?_
  obtain ⟨index, member, low, high⟩ := inside
  have within := draws.inside index member
  have size : screenSize = 2000 := rfl
  rw [mem_screenSpan]
  omega

/-- What is drawn leaves the pages, the mappings and the heap as they are. -/
theorem KernelInv.after_screen (inv : KernelInv start state modules) {terminal : Terminal}
    {indices : List Nat} {color : UInt8} {shown : List (UInt8 × UInt8)}
    (draws : Draws state.machine.terminal terminal indices)
    (shows : ScreenShows terminal color shown) :
    KernelInv start (state.withMachine (state.machine.withTerminal terminal))
      { modules with color, shown } := by
  -- The screen is apart from the heap, from the bitmap and from every table.
  have same : SameStatics state.machine.kernel (state.machine.kernel.withMem terminal.mem) :=
    ⟨rfl, rfl, rfl, rfl⟩
  have changes : Mem.ChangesOnly state.machine.kernel.mem
      (state.machine.kernel.withMem terminal.mem).mem screenSpan := draws.screen
  obtain ⟨spared, pool⟩ := inv.pages.elsewhere same changes
    (fun x shown inside => (bitmap_apart_places inv.pages inside).2 shown)
    (fun t table x inside => (table_apart inv.pages inv.placed table inside).2)
  refine ⟨spared.inv, inv.apart, inv.placed.kept spared.tree, ?_,
    inv.tables_kept spared.tree spared.inv.tree, ?_, ?_, shows, inv.console⟩
  · exact inv.pool.trans pool.symm
  · rw [inv.entries]
    exact funext fun w => (spared.leaves w).symm
  · refine inv.heap_frame rfl changes fun x shown member => ?_
    rw [mem_heapSpan] at member
    rw [mem_screenSpan] at shown
    omega

/-- A text that a pointer points to is shown. -/
theorem KernelInv.terminalWrite (inv : KernelInv start state modules) {data size : UInt64}
    {text : List UInt8} (points : state.Points data size text)
    (off : OffScreen data.toNat size.toNat) :
    KernelInv start
      (state.withMachine (state.machine.withTerminal
        (terminalWrite data.toNat size.toNat state.machine.terminal))) (modules.print text) := by
  -- The text is off the screen, so drawing one character does not change the next.
  obtain ⟨low, length, reads⟩ := points
  have bound := size.toNat_lt
  rw [← length] at low off bound ⊢
  obtain ⟨shown, indices, draws⟩ := inv.screen.write_text bound reads off low
  exact inv.after_screen draws shown

/-- What is output on the line touches no memory. -/
theorem KernelInv.after_console (inv : KernelInv start state modules) {uart : Uart}
    {bytes : List UInt8} (output : HasOutput state.machine.uart bytes uart) :
    KernelInv start (state.withMachine (state.machine.withUart uart)) (modules.output bytes) := by
  refine ⟨inv.pages, inv.apart, inv.placed, inv.pool, inv.tables, inv.entries, inv.heap, inv.screen, ?_⟩
  exact inv.console.output output

/-- A string that a pointer points to is shown on the screen and output on the line. -/
theorem KernelInv.terminalWritestring (inv : KernelInv start state modules) {data : UInt64} {fuel : Nat}
    {text : List UInt8} {machine : KernelMachine} (points : state.PointsString data text)
    (off : OffScreen data.toNat (text.length + 1))
    (result : terminalWritestring line fuel data.toNat state.machine = some machine) :
    KernelInv start (state.withMachine machine) ((modules.print text).output (text.flatMap crlf)) := by
  -- The string goes to the screen first and then, from unchanged memory, to the line.
  obtain ⟨low, is⟩ := points
  obtain ⟨terminal, uart, rfl, shown, ⟨indices, draws⟩, output⟩ :=
    (terminalWritestring_settles inv.screen inv.console.programmed is low off).sound fuel _ result
  have drawn := inv.after_screen draws shown
  exact drawn.after_console output

/-- A client's write to what it holds concerns no module. -/
theorem KernelInv.write (inv : KernelInv start state modules) {addr : Nat} {value : UInt8}
    (mine : addr ∈ state.held) :
    KernelInv start
      (state.withMachine (state.machine.withKernel
        (state.machine.kernel.withMem (state.machine.kernel.mem.set addr value)))) modules := by
  have changes : Mem.ChangesOnly state.machine.kernel.mem
      (state.machine.kernel.mem.set addr value) {addr} := Mem.set_changes _ _ _
  rcases mine with ⟨a, owned, inside⟩ | ⟨p, held, inside⟩
  · -- The page is none of the heap's, and lies beyond the bitmap and the screen.
    have page := inv.pages.owned a (Finset.mem_union_left _ owned)
    have spared := inv.pages.clientWrite (Finset.mem_union_left _ owned) inside value
    have bitmap := inv.pages.bitmap_apart page.aligned (.inr page.beyond)
    have wide := changes.mono (Set.singleton_subset_iff.mpr inside)
    have pool := pagePool_congr wide bitmap
    refine ⟨spared.inv, inv.apart, inv.placed.kept spared.tree, inv.pool.trans pool.symm,
      inv.tables_kept spared.tree spared.inv.tree, ?_, ?_, ?_, inv.console⟩
    · rw [inv.entries]
      exact funext fun w => (spared.leaves w).symm
    · refine inv.heap_frame rfl wide fun x within => ?_
      exact pageSpan_off_heap page.aligned (inv.apart a owned) within
    · refine inv.screen_frame wide fun x within shown => ?_
      have beyond := page.beyond
      have aligned := page.aligned
      rw [mem_pageSpan] at within
      rw [mem_screenSpan] at shown
      simp only [pageSize] at beyond aligned
      omega
  · -- The payload lies in the heap, and is no header.
    have heap := inv.heap.payload_inside held inside
    have within : Mem.ChangesOnly state.machine.kernel.mem
        (state.machine.kernel.mem.set addr value) heapSpan :=
      changes.mono (Set.singleton_subset_iff.mpr heap)
    exact inv.after_heap ⟨rfl, rfl, rfl, rfl⟩ within (inv.heap.after_write value held inside)

end Output

section Runs

variable {line : SerialLine} {start : Uart} {state state' : KernelState} {modules : Modules}
  {event : KernelEvent}

/-- Every call takes the step of its module, with the result that the module says. -/
theorem KernelInv.step (inv : KernelInv start state modules)
    (step : KernelStep line state event state') :
    ∃ modules', ModulesStep modules event modules' ∧ KernelInv start state' modules' := by
  have console := HasOutput.nil inv.console.programmed
  cases step with
  | allocPage allocated =>
    obtain ⟨page, after⟩ := inv.allocPage allocated
    refine ⟨_, ?_, after⟩
    rw [page]
    exact .allocPage modules
  | freePage mine => exact ⟨_, .freePage modules _, inv.freePage mine⟩
  | mapPage outside room mapped =>
    obtain ⟨rfl, after⟩ := inv.mapPage outside room mapped
    exact ⟨_, .mapPage modules _ _ _, after⟩
  | unmapPage outside => exact ⟨_, .unmapPage modules _, inv.unmapPage outside⟩
  | kmalloc allocated => exact inv.kmalloc allocated
  | kfree mine freed => exact inv.kfree mine freed
  | terminalSetcolor color =>
    have shows := inv.screen.call (.setcolor color)
    rw [TerminalCall.characters, List.map_nil, List.append_nil] at shows
    have draws := inv.screen.call_draws (.setcolor color)
    exact ⟨_, .terminalSetcolor modules color, inv.after_screen draws shows⟩
  | terminalPutchar c =>
    have after := inv.after_screen inv.screen.putchar_draws (inv.screen.putchar (c := c))
    exact ⟨_, .terminalPutchar modules c, after⟩
  | terminalWrite points off => exact ⟨_, .terminalWrite modules _ _ _, inv.terminalWrite points off⟩
  | terminalWritestring points off written =>
    exact ⟨_, .terminalWritestring modules _ _, inv.terminalWritestring points off written⟩
  | serialPutchar put =>
    exact ⟨_, .serialPutchar modules _, inv.after_console (console.putchar.sound _ _ put)⟩
  | @serialWrite data size fuel text uart points written =>
    obtain ⟨other, length, reads, output⟩ := console.write.sound _ _ written
    -- The bytes that were read are those that the pointer points to.
    obtain ⟨-, sized, reads'⟩ := points
    have same : other = text := List.ext_getElem (length.trans sized.symm) fun i left right =>
      Option.some.inj ((reads i left).symm.trans (reads' i right))
    rw [same] at output
    exact ⟨_, .serialWrite modules _ _ _, inv.after_console output⟩
  | serialWritestring points written =>
    obtain ⟨other, is, output⟩ := console.writestring.sound _ _ written
    rw [is.unique points.2] at output
    exact ⟨_, .serialWritestring modules _ _, inv.after_console output⟩
  | write mine => exact ⟨_, .write modules _ _, inv.write mine⟩

/-- Every run of calls is a run of the modules, side by side and with the same results. -/
theorem KernelInv.run {events : List KernelEvent} (inv : KernelInv start state modules)
    (run : KernelRun line state events state') :
    ∃ modules', ModulesRun modules events modules' ∧ KernelInv start state' modules' := by
  -- The induction is on the run, whose last call is made in a state that the invariant holds of.
  induction run with
  | nil => exact ⟨modules, .nil modules, inv⟩
  | snoc _ step ih =>
    obtain ⟨middle, before, reached⟩ := ih
    obtain ⟨last, taken, after⟩ := reached.step step
    exact ⟨last, .snoc before taken, after⟩

end Runs

section Private

variable {line : SerialLine} {start : Uart} {state state' : KernelState} {modules : Modules}
  {event : KernelEvent}

/-- The byte at an address after a call, if only its clients write to it. -/
def KernelEvent.leaves (event : KernelEvent) (x : Nat) (old : UInt8) : UInt8 :=
  match event.call with
  | .write addr value => if x = addr then value else old
  | _ => old

end Private

end IncroOS
