import IncroOS.Lib.Prefixes
import IncroOS.Proofs.Kernel.Calls
import IncroOS.Proofs.Output.Serial

/-! What the modules of the kernel are for, each with a state of its own that only its calls change. -/

namespace IncroOS

open Lib

/--
The states of the modules.

These are the pages, the paths that have a page table and the entries of all pages, the blocks of the
heap, the colour and the text of the screen, and the serial log.
-/
structure Modules where
  pool : Pool
  tables : List (Fin 512) → Bool
  entries : Nat → Nat
  blocks : List Block
  color : UInt8
  shown : List (UInt8 × UInt8)
  log : List UInt8

/-- The tables that a page is short of, the top one first. -/
def Modules.lacking (modules : Modules) (virt : Nat) : List (List (Fin 512)) :=
  Lib.lacking modules.tables [] (pathOf virt)

/-- There are enough pages for the tables that a page is short of. -/
def Modules.maps (modules : Modules) (virt : Nat) : Bool :=
  decide ((modules.lacking virt).length ≤ modules.pool.free)

/--
A page is mapped: its tables take the lowest free pages, and then it gets its entry.

With too few pages all of them become tables, and no page gets a new entry.
-/
def Modules.map (modules : Modules) (virt entry : Nat) : Modules :=
  { modules with
    pool := modules.pool.drain (modules.lacking virt).length
    tables := fun path =>
      modules.tables path || decide (path ∈ (modules.lacking virt).take modules.pool.free)
    entries := fun w =>
      if modules.maps virt ∧ SamePage w virt then entry else modules.entries w }

/-- What is shown after more characters in the current colour. -/
def Modules.print (modules : Modules) (text : List UInt8) : Modules :=
  { modules with shown := modules.shown ++ text.map fun c => (c, modules.color) }

/-- What is logged after more bytes. -/
def Modules.output (modules : Modules) (bytes : List UInt8) : Modules :=
  { modules with log := modules.log ++ bytes }

/-- A call takes its step in one of the modules, or in two: a mapping needs pages, a string is logged. -/
inductive ModulesStep : Modules → KernelEvent → Modules → Prop
  /-- The lowest free page is handed out, if there is one. -/
  | allocPage (modules : Modules) :
      ModulesStep modules ⟨.allocPage, [], (modules.pool.take.2.map (· * pageSize)).getD 0⟩
        { modules with pool := modules.pool.take.1 }
  | freePage (modules : Modules) (addr : UInt64) :
      ModulesStep modules ⟨.freePage addr, [], 0⟩
        { modules with pool := modules.pool.release (addr.toNat / pageSize) }
  | mapPage (modules : Modules) (virt phys flags : UInt64) :
      ModulesStep modules ⟨.mapPage virt phys flags, [], (modules.maps virt.toNat).toNat⟩
        (modules.map virt.toNat (leafEntry phys.toNat flags.toNat))
  | unmapPage (modules : Modules) (virt : UInt64) :
      ModulesStep modules ⟨.unmapPage virt, [], 0⟩
        { modules with
          entries := fun w => if SamePage w virt.toNat then 0 else modules.entries w }
  /-- The first block that fits is carved. -/
  | kmalloc {modules : Modules} {size : UInt64} {front back : List Block} {b : Block}
      (blocks : modules.blocks = front ++ b :: back) (some : size.toNat ≠ 0)
      (misses : ∀ c ∈ front, ¬ Block.Fits (alignSize size.toNat) c)
      (fits : Block.Fits (alignSize size.toNat) b) :
      ModulesStep modules ⟨.kmalloc size, [], heapBase + span front + 24⟩
        { modules with blocks := front ++ Block.carve 24 16 (alignSize size.toNat) b ++ back }
  | kmallocFails {modules : Modules} {size : UInt64}
      (none : size.toNat = 0 ∨ ∀ b ∈ modules.blocks, ¬ Block.Fits (alignSize size.toNat) b) :
      ModulesStep modules ⟨.kmalloc size, [], 0⟩ modules
  /-- The block of a pointer is released, and joined with free neighbours. -/
  | kfree {modules : Modules} {ptr : UInt64} {front back : List Block} {b : Block}
      (blocks : modules.blocks = front ++ b :: back) (used : b.free = false)
      (place : ptr.toNat = heapBase + span front + 24) :
      ModulesStep modules ⟨.kfree ptr, [], 0⟩
        { modules with blocks := Block.coalesce 24 (front ++ b.released :: back) }
  | terminalSetcolor (modules : Modules) (color : UInt8) :
      ModulesStep modules ⟨.terminalSetcolor color, [], 0⟩ { modules with color }
  | terminalPutchar (modules : Modules) (c : UInt8) :
      ModulesStep modules ⟨.terminalPutchar c, [], 0⟩ (modules.print [c])
  | terminalWrite (modules : Modules) (data size : UInt64) (text : List UInt8) :
      ModulesStep modules ⟨.terminalWrite data size, text, 0⟩ (modules.print text)
  /-- A string is shown on the screen and logged. -/
  | terminalWritestring (modules : Modules) (data : UInt64) (text : List UInt8) :
      ModulesStep modules ⟨.terminalWritestring data, text, 0⟩
        ((modules.print text).output (text.flatMap crlf))
  | serialPutchar (modules : Modules) (c : UInt8) :
      ModulesStep modules ⟨.serialPutchar c, [], 0⟩ (modules.output [c])
  | serialWrite (modules : Modules) (data size : UInt64) (text : List UInt8) :
      ModulesStep modules ⟨.serialWrite data size, text, 0⟩ (modules.output (text.flatMap crlf))
  | serialWritestring (modules : Modules) (data : UInt64) (text : List UInt8) :
      ModulesStep modules ⟨.serialWritestring data, text, 0⟩ (modules.output (text.flatMap crlf))
  /-- What clients write to their own memory is no concern of the modules. -/
  | write (modules : Modules) (addr : Nat) (value : UInt8) :
      ModulesStep modules ⟨.write addr value, [], 0⟩ modules

/-- A run of calls. -/
inductive ModulesRun : Modules → List KernelEvent → Modules → Prop
  | nil (modules : Modules) : ModulesRun modules [] modules
  | snoc {first middle last : Modules} {events : List KernelEvent} {event : KernelEvent}
      (run : ModulesRun first events middle) (step : ModulesStep middle event last) :
      ModulesRun first (events ++ [event]) last

end IncroOS
