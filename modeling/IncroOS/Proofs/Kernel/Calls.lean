import IncroOS.Proofs.Kernel.Texts
import IncroOS.Proofs.Kmalloc.Runs
import IncroOS.Proofs.Vmm.Reach

/-! Calls into all modules of the kernel in any order, interleaved with what its clients write. -/

namespace IncroOS

open Lib

/-- A call into one of the kernel's modules, or a client's write to memory that it holds. -/
inductive KernelCall where
  | allocPage
  | freePage (addr : UInt64)
  | mapPage (virt phys flags : UInt64)
  | unmapPage (virt : UInt64)
  | kmalloc (size : UInt64)
  | kfree (ptr : UInt64)
  | terminalSetcolor (color : UInt8)
  | terminalPutchar (c : UInt8)
  | terminalWrite (data size : UInt64)
  | terminalWritestring (data : UInt64)
  | serialPutchar (c : UInt8)
  | serialWrite (data size : UInt64)
  | serialWritestring (data : UInt64)
  | write (addr : Nat) (value : UInt8)

/-- A call that has returned, with the text that it read from memory and its result, if any. -/
structure KernelEvent where
  call : KernelCall
  text : List UInt8
  result : Nat

/-- The machine, with the pages and the heap pointers that clients hold. -/
structure KernelState where
  machine : KernelMachine
  owned : Finset Nat
  live : Finset Nat

/-- The memory that clients hold: whole pages, and allocations on the heap. -/
def KernelState.held (state : KernelState) : Set Nat :=
  {x | (∃ a ∈ state.owned, x ∈ pageSpan a) ∨
    ∃ p ∈ state.live, x ∈ payload state.machine.kernel.mem p}

/-- The state after a call that leaves clients holding what they held. -/
def KernelState.withMachine (state : KernelState) (machine : KernelMachine) : KernelState :=
  { state with machine }

/-- The text of that many bytes that a pointer points to. -/
def KernelState.Points (state : KernelState) (data size : UInt64) (text : List UInt8) : Prop :=
  InFirstGib data.toNat size.toNat ∧ text.length = size.toNat ∧
    Reads (state.machine.text data.toNat) text

/-- The string that a pointer points to. -/
def KernelState.PointsString (state : KernelState) (data : UInt64) (text : List UInt8) : Prop :=
  InFirstGib data.toNat (text.length + 1) ∧ IsString (state.machine.text data.toNat) text

/--
One call that returns.

A client frees what it holds, and writes to what it holds. It maps pages beyond the first GiB, as long
as new tables find room within it. What it shows on the screen does not lie on the screen.
-/
inductive KernelStep (line : SerialLine) : KernelState → KernelEvent → KernelState → Prop
  | allocPage {state : KernelState} {kernel : Kernel} {page : Nat}
      (result : pmmAllocPage state.machine.kernel = (kernel, page)) :
      KernelStep line state ⟨.allocPage, [], page⟩
        { state with
          machine := state.machine.withKernel kernel
          owned := if page = 0 then state.owned else insert page state.owned }
  | freePage {state : KernelState} {addr : UInt64} (mine : addr.toNat ∈ state.owned) :
      KernelStep line state ⟨.freePage addr, [], 0⟩
        { state with
          machine := state.machine.withKernel (pmmFreePage state.machine.kernel addr.toNat)
          owned := state.owned.erase addr.toNat }
  | mapPage {state : KernelState} {kernel : Kernel} {mapped : Bool} {virt phys flags : UInt64}
      (outside : OutsideBoot virt.toNat)
      (room : (VmmCall.map virt phys flags).HasRoom ⟨state.machine.kernel, state.owned⟩)
      (result : vmmMapPage state.machine.kernel virt.toNat phys.toNat flags.toNat =
        (kernel, mapped)) :
      KernelStep line state ⟨.mapPage virt phys flags, [], mapped.toNat⟩
        (state.withMachine (state.machine.withKernel kernel))
  | unmapPage {state : KernelState} {virt : UInt64} (outside : OutsideBoot virt.toNat) :
      KernelStep line state ⟨.unmapPage virt, [], 0⟩
        (state.withMachine
          (state.machine.withKernel (vmmUnmapPage state.machine.kernel virt.toNat)))
  | kmalloc {state : KernelState} {kernel : Kernel} {fuel p : Nat} {size : UInt64}
      (result : kmalloc fuel state.machine.kernel size.toNat = some (kernel, p)) :
      KernelStep line state ⟨.kmalloc size, [], p⟩
        { state with
          machine := state.machine.withKernel kernel
          live := if p = 0 then state.live else insert p state.live }
  | kfree {state : KernelState} {kernel : Kernel} {fuel : Nat} {ptr : UInt64}
      (mine : ptr.toNat ∈ state.live)
      (result : kfree fuel state.machine.kernel ptr.toNat = some kernel) :
      KernelStep line state ⟨.kfree ptr, [], 0⟩
        { state with
          machine := state.machine.withKernel kernel, live := state.live.erase ptr.toNat }
  | terminalSetcolor (state : KernelState) (color : UInt8) :
      KernelStep line state ⟨.terminalSetcolor color, [], 0⟩
        (state.withMachine
          (state.machine.withTerminal (terminalSetcolor color state.machine.terminal)))
  | terminalPutchar (state : KernelState) (c : UInt8) :
      KernelStep line state ⟨.terminalPutchar c, [], 0⟩
        (state.withMachine (state.machine.withTerminal (terminalPutchar c state.machine.terminal)))
  | terminalWrite {state : KernelState} {data size : UInt64} {text : List UInt8}
      (points : state.Points data size text) (off : OffScreen data.toNat size.toNat) :
      KernelStep line state ⟨.terminalWrite data size, text, 0⟩
        (state.withMachine (state.machine.withTerminal
          (terminalWrite data.toNat size.toNat state.machine.terminal)))
  | terminalWritestring {state : KernelState} {data : UInt64} {fuel : Nat} {text : List UInt8}
      {machine : KernelMachine} (points : state.PointsString data text)
      (off : OffScreen data.toNat (text.length + 1))
      (result : terminalWritestring line fuel data.toNat state.machine = some machine) :
      KernelStep line state ⟨.terminalWritestring data, text, 0⟩ (state.withMachine machine)
  | serialPutchar {state : KernelState} {c : UInt8} {fuel : Nat} {uart : Uart}
      (result : serialPutchar line fuel c state.machine.uart = some uart) :
      KernelStep line state ⟨.serialPutchar c, [], 0⟩
        (state.withMachine (state.machine.withUart uart))
  | serialWrite {state : KernelState} {data size : UInt64} {fuel : Nat} {text : List UInt8}
      {uart : Uart} (points : state.Points data size text)
      (result : serialWrite line fuel (state.machine.text data.toNat) size.toNat
        state.machine.uart = some uart) :
      KernelStep line state ⟨.serialWrite data size, text, 0⟩
        (state.withMachine (state.machine.withUart uart))
  | serialWritestring {state : KernelState} {data : UInt64} {fuel : Nat} {text : List UInt8}
      {uart : Uart} (points : state.PointsString data text)
      (result : serialWritestring line fuel (state.machine.text data.toNat)
        state.machine.uart = some uart) :
      KernelStep line state ⟨.serialWritestring data, text, 0⟩
        (state.withMachine (state.machine.withUart uart))
  | write {state : KernelState} {addr : Nat} {value : UInt8} (mine : addr ∈ state.held) :
      KernelStep line state ⟨.write addr value, [], 0⟩
        (state.withMachine (state.machine.withKernel
          (state.machine.kernel.withMem (state.machine.kernel.mem.set addr value))))

/-- A run of calls. -/
inductive KernelRun (line : SerialLine) :
    KernelState → List KernelEvent → KernelState → Prop
  | nil (state : KernelState) : KernelRun line state [] state
  | snoc {first middle last : KernelState} {events : List KernelEvent} {event : KernelEvent}
      (run : KernelRun line first events middle) (step : KernelStep line middle event last) :
      KernelRun line first (events ++ [event]) last

/-- One run behind another. -/
theorem KernelRun.append {line : SerialLine} {first middle last : KernelState}
    {earlier later : List KernelEvent} (before : KernelRun line first earlier middle)
    (after : KernelRun line middle later last) : KernelRun line first (earlier ++ later) last := by
  -- The induction is on the later calls.
  induction after with
  | nil => rwa [List.append_nil]
  | snoc _ step ih =>
    rw [← List.append_assoc]
    exact ih.snoc step

end IncroOS
