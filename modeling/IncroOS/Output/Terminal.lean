import IncroOS.Kernel.State
import IncroOS.Lib.Loop

/-! The text terminal of `terminal.c`: a cursor that goes round the screen of the VGA text mode. -/

namespace IncroOS

open Lib

/-- `VGA_WIDTH`. -/
def vgaWidth : Nat := 80

/-- `VGA_HEIGHT`. -/
def vgaHeight : Nat := 25

/-- `enum vga_color`. -/
inductive VgaColor where
  | black | blue | green | cyan | red | magenta | brown | lightGrey | darkGrey | lightBlue
  | lightGreen | lightCyan | lightRed | lightMagenta | lightBrown | white

/-- The number of a colour. -/
def VgaColor.code : VgaColor → UInt8
  | black => 0
  | blue => 1
  | green => 2
  | cyan => 3
  | red => 4
  | magenta => 5
  | brown => 6
  | lightGrey => 7
  | darkGrey => 8
  | lightBlue => 9
  | lightGreen => 10
  | lightCyan => 11
  | lightRed => 12
  | lightMagenta => 13
  | lightBrown => 14
  | white => 15

def vgaEntryColor (fg bg : VgaColor) : UInt8 := fg.code ||| bg.code <<< 4

def vgaEntry (uc color : UInt8) : UInt16 := uc.toUInt16 ||| color.toUInt16 <<< 8

/-- Physical memory and the statics of `terminal.c`. -/
structure Terminal where
  mem : Mem
  terminalRow : Nat
  terminalColumn : Nat
  terminalColor : UInt8
  terminalBuffer : Nat

/-- The `index` of `terminal_initialize` and of `terminal_putentryat`. -/
def entryIndex (x y : Nat) : Nat := u64 (y * vgaWidth + x)

/-- `terminal_buffer[index]`. -/
def Terminal.entryAt (terminal : Terminal) (index : Nat) : UInt16 :=
  UInt16.ofNat (terminal.mem.read (terminal.terminalBuffer + 2 * index) 2)

/-- `terminal_buffer[index] = entry`. -/
def Terminal.setEntryAt (index : Nat) (entry : UInt16) (terminal : Terminal) : Terminal :=
  { terminal with
    mem := terminal.mem.write (terminal.terminalBuffer + 2 * index) 2 entry.toNat }

/-- The body of the two loops of `terminal_initialize`. -/
def clearEntry (y x : Nat) (terminal : Terminal) : Terminal :=
  terminal.setEntryAt (entryIndex x y) (vgaEntry 0x20 terminal.terminalColor)

/-- The inner loop of `terminal_initialize`. -/
def clearRow (y : Nat) (terminal : Terminal) : Terminal := forLoop (clearEntry y) 0 vgaWidth terminal

def terminalInitialize (terminal : Terminal) : Terminal :=
  let terminal := { terminal with
    terminalRow := 0, terminalColumn := 0, terminalColor := vgaEntryColor .lightGrey .black,
    terminalBuffer := 0xB8000 }
  forLoop clearRow 0 vgaHeight terminal

def terminalSetcolor (color : UInt8) (terminal : Terminal) : Terminal :=
  { terminal with terminalColor := color }

def terminalPutentryat (c color : UInt8) (x y : Nat) (terminal : Terminal) : Terminal :=
  terminal.setEntryAt (entryIndex x y) (vgaEntry c color)

def terminalPutchar (c : UInt8) (terminal : Terminal) : Terminal :=
  let terminal := terminalPutentryat c terminal.terminalColor terminal.terminalColumn
    terminal.terminalRow terminal
  let terminal := { terminal with terminalColumn := u64 (terminal.terminalColumn + 1) }
  if terminal.terminalColumn = vgaWidth then
    let terminal := { terminal with
      terminalColumn := 0, terminalRow := u64 (terminal.terminalRow + 1) }
    if terminal.terminalRow = vgaHeight then { terminal with terminalRow := 0 } else terminal
  else terminal

/-- The body of the loop of `terminal_write`, which reads `data[i]` when its turn comes. -/
def writeTurn (data i : Nat) (terminal : Terminal) : Terminal :=
  terminalPutchar (terminal.mem (u64 (data + i))) terminal

def terminalWrite (data size : Nat) (terminal : Terminal) : Terminal :=
  forLoop (writeTurn data) 0 size terminal

/-- A call to the terminal after its initialisation. -/
inductive TerminalCall where
  | setcolor (color : UInt8)
  | putchar (c : UInt8)
  | write (data size : UInt64)

/-- What a call does. -/
def TerminalCall.apply (terminal : Terminal) : TerminalCall → Terminal
  | setcolor color => terminalSetcolor color terminal
  | putchar c => terminalPutchar c terminal
  | write data size => terminalWrite data.toNat size.toNat terminal

section Accesses

/-- The entry that `terminal_putchar` writes. -/
def Terminal.cursorIndex (terminal : Terminal) : Nat :=
  entryIndex terminal.terminalColumn terminal.terminalRow

/-- The entries that `terminal_initialize` writes, in the order it does. -/
def initializeIndices : List Nat :=
  (List.range vgaHeight).flatMap fun y => (List.range vgaWidth).map fun x => entryIndex x y

/-- The entries that a call writes, in the order it does. -/
def TerminalCall.indices (terminal : Terminal) : TerminalCall → List Nat
  | setcolor _ => []
  | putchar _ => [terminal.cursorIndex]
  | write data size =>
    loopTrace (writeTurn data.toNat) (fun _ terminal => terminal.cursorIndex) 0 size.toNat terminal

/-- The entries that a run of calls writes. -/
def indicesWritten (terminal : Terminal) : List TerminalCall → List Nat
  | [] => []
  | call :: rest => call.indices terminal ++ indicesWritten (call.apply terminal) rest

end Accesses

end IncroOS
