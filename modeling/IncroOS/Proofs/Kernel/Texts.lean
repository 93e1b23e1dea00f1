import IncroOS.Kernel.Machine
import IncroOS.Proofs.Output.Serial
import IncroOS.Proofs.Output.Terminal

/-! Texts that pointers into the kernel's memory point to, as they come to the screen and the line. -/

namespace IncroOS

open Lib

/-- Bytes that the kernel reads at their physical addresses. -/
def InFirstGib (data size : Nat) : Prop := data + size ≤ 2 ^ 30

/-- Bytes apart from the screen. -/
def OffScreen (data size : Nat) : Prop := data + size ≤ 0xB8000 ∨ 0xB8FA0 ≤ data

section Screen

variable {terminal after : Terminal} {color : UInt8} {history : List (UInt8 × UInt8)}
  {indices : List Nat} {text : List UInt8} {data size i : Nat}

/-- In the first GiB no address wraps, and apart from the screen drawing does not reach it. -/
theorem OffScreen.byte (off : OffScreen data size) (low : InFirstGib data size) (within : i < size) :
    u64 (data + i) < 0xB8000 ∨ 0xB8000 + 2 * screenSize ≤ u64 (data + i) := by
  -- Below 2^30 the sum does not wrap, and the range of the text is apart from the screen.
  have cells : screenSize = 2000 := rfl
  unfold OffScreen at off
  unfold InFirstGib at low
  rw [u64_of_lt (show data + i < 2 ^ 64 by omega)]
  omega

/-- What is drawn leaves a text apart from the screen as it is. -/
theorem Draws.same_byte (draws : Draws terminal after indices) (off : OffScreen data size)
    (low : InFirstGib data size) (within : i < size) :
    memoryText after.mem data i = memoryText terminal.mem data i :=
  congrArg some (draws.byte (off.byte low within))

/-- What is drawn leaves a string apart from the screen as it is. -/
theorem Draws.isString (draws : Draws terminal after indices) (off : OffScreen data (text.length + 1))
    (low : InFirstGib data (text.length + 1)) (is : IsString (memoryText terminal.mem data) text) :
    IsString (memoryText after.mem data) text := by
  -- The byte behind the text is the NUL, and it is off the screen like the others.
  have same := fun i within => draws.same_byte (i := i) off low within
  refine ⟨fun i within => ?_, is.printable, ?_⟩
  · rw [same i (by omega), is.chars i within]
  · rw [same _ (by omega), is.terminated]

/-- The bytes that a text is read from are those of the text. -/
theorem Reads.bytes {mem : Mem} (reads : Reads (memoryText mem data) text) :
    ((List.range text.length).map fun i => mem (u64 (data + i))) = text := by
  -- Both lists have the length of the text, so they are compared byte by byte.
  refine List.ext_getElem (by simp) fun i left right => ?_
  rw [List.getElem_map, List.getElem_range]
  exact Option.some.inj (reads i right)

/-- A text apart from the screen is shown as it is in memory. -/
theorem ScreenShows.write_text (shows : ScreenShows terminal color history)
    (bound : text.length < 2 ^ 64) (reads : Reads (memoryText terminal.mem data) text)
    (off : OffScreen data text.length) (low : InFirstGib data text.length) :
    ScreenShows (terminalWrite data text.length terminal) color
        (history ++ text.map fun c => (c, color)) ∧
      ∃ indices, Draws terminal (terminalWrite data text.length terminal) indices := by
  have address : data < 2 ^ 64 := by
    unfold InFirstGib at low
    omega
  -- The address and the length are ones that `terminal_write` can be given.
  have place : (UInt64.ofNat data).toNat = data := UInt64.toNat_ofNat_of_lt' address
  have length : (UInt64.ofNat text.length).toNat = text.length := UInt64.toNat_ofNat_of_lt' bound
  have shown := shows.write (UInt64.ofNat data) (UInt64.ofNat text.length)
  have drawn := shows.write_draws (UInt64.ofNat data) (UInt64.ofNat text.length)
  have characters := characters_write (UInt64.ofNat data)
    (UInt64.ofNat text.length) shows fun i within => by
      rw [place]
      exact off.byte low (length ▸ within)
  rw [place, length, reads.bytes] at characters
  rw [characters, place, length] at shown
  rw [place, length] at drawn
  exact ⟨shown, _, drawn⟩

end Screen

section Both

variable {line : SerialLine} {machine : KernelMachine} {color : UInt8}
  {history : List (UInt8 × UInt8)} {text : List UInt8} {data : Nat}

/-- What a string leaves on the screen and on the line. -/
structure ShowsString (machine : KernelMachine) (color : UInt8) (history : List (UInt8 × UInt8))
    (text : List UInt8) (terminal : Terminal) (uart : Uart) : Prop where
  shown : ScreenShows terminal color (history ++ text.map fun c => (c, color))
  draws : ∃ indices, Draws machine.terminal terminal indices
  output : HasOutput machine.uart (text.flatMap crlf) uart

/-- `terminal_writestring` shows a string that is apart from the screen, and outputs it. -/
theorem terminalWritestring_settles (shows : ScreenShows machine.terminal color history)
    (programmed : Programmed machine.uart) (is : IsString (machine.text data) text)
    (low : InFirstGib data (text.length + 1)) (off : OffScreen data (text.length + 1)) :
    Settles (fun fuel => terminalWritestring line fuel data machine) line.Live
      (fun last => ∃ terminal uart, last = (machine.withTerminal terminal).withUart uart ∧
        ShowsString machine color history text terminal uart) := by
  have bound : text.length < 2 ^ 64 := by
    unfold InFirstGib at low
    omega
  have lowText : InFirstGib data text.length := Nat.le_of_succ_le low
  have offText : OffScreen data text.length := off.imp Nat.le_of_succ_le id
  refine (strlen_settles fun _ => ⟨text, is, bound⟩).bind fun size measured => ?_
  obtain ⟨string, is', rfl, -⟩ := measured
  obtain rfl : string = text := is'.unique is
  -- The string is the same once it has been drawn.
  obtain ⟨shown, indices, draws⟩ := shows.write_text bound is.chars offText lowText
  have still : IsString ((machine.withTerminal
      (terminalWrite data string.length machine.terminal)).text data) string :=
    draws.isString off low is
  have output := HasOutput.nil programmed
  refine (output.writestring.under fun live => ⟨live, string, still, bound⟩).bind
    fun uart written => .pure ⟨_, uart, rfl, shown, ⟨indices, draws⟩, ?_⟩
  obtain ⟨other, is'', put⟩ := written
  obtain rfl : other = string := is''.unique still
  exact put

end Both

end IncroOS
