import IncroOS.Kernel.KMain
import IncroOS.Proofs.Kernel.Decimal
import IncroOS.Proofs.Output.Serial

/-! The messages of `kMain`: literals, decimal numbers and hexadecimal digits. -/

namespace IncroOS

open Lib

/-- A text with a NUL behind it that an array starts with is the string of the array. -/
theorem isString_filled {size : Nat} {before after : Vector UInt8 size} {text : List UInt8}
    (filled : Lib.Filled before after (text ++ [0])) (printable : ∀ c ∈ text, c ≠ 0) :
    IsString (arrayText after) text := by
  -- The text comes first and its NUL next, so the bytes after them do not matter.
  have length : (text ++ [0]).length = text.length + 1 := List.length_append
  refine ⟨fun i within => ?_, printable, ?_⟩
  · rw [arrayText, filled.load (by omega), List.getElem?_append_left within,
      List.getElem?_eq_getElem within]
  · rw [arrayText, filled.load (by omega), List.getElem?_append_right (Nat.le_refl _), Nat.sub_self]
    rfl

section Saying

variable {line : SerialLine} {start : Uart} {image : KernelImage} {kernel : Kernel}
  {screen : Terminal → Prop} {said : List UInt8} {machine : KernelMachine} {s : String}

/-- The kernel as given, what holds of the terminal, and what was said on the console. -/
structure Stands (start : Uart) (kernel : Kernel) (screen : Terminal → Prop) (said : List UInt8)
    (machine : KernelMachine) : Prop where
  kernel : machine.kernel = kernel
  screen : screen machine.terminal
  console : ConsoleShows start (0x53 :: said.flatMap crlf) machine.uart

/-- A string that is output joins what was said. -/
theorem Stands.writestring (stands : Stands start kernel screen said machine) {data : Text}
    {text : List UInt8} (is : IsString data text) (bound : text.length < 2 ^ 64) :
    Settles (fun fuel => serialWritestring line fuel data machine.uart >>=
        fun uart => some (machine.withUart uart)) line.Live
      (Stands start kernel screen (said ++ text)) := by
  -- The string that was output is the one that stands in memory: a NUL ends only one.
  have output := HasOutput.nil stands.console.programmed
  refine (output.writestring.under fun live => ⟨live, text, is, bound⟩).bind
    fun uart written => .pure ?_
  obtain ⟨string, is', put⟩ := written
  obtain rfl : string = text := is'.unique is
  refine ⟨stands.kernel, stands.screen, ?_⟩
  have shows := stands.console.output put
  rwa [List.nil_append, List.cons_append, ← List.flatMap_append] at shows

/-- A literal. -/
theorem Stands.sayLiteral (stands : Stands start kernel screen said machine) {text : List UInt8}
    (is : IsString (memoryText kernel.mem (image.place s)) text) (bound : text.length < 2 ^ 64) :
    Settles (fun fuel => sayLiteral line image fuel s machine) line.Live
      (Stands start kernel screen (said ++ text)) := by
  rw [← stands.kernel] at is
  exact stands.writestring is bound

/-- A number between two literals. -/
theorem Stands.sayNumber (stands : Stands start kernel screen said machine)
    {temp buffer : Vector UInt8 32} {value : Nat} {label unit : String} {before after : List UInt8}
    (bound : value < 2 ^ 64) (first : IsString (memoryText kernel.mem (image.place label)) before)
    (last : IsString (memoryText kernel.mem (image.place unit)) after)
    (short : before.length < 2 ^ 64) (short' : after.length < 2 ^ 64) :
    Settles (fun fuel => sayNumber line image fuel temp value label unit buffer machine) line.Live
      (fun r => Stands start kernel screen (said ++ (before ++ decimalText value ++ after)) r.2) := by
  have word : (UInt64.ofNat value).toNat = value := UInt64.toNat_ofNat_of_lt' bound
  obtain ⟨array, call, filled⟩ := uint64ToString_filled temp buffer (UInt64.ofNat value)
  rw [word] at filled
  -- The characters of a number are no NULs.
  have is : IsString (arrayText array) (decimalText value) := by
    refine isString_filled filled fun c member => ?_
    rintro rfl
    exact absurd (mem_decimalText member).1 (by decide)
  have digits := (decimalText_length bound).2
  unfold IncroOS.sayNumber
  rw [call]
  refine (stands.sayLiteral first short).bind fun m stands => ?_
  refine (stands.writestring is (by omega)).bind fun m stands => ?_
  refine (stands.sayLiteral last short').bind fun m stands => .pure ?_
  rwa [List.append_assoc, List.append_assoc, ← List.append_assoc before] at stands

/-- The sixteen digits of a page's address. -/
def hexText (page : Nat) : List UInt8 := (List.range 16).map fun turn => hexChar page (60 - 4 * turn)

/-- The characters that hexadecimal digits are written with. -/
def IsHexDigit (c : UInt8) : Prop := 0x30 ≤ c ∧ c ≤ 0x39 ∨ 0x41 ≤ c ∧ c ≤ 0x46

instance (c : UInt8) : Decidable (IsHexDigit c) := inferInstanceAs (Decidable (_ ∨ _))

/-- The character of a nibble is a digit. -/
theorem isHexDigit_hexChar (page i : Nat) : IsHexDigit (hexChar page i) := by
  -- A nibble is below 16, and each of the 16 characters is checked.
  have small : (page >>> i) &&& 0xF < 16 := Nat.and_lt_two_pow _ (show 0xF < 2 ^ 4 by decide)
  have digits : ∀ n < 16, IsHexDigit (if UInt8.ofNat n < 10 then 0x30 + UInt8.ofNat n
      else 0x41 + (UInt8.ofNat n - 10)) := by decide
  exact digits _ small

/-- No other character is one of them. -/
theorem hexChar_ne (page i : Nat) {c : UInt8} (other : ¬ IsHexDigit c) : hexChar page i ≠ c :=
  fun same => other (same ▸ isHexDigit_hexChar page i)

/-- The digits of an address, one after the other. -/
theorem Stands.sayNibbles (stands : Stands start kernel screen said machine) (page : Nat) :
    Settles (fun fuel => waitingLoop (sayNibble line fuel page) 0 16 machine) line.Live
      (Stands start kernel screen (said ++ hexText page)) := by
  -- The invariant: at each turn the digits before it have been said.
  refine Settles.loop (fun turn => Stands start kernel screen
    (said ++ (List.range turn).map fun turn => hexChar page (60 - 4 * turn))) (Nat.zero_add 16) ?_ ?_
  · rwa [List.range_zero, List.map_nil, List.append_nil]
  · intro turn m _ _ stands
    have is : IsString (arrayText #v[hexChar page (60 - 4 * turn), 0])
        [hexChar page (60 - 4 * turn)] := by
      refine ⟨fun i within => ?_, fun c member => ?_, rfl⟩
      · obtain rfl : i = 0 := Nat.lt_one_iff.mp within
        rfl
      · rw [List.mem_singleton.mp member]
        exact hexChar_ne page _ (by decide)
    have next : ((List.range (turn + 1)).map fun turn => hexChar page (60 - 4 * turn)) =
        ((List.range turn).map fun turn => hexChar page (60 - 4 * turn)) ++
          [hexChar page (60 - 4 * turn)] := by
      rw [List.range_succ, List.map_append, List.map_singleton]
    refine (stands.writestring is (by simp)).mono fun last stands => ?_
    rwa [List.append_assoc, ← next] at stands

end Saying

section Numbers

/--
A number that `kMain` reports stands on the line between its two literals, as its decimal digits.

The report changes nothing but the line and `buffer`, whatever the two arrays hold before.
-/
theorem number_report_exact (line : SerialLine) (image : KernelImage) (machine : KernelMachine)
    (temp buffer : Vector UInt8 32) (value : Nat) (label unit : String) (before after : List UInt8)
    (bound : value < 2 ^ 64)
    (first : IsString (memoryText machine.kernel.mem (image.place label)) before)
    (last : IsString (memoryText machine.kernel.mem (image.place unit)) after)
    (short : before.length < 2 ^ 64) (short' : after.length < 2 ^ 64) :
    Settles (fun fuel => serialInit line fuel machine.uart >>= fun uart =>
        sayNumber line image fuel temp value label unit buffer (machine.withUart uart)) line.Live
      (fun r => r.2.kernel = machine.kernel ∧ r.2.terminal = machine.terminal ∧
        ConsoleShows machine.uart
          (0x53 :: (before ++ decimalText value ++ after).flatMap crlf) r.2.uart) := by
  -- `serial_init` leaves a line that shows nothing but 0x53, and the number joins it.
  refine (ConsoleShows.init line machine.uart).bind fun uart shows => ?_
  have stands : Stands machine.uart machine.kernel (fun t => t = machine.terminal) []
      (machine.withUart uart) := ⟨rfl, rfl, shows⟩
  refine (stands.sayNumber bound first last short short').mono fun r stands => ?_
  have console := stands.console
  rw [List.nil_append] at console
  exact ⟨stands.kernel, stands.screen, console⟩

/-- An image with a single literal, the colon at address zero. -/
def colonImage : KernelImage := ⟨fun _ => 0, .replicate 32 0, fun _ => .replicate 32 0⟩

/-- A machine in whose memory the colon is all there is. -/
def colonMachine : KernelMachine :=
  .blank (.zeroed (fun x => if x = 0 then 0x3A else 0) bootCr3) resetUart

/-- The number of pages between two colons. -/
theorem number_report_exact_pages :
    Settles (fun fuel => serialInit quickLine fuel resetUart >>= fun uart =>
        sayNumber quickLine colonImage fuel (.replicate 32 0) 32768 ":" ":" (.replicate 32 0)
          (colonMachine.withUart uart)) quickLine.Live
      (fun r => r.2.kernel = colonMachine.kernel ∧ r.2.terminal = colonMachine.terminal ∧
        ConsoleShows resetUart
          (0x53 :: ([0x3A] ++ decimalText 32768 ++ [0x3A]).flatMap crlf) r.2.uart) := by
  -- The image places both literals at a colon with a NUL behind it.
  have colon : IsString (memoryText colonMachine.kernel.mem (colonImage.place ":")) [0x3A] := by
    refine ⟨fun i within => ?_, fun c member => ?_, rfl⟩
    · obtain rfl : i = 0 := Nat.lt_one_iff.mp within
      rfl
    · rw [List.mem_singleton.mp member]
      decide
  exact number_report_exact quickLine colonImage colonMachine _ _ 32768 ":" ":" [0x3A] [0x3A]
    (by decide) colon colon (by decide) (by decide)

end Numbers

section Digits

/-- The value of a hexadecimal digit. -/
def hexDigit (c : UInt8) : Nat := if c < 0x3A then c.toNat - 0x30 else c.toNat - 0x37

/-- What a reader makes of a row of hexadecimal digits. -/
def hexValue (digits : List UInt8) : Nat := digits.foldl (fun n c => 16 * n + hexDigit c) 0

/-- A digit is read back as the nibble that it stands for. -/
theorem hexDigit_hexChar (page i : Nat) : hexDigit (hexChar page i) = page >>> i % 16 := by
  -- The mask is the remainder by 16, and each of the 16 characters is read back.
  have nibble : (page >>> i) &&& 0xF = page >>> i % 16 := Nat.and_two_pow_sub_one_eq_mod _ 4
  have digits : ∀ n < 16, hexDigit (if UInt8.ofNat n < 10 then 0x30 + UInt8.ofNat n
      else 0x41 + (UInt8.ofNat n - 10)) = n := by decide
  rw [hexChar, nibble]
  exact digits _ (Nat.mod_lt _ (by decide))

/-- The sixteen digits of a 64-bit address are read back as the address. -/
theorem hexValue_hexText {page : Nat} (bound : page < 2 ^ 64) : hexValue (hexText page) = page := by
  -- After some turns the digits that have been read are the address without its low nibbles.
  have turns : ∀ turn ≤ 16, hexValue ((List.range turn).map fun turn => hexChar page (60 - 4 * turn)) =
      page >>> (64 - 4 * turn) := by
    intro turn
    induction turn with
    | zero =>
      intro _
      rw [Nat.shiftRight_eq_div_pow, Nat.div_eq_of_lt bound]
      rfl
    | succ turn ih =>
      intro within
      have before := ih (by omega)
      have shift : 64 - 4 * turn = (60 - 4 * turn) + 4 := by omega
      rw [shift, Nat.shiftRight_add, Nat.shiftRight_eq_div_pow _ 4] at before
      rw [List.range_succ, List.map_append, List.map_singleton, hexValue, List.foldl_append,
        ← hexValue, before, List.foldl_cons, List.foldl_nil, hexDigit_hexChar]
      have next : 64 - 4 * (turn + 1) = 60 - 4 * turn := by omega
      rw [next]
      omega
  have all := turns 16 (Nat.le_refl _)
  rwa [Nat.shiftRight_zero] at all

/-- No carriage return comes before a digit. -/
theorem hexText_crlf (page : Nat) : (hexText page).flatMap crlf = hexText page := by
  -- A hexadecimal digit is no line feed.
  rw [hexText, List.flatMap_map]
  have single : ∀ turn, crlf (hexChar page (60 - 4 * turn)) = [hexChar page (60 - 4 * turn)] :=
    fun turn => if_neg (hexChar_ne page _ (by decide))
  simp only [single]
  exact List.map_eq_flatMap.symm

/--
The loop that `kMain` outputs an address with puts sixteen digits on the line that spell it.

It changes nothing but the line, and comes to its end whenever the line's transmitter does its work.
-/
theorem page_address_readable (line : SerialLine) (machine : KernelMachine) (page : Nat)
    (bound : page < 2 ^ 64) :
    Settles (fun fuel => serialInit line fuel machine.uart >>= fun uart =>
        waitingLoop (sayNibble line fuel page) 0 16 (machine.withUart uart)) line.Live
      (fun last => last.kernel = machine.kernel ∧ last.terminal = machine.terminal ∧
        ∃ digits, digits.length = 16 ∧ (∀ c ∈ digits, IsHexDigit c) ∧ hexValue digits = page ∧
          ConsoleShows machine.uart (0x53 :: digits) last.uart) := by
  -- The 16 turns of the loop join the digits one by one to what `serial_init` leaves.
  refine (ConsoleShows.init line machine.uart).bind fun uart shows => ?_
  have stands : Stands machine.uart machine.kernel (fun t => t = machine.terminal) []
      (machine.withUart uart) := ⟨rfl, rfl, shows⟩
  refine (stands.sayNibbles page).mono fun last stands => ?_
  have console := stands.console
  rw [List.nil_append, hexText_crlf] at console
  refine ⟨stands.kernel, stands.screen, hexText page, ?_, fun c member => ?_,
    hexValue_hexText bound, console⟩
  · rw [hexText, List.length_map, List.length_range]
  · obtain ⟨turn, -, rfl⟩ := List.mem_map.mp member
    exact isHexDigit_hexChar page _

/-- The address of the page behind the kernel heap, on a line that is fast enough. -/
theorem page_address_readable_first :
    Settles (fun fuel => serialInit quickLine fuel resetUart >>= fun uart =>
        waitingLoop (sayNibble quickLine fuel 0x280000) 0 16 (colonMachine.withUart uart))
      quickLine.Live
      (fun last => last.kernel = colonMachine.kernel ∧ last.terminal = colonMachine.terminal ∧
        ∃ digits, digits.length = 16 ∧ (∀ c ∈ digits, IsHexDigit c) ∧
          hexValue digits = 0x280000 ∧ ConsoleShows resetUart (0x53 :: digits) last.uart) :=
  page_address_readable quickLine colonMachine 0x280000 (by decide)

end Digits

end IncroOS
