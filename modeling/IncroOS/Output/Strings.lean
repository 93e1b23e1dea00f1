import IncroOS.Kernel.State

/-! The strings that the kernel outputs, and the `strlen` of `terminal.c`. -/

namespace IncroOS

open Lib

/-- What a `const char*` points to: the byte at each index, or nothing out of bounds. -/
abbrev Text := Nat → Option UInt8

/-- The bytes of memory from an address upwards. -/
def memoryText (mem : Mem) (data : Nat) : Text := fun i => some (mem (u64 (data + i)))

/-- The bytes of an array. -/
def arrayText {size : Nat} (array : Vector UInt8 size) : Text := fun i => array[i]?

/-- The loop of `strlen`, from a length it has come to. -/
def strlenFrom (str : Text) : Nat → Nat → Option Nat
  | 0, _ => none
  | fuel + 1, len => do
    let c ← str len
    if c ≠ 0 then strlenFrom str fuel (u64 (len + 1)) else some len

/-- `strlen`, whose loop takes at most `fuel` turns. -/
def strlen (fuel : Nat) (str : Text) : Option Nat := strlenFrom str fuel 0

/-- The bytes start with those of a list. -/
def Reads (str : Text) (bytes : List UInt8) : Prop :=
  ∀ i, ∀ within : i < bytes.length, str i = some bytes[i]

/-- The bytes are those of a string, with a NUL behind them. -/
structure IsString (str : Text) (string : List UInt8) : Prop where
  chars : Reads str string
  printable : ∀ c ∈ string, c ≠ 0
  terminated : str string.length = some 0

end IncroOS
