import IncroOS.Lib.Buffer

/-! How `kernel.c` prints its statistics: `uint64_to_string`, with every array access checked. -/

namespace IncroOS

open Lib

/-- The first loop of `uint64_to_string`, which ends with `i` digits in `temp`. -/
def storeDigits (value : UInt64) (temp : Vector UInt8 32) (i : Nat) :
    Option (Vector UInt8 32 × Nat) :=
  if 0 < value then do
    let temp ← store temp i (0x30 + value % 10).toUInt8
    storeDigits (value / 10) temp (i + 1)
  else some (temp, i)
termination_by value.toNat
decreasing_by
  rename_i positive
  rw [UInt64.lt_iff_toNat_lt] at positive
  rw [UInt64.toNat_div]
  exact Nat.div_lt_self positive (by decide)

/-- The second loop of `uint64_to_string`, which ends with `j` characters in `buffer`. -/
def copyDigits (temp : Vector UInt8 32) :
    Nat → Nat → Vector UInt8 32 → Option (Vector UInt8 32 × Nat)
  | 0, j, buffer => some (buffer, j)
  | i + 1, j, buffer => do
    let digit ← temp[i]?
    let buffer ← store buffer j digit
    copyDigits temp i (j + 1) buffer

/-- `uint64_to_string`, on the bytes that its stack happens to hold in `temp`. -/
def uint64ToString (temp : Vector UInt8 32) (value : UInt64) (buffer : Vector UInt8 32) :
    Option (Vector UInt8 32) :=
  if value = 0 then do
    let buffer ← store buffer 0 0x30
    store buffer 1 0
  else do
    let (temp, i) ← storeDigits value temp 0
    let (buffer, j) ← copyDigits temp i 0 buffer
    store buffer j 0

end IncroOS
