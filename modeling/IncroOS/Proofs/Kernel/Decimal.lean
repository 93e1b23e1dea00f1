import Mathlib.Data.Nat.Digits.Lemmas
import IncroOS.Kernel.Decimal

/-! `uint64_to_string` prints the decimal digits of every value, within the bounds of its arrays. -/

namespace IncroOS

open Lib

section Text

variable {value : Nat}

/-- The character of a decimal digit. -/
def digitChar (digit : Nat) : UInt8 := UInt8.ofNat (0x30 + digit)

/-- The decimal digits of a value as characters, the least significant first. -/
def digitChars (value : Nat) : List UInt8 := (Nat.digits 10 value).map digitChar

/-- The decimal text of a value. -/
def decimalText (value : Nat) : List UInt8 := if value = 0 then [0x30] else (digitChars value).reverse

/-- What a text of digits reads as in base 10. -/
def readDecimal (text : List UInt8) : Nat := text.foldl (fun n c => 10 * n + (c.toNat - 0x30)) 0

theorem digitChar_toNat {digit : Nat} (small : digit < 10) : (digitChar digit).toNat = 0x30 + digit :=
  UInt8.toNat_ofNat_of_lt' (show 0x30 + digit < 256 by omega)

/-- Each character is that of a digit. -/
theorem mem_digitChars {c : UInt8} (member : c ∈ digitChars value) :
    ∃ digit < 10, digit ∈ Nat.digits 10 value ∧ c.toNat = 0x30 + digit := by
  obtain ⟨digit, inside, rfl⟩ := List.mem_map.mp member
  have small : digit < 10 := Nat.digits_lt_base (by decide) inside
  exact ⟨digit, small, inside, digitChar_toNat small⟩

theorem mem_decimalText {c : UInt8} (member : c ∈ decimalText value) :
    0x30 ≤ c.toNat ∧ c.toNat ≤ 0x39 := by
  -- Zero is printed apart from the other values.
  unfold decimalText at member
  split at member
  · -- The text of zero is the digit zero.
    rw [List.mem_singleton.mp member]
    decide
  · obtain ⟨digit, small, -, same⟩ := mem_digitChars (List.mem_reverse.mp member)
    omega

/-- A 64-bit value has at most twenty digits. -/
theorem digitChars_length_le (bound : value < 2 ^ 64) : (digitChars value).length ≤ 20 := by
  rw [digitChars, List.length_map, Nat.digits_length_le_iff (by decide)]
  omega

theorem digitChars_length_pos (nonzero : value ≠ 0) : 0 < (digitChars value).length := by
  rw [digitChars, List.length_map]
  exact List.length_pos_iff.mpr (Nat.digits_ne_nil_iff_ne_zero.mpr nonzero)

theorem decimalText_length (bound : value < 2 ^ 64) :
    1 ≤ (decimalText value).length ∧ (decimalText value).length ≤ 20 := by
  -- Only zero has no digits, and it is printed as one.
  unfold decimalText
  split
  · decide
  · rename_i nonzero
    rw [List.length_reverse]
    exact ⟨digitChars_length_pos nonzero, digitChars_length_le bound⟩

/-- The most significant digit of a number is not zero. -/
theorem decimalText_head (nonzero : value ≠ 0) : (decimalText value).head? ≠ some 0x30 := by
  rw [decimalText, if_neg nonzero, digitChars, List.head?_reverse, List.getLast?_map]
  have digits : Nat.digits 10 value ≠ [] := Nat.digits_ne_nil_iff_ne_zero.mpr nonzero
  rw [List.getLast?_eq_getLast_of_ne_nil digits]
  -- The digit and its character stand for the same value.
  intro zero
  have top := Nat.getLast_digit_ne_zero 10 nonzero
  have small := Nat.digits_lt_base (by decide) (List.getLast_mem digits)
  have same := congrArg UInt8.toNat (Option.some.inj zero)
  rw [digitChar_toNat small] at same
  exact top (Nat.add_left_cancel same)

/-- Horner's rule on the digits, from the most significant one. -/
theorem foldr_digitChar {digits : List Nat} (small : ∀ digit ∈ digits, digit < 10) :
    (digits.map digitChar).foldr (fun c n => 10 * n + (c.toNat - 0x30)) 0 = Nat.ofDigits 10 digits := by
  -- Each character reads as its digit, in front of ten times those behind it.
  induction digits with
  | nil => rfl
  | cons digit rest ih =>
    have tail := ih fun d member => small d (List.mem_cons_of_mem _ member)
    rw [List.map_cons, List.foldr_cons, tail, digitChar_toNat (small digit List.mem_cons_self),
      Nat.ofDigits_cons, Nat.add_sub_cancel_left, Nat.add_comm]

/-- The text reads as the value. -/
theorem readDecimal_decimalText : readDecimal (decimalText value) = value := by
  -- Zero is printed apart from the other values.
  unfold decimalText
  split
  · rename_i zero
    rw [zero]
    rfl
  · -- Reading the text from its start goes through the digits from their end.
    rw [readDecimal, List.foldl_reverse, digitChars,
      foldr_digitChar fun _ member => Nat.digits_lt_base (by decide) member]
    exact Nat.ofDigits_digits 10 value

end Text

section Loops

variable {before temp buffer : Vector UInt8 32}

/-- The character that the first loop stores is that of the lowest digit. -/
theorem lowest_digit (value : UInt64) :
    (0x30 + value % 10).toUInt8 = digitChar (value.toNat % 10) := by
  -- The sum stays below 58, so that the cut to a byte keeps it.
  apply UInt8.toNat.inj
  have small : value.toNat % 10 < 10 := Nat.mod_lt _ (by decide)
  have ten : (10 : UInt64).toNat = 10 := rfl
  have zero : (0x30 : UInt64).toNat = 0x30 := rfl
  rw [digitChar_toNat small, UInt64.toNat_toUInt8, UInt64.toNat_add, UInt64.toNat_mod, ten, zero]
  omega

theorem digitChars_of_pos {n : Nat} (positive : 0 < n) :
    digitChars n = digitChar (n % 10) :: digitChars (n / 10) := by
  rw [digitChars, Nat.digits_def' (by decide) positive, List.map_cons]
  rfl

/-- The first loop puts the digits of what is left of the value behind those it has stored. -/
theorem storeDigits_filled (value : UInt64) {stored : List UInt8}
    (filled : Filled before temp stored)
    (room : stored.length + (digitChars value.toNat).length ≤ 32) :
    ∃ after, storeDigits value temp stored.length =
        some (after, stored.length + (digitChars value.toNat).length) ∧
      Filled before after (stored ++ digitChars value.toNat) := by
  -- The induction is on the value, which each turn divides by ten.
  induction hn : value.toNat using Nat.strongRecOn generalizing value temp stored with
  | ind n ih =>
    subst hn
    rw [storeDigits]
    split
    · rename_i positive
      rw [UInt64.lt_iff_toNat_lt] at positive
      have digits := digitChars_of_pos positive
      rw [digits, List.length_cons] at room
      -- One turn stores the lowest digit, and the others are those of the quotient.
      obtain ⟨next, stores, more⟩ := filled.store (digitChar (value.toNat % 10)) (by omega)
      have quotient : (value / 10).toNat = value.toNat / 10 := UInt64.toNat_div value 10
      have less : (value / 10).toNat < value.toNat := by
        rw [quotient]
        exact Nat.div_lt_self positive (by decide)
      have length : (stored ++ [digitChar (value.toNat % 10)]).length = stored.length + 1 :=
        List.length_append
      obtain ⟨after, rest, all⟩ := ih _ less (value / 10) more (by rw [length, quotient]; omega) rfl
      rw [length, quotient] at rest
      rw [quotient, List.append_assoc, List.singleton_append, ← digits] at all
      refine ⟨after, ?_, all⟩
      rw [lowest_digit, stores, digits, List.length_cons]
      exact rest.trans (by congr 2; omega)
    · -- At zero no digit is left.
      rename_i done
      have zero : value.toNat = 0 := by
        rw [UInt64.lt_iff_toNat_lt] at done
        exact Nat.eq_zero_of_not_pos done
      rw [zero]
      exact ⟨temp, rfl, by rwa [digitChars, Nat.digits_zero, List.map_nil, List.append_nil]⟩

/-- The second loop puts what is left of the digits behind the characters it has copied. -/
theorem copyDigits_filled {start : Vector UInt8 32} {digits copied : List UInt8} {i : Nat}
    (source : Filled start temp digits) (within : i ≤ digits.length)
    (filled : Filled before buffer copied) (room : copied.length + i ≤ 32) :
    ∃ after, copyDigits temp i copied.length buffer = some (after, copied.length + i) ∧
      Filled before after (copied ++ (digits.take i).reverse) := by
  -- The induction is on the digits left, of which each turn takes the last one.
  induction i generalizing buffer copied with
  | zero => exact ⟨buffer, rfl, by rwa [List.take_zero, List.reverse_nil, List.append_nil]⟩
  | succ i ih =>
    -- The turn loads the last digit that is left and stores it.
    have loads : temp[i]? = some digits[i] := by
      rw [source.load within, List.getElem?_eq_getElem within]
    obtain ⟨next, stores, more⟩ := filled.store digits[i] (by omega)
    have length : (copied ++ [digits[i]]).length = copied.length + 1 := List.length_append
    obtain ⟨after, rest, all⟩ := ih (by omega) more (by omega)
    rw [length] at rest
    have last : (digits.take (i + 1)).reverse = digits[i] :: (digits.take i).reverse := by
      rw [← List.take_append_getElem within, List.reverse_concat]
    refine ⟨after, ?_, ?_⟩
    · rw [copyDigits, loads, Option.bind_eq_bind, Option.bind_some, stores, Option.bind_eq_bind,
        Option.bind_some, rest, Nat.add_right_comm, Nat.add_assoc]
    · rwa [last, ← List.singleton_append, ← List.append_assoc]

end Loops

/-- The printer stores the text of the value and a NUL, and nothing else. -/
theorem uint64ToString_filled (temp buffer : Vector UInt8 32) (value : UInt64) :
    ∃ after, uint64ToString temp value buffer = some after ∧
      Filled buffer after (decimalText value.toNat ++ [0]) := by
  unfold uint64ToString
  split
  · -- The text of zero is stored at once.
    rename_i zero
    obtain ⟨first, stores, one⟩ := (Filled.nil buffer).store 0x30 (by decide)
    obtain ⟨after, ends, both⟩ := one.store 0 (by decide)
    refine ⟨after, ?_, by rwa [zero]⟩
    rw [show (0 : Nat) = ([] : List UInt8).length from rfl, stores]
    exact ends
  · -- Otherwise the digits go through `temp`, and the NUL comes behind them.
    rename_i other
    have nonzero : value.toNat ≠ 0 := fun zero => other (UInt64.toNat.inj zero)
    have few := digitChars_length_le value.toNat_lt
    obtain ⟨digits, stores, source⟩ := storeDigits_filled value (Filled.nil temp)
      (by rw [List.length_nil]; omega)
    rw [List.length_nil, Nat.zero_add] at stores
    rw [List.nil_append] at source
    obtain ⟨copied, copies, text⟩ := copyDigits_filled source (Nat.le_refl _)
      (Filled.nil buffer) (by rw [List.length_nil]; omega)
    rw [List.length_nil, Nat.zero_add] at copies
    have whole : [] ++ ((digitChars value.toNat).take (digitChars value.toNat).length).reverse =
        decimalText value.toNat := by
      rw [List.take_length, List.nil_append, decimalText, if_neg nonzero]
    rw [whole] at text
    have length : (decimalText value.toNat).length = (digitChars value.toNat).length := by
      rw [decimalText, if_neg nonzero, List.length_reverse]
    obtain ⟨after, ends, all⟩ := text.store 0 (by omega)
    refine ⟨after, ?_, all⟩
    rw [length] at ends
    rw [stores]
    dsimp only [Option.bind_eq_bind, Option.bind_some]
    rw [copies]
    exact ends

/-- The string in the buffer after the call is the text of the value. -/
theorem uint64ToString_text {temp buffer after : Vector UInt8 32} {value : UInt64}
    (call : uint64ToString temp value buffer = some after) :
    cString after = decimalText value.toNat := by
  -- The characters of the text are not NULs.
  obtain ⟨result, same, filled⟩ := uint64ToString_filled temp buffer value
  obtain rfl : result = after := Option.some.inj (same.symm.trans call)
  refine filled.cString fun c member => ?_
  rintro rfl
  exact absurd (mem_decimalText member).1 (by decide)

/-- `uint64_to_string` is the exact decimal printer. -/
theorem uint64ToString_exact (temp buffer : Vector UInt8 32) (value : UInt64) :
    ∃ after, uint64ToString temp value buffer = some after ∧
      let text := cString after
      after.toList = text ++ 0 :: buffer.toList.drop (text.length + 1) ∧
      1 ≤ text.length ∧ text.length ≤ 20 ∧
      (∀ c ∈ text, 0x30 ≤ c.toNat ∧ c.toNat ≤ 0x39) ∧
      (text.head? = some 0x30 → value = 0 ∧ text = [0x30]) ∧
      readDecimal text = value.toNat ∧
      ∀ temp' buffer' value' after', uint64ToString temp' value' buffer' = some after' →
        cString after' = text → value' = value := by
  obtain ⟨after, call, filled⟩ := uint64ToString_filled temp buffer value
  refine ⟨after, call, ?_⟩
  dsimp only
  rw [uint64ToString_text call]
  have length := decimalText_length value.toNat_lt
  refine ⟨?_, length.1, length.2, fun c member => mem_decimalText member, fun zero => ?_,
    readDecimal_decimalText, fun temp' buffer' value' after' call' same => ?_⟩
  · rw [filled, List.length_append, List.append_assoc]
    rfl
  · -- Only the text of zero starts with a zero, and it ends there.
    have none : value.toNat = 0 := by
      by_contra nonzero
      exact decimalText_head nonzero zero
    rw [none]
    exact ⟨UInt64.toNat.inj none, rfl⟩
  · -- Both strings read as their values.
    rw [uint64ToString_text call'] at same
    have values := congrArg readDecimal same
    rw [readDecimal_decimalText, readDecimal_decimalText] at values
    exact UInt64.toNat.inj values

end IncroOS
