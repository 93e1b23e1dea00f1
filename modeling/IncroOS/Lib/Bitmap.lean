import IncroOS.Lib.Memory
import Mathlib.Data.Nat.Bitwise

/-! Bit arrays packed eight to a byte, updated through promoted 32-bit integers. -/

namespace Lib

/-- Bit `n` of the byte array at `base`. -/
def bitAt (m : Mem) (base n : Nat) : Bool :=
  (m (base + n / 8)).toNat.testBit (n % 8)

/-- The promoted one-bit mask `1 << i`. -/
def bitMask (i : Nat) : UInt32 :=
  (1 : UInt32) <<< UInt32.ofNat i

/-- Within a byte the mask is a power of two. -/
theorem bitMask_toNat {i : Nat} (within : i < 8) : (bitMask i).toNat = 2 ^ i := by
  -- The shift is below the width, so nothing is lost.
  have small : i % 2 ^ 32 % 32 = i := by omega
  have bound : 2 ^ i < 2 ^ 32 := Nat.pow_lt_pow_right (by decide) (by omega)
  simp only [bitMask, UInt32.toNat_shiftLeft, UInt32.toNat_ofNat', small, Nat.shiftLeft_eq]
  simpa using bound

/-- Or-ing the mask into a byte and truncating sets one bit and keeps the other seven. -/
theorem orMask_testBit (b : UInt8) {i j : Nat} (maskWithin : i < 8) (within : j < 8) :
    (b.toUInt32 ||| bitMask i).toUInt8.toNat.testBit j = (b.toNat.testBit j || decide (i = j)) := by
  rw [UInt32.toNat_toUInt8, UInt32.toNat_or, bitMask_toNat maskWithin, UInt8.toNat_toUInt32,
    Nat.testBit_mod_two_pow]
  simp [within, Nat.testBit_two_pow]

/-- And-ing the complemented mask and truncating clears one bit and keeps the other seven. -/
theorem andMask_testBit (b : UInt8) {i j : Nat} (maskWithin : i < 8) (within : j < 8) :
    (b.toUInt32 &&& ~~~bitMask i).toUInt8.toNat.testBit j =
      (b.toNat.testBit j && decide (i ≠ j)) := by
  -- The complement of a power of two below 2^32 has every other bit of the word set.
  have bound : 2 ^ i < 2 ^ 32 := Nat.pow_lt_pow_right (by decide) (by omega)
  have complement : UInt32.size - 1 - 2 ^ i = 2 ^ 32 - (2 ^ i + 1) := by
    simp only [UInt32.size]
    omega
  rw [UInt32.toNat_toUInt8, UInt32.toNat_and, UInt32.toNat_not, bitMask_toNat maskWithin,
    UInt8.toNat_toUInt32, Nat.testBit_mod_two_pow, complement, Nat.testBit_and,
    Nat.testBit_two_pow_sub_succ bound, Nat.testBit_two_pow]
  have wide : j < 32 := by omega
  simp [within, wide]

/-- Testing the mask against a byte reads one bit. -/
theorem andMask_ne_zero (b : UInt8) {i : Nat} (within : i < 8) :
    ((b.toUInt32 &&& bitMask i) != 0) = b.toNat.testBit i := by
  -- The mask is a power of two, so that the conjunction is zero or that power.
  have value : (b.toUInt32 &&& bitMask i).toNat = b.toNat &&& 2 ^ i := by
    rw [UInt32.toNat_and, bitMask_toNat within, UInt8.toNat_toUInt32]
  have zero : (b.toUInt32 &&& bitMask i) = 0 ↔ b.toNat &&& 2 ^ i = 0 := by
    rw [← UInt32.toNat_inj, value]
    rfl
  rw [Nat.and_two_pow] at zero
  have positive : 2 ^ i ≠ 0 := Nat.pos_iff_ne_zero.mp (Nat.two_pow_pos i)
  cases bit : b.toNat.testBit i <;> simp_all

/-- Storing a byte that differs in one bit changes exactly that bit of the array. -/
theorem bitAt_set {m : Mem} {base n : Nat} {b : UInt8} (value : Bool)
    (bits : ∀ j, j < 8 → b.toNat.testBit j =
      if n % 8 = j then value else (m (base + n / 8)).toNat.testBit j) (p : Nat) :
    bitAt (m.set (base + n / 8) b) base p = if p = n then value else bitAt m base p := by
  -- A bit of another byte is untouched, and a bit of the same byte is one of its eight.
  by_cases sameByte : p / 8 = n / 8
  · have within : p % 8 < 8 := Nat.mod_lt _ (by decide)
    have sameBit : n % 8 = p % 8 ↔ p = n := by omega
    simp only [bitAt, sameByte, Mem.set_self, bits _ within, sameBit]
  · have different : p ≠ n := fun same => sameByte (by rw [same])
    rw [if_neg different, bitAt, Mem.set_other _ _ (by omega), bitAt]

/-- Memories that agree below the array and in all of its bits are equal. -/
theorem mem_eq_of_bits {m m' : Mem} {base : Nat} (below : ∀ a < base, m a = m' a)
    (bits : ∀ n, bitAt m base n = bitAt m' base n) : m = m' := by
  funext a
  by_cases low : a < base
  · exact below a low
  · -- The byte lies in the array, and its eight bits are compared one by one.
    refine UInt8.toNat_inj.mp (Nat.eq_of_testBit_eq fun j => ?_)
    by_cases within : j < 8
    · have byte : base + (8 * (a - base) + j) / 8 = a := by omega
      have bit : (8 * (a - base) + j) % 8 = j := by omega
      have same := bits (8 * (a - base) + j)
      rwa [bitAt, bitAt, byte, bit] at same
    · -- A byte has no other bits.
      have wide : 2 ^ 8 ≤ 2 ^ j := Nat.pow_le_pow_right (by decide) (by omega)
      rw [Nat.testBit_lt_two_pow ((m a).toNat_lt.trans_le wide),
        Nat.testBit_lt_two_pow ((m' a).toNat_lt.trans_le wide)]

end Lib
