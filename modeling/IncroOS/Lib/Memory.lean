import Mathlib.Data.Set.Defs
import Mathlib.Order.Interval.Set.Defs
import Mathlib.Tactic.Ring

/-! Byte-addressed memory, little-endian access at every width, and what a write leaves alone. -/

namespace Lib

/-- A memory gives every address one byte. -/
abbrev Mem := Nat → UInt8

namespace Mem

/-- Store one byte. -/
def set (m : Mem) (a : Nat) (b : UInt8) : Mem :=
  fun x => if x = a then b else m x

/-- The little-endian value of `width` bytes from `a` upwards. -/
def read (m : Mem) (a : Nat) : Nat → Nat
  | 0 => 0
  | width + 1 => (m a).toNat + 256 * read m (a + 1) width

/-- Store the low `width` bytes of `v` from `a` upwards, least significant first. -/
def write (m : Mem) (a width v : Nat) : Mem :=
  fun x => if a ≤ x ∧ x < a + width then UInt8.ofNat (v / 256 ^ (x - a)) else m x

/-- Every byte that differs between two memories lies in the region. -/
def ChangesOnly (m m' : Mem) (region : Set Nat) : Prop :=
  ∀ a, a ∉ region → m' a = m a

@[simp] theorem set_self (m : Mem) (a : Nat) (b : UInt8) : m.set a b a = b := by
  simp [set]

theorem set_other (m : Mem) {a x : Nat} (b : UInt8) (apart : x ≠ a) : m.set a b x = m x := by
  simp [set, apart]

/-- A value read from `width` bytes fits in them. -/
theorem read_lt (m : Mem) (a width : Nat) : m.read a width < 256 ^ width := by
  -- Each further byte multiplies the range by 256 and adds less than 256.
  induction width generalizing a with
  | zero => simp [read]
  | succ width ih =>
    have low := (m a).toNat_lt
    have rest := ih (a + 1)
    simp only [read, Nat.pow_succ]
    omega

/-- Two memories that agree on the bytes read give the same value. -/
theorem read_congr {m m' : Mem} {a width : Nat}
    (agree : ∀ x, a ≤ x → x < a + width → m' x = m x) : m'.read a width = m.read a width := by
  -- The first byte agrees, and so do the ones behind it.
  induction width generalizing a with
  | zero => rfl
  | succ width ih =>
    have tail := ih (a := a + 1) fun x low high => agree x (by omega) (by omega)
    simp only [read, agree a (by omega) (by omega), tail]

/-- A memory holding the digits of a value reads back that value, cut to the width. -/
theorem read_digits {m : Mem} {a width v : Nat}
    (digits : ∀ i, i < width → m (a + i) = UInt8.ofNat (v / 256 ^ i)) :
    m.read a width = v % 256 ^ width := by
  -- The low byte is the remainder by 256, and the rest are the digits of the quotient.
  induction width generalizing a v with
  | zero => simp [read, Nat.mod_one]
  | succ width ih =>
    have head : (m a).toNat = v % 256 := by
      have first := digits 0 (by omega)
      simp only [Nat.add_zero, Nat.pow_zero, Nat.div_one] at first
      simp [first]
    have tail : m.read (a + 1) width = v / 256 % 256 ^ width := by
      apply ih
      intro i within
      have next := digits (i + 1) (by omega)
      rw [show a + 1 + i = a + (i + 1) by omega, next, Nat.div_div_eq_div_mul, Nat.pow_succ,
        Nat.mul_comm 256]
    rw [read, head, tail, Nat.pow_succ, Nat.mul_comm (256 ^ width), Nat.mod_mul]

/-- A read of adjacent fields is made of their values. -/
theorem read_add (m : Mem) (a low high : Nat) :
    m.read a (low + high) = m.read a low + 256 ^ low * m.read (a + low) high := by
  -- The first byte of the low field moves to the front of the whole.
  induction low generalizing a with
  | zero => simp [read]
  | succ low ih =>
    have place : a + 1 + low = a + (low + 1) := by omega
    rw [Nat.add_right_comm, read, read, ih, place, Nat.pow_succ]
    ring

/-- Bytes that agree with those of another memory, elsewhere, read as they do. -/
theorem read_shift {m s : Mem} {a b width : Nat} (agree : ∀ i < width, m (a + i) = s (b + i)) :
    m.read a width = s.read b width := by
  -- Both reads move on by one byte at a time.
  induction width generalizing a b with
  | zero => rfl
  | succ width ih =>
    have head : m a = s b := agree 0 (by omega)
    have tail := ih (a := a + 1) (b := b + 1) fun i within => by
      have next := agree (i + 1) (by omega)
      rwa [Nat.add_right_comm, Nat.add_right_comm b]
    rw [read, read, head, tail]

/-- Zero bytes read as zero. -/
theorem read_zero {m : Mem} {a width : Nat} (zeros : ∀ x, a ≤ x → x < a + width → m x = 0) :
    m.read a width = 0 := by
  -- Each byte adds nothing to those behind it.
  induction width generalizing a with
  | zero => rfl
  | succ width ih =>
    have tail := ih (a := a + 1) fun x low high => zeros x (by omega) (by omega)
    simp only [read, zeros a (by omega) (by omega), tail]
    rfl

/-- Zero is written as zero bytes. -/
theorem write_zero (m : Mem) {a width x : Nat} (low : a ≤ x) (high : x < a + width) :
    m.write a width 0 x = 0 := by
  simp [write, low, high]

/-- What was written reads back, cut to the width. -/
theorem read_write_self (m : Mem) (a width v : Nat) :
    (m.write a width v).read a width = v % 256 ^ width := by
  apply read_digits
  intro i within
  simp [write, within]

/-- A write leaves every byte outside its span alone. -/
theorem write_changes (m : Mem) (a width v : Nat) :
    ChangesOnly m (m.write a width v) (Set.Ico a (a + width)) := by
  intro x outside
  simp only [Set.mem_Ico] at outside
  simp [write, outside]

/-- A store leaves every other byte alone. -/
theorem set_changes (m : Mem) (a : Nat) (b : UInt8) : ChangesOnly m (m.set a b) {a} := by
  intro x outside
  exact set_other m b outside

/-- A read apart from the changed region is unaffected. -/
theorem ChangesOnly.read {m m' : Mem} {region : Set Nat} (changes : ChangesOnly m m' region)
    {a width : Nat} (apart : ∀ x, a ≤ x → x < a + width → x ∉ region) :
    m'.read a width = m.read a width :=
  read_congr fun x low high => changes x (apart x low high)

/-- A read apart from a written span is unaffected. -/
theorem read_write_apart (m : Mem) {a width v b n : Nat} (apart : b + n ≤ a ∨ a + width ≤ b) :
    (m.write a width v).read b n = m.read b n := by
  -- What is written lies in its own span.
  apply (write_changes m a width v).read
  intro x low high
  simp only [Set.mem_Ico]
  omega

/-- A read apart from a stored byte is unaffected. -/
theorem read_set_apart (m : Mem) {a b n : Nat} (byte : UInt8) (apart : b + n ≤ a ∨ a < b) :
    (m.set a byte).read b n = m.read b n := by
  -- What is written is one byte.
  apply (set_changes m a byte).read
  intro x low high
  simp only [Set.mem_singleton_iff]
  omega

/-- A byte apart from a written span is unaffected. -/
theorem write_apart (m : Mem) {a width v x : Nat} (apart : x < a ∨ a + width ≤ x) :
    m.write a width v x = m x := by
  simp only [write, show ¬(a ≤ x ∧ x < a + width) by omega, if_false]

theorem ChangesOnly.refl (m : Mem) (region : Set Nat) : ChangesOnly m m region :=
  fun _ _ => rfl

theorem ChangesOnly.mono {m m' : Mem} {small large : Set Nat}
    (changes : ChangesOnly m m' small) (inside : small ⊆ large) : ChangesOnly m m' large :=
  fun a outside => changes a fun member => outside (inside member)

theorem ChangesOnly.trans {m₁ m₂ m₃ : Mem} {region : Set Nat}
    (first : ChangesOnly m₁ m₂ region) (second : ChangesOnly m₂ m₃ region) :
    ChangesOnly m₁ m₃ region :=
  fun a outside => (second a outside).trans (first a outside)

end Mem

end Lib
