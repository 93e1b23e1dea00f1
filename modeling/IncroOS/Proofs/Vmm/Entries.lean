import Mathlib.Data.Set.Lattice
import Mathlib.Order.CompletePartialOrder
import IncroOS.Boot.PageTables
import IncroOS.Memory.Vmm

/-! The bit fields of table entries and addresses, and what writing one entry changes. -/

namespace IncroOS

open Lib

/-- The presence test reads bit 0. -/
theorem isPresent_eq (entry : Nat) : isPresent entry = entry.testBit 0 := by
  -- The flag is 1, so the test is whether the entry is odd.
  have one : ptPresent = 1 := rfl
  rw [isPresent, one, Nat.and_one_is_mod, Nat.testBit_zero]
  cases Nat.mod_two_eq_zero_or_one entry with
  | inl even => simp [even]
  | inr odd => simp [odd]

/-- The address mask keeps bits 12 to 51. -/
theorem and_ptAddrMask (entry : Nat) : entry &&& ptAddrMask = frameOf entry := by
  have mask : ptAddrMask = (2 ^ 40 - 1) <<< 12 := by decide
  rw [mask, frameOf, ← Nat.shiftLeft_eq]
  -- Bit by bit: from bit 12 on the mask is all ones, for 40 bits.
  apply Nat.eq_of_testBit_eq
  intro i
  simp only [Nat.testBit_and, Nat.testBit_shiftLeft, Nat.testBit_two_pow_sub_one,
    Nat.testBit_mod_two_pow, Nat.testBit_div_two_pow]
  by_cases low : i ≥ 12
  · rw [show i - 12 + 12 = i by omega, decide_eq_true low, Bool.true_and, Bool.true_and,
      Bool.and_comm]
  · simp [low]

/-- Nine bits of an address are cut out by a shift and a mask. -/
theorem shiftRight_and_511 (addr shift : Nat) :
    (addr >>> shift) &&& 0x1FF = addr / 2 ^ shift % 512 := by
  have mask : 0x1FF = 2 ^ 9 - 1 := by decide
  rw [mask, Nat.and_two_pow_sub_one_eq_mod, Nat.shiftRight_eq_div_pow]

theorem pml4Index_eq (addr : Nat) : pml4Index addr = addr / 2 ^ 39 % 512 := shiftRight_and_511 addr 39
theorem pdptIndex_eq (addr : Nat) : pdptIndex addr = addr / 2 ^ 30 % 512 := shiftRight_and_511 addr 30
theorem pdIndex_eq (addr : Nat) : pdIndex addr = addr / 2 ^ 21 % 512 := shiftRight_and_511 addr 21
theorem ptIndex_eq (addr : Nat) : ptIndex addr = addr / 2 ^ 12 % 512 := shiftRight_and_511 addr 12

/-- The offset within a page. -/
theorem and_0xFFF (addr : Nat) : addr &&& 0xFFF = addr % 2 ^ 12 := by
  have mask : 0xFFF = 2 ^ 12 - 1 := by decide
  rw [mask, Nat.and_two_pow_sub_one_eq_mod]

theorem frameOf_lt (entry : Nat) : frameOf entry < 2 ^ 52 := by
  unfold frameOf
  omega

section LinkEntry

variable {table : Nat}

/-- An entry that links a table is the table's address with the two low flags. -/
theorem linkEntry_eq (aligned : table % 4096 = 0) :
    table ||| ptWritable ||| ptPresent = table + 3 := by
  -- A table is a multiple of 4096, so its bits and those of 3 are apart.
  have flags : ptWritable ||| ptPresent = 3 := by decide
  have shape : table = (table / 2 ^ 12) <<< 12 := by
    rw [Nat.shiftLeft_eq]
    omega
  rw [Nat.or_assoc, flags, shape, Nat.shiftLeft_add_eq_or_of_lt (by decide)]

end LinkEntry

/-- An entry with the present flag is present. -/
theorem isPresent_or (entry : Nat) : isPresent (entry ||| ptPresent) = true := by
  have bit : ptPresent.testBit 0 = true := by decide
  rw [isPresent_eq, Nat.testBit_or, bit, Bool.or_true]

/-- An entry that maps a frame is present, and holds the frame when the flags leave it alone. -/
theorem leafEntry_fields (phys : Nat) {flags : Nat} (apart : flags &&& ptAddrMask = 0) :
    isPresent ((phys &&& ptAddrMask) ||| flags ||| ptPresent) = true ∧
    ((phys &&& ptAddrMask) ||| flags ||| ptPresent) &&& ptAddrMask = phys &&& ptAddrMask := by
  -- The mask has no bit in common with the flags or with the present flag.
  refine ⟨isPresent_or _, ?_⟩
  have low : ptPresent &&& ptAddrMask = 0 := by decide
  rw [Nat.and_or_distrib_right, Nat.and_or_distrib_right, apart, low, Nat.and_assoc, Nat.and_self,
    Nat.or_zero, Nat.or_zero]

/-- A combination of 64-bit values is a 64-bit value. -/
theorem leafEntry_lt (phys : Nat) {flags : Nat} (bound : flags < 2 ^ 64) :
    (phys &&& ptAddrMask) ||| flags ||| ptPresent < 2 ^ 64 := by
  -- Each of the three is below 2^64.
  have frame : phys &&& ptAddrMask < 2 ^ 64 := by
    have := frameOf_lt phys
    rw [and_ptAddrMask]
    omega
  exact Nat.or_lt_two_pow (Nat.or_lt_two_pow frame bound) (by decide)

section Write

variable (mem : Mem) (table index value : Nat)

/-- An entry reads back as written. -/
theorem pte_setPte (bound : value < 2 ^ 64) :
    pte (setPte mem table index value) table index = value := by
  have width : 256 ^ 8 = 2 ^ 64 := by decide
  rw [pte, setPte, Mem.read_write_self, width, Nat.mod_eq_of_lt bound]

/-- The bytes of one page. -/
def pageSpan (table : Nat) : Set Nat := Set.Ico table (table + pageSize)

/-- The bytes of one entry. -/
theorem setPte_changes (within : index < 512) :
    Mem.ChangesOnly mem (setPte mem table index value) (pageSpan table) := by
  refine (Mem.write_changes mem (table + 8 * index) 8 value).mono fun x member => ?_
  simp only [pageSpan, pageSize, Set.mem_Ico] at member ⊢
  omega

variable {mem table index}

/-- Other entries of page-aligned tables are not affected by writing one. -/
theorem pte_setPte_other {table' index' : Nat} (aligned : table % 4096 = 0)
    (aligned' : table' % 4096 = 0) (within : index < 512) (within' : index' < 512)
    (other : table' ≠ table ∨ index' ≠ index) :
    pte (setPte mem table index value) table' index' = pte mem table' index' := by
  refine Mem.read_write_apart mem ?_
  omega

/-- An entry of a page is not affected by changes elsewhere. -/
theorem pte_congr {mem' : Mem} {region : Set Nat} (changes : Mem.ChangesOnly mem mem' region)
    (within : index < 512) (apart : Disjoint (pageSpan table) region) :
    pte mem' table index = pte mem table index := by
  -- The eight bytes of an entry lie in the page of its table.
  refine changes.read fun x low high => ?_
  refine Set.disjoint_left.mp apart ?_
  simp only [pageSpan, pageSize, Set.mem_Ico]
  omega

end Write

end IncroOS
