import IncroOS.Lib.Memory

/-! The processor in real mode as the boot loader uses it, and the disk services of the BIOS. -/

namespace IncroOS

open Lib

/-- The low word of a 32-bit register. -/
def word (r : Nat) : Nat := r % 2 ^ 16

/-- The low byte of a 32-bit register. -/
def byte (r : Nat) : Nat := r % 2 ^ 8

/-- A 32-bit result. -/
def dword (r : Nat) : Nat := r % 2 ^ 32

/-- Replace the low word of a register. -/
@[irreducible] def setWord (r v : Nat) : Nat := r / 2 ^ 16 * 2 ^ 16 + v % 2 ^ 16

/-- Replace the low byte of a register. -/
@[irreducible] def setByte (r v : Nat) : Nat := r / 2 ^ 8 * 2 ^ 8 + v % 2 ^ 8

/-- Replace bits 8 to 15 of a register. -/
@[irreducible] def setHighByte (r v : Nat) : Nat := r / 2 ^ 16 * 2 ^ 16 + v % 2 ^ 8 * 2 ^ 8 + r % 2 ^ 8

section Parts

variable (r v : Nat)

theorem word_lt : word r < 2 ^ 16 := Nat.mod_lt _ (by omega)

theorem word_of_lt {r : Nat} (bound : r < 2 ^ 16) : word r = r := Nat.mod_eq_of_lt bound

theorem dword_of_lt {r : Nat} (bound : r < 2 ^ 32) : dword r = r := Nat.mod_eq_of_lt bound

@[simp] theorem word_word : word (word r) = word r := by
  unfold word
  omega

@[simp] theorem dword_dword : dword (dword r) = dword r := by
  unfold dword
  omega

@[simp] theorem word_dword : word (dword r) = word r := by
  unfold word dword
  omega

@[simp] theorem word_setWord : word (setWord r v) = word v := by
  unfold word setWord
  omega

@[simp] theorem setWord_setWord (u : Nat) : setWord (setWord r u) v = setWord r v := by
  unfold setWord
  omega

@[simp] theorem setWord_zero : setWord 0 v = word v := by
  unfold setWord word
  omega

@[simp] theorem setWord_word : setWord (word r) v = word v := by
  unfold setWord word
  omega

@[simp] theorem setByte_zero : setByte 0 v = byte v := by
  unfold setByte byte
  omega

@[simp] theorem word_setByte_setWord : word (setByte (setWord r 0) v) = byte v := by
  unfold word setByte setWord byte
  omega

@[simp] theorem word_toNat (b : UInt8) : word b.toNat = b.toNat := by
  have small := b.toNat_lt
  unfold word
  omega

@[simp] theorem byte_toNat (b : UInt8) : byte b.toNat = b.toNat := by
  have small := b.toNat_lt
  unfold byte
  omega

@[simp] theorem byte_setByte : byte (setByte r v) = byte v := by
  unfold byte setByte
  omega

end Parts

/--
The general registers, `SP`, `ES`, memory, and the number of disk reads asked for so far.

`DS` and `SS` are 0 from `FixCS` on, so an offset without a segment is an address.
-/
structure Machine where
  eax : Nat
  ebx : Nat
  ecx : Nat
  edx : Nat
  esi : Nat
  edi : Nat
  ebp : Nat
  sp : Nat
  es : Nat
  mem : Mem
  reads : Nat

/-- Why the loader's code stops before its end. -/
inductive Stop where
  /-- It gives up: `cli` and `hlt`, or a reboot. -/
  | halted
  /-- Control leaves the loader's code: a changed return address, or a divide error. -/
  | lost
  /-- The turns that the model allows for the loop are used up. -/
  | unfinished
  deriving DecidableEq

/-- What a routine ends in. -/
abbrev Run := Except Stop Machine

namespace Machine

/-- The address that `ES:BX` points to. -/
def buffer (m : Machine) : Nat := m.es * 16 + word m.ebx

/-- The address of `ES:DI + offset`. -/
def entry (m : Machine) (offset : Nat) : Nat := m.es * 16 + word (m.edi + offset)

/-- `push` of a value of the given width. -/
def push (m : Machine) (width v : Nat) : Machine :=
  let sp := (m.sp + 2 ^ 16 - width) % 2 ^ 16
  { m with sp, mem := m.mem.write sp width v }

/-- The value that a `pop` of the given width reads. -/
def top (m : Machine) (width : Nat) : Nat := m.mem.read m.sp width

/-- The stack pointer after a `pop`. -/
def drop (m : Machine) (width : Nat) : Machine := { m with sp := (m.sp + width) % 2 ^ 16 }

section Stack

variable (m : Machine) (width v : Nat)

@[simp] theorem push_eax : (m.push width v).eax = m.eax := by
  cases m; simp only [push]

@[simp] theorem push_ebx : (m.push width v).ebx = m.ebx := by
  cases m; simp only [push]

@[simp] theorem push_ecx : (m.push width v).ecx = m.ecx := by
  cases m; simp only [push]

@[simp] theorem push_esi : (m.push width v).esi = m.esi := by
  cases m; simp only [push]

@[simp] theorem push_edi : (m.push width v).edi = m.edi := by
  cases m; simp only [push]

@[simp] theorem push_es : (m.push width v).es = m.es := by
  cases m; simp only [push]

@[simp] theorem push_reads : (m.push width v).reads = m.reads := by
  cases m; simp only [push]

@[simp] theorem drop_eax : (m.drop width).eax = m.eax := by
  cases m; simp only [drop]

@[simp] theorem drop_ebx : (m.drop width).ebx = m.ebx := by
  cases m; simp only [drop]

@[simp] theorem drop_ecx : (m.drop width).ecx = m.ecx := by
  cases m; simp only [drop]

@[simp] theorem drop_esi : (m.drop width).esi = m.esi := by
  cases m; simp only [drop]

@[simp] theorem drop_es : (m.drop width).es = m.es := by
  cases m; simp only [drop]

@[simp] theorem drop_reads : (m.drop width).reads = m.reads := by
  cases m; simp only [drop]

@[simp] theorem drop_mem : (m.drop width).mem = m.mem := by
  cases m; simp only [drop]

@[simp] theorem push_buffer : (m.push width v).buffer = m.buffer := by
  simp only [buffer, push_es, push_ebx]

end Stack

/-- `pusha`, which saves eight words. -/
def pusha (m : Machine) : Machine :=
  let sp := m.sp
  (((((((m.push 2 m.eax).push 2 m.ecx).push 2 m.edx).push 2 m.ebx).push 2 sp).push 2 m.ebp).push 2
    m.esi).push 2 m.edi

/-- `popa`, which skips the saved stack pointer. -/
def popa (m : Machine) : Machine :=
  { m with
    edi := setWord m.edi (m.mem.read m.sp 2)
    esi := setWord m.esi (m.mem.read (m.sp + 2) 2)
    ebp := setWord m.ebp (m.mem.read (m.sp + 4) 2)
    ebx := setWord m.ebx (m.mem.read (m.sp + 8) 2)
    edx := setWord m.edx (m.mem.read (m.sp + 10) 2)
    ecx := setWord m.ecx (m.mem.read (m.sp + 12) 2)
    eax := setWord m.eax (m.mem.read (m.sp + 14) 2)
    sp := (m.sp + 16) % 2 ^ 16 }

/-- `loop` counts `CX` down before it tests it. -/
def countDown (m : Machine) : Machine := { m with ecx := setWord m.ecx (word m.ecx + 2 ^ 16 - 1) }

/-- `call` of a routine, which returns if it leaves the return address in place. -/
def call (returnTo : Nat) (routine : Machine → Run) (m : Machine) : Run := do
  let m ← routine (m.push 2 returnTo)
  if m.top 2 = word returnTo then .ok (m.drop 2) else .error .lost

end Machine

/-- The size of a sector on the drives that hold the volumes. -/
def sectorSize : Nat := 512

/-- The drives with sectors of a size, and how the BIOS answers the calls that are made to it. -/
structure Bios (size : Nat := sectorSize) where
  /-- The bytes of a sector: drive, LBA, offset. -/
  sector : Nat → Nat → Nat → UInt8
  /-- Whether the read of this number sets the carry flag. -/
  fails : Nat → Bool
  /-- The value that the call leaves in `AX`. -/
  status : Nat → Nat
  /-- What a failed read leaves in its own buffer. -/
  garbage : Nat → Nat → UInt8

/-- `int 13h` with `AH = 42h`: read the sectors of the packet at `DS:SI` from drive `DL`. -/
def Bios.read {size : Nat} (bios : Bios size) (m : Machine) : Machine :=
  let packet := word m.esi
  let count := m.mem.read (packet + 2) 2
  let buffer := m.mem.read (packet + 6) 2 * 16 + m.mem.read (packet + 4) 2
  let lba := m.mem.read (packet + 8) 8
  { m with
    eax := setWord m.eax (bios.status m.reads)
    reads := m.reads + 1
    mem := fun x =>
      if buffer ≤ x ∧ x < buffer + count * size then
        if bios.fails m.reads then bios.garbage m.reads (x - buffer)
        else bios.sector (byte m.edx) (lba + (x - buffer) / size) ((x - buffer) % size)
      else m.mem x }

/-- `int 13h` with `AH = 0`: reset the drive. -/
def Bios.reset {size : Nat} (bios : Bios size) (m : Machine) : Machine :=
  { m with eax := setWord m.eax (bios.status m.reads) }

end IncroOS
