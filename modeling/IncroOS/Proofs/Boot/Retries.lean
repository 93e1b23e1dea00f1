import IncroOS.Proofs.Boot.FindFile

/-! `ReadSector` under every pattern of failed reads. -/

namespace IncroOS

open Lib

section Retries

variable {size : Nat}

/-- What `ReadSector` leaves when it returns. -/
structure SectorsDelivered (image : Image) (bios : Bios size) (count : Nat)
    (m m' : Machine) : Prop where
  /-- The sectors lie one behind the other, with their numbers counted in 32 bits. -/
  data : ∀ i < count, ∀ j < size, m'.mem (m.buffer + i * size + j) =
    bios.sector (m.mem image.bPhysicalDriveNum).toNat (dword (m.eax + i)) j
  buffer : m'.buffer = m.buffer + count * size
  si : word m'.esi = word m.esi
  sp : m'.sp = m.sp
  changes : Mem.ChangesOnly m.mem m'.mem
    (image.scratch m.sp ∪ Set.Ico m.buffer (m.buffer + count * size))

/-- Sector by sector, what was read is what was asked for. -/
theorem ReadSectorDone.delivered {image : Image} {bios : Bios size} {count : Nat} {m m' : Machine}
    (done : ReadSectorDone image bios count m m') : SectorsDelivered image bios count m m' := by
  refine ⟨fun i sector j within => ?_, done.read.buffer, done.si, done.read.sp, done.read.changes⟩
  -- Byte `j` of sector `i` is byte `i * size + j` of all.
  have byte : i * size + j < count * size := by
    have last := Nat.mul_le_mul_right size (Nat.succ_le_of_lt sector)
    rw [Nat.succ_mul] at last
    omega
  have number : (i * size + j) / size = i := by
    rw [Nat.mul_comm, Nat.mul_add_div (by omega), Nat.div_eq_of_lt within, Nat.add_zero]
  have offset : (i * size + j) % size = j := by
    rw [Nat.mul_comm, Nat.mul_add_mod, Nat.mod_eq_of_lt within]
  rw [Nat.add_assoc, done.read.data _ byte, number, offset]

/--
`ReadSector` of either stage delivers its sectors or halts.

It halts exactly when five reads in a row fail on one sector, whatever fails before and after.
-/
theorem readSector_delivers_or_halts (stage : Stage) (bios : Bios size) {m : Machine}
    {returnTo count : Nat} (some : 0 < count) (cx : word m.ecx = count)
    (room : stage.image.Room m.sp 16) (segment : m.es < 2 ^ 16)
    (ready : Ready stage.image m.mem size) (spares : stage.image.Spares m.buffer (count * size))
    (fits : m.buffer + count * size ≤ memoryTop) :
    let run := Machine.call returnTo (readSector stage.image bios) m
    ((∃ m', run = .ok m' ∧ SectorsDelivered stage.image bios count m m') ∨
      run = .error .halted) ∧
    (run = .error .halted ↔ bios.Exhausts m.reads count) := by
  intro run
  have meets : Meets run _ _ := call_readSector stage.searches.placed some cx room segment ready
    spares fits
  rw [Bios.exhausts_iff]
  rcases meets.result with ⟨m', returned, done⟩ | ⟨stop, stopped, halted, unserved⟩
  · -- The number of the last read tells that every sector was served.
    have served : bios.firstTry m.reads count ≠ none := by
      rw [done.read.tries]
      exact Option.some_ne_none _
    refine ⟨.inl ⟨m', returned, done.delivered⟩, fun wrong => ?_, fun wrong => absurd wrong served⟩
    rw [returned] at wrong
    exact nomatch wrong
  · rw [halted] at stopped
    exact ⟨.inr stopped, fun _ => unserved, fun _ => stopped⟩

end Retries

/-- A call of `ReadSector` for two sectors, the first of which has the last number of 32 bits. -/
def lastSectorMachine : Machine :=
  { sampleMachine with eax := 0xFFFFFFFF, ebx := 0x7E00, ecx := 2, sp := 0x7C00 }

/-- The buffer at 0x7E00 lies behind all that Boot1 relies on. -/
theorem lastSector_spares :
    sampleBoot1.toImage.Spares lastSectorMachine.buffer (2 * sectorSize) := by
  -- The stack, the drive number and the packet all end below 0x7E00.
  have place : lastSectorMachine.buffer = 0x7E00 := by decide
  have size : sectorSize = 512 := rfl
  have stack : sampleBoot1.stackTop = 0x7C00 := rfl
  have packet : sampleBoot1.dap = 0x7DC0 := rfl
  have drive : sampleBoot1.bPhysicalDriveNum = 0x7C40 := rfl
  have code : sampleBoot1.codeEnd = 0x7E00 := rfl
  intro x above below inside
  rw [Image.mem_held] at inside
  omega

/-- A drive that serves every fourth read only. -/
def stumblingBios : Bios := { sampleBios with fails := fun attempt => attempt % 4 != 3 }

/-- Two sectors are delivered, each at the fourth attempt. -/
theorem readSector_delivers_or_halts_stumbling :
    ∃ m', Machine.call 0x7D00 (readSector sampleBoot1.toImage stumblingBios) lastSectorMachine =
        .ok m' ∧
      SectorsDelivered sampleBoot1.toImage stumblingBios 2 lastSectorMachine m' := by
  obtain ⟨ended, halts⟩ := @readSector_delivers_or_halts _ (.boot1 sampleBoot1) stumblingBios
    lastSectorMachine 0x7D00 2 (by decide) rfl ⟨by decide, by decide⟩ (by decide) ⟨rfl, rfl⟩
    lastSector_spares (by decide)
  rcases ended with delivered | halted
  · exact delivered
  · -- No sector is refused five times.
    have unserved := Bios.exhausts_iff.mp (halts.mp halted)
    exact absurd unserved (by decide)

/-- A drive that never fails, and has ones in its first sector only. -/
def firstSectorBios : Bios :=
  { sampleBios with sector := fun _ lba _ => if lba = 0 then 1 else 0 }

/-- Behind the last number of 32 bits the loader reads sector 0, and not the sector that follows. -/
theorem readSector_wraps_sector_number :
    (∀ k, firstSectorBios.fails k = false) ∧
    (word lastSectorMachine.ecx = 2 ∧ Ready sampleBoot1.toImage lastSectorMachine.mem ∧
      sampleBoot1.toImage.Spares lastSectorMachine.buffer (2 * sectorSize) ∧
      lastSectorMachine.buffer + 2 * sectorSize ≤ memoryTop) ∧
    ∃ m', Machine.call 0x7D00 (readSector sampleBoot1.toImage firstSectorBios)
        lastSectorMachine = .ok m' ∧
      m'.mem (lastSectorMachine.buffer + 512) ≠
        firstSectorBios.sector 0 (lastSectorMachine.eax + 1) 0 := by
  refine ⟨fun _ => rfl, ⟨rfl, ⟨rfl, rfl⟩, lastSector_spares, by decide⟩, ?_⟩
  have meets : Meets (Machine.call 0x7D00 (readSector sampleBoot1.toImage firstSectorBios)
      lastSectorMachine) _ _ :=
    call_readSector sampleBoot1.placed (show 0 < 2 by decide) rfl ⟨by decide, by decide⟩ (by decide)
      ⟨rfl, rfl⟩ lastSector_spares (by decide)
  -- The disk does not fail, so the two sectors are delivered, and the second one is sector 0.
  rcases meets.result with ⟨m', returned, done⟩ | ⟨stop, -, -, unserved⟩
  · refine ⟨m', returned, ?_⟩
    have second := done.delivered.data 1 (by decide) 0 (by decide)
    rw [Nat.add_zero, Nat.one_mul] at second
    rw [show lastSectorMachine.buffer + 512 = lastSectorMachine.buffer + sectorSize from rfl, second]
    decide
  · exact absurd unserved (by decide)

end IncroOS
