import IncroOS.Boot.Boot1
import IncroOS.Proofs.Boot.Files

/-! Boot1 delivers Stage2 to 0x7E00, whatever the file's size and fragmentation. -/

namespace IncroOS

open Lib

variable (image : Boot1Image)

/-- Boot1 keeps its stack below the boot sector, and its data in it. -/
theorem Boot1Image.placed : image.Placed := by
  -- Each condition follows from the places that the image gives.
  have drive := image.driveNumber
  have stack := image.stack
  have dapLow := image.dapLow
  have dapHigh := image.dapHigh
  have size : stackSize = 64 := rfl
  constructor <;> omega

/-- Everything from 0x7E00 on is free for Stage2. -/
theorem Boot1Image.spares_stage2 (size : Nat) : image.Spares image.loadBase size := by
  -- The boot sector ends at 0x7E00, and the stack lies below it.
  have drive := image.driveNumber
  have stack := image.stack
  have base := image.base
  have dapHigh := image.dapHigh
  have sector := image.sector
  intro x above below held
  rw [Image.mem_held] at held
  omega

/-- Boot1 reads FAT sectors to memory that it does not use otherwise. -/
theorem Boot1Image.spares_fat : image.Spares fatBuffer sectorSize := by
  -- The buffer ends at 0x4200, below the stack and the code.
  have drive := image.driveNumber
  have stack := image.stack
  have dapLow := image.dapLow
  have code := image.start
  have start : fatBuffer = 0x4000 := rfl
  have width : sectorSize = 512 := rfl
  have size : stackSize = 64 := rfl
  intro x above below held
  rw [Image.mem_held] at held
  omega

/--
Boot1 jumps to 0x7E00 with the clusters of Stage2's file there, one behind the other.

It stops before only if the disk fails five times in a row.
-/
theorem stage2_delivered (image : Boot1Image) (bios : Bios) (volume : Volume) {m : Machine}
    {clusters : List Nat} {fuel : Nat} (prepared : Prepared image.toImage bios volume m.mem)
    (stack : m.sp = image.stackTop) (start : clusters.head? = some m.esi)
    (chain : volume.Chain clusters) (reaches : ∀ n ∈ clusters, volume.Reaches n)
    (fits : 0x7E00 + clusters.length * volume.clusterSize ≤ 0xA0000)
    (enough : clusters.length ≤ fuel) :
    (∃ m', loadFile image.toImage bios fuel m = .ok m' ∧
      ∀ k < clusters.length * volume.clusterSize,
        m'.mem (0x7E00 + k) = volume.fileByte clusters k) ∨
    loadFile image.toImage bios fuel m = .error .halted ∧
      ∃ attempt, ∀ j < 5, bios.fails (attempt + j) = true := by
  have base := image.base
  have placed := image.placed
  have size : stackSize = 64 := rfl
  have room : image.Room m.sp 48 := by
    have low := placed.stackLow
    rw [stack]
    exact ⟨by omega, Nat.le_refl _⟩
  have first : ∀ n ∈ clusters.head?, m.esi = n := by
    rw [start]
    exact fun n member => Option.some.inj member
  have loaded := loadFile_spec placed image.spares_fat (by omega) enough prepared chain reaches
    first room (image.spares_stage2 _) (by rw [base]; exact fits)
  rcases loaded.result with ⟨m', jump, delivered⟩ | ⟨stop, stopped, halted, failures⟩
  · refine .inl ⟨m', jump, fun k within => ?_⟩
    have data := delivered.data k within
    rw [base] at data
    -- The file lies above the buffer for FAT sectors.
    refine data fun inside => ?_
    have high := inside.2
    have start : fatBuffer = 0x4000 := rfl
    have width : sectorSize = 512 := rfl
    omega
  · rw [halted] at stopped
    exact .inr ⟨stopped, failures⟩

/-- An assembled Boot1 with its data behind its code. -/
def sampleBoot1 : Boot1Image where
  codeStart := 0x7C00
  codeEnd := 0x7E00
  dap := 0x7DC0
  bPhysicalDriveNum := 0x7C40
  szFile := 0x7DB0
  stackTop := 0x7C00
  loadBase := 0x7E00
  afterReadRoot := 0x7C90
  afterReadFile := 0x7CD0
  afterReadSector := 0x7D00
  afterReadFat := 0x7D70
  afterGetNextCluster := 0x7D20
  afterLoadFile := 0x7CC0
  start := rfl
  sector := rfl
  driveNumber := rfl
  stack := rfl
  base := rfl
  dapLow := by decide
  dapHigh := by decide
  nameLow := by decide
  nameHigh := by decide

/-- A volume of single sectors, each of whose FAT entries ends a chain. -/
def sampleVolume : Volume where
  sectorsPerCluster := 1
  reserved := 32
  fats := 1
  sectorsPerFat := 8
  hidden := 0
  rootCluster := 2
  sector _ i := if i % 4 = 3 then 0x0F else 0xFF
  positive := Nat.one_pos

/-- A drive that holds the sample volume and never fails. -/
def sampleBios : Bios where
  sector _ := sampleVolume.sector
  fails _ := false
  status _ := 0
  garbage _ _ := 0

/-- The boot sector's parameter block for the sample volume, with the first data sector. -/
def sampleMemory : Mem := fun x =>
  if x = 0x7C0C then 2 else if x = 0x7C0D then 1 else if x = 0x7C0E then 32
  else if x = 0x7C10 then 1 else if x = 0x7C24 then 8 else if x = 0x7C2C then 2
  else if x = 0x7C34 then 40 else if x = 0x7DC0 then 16 else if x = 0x7DC2 then 1 else 0

/-- Everything `LoadFile` needs is in the sample memory. -/
theorem sample_prepared : Prepared sampleBoot1.toImage sampleBios sampleVolume sampleMemory := by
  -- Every field is a fixed number read from fixed bytes.
  refine ⟨⟨?_, ?_⟩, ⟨?_, ?_, ?_, ?_, ?_, ?_, ?_⟩, ?_, ?_⟩
  all_goals rfl

/-- The machine at the entry of `LoadFile`, for a file that starts at cluster 2. -/
def sampleMachine : Machine where
  eax := 0
  ebx := 0
  ecx := 0
  edx := 0
  esi := 2
  edi := 0
  ebp := 0
  sp := 0x7C00
  es := 0
  mem := sampleMemory
  reads := 0

/-- A volume of 64 sectors per cluster with a file of three clusters, which is 3, 5 and then 4. -/
def fragmentedVolume : Volume where
  sectorsPerCluster := 64
  reserved := 32
  fats := 1
  sectorsPerFat := 8
  hidden := 0
  rootCluster := 2
  sector n i :=
    -- Each entry takes four bytes, and the last one ends the chain.
    if n = 32 then (if i = 12 then 5 else if i = 20 then 4 else if i = 16 then 0xFF
      else if i = 17 then 0xFF else if i = 18 then 0xFF else if i = 19 then 0x0F else 0)
    else UInt8.ofNat n
  positive := by decide

/-- A drive with this volume on which every second attempt fails. -/
def fragmentedBios : Bios :=
  { sampleBios with sector := fun _ => fragmentedVolume.sector, fails := fun attempt => attempt % 2 == 0 }

/-- The machine at the entry of `LoadFile`, for the file at cluster 3. -/
def fragmentedMachine : Machine :=
  { sampleMachine with
    esi := 3
    mem := fun x => if x = 0x7C0D then 64 else sampleMemory x }

theorem fragmented_prepared :
    Prepared sampleBoot1.toImage fragmentedBios fragmentedVolume fragmentedMachine.mem := by
  refine ⟨⟨?_, ?_⟩, ⟨?_, ?_, ?_, ?_, ?_, ?_, ?_⟩, ?_, ?_⟩
  all_goals rfl

/-- The entries link the clusters in the order of the file. -/
theorem fragmented_chain : fragmentedVolume.Chain [3, 5, 4] := by
  refine ⟨?_, ?_, ?_, ?_⟩
  all_goals decide

theorem fragmented_reaches : ∀ n ∈ [3, 5, 4], fragmentedVolume.Reaches n := by
  -- The three clusters have small numbers.
  intro n member
  simp only [List.mem_cons, List.not_mem_nil, or_false] at member
  rcases member with rfl | rfl | rfl
  · constructor <;> decide
  · constructor <;> decide
  · constructor <;> decide

/-- A file of three clusters is delivered across the end of the first segment, with a retry each time. -/
theorem stage2_delivered_fragmented :
    ∃ m', loadFile sampleBoot1.toImage fragmentedBios 3 fragmentedMachine = .ok m' ∧
      ∀ k < 3 * 0x8000, m'.mem (0x7E00 + k) = fragmentedVolume.fileByte [3, 5, 4] k := by
  rcases stage2_delivered sampleBoot1 fragmentedBios fragmentedVolume fragmented_prepared rfl rfl
    fragmented_chain fragmented_reaches (by decide) (Nat.le_refl 3) with delivered | ⟨-, attempt, failed⟩
  · exact delivered
  · -- Of two attempts in a row one succeeds.
    have first := failed 0 (by decide)
    have second := failed 1 (by decide)
    simp only [fragmentedBios, beq_iff_eq] at first second
    omega

end IncroOS
