import IncroOS.Proofs.Boot.FindFile
import IncroOS.Proofs.Boot.Handover

/-! Stage2 delivers the kernel to 0x100000, but for what the FAT sectors have overwritten. -/

namespace IncroOS

open Lib

/-- The end of the memory that Stage2 loads the kernel to. -/
def kernelAreaEnd : Nat := 0x7C00

/-- The bytes of the kernel's area are not among those that Stage2 needs. -/
theorem Stage2Image.spares_kernel (image : Stage2Image) {size : Nat}
    (fits : 0x500 + size ≤ kernelAreaEnd) : image.Spares image.loadBase size := by
  -- The area ends at 0x7C00, and all that Stage2 relies on lies behind it.
  have base := image.base
  have stack := image.stack
  have drive := image.driveNumber
  have nameLow := image.nameLow
  have sizePlace := image.sizePlace
  have dapLow := image.dapLow
  have start := image.start
  have limit : kernelAreaEnd = 0x7C00 := rfl
  have depth : stackSize = 64 := rfl
  intro x above below held
  rw [Image.mem_held] at held
  omega

section Load

variable {image : Stage2Image} {bios : Bios} {platform : Platform} {volume : Volume} {m : Machine}
  {clusters : List Nat} {fuel : Nat}

/-- Why Stage2 may stop before its jump. -/
def GivesUp (bios : Bios) (platform : Platform) (stop : Stop) : Prop :=
  bios.GaveUp stop ∨ platform.Rejected stop

/-- What is at 0x100000 when control reaches it. -/
structure KernelPlaced (image : Stage2Image) (volume : Volume) (clusters : List Nat) (m : Machine)
    (mem : Mem) : Prop where
  file : ∀ k < m.mem.read image.kernelSize 4, k < 0x3B00 ∨ 0x3D00 ≤ k →
    mem (0x100000 + k) = volume.fileByte clusters k
  fat : ∀ n ∈ clusters.getLast?, ∀ k < m.mem.read image.kernelSize 4, 0x3B00 ≤ k → k < 0x3D00 →
    mem (0x100000 + k) = volume.sector (volume.entrySector n) (k - 0x3B00)

/-- Stage2 gives up, or jumps to the kernel with the last FAT sector in the middle of its file. -/
theorem loadKernel_spec (prepared : Prepared image.toImage bios volume m.mem)
    (stack : m.sp = image.stackTop) (start : clusters.head? = some m.esi)
    (chain : volume.Chain clusters) (reaches : ∀ n ∈ clusters, volume.Reaches n)
    (fits : 0x500 + clusters.length * volume.clusterSize ≤ kernelAreaEnd)
    (size : m.mem.read image.kernelSize 4 ≤ clusters.length * volume.clusterSize)
    (video : ∀ mem, Mem.ChangesOnly mem (platform.setVideoMode mem) videoMemory)
    (enough : clusters.length ≤ fuel) :
    Meets (loadKernel image bios platform fuel m) (GivesUp bios platform)
      (KernelPlaced image volume clusters m) := by
  have base := image.base
  have top := image.stack
  have nameLow := image.nameLow
  have sizePlace := image.sizePlace
  have dapLow := image.dapLow
  have dapHigh := image.dapHigh
  have limit : kernelAreaEnd = 0x7C00 := rfl
  have depth : stackSize = 64 := rfl
  have buffer : fatBuffer = 0x4000 := rfl
  have width : sectorSize = 512 := rfl
  have room : image.Room m.sp 48 := by
    rw [stack]
    exact ⟨by omega, Nat.le_refl _⟩
  have first : ∀ n ∈ clusters.head?, m.esi = n := by
    rw [start]
    exact fun n member => Option.some.inj member
  rw [loadKernel]
  refine Meets.bind ((loadFile_spec image.placed (image.searches.spares (by decide)) (by omega)
    enough prepared chain reaches first room (image.spares_kernel fits) (by
      rw [base]
      exact Nat.le_trans fits (by decide))).allow fun stop gaveUp => .inl gaveUp)
    fun m₁ delivered => ?_
  have sp₁ : m₁.sp = 0x7DFC := by
    rw [delivered.sp, stack, top]
  refine Meets.bind ((checkCPU_spec video (by omega) (by omega)).allow
    fun stop rejected => .inr rejected) fun m₂ changes => ?_
  rw [meets_ok]
  -- Neither the size nor the kernel is where the set-up of the processor writes.
  have size₁ : m₁.mem.read image.kernelSize 4 = m.mem.read image.kernelSize 4 :=
    delivered.changes.read fun x above below inside => by
      simp only [Image.working, Set.mem_union, Image.mem_scratch, Set.mem_Ico] at inside
      have next : dReserved1 = 0x7C38 := rfl
      omega
  have size₂ : m₂.mem.read image.kernelSize 4 = m.mem.read image.kernelSize 4 := by
    rw [← size₁]
    refine changes.read fun x above below inside => ?_
    simp only [mem_videoMemory, Set.mem_union, Set.mem_Ico] at inside
    omega
  have byte : ∀ k < m.mem.read image.kernelSize 4,
      loaderEntry32 image m₂ (0x100000 + k) = m₁.mem (0x500 + k) := fun k within => by
    rw [loaderEntry32_spec (by omega) (by omega)]
    refine changes _ fun inside => ?_
    simp only [mem_videoMemory, Set.mem_union, Set.mem_Ico] at inside
    omega
  refine ⟨fun k within outside => ?_, fun n last k within above below => ?_⟩
  · rw [byte k within, ← base]
    refine delivered.data k (by omega) fun inside => ?_
    simp only [Set.mem_Ico] at inside
    omega
  · rw [byte k within, ← delivered.fat n last (k - 0x3B00) (by omega)]
    exact congrArg _ (by omega)

end Load

/-- A cluster that fits into the kernel's area has at most 32 sectors. -/
theorem sectors_small {volume : Volume} {count : Nat} (some : 0 < count)
    (power : ∃ k, volume.sectorsPerCluster = 2 ^ k)
    (fits : 0x500 + count * volume.clusterSize ≤ 0x7C00) :
    volume.sectorsPerCluster ≤ mostSectors := by
  obtain ⟨k, same⟩ := power
  have one : volume.clusterSize ≤ count * volume.clusterSize := Nat.le_mul_of_pos_left _ some
  have size : volume.clusterSize = volume.sectorsPerCluster * 512 := rfl
  have limit : mostSectors = 53 := rfl
  -- The next power of two behind 32 is too large.
  rcases Nat.lt_or_ge k 6 with low | high
  · have bound : 2 ^ k ≤ 2 ^ 5 := Nat.pow_le_pow_right (by decide) (by omega)
    omega
  · have bound : 2 ^ 6 ≤ 2 ^ k := Nat.pow_le_pow_right (by decide) high
    omega

/--
Stage2 delivers the kernel intact exactly if its file agrees with the last FAT sector where that lies.

The FAT sectors are read to 0x4000, which is 0x3B00 bytes behind the start of the kernel's area.
-/
theorem kernel_delivered_iff (image : Stage2Image) (bios : Bios) (platform : Platform)
    (volume : Volume) {m m₁ : Machine} {clusters : List Nat} {turns fuel : Nat}
    (started : (Stage.stage2 image).Started bios volume m)
    (found : findKernel image bios turns m = .ok m₁) (start : clusters.head? = some m₁.esi)
    (chain : volume.Chain clusters) (reaches : ∀ n ∈ clusters, volume.Reaches n)
    (power : ∃ k, volume.sectorsPerCluster = 2 ^ k)
    (fits : 0x500 + clusters.length * volume.clusterSize ≤ 0x7C00)
    (size : m₁.mem.read image.kernelSize 4 ≤ clusters.length * volume.clusterSize)
    (video : ∀ mem, Mem.ChangesOnly mem (platform.setVideoMode mem) videoMemory)
    (enough : clusters.length ≤ fuel) :
    (∃ mem, loadKernel image bios platform fuel m₁ = .ok mem ∧
      ((∀ k < m₁.mem.read image.kernelSize 4,
          mem (0x100000 + k) = volume.fileByte clusters k) ↔
        ∀ n ∈ clusters.getLast?, ∀ k < m₁.mem.read image.kernelSize 4, 0x3B00 ≤ k → k < 0x3D00 →
          volume.fileByte clusters k = volume.sector (volume.entrySector n) (k - 0x3B00))) ∨
    loadKernel image bios platform fuel m₁ = .error .halted ∧
      (¬platform.Identifies ∨ ∃ attempt, ∀ j < 5, bios.fails (attempt + j) = true) := by
  have some : 0 < clusters.length := List.length_pos_of_mem (List.mem_of_mem_head? start)
  have small := sectors_small some power fits
  have bound := (reaches _ (List.mem_of_mem_head? start)).firstData
  -- The search leaves `LoadFile` with the empty stack, and the kernel is loaded from there.
  have entering := fixCS_spec image.searches started.ready started.mounted started.drive
    started.named bound
  obtain ⟨stack, prepared⟩ := findKernel_keeps image small entering.toEntering found
  have loaded := loadKernel_spec prepared stack start chain reaches fits size video enough
  rcases loaded.result with ⟨mem, jump, placed⟩ | ⟨stop, stopped, reason⟩
  · refine .inl ⟨mem, jump, fun intact n last k within above below => ?_, fun agree k within => ?_⟩
    · rw [← intact k within, placed.fat n last k within above below]
    · -- Outside the last FAT sector's place the file is always intact.
      by_cases inside : 0x3B00 ≤ k ∧ k < 0x3D00
      · have last := List.getLast?_eq_some_getLast (List.ne_nil_of_length_pos some)
        rw [placed.fat _ last k within inside.1 inside.2,
          agree _ last k within inside.1 inside.2]
      · exact placed.file k within (by omega)
  · rcases reason with ⟨halted, failures⟩ | ⟨halted, rejected⟩
    · rw [halted] at stopped
      exact .inr ⟨stopped, .inr failures⟩
    · rw [halted] at stopped
      exact .inr ⟨stopped, .inl rejected⟩

/-- An assembled Stage2 with its data behind 512 bytes of code. -/
def sampleStage2 : Stage2Image where
  codeStart := 0x7E00
  codeEnd := 0x8410
  dap := 0x8400
  bPhysicalDriveNum := 0x800B
  szFile := 0x8000
  stackTop := 0x7E00
  loadBase := 0x500
  afterReadRoot := 0x7E40
  afterReadFile := 0x7EA0
  afterReadSector := 0x7ED0
  afterReadFat := 0x7F50
  afterGetNextCluster := 0x7EE0
  afterLoadFile := 0x7E80
  kernelSize := 0x800C
  loaderEntry64 := 0x8200
  afterDetectCPU := 0x7F70
  afterEnableA20 := 0x7F73
  afterGdtInstall := 0x7F7C
  afterInstallIDT := 0x7F7F
  afterWait turn := 0x7FA0 + 4 * turn
  -- The code starts where Boot1 loads it, and there the stack ends.
  start := sampleBoot1.base
  packetLast := rfl
  stack := sampleBoot1.base
  base := rfl
  nameLow := by decide
  driveNumber := rfl
  sizePlace := rfl
  dapLow := by decide
  dapHigh := by decide

/-- A processor with long mode. -/
def samplePlatform : Platform where
  eflags := 0x202
  eflagsFlipped := 0x200202
  cpuid _ := (0x80000008, 0, 0, 0x20000000)
  controllerStatus _ := 0
  outputPort := 0
  setVideoMode mem := mem
  cr0 := 0x10

/-- The directory entry of a kernel of 16 KiB, which starts at cluster 3. -/
def kernelEntry : List UInt8 :=
  textBytes "KRNLDR  BIN" ++ List.replicate 15 0 ++ [3, 0, 0, 0x40, 0, 0]

/-- A volume of 16 KiB clusters, with the directory in cluster 2 and the kernel in cluster 3. -/
def kernelVolume : Volume where
  sectorsPerCluster := 32
  reserved := 32
  fats := 1
  sectorsPerFat := 8
  hidden := 0
  rootCluster := 2
  sector n i :=
    if n = 40 ∧ i < 32 then kernelEntry.getD i 0
    else if n = 32 then sampleVolume.sector n i
    else 0x90
  positive := by decide

/-- A drive that holds the volume with the kernel and never fails. -/
def kernelBios : Bios := { sampleBios with sector := fun _ => kernelVolume.sector }

/-- Stage2's data, and the boot sector of the volume with the kernel. -/
def kernelMachine : Machine :=
  { sampleMachine with
    mem := fun x =>
      if x = 0x7C0D then 32
      else if 0x8000 ≤ x ∧ x < 0x800B then (textBytes "KRNLDR  BIN").getD (x - 0x8000) 0
      else if x = 0x8402 then 1
      else sampleMemory x }

theorem kernel_started : (Stage.stage2 sampleStage2).Started kernelBios kernelVolume kernelMachine := by
  refine ⟨⟨?_, ?_⟩, ⟨?_, ?_, ?_, ?_, ?_, ?_, ?_⟩, ?_, by decide⟩
  all_goals rfl

theorem kernel_works : kernelBios.Working := fun _ => ⟨0, by decide, rfl⟩

/-- The directory and the kernel are one cluster each. -/
theorem kernel_chains : kernelVolume.Chain [2] ∧ kernelVolume.Chain [3] := by
  refine ⟨⟨?_, ?_⟩, ?_, ?_⟩
  all_goals decide

theorem kernel_reaches : (∀ n ∈ [2], kernelVolume.Reaches n) ∧ ∀ n ∈ [3], kernelVolume.Reaches n := by
  -- Both chains have one cluster, with a small number.
  refine ⟨fun n member => ?_, fun n member => ?_⟩
  · obtain rfl := List.mem_singleton.mp member
    constructor <;> decide
  · obtain rfl := List.mem_singleton.mp member
    constructor <;> decide

/-- The kernel's entry is the first one of the directory, and Stage2 finds it. -/
theorem kernel_found : ∃ m, findKernel sampleStage2 kernelBios 1 kernelMachine = .ok m ∧
    m.esi = 3 ∧ m.mem.read sampleStage2.kernelSize 4 = 0x4000 := by
  -- The first entry of the directory stops the scan, and its fields are read.
  have stop : kernelVolume.stops (textBytes "KRNLDR  BIN") (2, 0) = true := by decide
  have searching : Searching sampleStage2.toImage kernelBios kernelVolume (textBytes "KRNLDR  BIN") 2
      (fixCS sampleStage2.toImage kernelMachine) :=
    kernel_started.searching (kernel_reaches.1 2 (by decide))
  obtain ⟨m₁, loop, found⟩ := rootLoop_first sampleStage2.searches kernel_works (by decide)
    (kernel_reaches.1 2 (by decide)) searching stop (by decide) 0
  obtain ⟨m, returned, esi, size⟩ := findKernel_found sampleStage2 loop found
  exact ⟨m, returned, esi.trans (by decide), size.trans (by decide)⟩

/-- The sample processor is identified, and its video BIOS changes nothing. -/
theorem sample_identifies : samplePlatform.Identifies := by
  constructor <;> decide

theorem sample_video (mem : Mem) :
    Mem.ChangesOnly mem (samplePlatform.setVideoMode mem) videoMemory := Mem.ChangesOnly.refl _ _

/-- A kernel of 16 KiB is delivered or not, as the theorem says. -/
theorem kernel_delivered_found :
    ∃ m₁, findKernel sampleStage2 kernelBios 1 kernelMachine = .ok m₁ ∧
      ((∃ mem, loadKernel sampleStage2 kernelBios samplePlatform 1 m₁ = .ok mem ∧
        ((∀ k < m₁.mem.read sampleStage2.kernelSize 4,
            mem (0x100000 + k) = kernelVolume.fileByte [3] k) ↔
          ∀ n ∈ [3].getLast?, ∀ k < m₁.mem.read sampleStage2.kernelSize 4,
            0x3B00 ≤ k → k < 0x3D00 →
            kernelVolume.fileByte [3] k =
              kernelVolume.sector (kernelVolume.entrySector n) (k - 0x3B00))) ∨
      loadKernel sampleStage2 kernelBios samplePlatform 1 m₁ = .error .halted ∧
        (¬samplePlatform.Identifies ∨
          ∃ attempt, ∀ j < 5, kernelBios.fails (attempt + j) = true)) := by
  -- Stage2 finds the file, so the theorem applies to what it was found at.
  obtain ⟨m₁, found, esi, size⟩ := kernel_found
  exact ⟨m₁, found, kernel_delivered_iff sampleStage2 kernelBios samplePlatform kernelVolume
    kernel_started found (congrArg some esi.symm) kernel_chains.2 kernel_reaches.2 ⟨5, rfl⟩
    (by decide) (Nat.le_of_eq size) sample_video (Nat.le_refl 1)⟩

/--
A kernel of 16 KiB reaches 0x100000 with a FAT sector in it.

Its byte 0x3B00 is 0x90 in the file, and 0xFF in the FAT sector.
-/
theorem kernel_overwritten :
    ∃ m₁ mem, findKernel sampleStage2 kernelBios 1 kernelMachine = .ok m₁ ∧
      m₁.esi = 3 ∧ m₁.mem.read sampleStage2.kernelSize 4 = 0x4000 ∧
      loadKernel sampleStage2 kernelBios samplePlatform 1 m₁ = .ok mem ∧
      ¬∀ k < 0x4000, mem (0x100000 + k) = kernelVolume.fileByte [3] k := by
  obtain ⟨m₁, found, esi, size⟩ := kernel_found
  have entering := kernel_started.searching (kernel_reaches.1 2 (by decide))
  obtain ⟨stack, prepared⟩ :=
    findKernel_keeps sampleStage2 (show 32 ≤ mostSectors by decide) entering.toEntering found
  have loaded : Meets (loadKernel sampleStage2 kernelBios samplePlatform 1 m₁)
      (GivesUp kernelBios samplePlatform) (KernelPlaced sampleStage2 kernelVolume [3] m₁) :=
    loadKernel_spec prepared stack (congrArg some esi.symm) kernel_chains.2 kernel_reaches.2
      (by decide) (Nat.le_of_eq size) sample_video (Nat.le_refl 1)
  -- Nothing can stop the loader here, and the byte at 0x4000 is one of the FAT.
  rcases loaded.result with ⟨mem, jump, placed⟩ | ⟨stop, -, ⟨-, k, failures⟩ | ⟨-, rejected⟩⟩
  · refine ⟨m₁, mem, found, esi, size, jump, fun intact => ?_⟩
    have fat := placed.fat 3 rfl 0x3B00 (by omega) (by decide) (by decide)
    rw [intact 0x3B00 (by decide)] at fat
    exact absurd fat (by decide)
  · have failed := failures 0 (by decide)
    cases failed
  · exact absurd sample_identifies rejected

end IncroOS
