import IncroOS.Proofs.Boot.FindFile

/-! Which clusters of a volume the stages read, and whether they follow its chains. -/

namespace IncroOS

open Lib

section Clusters

variable {image : Image} {volume : Volume} {m : Machine} {n : Nat}

/-- `FixCS` keeps the parameter block, and stores the first sector of the data in it. -/
theorem fixCS_geometry (apart : image.bPhysicalDriveNum < 0x7C00 ∨ 0x7C40 ≤ image.bPhysicalDriveNum)
    (mounted : volume.Mounted m.mem) (bound : volume.firstData < 2 ^ 32) :
    ((fixCS image m).mem bSectorsPerCluster).toNat = volume.sectorsPerCluster ∧
      (fixCS image m).mem.read dReserved0 4 = volume.firstData ∧
      (fixCS image m).mem.read dHiddenSectors 4 = volume.hidden := by
  have sectors : bSectorsPerCluster = 0x7C0D := rfl
  have hidden : dHiddenSectors = 0x7C1C := rfl
  have data : dReserved0 = 0x7C34 := rfl
  rw [(fixCS_state image m).2.1]
  -- Only the variable for the first sector is new.
  refine ⟨?_, startMemory_firstData image m.edx mounted apart bound, ?_⟩
  · rw [startMemory_changes image m.edx m.mem (by omega) (by omega), mounted.sectorsPerCluster]
  · rw [← mounted.hidden]
    exact Mem.read_congr fun x above below =>
      startMemory_changes image m.edx m.mem (by omega) (by omega)

/--
`ReadCluster` asks for the first sector of its cluster exactly while the product has 16 bits.

The block is as `FixCS` has left it, and `EAX` is what `ReadSector` is called with.
-/
theorem readCluster_sector_iff (stage : Stage) {start : Machine} (mounted : volume.Mounted start.mem)
    (block : ∀ x, 0x7C00 ≤ x → x < dReserved1 → m.mem x = (fixCS stage.image start).mem x)
    (room : stage.image.Room m.sp 18) (number : m.esi = n) (data : 2 ≤ n)
    (fits : volume.clusterLba n + volume.sectorsPerCluster ≤ 2 ^ 32) :
    (locateCluster m).eax = volume.clusterLba n ↔
      (n - 2) * volume.sectorsPerCluster < 2 ^ 16 := by
  have placed := stage.searches.placed
  have some := volume.positive
  have bound : volume.firstData < 2 ^ 32 := by
    rw [Volume.clusterLba] at fits
    omega
  obtain ⟨sectors, first, hidden⟩ := fixCS_geometry placed.driveBlock mounted bound
  -- The sector that the registers ask for is the one of the low 16 bits.
  have asked := (locateCluster_spec placed room).eax
  rw [clusterSector_congr block, clusterSector_eq sectors first hidden, number] at asked
  rw [asked]
  exact Volume.loadedLba_iff data fits

end Clusters

/-- A volume of 512 MiB in clusters of eight sectors. -/
def largeVolume : Volume where
  sectorsPerCluster := 8
  reserved := 32
  fats := 2
  sectorsPerFat := 1024
  hidden := 0
  rootCluster := 2
  sector := sampleVolume.sector
  positive := by decide

/-- The boot sector's parameter block for that volume, with the first data sector. -/
def largeMemory : Mem := fun x =>
  if x = 0x7C0C then 2 else if x = 0x7C0D then 8 else if x = 0x7C0E then 32
  else if x = 0x7C10 then 2 else if x = 0x7C25 then 4 else if x = 0x7C2C then 2
  else if x = 0x7C34 then 0x20 else if x = 0x7C35 then 8 else if x = 0x7DC0 then 16
  else if x = 0x7DC2 then 1 else 0

theorem large_mounted : largeVolume.Mounted largeMemory := by
  constructor
  all_goals rfl

/-- The machine that starts from that boot sector. -/
def largeMachine : Machine := { sampleMachine with mem := largeMemory }

/-- The machine behind `FixCS`, with a cluster to read. -/
def clusterMachine (n : Nat) : Machine :=
  { largeMachine with mem := (fixCS sampleBoot1.toImage largeMachine).mem, esi := n }

theorem clusterMachine_mem (n : Nat) :
    (clusterMachine n).mem = (fixCS sampleBoot1.toImage largeMachine).mem := by
  rw [clusterMachine]

theorem clusterMachine_room (n : Nat) : sampleBoot1.toImage.Room (clusterMachine n).sp 18 := by
  show sampleBoot1.toImage.Room 0x7C00 18
  exact ⟨by decide, by decide⟩

/-- Cluster 3 is within 16 bits. -/
theorem readCluster_sector_iff_third :
    (locateCluster (clusterMachine 3)).eax = largeVolume.clusterLba 3 ↔
      (3 - 2) * largeVolume.sectorsPerCluster < 2 ^ 16 := by
  -- The machine is the one behind `FixCS`, with another cluster in `ESI`.
  have block : ∀ x, 0x7C00 ≤ x → x < dReserved1 →
      (clusterMachine 3).mem x = (fixCS (Stage.boot1 sampleBoot1).image largeMachine).mem x := by
    intro x above below
    rw [clusterMachine_mem, Stage.image]
  exact readCluster_sector_iff (.boot1 sampleBoot1) large_mounted block (clusterMachine_room 3) rfl
    (by decide) (by decide)

/-- For cluster 8194 the stage asks for the sector of cluster 2, which is 65536 sectors before it. -/
theorem readCluster_sector_truncated :
    largeVolume.clusterLba 8194 = 67616 ∧
      (locateCluster (clusterMachine 8194)).eax = 2080 := by
  -- (8194 - 2) * 8 is 65536, of which 16 bits are kept.
  obtain ⟨sectors, first, hidden⟩ := @fixCS_geometry sampleBoot1.toImage largeVolume largeMachine
    (.inr (by decide)) large_mounted (by decide)
  have located := locateCluster_spec sampleBoot1.placed (clusterMachine_room 8194)
  have asked : (locateCluster (clusterMachine 8194)).eax = largeVolume.loadedLba 8194 :=
    located.eax.trans (clusterSector_eq sectors first hidden 8194)
  exact ⟨by decide, asked.trans (by decide)⟩

section Entries

variable {image : Image} {bios : Bios} {volume : Volume} {m m₁ : Machine} {n : Nat}

/-- The loop goes on with the cluster in the low 28 bits of the entry, unless they end the chain. -/
def FollowsEntry (loop : Nat → Machine → Run) (leave : Run) (entry : Nat) (m m₁ : Machine) : Prop :=
  if entry % 2 ^ 28 < endOfChain then
    m₁.esi = entry % 2 ^ 28 ∧ ∀ fuel, loop (fuel + 1) m = loop fuel m₁
  else ∀ fuel, loop (fuel + 1) m = leave

/-- A loop that tests all 32 bits is right when the upper four are zero or do not matter. -/
theorem followsEntry_iff {loop : Nat → Machine → Run} {leave : Run} {entry : Nat}
    (turn : ∀ fuel, loop (fuel + 1) m = if m₁.esi < endOfChain then loop fuel m₁ else leave)
    (esi : m₁.esi = entry) :
    FollowsEntry loop leave entry m m₁ ↔ entry < 2 ^ 28 ∨ endOfChain ≤ entry % 2 ^ 28 := by
  have limit : endOfChain = 0x0FFFFFF8 := rfl
  have low := Nat.mod_lt entry (show 0 < 2 ^ 28 by omega)
  rw [FollowsEntry]
  rw [esi] at turn ⊢
  -- Either the chain goes on with the entry's low 28 bits, or it ends there.
  split
  · rename_i goes
    constructor
    · rintro ⟨same, -⟩
      omega
    · intro small
      have same : entry = entry % 2 ^ 28 := by omega
      refine ⟨same, fun fuel => ?_⟩
      rw [turn, if_pos (by omega)]
  · rename_i ends
    refine iff_of_true (fun fuel => ?_) (.inr (by omega))
    rw [turn, if_neg (by omega)]

/-- The head of `.cLoop` of `LoadFile`, with room for another cluster. -/
structure Loading (image : Image) (bios : Bios) (volume : Volume) (m : Machine) : Prop where
  prepared : Prepared image bios volume m.mem
  room : image.Room m.sp 44
  segment : m.es < 2 ^ 16
  spares : image.Spares m.buffer volume.clusterSize
  fits : m.buffer + volume.clusterSize ≤ memoryTop

/-- A turn of the loop reads a cluster. -/
theorem Loading.read (searches : image.Searches) (loading : Loading image bios volume m) :
    Meets (Machine.call image.afterReadFile (readCluster image bios) m) bios.GaveUp
      (ClusterRead image bios volume.sectorsPerCluster m) :=
  call_readCluster searches.placed volume.positive loading.prepared.mounted.sectorsPerCluster
    loading.room loading.segment loading.prepared.ready loading.spares loading.fits
    (searches.spares (by decide))

/-- The loop of `LoadFile` tests what it takes for the entry of its cluster. -/
theorem Loading.turn (searches : image.Searches) (loading : Loading image bios volume m)
    (number : m.esi = n)
    (read : Machine.call image.afterReadFile (readCluster image bios) m = .ok m₁) :
    m₁.esi = volume.loadedEntry n ∧
      ∀ fuel, fileLoop image bios (fuel + 1) m =
        if m₁.esi < endOfChain then fileLoop image bios fuel m₁ else .ok m₁ := by
  refine ⟨((loading.read searches).of_ok read).follows loading.prepared (by rw [number]), fun fuel => ?_⟩
  rw [fileLoop, read, ok_bind]

/-- The loop of `FixCS` tests what it takes for the entry of its cluster. -/
theorem Entering.turn (searches : image.Searches) (small : volume.sectorsPerCluster ≤ mostSectors)
    (entering : Entering image bios volume m) (number : m.esi = n)
    (read : Machine.call image.afterReadRoot (readCluster image bios) (openRoot m) = .ok m₁)
    {m₂ : Machine} (scan : scanRoot image m₁ = .passed m₂) :
    (nextRoot m₂).esi = volume.loadedEntry n ∧
      ∀ fuel, rootLoop image bios (fuel + 1) m =
        if (nextRoot m₂).esi < endOfChain then rootLoop image bios fuel (nextRoot m₂)
        else .error .halted := by
  have turn := (readRoot_turn searches small entering).of_ok read
  obtain ⟨-, esi, mem, -, -⟩ := openRoot_spec m
  -- A scan that is passed leaves the saved cluster number on the stack.
  obtain ⟨-, ends⟩ := entryLoop_spec searches.apart turn.scan.scanning (Nat.zero_add 32)
  rw [scanRoot] at scan
  rw [scan] at ends
  obtain ⟨-, next, -⟩ := turn.scan.passed searches ends.passed.2.1 ends.passed.2.2
  have follows := turn.read.follows (by rw [mem]; exact entering.prepared) (by rw [esi, number])
  refine ⟨?_, fun fuel => ?_⟩
  · rw [next, turn.pushed, Mem.read_write_self, follows]
    exact Nat.mod_eq_of_lt (Mem.read_lt _ _ 4)
  · rw [(rootLoop_turn read).1, scanRoot, scan]
    rfl

end Entries

section Follows

variable {bios : Bios} {volume : Volume} {m : Machine} {n : Nat}

/--
What following the FAT is for a cluster: the sector and the offset of its entry are right, the
entry is the volume's, and both loops go on as the low 28 bits of the entry say.
-/
structure Stage.FollowsFat (stage : Stage) (volume : Volume) (n : Nat) (m : Machine) : Prop where
  sector : (locateEntry m).eax = volume.entrySector n
  offset : (locateEntry m).mem.read (m.sp - 2) 2 = 4 * n % sectorSize
  entry : ∀ (bios : Bios) m₁, Prepared stage.image bios volume m.mem →
    getNextCluster stage.image bios m = .ok m₁ → m₁.esi = volume.fatEntry n
  loadFile : ∀ (bios : Bios) m₀ m₁, Loading stage.image bios volume m₀ → m₀.esi = n →
    Machine.call stage.image.afterReadFile (readCluster stage.image bios) m₀ = .ok m₁ →
    FollowsEntry (fileLoop stage.image bios) (.ok m₁) (volume.fatEntry n) m₀ m₁
  root : ∀ (bios : Bios) m₀ m₁ m₂, volume.sectorsPerCluster ≤ mostSectors →
    Entering stage.image bios volume m₀ → m₀.esi = n →
    Machine.call stage.image.afterReadRoot (readCluster stage.image bios) (openRoot m₀) = .ok m₁ →
    scanRoot stage.image m₁ = .passed m₂ →
    FollowsEntry (rootLoop stage.image bios) (.error .halted) (volume.fatEntry n) m₀ (nextRoot m₂)

/-- The drive number is kept below 64 KiB. -/
theorem Stage.drive_low (stage : Stage) : stage.image.bPhysicalDriveNum < 2 ^ 16 := by
  -- Each image places it in its data, which ends at 64 KiB at the latest.
  cases stage with
  | boot1 image =>
    have drive := image.driveNumber
    simp only [Stage.image]
    omega
  | stage2 image =>
    have drive := image.driveNumber
    have sizePlace := image.sizePlace
    have dapLow := image.dapLow
    have dapHigh := image.dapHigh
    simp only [Stage.image]
    omega

/-- The code and the data of a stage end at 64 KiB at the latest. -/
theorem Stage.code_high (stage : Stage) : stage.image.codeEnd ≤ 2 ^ 16 := by
  -- Boot1 is one sector at 0x7C00, and Stage2 ends with the disk address packet.
  cases stage with
  | boot1 image =>
    have sector := image.sector
    simp only [Stage.image]
    omega
  | stage2 image =>
    have packetLast := image.packetLast
    have dapHigh := image.dapHigh
    simp only [Stage.image]
    omega

/-- From 0x20000 on, a cluster lies apart from all that a stage relies on. -/
theorem Stage.spares_high (stage : Stage) {size : Nat} : stage.image.Spares 0x20000 size := by
  -- All that is held lies below 64 KiB.
  have top := stage.searches.placed.stackHigh
  have packet := stage.searches.placed.dapHigh
  have drive := stage.drive_low
  have code := stage.code_high
  intro x above below held
  rw [Image.mem_held] at held
  omega

/-- With the stack empty and its buffer high up, `LoadFile` has room for a cluster. -/
theorem Prepared.loading_high {stage : Stage} (prepared : Prepared stage.image bios volume m.mem)
    (sp : m.sp = stage.image.stackTop) (es : m.es = 0x2000) (ebx : m.ebx = 0) :
    Loading stage.image bios volume m := by
  have low := stage.searches.stackLow
  have sectors := prepared.mounted.sectorsPerCluster
  -- A byte of sectors is less than 128 KiB, which fits below the end of the memory.
  have small := (m.mem bSectorsPerCluster).toNat_lt
  have size : volume.clusterSize = volume.sectorsPerCluster * 512 := rfl
  have top : memoryTop = 0xA0000 := rfl
  have depth : stackSize = 64 := rfl
  have place : m.buffer = 0x20000 := by
    rw [Machine.buffer, es, ebx]
    rfl
  refine ⟨prepared, ⟨by omega, by omega⟩, by omega, ?_, by omega⟩
  rw [place]
  exact stage.spares_high

/-- A cluster can be loaded in some state, from a disk that does not fail. -/
theorem Prepared.loading {stage : Stage} (prepared : Prepared stage.image bios volume m.mem) (n : Nat) :
    ∃ (quiet : Bios) (m₀ m₁ : Machine), Loading stage.image quiet volume m₀ ∧ m₀.esi = n ∧
      Machine.call stage.image.afterReadFile (readCluster stage.image quiet) m₀ = .ok m₁ := by
  -- The disk is the same, but its reads succeed at once.
  have quiet : ∃ quiet : Bios, quiet.Working ∧ Prepared stage.image quiet volume m.mem :=
    ⟨{ bios with fails := fun _ => false }, fun k => ⟨0, by omega, rfl⟩,
      ⟨prepared.ready, prepared.mounted, prepared.firstData, prepared.drive⟩⟩
  have state : ∃ m₀ : Machine, m₀.sp = stage.image.stackTop ∧ m₀.es = 0x2000 ∧ m₀.ebx = 0 ∧
      m₀.mem = m.mem ∧ m₀.esi = n :=
    ⟨{ m with esi := n, sp := stage.image.stackTop, es := 0x2000, ebx := 0 }, rfl, rfl, rfl, rfl, rfl⟩
  obtain ⟨quiet, works, ready⟩ := quiet
  obtain ⟨m₀, sp, es, ebx, mem, esi⟩ := state
  rw [← mem] at ready
  have loading := ready.loading_high sp es ebx
  obtain ⟨m₁, read, -⟩ := works.meets (loading.read stage.searches)
  exact ⟨quiet, m₀, m₁, loading, esi, read⟩

/--
A stage follows the FAT exactly at clusters that 16 bits are enough for and whose entry has no
upper bits that hide the end of the chain.
-/
theorem getNextCluster_follows_iff (stage : Stage)
    (prepared : Prepared stage.image bios volume m.mem) (room : stage.image.Room m.sp 22)
    (number : m.esi = n) :
    stage.FollowsFat volume n m ↔
      4 * n < 2 ^ 16 ∧ volume.entrySector n < 2 ^ 16 ∧
        (volume.fatEntry n < 2 ^ 28 ∨ endOfChain ≤ volume.fatEntry n % 2 ^ 28) := by
  have searches := stage.searches
  have placed := searches.placed
  obtain ⟨low, high⟩ := room
  have located := locateEntry_spec placed ⟨by omega, high⟩ prepared.ready.bytesPerSector
  have asked : (locateEntry m).eax = volume.loadedSector n := by
    rw [located.eax, number, (prepared.loaded n).2]
  constructor
  · -- The asked sector decides the first two conditions, the loop of `LoadFile` the third.
    intro follows
    have sector := follows.sector
    rw [asked] at sector
    obtain ⟨index, small⟩ := Volume.loadedSector_iff.mp sector
    obtain ⟨quiet, m₀, m₁, loading, esi, read⟩ := prepared.loading n
    obtain ⟨taken, turn⟩ := loading.turn searches esi read
    rw [Volume.loadedEntry_eq sector] at taken
    exact ⟨index, small, (followsEntry_iff turn taken).mp (follows.loadFile _ _ _ loading esi read)⟩
  · -- Where both are right, so is the entry that is taken, and either loop tests it alike.
    rintro ⟨index, small, tested⟩
    have sector := Volume.loadedSector_iff.mpr ⟨index, small⟩
    have right := Volume.loadedEntry_eq sector
    refine ⟨asked.trans sector, ?_, ?_, ?_, ?_⟩
    · rw [located.offset, number, fatOffset_eq]
    · intro other m₁ ready fetched
      have done := (getNextCluster_spec placed ⟨low, high⟩ ready.ready
        (searches.spares (by decide))).of_ok fetched
      have fits := fatOffset_fits (word n)
      rw [done.esi, number, ← right, Volume.loadedEntry]
      rw [fatOffset_eq] at fits ⊢
      refine Mem.read_shift fun i within => ?_
      have byte := done.data (4 * n % sectorSize + i) (by omega)
      rwa [number, (ready.loaded n).2, ready.drive, ← Nat.add_assoc] at byte
    · intro other m₀ m₁ loading esi read
      obtain ⟨taken, turn⟩ := loading.turn searches esi read
      exact (followsEntry_iff turn (taken.trans right)).mpr tested
    · intro other m₀ m₁ m₂ few entering esi read scan
      obtain ⟨taken, turn⟩ := entering.turn searches few esi read scan
      exact (followsEntry_iff turn (taken.trans right)).mpr tested

end Follows

/-- A drive that holds the large volume and never fails. -/
def largeBios : Bios := { sampleBios with sector := fun _ => largeVolume.sector }

theorem large_prepared : Prepared sampleBoot1.toImage largeBios largeVolume largeMemory := by
  refine ⟨⟨?_, ?_⟩, large_mounted, ?_, ?_⟩
  all_goals rfl

/-- Cluster 3 is within 16 bits, and its entry ends its chain. -/
theorem getNextCluster_follows_iff_third :
    (Stage.boot1 sampleBoot1).FollowsFat largeVolume 3
        { largeMachine with esi := 3 } ↔
      4 * 3 < 2 ^ 16 ∧ largeVolume.entrySector 3 < 2 ^ 16 ∧
        (largeVolume.fatEntry 3 < 2 ^ 28 ∨ endOfChain ≤ largeVolume.fatEntry 3 % 2 ^ 28) :=
  @getNextCluster_follows_iff largeBios largeVolume { largeMachine with esi := 3 } 3
    (.boot1 sampleBoot1) large_prepared ⟨by decide, by decide⟩ rfl

/-- For cluster 16384 the stage reads the first FAT sector, and not the one 128 sectors behind it. -/
theorem getNextCluster_wraps :
    (locateEntry { largeMachine with esi := 16384 }).eax = 32 ∧
      largeVolume.entrySector 16384 = 160 ∧
      ¬(Stage.boot1 sampleBoot1).FollowsFat largeVolume 16384
        { largeMachine with esi := 16384 } := by
  -- 16384 * 4 is 65536, of which 16 bits are kept.
  have located := @locateEntry_spec sampleBoot1.toImage
    { largeMachine with esi := 16384 } sampleBoot1.placed
    ⟨by decide, by decide⟩ rfl
  have asked : (locateEntry { largeMachine with esi := 16384 }).eax = 32 :=
    located.eax.trans ((large_prepared.loaded 16384).2.trans (by decide))
  have right : largeVolume.entrySector 16384 = 160 := by decide
  refine ⟨asked, right, fun follows => ?_⟩
  have wrong := follows.sector
  rw [asked, right] at wrong
  exact absurd wrong (by decide)

end IncroOS
