import IncroOS.Proofs.Boot.RootDirectory
import IncroOS.Proofs.Boot.Stage1

/-! From `FixCS` to `LoadFile`: when a stage finds its file in the root directory. -/

namespace IncroOS

open Lib

section Start

variable {image : Image} {bios : Bios} {volume : Volume} {name : List UInt8} {m : Machine}

/-- What `FixCS` stores before the search: the drive number, and the first sector of the data. -/
def startMemory (image : Image) (edx : Nat) (mem : Mem) : Mem :=
  let mem := mem.set image.bPhysicalDriveNum (UInt8.ofNat (byte edx))
  mem.write dReserved0 4 (dword (dword ((mem bNumFATs).toNat * mem.read dSectorsPerFat32 4) +
    word (mem.read wReservedSectors 2)))

/-- The state in which `FixCS` enters the search. -/
theorem fixCS_state (image : Image) (m : Machine) :
    (fixCS image m).sp = word image.stackTop ∧
      (fixCS image m).mem = startMemory image m.edx m.mem ∧
      (fixCS image m).esi = (startMemory image m.edx m.mem).read dRootDirStart 4 := by
  cases m
  simp only [fixCS, startMemory, word_setWord, setByte_zero, setWord_zero, byte_toNat, and_self]

/-- The first sector of the data has a number of 32 bits, as those of the clusters have. -/
theorem Volume.Reaches.firstData {n : Nat} (reaches : volume.Reaches n) :
    volume.firstData < 2 ^ 32 := by
  -- The first sector of a cluster is at least the first one of the data.
  have fits := reaches.fits
  have some := volume.positive
  rw [Volume.clusterLba] at fits
  omega

/-- `FixCS` stores two numbers, and changes nothing else. -/
theorem startMemory_changes (image : Image) (edx : Nat) (mem : Mem) {x : Nat}
    (drive : x ≠ image.bPhysicalDriveNum) (data : x < dReserved0 ∨ dReserved0 + 4 ≤ x) :
    startMemory image edx mem x = mem x := by
  rw [startMemory]
  rw [Mem.write_apart _ data, Mem.set_other _ _ drive]

/-- `FixCS` finds the first sector of the data. -/
theorem startMemory_firstData (image : Image) (edx : Nat) {mem : Mem} (mounted : volume.Mounted mem)
    (apart : image.bPhysicalDriveNum < 0x7C00 ∨ 0x7C40 ≤ image.bPhysicalDriveNum)
    (bound : volume.firstData < 2 ^ 32) :
    (startMemory image edx mem).read dReserved0 4 = volume.firstData := by
  have fats : bNumFATs = 0x7C10 := rfl
  have perFat : dSectorsPerFat32 = 0x7C24 := rfl
  have reserved : wReservedSectors = 0x7C0E := rfl
  have small := mem.read_lt wReservedSectors 2
  rw [Volume.firstData] at bound ⊢
  rw [startMemory]
  -- The drive number is written first, and is no field of the parameter block.
  rw [Mem.read_write_self, Mem.set_other _ _ (by omega), Mem.read_set_apart _ _ (by omega),
    Mem.read_set_apart _ _ (by omega), mounted.fats, mounted.sectorsPerFat, word_of_lt small,
    mounted.reserved, @dword_of_lt (volume.fats * volume.sectorsPerFat) (by omega),
    dword_of_lt bound]
  exact Nat.mod_eq_of_lt bound

/-- `FixCS` enters the search with all that it relies on. -/
theorem fixCS_spec (searches : image.Searches) (ready : Ready image m.mem)
    (mounted : volume.Mounted m.mem) (drive : bios.sector (byte m.edx) = volume.sector)
    (named : ∀ j < 11, m.mem (image.szFile + j) = name.getD j 0)
    (bound : volume.firstData < 2 ^ 32) :
    Searching image bios volume name volume.rootCluster (fixCS image m) := by
  obtain ⟨sp, mem, esi⟩ := fixCS_state image m
  have placed := searches.placed
  have top := placed.stackHigh
  have block := placed.driveBlock
  have packet := placed.dapDrive
  have dapBlock := placed.dapBlock
  have driveLow := searches.driveLow
  have nameLow := searches.nameLow
  have nameDrive := searches.nameDrive
  have data : dReserved0 = 0x7C34 := rfl
  have perCluster : bSectorsPerCluster = 0x7C0D := rfl
  have fats : bNumFATs = 0x7C10 := rfl
  have same := fun x => @startMemory_changes image m.edx m.mem x
  have first := startMemory_firstData image m.edx mounted block bound
  -- The drive number is what the BIOS has left in `DL`.
  have number : (startMemory image m.edx m.mem image.bPhysicalDriveNum).toNat = byte m.edx := by
    have small : byte m.edx < 2 ^ 8 := Nat.mod_lt _ (by decide)
    rw [startMemory]
    rw [Mem.write_apart _ (by omega), Mem.set_self, UInt8.toNat_ofNat']
    exact Nat.mod_eq_of_lt small
  generalize startMemory image m.edx m.mem = mem' at mem esi same first number
  -- All the fields of the volume lie below the variable for the first sector.
  have fields : ∀ a width, 0x7C00 ≤ a → a + width ≤ dReserved0 →
      mem'.read a width = m.mem.read a width := fun a width low high =>
    Mem.read_congr fun x above below => same x (by omega) (by omega)
  rw [fields _ _ (by decide) (by decide), mounted.rootCluster] at esi
  refine ⟨⟨?_, sp.trans (word_of_lt top)⟩, esi, fun j within => ?_⟩
  · rw [mem]
    refine ⟨⟨?_, ?_⟩, ⟨?_, ?_, ?_, ?_, ?_, ?_, ?_⟩, first, by rw [number, drive]⟩
    · rw [← ready.count]
      exact Mem.read_congr fun x above below => same x (by omega) (by omega)
    · rw [fields _ _ (by decide) (by decide), ready.bytesPerSector]
    · rw [fields _ _ (by decide) (by decide), mounted.bytesPerSector]
    · rw [same _ (by omega) (.inl (by decide)), mounted.sectorsPerCluster]
    · rw [fields _ _ (by decide) (by decide), mounted.reserved]
    · rw [same _ (by omega) (.inl (by decide)), mounted.fats]
    · rw [fields _ _ (by decide) (by decide), mounted.hidden]
    · rw [fields _ _ (by decide) (by decide), mounted.sectorsPerFat]
    · rw [fields _ _ (by decide) (by decide), mounted.rootCluster]
  · rw [mem, same _ (by omega) (by omega)]
    exact named j within

/-- A field of the entry that was found. -/
theorem EntryFound.field {place : Nat × Nat} (found : EntryFound image bios volume place m)
    {j width : Nat} (within : j + width ≤ 32) :
    m.mem.read (m.entry j) width = Mem.read (volume.entryByte place) j width := by
  -- The addresses of the entry do not wrap, so its bytes are read one after the other.
  obtain ⟨i, bound, address⟩ := found.address
  refine Mem.read_shift fun k inside => ?_
  have byte := found.bytes (j + k) (by omega)
  rwa [address (j + k) (by omega), ← Nat.add_assoc, ← address j (by omega)] at byte

/-- The two words on the stack are read back as one double word. -/
theorem firstCluster_state (room : 8 ≤ m.sp) (bound : m.sp + 4 < 2 ^ 16)
    (apart : m.entry 0x1A + 2 ≤ m.sp - 2) :
    (firstCluster m).sp = m.sp + 4 ∧
      (firstCluster m).esi =
        word (m.mem.read (m.entry 0x1A) 2) + 2 ^ 16 * word (m.mem.read (m.entry 0x14) 2) ∧
      Mem.ChangesOnly m.mem (firstCluster m).mem (Set.Ico (m.sp - 4) m.sp) := by
  have first : (m.sp + 2 ^ 16 - 2) % 2 ^ 16 = m.sp - 2 := by omega
  have second : (m.sp - 2 + 2 ^ 16 - 2) % 2 ^ 16 = m.sp - 4 := by omega
  have third : (m.sp - 4 + 4) % 2 ^ 16 = m.sp := by omega
  have last : (m.sp + 4) % 2 ^ 16 = m.sp + 4 := by omega
  have upper : m.sp - 4 + 2 = m.sp - 2 := by omega
  -- The entry's address does not depend on the stack.
  have address : ∀ j, (m.push 2 (m.mem.read (m.entry 0x14) 2)).entry j = m.entry j := fun j => by
    simp only [Machine.entry, Machine.push_es, Machine.push_edi]
  rw [firstCluster, address]
  generalize m.entry 0x14 = high at address ⊢
  generalize m.entry 0x1A = low at apart ⊢
  cases m
  dsimp only at room bound apart first second third last upper ⊢
  simp (disch := omega) only [Machine.push, Machine.drop, Machine.top, first, second, third, last,
    Mem.read_write_apart, true_and]
  refine ⟨?_, fun x outside => ?_⟩
  · rw [show 4 = 2 + 2 from rfl, Mem.read_add, Mem.read_write_self, upper,
      Mem.read_write_apart _ (by omega), Mem.read_write_self]
    rfl
  · simp only [Set.mem_Ico, not_and_or] at outside
    simp (disch := omega) only [Mem.write_apart]

/-- The entry lies below the stack. -/
theorem AtEntry.below (searches : image.Searches) (found : AtEntry image bios volume m) {j : Nat}
    (inside : j < 32) : m.entry j + 16 ≤ m.sp := by
  -- The entry is one of the 32 in the buffer, which ends below the stack.
  have low := searches.stackLow
  have start : rootBuffer = 0x1000 := rfl
  have sp := found.sp
  obtain ⟨i, bound, address⟩ := found.address
  rw [address j inside]
  omega

/-- The stack is back where it was before the search, and all that the routines need is kept. -/
theorem AtEntry.fetched (searches : image.Searches) (found : AtEntry image bios volume m) :
    (firstCluster m).sp = image.stackTop ∧ Prepared image bios volume (firstCluster m).mem ∧
      Mem.ChangesOnly m.mem (firstCluster m).mem
        (Set.Ico (image.stackTop - 8) (image.stackTop - 4)) := by
  have low := searches.stackLow
  have high := searches.placed.stackHigh
  have depth : stackSize = 64 := rfl
  have sp := found.sp
  have below := found.below searches (show 0x1A < 32 by omega)
  obtain ⟨stack, -, changes⟩ := @firstCluster_state m (by omega) (by omega) (by omega)
  -- Only the saved cluster number is pushed on the way.
  have region : m.sp - 4 = image.stackTop - 8 := by omega
  rw [region, sp] at changes
  exact ⟨by omega, (searches.kept (by omega) (by omega) changes found.prepared).1, changes⟩

/-- The search hands over the number of the first cluster. -/
theorem EntryFound.cluster (searches : image.Searches) {place : Nat × Nat}
    (found : EntryFound image bios volume place m) :
    (firstCluster m).esi = volume.entryCluster place := by
  have low := searches.stackLow
  have high := searches.placed.stackHigh
  have depth : stackSize = 64 := rfl
  have sp := found.sp
  have below := found.below searches (show 0x1A < 32 by omega)
  obtain ⟨-, esi, -⟩ := @firstCluster_state m (by omega) (by omega) (by omega)
  -- The two halves of the number are read below the stack, so the push does not hide them.
  rw [found.field (by omega), found.field (by omega), word_of_lt (Mem.read_lt _ _ 2),
    word_of_lt (Mem.read_lt _ _ 2)] at esi
  rw [esi, Volume.entryCluster]
  omega

end Start

section Stages

/-- Boot1 keeps its name, its packet and its drive number in the boot sector, above its stack. -/
theorem Boot1Image.searches (image : Boot1Image) : image.Searches := by
  -- The order of the addresses in the boot sector settles every part.
  have drive := image.driveNumber
  have stack := image.stack
  have nameLow := image.nameLow
  have nameHigh := image.nameHigh
  have dapHigh := image.dapHigh
  have start := image.start
  have size : stackSize = 64 := rfl
  exact ⟨image.placed, by omega, by omega, by omega, by omega, by omega, by omega, by omega, nameHigh,
    by omega⟩

/-- Stage2 keeps its stack below its code, and its data behind it. -/
theorem Stage2Image.placed (image : Stage2Image) : image.Placed := by
  -- Every part is a comparison of addresses that the layout fixes.
  have stack := image.stack
  have drive := image.driveNumber
  have sizePlace := image.sizePlace
  have nameLow := image.nameLow
  have dapLow := image.dapLow
  have dapHigh := image.dapHigh
  have size : stackSize = 64 := rfl
  constructor <;> omega

/-- Stage2's name comes first in its data. -/
theorem Stage2Image.searches (image : Stage2Image) : image.Searches := by
  -- Each bound is one of the image's own.
  have stack := image.stack
  have drive := image.driveNumber
  have sizePlace := image.sizePlace
  have nameLow := image.nameLow
  have dapLow := image.dapLow
  have dapHigh := image.dapHigh
  have start := image.start
  have size : stackSize = 64 := rfl
  exact ⟨image.placed, by omega, by omega, by omega, by omega, by omega, by omega, by omega, by omega,
    by omega⟩

theorem Stage.searches (stage : Stage) : stage.image.Searches := by
  cases stage with
  | boot1 image => exact image.searches
  | stage2 image => exact image.searches

variable {bios : Bios} {volume : Volume} {place : Nat × Nat} {m : Machine} {fuel : Nat}

/-- Storing the size of the kernel leaves the scan at its entry. -/
theorem AtEntry.store {image : Stage2Image} (found : AtEntry image.toImage bios volume m)
    (size eax : Nat) :
    AtEntry image.toImage bios volume { m with eax, mem := m.mem.write image.kernelSize 4 size } := by
  -- The four bytes lie between the drive number and the packet.
  have drive := image.driveNumber
  have sizePlace := image.sizePlace
  have nameLow := image.nameLow
  have dapLow := image.dapLow
  have next : dReserved1 = 0x7C38 := rfl
  have changes := Mem.write_changes m.mem image.kernelSize 4 size
  refine ⟨found.prepared.congr (changes.read fun x above below => ?_) (fun x above below => ?_) ?_,
    found.sp, found.address⟩
  · simp only [Set.mem_Ico]
    omega
  · refine changes x ?_
    simp only [Set.mem_Ico]
    omega
  · refine changes _ ?_
    simp only [Set.mem_Ico]
    omega

/-- The entry's bytes lie below the place for the size of the kernel. -/
theorem EntryFound.store {image : Stage2Image}
    (found : EntryFound image.toImage bios volume place m) (size eax : Nat) :
    EntryFound image.toImage bios volume place
      { m with eax, mem := m.mem.write image.kernelSize 4 size } := by
  have stack := image.stack
  have sizePlace := image.sizePlace
  have nameLow := image.nameLow
  have sp := found.sp
  refine ⟨found.toAtEntry.store size eax, fun j inside => ?_⟩
  have below := found.below image.searches inside
  -- The place for the size lies in Stage2's data, above the buffer.
  have apart : m.entry j < image.kernelSize := by omega
  exact (Mem.write_apart _ (.inl apart)).trans (found.bytes j inside)

/-- What Boot1's search hands over to `LoadFile`. -/
theorem findStage2_found (image : Boot1Image) {m₁ : Machine}
    (loop : rootLoop image.toImage bios fuel (fixCS image.toImage m) = .ok m₁)
    (found : EntryFound image.toImage bios volume place m₁) :
    ∃ m', findStage2 image bios fuel m = .ok m' ∧ m'.esi = volume.entryCluster place := by
  rw [findStage2, loop, ok_bind]
  exact ⟨_, rfl, found.cluster image.searches⟩

/-- What Stage2's search hands over to `LoadFile`, with the size of the kernel. -/
theorem findKernel_found (image : Stage2Image) {m₁ : Machine}
    (loop : rootLoop image.toImage bios fuel (fixCS image.toImage m) = .ok m₁)
    (found : EntryFound image.toImage bios volume place m₁) :
    ∃ m', findKernel image bios fuel m = .ok m' ∧ m'.esi = volume.entryCluster place ∧
      m'.mem.read image.kernelSize 4 = volume.entrySize place := by
  have stack := image.stack
  have sizePlace := image.sizePlace
  have nameLow := image.nameLow
  have size := found.field (show 0x1C + 4 ≤ 32 by decide)
  have stored := found.store (m₁.mem.read (m₁.entry 0x1C) 4) (m₁.mem.read (m₁.entry 0x1C) 4)
  obtain ⟨-, -, changes⟩ := stored.toAtEntry.fetched image.searches
  rw [findKernel, loop, ok_bind]
  refine ⟨_, rfl, stored.cluster image.searches, ?_⟩
  -- The push on the way to `LoadFile` leaves the size alone.
  rw [changes.read fun x above below => by
    simp only [Set.mem_Ico]
    omega]
  rw [Mem.read_write_self, size]
  exact Nat.mod_eq_of_lt (Mem.read_lt _ _ 4)

/-- Whatever Stage2's search has found, `LoadFile` starts with the stack and all that it needs. -/
theorem findKernel_keeps (image : Stage2Image) {m' : Machine}
    (small : volume.sectorsPerCluster ≤ mostSectors)
    (entering : Entering image.toImage bios volume (fixCS image.toImage m))
    (returned : findKernel image bios fuel m = .ok m') :
    m'.sp = image.stackTop ∧ Prepared image.toImage bios volume m'.mem := by
  rw [findKernel] at returned
  cases loop : rootLoop image.toImage bios fuel (fixCS image.toImage m) with
  | error stop =>
    rw [loop] at returned
    cases returned
  | ok m₁ =>
    -- Storing the size of the kernel keeps what the search has left.
    have found := rootLoop_keeps image.searches small entering loop
    obtain ⟨sp, prepared, -⟩ :=
      (found.store (m₁.mem.read (m₁.entry 0x1C) 4) (m₁.mem.read (m₁.entry 0x1C) 4)).fetched
        image.searches
    rw [loop, ok_bind] at returned
    rw [← Except.ok.inj returned]
    exact ⟨sp, prepared⟩

/-- What a stage finds in memory at `FixCS`: its own data, and the boot sector of the volume. -/
structure Stage.Started (stage : Stage) (bios : Bios) (volume : Volume) (m : Machine) : Prop where
  ready : Ready stage.image m.mem
  mounted : volume.Mounted m.mem
  drive : bios.sector (byte m.edx) = volume.sector
  named : ∀ j < 11, m.mem (stage.image.szFile + j) = stage.fileName.getD j 0

/-- `FixCS` enters the search of a volume whose root directory is within reach. -/
theorem Stage.Started.searching {stage : Stage} (started : stage.Started bios volume m)
    (reaches : volume.Reaches volume.rootCluster) :
    Searching stage.image bios volume stage.fileName volume.rootCluster (fixCS stage.image m) := by
  exact fixCS_spec stage.searches started.ready started.mounted started.drive started.named
    reaches.firstData

/--
What the search of the root directory is for.

It ends at the first entry that is named as the file is or that marks the end, and it looks at the
entries up to that one.
-/
structure Stage.Finds (stage : Stage) (bios : Bios) (volume : Volume) (clusters : List Nat)
    (fuel : Nat) (m : Machine) : Prop where
  outcome : match (volume.entries clusters).find? (volume.stops stage.fileName) with
    | none => stage.find bios fuel m = .error .halted
    | some place =>
      if volume.isEnd place then stage.find bios fuel m = .error .halted
      else ∃ m', stage.find bios fuel m = .ok m' ∧ m'.esi = volume.entryCluster place
  seen : rootSeen stage.image bios fuel (fixCS stage.image m) =
    (upTo (volume.stops stage.fileName) (volume.entries clusters)).map seenAt

/-- A stage halts when its search does. -/
theorem Stage.find_halted (stage : Stage)
    (halted : rootLoop stage.image bios fuel (fixCS stage.image m) = .error .halted) :
    stage.find bios fuel m = .error .halted := by
  -- Behind the loop both stages go on, so a halt of the loop is a halt of the stage.
  cases stage with
  | boot1 image =>
    rw [Stage.find, findStage2]
    exact congrArg (· >>= _) halted
  | stage2 image =>
    rw [Stage.find, findKernel]
    exact congrArg (· >>= _) halted

/-- A stage fetches the first cluster from the entry that its search has found. -/
theorem Stage.find_found (stage : Stage) {m₁ : Machine}
    (loop : rootLoop stage.image bios fuel (fixCS stage.image m) = .ok m₁)
    (found : EntryFound stage.image bios volume place m₁) :
    ∃ m', stage.find bios fuel m = .ok m' ∧ m'.esi = volume.entryCluster place := by
  -- The stages differ in what they do with the entry besides.
  cases stage with
  | boot1 image => exact findStage2_found image loop found
  | stage2 image =>
    obtain ⟨m', result, esi, -⟩ := findKernel_found image loop found
    exact ⟨m', result, esi⟩

/-- Where a cluster's scan covers it, a stage finds its file. -/
theorem Stage.finds_of_covered (stage : Stage) {clusters : List Nat}
    (started : stage.Started bios volume m) (works : bios.Working)
    (small : volume.sectorsPerCluster ≤ mostSectors) (chain : volume.Chain clusters)
    (reaches : ∀ k ∈ clusters, volume.Reaches k)
    (start : clusters.head? = some volume.rootCluster) (enough : clusters.length ≤ fuel)
    (covered : volume.Covered stage.fileName volume.rootCluster) :
    stage.Finds bios volume clusters fuel m := by
  have searching := started.searching (reaches _ (List.mem_of_mem_head? start))
  obtain ⟨meets, seen⟩ := rootLoop_spec stage.searches works small enough chain reaches start
    searching covered
  refine ⟨?_, seen⟩
  -- The search stops as the directory does: nowhere, at the entry of the end, or at the file.
  cases found : (volume.entries clusters).find? (volume.stops stage.fileName) with
  | none =>
    rw [found, RootMeets] at meets
    exact stage.find_halted meets
  | some place =>
    rw [found, RootMeets] at meets
    dsimp only
    split at meets
    · rw [if_pos ‹_›]
      exact stage.find_halted meets
    · rw [if_neg ‹_›]
      obtain ⟨m₁, loop, entry⟩ := meets
      exact stage.find_found loop entry

end Stages

end IncroOS
