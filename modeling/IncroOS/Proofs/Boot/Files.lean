import IncroOS.Proofs.Boot.Truncation

/-! `LoadFile` puts the clusters of a file one behind the other, in the order of their chain. -/

namespace IncroOS

open Lib

/-- What the routines need to find in memory to read files of the volume. -/
structure Prepared (image : Image) (bios : Bios) (volume : Volume) (mem : Mem) : Prop where
  ready : Ready image mem
  mounted : volume.Mounted mem
  firstData : mem.read dReserved0 4 = volume.firstData
  drive : bios.sector (mem image.bPhysicalDriveNum).toNat = volume.sector

section Sectors

variable {image : Image} {bios : Bios} {volume : Volume} {mem mem' : Mem}

/-- What the routines need survives where the packet, the parameter block and the drive number do. -/
theorem Prepared.congr (prepared : Prepared image bios volume mem)
    (count : mem'.read (image.dap + 2) 2 = mem.read (image.dap + 2) 2)
    (block : ∀ x, 0x7C00 ≤ x → x < dReserved1 → mem' x = mem x)
    (drive : mem' image.bPhysicalDriveNum = mem image.bPhysicalDriveNum) :
    Prepared image bios volume mem' := by
  have next : dReserved1 = 0x7C38 := rfl
  -- The fields of the volume lie in the parameter block, below the loader's own variables.
  have fields : ∀ a width, 0x7C00 ≤ a → a + width ≤ dReserved1 →
      mem'.read a width = mem.read a width := fun a width low high =>
    Mem.read_congr fun x above below => block x (by omega) (by omega)
  have mounted := prepared.mounted
  refine ⟨⟨count.trans prepared.ready.count, ?_⟩, ⟨?_, ?_, ?_, ?_, ?_, ?_, ?_⟩, ?_, ?_⟩
  · rw [fields _ _ (by decide) (by decide), mounted.bytesPerSector]
  · rw [fields _ _ (by decide) (by decide), mounted.bytesPerSector]
  · rw [block _ (by decide) (by decide), mounted.sectorsPerCluster]
  · rw [fields _ _ (by decide) (by decide), mounted.reserved]
  · rw [block _ (by decide) (by decide), mounted.fats]
  · rw [fields _ _ (by decide) (by decide), mounted.hidden]
  · rw [fields _ _ (by decide) (by decide), mounted.sectorsPerFat]
  · rw [fields _ _ (by decide) (by decide), mounted.rootCluster]
  · rw [fields _ _ (by decide) (by decide), prepared.firstData]
  · rw [drive, prepared.drive]

/-- What the routines need survives a whole `ReadCluster` that spares it. -/
theorem Prepared.working {sp buffer size : Nat} (prepared : Prepared image bios volume mem)
    (placed : image.Placed) (spares : image.Spares buffer size)
    (fat : image.Spares fatBuffer sectorSize)
    (changes : Mem.ChangesOnly mem mem' (image.working sp ∪ Set.Ico buffer (buffer + size))) :
    Prepared image bios volume mem' := by
  -- The packet, the parameter block and the drive number survive, each by its own lemma.
  have ready := prepared.ready.working spares fat placed changes
  refine prepared.congr (ready.count.trans prepared.ready.count.symm) (fun x above below => ?_)
    (spares.working_drive fat placed changes)
  exact spares.working_block fat placed changes above below

/-- The sectors that the loader asks for, in terms of the volume. -/
theorem Prepared.loaded (prepared : Prepared image bios volume mem) (n : Nat) :
    clusterSector mem (word n) = volume.loadedLba n ∧ fatSector mem (word n) = volume.loadedSector n :=
  ⟨clusterSector_eq prepared.mounted.sectorsPerCluster prepared.firstData prepared.mounted.hidden n,
    fatSector_eq prepared.mounted.reserved prepared.mounted.hidden n⟩

/-- A cluster within the loader's range has a number of 16 bits. -/
theorem Volume.Reaches.word {n : Nat} (reaches : volume.Reaches n) : word n = n := by
  have high := reaches.entry
  exact word_of_lt (by omega)

/-- `ReadCluster` starts at the cluster's first sector. -/
theorem Prepared.clusterSector (prepared : Prepared image bios volume mem) {n : Nat}
    (reaches : volume.Reaches n) : clusterSector mem n = volume.clusterLba n := by
  -- The cluster is within reach, so nothing of its sector's number is cut off.
  have asked := (prepared.loaded n).1
  rw [reaches.word] at asked
  rw [asked, Volume.loadedLba_iff reaches.data reaches.fits]
  exact reaches.product

/-- `GetNextCluster` reads the sector with the cluster's entry. -/
theorem Prepared.fatSector (prepared : Prepared image bios volume mem) {n : Nat}
    (reaches : volume.Reaches n) : fatSector mem n = volume.entrySector n := by
  -- The cluster is within reach, so nothing of its entry's sector is cut off.
  have asked := (prepared.loaded n).2
  rw [reaches.word] at asked
  rw [asked, Volume.loadedSector_iff]
  exact ⟨reaches.entry, reaches.sector⟩

/-- Where the FAT sector is right, so is the entry. -/
theorem Volume.loadedEntry_eq {n : Nat} (sector : volume.loadedSector n = volume.entrySector n) :
    volume.loadedEntry n = volume.fatEntry n := by
  rw [Volume.loadedEntry, sector, Volume.fatEntry]

end Sectors

section Chains

variable {image : Image} {bios : Bios} {volume : Volume} {m m' : Machine}

/-- The cluster that `ReadCluster` goes on with is what the loader takes for the entry. -/
theorem ClusterRead.follows {n count : Nat} (read : ClusterRead image bios count m m')
    (prepared : Prepared image bios volume m.mem) (number : word m.esi = word n) :
    m'.esi = volume.loadedEntry n := by
  have fits := fatOffset_fits (word n)
  rw [read.esi, number, Volume.loadedEntry]
  -- The four bytes of the entry lie within the sector that was read.
  rw [fatOffset_eq] at fits ⊢
  refine Mem.read_shift fun i within => ?_
  have byte := read.fat (4 * n % sectorSize + i) (by omega)
  rwa [number, (prepared.loaded n).2, prepared.drive, ← Nat.add_assoc] at byte

/-- Within the loader's range that is the entry of the cluster that was read. -/
theorem ClusterRead.next {n count : Nat} (read : ClusterRead image bios count m m')
    (prepared : Prepared image bios volume m.mem) (reaches : volume.Reaches n)
    (number : word m.esi = n) : m'.esi = volume.fatEntry n := by
  have sector := Volume.loadedSector_iff.mpr ⟨reaches.entry, reaches.sector⟩
  rw [read.follows prepared (number.trans reaches.word.symm), Volume.loadedEntry_eq sector]

/-- What the loop of `LoadFile` leaves once it has read the clusters. -/
structure FileLoaded (image : Image) (volume : Volume) (clusters : List Nat) (m m' : Machine) :
    Prop where
  sp : m'.sp = m.sp
  changes : Mem.ChangesOnly m.mem m'.mem (image.working m.sp ∪
    Set.Ico m.buffer (m.buffer + clusters.length * volume.clusterSize))
  fat : ∀ n ∈ clusters.getLast?, ∀ i < sectorSize,
    m'.mem (fatBuffer + i) = volume.sector (volume.entrySector n) i
  data : ∀ k < clusters.length * volume.clusterSize,
    m.buffer + k ∉ Set.Ico fatBuffer (fatBuffer + sectorSize) →
    m'.mem (m.buffer + k) = volume.fileByte clusters k

section Append

variable {n : Nat} {m₁ : Machine}

/-- The bytes of a cluster that has been read, outside the buffer for FAT sectors. -/
theorem ClusterRead.bytes (read : ClusterRead image bios volume.sectorsPerCluster m m₁)
    (prepared : Prepared image bios volume m.mem) (reaches : volume.Reaches n)
    (number : word m.esi = n) {k : Nat} (within : k < volume.clusterSize)
    (apart : m.buffer + k ∉ Set.Ico fatBuffer (fatBuffer + sectorSize)) :
    m₁.mem (m.buffer + k) = volume.clusterByte n k := by
  have byte := read.data k within apart
  have fits := reaches.fits
  -- Sector by sector, the sectors of the cluster follow each other.
  have sector : k / sectorSize < volume.sectorsPerCluster :=
    Nat.div_lt_of_lt_mul (by rwa [Nat.mul_comm])
  rw [number, prepared.clusterSector reaches, prepared.drive, dword_of_lt (by omega)] at byte
  exact byte

/-- The last FAT sector that was read is the one with the entry of the last cluster. -/
theorem ClusterRead.entry {count : Nat} (read : ClusterRead image bios count m m₁)
    (prepared : Prepared image bios volume m.mem) (reaches : volume.Reaches n)
    (number : word m.esi = n) {i : Nat} (within : i < sectorSize) :
    m₁.mem (fatBuffer + i) = volume.sector (volume.entrySector n) i := by
  rw [read.fat i within, number, prepared.fatSector reaches, prepared.drive]

/-- A file of one cluster. -/
theorem FileLoaded.single (read : ClusterRead image bios volume.sectorsPerCluster m m₁)
    (prepared : Prepared image bios volume m.mem) (reaches : volume.Reaches n)
    (number : word m.esi = n) : FileLoaded image volume [n] m m₁ := by
  have total : [n].length * volume.clusterSize = volume.clusterSize := Nat.one_mul _
  refine ⟨read.sp, ?_, ?_, ?_⟩
  · rw [total]
    exact read.changes
  · -- The only cluster is the last one.
    intro last member i within
    rw [Option.mem_def, List.getLast?_singleton, Option.some_inj] at member
    rw [← member]
    exact read.entry prepared reaches number within
  · intro k within apart
    rw [total] at within
    rw [Volume.fileByte, if_pos within]
    exact read.bytes prepared reaches number within apart

/-- A cluster, and then the rest of the file behind it. -/
theorem FileLoaded.cons {second : Nat} {others : List Nat}
    (read : ClusterRead image bios volume.sectorsPerCluster m m₁)
    (prepared : Prepared image bios volume m.mem) (reaches : volume.Reaches n)
    (number : word m.esi = n)
    (spares : image.Spares m.buffer ((n :: second :: others).length * volume.clusterSize))
    (loaded : FileLoaded image volume (second :: others) m₁ m') :
    FileLoaded image volume (n :: second :: others) m m' := by
  have total : (n :: second :: others).length * volume.clusterSize =
      (second :: others).length * volume.clusterSize + volume.clusterSize := Nat.succ_mul _ _
  have place : m₁.buffer = m.buffer + volume.clusterSize := read.buffer
  have changes := loaded.changes
  rw [read.sp, place] at changes
  refine ⟨loaded.sp.trans read.sp, ?_, ?_, ?_⟩
  · -- The rest lies behind the first cluster.
    refine (read.changes.mono ?_).trans (changes.mono ?_)
    · refine Set.union_subset_union_right _ (Set.Ico_subset_Ico_right ?_)
      show m.buffer + volume.clusterSize ≤ _
      omega
    · exact Set.union_subset_union_right _ (Set.Ico_subset_Ico (by omega) (by omega))
  · -- The last cluster of the rest is the last one of the file.
    intro last member
    rw [List.getLast?_cons_cons] at member
    exact loaded.fat last member
  · intro k within apart
    rw [Volume.fileByte]
    split
    · -- The later clusters leave the first one alone.
      rename_i first
      rw [changes _ fun inside => ?_, read.bytes prepared reaches number first apart]
      rcases inside with ((scratch | next) | entry) | data
      · exact spares (m.buffer + k) (by omega) (by omega) (image.scratch_held _ scratch)
      · -- The loader's variables are in the parameter block.
        have start : dReserved1 = 0x7C38 := rfl
        have low := next.1
        have high := next.2
        refine spares (m.buffer + k) (by omega) (by omega) (Image.mem_held.mpr ?_)
        omega
      · exact apart entry
      · have low := data.1
        omega
    · rename_i later
      have back : m.buffer + k = m₁.buffer + (k - volume.clusterSize) := by omega
      rw [back] at apart ⊢
      exact loaded.data _ (by omega) apart

end Append

/-- The loop of `LoadFile` gives up, or has read all the clusters of the chain. -/
theorem fileLoop_spec (placed : image.Placed) (fat : image.Spares fatBuffer sectorSize)
    {clusters : List Nat} {fuel : Nat} (enough : clusters.length ≤ fuel)
    (prepared : Prepared image bios volume m.mem) (chain : volume.Chain clusters)
    (reaches : ∀ n ∈ clusters, volume.Reaches n) (start : ∀ n ∈ clusters.head?, m.esi = n)
    (room : image.Room m.sp 44) (segment : m.es < 2 ^ 16)
    (spares : image.Spares m.buffer (clusters.length * volume.clusterSize))
    (fits : m.buffer + clusters.length * volume.clusterSize ≤ memoryTop) :
    Meets (fileLoop image bios fuel m) bios.GaveUp (FileLoaded image volume clusters m) := by
  -- The induction is on the clusters that are left in the chain.
  induction clusters generalizing fuel m with
  | nil => exact chain.elim
  | cons n rest ih =>
    obtain ⟨fuel, rfl⟩ : ∃ f, fuel = f + 1 := ⟨fuel - 1, by
      rw [List.length_cons] at enough
      omega⟩
    have total : (n :: rest).length * volume.clusterSize =
        rest.length * volume.clusterSize + volume.clusterSize := Nat.succ_mul _ _
    have here := reaches n List.mem_cons_self
    have esi : m.esi = n := start n rfl
    have number : word m.esi = n := by
      have high := here.entry
      rw [esi, word]
      omega
    have one := spares.part (Nat.le_refl m.buffer) (show _ + volume.clusterSize ≤ _ by omega)
    have cluster : volume.sectorsPerCluster * sectorSize = volume.clusterSize := rfl
    rw [fileLoop]
    refine Meets.bind (call_readCluster placed volume.positive
      prepared.mounted.sectorsPerCluster room segment prepared.ready one (by omega) fat)
      fun m₁ read => ?_
    have next := read.next prepared here number
    have prepared₁ := prepared.working placed one fat read.changes
    have place := read.buffer
    rw [cluster] at place
    cases rest with
    | nil =>
      -- The entry ends the chain, and so does the loop.
      have last := chain.1
      rw [if_neg (by omega), meets_ok]
      exact .single read prepared here number
    | cons second others =>
      obtain ⟨link, chain⟩ := chain
      rw [link] at next
      have there := reaches second (by simp)
      have goes : m₁.esi < endOfChain := by
        have high := there.entry
        have limit : endOfChain = 0x0FFFFFF8 := rfl
        omega
      have enough' : (second :: others).length ≤ fuel := by
        rw [List.length_cons] at enough
        omega
      rw [if_pos goes]
      have tail := ih enough' prepared₁ chain
        (fun k member => reaches k (List.mem_cons_of_mem n member)) (by simpa using next)
        (by rw [read.sp]; exact room) read.segment
        (by rw [place]; exact spares.part (by omega) (by omega)) (by omega)
      exact tail.mono fun m₂ loaded => .cons read prepared here number spares loaded

/-- What `LoadFile` leaves at its jump. -/
structure Delivered (image : Image) (volume : Volume) (clusters : List Nat) (m m' : Machine) :
    Prop where
  sp : m'.sp = m.sp - 4
  changes : Mem.ChangesOnly m.mem m'.mem (image.working m.sp ∪
    Set.Ico image.loadBase (image.loadBase + clusters.length * volume.clusterSize))
  fat : ∀ n ∈ clusters.getLast?, ∀ i < sectorSize,
    m'.mem (fatBuffer + i) = volume.sector (volume.entrySector n) i
  data : ∀ k < clusters.length * volume.clusterSize,
    image.loadBase + k ∉ Set.Ico fatBuffer (fatBuffer + sectorSize) →
    m'.mem (image.loadBase + k) = volume.fileByte clusters k

/-- The first lines of `LoadFile` set the buffer to the place for the file. -/
theorem openFile_spec (placed : image.Placed) (room : image.Room m.sp 4)
    (base : image.loadBase < 2 ^ 16) :
    (openFile image m).sp = m.sp - 4 ∧ (openFile image m).esi = m.esi ∧
      (openFile image m).es = 0 ∧ (openFile image m).buffer = image.loadBase ∧
      Mem.ChangesOnly m.mem (openFile image m).mem (image.scratch m.sp) := by
  obtain ⟨low, high⟩ := room
  have fit := placed.stackLow
  have top := placed.stackHigh
  have zero : word 0 = 0 := rfl
  -- The linear address of the segment and the offset together is the place for the file.
  cases m
  dsimp only at low high ⊢
  simp (disch := omega) only [openFile, Machine.push, push_offset, Nat.sub_sub, Nat.reduceAdd,
    Machine.buffer, setWord_setWord, word_setWord, word_of_lt, Nat.zero_mul, Nat.zero_add,
    true_and]
  intro x outside
  simp only [Image.mem_scratch, not_or, not_and_or] at outside
  simp (disch := omega) only [Mem.write_apart]

/-- `LoadFile` gives up, or delivers the file whose first cluster is in `ESI`. -/
theorem loadFile_spec (placed : image.Placed) (fat : image.Spares fatBuffer sectorSize)
    (base : image.loadBase < 2 ^ 16) {clusters : List Nat} {fuel : Nat}
    (enough : clusters.length ≤ fuel) (prepared : Prepared image bios volume m.mem)
    (chain : volume.Chain clusters) (reaches : ∀ n ∈ clusters, volume.Reaches n)
    (start : ∀ n ∈ clusters.head?, m.esi = n) (room : image.Room m.sp 48)
    (spares : image.Spares image.loadBase (clusters.length * volume.clusterSize))
    (fits : image.loadBase + clusters.length * volume.clusterSize ≤ memoryTop) :
    Meets (loadFile image bios fuel m) bios.GaveUp (Delivered image volume clusters m) := by
  obtain ⟨low, high⟩ := room
  have fit := placed.stackLow
  have placed₁ := @openFile_spec image m placed ⟨by omega, high⟩ base
  rw [loadFile]
  generalize openFile image m = m₁ at placed₁ ⊢
  obtain ⟨sp, esi, es, place, changes⟩ := placed₁
  have room₁ : image.Room m₁.sp 44 := by
    rw [sp]
    exact ⟨by omega, by omega⟩
  have wide := changes.mono ((image.scratch_working m.sp).trans
    (Set.subset_union_left (t := Set.Ico fatBuffer (fatBuffer + sectorSize))))
  -- The loop starts four bytes further down the stack, with the buffer at the place for the file.
  have loop := fileLoop_spec placed fat enough (prepared.working placed fat fat wide) chain reaches
    (by rw [esi]; exact start) room₁ (by rw [es]; omega) (by rw [place]; exact spares)
    (by rw [place]; exact fits)
  refine Meets.bind loop fun m₂ loaded => ?_
  have changes₂ := loaded.changes
  have data := loaded.data
  rw [place, sp] at changes₂
  rw [place] at data
  rw [meets_ok]
  refine ⟨loaded.sp.trans sp, ?_, loaded.fat, data⟩
  -- What is pushed before the loop is within the free stack.
  refine (changes.mono ?_).trans (changes₂.mono ?_)
  · exact (image.scratch_working m.sp).trans Set.subset_union_left
  · exact Set.union_subset_union_left _ (Image.working_mono (by omega))

end Chains

end IncroOS
