import IncroOS.Lib.Chase
import IncroOS.Proofs.Boot.LargeVolumes
import IncroOS.Proofs.Boot.Missed

/-! When the loops that follow a chain of clusters end. -/

namespace IncroOS

open Lib

/-- The code halts, or goes on behind its loops. -/
def Run.Ends (run : Run) : Prop := run = .error .halted ∨ ∃ m, run = .ok m

/-- A run that ends has not used up its turns. -/
theorem Run.not_ends_unfinished : ¬Run.Ends (.error .unfinished) := by
  rintro (halted | ⟨m, returned⟩)
  · exact absurd halted (by simp)
  · exact absurd returned (by simp)

/-- What is done behind a loop without another loop changes nothing about its end. -/
theorem Run.ends_bind_ok {run : Run} {last : Machine → Machine} :
    Run.Ends (run >>= fun m => .ok (last m)) ↔ Run.Ends run := by
  cases run with
  | ok m => exact iff_of_true (.inr ⟨last m, rfl⟩) (.inr ⟨m, rfl⟩)
  | error stop => exact Iff.rfl

namespace Volume

variable (volume : Volume) (mem : Mem) (szFile n : Nat)

/-- What the loader takes a cluster's number for: its low 16 bits. -/
def clusterKey (n : Nat) : Fin (2 ^ 16) := ⟨word n, word_lt n⟩

/-- The memory that the scan finds once a cluster has been read over it. -/
def rootMemory : Mem := fun x =>
  if rootBuffer ≤ x ∧ x < rootBuffer + volume.clusterSize then
    volume.sector (dword (volume.loadedLba n + (x - rootBuffer) / sectorSize))
      ((x - rootBuffer) % sectorSize)
  else mem x

/-- The scan of a cluster stops at one of its 32 entries. -/
def StopsScan : Prop := ∃ i < 32, hits (volume.rootMemory mem n) szFile i = true

/-- What is taken for the entry of a cluster ends its chain. -/
def EndsChain : Prop := endOfChain ≤ volume.loadedEntry n

/-- The search ends with a cluster: its scan stops there, or the chain does. -/
def EndsSearch : Prop := volume.StopsScan mem szFile n ∨ volume.EndsChain n

variable {volume} {mem} {szFile} {n}

/-- Outside the buffer there is what was there before. -/
theorem rootMemory_apart {x : Nat} (apart : rootBuffer + volume.clusterSize ≤ x) :
    volume.rootMemory mem n x = mem x := by
  rw [rootMemory, if_neg (by omega)]

/-- What ends the search depends on the low 16 bits of the cluster's number only. -/
theorem endsSearch_congr {k : Nat} (same : clusterKey n = clusterKey k) :
    volume.EndsSearch mem szFile n ↔ volume.EndsSearch mem szFile k := by
  -- The sector of the root and the FAT entry are both found from those 16 bits.
  obtain ⟨lba, entry⟩ := @loaded_congr volume n k (congrArg Fin.val same)
  have memory : volume.rootMemory mem n = volume.rootMemory mem k := by
    funext x
    rw [rootMemory, rootMemory, lba]
  rw [EndsSearch, EndsSearch, StopsScan, StopsScan, EndsChain, EndsChain, memory, entry]

/-- So does the cluster that comes next. -/
theorem loadedEntry_congr {k : Nat} (same : clusterKey n = clusterKey k) :
    clusterKey (volume.loadedEntry n) = clusterKey (volume.loadedEntry k) := by
  rw [(@loaded_congr volume n k (congrArg Fin.val same)).2]

/-- The search comes to its end exactly when its clusters do not come back before. -/
theorem endsSearch_iff : (∃ k, volume.EndsSearch mem szFile (volume.loadedEntry^[k] n)) ↔
    NeverReturns volume.loadedEntry (volume.EndsSearch mem szFile) clusterKey n :=
  @stops_iff Nat (Fin (2 ^ 16)) volume.loadedEntry (volume.EndsSearch mem szFile) clusterKey _
    (fun _ _ same => loadedEntry_congr same) (fun _ _ same => endsSearch_congr same) n

end Volume

section Search

variable {image : Image} {bios : Bios} {volume : Volume} {mem : Mem} {m : Machine}

/-- The head of `.cLoop`, with all that a scan may look at behind the cluster as it was. -/
structure Circling (image : Image) (bios : Bios) (volume : Volume) (mem : Mem) (m : Machine) :
    Prop extends Entering image bios volume m where
  stale : ∀ x, rootBuffer + volume.clusterSize ≤ x → x < rootBuffer + 32 * 32 → m.mem x = mem x
  name : ∀ j < 11, m.mem (image.szFile + j) = mem (image.szFile + j)

/-- The scan looks at the buffer and at the file's name only. -/
theorem hits_congr {mem' : Mem} {szFile i : Nat} (within : i < 32)
    (buffer : ∀ x, rootBuffer ≤ x → x < rootBuffer + 32 * 32 → mem' x = mem x)
    (name : ∀ j < 11, mem' (szFile + j) = mem (szFile + j)) :
    hits mem' szFile i = hits mem szFile i := by
  -- The two texts that are compared are the same, byte by byte.
  rw [hits, hits, buffer _ (by omega) (by omega)]
  refine congrArg _ (all_agree fun j member => ?_)
  have inside : j < 11 := List.mem_range.mp member
  rw [name j inside, buffer _ (by omega) (by omega)]

/-- What a turn reads is what the scan finds. -/
theorem Circling.scanned (searches : image.Searches) (small : volume.sectorsPerCluster ≤ mostSectors)
    (circling : Circling image bios volume mem m) {m₁ : Machine}
    (turn : RootTurn image bios volume m m₁) :
    (∀ x, rootBuffer ≤ x → x < rootBuffer + 32 * 32 →
      (startScan image m₁).mem x = volume.rootMemory mem m.esi x) ∧
    ∀ j < 11, (startScan image m₁).mem (image.szFile + j) = mem (image.szFile + j) := by
  -- The buffer is 32 entries, of which the cluster fills a part.
  have low := searches.stackLow
  have top := searches.nameStack
  have depth : stackSize = 64 := rfl
  have start : rootBuffer = 0x1000 := rfl
  have table : fatBuffer = 0x4000 := rfl
  have width : sectorSize = 512 := rfl
  have next : dReserved1 = 0x7C38 := rfl
  have fits := rootBuffer_fits small
  have cluster : volume.sectorsPerCluster * sectorSize = volume.clusterSize := rfl
  -- What `openRoot` sets up is carried over to the machine of the whole turn.
  obtain ⟨sp, esi, same, -, -⟩ := openRoot_spec m
  have place := openRoot_buffer m
  have prepared := circling.prepared
  have changes := turn.read.changes
  have data := turn.read.data
  rw [place] at changes data
  rw [esi, same, (prepared.loaded m.esi).1, prepared.drive] at data
  refine ⟨fun x above below => ?_, fun j within => ?_⟩
  · rw [turn.pushed, Mem.write_apart _ (by omega), Volume.rootMemory]
    split
    · -- The cluster's own bytes are those of its sectors.
      rename_i inside
      have byte := data (x - rootBuffer) (by omega) (by
        simp only [Set.mem_Ico]
        omega)
      rwa [show rootBuffer + (x - rootBuffer) = x by omega] at byte
    · -- Behind a short cluster the buffer is as it was.
      rename_i outside
      rw [changes x fun inside => ?_, same, circling.stale x (by omega) below]
      simp only [Image.working, Set.mem_union, Image.mem_scratch, Set.mem_Ico] at inside
      have stack := circling.sp
      have packet := searches.dapLow
      omega
  · rw [turn.pushed, Mem.write_apart _ (by omega), searches.name fits changes j within, same,
      circling.name j within]

/-- A turn ends the search, or goes on with what it takes for the entry of its cluster. -/
theorem Circling.turn (searches : image.Searches) (works : bios.Working)
    (small : volume.sectorsPerCluster ≤ mostSectors) (circling : Circling image bios volume mem m) :
    (volume.StopsScan mem image.szFile m.esi ∧
      ∀ fuel, Run.Ends (rootLoop image bios (fuel + 1) m)) ∨
    ¬volume.StopsScan mem image.szFile m.esi ∧ ∃ m', Circling image bios volume mem m' ∧
      m'.esi = volume.loadedEntry m.esi ∧ ∀ fuel, rootLoop image bios (fuel + 1) m =
        if m'.esi < endOfChain then rootLoop image bios fuel m' else .error .halted := by
  obtain ⟨m₁, read, turn⟩ := works.meets (readRoot_turn searches small circling.toEntering)
  obtain ⟨buffer, name⟩ := circling.scanned searches small turn
  have above := searches.nameLow
  have fits := rootBuffer_fits small
  have cluster : volume.sectorsPerCluster * sectorSize = volume.clusterSize := rfl
  have same : ∀ i < 32, hits (startScan image m₁).mem image.szFile i =
      hits (volume.rootMemory mem m.esi) image.szFile i := fun i within =>
    hits_congr within buffer fun j inside =>
      (name j inside).trans (Volume.rootMemory_apart (by omega)).symm
  -- An entry that stops the scan of the buffer stops that of the cluster.
  have stops : ∀ i, (List.range' 0 32).find? (hits (startScan image m₁).mem image.szFile) = some i →
      volume.StopsScan mem image.szFile m.esi := by
    intro i hit
    have within := (List.mem_range'_1.mp (List.mem_of_find?_eq_some hit)).2
    exact ⟨i, by omega, by rw [← same i (by omega), List.find?_some hit]⟩
  have loop := fun fuel => (@rootLoop_turn image bios fuel m m₁ read).1
  obtain ⟨-, ends⟩ := entryLoop_spec searches.apart turn.scan.scanning (Nat.zero_add 32)
  rw [scanRoot] at loop
  cases scan : entryLoop 0x20 (startScan image m₁) with
  | found m₂ =>
    rw [scan] at ends loop
    obtain ⟨i, hit, -⟩ := ends.found
    exact .inl ⟨stops i hit, fun fuel => .inr ⟨m₂, loop fuel⟩⟩
  | ended =>
    rw [scan] at ends loop
    obtain ⟨i, hit⟩ := ends.ended
    exact .inl ⟨stops i hit, fun fuel => .inl (loop fuel)⟩
  | passed m₂ =>
    obtain ⟨esi, again⟩ := circling.toEntering.turn searches small rfl read scan
    rw [scan] at ends
    obtain ⟨miss, stack, changes⟩ := ends.passed
    obtain ⟨entering, -, mem₂, names⟩ := turn.scan.passed searches stack changes
    refine .inr ⟨?_, nextRoot m₂, ⟨entering, fun x low high => ?_, fun j within => ?_⟩, esi, again⟩
    · rintro ⟨i, within, hit⟩
      have passed := List.find?_eq_none.mp miss i (by
        rw [List.mem_range'_1]
        omega)
      exact passed (by rw [same i within, hit])
    · -- The stack lies above the buffer.
      have top := searches.stackLow
      have depth : stackSize = 64 := rfl
      have start : rootBuffer = 0x1000 := rfl
      rw [mem₂, changes x fun inside => ?_, buffer x (by omega) high, Volume.rootMemory_apart low]
      have bottom := inside.1
      omega
    · rw [mem₂, names j within, name j within]

/-- So many turns are enough exactly when one of so many clusters ends the search. -/
theorem Circling.run (searches : image.Searches) (works : bios.Working)
    (small : volume.sectorsPerCluster ≤ mostSectors) (circling : Circling image bios volume mem m)
    (fuel : Nat) :
    Run.Ends (rootLoop image bios fuel m) ↔
      ∃ k < fuel, volume.EndsSearch mem image.szFile (volume.loadedEntry^[k] m.esi) := by
  -- The induction is on the turns.
  induction fuel generalizing m with
  | zero => exact iff_of_false Run.not_ends_unfinished fun ⟨k, below, _⟩ => Nat.not_lt_zero k below
  | succ fuel ih =>
    rw [stops_below_succ]
    rcases circling.turn searches works small with
      ⟨stopped, ends⟩ | ⟨passed, m', next, esi, loop⟩
    · exact iff_of_true (ends fuel) (.inl (.inl stopped))
    · rw [loop, esi]
      split
      · rename_i goes
        have onward : ¬volume.EndsSearch mem image.szFile m.esi := fun ended =>
          ended.elim passed (Nat.not_le.mpr goes)
        rw [ih next, esi, or_iff_right onward]
      · rename_i last
        exact iff_of_true (.inl rfl) (.inl (.inr (Nat.not_lt.mp last)))

end Search

section File

variable {image : Image} {bios : Bios} {volume : Volume} {m : Machine}

/-- With memory for so many clusters, that many turns are enough exactly when the chain is no longer. -/
theorem fileLoop_run (searches : image.Searches) (works : bios.Working) (fuel : Nat)
    (prepared : Prepared image bios volume m.mem) (room : image.Room m.sp 44)
    (segment : m.es < 2 ^ 16) (spares : image.Spares m.buffer (fuel * volume.clusterSize))
    (fits : m.buffer + fuel * volume.clusterSize ≤ memoryTop) :
    Run.Ends (fileLoop image bios fuel m) ↔
      ∃ k < fuel, volume.EndsChain (volume.loadedEntry^[k] m.esi) := by
  -- The induction is on the turns; each moves the buffer on by a cluster.
  induction fuel generalizing m with
  | zero => exact iff_of_false Run.not_ends_unfinished fun ⟨k, below, _⟩ => Nat.not_lt_zero k below
  | succ fuel ih =>
    have total : (fuel + 1) * volume.clusterSize =
        fuel * volume.clusterSize + volume.clusterSize := Nat.succ_mul _ _
    have fat : image.Spares fatBuffer sectorSize := searches.spares (by decide)
    have one := spares.part (Nat.le_refl m.buffer) (show _ + volume.clusterSize ≤ _ by omega)
    have loading : Loading image bios volume m := ⟨prepared, room, segment, one, by omega⟩
    obtain ⟨m₁, called, read⟩ := works.meets (loading.read searches)
    obtain ⟨esi, turn⟩ := loading.turn searches rfl called
    have place : m₁.buffer = m.buffer + volume.clusterSize := read.buffer
    have onward := ih (prepared.working searches.placed one fat read.changes)
      (by rw [read.sp]; exact room) read.segment
      (by rw [place]; exact spares.part (by omega) (by omega)) (by omega)
    rw [turn, stops_below_succ, ← esi]
    split
    · rename_i goes
      have here : ¬volume.EndsChain m.esi := by
        rw [Volume.EndsChain, ← esi]
        exact Nat.not_le.mpr goes
      rw [onward, or_iff_right here]
    · rename_i last
      refine iff_of_true (.inr ⟨m₁, rfl⟩) (.inl ?_)
      rw [Volume.EndsChain, ← esi]
      exact Nat.not_lt.mp last

/-- `LoadFile` comes to its jump exactly when its loop ends. -/
theorem loadFile_run (searches : image.Searches) (works : bios.Working)
    (base : image.loadBase < 2 ^ 16) (fuel : Nat) (prepared : Prepared image bios volume m.mem)
    (stack : m.sp = image.stackTop)
    (spares : image.Spares image.loadBase (fuel * volume.clusterSize))
    (fits : image.loadBase + fuel * volume.clusterSize ≤ memoryTop) :
    Run.Ends (loadFile image bios fuel m) ↔
      ∃ k < fuel, volume.EndsChain (volume.loadedEntry^[k] m.esi) := by
  have placed := searches.placed
  have low := searches.stackLow
  have depth : stackSize = 64 := rfl
  have fat : image.Spares fatBuffer sectorSize := searches.spares (by decide)
  obtain ⟨sp, esi, es, place, changes⟩ := @openFile_spec image m placed ⟨by omega, by omega⟩ base
  -- `openFile` always returns, so `LoadFile` ends when its loop does.
  rw [loadFile, Run.ends_bind_ok]
  generalize openFile image m = m₁ at sp esi es place changes ⊢
  -- What `openFile` pushes is within what a cluster's read may change.
  have wide := changes.mono ((image.scratch_working m.sp).trans
    (Set.subset_union_left (t := Set.Ico fatBuffer (fatBuffer + sectorSize))))
  rw [← esi]
  exact fileLoop_run searches works fuel (prepared.working placed fat fat wide)
    ⟨by omega, by omega⟩ (by omega) (by rw [place]; exact spares) (by rw [place]; exact fits)

end File

section Stages

variable {bios : Bios} {volume : Volume} {m m₁ : Machine} {fuel : Nat}

/-- The search of a stage ends when its loop does. -/
theorem Stage.find_ends (stage : Stage) :
    Run.Ends (stage.find bios fuel m) ↔
      Run.Ends (rootLoop stage.image bios fuel (fixCS stage.image m)) := by
  -- Nothing after the loop of either stage can run on.
  cases stage with
  | boot1 image => exact Run.ends_bind_ok
  | stage2 image =>
    rw [Stage.find, findKernel]
    exact Run.ends_bind_ok

/-- What the search of a stage leaves for `LoadFile`. -/
theorem Stage.find_keeps (stage : Stage) (small : volume.sectorsPerCluster ≤ mostSectors)
    (entering : Entering stage.image bios volume (fixCS stage.image m))
    (returned : stage.find bios fuel m = .ok m₁) :
    m₁.sp = stage.image.stackTop ∧ Prepared stage.image bios volume m₁.mem := by
  cases stage with
  -- Boot1 jumps to `LoadFile` straight from the loop, Stage2 stores the size of the kernel first.
  | boot1 image =>
    rw [Stage.find, findStage2] at returned
    cases loop : rootLoop image.toImage bios fuel (fixCS image.toImage m) with
    | error stop =>
      rw [loop] at returned
      cases returned
    | ok m₂ =>
      have found := rootLoop_keeps image.searches small entering loop
      obtain ⟨sp, prepared, -⟩ := found.fetched image.searches
      rw [loop, ok_bind] at returned
      rw [← Except.ok.inj returned]
      exact ⟨sp, prepared⟩
  | stage2 image => exact findKernel_keeps image small entering returned

theorem Stage.base_low (stage : Stage) : stage.image.loadBase < 2 ^ 16 := by
  -- Each stage loads to an address that its image fixes.
  cases stage with
  | boot1 image =>
    have base := image.base
    simp only [Stage.image]
    omega
  | stage2 image =>
    have base := image.base
    simp only [Stage.image]
    omega

/-- `FixCS` enters its loop with what a scan may look at as it was. -/
theorem Stage.circling (stage : Stage) (ready : Ready stage.image m.mem)
    (mounted : volume.Mounted m.mem) (drive : bios.sector (byte m.edx) = volume.sector)
    (bound : volume.firstData < 2 ^ 32) :
    Circling stage.image bios volume m.mem (fixCS stage.image m) ∧
      (fixCS stage.image m).esi = volume.rootCluster := by
  have searches := stage.searches
  -- The file's name is taken from the memory, so nothing is assumed of it.
  have named : ∀ j < 11, m.mem (stage.image.szFile + j) =
      ((List.range 11).map fun j => m.mem (stage.image.szFile + j)).getD j 0 := by
    intro j within
    simp [within]
  have searching := fixCS_spec searches ready mounted drive named bound
  have same := fun x => @startMemory_changes stage.image m.edx m.mem x
  have driveLow := searches.driveLow
  have nameLow := searches.nameLow
  have nameDrive := searches.nameDrive
  have start : rootBuffer = 0x1000 := rfl
  have data : dReserved0 = 0x7C34 := rfl
  -- `FixCS` writes the parameter block and the drive number, and neither the buffer nor the name.
  refine ⟨⟨searching.toEntering, fun x low high => ?_, fun j within => ?_⟩, searching.esi⟩
  · rw [(fixCS_state stage.image m).2.1, same x (by omega) (by omega)]
  · rw [(fixCS_state stage.image m).2.1, same _ (by omega) (by omega)]

/--
The loops of a stage end exactly on disks whose chains do not come back before they stop.

In the root directory a scan may stop the search too; a file is loaded for as long as its clusters
leave alone what the loader relies on.
-/
theorem chain_loops_end_iff (stage : Stage) (works : bios.Working) (ready : Ready stage.image m.mem)
    (mounted : volume.Mounted m.mem) (drive : bios.sector (byte m.edx) = volume.sector)
    (bound : volume.firstData < 2 ^ 32) (small : volume.sectorsPerCluster ≤ mostSectors) :
    ((∃ fuel, Run.Ends (stage.find bios fuel m)) ↔
      NeverReturns volume.loadedEntry (volume.EndsSearch m.mem stage.image.szFile)
        Volume.clusterKey volume.rootCluster) ∧
    ∀ fuel m₁, stage.find bios fuel m = .ok m₁ → ∀ count,
      stage.image.Spares stage.image.loadBase (count * volume.clusterSize) →
      stage.image.loadBase + count * volume.clusterSize ≤ memoryTop →
      (Run.Ends (loadFile stage.image bios count m₁) ↔
        ∃ k < count, volume.EndsChain (volume.loadedEntry^[k] m₁.esi)) := by
  have searches := stage.searches
  obtain ⟨circling, root⟩ := stage.circling ready mounted drive bound
  refine ⟨?_, fun fuel m₁ found count spares fits => ?_⟩
  · -- The search ends with some cluster of its chain, or the chain comes back.
    rw [← Volume.endsSearch_iff, ← root]
    constructor
    · rintro ⟨fuel, ends⟩
      obtain ⟨k, -, stopped⟩ := (circling.run searches works small fuel).mp (stage.find_ends.mp ends)
      exact ⟨k, stopped⟩
    · rintro ⟨k, stopped⟩
      refine ⟨k + 1, stage.find_ends.mpr ((circling.run searches works small (k + 1)).mpr ?_)⟩
      exact ⟨k, Nat.lt_succ_self k, stopped⟩
  · -- `LoadFile` starts with what the search leaves.
    obtain ⟨sp, prepared⟩ := stage.find_keeps small circling.toEntering found
    exact loadFile_run searches works stage.base_low count prepared sp spares fits

end Stages

/-- The sample volume, from which Boot1 finds nothing and halts. -/
theorem chain_loops_end_iff_sample :
    ((∃ fuel, Run.Ends ((Stage.boot1 sampleBoot1).find sampleBios fuel sampleMachine)) ↔
      NeverReturns sampleVolume.loadedEntry
        (sampleVolume.EndsSearch sampleMachine.mem sampleBoot1.szFile) Volume.clusterKey
        sampleVolume.rootCluster) ∧
    ∀ fuel m₁, (Stage.boot1 sampleBoot1).find sampleBios fuel sampleMachine = .ok m₁ → ∀ count,
      sampleBoot1.toImage.Spares sampleBoot1.loadBase (count * sampleVolume.clusterSize) →
      sampleBoot1.loadBase + count * sampleVolume.clusterSize ≤ memoryTop →
      (Run.Ends (loadFile sampleBoot1.toImage sampleBios count m₁) ↔
        ∃ k < count, sampleVolume.EndsChain (sampleVolume.loadedEntry^[k] m₁.esi)) :=
  chain_loops_end_iff (.boot1 sampleBoot1) (fun _ => ⟨0, by decide, rfl⟩) ⟨rfl, rfl⟩
    sample_prepared.mounted rfl (by decide) (by decide)

/-- A volume whose every FAT entry marks a bad cluster. -/
def badVolume : Volume where
  sectorsPerCluster := 4
  reserved := 32
  fats := 1
  sectorsPerFat := 8
  hidden := 0
  rootCluster := 2
  sector _ i := if i % 4 = 0 then 0xF7 else if i % 4 = 3 then 0x0F else 0xFF
  positive := (directoryVolume 0).positive

/-- A drive that holds that volume and never fails. -/
def badBios : Bios := { sampleBios with sector := fun _ => badVolume.sector }

theorem bad_started : (Stage.boot1 sampleBoot1).Started badBios badVolume directoryMachine := by
  refine ⟨⟨?_, ?_⟩, ⟨?_, ?_, ?_, ?_, ?_, ?_, ?_⟩, ?_, by decide⟩
  all_goals rfl

theorem badVolume_sector {lba i : Nat} (first : i % 4 = 0) : badVolume.sector lba i = 0xF7 := by
  simp only [badVolume, first, if_true]

/-- Whatever cluster is followed, a bad-cluster mark is what comes next. -/
theorem badVolume_loadedEntry (n : Nat) : badVolume.loadedEntry n = 0x0FFFFFF7 := by
  have size : sectorSize = 512 := rfl
  rw [Volume.loadedEntry, size]
  -- The entry starts at a multiple of four.
  have first : 4 * n % 512 % 4 = 0 := by omega
  have second : (4 * n % 512 + 1) % 4 = 1 := by omega
  have third : (4 * n % 512 + 1 + 1) % 4 = 2 := by omega
  have fourth : (4 * n % 512 + 1 + 1 + 1) % 4 = 3 := by omega
  simp [Mem.read, badVolume, first, second, third, fourth]

/-- No entry stops the scan of a cluster. -/
theorem badVolume_scan (n : Nat) : ¬badVolume.StopsScan directoryMachine.mem sampleBoot1.szFile n := by
  rintro ⟨i, within, hit⟩
  have start : rootBuffer = 0x1000 := rfl
  have size : badVolume.clusterSize = 2048 := rfl
  have width : sectorSize = 512 := rfl
  -- An entry starts with the first byte of a mark, which is neither zero nor the name's first.
  have byte : badVolume.rootMemory directoryMachine.mem n (rootBuffer + 32 * i) = 0xF7 := by
    have place : (rootBuffer + 32 * i - rootBuffer) % sectorSize % 4 = 0 := by
      rw [width]
      omega
    rw [Volume.rootMemory, if_pos ⟨by omega, by omega⟩, badVolume_sector place]
  have name : badVolume.rootMemory directoryMachine.mem n (sampleBoot1.szFile + 0) = 0x53 := by
    rw [Volume.rootMemory_apart (by decide)]
    rfl
  rw [hits, byte, Bool.or_eq_true, List.all_eq_true] at hit
  rcases hit with zero | same
  · exact absurd zero (by decide)
  · have first := same 0 (by decide)
    rw [name, Nat.add_zero, byte] at first
    exact absurd first (by decide)

/-- On a disk full of bad-cluster marks Boot1 reads clusters without end. -/
theorem chain_loops_never_end :
    (Stage.boot1 sampleBoot1).Started badBios badVolume directoryMachine ∧
    (∀ k, badBios.fails k = false) ∧
    ∀ fuel, ¬Run.Ends ((Stage.boot1 sampleBoot1).find badBios fuel directoryMachine) := by
  have works : badBios.Working := fun _ => ⟨0, by decide, rfl⟩
  have circling := ((Stage.boot1 sampleBoot1).circling bad_started.ready bad_started.mounted
    bad_started.drive (by decide)).1
  refine ⟨bad_started, fun _ => rfl, fun fuel ends => ?_⟩
  have ended := (circling.run (Stage.boot1 sampleBoot1).searches works (by decide) fuel).mp
    ((Stage.boot1 sampleBoot1).find_ends.mp ends)
  -- No cluster's entries stop the scan, and no mark ends the chain.
  obtain ⟨k, -, scan | chain⟩ := ended
  · exact badVolume_scan _ scan
  · rw [Volume.EndsChain, badVolume_loadedEntry] at chain
    exact absurd chain (by decide)

end IncroOS
