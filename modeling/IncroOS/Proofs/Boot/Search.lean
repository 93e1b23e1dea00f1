import IncroOS.Boot.Directory
import IncroOS.Proofs.Boot.Files
import IncroOS.Proofs.Boot.Scan

/-! The search of the root directory, cluster by cluster, for the file of a stage. -/

namespace IncroOS

open Lib

section Loop

variable (image : Image) (bios : Bios)

/-- What the search looks at behind the scan of a cluster. -/
def seenAfterScan (again : Machine → List (Nat × Nat)) : Scan → List (Nat × Nat)
  | .found _ | .ended => []
  | .passed m => if (nextRoot m).esi < endOfChain then again (nextRoot m) else []

/-- The entries that a turn of `.cLoop` looks at, with those that the turns behind it do. -/
def seenInCluster (again : Machine → List (Nat × Nat)) (n : Nat) : Run → List (Nat × Nat)
  | .error _ => []
  | .ok m =>
    (entriesSeen 0x20 (startScan image m)).map (fun address => (n, address)) ++
      seenAfterScan again (scanRoot image m)

/-- The entries that the search looks at: each the cluster that was read, and an address. -/
def rootSeen : Nat → Machine → List (Nat × Nat)
  | 0, _ => []
  | fuel + 1, m =>
    seenInCluster image (rootSeen fuel) (word m.esi)
      (Machine.call image.afterReadRoot (readCluster image bios) (openRoot m))

variable {image bios} {fuel : Nat} {m m' : Machine}

/-- A turn of `.cLoop` reads a cluster, scans it, and goes on with the next one. -/
theorem rootLoop_turn
    (read : Machine.call image.afterReadRoot (readCluster image bios) (openRoot m) = .ok m') :
    rootLoop image bios (fuel + 1) m = afterScan (rootLoop image bios fuel) (scanRoot image m') ∧
      rootSeen image bios (fuel + 1) m =
        (entriesSeen 0x20 (startScan image m')).map (fun address => (word m.esi, address)) ++
          seenAfterScan (rootSeen image bios fuel) (scanRoot image m') := by
  rw [rootLoop, rootSeen, read, seenInCluster, ok_bind]
  exact ⟨rfl, rfl⟩

end Loop

/-- The largest directory clusters that spare the stack: they end at 0x7A00. -/
def mostSectors : Nat := 53

/-- A stage keeps its data above the boot sector's variables, and its stack above the directory. -/
structure Image.Searches (image : Image) : Prop where
  placed : image.Placed
  stackLow : 0x7A00 + stackSize ≤ image.stackTop
  dapLow : 0x7C40 ≤ image.dap
  driveLow : 0x7C40 ≤ image.bPhysicalDriveNum
  codeLow : 0x7C00 ≤ image.codeStart
  nameLow : 0x7C40 ≤ image.szFile
  nameHigh : image.szFile + 11 ≤ 2 ^ 16
  nameStack : image.stackTop ≤ image.szFile
  nameDap : image.szFile + 11 ≤ image.dap
  nameDrive :
    image.bPhysicalDriveNum < image.szFile ∨ image.szFile + 11 ≤ image.bPhysicalDriveNum

section Read

variable {image : Image} {bios : Bios} {volume : Volume} {m : Machine} {n : Nat}

/-- Below 0x7A00 nothing is relied on. -/
theorem Image.Searches.spares (searches : image.Searches) {buffer size : Nat}
    (fits : buffer + size ≤ 0x7A00) : image.Spares buffer size := by
  -- The stack, the packet, the drive number and the code all lie above.
  have stack := searches.stackLow
  have packet := searches.dapLow
  have drive := searches.driveLow
  have code := searches.codeLow
  have depth : stackSize = 64 := rfl
  intro x above below held
  rw [Image.mem_held] at held
  omega

/-- The file's name is not among the bytes that a read of a directory cluster may change. -/
theorem Image.Searches.name (searches : image.Searches) {mem mem' : Mem} {sp size : Nat}
    (fits : rootBuffer + size ≤ 0x7A00)
    (changes : Mem.ChangesOnly mem mem'
      (image.working sp ∪ Set.Ico rootBuffer (rootBuffer + size))) :
    ∀ j < 11, mem' (image.szFile + j) = mem (image.szFile + j) := by
  have low := searches.nameLow
  have stack := searches.nameStack
  have packet := searches.nameDap
  have next : dReserved1 = 0x7C38 := rfl
  have start : fatBuffer = 0x4000 := rfl
  have width : sectorSize = 512 := rfl
  intro j within
  -- The name is neither on the stack nor in the packet, a buffer or a variable.
  refine changes _ fun inside => ?_
  simp only [Image.working, Set.mem_union, Image.mem_scratch, Set.mem_Ico] at inside
  omega

/-- What changes on the stack changes neither what the routines need nor the file's name. -/
theorem Image.Searches.kept (searches : image.Searches) {mem mem' : Mem} {low high : Nat}
    (bottom : image.stackTop - stackSize ≤ low) (top : high ≤ image.stackTop)
    (changes : Mem.ChangesOnly mem mem' (Set.Ico low high))
    (prepared : Prepared image bios volume mem) :
    Prepared image bios volume mem' ∧ ∀ j < 11, mem' (image.szFile + j) = mem (image.szFile + j) := by
  -- The stack is scratch, so a read of nothing would be allowed as much.
  have scratch : Mem.ChangesOnly mem mem'
      (image.working image.stackTop ∪ Set.Ico rootBuffer (rootBuffer + 0)) := by
    refine changes.mono fun x inside => .inl (.inl (.inl ?_))
    simp only [Set.mem_Ico] at inside
    rw [Image.mem_scratch]
    omega
  exact ⟨prepared.working searches.placed (searches.spares (by decide))
    (searches.spares (by decide)) scratch, searches.name (by decide) scratch⟩

/-- What `.cLoop` needs at its head, whatever cluster comes next. -/
structure Entering (image : Image) (bios : Bios) (volume : Volume) (m : Machine) : Prop where
  prepared : Prepared image bios volume m.mem
  sp : m.sp = image.stackTop

/-- What the search relies on at the head of `.cLoop`, with the cluster to read next. -/
structure Searching (image : Image) (bios : Bios) (volume : Volume) (name : List UInt8) (n : Nat)
    (m : Machine) : Prop extends Entering image bios volume m where
  esi : m.esi = n
  name : ∀ j < 11, m.mem (image.szFile + j) = name.getD j 0

/-- What the scan of a cluster starts from, whatever has been read. -/
structure RootScan (image : Image) (bios : Bios) (volume : Volume) (m : Machine) : Prop where
  scanning : Scanning image m.mem (image.stackTop - 4) 0 m
  prepared : Prepared image bios volume m.mem

/-- What a read of a directory cluster leaves for the scan. -/
structure RootRead (image : Image) (bios : Bios) (volume : Volume) (name : List UInt8) (n : Nat)
    (m : Machine) : Prop extends RootScan image bios volume m where
  next : m.mem.read (image.stackTop - 4) 4 = volume.fatEntry n
  name : ∀ j < 11, m.mem (image.szFile + j) = name.getD j 0
  data : ∀ k < volume.clusterSize, k < 32 * 32 →
    m.mem (rootBuffer + k) = volume.clusterByte n k

/-- The registers that `.cLoop` sets before its call. -/
theorem openRoot_spec (m : Machine) :
    (openRoot m).sp = m.sp ∧ (openRoot m).esi = m.esi ∧ (openRoot m).mem = m.mem ∧
      (openRoot m).es = 0 ∧ word (openRoot m).ebx = rootBuffer := by
  -- `ES` is zeroed and `BX` set; nothing else is.
  have zero : word 0 = 0 := rfl
  have start : word 0x1000 = rootBuffer := rfl
  cases m
  simp only [openRoot, word_setWord, zero, start, and_self]

/-- The registers that the scan starts with, and what is pushed before it. -/
theorem startScan_spec (image : Image) (name : image.szFile < 2 ^ 16) (room : 4 ≤ m.sp)
    (bound : m.sp < 2 ^ 16) (es : m.es = 0) :
    (startScan image m).mem = m.mem.write (m.sp - 4) 4 m.esi ∧
      Scanning image (startScan image m).mem (m.sp - 4) 0 (startScan image m) := by
  have start : word 0x1000 = rootBuffer := rfl
  have eleven : word 0x000B = 11 := rfl
  have place := word_of_lt name
  have depth : (m.sp + 2 ^ 16 - 4) % 2 ^ 16 = m.sp - 4 := by omega
  -- The cluster number is the only thing that is pushed.
  cases m
  dsimp only at room bound es depth ⊢
  simp only [startScan, Machine.push, depth]
  refine ⟨trivial, rfl, es, ?_, ?_, ?_, Mem.ChangesOnly.refl _ _⟩
  · rw [word_setWord, start, Nat.mul_zero, Nat.add_zero]
  · rw [word_setWord, place]
  · rw [word_setWord, eleven]

/-- The state in which `.cLoop` calls `ReadCluster`. -/
theorem openRoot_buffer (m : Machine) : (openRoot m).buffer = rootBuffer := by
  obtain ⟨-, -, -, es, bx⟩ := openRoot_spec m
  rw [Machine.buffer, es, bx, Nat.zero_mul, Nat.zero_add]

/-- A directory cluster of at most 53 sectors fits below the stack. -/
theorem rootBuffer_fits (small : volume.sectorsPerCluster ≤ mostSectors) :
    rootBuffer + volume.sectorsPerCluster * sectorSize ≤ 0x7A00 := by
  -- 0x1000 and 53 times 512 bytes make 0x7A00.
  have most : mostSectors = 53 := rfl
  have start : rootBuffer = 0x1000 := rfl
  have width : sectorSize = 512 := rfl
  rw [start, width]
  omega

/-- What one turn of `.cLoop` does up to its scan, in the memory that the scan starts with. -/
structure RootTurn (image : Image) (bios : Bios) (volume : Volume) (m m₁ : Machine) : Prop where
  read : ClusterRead image bios volume.sectorsPerCluster (openRoot m) m₁
  pushed : (startScan image m₁).mem = m₁.mem.write (image.stackTop - 4) 4 m₁.esi
  scan : RootScan image bios volume (startScan image m₁)

/-- `.cLoop` gives up, or reads some cluster and sets up the scan. -/
theorem readRoot_turn (searches : image.Searches) (small : volume.sectorsPerCluster ≤ mostSectors)
    (entering : Entering image bios volume m) :
    Meets (Machine.call image.afterReadRoot (readCluster image bios) (openRoot m)) bios.GaveUp
      (RootTurn image bios volume m) := by
  have placed := searches.placed
  have prepared := entering.prepared
  have low := searches.stackLow
  have high := placed.stackHigh
  have depth : stackSize = 64 := rfl
  have fits := rootBuffer_fits small
  have spares := searches.spares fits
  have fat : image.Spares fatBuffer sectorSize := searches.spares (by decide)
  have place := openRoot_buffer m
  obtain ⟨sp, -, mem, es, bx⟩ := openRoot_spec m
  rw [entering.sp] at sp
  rw [← mem] at prepared
  have room : image.Room (openRoot m).sp 44 := by
    rw [sp]
    exact ⟨by omega, Nat.le_refl _⟩
  refine (call_readCluster placed volume.positive prepared.mounted.sectorsPerCluster room
    (by rw [es]; decide) prepared.ready (by rw [place]; exact spares)
    (by rw [place]; exact Nat.le_trans fits (by decide)) fat).mono fun m₁ read => ?_
  have changes := read.changes
  rw [place, sp] at changes
  -- The directory's buffer does not reach into the next segment.
  have es₁ : m₁.es = 0 := by
    rw [read.es (by rw [bx]; omega), es]
  have sp₁ : m₁.sp = image.stackTop := read.sp.trans sp
  have nameHigh := searches.nameHigh
  obtain ⟨pushed, scanning⟩ := startScan_spec image (by omega) (by omega) (by omega) es₁
  rw [sp₁] at pushed scanning
  have saved : Mem.ChangesOnly m₁.mem (startScan image m₁).mem
      (Set.Ico (image.stackTop - 4) (image.stackTop - 4 + 4)) := by
    rw [pushed]
    exact Mem.write_changes _ _ _ _
  have kept := searches.kept (by omega) (by omega) saved
    (prepared.working placed spares fat changes)
  exact ⟨read, pushed, scanning, kept.1⟩

/-- `.cLoop` gives up, or reads the next cluster of the directory and sets up the scan. -/
theorem readRoot_spec (searches : image.Searches) {name : List UInt8}
    (small : volume.sectorsPerCluster ≤ mostSectors) (reaches : volume.Reaches n)
    (searching : Searching image bios volume name n m) :
    Meets (Machine.call image.afterReadRoot (readCluster image bios) (openRoot m)) bios.GaveUp
      fun m' => RootRead image bios volume name n (startScan image m') := by
  refine (readRoot_turn searches small searching.toEntering).mono fun m₁ turn => ?_
  have low := searches.stackLow
  have top := searches.nameStack
  have start : rootBuffer = 0x1000 := rfl
  have fits := rootBuffer_fits small
  obtain ⟨sp, esi, mem, -, -⟩ := openRoot_spec m
  have place := openRoot_buffer m
  have prepared := searching.prepared
  have read := turn.read
  have changes := read.changes
  have pushed := turn.pushed
  rw [place] at changes
  rw [← mem] at prepared
  -- The cluster's number fits in 16 bits, so the sectors that are read are those of the cluster.
  have number : word (openRoot m).esi = n := by
    rw [esi, searching.esi]
    have bound := reaches.entry
    exact word_of_lt (by omega)
  -- What is read spares the name, and what is pushed spares both.
  have kept := searches.name fits changes
  refine ⟨turn.scan, ?_, fun j within => ?_, fun k inside within => ?_⟩
  · have next := read.next prepared reaches number
    rw [pushed, Mem.read_write_self, next]
    exact Nat.mod_eq_of_lt (Mem.read_lt _ _ 4)
  · rw [pushed, Mem.write_apart _ (by omega), kept j within, mem]
    exact searching.name j within
  · have bytes := read.bytes prepared reaches number inside (by
      rw [place]
      simp only [Set.mem_Ico, fatBuffer]
      omega)
    rw [place] at bytes
    rw [pushed, Mem.write_apart _ (by omega)]
    exact bytes

/-- The number of entries that the scan looks at, of those that the cluster has. -/
def Volume.scanned (volume : Volume) : Nat := min 32 volume.entriesPerCluster

/-- The bytes of an entry are in the buffer. -/
theorem RootRead.entry {name : List UInt8} {i j : Nat}
    (read : RootRead image bios volume name n m) (within : i < volume.scanned) (inside : j < 32) :
    m.mem (rootBuffer + 32 * i + j) = volume.entryByte (n, i) j := by
  -- The scan looks at entries of the cluster only, and all its bytes were read.
  have size : volume.clusterSize = volume.sectorsPerCluster * 512 := rfl
  have some : volume.scanned = min 32 (16 * volume.sectorsPerCluster) := rfl
  rw [Nat.add_assoc]
  exact read.data (32 * i + j) (by omega) (by omega)

/-- The scan stops at an entry of the cluster as the search of the directory should. -/
theorem RootRead.stops {name : List UInt8} {i : Nat}
    (read : RootRead image bios volume name n m) (within : i < volume.scanned) :
    hits m.mem image.szFile i = volume.stops name (n, i) := by
  have first := read.entry within (show 0 < 32 by omega)
  rw [Nat.add_zero] at first
  rw [hits, Volume.stops, Volume.isEnd, Volume.isNamed, first]
  -- The name and the entry are both as they were on the disk.
  refine congrArg _ (all_agree fun j member => ?_)
  have inside : j < 11 := List.mem_range.mp member
  rw [read.name j inside, read.entry within (by omega)]
  exact BEq.comm

/-- The stack lies apart from the directory and from the file's name. -/
theorem Image.Searches.apart (searches : image.Searches) : ScanApart image (image.stackTop - 4) := by
  -- The buffer ends below the stack, and the name is part of the code.
  have low := searches.stackLow
  have high := searches.placed.stackHigh
  have name := searches.nameStack
  have depth : stackSize = 64 := rfl
  rw [depth] at low
  refine ⟨?_, by omega, .inr (by omega), searches.nameHigh⟩
  rw [rootBuffer]
  omega

/-- Behind a scan that has found nothing, the saved cluster number is back. -/
theorem RootScan.passed (searches : image.Searches) {m' : Machine}
    (scan : RootScan image bios volume m) (stack : m'.sp = image.stackTop - 4)
    (changes : Mem.ChangesOnly m.mem m'.mem
      (Set.Ico (image.stackTop - 4 - 16) (image.stackTop - 4))) :
    Entering image bios volume (nextRoot m') ∧
      (nextRoot m').esi = m.mem.read (image.stackTop - 4) 4 ∧ (nextRoot m').mem = m'.mem ∧
      ∀ j < 11, m'.mem (image.szFile + j) = m.mem (image.szFile + j) := by
  have low := searches.stackLow
  have high := searches.placed.stackHigh
  have depth : stackSize = 64 := rfl
  obtain ⟨prepared, kept⟩ := searches.kept (by omega) (by omega) changes scan.prepared
  -- The scan's own pushes lie below the saved number.
  have next : m'.mem.read (image.stackTop - 4) 4 = m.mem.read (image.stackTop - 4) 4 :=
    changes.read fun x above below => by
      simp only [Set.mem_Ico]
      omega
  have back : (image.stackTop - 4 + 4) % 2 ^ 16 = image.stackTop := by omega
  cases m'
  dsimp only at stack changes next kept prepared ⊢
  simp only [nextRoot, Machine.drop, Machine.top, stack, back, next, true_and]
  exact ⟨⟨prepared, rfl⟩, kept⟩

/-- Behind a scan that has found nothing, the search goes on with the cluster that comes next. -/
theorem RootRead.passed (searches : image.Searches) {name : List UInt8} {m' : Machine}
    (read : RootRead image bios volume name n m) (stack : m'.sp = image.stackTop - 4)
    (changes : Mem.ChangesOnly m.mem m'.mem
      (Set.Ico (image.stackTop - 4 - 16) (image.stackTop - 4))) :
    Searching image bios volume name (volume.fatEntry n) (nextRoot m') := by
  -- `ESI` holds the next cluster, and the scan has changed the stack alone.
  obtain ⟨entering, esi, mem, kept⟩ := read.toRootScan.passed searches stack changes
  refine ⟨entering, esi.trans read.next, fun j within => ?_⟩
  rw [mem, kept j within]
  exact read.name j within

end Read

end IncroOS
