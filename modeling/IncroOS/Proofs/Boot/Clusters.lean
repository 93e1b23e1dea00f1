import IncroOS.Proofs.Boot.Sectors

/-! `ReadCluster` reads a whole cluster, and `GetNextCluster` follows the file allocation table. -/

namespace IncroOS

open Lib

section Call

variable {image : Image} {size : Nat} {bios : Bios size} {m : Machine} {returnTo : Nat}

/-- A routine that gives the stack back with its return address in place returns behind its call. -/
theorem call_spec {routine : Machine → Run} {allowed : Stop → Prop} {post : Machine → Prop}
    (room : 2 ≤ m.sp) (bound : m.sp < 2 ^ 16)
    (meets : Meets (routine (m.push 2 returnTo)) allowed post)
    (kept : ∀ last, post last → last.sp = m.sp - 2 ∧
      last.mem.read (m.sp - 2) 2 = (m.push 2 returnTo).mem.read (m.sp - 2) 2) :
    Meets (Machine.call returnTo routine m) allowed
      fun m' => ∃ last, post last ∧ m' = last.drop 2 ∧ m'.sp = m.sp := by
  refine Meets.bind meets fun last holds => ?_
  obtain ⟨sp, same⟩ := kept last holds
  -- `ret` finds what `call` has pushed.
  have address : last.top 2 = word returnTo := by
    rw [Machine.top, sp, same, push_mem room bound, Mem.read_write_self]
    rfl
  rw [if_pos address, meets_ok]
  exact ⟨last, holds, rfl, drop_sp room bound sp⟩

/-- `ReadSector` keeps its promise when it is called. -/
theorem call_readSector (placed : image.Placed) {count : Nat} (some : 0 < count)
    (cx : word m.ecx = count) (room : image.Room m.sp 16) (segment : m.es < 2 ^ 16)
    (ready : Ready image m.mem size) (spares : image.Spares m.buffer (count * size))
    (fits : m.buffer + count * size ≤ memoryTop) :
    Meets (Machine.call returnTo (readSector image bios) m)
      (fun stop => stop = .halted ∧ bios.firstTry m.reads count = none)
      (ReadSectorDone image bios count m) := by
  -- The routine's own promise, two bytes further down the stack.
  obtain ⟨sp, -, pushed⟩ := @push_changes m 2 returnTo image 16 placed room (by omega)
  obtain ⟨low, high⟩ := room
  have fit := placed.stackLow
  have top := placed.stackHigh
  have room' : image.Room (m.push 2 returnTo).sp 14 := by
    rw [sp]
    exact ⟨by omega, by omega⟩
  have ready' := ready.kept placed spares (pushed.mono Set.subset_union_left)
  rw [← m.push_buffer 2 returnTo] at spares fits
  rw [← m.push_ecx 2 returnTo] at cx
  rw [← m.push_es 2 returnTo] at segment
  have routine := @readSector_spec image size bios (m.push 2 returnTo) placed _ some cx room' segment
    ready' spares fits
  rw [Machine.push_reads] at routine
  refine (call_spec (by omega) (by omega) routine fun last done => ?_).mono ?_
  · -- The return address is in the part of the stack that is in use.
    have changes := done.read.changes
    rw [sp] at changes
    exact ⟨done.read.sp.trans sp, spares.stack placed changes (by omega) (Nat.le_refl _) (by omega)⟩
  · rintro m' ⟨last, done, rfl, moved⟩
    -- The bytes that the call pushed belong to the free stack of the caller.
    refine ⟨done.read.after_push placed ⟨low, high⟩ (by omega) moved (last.drop_es 2)
      (last.drop_ebx 2) (last.drop_mem 2) (last.drop_reads 2), ?_⟩
    rw [Machine.drop_esi, done.si, Machine.push_esi]

end Call

section Entry

variable {image : Image} {bios : Bios} {m : Machine}

/-- The FAT sector that `GetNextCluster` asks for. -/
def fatSector (mem : Mem) (si : Nat) : Nat :=
  word (word (word (si * 4) / sectorSize + mem.read dHiddenSectors 2) +
    mem.read wReservedSectors 2)

/-- The FAT sector depends on two fields of the parameter block only. -/
theorem fatSector_congr {mem mem' : Mem} (block : ∀ x, 0x7C00 ≤ x → x < dReserved1 → mem' x = mem x)
    (si : Nat) : fatSector mem' si = fatSector mem si := by
  -- Both fields lie below the loader's own variables.
  have hidden : dHiddenSectors = 0x7C1C := rfl
  have reserved : wReservedSectors = 0x7C0E := rfl
  have next : dReserved1 = 0x7C38 := rfl
  rw [fatSector, fatSector,
    Mem.read_congr fun x low high => block x (by omega) (by omega),
    Mem.read_congr fun x low high => block x (by omega) (by omega)]

/-- Where in that sector it looks for the entry. -/
def fatOffset (si : Nat) : Nat := word (si * 4) % sectorSize

/-- The entry lies within its sector. -/
theorem fatOffset_fits (si : Nat) : fatOffset si + 4 ≤ sectorSize := by
  have size : sectorSize = 512 := rfl
  simp only [fatOffset, word, size]
  omega

/-- Where FAT sectors are read to. -/
def fatBuffer : Nat := 0x4000

/-- What `GetNextCluster` has prepared when it calls `ReadSector`. -/
structure EntryLocated (image : Image) (m m' : Machine) : Prop where
  sp : m'.sp = m.sp - 6
  eax : m'.eax = fatSector m.mem (word m.esi)
  cx : word m'.ecx = 1
  bx : word m'.ebx = fatBuffer
  es : m'.es = 0
  offset : m'.mem.read (m.sp - 2) 2 = fatOffset (word m.esi)
  segment : m'.mem.read (m.sp - 4) 2 = 0
  base : m'.mem.read (m.sp - 6) 2 = fatBuffer
  changes : Mem.ChangesOnly m.mem m'.mem (image.scratch m.sp)

/-- A stored word reads back as the low word. -/
theorem mod_word (v : Nat) : v % 256 ^ 2 = word v := rfl

theorem locateEntry_spec (placed : image.Placed) (room : image.Room m.sp 6)
    (size : m.mem.read wBytesPerSector 2 = sectorSize) :
    EntryLocated image m (locateEntry m) := by
  obtain ⟨low, high⟩ := room
  have fit := placed.stackLow
  have top := placed.stackHigh
  have first : (m.sp + 2 ^ 16 - 2) % 2 ^ 16 = m.sp - 2 := by omega
  have second : (m.sp - 2 + 2 ^ 16 - 2) % 2 ^ 16 = m.sp - 4 := by omega
  have third : (m.sp - 4 + 2 ^ 16 - 2) % 2 ^ 16 = m.sp - 6 := by omega
  have zero : word 0 = 0 := rfl
  have base : word 0x4000 = fatBuffer := rfl
  -- The quotient and the remainder of a word are words.
  have bound := word_lt (word m.esi * 4)
  have sector : word (word (word m.esi * 4) / sectorSize) = word (word m.esi * 4) / sectorSize :=
    word_of_lt (Nat.lt_of_le_of_lt (Nat.div_le_self _ _) bound)
  have offset : word (word (word m.esi * 4) % sectorSize) = word (word m.esi * 4) % sectorSize :=
    word_of_lt (Nat.lt_of_le_of_lt (Nat.mod_le _ _) bound)
  cases m
  dsimp only at low high first second third size sector offset ⊢
  simp only [locateEntry, Machine.push, first, second, third, size, setWord_setWord, setWord_zero,
    setWord_word, word_setWord, word_word, zero, Nat.zero_mul, Nat.zero_add]
  constructor
  · rfl
  · simp only [fatSector, sector]
  · rfl
  · rw [word_setWord, base]
  · rfl
  · simp (disch := omega) only [Mem.read_write_self, Mem.read_write_apart, mod_word, offset]
    rw [fatOffset]
  · simp (disch := omega) only [Mem.read_write_self, Mem.read_write_apart]
    rfl
  · simp only [Mem.read_write_self, mod_word, word_setWord, base]
  · intro x outside
    simp only [Image.mem_scratch, not_or, not_and_or] at outside
    simp (disch := omega) only [Mem.write_apart]

/-- What `GetNextCluster` does with the FAT sector: it takes the entry at the saved offset. -/
theorem fetchEntry_spec {offset : Nat} (bound : m.sp + 6 < 2 ^ 16)
    (base : m.mem.read m.sp 2 = fatBuffer) (segment : m.mem.read (m.sp + 2) 2 = 0)
    (saved : m.mem.read (m.sp + 4) 2 = offset) (within : offset < sectorSize) :
    (fetchEntry m).esi = m.mem.read (fatBuffer + offset) 4 ∧
      (fetchEntry m).sp = m.sp + 6 ∧ (fetchEntry m).mem = m.mem := by
  -- The stack does not wrap around within the three words that are popped.
  have second : (m.sp + 2) % 2 ^ 16 = m.sp + 2 := by omega
  have third : (m.sp + 2 + 2) % 2 ^ 16 = m.sp + 4 := by omega
  have last : (m.sp + 4 + 2) % 2 ^ 16 = m.sp + 6 := by omega
  -- The FAT sector and the offset fit in a segment.
  have place : word (setWord m.ebx fatBuffer + setWord m.esi (setWord m.edx offset)) =
      fatBuffer + offset := by
    have low : word (setWord m.ebx fatBuffer) = fatBuffer := word_setWord _ _
    have high : word (setWord m.esi (setWord m.edx offset)) = word offset := by
      rw [word_setWord, word_setWord]
    have size : sectorSize = 512 := rfl
    have start : fatBuffer = 0x4000 := rfl
    simp only [word] at low high ⊢
    omega
  cases m
  dsimp only at bound base segment saved second third last place ⊢
  simp only [fetchEntry, Machine.drop, Machine.top, second, third, last, base, segment, saved,
    place, Nat.zero_mul, Nat.zero_add, and_self]

/-- What `GetNextCluster` leaves: the entry in `ESI`, from the FAT sector in its buffer. -/
structure NextFetched (image : Image) (bios : Bios) (m m' : Machine) : Prop where
  sp : m'.sp = m.sp
  esi : m'.esi = m'.mem.read (fatBuffer + fatOffset (word m.esi)) 4
  changes : Mem.ChangesOnly m.mem m'.mem
    (image.scratch m.sp ∪ Set.Ico fatBuffer (fatBuffer + sectorSize))
  data : ∀ i < sectorSize, m'.mem (fatBuffer + i) =
    bios.sector (m.mem image.bPhysicalDriveNum).toNat (fatSector m.mem (word m.esi)) i

/-- `GetNextCluster` gives up, or fetches the entry of cluster `SI`. -/
theorem getNextCluster_spec (placed : image.Placed) (room : image.Room m.sp 22)
    (ready : Ready image m.mem) (spares : image.Spares fatBuffer sectorSize) :
    Meets (getNextCluster image bios m) bios.GaveUp (NextFetched image bios m) := by
  obtain ⟨low, high⟩ := room
  have fit := placed.stackLow
  have top := placed.stackHigh
  have located := locateEntry_spec placed ⟨by omega, high⟩ ready.bytesPerSector
  have divisor : m.mem.read wBytesPerSector 2 ≠ 0 := by
    rw [ready.bytesPerSector]
    decide
  have place : (locateEntry m).buffer = fatBuffer := by
    rw [Machine.buffer, located.es, located.bx, Nat.zero_mul, Nat.zero_add]
  have room' : image.Room (locateEntry m).sp 16 := by
    rw [located.sp]
    exact ⟨by omega, by omega⟩
  have ready' := ready.kept placed spares (located.changes.mono Set.subset_union_left)
  rw [getNextCluster, if_neg divisor]
  refine Meets.bind ((call_readSector placed Nat.one_pos located.cx room' ?_ ready' ?_ ?_).allow
    fun _ => Bios.gaveUp) ?_
  · rw [located.es]
    omega
  · rw [place, Nat.one_mul]
    exact spares
  · rw [place]
    decide
  intro m₁ done
  have sp : m₁.sp = m.sp - 6 := done.read.sp.trans located.sp
  have changes := done.read.changes
  have data := done.read.data
  rw [place, located.sp, Nat.one_mul] at changes
  rw [place, Nat.one_mul, located.eax, located.changes _ (placed.drive_scratch m.sp)] at data
  -- The three words that are on the stack survive the read.
  have kept : ∀ a, m.sp - 6 ≤ a → a + 2 ≤ image.stackTop →
      m₁.mem.read a 2 = (locateEntry m).mem.read a 2 := fun a used inside =>
    spares.stack placed changes (by omega) used inside
  have below : m.sp - 6 + 2 = m.sp - 4 := by omega
  have above : m.sp - 6 + 4 = m.sp - 2 := by omega
  obtain ⟨esi, back, same⟩ := @fetchEntry_spec m₁ (fatOffset (word m.esi))
    (by omega)
    (by rw [sp, kept _ (by omega) (by omega), located.base])
    (by rw [sp, below, kept _ (by omega) (by omega), located.segment])
    (by rw [sp, above, kept _ (by omega) (by omega), located.offset])
    (Nat.mod_lt _ (by decide))
  rw [meets_ok]
  refine ⟨by omega, by rw [esi, same], ?_, fun i within => ?_⟩
  · rw [same]
    refine (located.changes.mono Set.subset_union_left).trans (changes.mono ?_)
    exact Set.union_subset_union_left _ (image.scratch_mono (by omega))
  · have sector := data i within
    have size : sectorSize = 512 := rfl
    have lba : dword (fatSector m.mem (word m.esi) + i / sectorSize) =
        fatSector m.mem (word m.esi) := by
      have bound : fatSector m.mem (word m.esi) < 2 ^ 16 := word_lt _
      rw [Nat.div_eq_of_lt within, dword]
      omega
    rw [same, sector, lba, Nat.mod_eq_of_lt within]

/-- `GetNextCluster` keeps its promise when it is called. -/
theorem call_getNextCluster {returnTo : Nat} (placed : image.Placed) (room : image.Room m.sp 24)
    (ready : Ready image m.mem) (spares : image.Spares fatBuffer sectorSize) :
    Meets (Machine.call returnTo (getNextCluster image bios) m) bios.GaveUp
      (NextFetched image bios m) := by
  -- The routine's own promise, two bytes further down the stack.
  obtain ⟨sp, -, pushed⟩ := @push_changes m 2 returnTo image 24 placed room (by omega)
  obtain ⟨low, high⟩ := room
  have fit := placed.stackLow
  have top := placed.stackHigh
  have room' : image.Room (m.push 2 returnTo).sp 22 := by
    rw [sp]
    exact ⟨by omega, by omega⟩
  have wide := pushed.mono (Set.subset_union_left (t := Set.Ico fatBuffer (fatBuffer + sectorSize)))
  have ready' := ready.kept placed spares wide
  have routine := @getNextCluster_spec image bios _ placed room' ready' spares
  refine (call_spec (by omega) (by omega) routine fun last done => ?_).mono ?_
  · -- The return address is in the part of the stack that is in use.
    have changes := done.changes
    rw [sp] at changes
    exact ⟨done.sp.trans sp, spares.stack placed changes (by omega) (Nat.le_refl _) (by omega)⟩
  · rintro m' ⟨last, done, rfl, moved⟩
    have changes := done.changes
    have data := done.data
    rw [sp] at changes
    have next : dReserved1 = 0x7C38 := rfl
    -- The call leaves the parameter block alone, so it is the caller's FAT sector.
    have table := fatSector_congr
      (fun x above below => spares.block placed wide above (by omega)) (word m.esi)
    rw [spares.drive placed wide, Machine.push_esi, table] at data
    refine ⟨moved, ?_, ?_, ?_⟩
    · rw [Machine.drop_esi, Machine.drop_mem, done.esi, Machine.push_esi]
    · rw [Machine.drop_mem]
      refine (pushed.mono Set.subset_union_left).trans (changes.mono ?_)
      exact Set.union_subset_union_left _ (image.scratch_mono (by omega))
    · rw [Machine.drop_mem]
      exact data

end Entry


section Cluster

variable {image : Image} {bios : Bios} {m : Machine}

/-- The first sector that `ReadCluster` asks for. -/
def clusterSector (mem : Mem) (si : Nat) : Nat :=
  dword (dword (word (word (si + 2 ^ 16 - 2) * (mem bSectorsPerCluster).toNat) +
    mem.read dReserved0 4) + mem.read dHiddenSectors 4)

/-- The cluster's sector depends on the parameter block and the data's first sector only. -/
theorem clusterSector_congr {mem mem' : Mem}
    (block : ∀ x, 0x7C00 ≤ x → x < dReserved1 → mem' x = mem x) (si : Nat) :
    clusterSector mem' si = clusterSector mem si := by
  -- All three fields lie below the loader's own variables.
  have sectors : bSectorsPerCluster = 0x7C0D := rfl
  have data : dReserved0 = 0x7C34 := rfl
  have hidden : dHiddenSectors = 0x7C1C := rfl
  have next : dReserved1 = 0x7C38 := rfl
  rw [clusterSector, clusterSector, block _ (by omega) (by omega),
    Mem.read_congr fun x low high => block x (by omega) (by omega),
    Mem.read_congr fun x low high => block x (by omega) (by omega)]

/-- What `ReadCluster` has prepared when it calls `ReadSector`. -/
structure ClusterLocated (image : Image) (m m' : Machine) : Prop where
  sp : m'.sp = m.sp - 16
  eax : m'.eax = clusterSector m.mem (word m.esi)
  cx : word m'.ecx = (m.mem bSectorsPerCluster).toNat
  bx : word m'.ebx = word m.ebx
  es : m'.es = m.es
  si : m'.esi = m.esi
  changes : Mem.ChangesOnly m.mem m'.mem (image.scratch m.sp)

theorem push_offset {a width : Nat} (room : width ≤ a) (bound : a < 2 ^ 16) :
    (a + 2 ^ 16 - width) % 2 ^ 16 = a - width := by
  omega

theorem locateCluster_spec (placed : image.Placed) (room : image.Room m.sp 18) :
    ClusterLocated image m (locateCluster m) := by
  obtain ⟨low, high⟩ := room
  have fit := placed.stackLow
  have top := placed.stackHigh
  have size : stackSize = 64 := rfl
  have block := placed.stackBlock
  have sectors : bSectorsPerCluster = 0x7C0D := rfl
  have data : dReserved0 = 0x7C34 := rfl
  have hidden : dHiddenSectors = 0x7C1C := rfl
  cases m
  dsimp only at low high ⊢
  -- What is pushed hides no part of the parameter block, and `pop bx` finds the offset again.
  simp (disch := omega) only [locateCluster, Machine.pusha, Machine.push, Machine.drop,
    Machine.top, push_offset, Nat.sub_sub, Nat.reduceAdd, setWord_zero, setWord_word, word_word,
    setByte_zero, word_setByte_setWord, byte_toNat, mod_word, Mem.read_write_self,
    Mem.read_write_apart, Mem.write_apart]
  constructor
  · dsimp only
    omega
  · rfl
  · exact word_toNat _
  · rw [word_setWord, word_word]
  · rfl
  · rfl
  · intro x outside
    simp only [Image.mem_scratch, not_or, not_and_or] at outside
    simp (disch := omega) only [Mem.write_apart]

/-- What `ReadCluster` may change besides its buffer. -/
def Image.working (image : Image) (sp : Nat) : Set Nat :=
  image.scratch sp ∪ Set.Ico dReserved1 (dReserved1 + 8) ∪
    Set.Ico fatBuffer (fatBuffer + sectorSize)

section Working

variable {mem mem' : Mem} {sp buffer size : Nat}

/-- What is relied on survives a whole `ReadCluster`, but for the variables. -/
theorem Image.Spares.working (spares : image.Spares buffer size)
    (fat : image.Spares fatBuffer sectorSize)
    (changes : Mem.ChangesOnly mem mem' (image.working sp ∪ Set.Ico buffer (buffer + size)))
    {x : Nat} (held : x ∈ image.held) (fixed : x ∉ image.scratch sp)
    (apart : x < dReserved1 ∨ dReserved1 + 8 ≤ x) : mem' x = mem x := by
  refine changes x fun inside => ?_
  -- Each part that changes is apart from what is held.
  rcases inside with ((changed | next) | entry) | data
  · exact fixed changed
  · have low := next.1
    have high := next.2
    omega
  · exact fat x entry.1 entry.2 held
  · exact spares x data.1 data.2 held

theorem Image.Spares.working_block (spares : image.Spares buffer size)
    (fat : image.Spares fatBuffer sectorSize) (placed : image.Placed)
    (changes : Mem.ChangesOnly mem mem' (image.working sp ∪ Set.Ico buffer (buffer + size)))
    {x : Nat} (above : 0x7C00 ≤ x) (below : x < dReserved1) : mem' x = mem x := by
  -- Of the block, `ReadCluster` changes only its variables, from `dReserved1` on.
  have stack := placed.stackBlock
  have packet := placed.dapBlock
  have fits := placed.stackLow
  have next : dReserved1 = 0x7C38 := rfl
  refine spares.working fat changes ?_ ?_ (.inl below)
  · rw [Image.mem_held]
    omega
  · rw [Image.mem_scratch]
    omega

theorem Image.Spares.working_drive (spares : image.Spares buffer size)
    (fat : image.Spares fatBuffer sectorSize) (placed : image.Placed)
    (changes : Mem.ChangesOnly mem mem' (image.working sp ∪ Set.Ico buffer (buffer + size))) :
    mem' image.bPhysicalDriveNum = mem image.bPhysicalDriveNum := by
  have block := placed.driveBlock
  have next : dReserved1 = 0x7C38 := rfl
  exact spares.working fat changes (.inr (.inr (.inl rfl))) (placed.drive_scratch sp) (by omega)

/-- The stack in use survives too. -/
theorem Image.Spares.working_stack (spares : image.Spares buffer size)
    (fat : image.Spares fatBuffer sectorSize) (placed : image.Placed)
    (changes : Mem.ChangesOnly mem mem' (image.working sp ∪ Set.Ico buffer (buffer + size)))
    {a width : Nat} (low : image.stackTop - stackSize ≤ sp) (used : sp ≤ a)
    (high : a + width ≤ image.stackTop) : mem'.read a width = mem.read a width := by
  -- The routine pushes below `sp`, and the packet is apart from the stack.
  have packet := placed.stackDap
  have block := placed.stackBlock
  have next : dReserved1 = 0x7C38 := rfl
  refine Mem.read_congr fun x above below => spares.working fat changes ?_ ?_ (by omega)
  · rw [Image.mem_held]
    omega
  · rw [Image.mem_scratch]
    omega

theorem Image.working_mono {deep : Nat} (below : deep ≤ sp) :
    image.working deep ⊆ image.working sp :=
  Set.union_subset_union_left _ (Set.union_subset_union_left _ (image.scratch_mono below))

theorem Image.scratch_working (image : Image) (sp : Nat) : image.scratch sp ⊆ image.working sp :=
  fun _ member => .inl (.inl member)

theorem Ready.working (ready : Ready image mem) (spares : image.Spares buffer size)
    (fat : image.Spares fatBuffer sectorSize) (placed : image.Placed)
    (changes : Mem.ChangesOnly mem mem' (image.working sp ∪ Set.Ico buffer (buffer + size))) :
    Ready image mem' := by
  -- The packet's count and the sector size are held, and no routine changes them.
  have stack := placed.stackDap
  have block := placed.dapBlock
  have fits := placed.stackLow
  have place : wBytesPerSector = 0x7C0B := rfl
  have next : dReserved1 = 0x7C38 := rfl
  constructor
  · rw [← ready.count]
    refine Mem.read_congr fun x above below => spares.working fat changes ?_ ?_ (by omega)
    · rw [Image.mem_held]
      omega
    · rw [Image.mem_scratch]
      omega
  · rw [← ready.bytesPerSector]
    exact Mem.read_congr fun x above below =>
      spares.working_block fat placed changes (by omega) (by omega)

end Working

/-- The end of `ReadCluster` restores the stack and returns position and next cluster. -/
theorem finishCluster_spec (placed : image.Placed) {sp segment offset : Nat}
    (depth : m.sp = sp - 18) (room : image.Room sp 18) (saved : m.mem.read m.sp 2 = segment)
    (position : m.mem.read dReserved2 2 = offset) :
    (finishCluster m).sp = sp ∧ (finishCluster m).es = segment ∧
      word (finishCluster m).ebx = word offset ∧ (finishCluster m).esi = dword m.esi ∧
      (finishCluster m).mem = m.mem.write dReserved1 4 m.esi := by
  obtain ⟨low, high⟩ := room
  have fit := placed.stackLow
  have top := placed.stackHigh
  have size : stackSize = 64 := rfl
  have block := placed.stackBlock
  have next : dReserved1 = 0x7C38 := rfl
  have behind : dReserved2 = 0x7C3C := rfl
  -- Behind `popa`, position and cluster are read back from the variables.
  cases m
  dsimp only at depth saved position ⊢
  subst depth
  simp (disch := omega) only [finishCluster, Machine.drop, Machine.top, Machine.popa,
    Mem.read_write_apart, saved, position, setWord_setWord, word_setWord]
  refine ⟨by omega, trivial, trivial, ?_, trivial⟩
  rw [Mem.read_write_self]
  rfl

/-- What `ReadCluster` leaves: the cluster in its buffer, and the next cluster in `ESI`. -/
structure ClusterRead (image : Image) (bios : Bios) (count : Nat) (m m' : Machine) : Prop where
  sp : m'.sp = m.sp
  segment : m'.es < 2 ^ 16
  buffer : m'.buffer = m.buffer + count * sectorSize
  es : word m.ebx + count * sectorSize < 2 ^ 16 → m'.es = m.es
  esi : m'.esi = m'.mem.read (fatBuffer + fatOffset (word m.esi)) 4
  changes : Mem.ChangesOnly m.mem m'.mem
    (image.working m.sp ∪ Set.Ico m.buffer (m.buffer + count * sectorSize))
  fat : ∀ i < sectorSize, m'.mem (fatBuffer + i) =
    bios.sector (m.mem image.bPhysicalDriveNum).toNat (fatSector m.mem (word m.esi)) i
  data : ∀ i < count * sectorSize, m.buffer + i ∉ Set.Ico fatBuffer (fatBuffer + sectorSize) →
    m'.mem (m.buffer + i) = bios.sector (m.mem image.bPhysicalDriveNum).toNat
      (dword (clusterSector m.mem (word m.esi) + i / sectorSize)) (i % sectorSize)

/-- Between its calls `ReadCluster` keeps the position in its variable and on the stack. -/
theorem savePosition_spec (placed : image.Placed) (room : image.Room m.sp 2)
    (segment : m.es < 2 ^ 16) :
    (savePosition m).sp = m.sp - 2 ∧ (savePosition m).esi = m.esi ∧
      (savePosition m).mem.read (m.sp - 2) 2 = m.es ∧
      (savePosition m).mem.read dReserved2 2 = word m.ebx ∧
      (savePosition m).mem = (m.mem.write dReserved2 2 m.ebx).write (m.sp - 2) 2 m.es := by
  obtain ⟨low, high⟩ := room
  have fit := placed.stackLow
  have top := placed.stackHigh
  have size : stackSize = 64 := rfl
  have block := placed.stackBlock
  have behind : dReserved2 = 0x7C3C := rfl
  -- The variable lies in the parameter block, away from the word that is pushed.
  cases m
  dsimp only at low high segment ⊢
  simp (disch := omega) only [savePosition, Machine.push, push_offset, Mem.read_write_self,
    Mem.read_write_apart, mod_word, word_of_lt, and_self]

/--
What `ReadCluster` has done when it calls `GetNextCluster`.

The cluster is in its buffer, and the position behind it is saved as a segment and an offset.
-/
structure PositionSaved (image : Image) (bios : Bios) (count segment offset : Nat)
    (m m' : Machine) : Prop where
  sp : m'.sp = m.sp - 18
  si : word m'.esi = word m.esi
  top : m'.mem.read m'.sp 2 = segment
  position : m'.mem.read dReserved2 2 = word offset
  bound : segment < 2 ^ 16
  buffer : segment * 16 + word offset = m.buffer + count * sectorSize
  es : word m.ebx + count * sectorSize < 2 ^ 16 → segment = m.es
  changes : Mem.ChangesOnly m.mem m'.mem
    (image.working m.sp ∪ Set.Ico m.buffer (m.buffer + count * sectorSize))
  data : ∀ i < count * sectorSize, m'.mem (m.buffer + i) =
    bios.sector (m.mem image.bPhysicalDriveNum).toNat
      (dword (clusterSector m.mem (word m.esi) + i / sectorSize)) (i % sectorSize)

/-- `ReadCluster` gives up, or reads the sectors of the cluster and saves the position. -/
theorem readSectors_spec (placed : image.Placed) {count : Nat} (some : 0 < count)
    (sectors : (m.mem bSectorsPerCluster).toNat = count) (room : image.Room m.sp 42)
    (segment : m.es < 2 ^ 16) (ready : Ready image m.mem)
    (spares : image.Spares m.buffer (count * sectorSize))
    (fits : m.buffer + count * sectorSize ≤ memoryTop)
    (fat : image.Spares fatBuffer sectorSize) :
    Meets (Machine.call image.afterReadSector (readSector image bios) (locateCluster m)) bios.GaveUp
      fun m₂ => PositionSaved image bios count m₂.es m₂.ebx m (savePosition m₂) := by
  obtain ⟨low, high⟩ := room
  have fit := placed.stackLow
  have top := placed.stackHigh
  -- The sectors are read to the buffer of the caller.
  have located := locateCluster_spec placed ⟨by omega, high⟩
  generalize locateCluster m = m₁ at located ⊢
  have place : m₁.buffer = m.buffer := by
    rw [Machine.buffer, located.es, located.bx]
    rfl
  have room₁ : image.Room m₁.sp 16 := by
    rw [located.sp]
    exact ⟨by omega, by omega⟩
  have ready₁ := ready.kept placed fat (located.changes.mono Set.subset_union_left)
  refine ((call_readSector placed some (located.cx.trans sectors) room₁
    (by rw [located.es]; exact segment) ready₁ (by rw [place]; exact spares)
    (by rw [place]; exact fits)).allow fun _ => Bios.gaveUp).mono fun m₂ done => ?_
  have sp₂ : m₂.sp = m.sp - 16 := done.read.sp.trans located.sp
  have room₂ : image.Room m₂.sp 2 := by
    rw [sp₂]
    exact ⟨by omega, by omega⟩
  -- Behind the read, the position is stored.
  obtain ⟨sp₃, esi₃, saved, position, mem₃⟩ :=
    savePosition_spec placed room₂ done.read.segment
  generalize savePosition m₂ = m₃ at sp₃ esi₃ saved position mem₃ ⊢
  have size : stackSize = 64 := rfl
  have next : dReserved1 = 0x7C38 := rfl
  have behind : dReserved2 = 0x7C3C := rfl
  have block := placed.stackBlock
  have buffer := done.read.buffer
  have changes₂ := done.read.changes
  rw [place] at buffer
  rw [place, located.sp] at changes₂
  refine ⟨by omega, by rw [esi₃, done.si, located.si], by rw [sp₃, saved], position,
    done.read.segment, buffer, fun stays => ?_, fun x outside => ?_, fun i within => ?_⟩
  · rw [done.read.es (by rw [located.bx]; exact stays), located.es]
  · -- The cluster's buffer, the stack and one variable have changed.
    simp only [Image.working, Image.mem_scratch, Set.mem_union, Set.mem_Ico, not_or,
      not_and_or] at outside
    rw [mem₃, Mem.write_apart _ (by omega), Mem.write_apart _ (by omega), changes₂ x fun inside => ?_,
      located.changes x fun inside => ?_]
    · rw [Image.mem_scratch] at inside
      omega
    · simp only [Set.mem_union, Image.mem_scratch, Set.mem_Ico] at inside
      omega
  · -- Neither what is pushed nor the variable lies in the buffer.
    have outside : m.buffer + i ∉ image.held := spares _ (by omega) (by omega)
    rw [Image.mem_held] at outside
    have sector := done.read.data i within
    rw [place, located.eax, located.changes _ (placed.drive_scratch m.sp)] at sector
    rw [mem₃, Mem.write_apart _ (by omega), Mem.write_apart _ (by omega), sector]

/-- Behind its first call `ReadCluster` gives up, or finds the next cluster and restores the rest. -/
theorem PositionSaved.finish {count segment offset : Nat} {m₃ : Machine} (placed : image.Placed)
    (room : image.Room m.sp 42) (ready : Ready image m.mem)
    (spares : image.Spares m.buffer (count * sectorSize)) (fat : image.Spares fatBuffer sectorSize)
    (saved : PositionSaved image bios count segment offset m m₃) :
    Meets (Machine.call image.afterGetNextCluster (getNextCluster image bios) m₃) bios.GaveUp
      fun m₄ => ClusterRead image bios count m (finishCluster m₄) := by
  obtain ⟨low, high⟩ := room
  have fit := placed.stackLow
  have top := placed.stackHigh
  have sp₃ := saved.sp
  have ready₃ := ready.working spares fat placed saved.changes
  refine (call_getNextCluster placed ⟨by omega, by omega⟩ ready₃ fat).mono fun m₄ fetched => ?_
  have size : stackSize = 64 := rfl
  have next : dReserved1 = 0x7C38 := rfl
  have behind : dReserved2 = 0x7C3C := rfl
  have sp₄ : m₄.sp = m.sp - 18 := fetched.sp.trans sp₃
  have changes₄ := fetched.changes
  rw [sp₃] at changes₄
  -- `GetNextCluster` leaves the saved segment and the saved position alone.
  have segment₄ : m₄.mem.read m₄.sp 2 = segment := by
    rw [fetched.sp, fat.stack placed changes₄ (by omega) (by omega) (by omega), saved.top]
  have offset₄ : m₄.mem.read dReserved2 2 = word offset := by
    rw [← saved.position]
    exact Mem.read_congr fun x above below => fat.block placed changes₄ (by omega) (by omega)
  obtain ⟨sp₅, es₅, bx₅, esi₅, mem₅⟩ :=
    finishCluster_spec placed sp₄ ⟨by omega, high⟩ segment₄ offset₄
  generalize finishCluster m₄ = m₅ at sp₅ es₅ bx₅ esi₅ mem₅ ⊢
  have start₄ : fatBuffer = 0x4000 := rfl
  have width : sectorSize = 512 := rfl
  have entry := fatOffset_fits (word m.esi)
  -- The last write is to a variable.
  have last : ∀ x, x ∉ Set.Ico dReserved1 (dReserved1 + 4) → m₅.mem x = m₄.mem x := by
    rw [mem₅]
    exact Mem.write_changes m₄.mem dReserved1 4 m₄.esi
  have fat₅ : ∀ i < sectorSize, m₅.mem (fatBuffer + i) = m₄.mem (fatBuffer + i) := by
    intro i within
    refine last _ fun inside => ?_
    have low := inside.1
    omega
  refine ⟨sp₅, by rw [es₅]; exact saved.bound, ?_, fun stays => by rw [es₅, saved.es stays], ?_, ?_,
    ?_, ?_⟩
  · rw [Machine.buffer, es₅, bx₅, word_word, saved.buffer]
  · have low := Mem.read_lt m₄.mem (fatBuffer + fatOffset (word m.esi)) 4
    have same : m₅.mem.read (fatBuffer + fatOffset (word m.esi)) 4 =
        m₄.mem.read (fatBuffer + fatOffset (word m.esi)) 4 :=
      Mem.read_congr fun x above below => by
        have byte := fat₅ (x - fatBuffer) (by omega)
        rwa [show fatBuffer + (x - fatBuffer) = x by omega] at byte
    rw [esi₅, fetched.esi, saved.si, same]
    exact dword_of_lt low
  · refine saved.changes.trans fun x outside => ?_
    simp only [Image.working, Image.mem_scratch, Set.mem_union, Set.mem_Ico, not_or,
      not_and_or] at outside
    rw [last x fun inside => ?_, changes₄ x fun inside => ?_]
    · simp only [Set.mem_union, Image.mem_scratch, Set.mem_Ico] at inside
      omega
    · have low := inside.1
      have high := inside.2
      omega
  · intro i within
    rw [fat₅ i within, fetched.data i within, saved.si,
      spares.working_drive fat placed saved.changes, fatSector_congr fun x above below =>
        spares.working_block fat placed saved.changes above below]
  · intro i within apart
    have outside : m.buffer + i ∉ image.held := spares _ (by omega) (by omega)
    rw [Image.mem_held] at outside
    simp only [Set.mem_Ico] at apart
    rw [← saved.data i within, last _ fun inside => ?_, changes₄ _ fun inside => ?_]
    · simp only [Set.mem_union, Image.mem_scratch, Set.mem_Ico] at inside
      omega
    · have low := inside.1
      have high := inside.2
      omega

/-- `ReadCluster` gives up, or reads the cluster and finds the next one. -/
theorem readCluster_spec (placed : image.Placed) {count : Nat} (some : 0 < count)
    (sectors : (m.mem bSectorsPerCluster).toNat = count) (room : image.Room m.sp 42)
    (segment : m.es < 2 ^ 16) (ready : Ready image m.mem)
    (spares : image.Spares m.buffer (count * sectorSize))
    (fits : m.buffer + count * sectorSize ≤ memoryTop)
    (fat : image.Spares fatBuffer sectorSize) :
    Meets (readCluster image bios m) bios.GaveUp (ClusterRead image bios count m) := by
  -- First the sectors are read with `ESI` on the stack, then the next cluster is looked up.
  have first := @readSectors_spec image bios m placed _ some sectors room segment ready spares fits fat
  rw [readCluster]
  exact first.bind fun m₂ saved =>
    (saved.finish placed room ready spares fat).bind fun m₄ read => (meets_ok _ _ _).mpr read

/-- `ReadCluster` keeps its promise when it is called. -/
theorem call_readCluster {returnTo : Nat} (placed : image.Placed) {count : Nat} (some : 0 < count)
    (sectors : (m.mem bSectorsPerCluster).toNat = count) (room : image.Room m.sp 44)
    (segment : m.es < 2 ^ 16) (ready : Ready image m.mem)
    (spares : image.Spares m.buffer (count * sectorSize))
    (fits : m.buffer + count * sectorSize ≤ memoryTop)
    (fat : image.Spares fatBuffer sectorSize) :
    Meets (Machine.call returnTo (readCluster image bios) m) bios.GaveUp
      (ClusterRead image bios count m) := by
  -- The routine's own promise, two bytes further down the stack.
  obtain ⟨sp, -, pushed⟩ := @push_changes m 2 returnTo image 44 placed room (by omega)
  obtain ⟨low, high⟩ := room
  have fit := placed.stackLow
  have top := placed.stackHigh
  have next : dReserved1 = 0x7C38 := rfl
  have room' : image.Room (m.push 2 returnTo).sp 42 := by
    rw [sp]
    exact ⟨by omega, by omega⟩
  have wide := pushed.mono (Set.subset_union_left (t := Set.Ico fatBuffer (fatBuffer + sectorSize)))
  have ready' := ready.kept placed fat wide
  have block := fun x above below =>
    @Image.Spares.block image _ _ _ _ _ fat placed wide x above below
  have sectors' : ((m.push 2 returnTo).mem bSectorsPerCluster).toNat = count := by
    rw [block _ (by decide) (by decide), sectors]
  have behind := m.push_buffer 2 returnTo
  have body := @readCluster_spec image bios (m.push 2 returnTo) placed _ some sectors' room'
    (by rw [Machine.push_es]; exact segment) ready' (by rw [behind]; exact spares)
    (by rw [behind]; exact fits) fat
  refine (call_spec (by omega) (by omega) body fun last done => ?_).mono ?_
  · -- The return address is in the part of the stack that is in use.
    have changes := done.changes
    rw [sp, behind] at changes
    exact ⟨done.sp.trans sp,
      spares.working_stack fat placed changes (by omega) (Nat.le_refl _) (by omega)⟩
  · rintro m' ⟨last, done, rfl, moved⟩
    -- The call leaves the parameter block alone, so the sectors are those of the caller's cluster.
    have table := fatSector_congr (fun x above below => block x above (by omega)) (word m.esi)
    have first := clusterSector_congr (fun x above below => block x above (by omega)) (word m.esi)
    have drive := fat.drive placed wide
    have place := done.buffer
    have stays := done.es
    have entry := done.esi
    have changes := done.changes
    have sector := done.fat
    have data := done.data
    rw [Machine.buffer, behind] at place
    rw [Machine.push_ebx, Machine.push_es] at stays
    rw [Machine.push_esi] at entry
    rw [sp, behind] at changes
    rw [Machine.push_esi, table, drive] at sector
    rw [Machine.push_esi, first, drive, behind] at data
    refine ⟨moved, ?_, ?_, ?_, ?_, ?_, ?_, ?_⟩
    · rw [Machine.drop_es]
      exact done.segment
    · rw [Machine.buffer, Machine.drop_es, Machine.drop_ebx, place]
    · rw [Machine.drop_es]
      exact stays
    · rw [Machine.drop_esi, Machine.drop_mem, entry]
    · rw [Machine.drop_mem]
      refine (pushed.mono ?_).trans (changes.mono ?_)
      · exact (image.scratch_working m.sp).trans Set.subset_union_left
      · exact Set.union_subset_union_left _ (Image.working_mono (by omega))
    · rw [Machine.drop_mem]
      exact sector
    · rw [Machine.drop_mem]
      exact data

end Cluster

end IncroOS
