import IncroOS.Lib.Outcome
import IncroOS.Proofs.Boot.Placement

/-! Every sector that `ReadSector` asks for arrives in its place, and nothing else is disturbed. -/

namespace IncroOS

open Lib

section Attempt

variable {image : Image} {size : Nat} {bios : Bios size} {m : Machine}

/-- The memory at `int 13h`. -/
theorem issueRead_mem (placed : image.Placed) (room : image.Room m.sp 12) :
    (issueRead image m).sp = m.sp - 12 ∧
    (issueRead image m).mem =
      ((((((m.mem.write (m.sp - 4) 4 m.eax).write (m.sp - 8) 4 m.ebx).write (m.sp - 12) 4
        m.ecx).write (image.dap + 4) 2 m.ebx).write (image.dap + 6) 2 m.es).write
        (image.dap + 8) 4 m.eax).write (image.dap + 12) 4 0 := by
  obtain ⟨low, high⟩ := room
  have top := placed.stackHigh
  have size := placed.stackLow
  -- The stack does not wrap around within the three pushes.
  have first : (m.sp + 2 ^ 16 - 4) % 2 ^ 16 = m.sp - 4 := by omega
  have second : (m.sp - 4 + 2 ^ 16 - 4) % 2 ^ 16 = m.sp - 8 := by omega
  have third : (m.sp - 8 + 2 ^ 16 - 4) % 2 ^ 16 = m.sp - 12 := by omega
  simp only [issueRead, Machine.push, first, second, third, and_self]

/-- Filling in the packet changes the stack and the packet only. -/
theorem issueRead_changes (placed : image.Placed) (room : image.Room m.sp 12) :
    Mem.ChangesOnly m.mem (issueRead image m).mem (image.scratch m.sp) := by
  -- Three pushes and four fields of the packet are all that is written.
  obtain ⟨-, mem⟩ := issueRead_mem placed room
  obtain ⟨low, high⟩ := room
  have fits := placed.stackLow
  have size : stackSize = 64 := rfl
  rw [mem]
  intro x outside
  simp only [Image.mem_scratch, not_or, not_and_or] at outside
  simp (disch := omega) only [Mem.write_apart]

theorem issueRead_reads (image : Image) (m : Machine) : (issueRead image m).reads = m.reads := by
  -- With every field a variable, comparing the two sides compares no memories.
  cases m
  simp only [issueRead, Machine.push]

theorem issueRead_es (image : Image) (m : Machine) : (issueRead image m).es = m.es := by
  cases m
  simp only [issueRead, Machine.push]

/-- The drive that the BIOS is asked for is the one that the loader was started from. -/
theorem issueRead_drive (placed : image.Placed) (room : image.Room m.sp 12) :
    byte (issueRead image m).edx = (m.mem image.bPhysicalDriveNum).toNat := by
  -- The saved registers and the packet lie apart from the drive number.
  have kept : (issueRead image m).mem image.bPhysicalDriveNum = m.mem image.bPhysicalDriveNum :=
    issueRead_changes placed room _ (placed.drive_scratch m.sp)
  have low : byte (issueRead image m).edx =
      byte ((issueRead image m).mem image.bPhysicalDriveNum).toNat := by
    simp only [issueRead, byte_setByte]
  have small := (m.mem image.bPhysicalDriveNum).toNat_lt
  rw [low, kept]
  exact Nat.mod_eq_of_lt small

/-- The packet that the BIOS finds asks for one sector, to the buffer. -/
theorem issueRead_packet (placed : image.Placed) (room : image.Room m.sp 12)
    (segment : m.es < 2 ^ 16) (count : m.mem.read (image.dap + 2) 2 = 1) :
    (issueRead image m).mem.read (image.dap + 2) 2 = 1 ∧
    (issueRead image m).mem.read (image.dap + 4) 2 = word m.ebx ∧
    (issueRead image m).mem.read (image.dap + 6) 2 = m.es ∧
    (issueRead image m).mem.read (image.dap + 8) 8 = dword m.eax := by
  obtain ⟨-, mem⟩ := issueRead_mem placed room
  obtain ⟨low, high⟩ := room
  have apart := placed.stackDap
  have fits := placed.stackLow
  have size : stackSize = 64 := rfl
  -- The number of the first sector is two double words long.
  have split : ∀ mem : Mem, mem.read (image.dap + 8) 8 =
      mem.read (image.dap + 8) 4 + 256 ^ 4 * mem.read (image.dap + 12) 4 :=
    fun mem => mem.read_add (image.dap + 8) 4 4
  rw [split, mem]
  refine ⟨?_, ?_, ?_, ?_⟩
  · simp (disch := omega) only [Mem.read_write_apart, count]
  · simp (disch := omega) only [Mem.read_write_self, Mem.read_write_apart]
    rfl
  · simp (disch := omega) only [Mem.read_write_self, Mem.read_write_apart]
    exact Nat.mod_eq_of_lt segment
  · simp (disch := omega) only [Mem.read_write_self, Mem.read_write_apart]
    rfl

/-- The stack that the BIOS leaves alone holds the three registers. -/
theorem issueRead_saved (placed : image.Placed) (room : image.Room m.sp 12) :
    (issueRead image m).mem.read (m.sp - 12) 4 = dword m.ecx ∧
    (issueRead image m).mem.read (m.sp - 8) 4 = dword m.ebx ∧
    (issueRead image m).mem.read (m.sp - 4) 4 = dword m.eax := by
  obtain ⟨-, mem⟩ := issueRead_mem placed room
  obtain ⟨low, high⟩ := room
  have apart := placed.stackDap
  have fits := placed.stackLow
  have size : stackSize = 64 := rfl
  rw [mem]
  -- The packet lies apart from the stack, so each register is what was pushed.
  refine ⟨?_, ?_, ?_⟩
  · simp (disch := omega) only [Mem.read_write_self, Mem.read_write_apart]
    rfl
  · simp (disch := omega) only [Mem.read_write_self, Mem.read_write_apart]
    rfl
  · simp (disch := omega) only [Mem.read_write_self, Mem.read_write_apart]
    rfl

/-- What the call to the BIOS does when the packet asks for one sector. -/
theorem Bios.read_one {packet buffer lba : Nat} (place : word m.esi = packet)
    (count : m.mem.read (packet + 2) 2 = 1)
    (target : m.mem.read (packet + 6) 2 * 16 + m.mem.read (packet + 4) 2 = buffer)
    (start : m.mem.read (packet + 8) 8 = lba) :
    Mem.ChangesOnly m.mem (bios.read m).mem (Set.Ico buffer (buffer + size)) ∧
    (bios.fails m.reads = false → ∀ i < size,
      (bios.read m).mem (buffer + i) = bios.sector (byte m.edx) lba i) := by
  -- The packet is for one sector, so the BIOS writes as many bytes as a sector has.
  simp only [Bios.read, place, count, target, start, Nat.one_mul]
  refine ⟨fun x outside => if_neg outside, fun success i within => ?_⟩
  have inside : buffer ≤ buffer + i ∧ buffer + i < buffer + size := by omega
  rw [if_pos inside, success, if_neg Bool.false_ne_true, Nat.add_sub_cancel_left,
    Nat.div_eq_of_lt within, Nat.mod_eq_of_lt within, Nat.add_zero]

@[simp] theorem restoreRead_mem (m : Machine) : (restoreRead m).mem = m.mem := rfl

@[simp] theorem restoreRead_es (m : Machine) : (restoreRead m).es = m.es := rfl

@[simp] theorem restoreRead_reads (m : Machine) : (restoreRead m).reads = m.reads := rfl

@[simp] theorem Bios.read_reads (m : Machine) : (bios.read m).reads = m.reads + 1 := rfl

@[simp] theorem Bios.read_es (m : Machine) : (bios.read m).es = m.es := rfl

/-- What one pass of `.sLoop` leaves: one sector in its buffer, and the registers as they were. -/
structure Attempted (image : Image) (size : Nat) (m m' : Machine) : Prop where
  eax : m'.eax = dword m.eax
  ebx : m'.ebx = dword m.ebx
  ecx : m'.ecx = dword m.ecx
  sp : m'.sp = m.sp
  es : m'.es = m.es
  changes : Mem.ChangesOnly m.mem m'.mem
    (image.scratch m.sp ∪ Set.Ico m.buffer (m.buffer + size))

/-- One try reads the sector or fails, and restores the registers either way. -/
theorem attempt_spec (placed : image.Placed) (room : image.Room m.sp 12) (segment : m.es < 2 ^ 16)
    (count : m.mem.read (image.dap + 2) 2 = 1) (spares : image.Spares m.buffer size) :
    Attempted image size m (restoreRead (bios.read (issueRead image m))) ∧
    (bios.fails m.reads = false → ∀ i < size,
      (restoreRead (bios.read (issueRead image m))).mem (m.buffer + i) =
        bios.sector (m.mem image.bPhysicalDriveNum).toNat (dword m.eax) i) := by
  obtain ⟨one, offset, seg, lba⟩ := issueRead_packet placed room segment count
  obtain ⟨savedEcx, savedEbx, savedEax⟩ := issueRead_saved placed room
  obtain ⟨sp, -⟩ := issueRead_mem placed room
  have place : word (issueRead image m).esi = image.dap := by
    simp only [issueRead, word_setWord]
    have high := placed.dapHigh
    exact Nat.mod_eq_of_lt (by omega)
  have target : (issueRead image m).mem.read (image.dap + 6) 2 * 16 +
      (issueRead image m).mem.read (image.dap + 4) 2 = m.buffer := by
    rw [seg, offset]
    rfl
  obtain ⟨changes, data⟩ := @Bios.read_one size bios _ _ _ _ place one target lba
  have drive : byte (issueRead image m).edx = (m.mem image.bPhysicalDriveNum).toNat :=
    issueRead_drive placed room
  have moved : (bios.read (issueRead image m)).sp = m.sp - 12 := sp
  -- The saved registers lie on the stack, which the buffer spares.
  have kept : ∀ a, image.stackTop - stackSize ≤ a → a + 4 ≤ image.stackTop →
      (bios.read (issueRead image m)).mem.read a 4 = (issueRead image m).mem.read a 4 := by
    intro a low high
    refine changes.read fun x above below inside => spares x inside.1 inside.2 ?_
    rw [Image.mem_held]
    omega
  have bounds := room
  obtain ⟨low, high⟩ := bounds
  have fits := placed.stackLow
  have top := placed.stackHigh
  have second : (m.sp - 12 + 4) % 2 ^ 16 = m.sp - 8 := by omega
  have third : (m.sp - 8 + 4) % 2 ^ 16 = m.sp - 4 := by omega
  have last : (m.sp - 4 + 4) % 2 ^ 16 = m.sp := by omega
  refine ⟨⟨?_, ?_, ?_, ?_, ?_, ?_⟩, ?_⟩
  · simp only [restoreRead, Machine.drop, Machine.top, moved, second, third]
    rw [kept _ (by omega) (by omega), savedEax]
  · simp only [restoreRead, Machine.drop, Machine.top, moved, second]
    rw [kept _ (by omega) (by omega), savedEbx]
  · simp only [restoreRead, Machine.drop, Machine.top, moved]
    rw [kept _ (by omega) (by omega), savedEcx]
  · simp only [restoreRead, Machine.drop, moved, second, third, last]
  · rw [restoreRead_es, Bios.read_es, issueRead_es]
  · have packet := (issueRead_changes placed room).mono
      (Set.subset_union_left (t := Set.Ico m.buffer (m.buffer + size)))
    have sector := changes.mono (Set.subset_union_right (s := image.scratch m.sp))
    rw [restoreRead_mem]
    exact packet.trans sector
  · intro success i within
    rw [restoreRead_mem, ← drive]
    refine data ?_ i within
    rw [issueRead_reads, success]

/-- Whether a reset was made in between does not show once the registers are restored. -/
theorem restoreRead_reset (m : Machine) (v : Nat) :
    restoreRead (bios.reset { m with eax := v }) = restoreRead m := rfl

theorem Attempted.buffer {m' : Machine} (attempted : Attempted image size m m') :
    m'.buffer = m.buffer := by
  simp only [Machine.buffer, attempted.es, attempted.ebx, word_dword]

/-- A further pass adds nothing to what the passes before it changed. -/
theorem Attempted.trans {m₁ m₂ : Machine} (first : Attempted image size m m₁)
    (second : Attempted image size m₁ m₂) : Attempted image size m m₂ := by
  -- The second pass starts with the registers of the first, so its changes are in the same places.
  have place := first.buffer
  refine ⟨?_, ?_, ?_, second.sp.trans first.sp, second.es.trans first.es, ?_⟩
  · rw [second.eax, first.eax, dword_dword]
  · rw [second.ebx, first.ebx, dword_dword]
  · rw [second.ecx, first.ecx, dword_dword]
  · have changes := second.changes
    rw [place, first.sp] at changes
    exact first.changes.trans changes

/-- The number of the read behind the first one that succeeds, among so many from one on. -/
def Bios.served (bios : Bios size) : Nat → Nat → Option Nat
  | 0, _ => none
  | tries + 1, k => if bios.fails k then bios.served tries (k + 1) else some (k + 1)

/-- No read succeeds exactly when each of them fails. -/
theorem Bios.served_none {tries k : Nat} :
    bios.served tries k = none ↔ ∀ j < tries, bios.fails (k + j) = true := by
  -- The first read fails, and so do those behind it.
  induction tries generalizing k with
  | zero => exact iff_of_true rfl fun j below => absurd below (Nat.not_lt_zero j)
  | succ tries ih =>
    rw [Bios.served, Nat.forall_lt_succ_left, Nat.add_zero]
    cases failed : bios.fails k with
    | false => simp
    | true =>
      rw [if_pos rfl, ih]
      simp only [true_and, Nat.add_assoc, Nat.add_comm 1]

/-- What `.sLoop` leaves once a try succeeds: the sector in its buffer. -/
structure SectorGot (image : Image) {size : Nat} (bios : Bios size) (tries : Nat)
    (m m' : Machine) : Prop where
  attempted : Attempted image size m m'
  sector : ∀ i < size, m'.mem (m.buffer + i) =
    bios.sector (m.mem image.bPhysicalDriveNum).toNat (dword m.eax) i
  served : bios.served tries m.reads = some m'.reads

/-- After a failed try the sector is what the tries behind it get. -/
theorem SectorGot.retry {m₁ m₂ : Machine} {tries : Nat} (placed : image.Placed)
    (spares : image.Spares m.buffer size) (tried : Attempted image size m m₁)
    (failed : bios.fails m.reads = true) (asked : m₁.reads = m.reads + 1)
    (got : SectorGot image bios tries m₁ m₂) : SectorGot image bios (tries + 1) m m₂ := by
  -- The failed try left the registers as they were, and the next try asks for the same sector.
  refine ⟨tried.trans got.attempted, fun i within => ?_, ?_⟩
  · rw [← tried.buffer, got.sector i within, spares.drive placed tried.changes, tried.eax,
      dword_dword]
  · rw [Bios.served, if_pos failed, ← asked, got.served]

/-- `.sLoop` halts once all its tries have failed, or the sector is in its buffer. -/
theorem sLoop_spec (placed : image.Placed) (tries : Nat) (room : image.Room m.sp 12)
    (segment : m.es < 2 ^ 16) (count : m.mem.read (image.dap + 2) 2 = 1)
    (spares : image.Spares m.buffer size) :
    Meets (sLoop image bios tries m)
      (fun stop => stop = .halted ∧ bios.served tries m.reads = none)
      (SectorGot image bios tries m) := by
  -- The induction is on the tries that are left.
  induction tries generalizing m with
  | zero =>
    rw [sLoop, meets_error]
    exact ⟨rfl, rfl⟩
  | succ di ih =>
    obtain ⟨attempted, data⟩ :=
      @attempt_spec image size bios { m with edi := setWord m.edi (di + 1) } placed room
        segment count spares
    have tried : Attempted image size m _ := ⟨attempted.eax, attempted.ebx, attempted.ecx,
      attempted.sp, attempted.es, attempted.changes⟩
    have asked : (restoreRead (bios.read (issueRead image
        { m with edi := setWord m.edi (di + 1) }))).reads = m.reads + 1 := by
      simp only [restoreRead_reads, Bios.read_reads, issueRead_reads]
    cases failed : bios.fails m.reads with
    | false =>
      simp only [sLoop, failed, Bool.false_eq_true, if_false, meets_ok]
      refine ⟨tried, data failed, ?_⟩
      rw [Bios.served, failed, if_neg Bool.false_ne_true, asked]
    | true =>
      simp only [sLoop, failed, if_true, restoreRead_reset]
      -- The next try starts with the same registers and the same buffer.
      generalize restoreRead _ = next at tried asked ⊢
      have again := @ih next (by rw [tried.sp]; exact room) (by rw [tried.es]; exact segment)
        ((spares.count placed tried.changes).trans count) (by rw [tried.buffer]; exact spares)
      have read := again.mono fun last got => SectorGot.retry placed spares tried failed asked got
      refine read.allow fun stop given => ⟨given.1, ?_⟩
      rw [Bios.served, if_pos failed, ← asked, given.2]

end Attempt

section Tries

variable {size : Nat} {bios : Bios size} {first : Nat}

/-- The number of the first read of the sector with the given index, once those before it are read. -/
def Bios.firstTry (bios : Bios size) (first : Nat) : Nat → Option Nat
  | 0 => some first
  | i + 1 => (bios.firstTry first i).bind (bios.served 5)

/-- Five reads in a row fail on one of the sectors. -/
def Bios.Exhausts (bios : Bios size) (first count : Nat) : Prop :=
  ∃ i < count, ∃ k, bios.firstTry first i = some k ∧ ∀ j < 5, bios.fails (k + j) = true

/-- The sectors behind the first one are read as if they were all. -/
theorem Bios.firstTry_succ (i : Nat) :
    bios.firstTry first (i + 1) = (bios.served 5 first).bind fun k => bios.firstTry k i := by
  -- By induction on the sectors behind the first one.
  induction i with
  | zero => simp only [Bios.firstTry, Option.bind_some, Option.bind_fun_some]
  | succ i ih =>
    rw [Bios.firstTry, ih, Option.bind_assoc]
    rfl

/-- The sectors are not all read exactly when five reads of one of them fail. -/
theorem Bios.exhausts_iff {count : Nat} :
    bios.Exhausts first count ↔ bios.firstTry first count = none := by
  -- The induction adds the last sector.
  induction count with
  | zero => exact iff_of_false (fun ⟨i, below, _⟩ => Nat.not_lt_zero i below) (Option.some_ne_none _)
  | succ count ih =>
    rw [Bios.firstTry, Option.bind_eq_none_iff]
    constructor
    · rintro ⟨i, below, k, here, failures⟩ last reached
      rcases Nat.lt_succ_iff_lt_or_eq.mp below with earlier | rfl
      · have stopped := ih.mp ⟨i, earlier, k, here, failures⟩
        rw [stopped] at reached
        exact absurd reached.symm (Option.some_ne_none last)
      · rw [here, Option.some.injEq] at reached
        exact Bios.served_none.mpr (reached ▸ failures)
    · intro unserved
      cases reached : bios.firstTry first count with
      | none =>
        obtain ⟨i, below, rest⟩ := ih.mpr reached
        exact ⟨i, Nat.lt_succ_of_lt below, rest⟩
      | some k =>
        exact ⟨count, Nat.lt_succ_self count, k, reached, Bios.served_none.mp (unserved k reached)⟩

end Tries

/-- The loader gives up only when five tries in a row have failed. -/
def Bios.GaveUp {size : Nat} (bios : Bios size) (stop : Stop) : Prop :=
  stop = .halted ∧ ∃ k, ∀ j < 5, bios.fails (k + j) = true

/-- A routine that stops on a sector gives up. -/
theorem Bios.gaveUp {size : Nat} {bios : Bios size} {first count : Nat} {stop : Stop}
    (exhausted : stop = .halted ∧ bios.firstTry first count = none) : bios.GaveUp stop := by
  obtain ⟨i, -, k, -, failures⟩ := Bios.exhausts_iff.mpr exhausted.2
  exact ⟨exhausted.1, k, failures⟩

/-- The end of the memory that files are loaded to. -/
def memoryTop : Nat := 0xA0000

section Sectors

variable {image : Image} {size : Nat} {bios : Bios size} {m : Machine}

/-- `add dh, 0x10` moves a segment on by 64 KiB. -/
theorem word_add_high (r : Nat) : word (setHighByte r (r / 2 ^ 8 + 0x10)) = word (r + 0x1000) := by
  simp only [word, setHighByte]
  omega

/-- `ES:BX` moves one sector on. -/
theorem nextSector_buffer (block : m.mem.read wBytesPerSector 2 = size)
    (fits : m.buffer + size ≤ memoryTop) :
    (nextSector m).buffer = m.buffer + size := by
  -- A sector's size is a word, so that the offset carries at most once.
  have width := m.mem.read_lt wBytesPerSector 2
  rw [block] at width
  have top : memoryTop = 0xA0000 := rfl
  have low := word_lt m.ebx
  simp only [Machine.buffer] at fits
  by_cases wraps : word m.ebx + size < 2 ^ 16
  · -- Without a carry the segment stays.
    have offset : word (word m.ebx + size) = word m.ebx + size := word_of_lt wraps
    simp only [nextSector, block, if_pos wraps, Machine.buffer, word_setWord, offset]
    omega
  · -- A carry is made up for by the segment.
    have offset : word (word m.ebx + size) = word m.ebx + size - 2 ^ 16 := by
      rw [word]
      omega
    have moved : word (setWord m.edx m.es + 0x1000) = m.es + 0x1000 := by
      simp only [word, setWord]
      omega
    simp only [nextSector, block, if_neg wraps, Machine.buffer, word_setWord, word_add_high, moved,
      offset]
    omega

/-- The segment stays while the offset does not wrap. -/
theorem nextSector_es (block : m.mem.read wBytesPerSector 2 = size)
    (fits : word m.ebx + size < 2 ^ 16) : (nextSector m).es = m.es := by
  simp only [nextSector, block, if_pos fits]

theorem nextSector_segment (segment : m.es < 2 ^ 16) : (nextSector m).es < 2 ^ 16 := by
  -- `ES` stays, or it is a word again.
  simp only [nextSector]
  split
  · exact segment
  · exact word_lt _

/-- Everything else that the sector loop uses stays, but for the sector's number. -/
theorem nextSector_rest (m : Machine) :
    (nextSector m).eax = dword (m.eax + 1) ∧ (nextSector m).ecx = m.ecx ∧
      (nextSector m).sp = m.sp ∧ (nextSector m).mem = m.mem ∧ (nextSector m).reads = m.reads := by
  simp only [nextSector]
  split <;> exact ⟨rfl, rfl, rfl, rfl, rfl⟩

/-- What the sector loop leaves after the given number of sectors. -/
structure SectorsRead (image : Image) {size : Nat} (bios : Bios size) (count : Nat)
    (m m' : Machine) : Prop where
  sp : m'.sp = m.sp
  segment : m'.es < 2 ^ 16
  buffer : m'.buffer = m.buffer + count * size
  es : word m.ebx + count * size < 2 ^ 16 → m'.es = m.es
  changes : Mem.ChangesOnly m.mem m'.mem
    (image.scratch m.sp ∪ Set.Ico m.buffer (m.buffer + count * size))
  data : ∀ i < count * size, m'.mem (m.buffer + i) =
    bios.sector (m.mem image.bPhysicalDriveNum).toNat (dword (m.eax + i / size))
      (i % size)
  tries : bios.firstTry m.reads count = some m'.reads

/-- What `ReadSector` needs to find. -/
structure Ready (image : Image) (mem : Mem) (size : Nat := sectorSize) : Prop where
  count : mem.read (image.dap + 2) 2 = 1
  bytesPerSector : mem.read wBytesPerSector 2 = size

/-- What `ReadSector` needs survives every read that spares it. -/
theorem Ready.kept {mem mem' : Mem} {sp buffer length : Nat} (ready : Ready image mem size)
    (placed : image.Placed) (spares : image.Spares buffer length)
    (changes : Mem.ChangesOnly mem mem' (image.scratch sp ∪ Set.Ico buffer (buffer + length))) :
    Ready image mem' size := by
  -- The count is in the packet below what changes, the sector size in the parameter block.
  have place : wBytesPerSector = 0x7C0B := rfl
  refine ⟨(spares.count placed changes).trans ready.count, ?_⟩
  rw [← ready.bytesPerSector]
  exact Mem.read_congr fun x above below =>
    spares.block placed changes (by omega) (by omega)

/-- The position one sector further on, with the next sector's number. -/
structure MovedOn (size : Nat) (m m' : Machine) : Prop where
  sp : m'.sp = m.sp
  mem : m'.mem = m.mem
  eax : m'.eax = dword (m.eax + 1)
  ecx : word m'.ecx = word (word m.ecx + 2 ^ 16 - 1)
  reads : m'.reads = m.reads
  buffer : m'.buffer = m.buffer + size
  es : word m.ebx + size < 2 ^ 16 → m'.es = m.es
  segment : m'.es < 2 ^ 16

/-- The end of a turn moves on by one sector. -/
theorem movedOn_turn (block : m.mem.read wBytesPerSector 2 = size) (segment : m.es < 2 ^ 16)
    (fits : m.buffer + size ≤ memoryTop) : MovedOn size m (nextSector m).countDown := by
  obtain ⟨eax, ecx, sp, mem, reads⟩ := nextSector_rest m
  -- The buffer may move to the next segment, the linear address goes on by one sector.
  have place := nextSector_buffer block fits
  have stays := nextSector_es block
  have small := nextSector_segment segment
  generalize nextSector m = next at *
  cases next
  refine ⟨sp, mem, eax, ?_, reads, ?_, stays, small⟩
  · rw [← ecx]
    exact word_setWord _ _
  · rw [Machine.buffer] at place ⊢
    exact place

/-- Nothing has been read yet. -/
theorem SectorsRead.nil (image : Image) {size : Nat} (bios : Bios size) (segment : m.es < 2 ^ 16) :
    SectorsRead image bios 0 m m :=
  ⟨rfl, segment, by omega, fun _ => rfl, Mem.ChangesOnly.refl _ _, fun i below => by omega, rfl⟩

/-- The first sector, and then the others behind it. -/
theorem SectorsRead.cons {m₁ m₂ m₃ : Machine} {count : Nat} (placed : image.Placed)
    (spares : image.Spares m.buffer ((count + 1) * size))
    (got : SectorGot image bios 5 m m₁) (moved : MovedOn size m₁ m₂)
    (rest : SectorsRead image bios count m₂ m₃) : SectorsRead image bios (count + 1) m m₃ := by
  obtain ⟨attempted, sector, served⟩ := got
  have total : (count + 1) * size = count * size + size := Nat.succ_mul _ _
  have first : m₂.buffer = m.buffer + size := by rw [moved.buffer, attempted.buffer]
  have drive := (spares.part (Nat.le_refl _) (by omega)).drive placed attempted.changes
  -- The rest starts one sector later, at the buffer behind this one.
  have start : m₂.eax = dword (m.eax + 1) := by
    rw [moved.eax, attempted.eax]
    simp only [dword]
    omega
  have changes := rest.changes
  rw [first, moved.mem, moved.sp, attempted.sp] at changes
  refine ⟨?_, rest.segment, ?_, ?_, ?_, ?_, ?_⟩
  · rw [rest.sp, moved.sp, attempted.sp]
  · rw [rest.buffer, first]
    omega
  · intro fits
    have here : word m₁.ebx = word m.ebx := by rw [attempted.ebx, word_dword]
    have same := moved.es (by omega)
    have offset : word m₂.ebx = word m₁.ebx + size := by
      have place := moved.buffer
      simp only [Machine.buffer, same] at place
      omega
    rw [rest.es (by omega), same, attempted.es]
  · -- This sector and the rest are parts of the whole buffer.
    refine (attempted.changes.mono ?_).trans (changes.mono ?_)
    · exact Set.union_subset_union_right _ (Set.Ico_subset_Ico_right (by omega))
    · exact Set.union_subset_union_right _ (Set.Ico_subset_Ico (by omega) (by omega))
  · intro i within
    by_cases here : i < size
    · -- The later reads leave the first sector alone.
      have apart : m.buffer + i ∉ image.scratch m.sp ∪
          Set.Ico (m.buffer + size) (m.buffer + size + count * size) := by
        rintro (changed | later)
        · exact spares (m.buffer + i) (by omega) (by omega) (image.scratch_held m.sp changed)
        · have above := later.1
          omega
      rw [changes _ apart, sector i here, Nat.div_eq_of_lt here, Nat.mod_eq_of_lt here,
        Nat.add_zero]
    · -- Byte i of all is byte i - size of the rest, one sector earlier.
      have back : m.buffer + i = m₂.buffer + (i - size) := by omega
      have positive : 0 < size := by
        rcases Nat.eq_zero_or_pos size with rfl | positive
        · rw [Nat.mul_zero] at within
          omega
        · exact positive
      have number : dword (m₂.eax + (i - size) / size) = dword (m.eax + i / size) := by
        have earlier := Nat.div_eq_sub_div positive (Nat.le_of_not_lt here)
        rw [start, earlier]
        simp only [dword]
        omega
      have offset : (i - size) % size = i % size :=
        (Nat.mod_eq_sub_mod (Nat.le_of_not_lt here)).symm
      rw [back, rest.data _ (by omega), number, offset, moved.mem, drive]
  · rw [Bios.firstTry_succ, served, Option.bind_some, ← moved.reads]
    exact rest.tries

/-- The sector loop gives up, or has read all the sectors that `CX` counts. -/
theorem sectorLoop_spec (placed : image.Placed) {count fuel : Nat} (enough : count ≤ fuel)
    (some : 0 < count) (cx : word m.ecx = count) (room : image.Room m.sp 12)
    (segment : m.es < 2 ^ 16) (ready : Ready image m.mem size)
    (spares : image.Spares m.buffer (count * size))
    (fits : m.buffer + count * size ≤ memoryTop) :
    Meets (sectorLoop image bios fuel m)
      (fun stop => stop = .halted ∧ bios.firstTry m.reads count = none)
      (SectorsRead image bios count m) := by
  -- The induction is on the sectors that are left to read.
  induction count generalizing fuel m with
  | zero => omega
  | succ count ih =>
    obtain ⟨fuel, rfl⟩ : ∃ f, fuel = f + 1 := ⟨fuel - 1, by omega⟩
    have total : (count + 1) * size = count * size + size := Nat.succ_mul _ _
    have sector := spares.part (Nat.le_refl m.buffer) (show _ + size ≤ _ by omega)
    rw [sectorLoop]
    refine Meets.bind ((sLoop_spec placed 5 room segment ready.count sector).allow
      fun stop ⟨halted, unserved⟩ => ⟨halted, ?_⟩) ?_
    · rw [Bios.firstTry_succ, unserved]
      rfl
    intro m₁ got
    have attempted := got.attempted
    have after := ready.kept placed sector attempted.changes
    have place := attempted.buffer
    have moved := movedOn_turn after.bytesPerSector (by rw [attempted.es]; exact segment) (by omega)
    have left : word m₁.ecx = count + 1 := by rw [attempted.ecx, word_dword, cx]
    have bound := word_lt m₁.ecx
    dsimp only
    generalize (nextSector m₁).countDown = m₂ at moved ⊢
    have cx' : word m₂.ecx = count := by
      rw [moved.ecx, left, word]
      omega
    have start : m₂.buffer = m.buffer + size := by rw [moved.buffer, place]
    cases count with
    | zero =>
      rw [cx', if_pos rfl, meets_ok]
      exact .cons placed spares got moved (.nil image bios moved.segment)
    | succ count =>
      rw [cx', if_neg (by omega)]
      have room' : image.Room m₂.sp 12 := by
        rw [moved.sp, attempted.sp]
        exact room
      have ready' : Ready image m₂.mem size := by
        rw [moved.mem]
        exact after
      have fewer : count + 1 ≤ fuel := by omega
      have rest := ih fewer (by omega) cx' room' moved.segment ready'
        (by rw [start]; exact spares.part (by omega) (by omega)) (by omega)
      refine (rest.mono fun m₃ read => SectorsRead.cons placed spares got moved read).allow
        fun stop ⟨halted, unserved⟩ => ⟨halted, ?_⟩
      rw [Bios.firstTry_succ, got.served, Option.bind_some, ← moved.reads, unserved]

/-- A routine that has saved something on the stack first reads the same sectors. -/
theorem SectorsRead.after_push {m₁ m₂ : Machine} {count width v depth : Nat}
    (placed : image.Placed) (room : image.Room m.sp depth) (fits : width ≤ depth)
    (read : SectorsRead image bios count (m.push width v) m₁) (popped : m₂.sp = m.sp)
    (es : m₂.es = m₁.es) (ebx : m₂.ebx = m₁.ebx) (mem : m₂.mem = m₁.mem)
    (reads : m₂.reads = m₁.reads) : SectorsRead image bios count m m₂ := by
  obtain ⟨sp, -, pushed⟩ := @push_changes m width v image depth placed room fits
  have changes := read.changes
  have stays := read.es
  have place := read.buffer
  have data := read.data
  have tries := read.tries
  rw [Machine.buffer] at place
  -- Read back what the routine was given: the push changes no register but the stack pointer.
  rw [sp, Machine.push_buffer] at changes
  rw [Machine.push_ebx, Machine.push_es] at stays
  rw [pushed _ (placed.drive_scratch m.sp), Machine.push_buffer, Machine.push_eax] at data
  rw [Machine.push_reads] at tries
  refine ⟨popped, ?_, ?_, ?_, ?_, ?_, ?_⟩
  · rw [es]
    exact read.segment
  · rw [Machine.buffer, es, ebx, place, Machine.push_buffer]
  · rw [es]
    exact stays
  · rw [mem]
    refine (pushed.mono Set.subset_union_left).trans (changes.mono ?_)
    exact Set.union_subset_union_left _ (image.scratch_mono (by omega))
  · rw [mem]
    exact data
  · rw [reads]
    exact tries

/-- What `ReadSector` leaves: the sectors in their place, and `SI` and the stack as they were. -/
structure ReadSectorDone (image : Image) {size : Nat} (bios : Bios size) (count : Nat)
    (m m' : Machine) : Prop where
  read : SectorsRead image bios count m m'
  si : word m'.esi = word m.esi

/-- `ReadSector` gives up, or reads the sectors that `CX` counts. -/
theorem readSector_spec (placed : image.Placed) {count : Nat} (some : 0 < count)
    (cx : word m.ecx = count) (room : image.Room m.sp 14) (segment : m.es < 2 ^ 16)
    (ready : Ready image m.mem size) (spares : image.Spares m.buffer (count * size))
    (fits : m.buffer + count * size ≤ memoryTop) :
    Meets (readSector image bios m)
      (fun stop => stop = .halted ∧ bios.firstTry m.reads count = none)
      (ReadSectorDone image bios count m) := by
  obtain ⟨sp, mem, pushed⟩ := @push_changes m 2 m.esi image 14 placed room (by omega)
  obtain ⟨low, high⟩ := room
  have fit := placed.stackLow
  have top := placed.stackHigh
  have room' : image.Room (m.push 2 m.esi).sp 12 := by
    rw [sp]
    exact ⟨by omega, by omega⟩
  have turns : count ≤ 2 ^ 16 := by
    have bound := word_lt m.ecx
    omega
  have ready' := ready.kept placed spares (pushed.mono Set.subset_union_left)
  rw [← m.push_buffer 2 m.esi] at spares fits
  rw [← m.push_ecx 2 m.esi] at cx
  rw [← m.push_es 2 m.esi] at segment
  have loop := @sectorLoop_spec image size bios _ placed _ _ turns some cx room' segment ready' spares
    fits
  rw [Machine.push_reads] at loop
  refine Meets.bind loop fun m₁ read => ?_
  -- The loop leaves the stack in use alone, so `pop si` finds what was pushed.
  have saved : m₁.top 2 = word m.esi := by
    have changes := read.changes
    rw [sp] at changes
    have kept : m₁.mem.read (m.sp - 2) 2 = (m.push 2 m.esi).mem.read (m.sp - 2) 2 :=
      spares.stack placed changes (by omega) (Nat.le_refl _) (by omega)
    rw [Machine.top, read.sp, sp, kept, mem, Mem.read_write_self]
    rfl
  have moved := drop_sp (by omega) (by omega) (read.sp.trans sp)
  rw [meets_ok]
  refine ⟨read.after_push placed ⟨low, high⟩ (by omega) ?_ ?_ ?_ ?_ ?_, ?_⟩
  · exact moved
  · exact m₁.drop_es 2
  · exact m₁.drop_ebx 2
  · exact m₁.drop_mem 2
  · exact m₁.drop_reads 2
  · rw [saved, word_setWord, word_word]

end Sectors

end IncroOS
