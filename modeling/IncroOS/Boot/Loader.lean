import IncroOS.Boot.Machine

/-! The disk routines that Boot1 and Stage2 share, over the addresses where each keeps its data. -/

namespace IncroOS

open Lib

/-- Where the assembled image of a stage keeps the data and the calls of the shared routines. -/
structure Image where
  /-- Where the code and the data of the stage start, and where they end. -/
  codeStart : Nat
  codeEnd : Nat
  dap : Nat
  bPhysicalDriveNum : Nat
  /-- The name that the root directory is searched for. -/
  szFile : Nat
  stackTop : Nat
  /-- Where `LoadFile` puts the first cluster. -/
  loadBase : Nat
  /-- The address behind each `call`. -/
  afterReadRoot : Nat
  afterReadFile : Nat
  afterReadSector : Nat
  afterReadFat : Nat
  afterGetNextCluster : Nat
  afterLoadFile : Nat

/-- The BIOS parameter block of the boot sector, at the addresses both stages use. -/
def wBytesPerSector : Nat := 0x7C0B
def bSectorsPerCluster : Nat := 0x7C0D
def wReservedSectors : Nat := 0x7C0E
def bNumFATs : Nat := 0x7C10
def dHiddenSectors : Nat := 0x7C1C
def dSectorsPerFat32 : Nat := 0x7C24
def dRootDirStart : Nat := 0x7C2C

/-- The reserved double words of the block, which the loader uses as variables. -/
def dReserved0 : Nat := 0x7C34
def dReserved1 : Nat := 0x7C38
def dReserved2 : Nat := 0x7C3C

/-- The first value of a FAT entry that ends a chain. -/
def endOfChain : Nat := 0x0FFFFFF8

section Sectors

variable (image : Image) {size : Nat} (bios : Bios size)

/-- `ReadSector` up to `int 13h`: save the state and fill in the packet. -/
def issueRead (m : Machine) : Machine :=
  let m := ((m.push 4 m.eax).push 4 m.ebx).push 4 m.ecx
  let mem := m.mem.write (image.dap + 4) 2 m.ebx
  let mem := mem.write (image.dap + 6) 2 m.es
  let mem := mem.write (image.dap + 8) 4 m.eax
  let mem := mem.write (image.dap + 12) 4 0
  { m with
    mem
    eax := setHighByte m.eax 0x42
    edx := setByte m.edx (mem image.bPhysicalDriveNum).toNat
    esi := setWord m.esi image.dap }

/-- `ReadSector` behind `int 13h`: restore the state. -/
def restoreRead (m : Machine) : Machine :=
  let m := { m.drop 4 with ecx := m.top 4 }
  let m := { m.drop 4 with ebx := m.top 4 }
  { m.drop 4 with eax := m.top 4 }

/-- `.sLoop` of `ReadSector`, with the tries that are left in `DI`. -/
def sLoop : Nat → Machine → Run
  | 0, _ => .error .halted
  | di + 1, m =>
    let m := { m with edi := setWord m.edi (di + 1) }
    let failed := bios.fails m.reads
    let m := bios.read (issueRead image m)
    if failed then
      let m := bios.reset { m with eax := setWord m.eax 0 }
      sLoop di (restoreRead m)
    else .ok (restoreRead m)

/-- `.Success` of `ReadSector`: `ES:BX` moves one sector on, across segments. -/
def nextSector (m : Machine) : Machine :=
  let bx := word m.ebx + m.mem.read wBytesPerSector 2
  let m := { m with ebx := setWord m.ebx bx }
  let m :=
    if bx < 2 ^ 16 then m
    else
      -- `add dh, 0x10` moves the segment on by 64 KiB.
      let m := { m with edx := setWord m.edx m.es }
      let m := { m with edx := setHighByte m.edx (m.edx / 2 ^ 8 + 0x10) }
      { m with es := word m.edx }
  { m with eax := dword (m.eax + 1) }

/-- The sector loop of `ReadSector`, which `loop .Start` ends when `CX` is zero. -/
def sectorLoop : Nat → Machine → Run
  | 0, _ => .error .unfinished
  | fuel + 1, m => do
    let m ← sLoop image bios 5 m
    let m := (nextSector m).countDown
    if word m.ecx = 0 then .ok m else sectorLoop fuel m

/-- `ReadSector`: read `CX` sectors from `EAX` on to `ES:BX`; a word counts at most 2^16 turns. -/
def readSector (m : Machine) : Run := do
  let m := m.push 2 m.esi
  let m ← sectorLoop image bios (2 ^ 16) m
  .ok { m.drop 2 with esi := setWord m.esi (m.top 2) }

end Sectors

section Routines

variable (image : Image) (bios : Bios)

/-- `GetNextCluster` up to its read: the FAT sector of cluster `SI`, to 0x4000. -/
def locateEntry (m : Machine) : Machine :=
  let m := { m with eax := 0, edx := 0 }
  let m := { m with eax := setWord m.eax (word m.esi) }
  let m := { m with eax := setWord m.eax (word m.eax * 4) }
  -- `div` leaves the sector in `AX` and the offset in `DX`.
  let dividend := word m.edx * 2 ^ 16 + word m.eax
  let divisor := m.mem.read wBytesPerSector 2
  let m := { m with
    eax := setWord m.eax (dividend / divisor), edx := setWord m.edx (dividend % divisor) }
  let m := { m with eax := setWord m.eax (word m.eax + m.mem.read dHiddenSectors 2) }
  let m := { m with eax := setWord m.eax (word m.eax + m.mem.read wReservedSectors 2) }
  let m := m.push 2 m.edx
  let m := { m with ecx := 1, ebx := setWord m.ebx 0 }
  let m := { m with es := word m.ebx }
  let m := { m with ebx := setWord m.ebx 0x4000 }
  (m.push 2 m.es).push 2 m.ebx

/-- `GetNextCluster` behind its read: the entry that the FAT sector holds for the cluster. -/
def fetchEntry (m : Machine) : Machine :=
  let m := { m.drop 2 with ebx := setWord m.ebx (m.top 2) }
  let m := { m.drop 2 with es := m.top 2 }
  let m := { m.drop 2 with edx := setWord m.edx (m.top 2) }
  let m := { m with esi := setWord m.esi m.edx, edx := setWord m.edx m.esi }
  { m with esi := m.mem.read (m.es * 16 + word (m.ebx + m.esi)) 4 }

/-- `GetNextCluster`: replace cluster `SI` by the entry that the FAT has for it. -/
def getNextCluster (m : Machine) : Run :=
  if m.mem.read wBytesPerSector 2 = 0 then .error .lost
  else do
    let m ← Machine.call image.afterReadFat (readSector image bios) (locateEntry m)
    .ok (fetchEntry m)

/-- `ReadCluster` up to its read: the first sector of cluster `SI`, and how many there are. -/
def locateCluster (m : Machine) : Machine :=
  let m := m.pusha
  let m := m.push 2 m.ebx
  let m := { m with eax := 0, ebx := setWord m.ebx 0, ecx := 0 }
  let m := { m with eax := setWord m.eax (word m.esi) }
  let m := { m with eax := setWord m.eax (word m.eax + 2 ^ 16 - 2) }
  let m := { m with ebx := setByte m.ebx (m.mem bSectorsPerCluster).toNat }
  -- `mul bx` leaves the low half in `AX` and the high half in `DX`.
  let product := word m.eax * word m.ebx
  let m := { m with eax := setWord m.eax product, edx := setWord m.edx (product / 2 ^ 16) }
  let m := { m with eax := dword (m.eax + m.mem.read dReserved0 4) }
  let m := { m with eax := dword (m.eax + m.mem.read dHiddenSectors 4) }
  let m := { m.drop 2 with ebx := setWord m.ebx (m.top 2) }
  { m with ecx := setByte m.ecx (m.mem bSectorsPerCluster).toNat }

/-- `ReadCluster` between its calls: keep the position behind the cluster. -/
def savePosition (m : Machine) : Machine :=
  let m := { m with mem := m.mem.write dReserved2 2 m.ebx }
  m.push 2 m.es

/-- The end of `ReadCluster`: restore everything but the position and the next cluster. -/
def finishCluster (m : Machine) : Machine :=
  let m := { m with mem := m.mem.write dReserved1 4 m.esi }
  let m := { m.drop 2 with es := m.top 2 }
  let m := m.popa
  let m := { m with ebx := setWord m.ebx (m.mem.read dReserved2 2) }
  { m with esi := m.mem.read dReserved1 4 }

/-- `ReadCluster`: read cluster `SI` to `ES:BX`, and replace it by the next one of its chain. -/
def readCluster (m : Machine) : Run := do
  let m ← Machine.call image.afterReadSector (readSector image bios) (locateCluster m)
  let m ← Machine.call image.afterGetNextCluster (getNextCluster image bios) (savePosition m)
  .ok (finishCluster m)

/-- `.cLoop` of `LoadFile`. -/
def fileLoop : Nat → Machine → Run
  | 0, _ => .error .unfinished
  | fuel + 1, m => do
    let m ← Machine.call image.afterReadFile (readCluster image bios) m
    if m.esi < endOfChain then fileLoop fuel m else .ok m

/-- `LoadFile` up to its loop, entered by its `call`. -/
def openFile (m : Machine) : Machine :=
  let m := m.push 2 image.afterLoadFile
  let m := m.push 2 m.edi
  let m := { m with ebx := setWord m.ebx 0 }
  let m := { m with es := word m.ebx }
  { m with ebx := setWord m.ebx image.loadBase }

/-- `LoadFile` up to its jump. -/
def loadFile (fuel : Nat) (m : Machine) : Run := do
  let m ← fileLoop image bios fuel (openFile image m)
  let m := { m with edx := setByte m.edx (m.mem image.bPhysicalDriveNum).toNat }
  .ok { m with edx := setHighByte m.edx 4 }

/-- `repe cmpsb` from the name at `DS:SI` and the entry at `ES:DI`: whether all `CX` bytes agree. -/
def nameMatches (m : Machine) : Bool :=
  (List.range (word m.ecx)).all fun i => m.mem (word (m.esi + i)) == m.mem (m.entry i)

/-- What the scan of a directory cluster ends in. -/
inductive Scan where
  | found (m : Machine)
  | ended
  | passed (m : Machine)

/-- `.EntryLoop`, with the entries that are left in `DX`. -/
def entryLoop : Nat → Machine → Scan
  | 0, m => .passed { m with edx := setWord m.edx 0 }
  | dx + 1, m =>
    let m := { m with edx := setWord m.edx (dx + 1) }
    if (m.mem (m.entry 0)).toNat = m.ecx / 2 ^ 8 % 2 ^ 8 then .ended
    else
      let found := nameMatches m.pusha
      let m := m.pusha.popa
      if found then .found m else entryLoop dx { m with edi := setWord m.edi (m.edi + 0x20) }

/-- `.cLoop` of `FixCS` up to its call: the buffer for a cluster of the directory. -/
def openRoot (m : Machine) : Machine :=
  let m := { m with ebx := setWord m.ebx 0 }
  let m := { m with es := word m.ebx }
  { m with ebx := setWord m.ebx 0x1000 }

/-- `.cLoop` between its call and `.EntryLoop`: save the next cluster and set up the scan. -/
def startScan (m : Machine) : Machine :=
  let m := m.push 4 m.esi
  { m with
    edi := setWord m.edi 0x1000, esi := setWord m.esi image.szFile
    ecx := setWord m.ecx 0x000B, edx := setWord m.edx 0x0020 }

/-- `.EntryLoop` from its start, with a fixed count of 32 entries. -/
def scanRoot (m : Machine) : Scan := entryLoop 0x20 (startScan image m)

/-- `.cLoop` behind `.EntryLoop`: the next cluster is back in `ESI`. -/
def nextRoot (m : Machine) : Machine := { m.drop 4 with esi := m.top 4 }

/-- `.cLoop` behind `.EntryLoop`: jump back if there is another cluster. -/
def afterScan (again : Machine → Run) : Scan → Run
  | .found m => .ok m
  | .ended => .error .halted
  | .passed m => if (nextRoot m).esi < endOfChain then again (nextRoot m) else .error .halted

/-- `.cLoop` of `FixCS`, which ends at the entry of the file or halts. -/
def rootLoop : Nat → Machine → Run
  | 0, _ => .error .unfinished
  | fuel + 1, m => do
    let m ← Machine.call image.afterReadRoot (readCluster image bios) (openRoot m)
    afterScan (rootLoop fuel) (scanRoot image m)

/-- The start of `FixCS`: segments, stack, drive number, and the first sector of the data. -/
def fixCS (m : Machine) : Machine :=
  let m := { m with eax := setWord m.eax 0 }
  let m := { m with es := word m.eax }
  let m := { m with eax := setWord m.eax image.stackTop }
  let m := { m with sp := word m.eax }
  let m := { m with mem := m.mem.set image.bPhysicalDriveNum (UInt8.ofNat (byte m.edx)) }
  let m := { m with eax := 0 }
  let m := { m with eax := setByte m.eax (m.mem bNumFATs).toNat }
  let m := { m with ebx := m.mem.read dSectorsPerFat32 4 }
  let product := m.eax * m.ebx
  let m := { m with eax := dword product, edx := product / 2 ^ 32 }
  let m := { m with ebx := 0 }
  let m := { m with ebx := setWord m.ebx (m.mem.read wReservedSectors 2) }
  let m := { m with eax := dword (m.eax + m.ebx) }
  let m := { m with mem := m.mem.write dReserved0 4 m.eax }
  { m with esi := m.mem.read dRootDirStart 4 }

/-- The first cluster from the entry at `ES:DI`, with the stack as it was before the search. -/
def firstCluster (m : Machine) : Machine :=
  let m := m.push 2 (m.mem.read (m.entry 0x14) 2)
  let m := m.push 2 (m.mem.read (m.entry 0x1A) 2)
  let m := { m.drop 4 with esi := m.top 4 }
  { m.drop 4 with eax := m.top 4 }

end Routines

end IncroOS
