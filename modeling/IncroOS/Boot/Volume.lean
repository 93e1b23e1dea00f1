import IncroOS.Boot.Loader

/-! What a FAT32 volume stores: its clusters, its file allocation table, and its files. -/

namespace IncroOS

open Lib

/-- The geometry of a FAT32 volume, and the sectors of the drive that it is on. -/
structure Volume where
  sectorsPerCluster : Nat
  reserved : Nat
  fats : Nat
  sectorsPerFat : Nat
  hidden : Nat
  rootCluster : Nat
  /-- The bytes of a sector: LBA, offset. -/
  sector : Nat → Nat → UInt8
  positive : 0 < sectorsPerCluster

namespace Volume

variable (volume : Volume)

/-- The number of bytes in a cluster. -/
def clusterSize : Nat := volume.sectorsPerCluster * sectorSize

/-- The first sector of the data, counted from the start of the volume. -/
def firstData : Nat := volume.fats * volume.sectorsPerFat + volume.reserved

/-- The first sector of a cluster on the drive. -/
def clusterLba (n : Nat) : Nat :=
  volume.hidden + volume.firstData + (n - 2) * volume.sectorsPerCluster

/-- A byte of a cluster. -/
def clusterByte (n i : Nat) : UInt8 :=
  volume.sector (volume.clusterLba n + i / sectorSize) (i % sectorSize)

/-- The sector that holds the entry of a cluster in the first file allocation table. -/
def entrySector (n : Nat) : Nat := volume.hidden + volume.reserved + 4 * n / sectorSize

/-- The entry of a cluster in the file allocation table. -/
def fatEntry (n : Nat) : Nat :=
  Mem.read (volume.sector (volume.entrySector n)) (4 * n % sectorSize) 4

/-- A chain of data clusters, linked by their entries up to one that ends the chain. -/
def Chain : List Nat → Prop
  | [] => False
  | [n] => endOfChain ≤ volume.fatEntry n ∧ volume.fatEntry n < 2 ^ 28
  | n :: next :: rest => volume.fatEntry n = next ∧ Chain (next :: rest)

/-- A byte of the file whose clusters are given in the order of their chain. -/
def fileByte : List Nat → Nat → UInt8
  | [], _ => 0
  | n :: rest, k =>
    if k < volume.clusterSize then volume.clusterByte n k
    else fileByte rest (k - volume.clusterSize)

/-- A data cluster for which 16 bits are enough in the loader's arithmetic. -/
structure Reaches (n : Nat) : Prop where
  data : 2 ≤ n
  entry : 4 * n < 2 ^ 16
  product : (n - 2) * volume.sectorsPerCluster < 2 ^ 16
  sector : volume.entrySector n < 2 ^ 16
  /-- The cluster's sectors have numbers of 32 bits, as all of a FAT32 volume have. -/
  fits : volume.clusterLba n + volume.sectorsPerCluster ≤ 2 ^ 32

/-- The parameter block of the volume is where the boot sector was loaded. -/
structure Mounted (mem : Mem) : Prop where
  bytesPerSector : mem.read wBytesPerSector 2 = sectorSize
  sectorsPerCluster : (mem bSectorsPerCluster).toNat = volume.sectorsPerCluster
  reserved : mem.read wReservedSectors 2 = volume.reserved
  fats : (mem bNumFATs).toNat = volume.fats
  hidden : mem.read dHiddenSectors 4 = volume.hidden
  sectorsPerFat : mem.read dSectorsPerFat32 4 = volume.sectorsPerFat
  rootCluster : mem.read dRootDirStart 4 = volume.rootCluster

variable {volume}

end Volume

end IncroOS
