import IncroOS.Boot.Boot1
import IncroOS.Boot.Stage2
import IncroOS.Boot.Volume

/-! The entries of a directory, and the two stages that search the root directory for a file. -/

namespace IncroOS

open Lib

namespace Volume

variable (volume : Volume) (name : List UInt8) (place : Nat × Nat)

/-- The number of entries in a cluster of a directory, each of 32 bytes. -/
def entriesPerCluster : Nat := 16 * volume.sectorsPerCluster

/-- The entries of a directory in their order: each a cluster of its chain, and an index there. -/
def entries (clusters : List Nat) : List (Nat × Nat) :=
  clusters.flatMap fun n => (List.range volume.entriesPerCluster).map fun i => (n, i)

/-- A byte of an entry. -/
def entryByte (j : Nat) : UInt8 := volume.clusterByte place.1 (32 * place.2 + j)

/-- The entry starts with byte 0, as the first one behind those in use does. -/
def isEnd : Bool := volume.entryByte place 0 == 0

/-- The 11 bytes of the entry's name match. -/
def isNamed : Bool := (List.range 11).all fun j => volume.entryByte place j == name.getD j 0

/-- An entry that ends the search, because it is the file's or the directory ends. -/
def stops : Bool := volume.isEnd place || volume.isNamed name place

/-- The number of the file's first cluster, from its high word and its low word. -/
def entryCluster : Nat :=
  Mem.read (volume.entryByte place) 0x14 2 * 2 ^ 16 + Mem.read (volume.entryByte place) 0x1A 2

/-- The size of the file. -/
def entrySize : Nat := Mem.read (volume.entryByte place) 0x1C 4

end Volume

/-- The bytes that `db` stores for a text. -/
def textBytes (text : String) : List UInt8 := text.toList.map fun c => UInt8.ofNat c.toNat

/-- The two stages that search the root directory. -/
inductive Stage where
  | boot1 (image : Boot1Image)
  | stage2 (image : Stage2Image)

namespace Stage

def image : Stage → Image
  | .boot1 image => image.toImage
  | .stage2 image => image.toImage

/-- `szStage2` of Boot1, and `syskrnldr` of Stage2. -/
def fileName : Stage → List UInt8
  | .boot1 _ => textBytes "STAGE2  SYS"
  | .stage2 _ => textBytes "KRNLDR  BIN"

/-- From `FixCS` up to the call of `LoadFile`. -/
def find (stage : Stage) (bios : Bios) (fuel : Nat) (m : Machine) : Run :=
  match stage with
  | .boot1 image => findStage2 image bios fuel m
  | .stage2 image => findKernel image bios fuel m

end Stage

end IncroOS
