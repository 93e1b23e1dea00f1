import IncroOS.Boot.Volume
import IncroOS.Proofs.Boot.Clusters

/-! Which sectors of a volume the loader asks for, in the 16 bits of its arithmetic. -/

namespace IncroOS

open Lib

namespace Volume

variable (volume : Volume) (n : Nat)

/-- The first sector that the loader reads for a cluster, where `mul bx` keeps 16 bits. -/
def loadedLba : Nat :=
  dword (volume.hidden + volume.firstData +
    word (word (n + 2 ^ 16 - 2) * volume.sectorsPerCluster))

/-- The FAT sector that the loader reads for a cluster, where every step keeps 16 bits. -/
def loadedSector : Nat :=
  word (volume.hidden + volume.reserved + word (4 * n) / sectorSize)

/-- What the loader takes for the entry of a cluster. -/
def loadedEntry : Nat :=
  Mem.read (volume.sector (volume.loadedSector n)) (4 * n % sectorSize) 4

variable {volume} {n}

/-- Only the low 16 bits of a cluster's number count. -/
theorem loaded_congr {k : Nat} (same : word n = word k) :
    volume.loadedLba n = volume.loadedLba k ∧ volume.loadedEntry n = volume.loadedEntry k := by
  -- The sector, the index and the offset are all taken from the low word.
  have size : sectorSize = 512 := rfl
  have data : word (n + 2 ^ 16 - 2) = word (k + 2 ^ 16 - 2) := by
    simp only [word] at same ⊢
    omega
  have entry : word (4 * n) = word (4 * k) := by
    simp only [word] at same ⊢
    omega
  have offset : 4 * n % sectorSize = 4 * k % sectorSize := by
    simp only [word, size] at same ⊢
    omega
  exact ⟨by rw [loadedLba, data, loadedLba],
    by rw [loadedEntry, loadedSector, entry, offset, loadedEntry, loadedSector]⟩

/-- The cluster's first sector is right exactly while the product fits in 16 bits. -/
theorem loadedLba_iff (data : 2 ≤ n)
    (fits : volume.clusterLba n + volume.sectorsPerCluster ≤ 2 ^ 32) :
    volume.loadedLba n = volume.clusterLba n ↔ (n - 2) * volume.sectorsPerCluster < 2 ^ 16 := by
  have some := volume.positive
  have most : n - 2 ≤ (n - 2) * volume.sectorsPerCluster := Nat.le_mul_of_pos_right _ some
  have low := word_lt (word (n + 2 ^ 16 - 2) * volume.sectorsPerCluster)
  rw [clusterLba] at fits ⊢
  constructor
  · intro right
    -- A product that was cut off is less than 2^16, and the sum is too small.
    have bound : word (word (n + 2 ^ 16 - 2) * volume.sectorsPerCluster) ≤
        (n - 2) * volume.sectorsPerCluster := by
      refine Nat.le_trans (Nat.mod_le _ _) (Nat.mul_le_mul_right _ ?_)
      simp only [word]
      omega
    rw [loadedLba, dword_of_lt (by omega)] at right
    omega
  · intro small
    have number : word (n + 2 ^ 16 - 2) = n - 2 := by
      simp only [word]
      omega
    rw [loadedLba, number, word_of_lt small, dword_of_lt (by omega)]

/-- The FAT sector is right exactly while the index and the sector fit in 16 bits. -/
theorem loadedSector_iff :
    volume.loadedSector n = volume.entrySector n ↔ 4 * n < 2 ^ 16 ∧ volume.entrySector n < 2 ^ 16 := by
  have size : sectorSize = 512 := rfl
  rw [loadedSector, entrySector, size]
  simp only [word]
  constructor
  · -- A truncated index or sector is smaller than the true one.
    intro right
    exact ⟨by omega, by omega⟩
  · rintro ⟨index, sector⟩
    omega

end Volume

section Sectors

variable {volume : Volume} {mem : Mem}

/-- The sector that `ReadCluster` asks for, in terms of the volume. -/
theorem clusterSector_eq (sectors : (mem bSectorsPerCluster).toNat = volume.sectorsPerCluster)
    (first : mem.read dReserved0 4 = volume.firstData)
    (hidden : mem.read dHiddenSectors 4 = volume.hidden) (n : Nat) :
    clusterSector mem (word n) = volume.loadedLba n := by
  -- The cluster is taken modulo 2^16 before the subtraction and after it.
  have number : word (word n + 2 ^ 16 - 2) = word (n + 2 ^ 16 - 2) := by
    simp only [word]
    omega
  rw [clusterSector, sectors, first, hidden, number, Volume.loadedLba]
  simp only [dword]
  omega

/-- The sector that `GetNextCluster` asks for, in terms of the volume. -/
theorem fatSector_eq (reserved : mem.read wReservedSectors 2 = volume.reserved)
    (hidden : mem.read dHiddenSectors 4 = volume.hidden) (n : Nat) :
    fatSector mem (word n) = volume.loadedSector n := by
  -- Of the hidden sectors only the low word is added.
  have split := mem.read_add dHiddenSectors 2 2
  have bound := mem.read_lt dHiddenSectors 2
  rw [show 2 + 2 = 4 from rfl, hidden] at split
  have number : word (word n * 4) = word (4 * n) := by
    simp only [word]
    omega
  rw [fatSector, reserved, number, Volume.loadedSector]
  generalize word (4 * n) / sectorSize = sector
  simp only [word]
  omega

/-- The entry's place in its sector is always right. -/
theorem fatOffset_eq (n : Nat) : fatOffset (word n) = 4 * n % sectorSize := by
  have size : sectorSize = 512 := rfl
  simp only [fatOffset, word, size]
  omega

end Sectors

end IncroOS
