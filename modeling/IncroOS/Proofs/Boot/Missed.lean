import IncroOS.Proofs.Boot.FindFile

/-! What the fixed count of 32 entries does to the search of the root directory. -/

namespace IncroOS

open Lib

section Missed

variable {image : Image} {bios : Bios} {volume : Volume} {name : List UInt8} {m : Machine} {n : Nat}

/-- A file is missed if the entries that stop the search all lie behind 32 others of their cluster. -/
theorem rootLoop_misses (searches : image.Searches) (works : bios.Working)
    (small : volume.sectorsPerCluster ≤ mostSectors) (long : 2 ≤ volume.sectorsPerCluster)
    {clusters : List Nat} {fuel : Nat} (enough : clusters.length ≤ fuel)
    (chain : volume.Chain clusters) (reaches : ∀ k ∈ clusters, volume.Reaches k)
    (start : clusters.head? = some n) (searching : Searching image bios volume name n m)
    (behind : ∀ k ∈ clusters, ∀ i < 32, volume.stops name (k, i) = false) :
    rootLoop image bios fuel m = .error .halted := by
  -- The induction is on the clusters that are left in the chain.
  induction clusters generalizing fuel n m with
  | nil => exact chain.elim
  | cons first rest ih =>
    obtain rfl : first = n := Option.some.inj start
    obtain ⟨fuel, rfl⟩ : ∃ f, fuel = f + 1 := ⟨fuel - 1, by
      rw [List.length_cons] at enough
      omega⟩
    have scanned : volume.scanned = 32 := by
      rw [Volume.scanned, Volume.entriesPerCluster]
      omega
    have miss :
        (List.range' 0 volume.scanned).find? (fun i => volume.stops name (first, i)) = none :=
      List.find?_eq_none.mpr fun i member => by
        have within := (List.mem_range'_1.mp member).2
        rw [behind first List.mem_cons_self i (by omega)]
        exact Bool.false_ne_true
    obtain ⟨m', next, loop, -⟩ := searching.miss searches works small scanned
      (reaches first List.mem_cons_self) miss fuel
    rw [loop, next.esi]
    cases rest with
    | nil => rw [if_neg (Nat.not_lt.mpr chain.1)]
    | cons second others =>
      obtain ⟨link, chain⟩ := chain
      rw [link] at next ⊢
      split
      · exact ih (by simpa using enough) chain
          (fun k member => reaches k (List.mem_cons_of_mem first member)) rfl next
          (fun k member => behind k (List.mem_cons_of_mem first member))
      · rfl

end Missed

/--
The search finds the file exactly when it is there, if its scan covers the first cluster.

A scan always takes 32 entries: those of two sectors, whatever the size of a cluster is.
-/
theorem root_search_finds_iff (stage : Stage) (bios : Bios) (volume : Volume) {m : Machine}
    {clusters : List Nat} {fuel : Nat} (started : stage.Started bios volume m)
    (works : bios.Working) (small : volume.sectorsPerCluster ≤ 53) (chain : volume.Chain clusters)
    (reaches : ∀ n ∈ clusters, volume.Reaches n)
    (start : clusters.head? = some volume.rootCluster) (enough : clusters.length ≤ fuel) :
    stage.Finds bios volume clusters fuel m ↔
      volume.sectorsPerCluster = 2 ∨ ∃ i < min 32 volume.entriesPerCluster,
        volume.stops stage.fileName (volume.rootCluster, i) = true := by
  refine ⟨fun finds => ?_, stage.finds_of_covered started works small chain reaches start enough⟩
  -- The other direction is about the first cluster of the chain.
  cases clusters with
  | nil => exact chain.elim
  | cons first rest =>
    obtain rfl : first = volume.rootCluster := Option.some.inj start
    obtain ⟨fuel, rfl⟩ : ∃ f, fuel = f + 1 := ⟨fuel - 1, by
      rw [List.length_cons] at enough
      omega⟩
    exact covered_of_seen stage.searches works small chain reaches
      (started.searching (reaches _ List.mem_cons_self)) finds.seen

/-- Clusters of 64 entries, with Stage2's file as the first entry of one sector of the directory. -/
def directoryVolume (lba : Nat) : Volume where
  sectorsPerCluster := 4
  reserved := 32
  fats := 1
  sectorsPerFat := 8
  hidden := 0
  rootCluster := 2
  sector n i := if n = lba ∧ i < 11 then (textBytes "STAGE2  SYS").getD i 0
    else sampleVolume.sector n i
  positive := by decide

/-- A drive that holds such a volume and never fails. -/
def directoryBios (lba : Nat) : Bios := { sampleBios with sector := fun _ => (directoryVolume lba).sector }

/-- The boot sector of such a volume, with the name that Boot1 looks for. -/
def directoryMachine : Machine :=
  { sampleMachine with
    mem := fun x =>
      if x = 0x7C0D then 4
      else if 0x7DB0 ≤ x ∧ x < 0x7DBB then (textBytes "STAGE2  SYS").getD (x - 0x7DB0) 0
      else sampleMemory x }

theorem directory_started (lba : Nat) :
    (Stage.boot1 sampleBoot1).Started (directoryBios lba) (directoryVolume lba) directoryMachine := by
  refine ⟨⟨?_, ?_⟩, ⟨?_, ?_, ?_, ?_, ?_, ?_, ?_⟩, ?_, by decide⟩
  all_goals rfl

theorem directory_works (lba : Nat) : (directoryBios lba).Working := fun _ => ⟨0, by decide, rfl⟩

/-- Cluster 2 is the whole directory. -/
theorem directory_chain : (directoryVolume 42).Chain [2] ∧ (directoryVolume 40).Chain [2] := by
  refine ⟨⟨?_, ?_⟩, ?_, ?_⟩
  all_goals decide

theorem directory_reaches (lba : Nat) : ∀ n ∈ [2], (directoryVolume lba).Reaches n := by
  -- Cluster 2 is the only one of the chain, and its numbers are small.
  intro n member
  obtain rfl := List.mem_singleton.mp member
  constructor
  all_goals exact of_decide_eq_true rfl

/-- A file at the first entry is found, as the theorem says. -/
theorem root_search_finds_first :
    (Stage.boot1 sampleBoot1).Finds (directoryBios 40) (directoryVolume 40) [2] 1 directoryMachine ↔
      (directoryVolume 40).sectorsPerCluster = 2 ∨
        ∃ i < min 32 (directoryVolume 40).entriesPerCluster,
          (directoryVolume 40).stops (Stage.boot1 sampleBoot1).fileName
            ((directoryVolume 40).rootCluster, i) = true :=
  root_search_finds_iff (Stage.boot1 sampleBoot1) (directoryBios 40) (directoryVolume 40)
    (directory_started 40) (directory_works 40) (by decide) directory_chain.2
    (directory_reaches 40) rfl (by decide)

/--
Boot1 halts although Stage2's file is in the directory.

Its entry is the first one in the third sector of the cluster, behind 32 others.
-/
theorem root_search_misses_entry :
    ¬(Stage.boot1 sampleBoot1).Finds (directoryBios 42) (directoryVolume 42) [2] 1
      directoryMachine := by
  have searching := (directory_started 42).searching (directory_reaches 42 2 (by decide))
  have halted := rootLoop_misses (Stage.boot1 sampleBoot1).searches (directory_works 42) (by decide)
    (by decide) (Nat.le_refl 1) directory_chain.1 (directory_reaches 42) rfl searching (by decide)
  -- The entry is there, and no entry before it ends the directory.
  have there : ((directoryVolume 42).entries [2]).find?
      ((directoryVolume 42).stops (Stage.boot1 sampleBoot1).fileName) = some (2, 32) := by decide
  intro finds
  have outcome := finds.outcome
  rw [there, (Stage.boot1 sampleBoot1).find_halted halted] at outcome
  obtain ⟨m', loaded, -⟩ := outcome
  cases loaded

end IncroOS
