import IncroOS.Proofs.Boot.Search

/-! The search of a whole root directory: what it finds, and which entries it looks at. -/

namespace IncroOS

open Lib

/-- The disk does not fail five times in a row. -/
def Bios.Working (bios : Bios) : Prop := ∀ k, ∃ j < 5, bios.fails (k + j) = false

/-- Where the search sees an entry: its cluster, and its address in the buffer. -/
def seenAt (place : Nat × Nat) : Nat × Nat := (place.1, rootBuffer + 32 * place.2)

/-- What the search leaves at an entry at which it has found the name. -/
structure AtEntry (image : Image) (bios : Bios) (volume : Volume) (m : Machine) : Prop where
  prepared : Prepared image bios volume m.mem
  sp : m.sp = image.stackTop - 4
  address : ∃ i < 32, ∀ j < 32, m.entry j = rootBuffer + 32 * i + j

/-- The entry is one of the directory. -/
structure EntryFound (image : Image) (bios : Bios) (volume : Volume) (place : Nat × Nat)
    (m : Machine) : Prop extends AtEntry image bios volume m where
  bytes : ∀ j < 32, m.mem (m.entry j) = volume.entryByte place j

/-- What the search ends in, by the first entry that stops it. -/
def RootMeets (image : Image) (bios : Bios) (volume : Volume) (hit : Option (Nat × Nat))
    (run : Run) : Prop :=
  match hit with
  | none => run = .error .halted
  | some place =>
    if volume.isEnd place then run = .error .halted
    else ∃ m, run = .ok m ∧ EntryFound image bios volume place m

section Turn

variable {image : Image} {bios : Bios} {volume : Volume} {name : List UInt8} {m : Machine} {n : Nat}

/-- With a working disk the loader does not give up. -/
theorem Bios.Working.meets {post : Machine → Prop} {run : Run} (works : bios.Working)
    (meets : Meets run bios.GaveUp post) : ∃ m, run = .ok m ∧ post m := by
  -- Giving up takes five failures in a row, of which a working disk has none.
  rcases meets.result with returned | ⟨stop, -, -, k, failures⟩
  · exact returned
  · obtain ⟨j, within, success⟩ := works k
    rw [failures j within] at success
    exact absurd success (by decide)

/-- A scan passes a cluster only if it has found nothing there. -/
theorem ScanMeets.passed {mem : Mem} {sp : Nat} {hit : Option Nat}
    (meets : ScanMeets image mem sp hit (.passed m)) :
    hit = none ∧ m.sp = sp ∧ Mem.ChangesOnly mem m.mem (Set.Ico (sp - 16) sp) := by
  -- An entry that stops the scan either ends the search or is found.
  cases hit with
  | some i =>
    rw [ScanMeets] at meets
    split at meets
    · exact Scan.noConfusion meets
    · obtain ⟨m₁, other, -⟩ := meets
      exact Scan.noConfusion other
  | none =>
    rw [ScanMeets] at meets
    obtain ⟨m₁, same, stack, changes⟩ := meets
    cases same
    exact ⟨rfl, stack, changes⟩

/-- A scan finds the name only at an entry that stops it. -/
theorem ScanMeets.found {mem : Mem} {sp : Nat} {hit : Option Nat}
    (meets : ScanMeets image mem sp hit (.found m)) :
    ∃ i, hit = some i ∧ Scanning image mem sp i m := by
  -- Without an entry that stops it, the scan is passed.
  cases hit with
  | some i =>
    rw [ScanMeets] at meets
    split at meets
    · exact Scan.noConfusion meets
    · obtain ⟨m₁, same, scanning⟩ := meets
      cases same
      exact ⟨i, rfl, scanning⟩
  | none =>
    rw [ScanMeets] at meets
    obtain ⟨m₁, other, -⟩ := meets
    exact Scan.noConfusion other

/-- A scan ends the search only at an entry that stops it. -/
theorem ScanMeets.ended {mem : Mem} {sp : Nat} {hit : Option Nat}
    (meets : ScanMeets image mem sp hit .ended) : ∃ i, hit = some i := by
  -- Where no entry stops it, the scan comes to its end.
  cases hit with
  | some i => exact ⟨i, rfl⟩
  | none =>
    rw [ScanMeets] at meets
    obtain ⟨m₁, other, -⟩ := meets
    exact Scan.noConfusion other

/-- The scan ends in the state from which the first cluster of a file is fetched. -/
theorem RootScan.found (searches : image.Searches) {m' : Machine} {i : Nat}
    (start : RootScan image bios volume m) (within : i < 32)
    (scan : Scanning image m.mem (image.stackTop - 4) i m') : AtEntry image bios volume m' := by
  -- The scan changed the stack alone, so what was prepared still is.
  have low := searches.stackLow
  have depth : stackSize = 64 := rfl
  obtain ⟨prepared, -⟩ := searches.kept (by omega) (by omega) scan.changes start.prepared
  exact ⟨prepared, scan.stack, i, within, fun j inside => scan.entry within inside⟩

/-- Whatever the directory holds, the search keeps what the routines need until it finds a name. -/
theorem rootLoop_keeps (searches : image.Searches) (small : volume.sectorsPerCluster ≤ mostSectors)
    {fuel : Nat} {m' : Machine} (entering : Entering image bios volume m)
    (returned : rootLoop image bios fuel m = .ok m') : AtEntry image bios volume m' := by
  -- The induction is on the turns that are allowed.
  induction fuel generalizing m with
  | zero => cases returned
  | succ fuel ih =>
    have meets := readRoot_turn searches small entering
    cases called : Machine.call image.afterReadRoot (readCluster image bios) (openRoot m) with
    | error stop =>
      rw [rootLoop, called] at returned
      cases returned
    | ok m₁ =>
      have turn := meets.of_ok called
      rw [(@rootLoop_turn _ _ fuel _ _ called).1, scanRoot] at returned
      obtain ⟨-, ends⟩ := entryLoop_spec searches.apart turn.scan.scanning (Nat.zero_add 32)
      generalize entryLoop 0x20 (startScan image m₁) = scan at returned ends
      cases scan with
      | found m₂ =>
        cases returned
        obtain ⟨i, hit, scanning⟩ := ends.found
        have within := (List.mem_range'_1.mp (List.mem_of_find?_eq_some hit)).2
        exact turn.scan.found searches (by omega) scanning
      | ended => cases returned
      | passed m₂ =>
        rw [afterScan] at returned
        split at returned
        · exact ih (turn.scan.passed searches ends.passed.2.1 ends.passed.2.2).1 returned
        · cases returned

/-- A turn of `.cLoop` scans the 32 entries behind the start of its buffer. -/
theorem Searching.turn (searches : image.Searches) (works : bios.Working)
    (small : volume.sectorsPerCluster ≤ mostSectors) (reaches : volume.Reaches n)
    (searching : Searching image bios volume name n m) (fuel : Nat) :
    ∃ m' scan, RootRead image bios volume name n m' ∧
      ScanMeets image m'.mem (image.stackTop - 4)
        ((List.range' 0 32).find? (hits m'.mem image.szFile)) scan ∧
      rootLoop image bios (fuel + 1) m = afterScan (rootLoop image bios fuel) scan ∧
      rootSeen image bios (fuel + 1) m =
        (upTo (hits m'.mem image.szFile) (List.range' 0 32)).map (fun i => seenAt (n, i)) ++
          seenAfterScan (rootSeen image bios fuel) scan := by
  -- The disk works, so the cluster is read, and then the 32 entries are scanned.
  obtain ⟨m₁, called, read⟩ := works.meets (readRoot_spec searches small reaches searching)
  obtain ⟨loop, seen⟩ := @rootLoop_turn _ _ fuel _ _ called
  obtain ⟨looks, meets⟩ := entryLoop_spec searches.apart read.scanning (Nat.zero_add 32)
  have number : word m.esi = n := by
    have bound := reaches.entry
    rw [searching.esi]
    exact word_of_lt (by omega)
  rw [scanRoot] at loop seen
  rw [looks, number, List.map_map] at seen
  generalize entryLoop 0x20 (startScan image m₁) = scan at loop seen meets
  exact ⟨_, scan, read, meets, loop, seen⟩

/-- In a cluster of the directory, the entry is the one that the scan has come to. -/
theorem RootRead.found (searches : image.Searches) {m' : Machine} {i : Nat}
    (read : RootRead image bios volume name n m) (within : i < volume.scanned)
    (scan : Scanning image m.mem (image.stackTop - 4) i m') :
    EntryFound image bios volume (n, i) m' := by
  -- The buffer holds the bytes of the directory, and the scan has not changed them.
  have some : volume.scanned = min 32 (16 * volume.sectorsPerCluster) := rfl
  refine ⟨read.toRootScan.found searches (by omega) scan, fun j inside => ?_⟩
  rw [scan.entry (by omega) inside, scan.byte searches.apart (.inl (by omega)),
    read.entry within inside]

/-- The scan's entries come first in the cluster, and in the buffer. -/
theorem scanned_split (volume : Volume) :
    List.range' 0 32 = List.range' 0 volume.scanned ++
      List.range' volume.scanned (32 - volume.scanned) := by
  -- What is scanned is at most the whole of the buffer.
  have some : volume.scanned = min 32 (16 * volume.sectorsPerCluster) := rfl
  have total : 32 = volume.scanned + (32 - volume.scanned) := by omega
  have split := List.range'_append_1 (s := 0) (m := volume.scanned) (n := 32 - volume.scanned)
  rw [Nat.zero_add, ← total] at split
  exact split.symm

/-- The entries of a directory, with those of its first cluster that are scanned in front. -/
theorem entries_cons (volume : Volume) (n : Nat) (rest : List Nat) :
    volume.entries (n :: rest) =
      (List.range' 0 volume.scanned).map (fun i => (n, i)) ++
        ((List.range' volume.scanned (volume.entriesPerCluster - volume.scanned)).map
          (fun i => (n, i)) ++ volume.entries rest) := by
  have some : volume.scanned = min 32 volume.entriesPerCluster := rfl
  -- The entries of the first cluster are those that are scanned and those behind them.
  have total : volume.entriesPerCluster =
      volume.scanned + (volume.entriesPerCluster - volume.scanned) := by omega
  have split := List.range'_append_1 (s := 0) (m := volume.scanned)
    (n := volume.entriesPerCluster - volume.scanned)
  rw [Nat.zero_add, ← total] at split
  have first : volume.entries (n :: rest) =
      (List.range volume.entriesPerCluster).map (fun i => (n, i)) ++ volume.entries rest :=
    List.flatMap_cons
  rw [first, List.range_eq_range', ← split, List.map_append, List.append_assoc]

/-- Among the entries of the cluster, the scan stops where the search of the directory should. -/
theorem RootRead.search (read : RootRead image bios volume name n m) :
    (List.range' 0 volume.scanned).find? (hits m.mem image.szFile) =
        (List.range' 0 volume.scanned).find? (fun i => volume.stops name (n, i)) ∧
      upTo (hits m.mem image.szFile) (List.range' 0 volume.scanned) =
        upTo (fun i => volume.stops name (n, i)) (List.range' 0 volume.scanned) := by
  -- The bytes read are those of the directory, as far as the scan goes.
  have agree : ∀ i ∈ List.range' 0 volume.scanned,
      hits m.mem image.szFile i = volume.stops name (n, i) := fun i member => by
    have within := (List.mem_range'_1.mp member).2
    exact read.stops (by omega)
  exact ⟨find?_agree agree, upTo_congr agree⟩

/-- An entry that stops the search, among those that are scanned first, ends it there. -/
theorem Searching.hit (searches : image.Searches) (works : bios.Working)
    (small : volume.sectorsPerCluster ≤ mostSectors) (reaches : volume.Reaches n)
    (searching : Searching image bios volume name n m) {i : Nat}
    (hit : (List.range' 0 volume.scanned).find? (fun i => volume.stops name (n, i)) = some i)
    (rest : List Nat) (fuel : Nat) :
    RootMeets image bios volume ((volume.entries (n :: rest)).find? (volume.stops name))
        (rootLoop image bios (fuel + 1) m) ∧
      rootSeen image bios (fuel + 1) m =
        (upTo (volume.stops name) (volume.entries (n :: rest))).map seenAt := by
  obtain ⟨m', scan, read, meets, loop, seen⟩ := searching.turn searches works small reaches fuel
  obtain ⟨finds, looks⟩ := read.search
  have within : i < volume.scanned := by
    have bound := (List.mem_range'_1.mp (List.mem_of_find?_eq_some hit)).2
    omega
  have directory : ((List.range' 0 volume.scanned).map fun i => (n, i)).find? (volume.stops name) =
      some (n, i) := by
    rw [List.find?_map]
    exact congrArg (Option.map _) hit
  have buffer := finds.trans hit
  rw [scanned_split volume, List.find?_append, buffer, Option.some_or, ScanMeets] at meets
  rw [scanned_split volume, upTo_append_hit buffer, looks] at seen
  rw [entries_cons, List.find?_append, directory, Option.some_or, upTo_append_hit directory,
    upTo_map, List.map_map]
  -- The scan is over, and so is the search.
  have first := read.entry within (show 0 < 32 by omega)
  rw [Nat.add_zero] at first
  rw [RootMeets, Volume.isEnd, ← first]
  by_cases zero : m'.mem (rootBuffer + 32 * i) = 0
  · rw [if_pos zero] at meets
    subst meets
    rw [if_pos (by rw [zero]; rfl)]
    refine ⟨loop, seen.trans ?_⟩
    exact List.append_nil _
  · rw [if_neg zero] at meets
    obtain ⟨m₁, rfl, scanned⟩ := meets
    rw [if_neg (by simpa using zero)]
    refine ⟨⟨m₁, loop, read.found searches within scanned⟩, seen.trans ?_⟩
    exact List.append_nil _

/-- A file whose entry is the first one of the directory is found. -/
theorem rootLoop_first (searches : image.Searches) (works : bios.Working)
    (small : volume.sectorsPerCluster ≤ mostSectors) (reaches : volume.Reaches n)
    (searching : Searching image bios volume name n m)
    (stop : volume.stops name (n, 0) = true) (used : volume.isEnd (n, 0) = false) (fuel : Nat) :
    ∃ m', rootLoop image bios (fuel + 1) m = .ok m' ∧ EntryFound image bios volume (n, 0) m' := by
  -- A cluster has at least one sector, hence an entry that is scanned.
  obtain ⟨count, total⟩ : ∃ count, volume.scanned = count + 1 := ⟨volume.scanned - 1, by
    have some := volume.positive
    rw [Volume.scanned, Volume.entriesPerCluster]
    omega⟩
  have hit : (List.range' 0 volume.scanned).find? (fun i => volume.stops name (n, i)) = some 0 := by
    rw [total, List.range'_succ]
    exact List.find?_cons_of_pos stop
  have first : (volume.entries [n]).find? (volume.stops name) = some (n, 0) := by
    rw [entries_cons, total, List.range'_succ, List.map_cons, List.cons_append]
    exact List.find?_cons_of_pos stop
  have meets := (searching.hit searches works small reaches hit [] fuel).1
  rw [first, RootMeets, if_neg (by rw [used]; exact Bool.false_ne_true)] at meets
  exact meets

/-- A cluster with nothing that stops the scan is passed after 32 entries. -/
theorem Searching.miss (searches : image.Searches) (works : bios.Working)
    (small : volume.sectorsPerCluster ≤ mostSectors) (long : volume.scanned = 32)
    (reaches : volume.Reaches n) (searching : Searching image bios volume name n m)
    (miss : (List.range' 0 volume.scanned).find? (fun i => volume.stops name (n, i)) = none)
    (fuel : Nat) :
    ∃ m', Searching image bios volume name (volume.fatEntry n) m' ∧
      rootLoop image bios (fuel + 1) m =
        (if m'.esi < endOfChain then rootLoop image bios fuel m' else .error .halted) ∧
      rootSeen image bios (fuel + 1) m =
        ((List.range' 0 volume.scanned).map fun i => (n, i)).map seenAt ++
          if m'.esi < endOfChain then rootSeen image bios fuel m' else [] := by
  obtain ⟨m', scan, read, meets, loop, seen⟩ := searching.turn searches works small reaches fuel
  obtain ⟨finds, looks⟩ := read.search
  -- The scan agrees with the directory, which has nothing here.
  rw [miss, long] at finds
  rw [finds, ScanMeets] at meets
  rw [upTo_miss finds] at seen
  obtain ⟨m₁, rfl, stack, changes⟩ := meets
  rw [long, List.map_map]
  exact ⟨nextRoot m₁, read.passed searches stack changes, loop, seen⟩

/-- With clusters of two sectors nothing of a cluster is left behind its scan. -/
theorem entries_whole (whole : volume.sectorsPerCluster = 2) (n : Nat) (rest : List Nat) :
    volume.entries (n :: rest) =
      (List.range' 0 volume.scanned).map (fun i => (n, i)) ++ volume.entries rest := by
  -- Two sectors hold the 32 entries that are scanned.
  have none : volume.entriesPerCluster - volume.scanned = 0 := by
    rw [Volume.scanned, Volume.entriesPerCluster, whole]
    rfl
  rw [entries_cons, none]
  rfl

/-- The first cluster's scan is all that the search needs of the cluster. -/
def Volume.Covered (volume : Volume) (name : List UInt8) (n : Nat) : Prop :=
  volume.sectorsPerCluster = 2 ∨ ∃ i < volume.scanned, volume.stops name (n, i) = true

/-- From the first cluster on, the search looks at the entries up to the one that stops it. -/
theorem rootLoop_spec (searches : image.Searches) (works : bios.Working)
    (small : volume.sectorsPerCluster ≤ mostSectors) {clusters : List Nat} {fuel : Nat}
    (enough : clusters.length ≤ fuel) (chain : volume.Chain clusters)
    (reaches : ∀ k ∈ clusters, volume.Reaches k) (start : clusters.head? = some n)
    (searching : Searching image bios volume name n m) (covered : volume.Covered name n) :
    RootMeets image bios volume ((volume.entries clusters).find? (volume.stops name))
        (rootLoop image bios fuel m) ∧
      rootSeen image bios fuel m =
        (upTo (volume.stops name) (volume.entries clusters)).map seenAt := by
  -- The induction is on the clusters that are left in the chain.
  induction clusters generalizing fuel n m with
  | nil => exact chain.elim
  | cons first rest ih =>
    obtain rfl : first = n := Option.some.inj start
    obtain ⟨fuel, rfl⟩ : ∃ f, fuel = f + 1 := ⟨fuel - 1, by
      rw [List.length_cons] at enough
      omega⟩
    have here := reaches first List.mem_cons_self
    cases found : (List.range' 0 volume.scanned).find? (fun i => volume.stops name (first, i)) with
    | some i => exact searching.hit searches works small here found rest fuel
    | none =>
      -- Nothing stops the scan, so the cluster must be as long as the scan.
      have whole : volume.sectorsPerCluster = 2 := by
        rcases covered with whole | ⟨i, within, stop⟩
        · exact whole
        · have passed := List.find?_eq_none.mp found i (by
            rw [List.mem_range'_1]
            omega)
          exact absurd stop passed
      have long : volume.scanned = 32 := by
        rw [Volume.scanned, Volume.entriesPerCluster, whole]
        rfl
      obtain ⟨m', next, loop, seen⟩ := searching.miss searches works small long here found fuel
      have directory :
          ((List.range' 0 volume.scanned).map fun i => (first, i)).find? (volume.stops name) =
            none := by
        rw [List.find?_map]
        exact congrArg (Option.map _) found
      rw [loop, seen, entries_whole whole, List.find?_append, directory, Option.none_or,
        upTo_append_miss directory, List.map_append, next.esi]
      cases rest with
      | nil =>
        -- The entry ends the chain, and so does the loop.
        have last : ¬volume.fatEntry first < endOfChain := Nat.not_lt.mpr chain.1
        rw [if_neg last, if_neg last]
        exact ⟨rfl, rfl⟩
      | cons second others =>
        obtain ⟨link, chain⟩ := chain
        have there := reaches second (by simp)
        have goes : volume.fatEntry first < endOfChain := by
          have high := there.entry
          have limit : endOfChain = 0x0FFFFFF8 := rfl
          omega
        rw [if_pos goes, if_pos goes]
        rw [link] at next
        obtain ⟨meets, looks⟩ := ih (by simpa using enough) chain
          (fun k member => reaches k (List.mem_cons_of_mem first member)) rfl next (.inl whole)
        exact ⟨meets, congrArg _ looks⟩

/-- Whatever the directory holds, the search looks at the first 32 entries of its buffer only. -/
theorem rootSeen_window (searches : image.Searches) (works : bios.Working)
    (small : volume.sectorsPerCluster ≤ mostSectors) {clusters : List Nat} {fuel : Nat}
    (chain : volume.Chain clusters) (reaches : ∀ k ∈ clusters, volume.Reaches k)
    (start : clusters.head? = some n) (searching : Searching image bios volume name n m) :
    ∀ place ∈ rootSeen image bios fuel m, place.2 < rootBuffer + 32 * 32 := by
  -- The induction is on the clusters that are left in the chain.
  induction clusters generalizing fuel n m with
  | nil => exact chain.elim
  | cons first rest ih =>
    obtain rfl : first = n := Option.some.inj start
    have here := reaches first List.mem_cons_self
    intro place member
    cases fuel with
    | zero => exact absurd member List.not_mem_nil
    | succ fuel =>
      obtain ⟨m', scan, read, meets, -, seen⟩ :=
        searching.turn searches works small here fuel
      rw [seen, List.mem_append] at member
      rcases member with now | later
      · obtain ⟨i, looked, rfl⟩ := List.mem_map.mp now
        have within := (List.mem_range'_1.mp (mem_of_mem_upTo looked)).2
        rw [seenAt]
        omega
      · cases scan with
        | found m₁ => exact absurd later List.not_mem_nil
        | ended => exact absurd later List.not_mem_nil
        | passed m₁ =>
          have next := read.passed searches meets.passed.2.1 meets.passed.2.2
          rw [seenAfterScan, next.esi] at later
          cases rest with
          | nil =>
            rw [if_neg (Nat.not_lt.mpr chain.1)] at later
            exact absurd later List.not_mem_nil
          | cons second others =>
            obtain ⟨link, chain⟩ := chain
            split at later
            · rw [link] at next
              exact ih chain (fun k member => reaches k (List.mem_cons_of_mem first member)) rfl
                next place later
            · exact absurd later List.not_mem_nil

/-- A search that looks at the right entries only has a cluster that is covered by its scan. -/
theorem covered_of_seen (searches : image.Searches) (works : bios.Working)
    (small : volume.sectorsPerCluster ≤ mostSectors) {rest : List Nat} {fuel : Nat}
    (chain : volume.Chain (n :: rest)) (reaches : ∀ k ∈ n :: rest, volume.Reaches k)
    (searching : Searching image bios volume name n m)
    (seen : rootSeen image bios (fuel + 1) m =
      (upTo (volume.stops name) (volume.entries (n :: rest))).map seenAt) :
    volume.Covered name n := by
  have scanned : volume.scanned = min 32 (16 * volume.sectorsPerCluster) := rfl
  have entries : volume.entriesPerCluster = 16 * volume.sectorsPerCluster := rfl
  by_contra uncovered
  rw [Volume.Covered, not_or] at uncovered
  obtain ⟨other, passed⟩ := uncovered
  -- Not covered, the first cluster stops nothing within its scan.
  have miss : (List.range' 0 volume.scanned).find? (fun i => volume.stops name (n, i)) = none :=
    List.find?_eq_none.mpr fun i member stop => passed ⟨i, by
      have within := (List.mem_range'_1.mp member).2
      omega, stop⟩
  have directory :
      ((List.range' 0 volume.scanned).map fun i => (n, i)).find? (volume.stops name) = none := by
    rw [List.find?_map]
    exact congrArg (Option.map _) miss
  by_cases short : volume.scanned < 32
  · -- Behind a cluster of fewer entries the scan looks at an entry that no cluster has.
    obtain ⟨m', scan, read, -, -, looks⟩ :=
      searching.turn searches works small (reaches n List.mem_cons_self) fuel
    obtain ⟨count, left⟩ : ∃ count, 32 - volume.scanned = count + 1 := ⟨31 - volume.scanned, by omega⟩
    rw [scanned_split volume, upTo_append_miss (read.search.1.trans miss), left, List.range'_succ,
      upTo] at looks
    have stale : seenAt (n, volume.scanned) ∈ rootSeen image bios (fuel + 1) m := by
      rw [looks]
      simp
    rw [seen] at stale
    obtain ⟨place, looked, same⟩ := List.mem_map.mp stale
    obtain ⟨k, -, inside⟩ := List.mem_flatMap.mp (mem_of_mem_upTo looked)
    obtain ⟨i, bound, rfl⟩ := List.mem_map.mp inside
    have within := List.mem_range.mp bound
    have address := congrArg Prod.snd same
    simp only [seenAt] at address
    omega
  · -- Of a cluster of more entries, the first one behind the scan is left out.
    obtain ⟨count, left⟩ : ∃ count, volume.entriesPerCluster - volume.scanned = count + 1 :=
      ⟨volume.entriesPerCluster - 33, by
        have some := volume.positive
        omega⟩
    have skipped : seenAt (n, volume.scanned) ∈ rootSeen image bios (fuel + 1) m := by
      rw [seen, entries_cons, upTo_append_miss directory, left, List.range'_succ, List.map_cons,
        List.cons_append, upTo]
      simp
    have window := rootSeen_window searches works small chain reaches rfl searching _ skipped
    rw [seenAt] at window
    dsimp only at window
    omega

end Turn

end IncroOS
