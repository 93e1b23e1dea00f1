import IncroOS.Lib.Runs
import IncroOS.Proofs.Vmm.Runs

/-! Which page tables the manager reaches at their physical addresses, and when all lie below 1 GiB. -/

namespace IncroOS

open Lib

/-- The tables on a path, as far as the source follows it. -/
def tablesOnPath (mem : Mem) (table : Nat) : List (Fin 512) → List Nat
  | [] => [table]
  | i :: rest =>
    table :: if isPresent (pte mem table i) then
      tablesOnPath mem (pte mem table i &&& ptAddrMask) rest else []

/-- The tables that `vmm_unmap_page` and `vmm_get_physical` dereference. -/
def walkTables (kernel : Kernel) (virt : Nat) : List Nat :=
  tablesOnPath kernel.mem kernel.pml4 (pathOf virt)

/-- The tables that `vmm_map_page` dereferences, with those that `alloc_page_table` clears for it. -/
def mapTables (kernel : Kernel) (virt : Nat) : List Nat :=
  vmmMapPages kernel virt ++ kernel.pml4 :: tablesMade kernel kernel.pml4 (pathOf virt)

/-- The tables that a call clears or dereferences. -/
def VmmCall.touches (state : VmmState) : VmmCall → List Nat
  | .map virt _ _ => mapTables state.kernel virt.toNat
  | .unmap virt => walkTables state.kernel virt.toNat
  | .alloc | .free _ | .write _ _ => []

/-- The frame of a table lies wholly below 1 GiB, where the loader's identity map ends. -/
def InIdentityMap (t : Nat) : Prop := t + pageSize ≤ 2 ^ 30

/-- All tables that `vmm_get_physical` can dereference lie in the identity map. -/
def WalksReach (kernel : Kernel) : Prop :=
  ∀ virt : UInt64, ∀ t ∈ walkTables kernel virt.toNat, InIdentityMap t

/-- A call, and `vmm_get_physical` after it, only touch tables in the identity map. -/
def VmmCall.Reaches (state : VmmState) (call : VmmCall) : Prop :=
  (∀ t ∈ call.touches state, InIdentityMap t) ∧ WalksReach (call.apply state).kernel

/--
A map call finds room for the tables that its path is short of.

Either enough pages are free below 1 GiB, or none is free above and the call takes no page there.
-/
def VmmCall.HasRoom (state : VmmState) : VmmCall → Prop
  | .map virt _ _ =>
    missing state.kernel.mem state.kernel.pml4 (pathOf virt.toNat) ≤
        (pagePool state.kernel).freeBelow (2 ^ 18) ∨
      ∀ page < state.kernel.totalPages, 2 ^ 18 ≤ page → isPageAllocated state.kernel page = true
  | .unmap _ | .alloc | .free _ | .write _ _ => True

section Walk

variable {mem : Mem} {kernel : Kernel} {owned : Finset Nat} {virt n : Nat} {p rest : List (Fin 512)}

/-- The tables that the source meets on a path are those of the tree. -/
theorem tablesOnPath_subset (tree : PageTree mem) (fits : p.length + rest.length ≤ 3)
    (outside : rest ≠ [] → (p ++ rest).take 2 ≠ [0, 0]) (parent : tableAt mem p = some n) :
    ∀ t ∈ tablesOnPath mem n rest, t ∈ tableSet mem := by
  induction rest generalizing p n with
  | nil =>
    intro t member
    rw [List.mem_singleton.mp member]
    exact ⟨p, fits, parent⟩
  | cons i rest ih =>
    rw [List.length_cons] at fits
    intro t member
    rcases List.mem_cons.mp member with rfl | further
    · exact ⟨p, by omega, parent⟩
    · split at further
      · rename_i present
        have path : p ++ i :: rest = p ++ [i] ++ rest := List.append_cons p i rest
        -- The path does not go through the page directory, whose entries are no links.
        have aside : p ≠ [0, 0] := by
          rintro rfl
          exact outside (List.cons_ne_nil i rest) rfl
        have met : tableAt mem (p ++ [i]) = some (pte mem n i &&& ptAddrMask) := by
          rw [tree.snoc p (by omega) aside i, parent, Option.bind_some, follow, if_pos present]
        have fits' : (p ++ [i]).length + rest.length ≤ 3 := by
          rw [List.length_append, List.length_singleton]
          omega
        exact ih fits' (fun _ => path ▸ outside (List.cons_ne_nil i rest)) met t further
      · exact absurd further List.not_mem_nil

/-- A path goes on behind an entry that is followed. -/
theorem tablesOnPath_of_follow {mem : Mem} {table next : Nat} {i : Fin 512} {rest : List (Fin 512)}
    (followed : follow mem i table = some next) :
    tablesOnPath mem table (i :: rest) = table :: tablesOnPath mem next rest := by
  obtain ⟨present, frame⟩ := follow_eq_some.mp followed
  rw [tablesOnPath, if_pos present, frame]

/-- Inside the first GiB the walk meets the loader's tables and then a large page. -/
theorem walkTables_inside (path : BootPath kernel.mem) (root : kernel.pml4 = bootCr3)
    (inside : ¬ OutsideBoot virt) :
    walkTables kernel virt = [0x1000, 0x2000, 0x3000, pdIndex virt * 0x200000] := by
  -- The loader's entries are followed one level at a time.
  obtain ⟨first, second, third⟩ := path.follows inside
  rw [← pml4Slot_val] at first
  rw [← pdptSlot_val] at second
  rw [← pdSlot_val] at third ⊢
  rw [walkTables, pathOf, root, tablesOnPath_of_follow first, tablesOnPath_of_follow second,
    tablesOnPath_of_follow third]
  rfl

/-- When the tables of the tree lie in the identity map, so do those of every walk. -/
theorem walksReach (inv : VmmInv kernel owned) (low : ∀ t ∈ tableSet kernel.mem, InIdentityMap t) :
    WalksReach kernel := by
  intro virt t member
  -- Outside the first GiB a walk meets tables of the tree only.
  by_cases outside : OutsideBoot virt.toNat
  · have root : tableAt kernel.mem [] = some kernel.pml4 := by
      rw [inv.pml4]
      rfl
    have fits : ([] : List (Fin 512)).length + (pathOf virt.toNat).length ≤ 3 := Nat.le_refl 3
    exact low t (tablesOnPath_subset inv.tree fits (fun _ => outside.path) root t member)
  · -- The large page that is taken for a table lies in the first GiB itself.
    rw [walkTables_inside inv.tree.bootPath inv.pml4 outside] at member
    have index := (pdSlot virt.toNat).isLt
    rw [pdSlot_val] at index
    simp only [List.mem_cons, List.not_mem_nil, or_false] at member
    simp only [InIdentityMap, pageSize]
    omega

end Walk

/-- Between calls every table of the tree lies in the identity map. -/
structure ReachInv (state : VmmState) : Prop where
  inv : VmmInv state.kernel state.owned
  low : ∀ t ∈ tableSet state.kernel.mem, InIdentityMap t

/-- A page lies in the identity map when its number is below that of 1 GiB. -/
theorem inIdentityMap_page (page : Nat) : InIdentityMap (page * pageSize) ↔ page < 2 ^ 18 := by
  simp only [InIdentityMap, pageSize]
  omega

section Calls

variable {state : VmmState} {call : VmmCall}

/-- The tables stay in the identity map when those that a call adds lie there. -/
theorem ReachInv.apply (reach : ReachInv state) (outside : call.Outside state)
    (low : ∀ a ∈ call.tablePages state, InIdentityMap a) : ReachInv (call.apply state) := by
  -- A table after the call was one before it, or was added by it.
  obtain ⟨after, extension⟩ := reach.inv.apply outside
  refine ⟨after, fun t member => ?_⟩
  rcases (extension.tables t).mp member with old | new
  · exact reach.low t old
  · exact low t new

/-- A map call touches tables of the identity map only when the pages it takes lie there. -/
theorem ReachInv.mapTables_iff (reach : ReachInv state) {virt : Nat} (outside : OutsideBoot virt) :
    (∀ t ∈ mapTables state.kernel virt, InIdentityMap t) ↔
      ∀ a ∈ vmmMapPages state.kernel virt, InIdentityMap a := by
  -- The tables on the way are old ones, which are low already, or pages that the call takes.
  have made := makeTables_outside reach.inv outside
  rw [mapTables, vmmMapPages_eq]
  constructor
  · exact fun all a member => all a (List.mem_append_left _ member)
  · intro low t member
    rcases List.mem_append.mp member with page | table
    · exact low t page
    · rcases List.mem_cons.mp table with rfl | visited
      · exact reach.low _ ⟨[], by decide, by rw [reach.inv.pml4]; rfl⟩
      · -- A table on the way is an old one or has just been made.
        rcases (made.tree.tables t).mp (made.visited t visited) with old | new
        · exact reach.low t old
        · exact low t new

/-- The pages that a map call takes lie in the identity map exactly when it finds room there. -/
theorem ReachInv.mapPages_iff (reach : ReachInv state) {virt : UInt64} (phys flags : UInt64)
    (outside : OutsideBoot virt.toNat) :
    (∀ a ∈ vmmMapPages state.kernel virt.toNat, InIdentityMap a) ↔
      (VmmCall.map virt phys flags).HasRoom state := by
  have made := makeTables_outside reach.inv outside
  -- A page lies in the identity map when its number is below 2 ^ 18.
  have above : (∀ page < (pagePool state.kernel).bound, 2 ^ 18 ≤ page →
        page ∈ (pagePool state.kernel).used) ↔
      ∀ page < state.kernel.totalPages, 2 ^ 18 ≤ page →
        isPageAllocated state.kernel page = true := by
    refine forall₃_congr fun page below _ => ?_
    rw [pagePool_used, mem_allocatedPages]
    exact and_iff_right below
  rw [VmmCall.HasRoom, ← above, ← Pool.takes_below_iff, vmmMapPages_eq, made.pages]
  simp only [List.mem_map, forall_exists_index, and_imp, forall_apply_eq_imp_iff₂,
    inIdentityMap_page]

/-- A call touches tables of the identity map only, exactly when it finds room for what it makes. -/
theorem ReachInv.reaches_iff (reach : ReachInv state) (outside : call.Outside state) :
    call.Reaches state ↔ call.HasRoom state := by
  -- A call that makes no table keeps the tables where they are.
  have none : call.tablePages state = [] → WalksReach (call.apply state).kernel := by
    intro empty
    have after := reach.apply outside (by simp [empty])
    exact walksReach after.inv after.low
  cases call with
  -- A map call touches the tables on its path and those it makes.
  | map virt phys flags =>
    rw [← reach.mapPages_iff _ _ outside, ← reach.mapTables_iff outside]
    refine ⟨fun reaches => reaches.1, fun low => ⟨low, ?_⟩⟩
    have pages : ∀ a ∈ (VmmCall.map virt phys flags).tablePages state, InIdentityMap a :=
      (reach.mapTables_iff outside).mp low
    have after := reach.apply outside pages
    exact walksReach after.inv after.low
  | unmap virt =>
    refine iff_of_true ⟨?_, none rfl⟩ trivial
    exact walksReach reach.inv reach.low virt
  | alloc => exact iff_of_true ⟨fun t member => absurd member List.not_mem_nil, none rfl⟩ trivial
  | free addr => exact iff_of_true ⟨fun t member => absurd member List.not_mem_nil, none rfl⟩ trivial
  | write addr value =>
    exact iff_of_true ⟨fun t member => absurd member List.not_mem_nil, none rfl⟩ trivial

/-- A call that touches tables of the identity map only keeps all tables there. -/
theorem ReachInv.step (reach : ReachInv state) (outside : call.Outside state)
    (reaches : call.Reaches state) : ReachInv (call.apply state) := by
  -- Only a map call takes pages for tables.
  refine reach.apply outside ?_
  cases call with
  | map virt phys flags => exact (reach.mapTables_iff outside).mp reaches.1
  | unmap virt => exact fun a member => absurd member List.not_mem_nil
  | alloc => exact fun a member => absurd member List.not_mem_nil
  | free addr => exact fun a member => absurd member List.not_mem_nil
  | write addr value => exact fun a member => absurd member List.not_mem_nil

end Calls

/-- At the start the tables are the loader's. -/
theorem reachInv_initial (mem : Mem) : ReachInv (VmmState.initial mem) := by
  -- The loader's three tables lie far below 1 GiB.
  refine ⟨vmmInv_initPaging mem, ?_⟩
  rintro t ⟨path, -, met⟩
  rcases (initPaging_entries mem).tableAt met with ⟨-, rfl⟩ | ⟨-, rfl⟩ | ⟨-, rfl⟩
  · exact (by decide : 0x1000 + 4096 ≤ 2 ^ 30)
  · exact (by decide : 0x2000 + 4096 ≤ 2 ^ 30)
  · exact (by decide : 0x3000 + 4096 ≤ 2 ^ 30)

/--
Over every run of calls outside the first GiB, all tables that are touched lie in the identity map
exactly when every map call of the run finds room there for the tables it makes.
-/
theorem page_tables_reached_iff (mem : Mem) (calls : List VmmCall)
    (outside : Along VmmCall.apply VmmCall.Outside (VmmState.initial mem) calls) :
    WalksReach (VmmState.initial mem).kernel ∧
    (Along VmmCall.apply VmmCall.Reaches (VmmState.initial mem) calls ↔
      Along VmmCall.apply VmmCall.HasRoom (VmmState.initial mem) calls) := by
  -- Along the run, reaching every table so far is the invariant that `HasRoom` keeps.
  have start := reachInv_initial mem
  refine ⟨walksReach start.inv start.low, ?_⟩
  exact along_iff (fun state call reach legal => reach.reaches_iff legal)
    (fun state call reach legal reaches => reach.step legal reaches) start outside

/-- A page that is mapped at 512 GiB at the start is reached through tables of the identity map. -/
theorem page_tables_reached_iff_one_map :
    let calls := [VmmCall.map 0x8000000000 0x5000 2]
    let first := VmmState.initial fun _ => 0
    WalksReach first.kernel ∧
    (Along VmmCall.apply VmmCall.Reaches first calls ↔
      Along VmmCall.apply VmmCall.HasRoom first calls) := by
  intro calls first
  have outside : OutsideBoot (0x8000000000 : UInt64).toNat := by decide
  exact page_tables_reached_iff (fun _ => 0) calls ⟨outside, trivial⟩

section Filled

/-- The pages below `n` are in use and no others, and the second entry of the top-level table is vacant. -/
structure Filled (state : VmmState) (n : Nat) : Prop where
  inv : VmmInv state.kernel state.owned
  used : allocatedPages state.kernel = Finset.range n
  vacant : isPresent (slot state.kernel.mem bootCr3 1) = false

/-- Each allocation puts the next page in use. -/
theorem Filled.alloc {state : VmmState} {n : Nat} (filled : Filled state n) (below : n < 2 ^ 20) :
    Filled (VmmCall.alloc.apply state) (n + 1) := by
  have spared := filled.inv.alloc
  -- All pages below are in use, so the next one is the lowest free page.
  have taken := Pool.take_of_used (filled.used ▸ pagePool_used state.kernel)
    (show n < (pagePool state.kernel).bound by
      rw [pagePool_bound, filled.inv.totalPages]
      exact below)
  refine ⟨spared.inv, ?_, ?_⟩
  · have pools := congrArg Prod.fst (pagePool_alloc state.kernel)
    rw [taken] at pools
    have used := congrArg Pool.used pools
    rw [pagePool_used] at used
    refine used.trans ?_
    show insert n (allocatedPages state.kernel) = Finset.range (n + 1)
    rw [filled.used, Finset.range_add_one]
  · -- The entry would have to be a link that was there before.
    by_contra linked
    have present : isPresent (slot (pmmAllocPage state.kernel).1.mem bootCr3 1) = true :=
      Bool.eq_true_of_not_eq_false linked
    rcases spared.tree.inner [] bootCr3 1 (by decide) (by decide) rfl present with ⟨-, same⟩ |
      ⟨page, member, -⟩
    · rw [same, filled.vacant] at present
      exact absurd present (by decide)
    · exact absurd member List.not_mem_nil

/-- After `k` allocations from the start the pages below `384 + k` are in use. -/
theorem filled_run (mem : Mem) (k : Nat) (fits : 384 + k ≤ 2 ^ 20) :
    Filled (runCalls VmmCall.apply (VmmState.initial mem) (List.replicate k .alloc)) (384 + k) := by
  -- One allocation more is one page more in use.
  induction k with
  | zero =>
    have entry : slot (initPaging mem).mem bootCr3 1 = 0 :=
      (initPaging_entries mem).pml4 1 (by decide)
    refine ⟨vmmInv_initPaging mem, initPaging_used mem, ?_⟩
    show isPresent (slot (initPaging mem).mem bootCr3 1) = false
    rw [entry]
    decide
  | succ k ih =>
    have step := (ih (by omega)).alloc (by omega)
    rw [runCalls, List.replicate_succ', List.foldl_append]
    exact step

/-- With all pages below `n` in use, mapping a page at 512 GiB makes a table of page `n`. -/
theorem Filled.touches {state : VmmState} {n : Nat} (filled : Filled state n) (below : n < 2 ^ 20)
    (phys flags : UInt64) :
    n * pageSize ∈ (VmmCall.map 0x8000000000 phys flags).touches state := by
  have outside : OutsideBoot (0x8000000000 : UInt64).toNat := by decide
  have taken := Pool.take_of_used (filled.used ▸ pagePool_used state.kernel)
    (show n < (pagePool state.kernel).bound by
      rw [pagePool_bound, filled.inv.totalPages]
      exact below)
  have made := makeTables_outside filled.inv outside
  have path : pathOf (0x8000000000 : UInt64).toNat = [1, 0, 0] := by decide
  -- The whole path is missing, since its first entry is vacant.
  have all : missing state.kernel.mem state.kernel.pml4 [1, 0, 0] = 3 := by
    have entry : isPresent (pte state.kernel.mem state.kernel.pml4 (1 : Fin 512)) = false := by
      rw [filled.inv.pml4]
      exact filled.vacant
    rw [missing, entry, if_neg (by decide)]
    rfl
  refine List.mem_append_left _ ?_
  rw [vmmMapPages_eq, made.pages, path, all, Pool.takes_succ taken, List.map_cons]
  exact List.mem_cons_self

end Filled

/-- With the pages below 1 GiB in use, the first table for 512 GiB lies right after the identity map. -/
theorem page_table_beyond_identity_map :
    let first := VmmState.initial fun _ => 0
    let allocs := List.replicate (2 ^ 18 - 384) VmmCall.alloc
    let call := VmmCall.map 0x8000000000 0x5000 2
    Along VmmCall.apply VmmCall.Outside first (allocs ++ [call]) ∧
      0x40000000 ∈ call.touches (runCalls VmmCall.apply first allocs) ∧
      ¬ Along VmmCall.apply VmmCall.Reaches first (allocs ++ [call]) := by
  -- The clients take all the pages from 384 to 2^18, and the next one is at 1 GiB.
  intro first allocs call
  have outside : OutsideBoot (0x8000000000 : UInt64).toNat := by decide
  have filled := filled_run (fun _ => 0) (2 ^ 18 - 384) (by decide)
  have touched := filled.touches (by decide) 0x5000 2
  have legal : Along VmmCall.apply VmmCall.Outside first allocs :=
    along_replicate fun _ => trivial
  refine ⟨along_append.mpr ⟨legal, outside, trivial⟩, touched, fun reaches => ?_⟩
  have last := (along_append.mp reaches).2.1
  exact absurd ((inIdentityMap_page _).mp (last.1 _ touched)) (by decide)

end IncroOS
