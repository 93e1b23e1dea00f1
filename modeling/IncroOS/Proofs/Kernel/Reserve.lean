import IncroOS.Proofs.Kernel.KMain

/-! The first pages behind `kMain` are the heap's, which have to be held to keep every module apart. -/

namespace IncroOS

open Lib

section Start

variable {kernel : Kernel} {mem : Mem}

/-- The paths that have a table before any page has been taken: those of up to two zeros. -/
def loaderPaths (path : List (Fin 512)) : Bool := decide (path.length ≤ 2) && path.all (·.val == 0)

/-- The loader's tables are those of these paths. -/
theorem BootEntries.tablePaths_eq (entries : BootEntries mem) : tablePaths mem = loaderPaths := by
  obtain ⟨root, first, second⟩ := entries.pageTree.bootTables
  funext path
  cases there : IncroOS.tableAt mem path with
  | some t =>
    rcases entries.tableAt there with ⟨rfl, -⟩ | ⟨rfl, -⟩ | ⟨rfl, -⟩
    · exact tablePaths_met (by decide) root
    · exact tablePaths_met (by decide) first
    · exact tablePaths_met (by decide) second
  | none =>
    rw [tablePaths, there, Option.isSome_none, Bool.and_false, Eq.comm, Bool.eq_false_iff]
    intro short
    simp only [loaderPaths, Bool.and_eq_true, decide_eq_true_eq, List.all_eq_true, beq_iff_eq] at short
    obtain ⟨few, zeros⟩ := short
    have zero : ∀ i ∈ path, i = 0 := fun i member => Fin.ext (zeros i member)
    -- A short path of zeros is one of the three.
    rcases path with _ | ⟨i, _ | ⟨j, _ | ⟨k, rest⟩⟩⟩
    · exact absurd (root.symm.trans there) (Option.some_ne_none _)
    · rw [zero i (by simp)] at there
      exact absurd (first.symm.trans there) (Option.some_ne_none _)
    · rw [zero i (by simp), zero j (by simp)] at there
      exact absurd (second.symm.trans there) (Option.some_ne_none _)
    · simp at few

/-- None of them is a page table, so no page has an entry. -/
theorem BootEntries.leafOf_eq (entries : BootEntries mem) : leafOf mem = fun _ => 0 := by
  funext virt
  have broken : IncroOS.tableAt mem (pathOf virt) = none := by
    refine Option.eq_none_iff_forall_ne_some.mpr fun t met => ?_
    -- The path of an entry goes through three tables, and those of the loader through two at most.
    have long : (pathOf virt).length = 3 := rfl
    rcases entries.tableAt met with ⟨same, -⟩ | ⟨same, -⟩ | ⟨same, -⟩
    · exact absurd (same ▸ long) (by decide)
    · exact absurd (same ▸ long) (by decide)
    · exact absurd (same ▸ long) (by decide)
  have breaks : Radix.descend linkOf (slot mem) bootCr3 (pathOf virt) = none := broken
  rw [leafOf, leafAt, Radix.lookup, breaks]
  rfl

/-- Before any page has been taken the tables are those of the loader. -/
theorem PagesUntouched.tables (untouched : PagesUntouched kernel) :
    tableSet kernel.mem = bootTables := by
  -- The loader builds one table a level; whatever the root reaches is one of the three.
  have entries := untouched.entries
  obtain ⟨root, first, second⟩ := entries.pageTree.bootTables
  ext t
  constructor
  · rintro ⟨path, -, met⟩
    rcases entries.tableAt met with ⟨-, rfl⟩ | ⟨-, rfl⟩ | ⟨-, rfl⟩
    · exact .inl rfl
    · exact .inr (.inl rfl)
    · exact .inr (.inr rfl)
  · rintro (rfl | rfl | rfl)
    · exact ⟨[], by decide, root⟩
    · exact ⟨[0], by decide, first⟩
    · exact ⟨[0, 0], by decide, second⟩

/-- Before any page has been taken the pages in use are those below 384. -/
theorem PagesUntouched.used (untouched : PagesUntouched kernel) :
    (pagePool kernel).used = Finset.range 384 := by
  -- `pmm_init` marks the pages below 384 and no others.
  have total := untouched.totalPages
  ext page
  rw [pagePool_used, mem_allocatedPages, total, Finset.mem_range]
  constructor
  · rintro ⟨below, marked⟩
    rwa [untouched.marks page below, decide_eq_true_eq] at marked
  · intro low
    refine ⟨by omega, ?_⟩
    rw [untouched.marks page (by omega), decide_eq_true low]

/-- Before any page has been taken nobody owns one. -/
theorem PagesUntouched.vmmInv (untouched : PagesUntouched kernel) (cr3 : kernel.cr3 = bootCr3) :
    VmmInv kernel ∅ := by
  have entries := untouched.entries
  have reserved : ∀ page < 384, isPageAllocated kernel page = true := by
    intro page low
    rw [untouched.marks page (by omega), decide_eq_true low]
  have total := untouched.totalPages
  refine ⟨cr3, untouched.pml4, untouched.pageBitmap, total, reserved, entries.pageTree, ?_,
    fun a member => absurd member (Finset.notMem_empty a)⟩
  intro path t _ met
  -- The loader's tables lie in the reserved pages and below the bitmap.
  have below : t / pageSize < 384 ∧ 0 < t / pageSize ∧ t / pageSize < 320 := by
    rcases entries.tableAt met with ⟨-, rfl⟩ | ⟨-, rfl⟩ | ⟨-, rfl⟩
    · decide
    · decide
    · decide
  exact ⟨below.2.1, by omega, reserved _ below.1, .inl below.2.2⟩

end Start

section Row

variable {kernel : Kernel} {owned : Finset Nat}

/-- Pages that are taken in a row are their clients', and no table or translation changes. -/
theorem VmmInv.allocPages (inv : VmmInv kernel owned) (n : Nat) :
    TablesSpared kernel (allocPages n kernel).1
      (owned ∪ ((allocPages n kernel).2.filter (· ≠ 0)).toFinset) ∧
    PmmFrame kernel (allocPages n kernel).1 := by
  induction n generalizing kernel owned with
  | zero =>
    refine ⟨⟨?_, fun virt => rfl, Extends.refl kernel.mem⟩, PmmFrame.refl kernel⟩
    rw [IncroOS.allocPages, List.filter_nil, List.toFinset_nil, Finset.union_empty]
    exact inv
  | succ n ih =>
    have first := inv.alloc
    obtain ⟨rest, frame⟩ := ih first.inv
    have leaves := fun virt => (rest.leaves virt).trans (first.leaves virt)
    have tree := first.tree.trans rest.tree
    refine ⟨⟨?_, leaves, tree⟩, (pmmAllocPage_frame kernel).trans frame⟩
    -- The first page joins those behind it, if there is one.
    have owners := rest.inv
    rw [IncroOS.allocPages]
    dsimp only
    by_cases null : (pmmAllocPage kernel).2 = 0
    · rw [if_pos null] at owners
      rwa [null, List.filter_cons_of_neg (by simp)]
    · rw [if_neg null] at owners
      rw [List.filter_cons_of_pos (by simp [null]), List.toFinset_cons, Finset.union_insert,
        ← Finset.insert_union]
      exact owners

/-- The first pages that are taken are those of the heap, in ascending order. -/
theorem PagesUntouched.heapPages_first (untouched : PagesUntouched kernel) :
    (allocPages 128 kernel).2 = (List.range' 384 128).map (· * pageSize) := by
  -- The lowest free page is taken each time, and page 384 is the lowest at first.
  have total := untouched.totalPages
  have small : kernel.totalPages ≤ 2 ^ 52 := by omega
  have enough : 384 + 128 ≤ (pagePool kernel).bound := by
    rw [pagePool_bound]
    omega
  have takes := Pool.takes_of_used untouched.used enough
  have count := Pool.takes_length_eq 128 (pagePool kernel)
  rw [takes, List.length_range'] at count
  rw [(allocPages_takes 128 small).1, takes]
  have none : 128 - (pagePool kernel).free = 0 := by omega
  rw [none, List.replicate_zero, List.append_nil]

/-- These pages are what the heap lies in. -/
theorem PagesUntouched.heapPages_taken (untouched : PagesUntouched kernel) :
    ((allocPages 128 kernel).2.filter (· ≠ 0)).toFinset = heapPages := by
  -- The heap has 128 pages and starts at page 384.
  rw [untouched.heapPages_first]
  ext a
  rw [List.mem_toFinset, List.mem_filter, mem_heapPages, List.mem_map, heapBase_eq]
  simp only [List.mem_range'_1, pageSize, decide_eq_true_eq, ne_eq]
  constructor
  · rintro ⟨⟨page, ⟨low, high⟩, rfl⟩, -⟩
    exact ⟨page - 384, by omega, by omega⟩
  · rintro ⟨k, small, rfl⟩
    exact ⟨⟨384 + k, ⟨by omega, by omega⟩, by omega⟩, by omega⟩

end Row

section Behind

/-- The states of the modules behind `kMain`, once the pages of the heap have been taken. -/
def Modules.started : Modules where
  pool := ⟨2 ^ 20, Finset.range 512, Finset.range_subset_range.mpr (by decide)⟩
  tables := loaderPaths
  entries _ := 0
  blocks := [⟨heapSize - blockHeaderSize, true⟩]
  color := greyOnBlack
  shown := kernelScreen
  log := kernelReport.flatMap crlf

/-- The machine once somebody has taken the pages of the heap, never to give them back. -/
def KernelState.reserved (machine : KernelMachine) : KernelState where
  machine := machine.withKernel (allocPages 128 machine.kernel).1
  owned := ∅
  live := ∅

variable {start : Uart} {image : KernelImage} {machine : KernelMachine}

/-- The loader's tables lie in the first GiB. -/
theorem bootTables_low {t : Nat} (member : t ∈ bootTables) : InIdentityMap t := by
  -- They are at 0x1000, 0x2000 and 0x3000.
  unfold InIdentityMap
  rcases member with rfl | rfl | rfl
  · decide
  · decide
  · decide

/-- The first 128 pages are the ones to take. -/
theorem PagesUntouched.drained {kernel : Kernel} (untouched : PagesUntouched kernel) :
    (pagePool kernel).drain 128 = Modules.started.pool := by
  -- Taking the lowest page 128 times marks the 128 pages after the marked ones.
  have total := untouched.totalPages
  have enough : 384 + 128 ≤ (pagePool kernel).bound := by
    rw [pagePool_bound]
    omega
  ext1
  · rw [Pool.drain_bound, pagePool_bound, total]
    rfl
  · exact Pool.drain_of_used untouched.used enough

/-- Where the pages of the heap are taken every module keeps to its own memory. -/
theorem Running.taken {kernel : Kernel}
    (running : Running start image ∅ greyOnBlack kernelScreen kernelReport machine)
    (spared : TablesSpared machine.kernel kernel (∅ ∪ heapPages))
    (frame : PmmFrame machine.kernel kernel) (pool : pagePool kernel = Modules.started.pool) :
    KernelInv start ⟨machine.withKernel kernel, ∅, ∅⟩ .started := by
  have up := running.up
  have entries := up.untouched.entries
  have inv := up.untouched.vmmInv up.cr3
  have places := fun x inside => bitmap_apart_places (x := x) inv inside
  refine ⟨spared.inv, fun a member => absurd member (Finset.notMem_empty a), ?_, pool.symm, ?_, ?_,
    ?_, ?_, running.stands.console⟩
  · -- No table has been added to those of the loader.
    refine TablesPlaced.kept (fun t member => ?_) spared.tree
    rw [up.untouched.tables] at member
    exact ⟨.inl member, bootTables_low member⟩
  · rw [KernelMachine.withKernel_kernel, spared.tree.tablePaths_eq inv.tree spared.inv.tree,
      entries.tablePaths_eq]
    rfl
  · rw [KernelMachine.withKernel_kernel, funext spared.leaves, entries.leafOf_eq]
    rfl
  · refine up.heap_free.inv.congr frame.heapStart frame.mem ?_
    rw [Set.disjoint_left]
    exact fun x inside written => (places x written).1 inside
  · refine running.stands.screen.frame rfl rfl rfl rfl fun x shown => frame.mem x fun written => ?_
    exact (places x written).2 shown

/-- What `kMain` leaves is such a state once these pages are taken. -/
theorem Running.reserved
    (running : Running start image ∅ greyOnBlack kernelScreen kernelReport machine) :
    KernelInv start (.reserved machine) .started := by
  -- The tables and the heap that `kMain` leaves outlive the pages being taken.
  have untouched := running.up.untouched
  obtain ⟨spared, frame⟩ := (untouched.vmmInv running.up.cr3).allocPages 128
  rw [untouched.heapPages_taken] at spared
  have total := untouched.totalPages
  have small : machine.kernel.totalPages ≤ 2 ^ 52 := by omega
  exact running.taken spared frame ((allocPages_takes 128 small).2.trans untouched.drained)

end Behind

section Session

variable {start : Uart} {state : KernelState} {modules : Modules}

end Session

section Runs

variable {line : SerialLine} {image : KernelImage} {machine up : KernelMachine} {fuel : Nat}

end Runs

end IncroOS
