import IncroOS.Proofs.Vmm.Runs

/-! The pages that `alloc_page_table` takes are exactly the tables of the tree beyond the loader's. -/

namespace IncroOS

open Lib

/-- A run of calls outside the first GiB, with all the pages that `alloc_page_table` took in it. -/
inductive TableRun : VmmState → List Nat → VmmState → Prop
  | nil (state : VmmState) : TableRun state [] state
  | snoc {first last : VmmState} {taken : List Nat} {call : VmmCall}
      (run : TableRun first taken last) (outside : call.Outside last) :
      TableRun first (taken ++ call.tablePages last) (call.apply last)

/-- The loader's three tables. -/
def bootTables : Set Nat := {0x1000, 0x2000, 0x3000}

/-- A table hangs at a level below the top-level table, in one entry of a parent there. -/
def HangsAt (mem : Mem) (t level parent : Nat) (i : Fin 512) : Prop :=
  Radix.Hangs linkOf (slot mem) bootCr3 3 t level parent i

section Pages

variable {kernel : Kernel} {owned : Finset Nat} {state : VmmState} {call : VmmCall}

/-- The pages that a call takes for tables were free, and it takes each of them once. -/
theorem VmmInv.tablePages_fresh (inv : VmmInv state.kernel state.owned)
    (outside : call.Outside state) :
    (∀ a ∈ call.tablePages state, 384 * pageSize ≤ a ∧ a ∉ tableSet state.kernel.mem) ∧
      (call.tablePages state).Nodup := by
  cases call with
  | map virt phys flags =>
    have made := makeTables_outside inv outside
    obtain ⟨free, once⟩ := (pagePool state.kernel).takes_free
      (missing state.kernel.mem state.kernel.pml4 (pathOf virt.toNat))
    rw [VmmCall.tablePages, vmmMapPages_eq, made.pages]
    -- The pool's pages are free, and a free page holds no table.
    refine ⟨fun a member => ?_, once.map fun p q same => ?_⟩
    · obtain ⟨page, taken, rfl⟩ := List.mem_map.mp member
      obtain ⟨below, unused⟩ := free page taken
      have unmarked : isPageAllocated state.kernel page = false := by
        rw [pagePool_used, mem_allocatedPages, not_and, Bool.not_eq_true] at unused
        exact unused below
      obtain ⟨beyond, unlinked⟩ := inv.free_page unmarked
      refine ⟨Nat.mul_le_mul_right pageSize beyond, ?_⟩
      rintro ⟨path, short, met⟩
      exact unlinked path short met
    · exact Nat.eq_of_mul_eq_mul_right (by decide) same
  | unmap virt => exact ⟨fun a member => absurd member List.not_mem_nil, List.nodup_nil⟩
  | alloc => exact ⟨fun a member => absurd member List.not_mem_nil, List.nodup_nil⟩
  | free addr => exact ⟨fun a member => absurd member List.not_mem_nil, List.nodup_nil⟩
  | write addr value => exact ⟨fun a member => absurd member List.not_mem_nil, List.nodup_nil⟩

/-- The tables at the start are those of the loader. -/
theorem tableSet_initPaging (mem : Mem) : tableSet (initPaging mem).mem = bootTables := by
  -- Every path of the loader's tree leads to one of its three tables.
  have entries := initPaging_entries mem
  obtain ⟨root, first, second⟩ := (vmmInv_initPaging mem).tree.bootTables
  ext t
  constructor
  · rintro ⟨path, -, met⟩
    rcases entries.tableAt met with ⟨-, rfl⟩ | ⟨-, rfl⟩ | ⟨-, rfl⟩
    · exact .inl rfl
    · exact .inr (.inl rfl)
    · exact .inr (.inr rfl)
  · rintro (rfl | rfl | rfl)
    · exact ⟨[], by decide, root⟩
    · exact ⟨[0], by decide, first⟩
    · exact ⟨[0, 0], by decide, second⟩

end Pages

/-- What holds along a run of the pages taken so far. -/
structure TakenPages (state : VmmState) (taken : List Nat) : Prop where
  inv : VmmInv state.kernel state.owned
  tables : ∀ t, t ∈ tableSet state.kernel.mem ↔ t ∈ bootTables ∨ t ∈ taken
  beyond : ∀ a ∈ taken, 384 * pageSize ≤ a
  once : taken.Nodup

/-- A call adds the pages it takes to the tables of the tree. -/
theorem TakenPages.apply {state : VmmState} {taken : List Nat} {call : VmmCall}
    (pages : TakenPages state taken) (outside : call.Outside state) :
    TakenPages (call.apply state) (taken ++ call.tablePages state) := by
  obtain ⟨after, extension⟩ := pages.inv.apply outside
  obtain ⟨fresh, once⟩ := pages.inv.tablePages_fresh outside
  refine ⟨after, fun t => ?_, fun a member => ?_, ?_⟩
  · rw [extension.tables, pages.tables, List.mem_append, or_assoc]
  · rcases List.mem_append.mp member with old | new
    · exact pages.beyond a old
    · exact (fresh a new).1
  · -- What is taken now was no table before.
    refine pages.once.append once fun a old new => (fresh a new).2 ?_
    exact (pages.tables a).mpr (.inr old)

/-- Along every run the tables of the tree are the loader's and those taken so far. -/
theorem takenPages_run {mem : Mem} {state : VmmState} {taken : List Nat}
    (run : TableRun (VmmState.initial mem) taken state) : TakenPages state taken := by
  induction run with
  | nil =>
    -- At the start nothing has been taken.
    refine ⟨vmmInv_initPaging mem, fun t => ?_, fun a member => absurd member List.not_mem_nil,
      List.nodup_nil⟩
    have tables := tableSet_initPaging mem
    rw [VmmState.initial, tables]
    simp
  | snoc _ outside ih => exact ih.apply outside

/-- A page taken for a table hangs at one level, in one entry of one parent. -/
theorem TakenPages.hangs {state : VmmState} {taken : List Nat} (pages : TakenPages state taken)
    {a : Nat} (member : a ∈ taken) :
    ∃! place : Nat × Nat × Fin 512, HangsAt state.kernel.mem a place.1 place.2.1 place.2.2 := by
  obtain ⟨path, short, met⟩ := (pages.tables a).mpr (.inr member)
  have below : path ≠ [] := by
    rintro rfl
    -- The top-level table lies in low memory.
    have root : bootCr3 = a := Option.some.inj met
    have beyond := pages.beyond a member
    rw [← root] at beyond
    exact absurd beyond (by decide)
  exact pages.inv.tree.unshared.hangs_once short below met

/--
Over every run of calls outside the first GiB, no page table is shared or lost.

The pages taken are the tables beyond the loader's, each hangs in one entry, and all stay allocated.
-/
theorem page_tables_are_pages_taken {mem : Mem} {state : VmmState} {taken : List Nat}
    (run : TableRun (VmmState.initial mem) taken state) :
    taken.Nodup ∧
    (∀ a, a ∈ taken ↔
      a ∉ bootTables ∧ ∃ level parent i, HangsAt state.kernel.mem a level parent i) ∧
    ∀ a ∈ taken,
      (∃! place : Nat × Nat × Fin 512, HangsAt state.kernel.mem a place.1 place.2.1 place.2.2) ∧
      a % pageSize = 0 ∧ isPageAllocated state.kernel (a / pageSize) = true := by
  have pages := takenPages_run run
  refine ⟨pages.once, fun a => ⟨fun member => ⟨?_, ?_⟩, ?_⟩, fun a member => ⟨?_, ?_⟩⟩
  · -- The pages taken lie beyond the reserved ones, and the loader's tables before them.
    have beyond := pages.beyond a member
    rintro (rfl | rfl | rfl)
    · exact absurd beyond (by decide)
    · exact absurd beyond (by decide)
    · exact absurd beyond (by decide)
  · obtain ⟨place, hangs, -⟩ := pages.hangs member
    exact ⟨place.1, place.2.1, place.2.2, hangs⟩
  · rintro ⟨beyond, level, parent, i, hangs⟩
    obtain ⟨path, length, -, met⟩ := hangs.met
    have short : (path ++ [i]).length ≤ 3 := length ▸ hangs.1
    exact ((pages.tables a).mp ⟨path ++ [i], short, met⟩).resolve_left beyond
  · exact pages.hangs member
  · obtain ⟨path, short, met⟩ := (pages.tables a).mpr (.inr member)
    exact ⟨pages.inv.table_aligned short met, (pages.inv.tables path a short met).allocated⟩

/-- After a page has been mapped at 512 GiB, the tables beyond the loader's are those taken for it. -/
theorem page_tables_are_pages_taken_after_map :
    let call : VmmCall := .map 0x8000000000 0x5000 2
    let first := VmmState.initial fun _ => 0
    let taken := call.tablePages first
    let state := call.apply first
    taken.Nodup ∧
    (∀ a, a ∈ taken ↔
      a ∉ bootTables ∧ ∃ level parent i, HangsAt state.kernel.mem a level parent i) ∧
    ∀ a ∈ taken,
      (∃! place : Nat × Nat × Fin 512, HangsAt state.kernel.mem a place.1 place.2.1 place.2.2) ∧
      a % pageSize = 0 ∧ isPageAllocated state.kernel (a / pageSize) = true := by
  -- The run is this one call, and it is outside the first GiB.
  intro call first taken state
  have outside : call.Outside first := show OutsideBoot (0x8000000000 : UInt64).toNat by decide
  have run : TableRun first taken state := List.nil_append taken ▸ .snoc (.nil first) outside
  exact page_tables_are_pages_taken run

end IncroOS
