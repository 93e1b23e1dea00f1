import IncroOS.Lib.Prefixes
import IncroOS.Proofs.Vmm.Runs

/-! The pages that `vmm_map_page` needs, what it does with fewer, and which later calls need none. -/

namespace IncroOS

open Lib

section Drain

variable {kernel : Kernel} {owned : Finset Nat} {p q rest : List (Fin 512)} {n : Nat} {i : Fin 512}

/-- The paths on the way down from a table that have no table yet, the top one first. -/
def lackingTables (mem : Mem) (p rest : List (Fin 512)) : List (List (Fin 512)) :=
  lacking (tablePaths mem) p rest

/--
Going down a path takes the tables it is short of from the pool, and gets through with enough.

As many of the paths that lack a table get one as the pool has pages.
-/
structure DrainsPool (kernel : Kernel) (p : List (Fin 512)) (n : Nat) (rest : List (Fin 512)) :
    Prop where
  short_of : missing kernel.mem n rest = (lackingTables kernel.mem p rest).length
  pool : pagePool (makeTables kernel n rest).1 =
    (pagePool kernel).drain (missing kernel.mem n rest)
  reached : (makeTables kernel n rest).2 ≠ 0 ↔ missing kernel.mem n rest ≤ (pagePool kernel).free
  tables : ∀ q, tablePaths (makeTables kernel n rest).1.mem q =
    (tablePaths kernel.mem q ||
      decide (q ∈ (lackingTables kernel.mem p rest).take (pagePool kernel).free))

/-- At the end of the path there is nothing left to make. -/
theorem DrainsPool.nil (nonnull : n ≠ 0) (there : tablePaths kernel.mem p = true) :
    DrainsPool kernel p n [] := by
  -- Nothing is lacking, so nothing is taken and nothing is marked.
  have none : lackingTables kernel.mem p [] = [] := lacking_nil there
  refine ⟨?_, rfl, iff_of_true nonnull (Nat.zero_le _), fun q => ?_⟩
  · rw [none]
    rfl
  · rw [none, List.take_nil, decide_eq_false List.not_mem_nil, Bool.or_false]
    rfl

/-- A level that is there costs nothing. -/
theorem DrainsPool.found {t : Nat} (result : getOrCreateTable kernel n i ptWritable = (kernel, t))
    (nonnull : t ≠ 0) (same : missing kernel.mem n (i :: rest) = missing kernel.mem t rest)
    (there : tablePaths kernel.mem p = true) (below : DrainsPool kernel (p ++ [i]) t rest) :
    DrainsPool kernel p n (i :: rest) := by
  -- The call goes on from the child, and so do the count and the list of what is lacking.
  have made : makeTables kernel n (i :: rest) = makeTables kernel t rest := by
    simp only [makeTables, result, if_neg nonnull]
  have lacks : lackingTables kernel.mem p (i :: rest) = lackingTables kernel.mem (p ++ [i]) rest :=
    lacking_cons there
  constructor
  · rw [same, lacks]
    exact below.short_of
  · rw [made, same]
    exact below.pool
  · rw [made, same]
    exact below.reached
  · rw [made, lacks]
    exact below.tables

/-- Below a vacant entry no table is there, and every level is missing. -/
theorem lackingTables_vacant (there : tablePaths kernel.mem p = true)
    (broken : tableAt kernel.mem (p ++ [i]) = none) :
    (lackingTables kernel.mem p (i :: rest)).length = rest.length + 1 := by
  rw [lackingTables, lacking_cons there]
  exact lacking_length fun q => tablePaths_broken broken

/-- Without a page left the descent ends where it is. -/
theorem DrainsPool.exhausted (full : (pagePool kernel).take = (pagePool kernel, none))
    (failed : getOrCreateTable kernel n i ptWritable = (kernel, 0))
    (vacant : isPresent (pte kernel.mem n i) = false) (there : tablePaths kernel.mem p = true)
    (broken : tableAt kernel.mem (p ++ [i]) = none) : DrainsPool kernel p n (i :: rest) := by
  -- The pool is empty, so every page that the rest of the path asks for is one it lacks.
  have nothing := Pool.free_of_take full
  have short_of : missing kernel.mem n (i :: rest) = rest.length + 1 := by
    rw [missing, vacant, if_neg (by decide)]
  have made : makeTables kernel n (i :: rest) = (kernel, 0) := by
    simp only [makeTables, failed, if_pos]
  constructor
  · rw [short_of, lackingTables_vacant there broken]
  · rw [made, Pool.drain_full full]
  · rw [made, short_of, nothing]
    exact iff_of_false (fun nonnull => nonnull rfl) (by omega)
  · intro q
    rw [made, nothing, List.take_zero, decide_eq_false List.not_mem_nil, Bool.or_false]

/-- A page that is taken becomes a blank table, below which everything is missing. -/
theorem DrainsPool.made {kernel' : Kernel} {page : Nat} {inside : page < kernel.totalPages}
    (free : isPageAllocated kernel page = false)
    (taken : (pagePool kernel).take = ((pagePool kernel).mark page inside, some page))
    (result : getOrCreateTable kernel n i ptWritable = (kernel', page * pageSize))
    (nonnull : page * pageSize ≠ 0) (vacant : isPresent (pte kernel.mem n i) = false)
    (blank : ∀ j, slot kernel'.mem (page * pageSize) j = 0)
    (pool : pagePool kernel' = (pagePool kernel).mark page inside)
    (there : tablePaths kernel.mem p = true) (broken : tableAt kernel.mem (p ++ [i]) = none)
    (short : (p ++ [i]).length ≤ 3)
    (paths : ∀ q, q.length ≤ 3 → tableAt kernel'.mem q =
      if q = p ++ [i] then some (page * pageSize) else tableAt kernel.mem q)
    (below : DrainsPool kernel' (p ++ [i]) (page * pageSize) rest) :
    DrainsPool kernel p n (i :: rest) := by
  have short_of : missing kernel.mem n (i :: rest) = rest.length + 1 := by
    rw [missing, vacant, if_neg (by decide)]
  have further := missing_blank blank rest
  have made : makeTables kernel n (i :: rest) = makeTables kernel' (page * pageSize) rest := by
    simp only [makeTables, result, if_neg nonnull]
  have unused : page ∉ (pagePool kernel).used := by simp [free]
  have count : (pagePool kernel').free + 1 = (pagePool kernel).free := by
    rw [pool]
    exact Pool.free_mark inside unused
  -- The new table's path has a table now, and the others are as they were.
  have gains : ∀ q, tablePaths kernel'.mem q = (decide (q = p ++ [i]) || tablePaths kernel.mem q) := by
    intro q
    by_cases fits : q.length ≤ 3
    · rw [tablePaths, tablePaths, paths q fits]
      by_cases new : q = p ++ [i]
      · rw [if_pos new, decide_eq_true new, decide_eq_true fits]
        rfl
      · rw [if_neg new, decide_eq_false new, Bool.false_or]
    · have other : q ≠ p ++ [i] := fun same => fits (same ▸ short)
      rw [tablePaths, tablePaths, decide_eq_false fits, decide_eq_false other]
      rfl
  have lacks : lackingTables kernel.mem p (i :: rest) =
      (p ++ [i]) :: lackingTables kernel'.mem (p ++ [i]) rest := by
    rw [lackingTables, lacking_cons there]
    refine lacking_made (fun q => tablePaths_broken broken) ?_ fun j q => ?_
    · rw [gains, decide_eq_true rfl, Bool.true_or]
    · rw [gains, tablePaths_broken broken, Bool.or_false]
      exact decide_eq_false (by simp)
  constructor
  · rw [short_of, lackingTables_vacant there broken]
  · rw [made, short_of, below.pool, further, pool, Pool.drain, taken]
  · rw [made, short_of, below.reached, further]
    omega
  · intro q
    rw [made, below.tables, gains, lacks, ← count, List.take_succ_cons]
    simp only [List.mem_cons, Bool.decide_or]
    rw [Bool.or_assoc, Bool.or_left_comm]

/-- Every level that is missing costs one page, the top one first. -/
theorem makeTables_drains (inv : VmmInv kernel owned) (fits : p.length + rest.length ≤ 3)
    (outside : rest ≠ [] → (p ++ rest).take 2 ≠ [0, 0]) (parent : tableAt kernel.mem p = some n) :
    DrainsPool kernel p n rest := by
  -- The induction is on the path, so the kernel, the table and the way to it stay general.
  have there : tablePaths kernel.mem p = true := tablePaths_met (by omega) parent
  induction rest generalizing kernel p n with
  | nil =>
    have page := inv.tables p n (by simpa using fits) parent
    refine .nil (fun zero => ?_) there
    have positive := page.positive
    rw [zero] at positive
    exact absurd positive (by decide)
  | cons i rest ih =>
    have path : p ++ i :: rest = p ++ [i] ++ rest := List.append_cons p i rest
    have onward : (p ++ [i] ++ rest).take 2 ≠ [0, 0] := path ▸ outside (List.cons_ne_nil i rest)
    have aside : p ≠ [0, 0] := by
      rintro rfl
      exact outside (List.cons_ne_nil i rest) rfl
    have short : p.length < 3 := by
      rw [List.length_cons] at fits
      omega
    have fits' : (p ++ [i]).length + rest.length ≤ 3 := by
      rw [List.length_cons] at fits
      rw [List.length_append, List.length_singleton]
      omega
    obtain ⟨descends, charges⟩ := getOrCreateTable_spec inv i short aside parent
    cases present : isPresent (pte kernel.mem n i) with
    | true =>
      obtain ⟨result, nonnull⟩ := charges.found present
      rcases descends with failed | ⟨-, -, met, -⟩
      · exact absurd (congrArg Prod.snd failed) nonnull
      · rw [result] at met nonnull
        have onPath := tablePaths_met (p := p ++ [i]) (by omega) met
        exact .found result nonnull (by rw [missing, present, if_pos rfl]) there
          (ih inv fits' (fun _ => onward) met onPath)
    | false =>
      have place : VacantAt kernel p n i := ⟨short, aside, parent, present⟩
      have table := charges.table present
      obtain ⟨full, -⟩ | ⟨page, inside, free, taken, -⟩ := pagePool_take kernel
      · have null : (getOrCreateTable kernel n i ptWritable).2 = 0 := by
          rw [table, full]
          rfl
        have failed := descends.resolve_right fun made => made.1 null
        exact .exhausted full failed present there place.broken
      · have beyond := (inv.free_page free).1
        have nonnull : page * pageSize ≠ 0 := by
          simp only [pageSize]
          omega
        rw [taken] at table
        rcases descends with failed | ⟨made, inv', met, -⟩
        · rw [failed] at table
          exact absurd table.symm nonnull
        · have pool := charges.pool present
          have blank := charges.blank present made
          have paths := charges.paths present made
          obtain ⟨kernel', t, result⟩ : ∃ kernel' t,
              getOrCreateTable kernel n i ptWritable = (kernel', t) := ⟨_, _, rfl⟩
          rw [result] at table inv' met pool blank paths
          obtain rfl : t = page * pageSize := table
          rw [taken] at pool
          have onPath := tablePaths_met (p := p ++ [i]) (by omega) met
          exact .made free taken result nonnull present blank pool there place.broken place.length
            paths (ih inv' fits' (fun _ => onward) met onPath)

end Drain

section Demand

variable {kernel : Kernel} {owned : Finset Nat} {virt : Nat}

/-- Changes apart from the bitmap leave the pool of pages alone. -/
theorem pagePool_congr {mem : Mem} {region : Set Nat}
    (changes : Mem.ChangesOnly kernel.mem mem region)
    (apart : Disjoint (bitmapSpan kernel) region) :
    pagePool (kernel.withMem mem) = pagePool kernel := by
  refine Pool.ext rfl (Finset.filter_congr fun page member => ?_)
  have below : page < kernel.totalPages := Finset.mem_range.mp member
  rw [isPageAllocated_congr changes apart below]

/-- The tables that the path of an address is short of. -/
def demand (kernel : Kernel) (virt : Nat) : Nat := missing kernel.mem kernel.pml4 (pathOf virt)

/-- Going down to the page table of an address takes the pages it needs. -/
theorem VmmInv.demand_drains (inv : VmmInv kernel owned) (outside : OutsideBoot virt) :
    DrainsPool kernel [] kernel.pml4 (pathOf virt) := by
  refine makeTables_drains (p := []) inv (Nat.le_refl 3) (fun _ => outside.path) ?_
  rw [inv.pml4]
  rfl

/-- Outside the first GiB, a map call takes the pages it needs, and succeeds if there are enough. -/
theorem vmmMapPage_demand (inv : VmmInv kernel owned) (outside : OutsideBoot virt)
    (phys flags : Nat) :
    pagePool (vmmMapPage kernel virt phys flags).1 = (pagePool kernel).drain (demand kernel virt) ∧
      ((vmmMapPage kernel virt phys flags).2 = true ↔
        demand kernel virt ≤ (pagePool kernel).free) := by
  obtain ⟨-, pool, reached, -⟩ := inv.demand_drains outside
  obtain ⟨null, result⟩ | ⟨nonnull, result⟩ := vmmMapPage_cases kernel virt phys flags
  · -- Without a page table the call ends where the descent did.
    rw [result]
    exact ⟨pool, iff_of_false Bool.false_ne_true fun enough => reached.mpr enough null⟩
  · -- The entry is written to a page table, which is apart from the bitmap.
    have made := makeTables_outside inv outside
    have short : (pathOf virt).length ≤ 3 := Nat.le_refl 3
    have aligned := made.inv.table_aligned short (made.met nonnull)
    have page := made.inv.tables _ _ short (made.met nonnull)
    have changes := setPte_changes (makeTables kernel kernel.pml4 (pathOf virt)).1.mem
      (makeTables kernel kernel.pml4 (pathOf virt)).2 (ptSlot virt) (leafEntry phys flags)
      (ptSlot virt).isLt
    have same := pagePool_congr changes (made.inv.bitmap_apart aligned page.apart)
    rw [result]
    exact ⟨same.trans pool, iff_of_true rfl (reached.mp nonnull)⟩

end Demand

section Paths

variable {mem mem' : Mem} {p : List (Fin 512)} {t : Nat}

/-- A link of the new tree that is no new table was one of the old tree. -/
theorem Extends.paths_back (extends_ : Extends mem mem' []) (tree : PageTree mem')
    (short : p.length ≤ 3) (met : tableAt mem' p = some t) : tableAt mem p = some t := by
  -- The induction goes down the path, one link after the other.
  induction p using List.reverseRecOn generalizing t with
  | nil =>
    rw [tableAt, Radix.descend] at met ⊢
    exact met
  | append_singleton p i ih =>
    rw [List.length_append, List.length_singleton] at short
    have after := Radix.descend_snoc linkOf (slot mem') bootCr3 p i
    have before := Radix.descend_snoc linkOf (slot mem) bootCr3 p i
    have step : (tableAt mem' p).bind (fun n => linkOf (slot mem' n i)) = some t :=
      after.symm.trans met
    obtain ⟨n, parent, link⟩ := Option.bind_eq_some_iff.mp step
    have present : isPresent (slot mem' n i) = true := by
      by_contra absent
      rw [linkOf_absent (by simpa using absent)] at link
      exact absurd link.symm (Option.some_ne_none t)
    have aside : p ≠ [0, 0] := by
      -- The loader's page directory links no table.
      rintro rfl
      have root := tree.bootTables.2.2
      rw [root] at parent
      obtain rfl := Option.some.inj parent
      rw [tree.bootPd i, linkOf, (bootPde_fields i.isLt).2.1, Bool.not_true, Bool.and_false,
        if_neg Bool.false_ne_true] at link
      exact absurd link.symm (Option.some_ne_none t)
    obtain ⟨old, same⟩ | ⟨page, member, -⟩ :=
      extends_.inner p n i (by omega) aside parent present
    · have here : tableAt mem p = some n := old
      have steps : tableAt mem (p ++ [i]) = (tableAt mem p).bind fun n => linkOf (slot mem n i) :=
        before
      rw [steps, here, Option.bind_some, ← same, link]
    · exact absurd member List.not_mem_nil

/-- Where no table is added, every table stays on its path. -/
theorem Extends.paths_kept (extends_ : Extends mem mem' []) (tree : PageTree mem)
    (tree' : PageTree mem') (short : p.length ≤ 3) (met : tableAt mem p = some t) :
    tableAt mem' p = some t := by
  obtain ⟨q, shortQ, metQ⟩ := (extends_.tables t).mpr (.inl ⟨p, short, met⟩)
  -- The path on which the table is met now has led to it before.
  have same := tree.unshared p q t short shortQ met (extends_.paths_back tree' shortQ metQ)
  rwa [same]

/-- Where no table is added, the same paths have tables. -/
theorem Extends.tablePaths_eq (extends_ : Extends mem mem' []) (tree : PageTree mem)
    (tree' : PageTree mem') : tablePaths mem' = tablePaths mem := by
  refine tablePaths_congr fun path short => Option.ext fun t => ?_
  exact ⟨extends_.paths_back tree' short, extends_.paths_kept tree tree' short⟩

/-- On a path that is there nothing is missing. -/
theorem missing_of_path {rest : List (Fin 512)} {n : Nat} (tree : PageTree mem)
    (fits : p.length + rest.length ≤ 3) (outside : rest ≠ [] → (p ++ rest).take 2 ≠ [0, 0])
    (parent : tableAt mem p = some n) (met : tableAt mem (p ++ rest) = some t) :
    missing mem n rest = 0 := by
  -- The induction is on what is left of the path, below the table that has been met.
  induction rest generalizing p n with
  | nil => rfl
  | cons i rest ih =>
    have path : p ++ i :: rest = p ++ [i] ++ rest := List.append_cons p i rest
    have aside : p ≠ [0, 0] := by
      rintro rfl
      exact outside (List.cons_ne_nil i rest) rfl
    rw [List.length_cons] at fits
    have step := tree.snoc p (by omega) aside i
    rw [parent, Option.bind_some] at step
    -- The way goes on, so its next link is there.
    rw [path] at met
    have onward : Radix.descend linkOf (slot mem) bootCr3 (p ++ [i] ++ rest) = some t := met
    rw [Radix.descend_append] at onward
    obtain ⟨next, link, -⟩ := Option.bind_eq_some_iff.mp onward
    have there : tableAt mem (p ++ [i]) = some next := link
    obtain ⟨present, frame⟩ := follow_eq_some.mp (step.symm.trans there)
    rw [missing, if_pos present, frame]
    refine ih ?_ (fun _ => path ▸ outside (List.cons_ne_nil i rest)) there met
    rw [List.length_append, List.length_singleton]
    omega

end Paths

section Made

variable {kernel : Kernel} {owned : Finset Nat} {virt : Nat}

/-- A map call makes tables for as many of the paths that lack one as there are pages. -/
theorem vmmMapPage_tables (inv : VmmInv kernel owned) (outside : OutsideBoot virt) (phys : Nat)
    {flags : Nat} (bound : flags < 2 ^ 64) (path : List (Fin 512)) :
    tablePaths (vmmMapPage kernel virt phys flags).1.mem path =
      (tablePaths kernel.mem path ||
        decide (path ∈ (lackingTables kernel.mem [] (pathOf virt)).take (pagePool kernel).free)) := by
  have tables := (inv.demand_drains outside).tables path
  obtain ⟨-, result⟩ | ⟨nonnull, result⟩ := vmmMapPage_cases kernel virt phys flags
  · rw [result]
    exact tables
  · -- The entry that is written last is one of a page table, and links no table.
    have made := makeTables_outside inv outside
    obtain ⟨after, -, -, -, extension⟩ := made.inv.assign (p := pathOf virt) (i := ptSlot virt) rfl
      (made.met nonnull) (leafEntry_lt phys bound)
    rw [result, ← tables]
    exact congrFun (extension.tablePaths_eq made.inv.tree after.tree) path

end Made

section Regions

variable {kernel kernel' : Kernel} {owned : Finset Nat} {virt w : Nat} {state state' : VmmState}

/-- The page table of an address is there. -/
def HasTable (kernel : Kernel) (virt : Nat) : Prop :=
  ∃ t, tableAt kernel.mem (pathOf virt) = some t

/-- Two addresses lie in one region of 2 MiB. -/
def SameRegion (w virt : Nat) : Prop := w / 2 ^ 21 % 2 ^ 27 = virt / 2 ^ 21 % 2 ^ 27

instance (w virt : Nat) : Decidable (SameRegion w virt) := inferInstanceAs (Decidable (_ = _))

/-- Addresses in one region have their entries in one page table. -/
theorem SameRegion.path (same : SameRegion w virt) : pathOf w = pathOf virt := by
  -- The three indices of the path are read from the bits above 20, which are the same.
  unfold SameRegion at same
  simp only [pathOf, List.cons.injEq, and_true, Fin.ext_iff, pml4Slot_val, pdptSlot_val,
    pdSlot_val, pml4Index_eq, pdptIndex_eq, pdIndex_eq]
  omega

/-- A region lies outside the first GiB as a whole, or inside. -/
theorem SameRegion.outside (same : SameRegion w virt) (outside : OutsideBoot virt) :
    OutsideBoot w := by
  -- The first GiB is told by the two upper indices alone.
  unfold SameRegion at same
  unfold OutsideBoot at outside ⊢
  rw [pml4Index_eq, pdptIndex_eq] at outside ⊢
  omega

/-- An address with a page table needs no page. -/
theorem HasTable.demand (there : HasTable kernel virt) (inv : VmmInv kernel owned)
    (outside : OutsideBoot virt) : IncroOS.demand kernel virt = 0 := by
  -- The path to the table is complete, so no level of it is missing.
  obtain ⟨t, met⟩ := there
  refine missing_of_path (p := []) inv.tree (Nat.le_refl 3) (fun _ => outside.path) ?_ met
  rw [inv.pml4]
  rfl

/-- A map call that succeeds leaves a page table behind. -/
theorem HasTable.of_map (inv : VmmInv kernel owned) (outside : OutsideBoot virt) {phys flags : Nat}
    (bound : flags < 2 ^ 64) (mapped : (vmmMapPage kernel virt phys flags).2 = true) :
    HasTable (vmmMapPage kernel virt phys flags).1 virt := by
  have made := makeTables_outside inv outside
  obtain ⟨-, result⟩ | ⟨nonnull, result⟩ := vmmMapPage_cases kernel virt phys flags
  · rw [result] at mapped
    exact absurd mapped Bool.false_ne_true
  · -- The last write is to the page table, and adds no table.
    obtain ⟨after, -, -, -, tree⟩ := made.inv.assign (p := pathOf virt) (i := ptSlot virt) rfl
      (made.met nonnull) (leafEntry_lt phys bound)
    rw [result]
    exact ⟨_, tree.paths_kept made.inv.tree after.tree (Nat.le_refl 3) (made.met nonnull)⟩

/-- No call takes the page table of an address away. -/
theorem HasTable.apply (there : HasTable state.kernel virt)
    (inv : VmmInv state.kernel state.owned) {call : VmmCall} (outside : call.Outside state) :
    HasTable (call.apply state).kernel virt := by
  obtain ⟨t, met⟩ := there
  have short : (pathOf virt).length ≤ 3 := Nat.le_refl 3
  obtain ⟨after, extension⟩ := inv.apply outside
  cases call with
  | map w phys flags =>
    -- The tables that are made leave the others on their paths, and so does the last write.
    have made := makeTables_outside inv outside
    have grown := made.grows.paths _ t short met
    obtain ⟨-, result⟩ | ⟨nonnull, result⟩ :=
      vmmMapPage_cases state.kernel w.toNat phys.toNat flags.toNat
    · refine ⟨t, ?_⟩
      rw [VmmCall.apply, result]
      exact grown
    · obtain ⟨last, -, -, -, tree⟩ := made.inv.assign (p := pathOf w.toNat) (i := ptSlot w.toNat) rfl
        (made.met nonnull) (leafEntry_lt phys.toNat flags.toNat_lt)
      refine ⟨t, ?_⟩
      rw [VmmCall.apply, result]
      exact tree.paths_kept made.inv.tree last.tree short grown
  | unmap w => exact ⟨t, extension.paths_kept inv.tree after.tree short met⟩
  | alloc => exact ⟨t, extension.paths_kept inv.tree after.tree short met⟩
  | free addr => exact ⟨t, extension.paths_kept inv.tree after.tree short met⟩
  | write addr value => exact ⟨t, extension.paths_kept inv.tree after.tree short met⟩

/-- Nor does any run of calls. -/
theorem HasTable.run (there : HasTable state.kernel virt)
    (inv : VmmInv state.kernel state.owned) (run : Relation.ReflTransGen OutsideStep state state') :
    HasTable state'.kernel virt ∧ VmmInv state'.kernel state'.owned := by
  -- By induction on the run: no call takes a table away.
  induction run with
  | refl => exact ⟨there, inv⟩
  | tail _ step ih =>
    obtain ⟨call, outside, rfl⟩ := step
    exact ⟨ih.1.apply ih.2 outside, (ih.2.apply outside).1⟩

end Regions

section Results

variable {mem : Mem} {state later : VmmState}

/--
In every state that is reached, a map call takes one page a missing table, and no others.

Without enough pages it takes all that are left, keeps them in the tree, and maps nothing.
-/
theorem map_page_takes_what_it_needs
    (run : Relation.ReflTransGen OutsideStep (VmmState.initial mem) state)
    (virt phys flags : UInt64) (outside : OutsideBoot virt.toNat) :
    let call := vmmMapPage state.kernel virt.toNat phys.toNat flags.toNat
    let need := demand state.kernel virt.toNat
    let pool := pagePool state.kernel
    (call.2 = true ↔ need ≤ pool.free) ∧
      vmmMapPages state.kernel virt.toNat = (pool.takes need).map (· * pageSize) ∧
      (vmmMapPages state.kernel virt.toNat).length = min need pool.free ∧
      pagePool call.1 = pool.drain need ∧
      (call.2 = true → ∀ w, leafOf call.1.mem w =
        if SamePage w virt.toNat then leafEntry phys.toNat flags.toNat
        else leafOf state.kernel.mem w) ∧
      (call.2 = false → (pagePool call.1).free = 0 ∧
        (∀ w, leafOf call.1.mem w = leafOf state.kernel.mem w) ∧
        ∀ page ∈ vmmMapPages state.kernel virt.toNat, page ∈ tableSet call.1.mem) := by
  intro call need pool
  have inv := vmmInv_outside run
  obtain ⟨drained, succeeds⟩ := vmmMapPage_demand inv outside phys.toNat flags.toNat
  obtain ⟨-, outcome⟩ := vmmMapPage_outside inv outside phys.toNat flags.toNat_lt
  have pages : vmmMapPages state.kernel virt.toNat = (pool.takes need).map (· * pageSize) := by
    rw [vmmMapPages_eq]
    exact (makeTables_outside inv outside).pages
  refine ⟨succeeds, pages, ?_, drained, fun mapped w => ?_, fun failed => ⟨?_, fun w => ?_, ?_⟩⟩
  · rw [pages, List.length_map, Pool.takes_length_eq]
  · rcases outcome with ⟨failed, -⟩ | ⟨-, assigns⟩
    · exact absurd (failed.symm.trans mapped) Bool.false_ne_true
    · exact assigns.leafOf_eq w
  · -- A call that fails has found the pool empty.
    have short : ¬ need ≤ pool.free := fun enough =>
      absurd (failed.symm.trans (succeeds.mpr enough)) Bool.false_ne_true
    rw [drained, Pool.drain_free]
    exact Nat.sub_eq_zero_of_le (Nat.le_of_not_le short)
  · rcases outcome with ⟨-, grows⟩ | ⟨mapped, -⟩
    · exact grows.leaves _ _ rfl
    · exact absurd (failed.symm.trans mapped) Bool.false_ne_true
  · -- What was taken hangs in the tree.
    intro page member
    exact ((vmmMapPage_extends inv outside phys.toNat flags.toNat_lt).tables page).mpr (.inr member)

/-- A map call at 512 GiB takes what it needs of the pages that are free at the start. -/
theorem map_page_takes_what_it_needs_first :
    (vmmMapPages (initPaging fun _ => 0) (0x8000000000 : UInt64).toNat).length =
      min (demand (initPaging fun _ => 0) (0x8000000000 : UInt64).toNat)
        (pagePool (initPaging fun _ => 0)).free := by
  have start : Relation.ReflTransGen OutsideStep (VmmState.initial fun _ => 0)
      (VmmState.initial fun _ => 0) := .refl
  exact (map_page_takes_what_it_needs start 0x8000000000 0x5000 2 (by decide)).2.2.1

/--
Once a page of a region of 2 MiB has been mapped, every later call there succeeds without a page.

In between, any other calls may have taken all the pages that there were.
-/
theorem mapped_region_needs_no_pages
    (run : Relation.ReflTransGen OutsideStep (VmmState.initial mem) state)
    {virt phys flags : UInt64} (outside : OutsideBoot virt.toNat)
    (mapped : (vmmMapPage state.kernel virt.toNat phys.toNat flags.toNat).2 = true)
    (rest : Relation.ReflTransGen OutsideStep (VmmCall.apply state (.map virt phys flags)) later)
    {w : UInt64} (same : SameRegion w.toNat virt.toNat) (phys' flags' : UInt64) :
    (vmmMapPage later.kernel w.toNat phys'.toNat flags'.toNat).2 = true ∧
      vmmMapPages later.kernel w.toNat = [] ∧
      pagePool (vmmMapPage later.kernel w.toNat phys'.toNat flags'.toNat).1 =
        pagePool later.kernel := by
  have inv := vmmInv_outside run
  have allowed : (VmmCall.map virt phys flags).Outside state := outside
  -- The page table that the first call left behind is still there.
  have first : HasTable (VmmCall.apply state (.map virt phys flags)).kernel virt.toNat :=
    HasTable.of_map inv outside flags.toNat_lt mapped
  obtain ⟨⟨t, met⟩, invLater⟩ := first.run (inv.apply allowed).1 rest
  have there : HasTable later.kernel w.toNat := ⟨t, same.path ▸ met⟩
  have outsideW := same.outside outside
  have none : missing later.kernel.mem later.kernel.pml4 (pathOf w.toNat) = 0 :=
    there.demand invLater outsideW
  obtain ⟨drained, succeeds⟩ := vmmMapPage_demand invLater outsideW phys'.toNat flags'.toNat
  refine ⟨succeeds.mpr ?_, ?_, ?_⟩
  · rw [demand, none]
    exact Nat.zero_le _
  · rw [vmmMapPages_eq, (makeTables_outside invLater outsideW).pages, none]
    rfl
  · rw [drained, demand, none]
    rfl

/-- After one page has been mapped at 512 GiB, another one beside it takes no page. -/
theorem mapped_region_needs_no_pages_beside :
    vmmMapPages (VmmCall.apply (VmmState.initial fun _ => 0)
      (.map 0x8000000000 0x5000 2)).kernel (0x8000001000 : UInt64).toNat = [] := by
  -- Three free pages are enough for the first mapping; then the theorem applies.
  have start : Relation.ReflTransGen OutsideStep (VmmState.initial fun _ => 0)
      (VmmState.initial fun _ => 0) := .refl
  have inv := vmmInv_initPaging fun _ => 0
  have outside : OutsideBoot (0x8000000000 : UInt64).toNat := by decide
  have free : 3 ≤ (pagePool (initPaging fun _ => 0)).freeBelow
      (initPaging fun _ => 0).totalPages := by
    rw [initPaging_free, initPaging_totalPages]
    decide
  have mapped := vmmMapPage_succeeds inv outside free (0x5000 : UInt64).toNat (2 : UInt64).toNat
  exact (mapped_region_needs_no_pages start outside mapped .refl (by decide) 0x6000 2).2.1

end Results

end IncroOS
