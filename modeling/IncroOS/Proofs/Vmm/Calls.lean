import IncroOS.Proofs.Vmm.Levels

/-! What a call to map or unmap a page does: one leaf changes, or none. -/

namespace IncroOS

open Lib

section Assign

variable {kernel : Kernel} {owned : Finset Nat} {p : List (Fin 512)} {n value : Nat} {i : Fin 512}

/-- Writing an entry of a page table keeps the invariant and changes one leaf. -/
theorem VmmInv.assign (inv : VmmInv kernel owned) (full : p.length = 3)
    (leaf : tableAt kernel.mem p = some n) (bound : value < 2 ^ 64) :
    let kernel' := kernel.withMem (setPte kernel.mem n i value)
    VmmInv kernel' owned ∧
      treeBytes kernel ⊆ treeBytes kernel' ∧
      (∀ q j, q.length = 3 → leafAt kernel'.mem q j =
        if q = p ∧ j = i then value else leafAt kernel.mem q j) ∧
      Mem.ChangesOnly kernel.mem kernel'.mem (treeBytes kernel') ∧
      Extends kernel.mem kernel'.mem [] := by
  -- No other table lies in this page, so every other entry reads as before.
  intro kernel'
  have short : p.length ≤ 3 := Nat.le_of_eq full
  have aligned := inv.table_aligned short leaf
  have page := inv.tables p n short leaf
  have changes : Mem.ChangesOnly kernel.mem kernel'.mem (pageSpan n) :=
    setPte_changes kernel.mem n i value i.isLt
  have kept : ∀ q x j, q.length ≤ 3 → tableAt kernel.mem q = some x → (x ≠ n ∨ j ≠ i) →
      slot kernel'.mem x j = slot kernel.mem x j := by
    intro q x j shortQ met elsewhere
    refine pte_setPte_other value aligned (inv.table_aligned shortQ met) i.isLt j.isLt ?_
    rcases elsewhere with table | index
    · exact .inl table
    · exact .inr fun same => index (Fin.ext same)
  obtain ⟨tree, paths, leaves⟩ := inv.tree.assign full leaf
    (pte_setPte kernel.mem n i value bound) kept
  have bits : ∀ q < kernel.totalPages, isPageAllocated kernel' q = isPageAllocated kernel q :=
    fun q below => isPageAllocated_congr changes (inv.bitmap_apart aligned page.apart) below
  have total := inv.totalPages
  have wide : treeBytes kernel ⊆ treeBytes kernel' :=
    treeBytes_mono rfl fun q t shortQ met => (paths q shortQ).trans met
  refine ⟨⟨inv.cr3, inv.pml4, inv.pageBitmap, inv.totalPages, ?_, tree, ?_, ?_⟩, wide, leaves, ?_,
    .of_same paths (inv.tree.inner_kept full leaf kept)⟩
  · intro q low
    rw [bits q (by omega)]
    exact inv.reserved q low
  · intro q t shortQ met
    have old := inv.tables q t shortQ (paths q shortQ ▸ met)
    exact ⟨old.positive, old.below, (bits _ old.below).trans old.allocated, old.apart⟩
  · intro a member
    have old := inv.owned a member
    exact ⟨old.aligned, old.below, (bits _ old.below).trans old.allocated, old.beyond,
      fun q shortQ met => old.unlinked q shortQ (paths q shortQ ▸ met)⟩
  · refine changes.mono fun x inside => ⟨p, n, short, ?_, .inl inside⟩
    exact (paths p short).trans leaf

end Assign

/-- Two addresses lie on one page: they agree in bits 12 to 47. -/
def SamePage (w virt : Nat) : Prop := w / 2 ^ 12 % 2 ^ 36 = virt / 2 ^ 12 % 2 ^ 36

instance (w virt : Nat) : Decidable (SamePage w virt) := inferInstanceAs (Decidable (_ = _))

section Outside

variable {kernel : Kernel} {owned : Finset Nat} {virt flags : Nat}

/-- The entry that `vmm_map_page` writes. -/
def leafEntry (phys flags : Nat) : Nat := (phys &&& ptAddrMask) ||| flags ||| ptPresent

/-- What a call leaves behind when it gives one address a new entry. -/
structure Assigns (kernel kernel' : Kernel) (virt entry : Nat) : Prop where
  leaves : ∀ q j, q.length = 3 → leafAt kernel'.mem q j =
    if q = pathOf virt ∧ j = ptSlot virt then entry else leafAt kernel.mem q j
  changes : Mem.ChangesOnly kernel.mem kernel'.mem (treeBytes kernel')

/-- Mapping a page goes down three levels and then writes the leaf. -/
theorem vmmMapPage_eq (kernel : Kernel) (virt phys flags : Nat) :
    vmmMapPage kernel virt phys flags =
      let made := makeTables kernel kernel.pml4 (pathOf virt)
      if made.2 = 0 then (made.1, false)
      else (made.1.withMem (setPte made.1.mem made.2 (ptSlot virt) (leafEntry phys flags)), true) := by
  -- At each level a null pointer ends the call.
  obtain ⟨k₁, pdpt, made₁⟩ : ∃ k t,
      getOrCreateTable kernel kernel.pml4 (pml4Index virt) ptWritable = (k, t) := ⟨_, _, rfl⟩
  simp only [vmmMapPage, makeTables, pathOf, pml4Slot_val, made₁]
  by_cases null₁ : pdpt = 0
  · simp only [if_pos null₁, if_true]
  obtain ⟨k₂, pd, made₂⟩ : ∃ k t,
      getOrCreateTable k₁ pdpt (pdptIndex virt) ptWritable = (k, t) := ⟨_, _, rfl⟩
  simp only [if_neg null₁, pdptSlot_val, made₂]
  by_cases null₂ : pd = 0
  · simp only [if_pos null₂, if_true]
  obtain ⟨k₃, pt, made₃⟩ : ∃ k t,
      getOrCreateTable k₂ pd (pdIndex virt) ptWritable = (k, t) := ⟨_, _, rfl⟩
  simp only [if_neg null₂, pdSlot_val, made₃]
  by_cases null₃ : pt = 0
  · simp only [if_pos null₃, if_true]
  · simp only [if_neg null₃, leafEntry, ptSlot_val]

/-- The pages that a map call takes are those of its descent. -/
theorem vmmMapPages_eq (kernel : Kernel) (virt : Nat) :
    vmmMapPages kernel virt = pagesMade kernel kernel.pml4 (pathOf virt) := by
  -- The last level has nothing below it.
  have last : ∀ (k : Kernel) (t : Nat) (i : Fin 512),
      pagesMade k t [i] = getOrCreatePages k t i := fun k t i => by
    rw [pagesMade]
    simp only [pagesMade, ite_self, List.append_nil]
  rw [pathOf, pagesMade, pagesMade]
  simp only [vmmMapPages, last, pml4Slot_val, pdptSlot_val, pdSlot_val]

/-- Going down to the page table of an address outside the first GiB. -/
theorem makeTables_outside (inv : VmmInv kernel owned) (outside : OutsideBoot virt) :
    MakesTables kernel owned [] kernel.pml4 (pathOf virt) := by
  refine makeTables_spec inv (Nat.le_refl 3) (fun _ => outside.path) ?_
  rw [inv.pml4]
  rfl

/-- A map call that succeeded has gone down all levels, and one that did not stopped on the way. -/
theorem vmmMapPage_cases (kernel : Kernel) (virt phys flags : Nat) :
    let made := makeTables kernel kernel.pml4 (pathOf virt)
    (made.2 = 0 ∧ vmmMapPage kernel virt phys flags = (made.1, false)) ∨
    (made.2 ≠ 0 ∧ vmmMapPage kernel virt phys flags =
      (made.1.withMem (setPte made.1.mem made.2 (ptSlot virt) (leafEntry phys flags)), true)) := by
  -- The descent gives 0 exactly where one of its levels failed.
  intro made
  have result := vmmMapPage_eq kernel virt phys flags
  by_cases null : made.2 = 0
  · exact .inl ⟨null, result.trans (if_pos null)⟩
  · exact .inr ⟨null, result.trans (if_neg null)⟩

/--
Outside the first GiB, mapping a page gives its leaf the new entry.

When memory for a table runs out on the way, no leaf has changed.
-/
theorem vmmMapPage_outside (inv : VmmInv kernel owned) (outside : OutsideBoot virt) (phys : Nat)
    (bound : flags < 2 ^ 64) :
    VmmInv (vmmMapPage kernel virt phys flags).1 owned ∧
    ((vmmMapPage kernel virt phys flags).2 = false ∧
        Grows kernel (vmmMapPage kernel virt phys flags).1 ∨
      (vmmMapPage kernel virt phys flags).2 = true ∧
        Assigns kernel (vmmMapPage kernel virt phys flags).1 virt (leafEntry phys flags)) := by
  have made := makeTables_outside inv outside
  obtain ⟨-, result⟩ | ⟨nonnull, result⟩ := vmmMapPage_cases kernel virt phys flags
  · rw [result]
    exact ⟨made.inv, .inl ⟨rfl, made.grows⟩⟩
  · -- The page table is there, so the last write is to the leaf.
    rw [result]
    obtain ⟨invAfter, wide, leaves, changes, -⟩ := made.inv.assign (p := pathOf virt)
      (i := ptSlot virt) rfl (made.met nonnull) (leafEntry_lt phys bound)
    refine ⟨invAfter, .inr ⟨rfl, fun q j full => ?_, ?_⟩⟩
    · rw [← made.grows.leaves q j full]
      exact leaves q j full
    · exact (made.grows.changes.mono wide).trans changes

/-- Outside the first GiB, mapping a page adds to the tree the tables that it takes pages for. -/
theorem vmmMapPage_extends (inv : VmmInv kernel owned) (outside : OutsideBoot virt) (phys : Nat)
    (bound : flags < 2 ^ 64) :
    Extends kernel.mem (vmmMapPage kernel virt phys flags).1.mem (vmmMapPages kernel virt) := by
  have made := makeTables_outside inv outside
  rw [vmmMapPages_eq]
  obtain ⟨-, result⟩ | ⟨nonnull, result⟩ := vmmMapPage_cases kernel virt phys flags
  · -- Where the page table is missing, only the tables made so far have been added.
    rw [result]
    exact made.tree
  · rw [result]
    obtain ⟨-, -, -, -, tree⟩ := made.inv.assign (p := pathOf virt) (i := ptSlot virt) rfl
      (made.met nonnull) (leafEntry_lt phys bound)
    rw [← List.append_nil (pagesMade kernel kernel.pml4 (pathOf virt))]
    exact made.tree.trans tree

/-- With three pages left, a map call outside the first GiB succeeds. -/
theorem vmmMapPage_succeeds (inv : VmmInv kernel owned) (outside : OutsideBoot virt)
    (enough : 3 ≤ (pagePool kernel).freeBelow kernel.totalPages) (phys flags : Nat) :
    (vmmMapPage kernel virt phys flags).2 = true := by
  have made := makeTables_outside inv outside
  have few : missing kernel.mem kernel.pml4 (pathOf virt) ≤ 3 := missing_le _ _ (pathOf virt)
  -- At most three tables are missing on the path.
  have nonnull := made.complete (by
    rw [made.pages, List.length_map]
    exact Pool.takes_length (Nat.le_trans few enough))
  obtain ⟨null, -⟩ | ⟨-, result⟩ := vmmMapPage_cases kernel virt phys flags
  · exact absurd null nonnull
  · rw [result]

/-- Outside the first GiB, unmapping a page clears its leaf. -/
theorem vmmUnmapPage_outside (inv : VmmInv kernel owned) (outside : OutsideBoot virt) :
    VmmInv (vmmUnmapPage kernel virt) owned ∧ Assigns kernel (vmmUnmapPage kernel virt) virt 0 ∧
      Extends kernel.mem (vmmUnmapPage kernel virt).mem [] := by
  have found := findPageTable_outside inv outside
  cases met : tableAt kernel.mem (pathOf virt) with
  | none =>
    -- There is no page table, so the leaf is clear already.
    have same : vmmUnmapPage kernel virt = kernel := by rw [vmmUnmapPage, found, met]
    rw [same]
    refine ⟨inv, ⟨fun q j full => ?_, Mem.ChangesOnly.refl _ _⟩, Extends.refl kernel.mem⟩
    split
    · rename_i here
      have broken : Radix.descend linkOf (slot kernel.mem) bootCr3 (pathOf virt) = none := met
      rw [here.1, leafAt, Radix.lookup, broken]
      rfl
    · rfl
  | some pt =>
    have written : vmmUnmapPage kernel virt =
        kernel.withMem (setPte kernel.mem pt (ptSlot virt) 0) := by
      rw [vmmUnmapPage, found, met, ptSlot_val]
    rw [written]
    obtain ⟨invAfter, -, leaves, changes, tree⟩ := inv.assign (p := pathOf virt) (i := ptSlot virt)
      rfl met (show 0 < 2 ^ 64 by decide)
    exact ⟨invAfter, ⟨leaves, changes⟩, tree⟩

/-- The four indices of an address together are its page number. -/
theorem samePage_iff {w : Nat} :
    SamePage w virt ↔ pathOf w = pathOf virt ∧ ptSlot w = ptSlot virt := by
  simp only [SamePage, pathOf, List.cons.injEq, and_true, Fin.ext_iff, pml4Slot_val, pdptSlot_val,
    pdSlot_val, ptSlot_val, pml4Index_eq, pdptIndex_eq, pdIndex_eq, ptIndex_eq]
  omega

/-- After a new entry, an address reads it on its own page and its old entry elsewhere. -/
theorem Assigns.leafOf_eq {kernel' : Kernel} {entry : Nat}
    (assigns : Assigns kernel kernel' virt entry) (w : Nat) :
    leafOf kernel'.mem w = if SamePage w virt then entry else leafOf kernel.mem w := by
  refine (assigns.leaves (pathOf w) (ptSlot w) rfl).trans ?_
  simp only [samePage_iff]
  rfl

end Outside

end IncroOS
