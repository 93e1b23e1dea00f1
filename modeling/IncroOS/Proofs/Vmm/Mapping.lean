import IncroOS.Proofs.Vmm.Descent

/-! What mapping, unmapping and the two walks do outside the loader's identity map. -/

namespace IncroOS

open Lib

/-- Nine bits of an address, as an index into a table. -/
def pml4Slot (virt : Nat) : Fin 512 :=
  ⟨pml4Index virt, by rw [pml4Index_eq]; exact Nat.mod_lt _ (by decide)⟩

def pdptSlot (virt : Nat) : Fin 512 :=
  ⟨pdptIndex virt, by rw [pdptIndex_eq]; exact Nat.mod_lt _ (by decide)⟩

def pdSlot (virt : Nat) : Fin 512 :=
  ⟨pdIndex virt, by rw [pdIndex_eq]; exact Nat.mod_lt _ (by decide)⟩

def ptSlot (virt : Nat) : Fin 512 :=
  ⟨ptIndex virt, by rw [ptIndex_eq]; exact Nat.mod_lt _ (by decide)⟩

@[simp] theorem pml4Slot_val (virt : Nat) : (pml4Slot virt : Nat) = pml4Index virt := rfl
@[simp] theorem pdptSlot_val (virt : Nat) : (pdptSlot virt : Nat) = pdptIndex virt := rfl
@[simp] theorem pdSlot_val (virt : Nat) : (pdSlot virt : Nat) = pdIndex virt := rfl
@[simp] theorem ptSlot_val (virt : Nat) : (ptSlot virt : Nat) = ptIndex virt := rfl

/-- The path from the top-level table to the page table of an address. -/
def pathOf (virt : Nat) : List (Fin 512) := [pml4Slot virt, pdptSlot virt, pdSlot virt]

/-- The page table entry of an address, or zero where there is no page table. -/
def leafOf (mem : Mem) (virt : Nat) : Nat := leafAt mem (pathOf virt) (ptSlot virt)

/-- The address lies outside the first GiB, which the loader maps. -/
def OutsideBoot (virt : Nat) : Prop := pml4Index virt ≠ 0 ∨ pdptIndex virt ≠ 0

instance (virt : Nat) : Decidable (OutsideBoot virt) := inferInstanceAs (Decidable (_ ∨ _))

/-- Outside the first GiB the path leaves the loader's page directory aside. -/
theorem OutsideBoot.path {virt : Nat} (outside : OutsideBoot virt) :
    [pml4Slot virt, pdptSlot virt] ≠ [0, 0] := by
  -- One of the two upper indices is not 0.
  intro same
  simp only [List.cons.injEq, and_true] at same
  rcases outside with first | second
  · exact first (congrArg Fin.val same.1)
  · exact second (congrArg Fin.val same.2)

/-- The table behind one entry, as the source reads entries. -/
def follow (mem : Mem) (index table : Nat) : Option Nat :=
  if isPresent (pte mem table index) then some (pte mem table index &&& ptAddrMask) else none

/-- An entry that is followed is present, and its frame is the table behind it. -/
theorem follow_eq_some {mem : Mem} {table index next : Nat} :
    follow mem index table = some next ↔
      isPresent (pte mem table index) = true ∧ pte mem table index &&& ptAddrMask = next := by
  -- The two branches of the source: an entry that is present, and one that is not.
  rw [follow]
  split
  · rename_i present
    rw [Option.some_inj, and_iff_right present]
  · rename_i absent
    exact iff_of_false (Option.some_ne_none next).symm fun both => absent both.1

/-- Where an entry is followed, `get_or_create_table` makes no table. -/
theorem getOrCreateTable_of_follow {kernel : Kernel} {table index next flags : Nat}
    (followed : follow kernel.mem index table = some next) :
    getOrCreateTable kernel table index flags = (kernel, next) := by
  obtain ⟨present, frame⟩ := follow_eq_some.mp followed
  rw [getOrCreateTable, if_pos present, frame]

/-- The descent of the source follows three entries. -/
theorem findPageTable_eq (kernel : Kernel) (virt : Nat) :
    findPageTable kernel virt =
      ((follow kernel.mem (pml4Index virt) kernel.pml4).bind
        (follow kernel.mem (pdptIndex virt))).bind (follow kernel.mem (pdIndex virt)) := by
  unfold findPageTable follow
  -- The source returns early where the bind of the levels is none.
  cases isPresent (pte kernel.mem kernel.pml4 (pml4Index virt)) with
  | false => rfl
  | true =>
    simp only [Bool.not_true, Bool.false_eq_true, if_false, if_true, Option.bind_some]
    cases isPresent (pte kernel.mem (pte kernel.mem kernel.pml4 (pml4Index virt) &&& ptAddrMask)
      (pdptIndex virt)) with
    | false => rfl
    | true =>
      simp only [Bool.not_true, Bool.false_eq_true, if_false, if_true, Option.bind_some]
      split <;> simp_all

section PageTree

variable {mem : Mem} {virt : Nat} (tree : PageTree mem)
include tree

/-- Outside the loader's page directory, the tree's links are what the source follows. -/
theorem PageTree.snoc (path : List (Fin 512)) (short : path.length ≤ 2) (outside : path ≠ [0, 0])
    (i : Fin 512) : tableAt mem (path ++ [i]) = (tableAt mem path).bind (follow mem i) := by
  refine (Radix.descend_snoc linkOf (slot mem) bootCr3 path i).trans ?_
  have here : Radix.descend linkOf (slot mem) bootCr3 path = tableAt mem path := rfl
  rw [here]
  cases met : tableAt mem path with
  | none => rfl
  | some n =>
    have entry : slot mem n i = pte mem n i := rfl
    rw [Option.bind_some, Option.bind_some, entry, follow]
    -- A present entry of these levels is small, so the tree's link is the frame that is followed.
    cases present : isPresent (pte mem n i) with
    | false => rw [linkOf_absent present, if_neg (by decide)]
    | true =>
      have sizeBit := tree.small path n i short outside met (by rw [entry, ← isPresent_eq, present])
      rw [linkOf_present present sizeBit, if_pos rfl]

/-- The three levels above a leaf, as the source and the processor go down them. -/
theorem PageTree.path_eq (outside : OutsideBoot virt) :
    tableAt mem (pathOf virt) =
      ((follow mem (pml4Index virt) bootCr3).bind (follow mem (pdptIndex virt))).bind
        (follow mem (pdIndex virt)) := by
  -- One level at a time, none of them the page directory of the loader.
  have first : tableAt mem [pml4Slot virt] = follow mem (pml4Index virt) bootCr3 :=
    tree.snoc [] (by decide) (by decide) (pml4Slot virt)
  have second : tableAt mem [pml4Slot virt, pdptSlot virt] =
      (tableAt mem [pml4Slot virt]).bind (follow mem (pdptIndex virt)) :=
    tree.snoc [pml4Slot virt] (by simp) (by simp) (pdptSlot virt)
  have third : tableAt mem (pathOf virt) =
      (tableAt mem [pml4Slot virt, pdptSlot virt]).bind (follow mem (pdIndex virt)) :=
    tree.snoc [pml4Slot virt, pdptSlot virt] (by simp) outside.path (pdSlot virt)
  rw [third, second, first]

end PageTree

/-- The processor's walk, in the terms of the source. -/
theorem translate_eq (mem : Mem) {virt : Nat} (canonical : Canonical virt) :
    translate mem bootCr3 virt =
      let pml4e := pte mem bootCr3 (pml4Index virt)
      if !isPresent pml4e then .absent
      else if isReserved pml4e || pml4e.testBit 7 then .refused
      else
        let pdpte := pte mem (pml4e &&& ptAddrMask) (pdptIndex virt)
        if !isPresent pdpte then .absent
        else if isReserved pdpte then .refused
        else if pdpte.testBit 7 then
          if pdpte / 2 ^ 13 % 2 ^ 17 ≠ 0 then .refused
          else .found (pdpte / 2 ^ 30 % 2 ^ 22 * 2 ^ 30 + virt % 2 ^ 30)
        else
          let pde := pte mem (pdpte &&& ptAddrMask) (pdIndex virt)
          if !isPresent pde then .absent
          else if isReserved pde then .refused
          else if pde.testBit 7 then
            if pde / 2 ^ 13 % 2 ^ 8 ≠ 0 then .refused
            else .found (pde / 2 ^ 21 % 2 ^ 31 * 2 ^ 21 + virt % 2 ^ 21)
          else
            let entry := pte mem (pde &&& ptAddrMask) (ptIndex virt)
            if !isPresent entry then .absent
            else if isReserved entry then .refused
            else .found ((entry &&& ptAddrMask) + (virt &&& 0xFFF)) := by
  -- The root has no low bits, and each index of the source is the field that the processor reads.
  have frame : frameOf bootCr3 = bootCr3 := by decide
  have accepted : ¬ ¬ Canonical virt := not_not_intro canonical
  simp only [translate, if_neg accepted, frame, pte, isPresent_eq, and_ptAddrMask, and_0xFFF,
    pml4Index_eq, pdptIndex_eq, pdIndex_eq, ptIndex_eq]

/-- What the processor finds at the end of its way, where it reads an entry of a page table. -/
def leafWalk (entry virt : Nat) : Walk :=
  if !isPresent entry then .absent
  else if isReserved entry then .refused
  else .found ((entry &&& ptAddrMask) + (virt &&& 0xFFF))

/-- A present entry above the page tables neither maps a large page nor sets a reserved bit. -/
theorem PageTree.entry_link {mem : Mem} (tree : PageTree mem) {path : List (Fin 512)} {t : Nat}
    (i : Fin 512) (short : path.length ≤ 2) (other : path ≠ [0, 0])
    (met : tableAt mem path = some t) (present : isPresent (pte mem t i) = true) :
    (pte mem t i).testBit 7 = false ∧ isReserved (pte mem t i) = false := by
  have bit : (slot mem t i).testBit 0 = true := isPresent_eq _ ▸ present
  exact ⟨tree.small path t i short other met bit, tree.legal path t i short other met bit⟩

/-- Outside the first GiB the processor's walk meets no large page, and reads the leaf entry. -/
theorem translate_outside {mem : Mem} {virt : Nat} (tree : PageTree mem) (outside : OutsideBoot virt)
    (canonical : Canonical virt) :
    translate mem bootCr3 virt = leafWalk (leafOf mem virt) virt := by
  have absent : isPresent 0 = false := by decide
  have leaf : leafOf mem virt =
      ((tableAt mem (pathOf virt)).map fun t => slot mem t (ptSlot virt)).getD 0 := rfl
  have first : tableAt mem [pml4Slot virt] = follow mem (pml4Index virt) bootCr3 :=
    tree.snoc [] (by decide) (by decide) (pml4Slot virt)
  have second : tableAt mem [pml4Slot virt, pdptSlot virt] =
      (tableAt mem [pml4Slot virt]).bind (follow mem (pdptIndex virt)) :=
    tree.snoc [pml4Slot virt] (by simp) (by simp) (pdptSlot virt)
  rw [leaf, tree.path_eq outside, translate_eq mem canonical]
  dsimp only
  -- The processor reads the entries that the source reads, one level after the other.
  cases present4 : isPresent (pte mem bootCr3 (pml4Index virt)) with
  | false => simp [follow, leafWalk, present4, absent]
  | true =>
    have root : tableAt mem [] = some bootCr3 := rfl
    obtain ⟨small4, legal4⟩ := tree.entry_link (pml4Slot virt) (by decide) (by decide) root present4
    rw [pml4Slot_val] at small4 legal4
    have follow4 : follow mem (pml4Index virt) bootCr3 =
        some (pte mem bootCr3 (pml4Index virt) &&& ptAddrMask) := by rw [follow, present4, if_pos rfl]
    rw [follow4] at first ⊢
    rw [Bool.not_true, if_neg Bool.false_ne_true, small4, legal4, Bool.or_self,
      if_neg Bool.false_ne_true, Option.bind_some]
    generalize pte mem bootCr3 (pml4Index virt) &&& ptAddrMask = pdpt at first ⊢
    cases present3 : isPresent (pte mem pdpt (pdptIndex virt)) with
    | false => simp [follow, leafWalk, present3, absent]
    | true =>
      obtain ⟨small3, legal3⟩ := tree.entry_link (pdptSlot virt) (by simp) (by simp) first
        present3
      rw [pdptSlot_val] at small3 legal3
      have follow3 : follow mem (pdptIndex virt) pdpt =
          some (pte mem pdpt (pdptIndex virt) &&& ptAddrMask) := by rw [follow, present3, if_pos rfl]
      rw [first, Option.bind_some, follow3] at second
      rw [follow3, Bool.not_true, if_neg Bool.false_ne_true, legal3, if_neg Bool.false_ne_true,
        small3, if_neg Bool.false_ne_true, Option.bind_some]
      generalize pte mem pdpt (pdptIndex virt) &&& ptAddrMask = pd at second ⊢
      cases present2 : isPresent (pte mem pd (pdIndex virt)) with
      | false => simp [follow, leafWalk, present2, absent]
      | true =>
        obtain ⟨small2, legal2⟩ := tree.entry_link (pdSlot virt) (by simp) outside.path second
          present2
        rw [pdSlot_val] at small2 legal2
        rw [follow, present2, if_pos rfl, Bool.not_true, if_neg Bool.false_ne_true, legal2,
          if_neg Bool.false_ne_true, small2, if_neg Bool.false_ne_true]
        rfl

section Outside

variable {kernel : Kernel} {owned : Finset Nat} {virt : Nat}

/-- The descent of the source finds the page table of the tree. -/
theorem findPageTable_outside (inv : VmmInv kernel owned) (outside : OutsideBoot virt) :
    findPageTable kernel virt = tableAt kernel.mem (pathOf virt) := by
  rw [findPageTable_eq, inv.tree.path_eq outside, inv.pml4]

/-- `vmm_get_physical` reads the leaf entry of the address. -/
theorem vmmGetPhysical_outside (inv : VmmInv kernel owned) (outside : OutsideBoot virt) :
    vmmGetPhysical kernel virt =
      if isPresent (leafOf kernel.mem virt) then
        (leafOf kernel.mem virt &&& ptAddrMask) + (virt &&& 0xFFF)
      else 0 := by
  have leaf : leafOf kernel.mem virt =
      ((tableAt kernel.mem (pathOf virt)).map fun t => slot kernel.mem t (ptSlot virt)).getD 0 := rfl
  -- Without a page table both sides are zero, and with one both read its entry.
  rw [leaf, vmmGetPhysical, findPageTable_outside inv outside]
  cases tableAt kernel.mem (pathOf virt) with
  | none =>
    have absent : isPresent 0 = false := by decide
    simp [absent]
  | some pt =>
    have entry : slot kernel.mem pt (ptSlot virt) = pte kernel.mem pt (ptIndex virt) := rfl
    simp only [Option.map_some, Option.getD_some, entry]
    cases isPresent (pte kernel.mem pt (ptIndex virt)) <;> rfl

end Outside

end IncroOS
