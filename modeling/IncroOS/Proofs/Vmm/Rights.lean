import IncroOS.Proofs.Vmm.Runs

/-! The rights that the processor's walk grants outside the loader's identity map. -/

namespace IncroOS

open Lib

/-- Every link of the tree has the present and the writable flag, and not the user flag. -/
def InnerLinks (mem : Mem) : Prop :=
  ∀ path t i, path.length ≤ 2 → path ≠ [0, 0] → tableAt mem path = some t →
    isPresent (slot mem t i) = true → slot mem t i % 8 = 3

/-- The rights that the processor grants are those that the flags of a map call ask for. -/
def RightsMatch (kernel : Kernel) (virt flags : Nat) : Prop :=
  (effectiveRight kernel.mem kernel.cr3 virt ptWritable = true ↔ flags &&& ptWritable ≠ 0) ∧
  (effectiveRight kernel.mem kernel.cr3 virt ptUser = true ↔ flags &&& ptUser ≠ 0)

section Links

variable {mem mem' : Mem} {pages : List Nat}

/-- Links to fresh tables carry the flags that the old ones carry. -/
theorem InnerLinks.extends (links : InnerLinks mem) (tree : Extends mem mem' pages)
    (aligned : ∀ page ∈ pages, page % 4096 = 0) : InnerLinks mem' := by
  -- A link is an old one, or the address of a fresh page with the two flags.
  intro path t i short outside met present
  rcases tree.inner path t i short outside met present with ⟨old, same⟩ | ⟨page, member, new⟩
  · rw [same] at present ⊢
    exact links path t i short outside old present
  · have := aligned page member
    omega

/-- The loader's two links carry the present and the writable flag. -/
theorem BootEntries.innerLinks (entries : BootEntries mem) : InnerLinks mem := by
  -- Both links are an address plus 3.
  intro path t i _ outside met present
  rcases entries.link outside met ((isPresent_eq _).symm.trans present) with same | same
  · rw [same]
  · rw [same]

/-- What a tree gains are page-aligned tables. -/
theorem Extends.aligned (extension : Extends mem mem' pages) (tree : PageTree mem') :
    ∀ page ∈ pages, page % 4096 = 0 := by
  intro page member
  obtain ⟨path, short, met⟩ := (extension.tables page).mpr (.inr member)
  exact tree.aligned path page short met

end Links

/-- A call outside the first GiB leaves the flags of the links as they are. -/
theorem InnerLinks.apply {state : VmmState} {call : VmmCall} (links : InnerLinks state.kernel.mem)
    (inv : VmmInv state.kernel state.owned) (allowed : call.Outside state) :
    InnerLinks (call.apply state).kernel.mem := by
  obtain ⟨after, extension⟩ := inv.apply allowed
  exact links.extends extension (extension.aligned after.tree)

/-- The links carry those flags in every state that a run reaches. -/
theorem innerLinks_reachable {mem : Mem} {state : VmmState}
    (run : Relation.ReflTransGen OutsideStep (VmmState.initial mem) state) :
    InnerLinks state.kernel.mem := by
  -- By induction on the run; a new link is made with `PT_WRITABLE`.
  induction run with
  | refl => exact (initPaging_entries mem).innerLinks
  | tail run step ih =>
    obtain ⟨call, allowed, rfl⟩ := step
    exact ih.apply (vmmInv_outside run) allowed

section Flags

/-- A flag is set when its bit is. -/
theorem and_flag (entry k : Nat) : (entry &&& 1 <<< k != 0) = entry.testBit k := by
  have flag : 1 <<< k = 2 ^ k := Nat.one_shiftLeft k
  rw [flag, Nat.and_two_pow]
  cases entry.testBit k <;> simp

/-- A link has the writable flag and lacks the user flag. -/
theorem link_flags {entry : Nat} (link : entry % 8 = 3) :
    (entry &&& ptWritable != 0) = true ∧ (entry &&& ptUser != 0) = false := by
  -- The low three bits are 011.
  have writable : entry.testBit 1 = true := by
    rw [Nat.testBit_eq_decide_div_mod_eq, decide_eq_true_eq]
    omega
  have user : entry.testBit 2 = false := by
    rw [Nat.testBit_eq_decide_div_mod_eq, decide_eq_false_iff_not]
    omega
  exact ⟨(and_flag entry 1).trans writable, (and_flag entry 2).trans user⟩

/-- The writable flag of a leaf is that of the call. -/
theorem leafEntry_writable (phys flags : Nat) :
    (leafEntry phys flags &&& ptWritable != 0) = (flags &&& ptWritable != 0) := by
  have mask : ptAddrMask.testBit 1 = false := by decide
  have present : ptPresent.testBit 1 = false := by decide
  have leaf := and_flag (leafEntry phys flags) 1
  -- Neither the frame nor the present flag has bit 1.
  rw [leafEntry, Nat.testBit_or, Nat.testBit_or, Nat.testBit_and, mask, present, Bool.and_false,
    Bool.false_or, Bool.or_false, ← and_flag flags 1] at leaf
  exact leaf

end Flags

section Walk

variable {mem : Mem} {virt pt : Nat}

/-- The entries above a page table outside the first GiB are links of the tree. -/
theorem PageTree.levels (tree : PageTree mem) (outside : OutsideBoot virt)
    (met : tableAt mem (pathOf virt) = some pt) :
    ∃ pdpt pd, tableAt mem [pml4Slot virt] = some pdpt ∧
      tableAt mem [pml4Slot virt, pdptSlot virt] = some pd ∧
      follow mem (pml4Index virt) bootCr3 = some pdpt ∧ follow mem (pdptIndex virt) pdpt = some pd ∧
      follow mem (pdIndex virt) pd = some pt := by
  have first : tableAt mem [pml4Slot virt] = follow mem (pml4Index virt) bootCr3 :=
    tree.snoc [] (by decide) (by decide) (pml4Slot virt)
  have second : tableAt mem [pml4Slot virt, pdptSlot virt] =
      (tableAt mem [pml4Slot virt]).bind (follow mem (pdptIndex virt)) :=
    tree.snoc [pml4Slot virt] (by simp) (by simp) (pdptSlot virt)
  have third : tableAt mem (pathOf virt) =
      (tableAt mem [pml4Slot virt, pdptSlot virt]).bind (follow mem (pdIndex virt)) :=
    tree.snoc [pml4Slot virt, pdptSlot virt] (by simp) outside.path (pdSlot virt)
  -- The path is there down to the page table, so each of its parts is.
  rw [met] at third
  obtain ⟨pd, here, last⟩ := Option.bind_eq_some_iff.mp third.symm
  rw [here] at second
  obtain ⟨pdpt, there, middle⟩ := Option.bind_eq_some_iff.mp second.symm
  exact ⟨pdpt, pd, there, here, first.symm.trans there, middle, last⟩

/-- Below links that all grant a right, it is the leaf that decides. -/
theorem effectiveRight_outside (tree : PageTree mem) (links : InnerLinks mem)
    (outside : OutsideBoot virt) (met : tableAt mem (pathOf virt) = some pt) :
    effectiveRight mem bootCr3 virt ptWritable = (leafOf mem virt &&& ptWritable != 0) ∧
    effectiveRight mem bootCr3 virt ptUser = false := by
  obtain ⟨pdpt, pd, first, second, follow4, follow3, follow2⟩ := tree.levels outside met
  obtain ⟨present4, frame4⟩ := follow_eq_some.mp follow4
  obtain ⟨present3, frame3⟩ := follow_eq_some.mp follow3
  obtain ⟨present2, frame2⟩ := follow_eq_some.mp follow2
  rw [and_ptAddrMask] at frame4 frame3 frame2
  have root : frameOf bootCr3 = bootCr3 := by decide
  have leaf : leafOf mem virt = pte mem pt (ptIndex virt) := by
    have here : Radix.descend linkOf (slot mem) bootCr3 (pathOf virt) = some pt := met
    rw [leafOf, leafAt, Radix.lookup, here]
    rfl
  -- On each of the three levels the link grants writing and refuses the user.
  have link4 := link_flags (links [] bootCr3 (pml4Slot virt) (by decide) (by decide) rfl present4)
  have link3 := link_flags (links [pml4Slot virt] pdpt (pdptSlot virt) (by simp) (by simp) first
    present3)
  have link2 := link_flags (links [pml4Slot virt, pdptSlot virt] pd (pdSlot virt) (by simp)
    outside.path second present2)
  simp only [slot, pml4Slot_val, pdptSlot_val, pdSlot_val] at link4 link3 link2
  rw [leaf]
  simp only [pte, pml4Index_eq, pdptIndex_eq, pdIndex_eq, ptIndex_eq] at *
  simp only [effectiveRight, root, frame4, frame3, frame2, link4, link3, link2, Bool.true_and,
    Bool.false_and, and_self]

end Walk

/-- A present leaf hangs in a page table. -/
theorem pageTable_of_present {mem : Mem} {virt : Nat} (present : isPresent (leafOf mem virt) = true) :
    ∃ pt, tableAt mem (pathOf virt) = some pt := by
  -- Without a page table the leaf reads as zero, which is not present.
  cases met : tableAt mem (pathOf virt) with
  | some pt => exact ⟨pt, rfl⟩
  | none =>
    have broken : Radix.descend linkOf (slot mem) bootCr3 (pathOf virt) = none := met
    have absent : isPresent 0 = false := by decide
    rw [leafOf, leafAt, Radix.lookup, broken, Option.map_none, Option.getD_none, absent] at present
    exact absurd present Bool.false_ne_true

/-- After a map call that succeeded, the page is as writable as asked for, and never for the user. -/
theorem vmmMapPage_rights {kernel : Kernel} {owned : Finset Nat} {virt phys flags : Nat}
    (inv : VmmInv kernel owned) (links : InnerLinks kernel.mem) (outside : OutsideBoot virt)
    (bound : flags < 2 ^ 64) (succeeded : (vmmMapPage kernel virt phys flags).2 = true) :
    let kernel' := (vmmMapPage kernel virt phys flags).1
    effectiveRight kernel'.mem kernel'.cr3 virt ptWritable = (flags &&& ptWritable != 0) ∧
    effectiveRight kernel'.mem kernel'.cr3 virt ptUser = false := by
  -- The links grant the writable flag and never the user flag; the leaf decides the rest.
  intro kernel'
  obtain ⟨after, outcome⟩ := vmmMapPage_outside inv outside phys bound
  have extension := vmmMapPage_extends inv outside phys bound
  rcases outcome with ⟨failed, -⟩ | ⟨-, assigns⟩
  · exact absurd (succeeded.symm.trans failed) (by decide)
  · have here : SamePage virt virt := rfl
    have leaf : leafOf kernel'.mem virt = leafEntry phys flags := by
      rw [assigns.leafOf_eq, if_pos here]
    have present : isPresent (leafOf kernel'.mem virt) = true := by
      rw [leaf, leafEntry]
      exact isPresent_or _
    obtain ⟨pt, met⟩ := pageTable_of_present present
    have rights := effectiveRight_outside after.tree
      (links.extends extension (extension.aligned after.tree)) outside met
    rwa [leaf, leafEntry_writable, ← after.cr3] at rights

/--
Over every run, a page that has been mapped outside the first GiB has the rights that were asked for
exactly when the user flag was not among them.
-/
theorem vmm_map_page_rights_iff {mem : Mem} {state : VmmState}
    (run : Relation.ReflTransGen OutsideStep (VmmState.initial mem) state)
    (virt phys flags : UInt64) (outside : OutsideBoot virt.toNat) {kernel : Kernel}
    (mapped : vmmMapPage state.kernel virt.toNat phys.toNat flags.toNat = (kernel, true)) :
    RightsMatch kernel virt.toNat flags.toNat ↔ flags.toNat &&& ptUser = 0 := by
  have rights := vmmMapPage_rights (vmmInv_outside run) (innerLinks_reachable run) outside
    flags.toNat_lt (congrArg Prod.snd mapped)
  rw [mapped] at rights
  obtain ⟨writable, user⟩ := rights
  dsimp only at writable user
  -- Writing is as asked for, and the user flag is lost on the way.
  rw [RightsMatch, writable, user]
  simp

/-- A page can be mapped outside the first GiB once paging has been brought up. -/
theorem initPaging_maps (mem : Mem) {virt : Nat} (outside : OutsideBoot virt) (phys flags : Nat) :
    (vmmMapPage (initPaging mem) virt phys flags).2 = true := by
  refine vmmMapPage_succeeds (vmmInv_initPaging mem) outside ?_ phys flags
  -- All pages from 384 on are free.
  rw [initPaging_free, initPaging_totalPages]
  decide

/-- A writable page that is mapped at 512 GiB has the rights that were asked for. -/
theorem vmm_map_page_rights_iff_writable :
    let virt : UInt64 := 0x8000000000
    let phys : UInt64 := 0x5000
    let flags : UInt64 := 2
    let after := vmmMapPage (initPaging fun _ => 0) virt.toNat phys.toNat flags.toNat
    after.2 = true ∧ (RightsMatch after.1 virt.toNat flags.toNat ↔ flags.toNat &&& ptUser = 0) := by
  -- There are free pages at the start, so the call succeeds.
  intro virt phys flags
  have outside : OutsideBoot virt.toNat := by decide
  have mapped := initPaging_maps (fun _ => 0) outside phys.toNat flags.toNat
  exact ⟨mapped, vmm_map_page_rights_iff .refl virt phys flags outside (Prod.snd_eq_iff.mp mapped)⟩

/-- A user page that is mapped at 512 GiB cannot be reached from user mode. -/
theorem vmm_map_page_user_ignored :
    let after := vmmMapPage (initPaging fun _ => 0) 0x8000000000 0x5000 6
    after.2 = true ∧ effectiveRight after.1.mem after.1.cr3 0x8000000000 ptUser = false ∧
      ¬ RightsMatch after.1 0x8000000000 6 := by
  -- 6 asks for the user flag, which no link has.
  have inv := vmmInv_initPaging fun _ => 0
  have links := (initPaging_entries fun _ => 0).innerLinks
  have outside : OutsideBoot 0x8000000000 := by decide
  have bound : 6 < 2 ^ 64 := by decide
  have mapped := initPaging_maps (fun _ => 0) outside 0x5000 6
  have rights := vmmMapPage_rights inv links outside bound mapped
  refine ⟨mapped, rights.2, fun agree => ?_⟩
  have asked := agree.2.mpr (by decide)
  exact absurd (rights.2.symm.trans asked) (by decide)

end IncroOS
