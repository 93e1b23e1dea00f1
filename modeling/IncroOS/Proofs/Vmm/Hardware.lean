import IncroOS.Proofs.Vmm.Runs

/-! The manager against the processor's walk, outside and inside the loader's identity map. -/

namespace IncroOS

open Lib

/-- `vmm_get_physical` gives the address the processor finds, or zero where an entry is not present. -/
def AgreesWithWalk (kernel : Kernel) (virt : Nat) : Prop :=
  (∀ a, translate kernel.mem kernel.cr3 virt = .found a → vmmGetPhysical kernel virt = a) ∧
  (translate kernel.mem kernel.cr3 virt = .absent → vmmGetPhysical kernel virt = 0)

/--
The word of a large page that `vmm_get_physical` takes for an entry happens to be right.

It is present and holds the address's own frame, or the address is zero and it is not present.
-/
def MappedWordMatches (mem : Mem) (virt : Nat) : Prop :=
  let word := pte mem (pdIndex virt * 0x200000) (ptIndex virt)
  if isPresent word then word &&& ptAddrMask = virt - virt % 2 ^ 12 else virt = 0

section Agreement

variable {kernel : Kernel} {owned : Finset Nat} {virt : Nat}

/-- Outside the first GiB both walks read the same leaf entry. -/
theorem agrees_outside (inv : VmmInv kernel owned) (outside : OutsideBoot virt)
    (canonical : Canonical virt) : AgreesWithWalk kernel virt := by
  -- Both are given by the leaf, with the same frame and offset.
  have walk := translate_outside inv.tree outside canonical
  have read := vmmGetPhysical_outside inv outside
  rw [AgreesWithWalk, inv.cr3, walk, read, leafWalk]
  cases isPresent (leafOf kernel.mem virt) with
  | false => simp
  | true =>
    cases isReserved (leafOf kernel.mem virt) with
    | false => simp
    | true => simp

/-- Inside the first GiB they agree only when the word taken for an entry happens to be right. -/
theorem agrees_inside_iff (inv : VmmInv kernel owned) (inside : ¬ OutsideBoot virt)
    (canonical : Canonical virt) :
    AgreesWithWalk kernel virt ↔ MappedWordMatches kernel.mem virt := by
  have walk := translate_inside inv.tree.bootPath inside canonical
  have read := vmmGetPhysical_inside inv.tree.bootPath inv.pml4 inside
  have offset := and_0xFFF virt
  -- The processor finds the address itself, and the source the word's frame and the offset.
  have agrees : AgreesWithWalk kernel virt ↔ vmmGetPhysical kernel virt = virt := by
    rw [AgreesWithWalk, inv.cr3, walk]
    simp
  rw [agrees, read, MappedWordMatches, offset]
  generalize pte kernel.mem (pdIndex virt * 0x200000) (ptIndex virt) = word
  cases isPresent word with
  | true =>
    rw [if_pos rfl, if_pos rfl]
    omega
  | false =>
    rw [if_neg (by decide), if_neg (by decide)]
    exact eq_comm

end Agreement

/--
Over every run of calls outside the loader's large pages, the two walks agree on an address exactly
when it lies outside the first GiB too, or a word of mapped memory happens to look like its entry.
-/
theorem vmm_get_physical_agrees_iff {mem : Mem} {state : VmmState}
    (run : Relation.ReflTransGen VmmStep (VmmState.initial mem) state) (virt : UInt64)
    (canonical : Canonical virt.toNat) :
    AgreesWithWalk state.kernel virt.toNat ↔
      OutsideBoot virt.toNat ∨ MappedWordMatches state.kernel.mem virt.toNat := by
  -- Outside the first GiB the walks always agree; inside, the mapped word decides.
  have inv := vmmInv_reachable run
  by_cases outside : OutsideBoot virt.toNat
  · exact iff_of_true (agrees_outside inv outside canonical) (.inl outside)
  · rw [agrees_inside_iff inv outside canonical]
    exact (or_iff_right outside).symm

/-- After a client has taken a page the two walks agree at 512 GiB. -/
theorem vmm_get_physical_agrees_iff_after_alloc :
    let state := VmmCall.alloc.apply (VmmState.initial fun _ => 0)
    let virt : UInt64 := 0x8000000000
    AgreesWithWalk state.kernel virt.toNat ↔
      OutsideBoot virt.toNat ∨ MappedWordMatches state.kernel.mem virt.toNat :=
  vmm_get_physical_agrees_iff (.single ⟨.alloc, trivial, rfl⟩) _ (by decide)

/-- Memory beyond the tables and the bitmap is as it was before paging was brought up. -/
theorem initPaging_beyond (mem : Mem) {x : Nat} (beyond : 0x160000 ≤ x) :
    (initPaging mem).mem x = mem x := by
  have bitmap := initPaging_changes mem x (by simp only [Set.mem_Ico]; omega)
  have tables := buildPageTables_changes mem x (by simp only [Set.mem_Ico]; omega)
  exact bitmap.trans tables

/-- On the loader's tables the processor maps 2 MiB to itself, where the manager sees nothing. -/
theorem vmm_get_physical_misses_large_page :
    let kernel := initPaging fun _ => 0
    translate kernel.mem kernel.cr3 0x200000 = .found 0x200000 ∧
      vmmGetPhysical kernel 0x200000 = 0 ∧ ¬ AgreesWithWalk kernel 0x200000 := by
  intro kernel
  have inv : VmmInv kernel ∅ := vmmInv_initPaging fun _ => 0
  have inside : ¬ OutsideBoot 0x200000 := by decide
  have walk : translate kernel.mem kernel.cr3 0x200000 = .found 0x200000 := by
    rw [inv.cr3]
    exact translate_inside inv.tree.bootPath inside (by decide)
  -- The word at the start of the large page is zero.
  have word : pte kernel.mem (pdIndex 0x200000 * 0x200000) (ptIndex 0x200000) = 0 := by
    refine Mem.read_zero fun x low _ => initPaging_beyond (fun _ => 0) ?_
    have place : pdIndex 0x200000 * 0x200000 + 8 * ptIndex 0x200000 = 0x200000 := by decide
    rw [place] at low
    exact Nat.le_trans (by decide) low
  have absent : isPresent 0 = false := by decide
  have read : vmmGetPhysical kernel 0x200000 = 0 := by
    rw [vmmGetPhysical_inside inv.tree.bootPath inv.pml4 inside, word, absent]
    rfl
  refine ⟨walk, read, fun agrees => ?_⟩
  have same := agrees.1 0x200000 walk
  rw [read] at same
  exact absurd same (by decide)

section Effect

variable {state : VmmState}

/-- The bytes of all tables. -/
def tableBytes (mem : Mem) : Set Nat := {x | ∃ t ∈ tableSet mem, x ∈ pageSpan t}

/-- Outside the first GiB, `vmm_unmap_page` writes to a table of the tree, or to nothing. -/
theorem vmmUnmapPage_changes {kernel : Kernel} {owned : Finset Nat} {virt : Nat}
    (inv : VmmInv kernel owned) (outside : OutsideBoot virt) :
    Mem.ChangesOnly kernel.mem (vmmUnmapPage kernel virt).mem (tableBytes kernel.mem) := by
  -- The descent of the source comes to the page table, if the tree has one.
  rw [vmmUnmapPage, findPageTable_outside inv outside]
  cases met : tableAt kernel.mem (pathOf virt) with
  | none => exact Mem.ChangesOnly.refl _ _
  | some pt =>
    have changes := setPte_changes kernel.mem pt (ptIndex virt) 0 (ptSlot_val virt ▸ (ptSlot virt).isLt)
    exact changes.mono fun x inside => ⟨pt, ⟨pathOf virt, Nat.le_refl 3, met⟩, inside⟩

/-- An entry sets the reserved bit when the flags of its call do. -/
theorem leafEntry_isReserved (phys flags : Nat) :
    isReserved (leafEntry phys flags) = flags.testBit 63 := by
  -- Neither the mask nor the present flag has bit 63.
  have mask : ptAddrMask.testBit 63 = false := by decide
  have present : ptPresent.testBit 63 = false := by decide
  rw [isReserved, leafEntry, Nat.testBit_or, Nat.testBit_or, Nat.testBit_and, mask, present,
    Bool.and_false, Bool.false_or, Bool.or_false]

/--
Over every run of calls outside the loader's large pages, a call takes effect in the processor's walk.

A map call that sets bit 63 is the exception: the processor refuses its page as long as
`EFER.NXE` is off. What is written are entries of tables, and, when pages are taken for
tables, their marks in the page allocator's bitmap.
-/
theorem vmm_calls_take_effect {mem : Mem}
    (run : Relation.ReflTransGen VmmStep (VmmState.initial mem) state) (virt phys flags : UInt64)
    (canonical : Canonical virt.toNat) (apart : flags.toNat &&& ptAddrMask = 0) :
    (MapAllowed virt.toNat → ∀ kernel done,
      vmmMapPage state.kernel virt.toNat phys.toNat flags.toNat = (kernel, done) →
        (done = true → translate kernel.mem kernel.cr3 virt.toNat =
          if flags.toNat.testBit 63 then .refused
          else .found ((phys.toNat &&& ptAddrMask) + (virt.toNat &&& 0xFFF))) ∧
        Mem.ChangesOnly state.kernel.mem kernel.mem (treeBytes kernel)) ∧
    (OutsideBoot virt.toNat → ∀ kernel, vmmUnmapPage state.kernel virt.toNat = kernel →
      translate kernel.mem kernel.cr3 virt.toNat = .absent ∧
        Mem.ChangesOnly state.kernel.mem kernel.mem (tableBytes state.kernel.mem)) := by
  have inv := vmmInv_reachable run
  have here : SamePage virt.toNat virt.toNat := rfl
  refine ⟨fun allowed kernel done result => ?_, fun outside kernel result => ?_⟩
  · by_cases outside : OutsideBoot virt.toNat
    · obtain ⟨invMap, outcome⟩ :=
        vmmMapPage_outside inv outside phys.toNat flags.toNat_lt
      rw [result] at invMap outcome
      rcases outcome with ⟨failed, grows⟩ | ⟨-, assigns⟩
      · refine ⟨fun succeeded => ?_, grows.changes⟩
        exact absurd (succeeded.symm.trans failed) (by decide)
      · refine ⟨fun _ => ?_, assigns.changes⟩
        -- The leaf is present and holds the frame, with bit 63 as the call has it.
        obtain ⟨present, frame⟩ := leafEntry_fields phys.toNat apart
        have upper := leafEntry_isReserved phys.toNat flags.toNat
        rw [← leafEntry] at present frame
        rw [invMap.cr3, translate_outside invMap.tree outside canonical, assigns.leafOf_eq, if_pos here,
          leafWalk, present, upper, frame, Bool.not_true, if_neg Bool.false_ne_true]
    · -- On the first 2 MiB the call is refused and nothing is written.
      have low : pdIndex virt.toNat = 0 := allowed.resolve_left outside
      rw [vmmMapPage_inside inv.tree.bootPath inv.pml4 outside, if_pos low] at result
      obtain ⟨rfl, rfl⟩ := Prod.mk.inj result
      exact ⟨fun succeeded => absurd succeeded (by decide), Mem.ChangesOnly.refl _ _⟩
  · -- The entry of the address is zero, so the walk ends there at the latest.
    obtain ⟨invUnmap, assigns, -⟩ := vmmUnmapPage_outside inv outside
    have changes := vmmUnmapPage_changes inv outside
    rw [result] at invUnmap assigns changes
    refine ⟨?_, changes⟩
    have absent : isPresent 0 = false := by decide
    rw [invUnmap.cr3, translate_outside invUnmap.tree outside canonical, assigns.leafOf_eq, if_pos here,
      leafWalk, absent]
    rfl

/-- After a client has taken a page, calls at 512 GiB take effect. -/
theorem vmm_calls_take_effect_after_alloc :
    let state := VmmCall.alloc.apply (VmmState.initial fun _ => 0)
    let virt : UInt64 := 0x8000000000
    let phys : UInt64 := 0x5000
    let flags : UInt64 := 2
    (MapAllowed virt.toNat → ∀ kernel done,
      vmmMapPage state.kernel virt.toNat phys.toNat flags.toNat = (kernel, done) →
        (done = true → translate kernel.mem kernel.cr3 virt.toNat =
          if flags.toNat.testBit 63 then .refused
          else .found ((phys.toNat &&& ptAddrMask) + (virt.toNat &&& 0xFFF))) ∧
        Mem.ChangesOnly state.kernel.mem kernel.mem (treeBytes kernel)) ∧
    (OutsideBoot virt.toNat → ∀ kernel, vmmUnmapPage state.kernel virt.toNat = kernel →
      translate kernel.mem kernel.cr3 virt.toNat = .absent ∧
        Mem.ChangesOnly state.kernel.mem kernel.mem (tableBytes state.kernel.mem)) :=
  vmm_calls_take_effect (.single ⟨.alloc, trivial, rfl⟩) _ _ _ (by decide) (by decide)

/-- A map call inside a large page reports success, and the processor's walk is as before. -/
theorem vmmMapPage_inside_walk {kernel : Kernel} {owned : Finset Nat} {virt : Nat}
    (inv : VmmInv kernel owned) (inside : ¬ OutsideBoot virt) (above : pdIndex virt ≠ 0)
    (canonical : Canonical virt) (phys flags : Nat) :
    (vmmMapPage kernel virt phys flags).2 = true ∧
      translate (vmmMapPage kernel virt phys flags).1.mem
        (vmmMapPage kernel virt phys flags).1.cr3 virt = .found virt := by
  rw [vmmMapPage_inside inv.tree.bootPath inv.pml4 inside, if_neg above]
  refine ⟨rfl, ?_⟩
  -- The write goes to the large page itself, far above the loader's tables.
  have changes := setPte_changes kernel.mem (pdIndex virt * 0x200000) (ptIndex virt)
    (leafEntry phys flags) (ptSlot virt).isLt
  have path := inv.tree.bootPath.congr changes (by
    rw [Set.disjoint_left]
    intro x low high
    simp only [pageSpan, Set.mem_Ico] at low high
    omega)
  rw [Kernel.withMem_cr3, inv.cr3]
  exact translate_inside path inside canonical

/-- Mapping 2 MiB to 8 MiB reports success, and the processor still maps 2 MiB to itself. -/
theorem vmm_map_inside_large_page_ignored :
    let after := vmmMapPage (initPaging fun _ => 0) 0x200000 0x800000 0
    after.2 = true ∧ translate after.1.mem after.1.cr3 0x200000 = .found 0x200000 ∧
      (0x800000 &&& ptAddrMask) + (0x200000 &&& 0xFFF) ≠ 0x200000 := by
  -- 2 MiB is the second large page of the loader.
  have inside : ¬ OutsideBoot 0x200000 := by decide
  obtain ⟨succeeded, walk⟩ := vmmMapPage_inside_walk (vmmInv_initPaging fun _ => 0) inside
    (by decide) (by decide) 0x800000 0
  exact ⟨succeeded, walk, by decide⟩

end Effect

end IncroOS
