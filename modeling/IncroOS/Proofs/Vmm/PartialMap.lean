import IncroOS.Proofs.Vmm.Runs

/-! The manager as a partial map from pages to entries, outside the loader's identity map. -/

namespace IncroOS

open Lib

section Reads

variable {kernel kernel' : Kernel} {owned owned' : Finset Nat} {virt : Nat}

/-- `vmm_get_physical` depends on the leaf entry of its address alone. -/
theorem vmmGetPhysical_congr {w : Nat} (inv : VmmInv kernel owned) (inv' : VmmInv kernel' owned')
    (outside : OutsideBoot w) (same : leafOf kernel'.mem w = leafOf kernel.mem w) :
    vmmGetPhysical kernel' w = vmmGetPhysical kernel w := by
  rw [vmmGetPhysical_outside inv' outside, vmmGetPhysical_outside inv outside, same]

/-- A new entry shows on its own page and on no other. -/
theorem Assigns.vmmGetPhysical_eq {entry : Nat} (assigns : Assigns kernel kernel' virt entry)
    (inv : VmmInv kernel owned) (inv' : VmmInv kernel' owned') {w : Nat} (outside : OutsideBoot w) :
    vmmGetPhysical kernel' w =
      if SamePage w virt then
        if isPresent entry then (entry &&& ptAddrMask) + (w &&& 0xFFF) else 0
      else vmmGetPhysical kernel w := by
  -- The address is read from its leaf, which changes on the one page only.
  have leaf := assigns.leafOf_eq w
  by_cases same : SamePage w virt
  · rw [if_pos same] at leaf ⊢
    rw [vmmGetPhysical_outside inv' outside, leaf]
  · rw [if_neg same] at leaf ⊢
    exact vmmGetPhysical_congr inv inv' outside leaf

end Reads

/--
Over every run, outside the first GiB, the manager behaves as a partial map of pages.

A map that succeeds updates one page, and one that fails updates none.
An unmap clears one page, and what other clients do in between changes none.
-/
theorem vmm_refines_partial_map {mem : Mem} {state : VmmState}
    (run : Relation.ReflTransGen VmmStep (VmmState.initial mem) state) (virt phys flags : UInt64)
    (outside : OutsideBoot virt.toNat) (apart : flags.toNat &&& ptAddrMask = 0) :
    (∀ kernel, vmmMapPage state.kernel virt.toNat phys.toNat flags.toNat = (kernel, true) →
      ∀ w : UInt64, OutsideBoot w.toNat → vmmGetPhysical kernel w.toNat =
        if SamePage w.toNat virt.toNat then (phys.toNat &&& ptAddrMask) + (w.toNat &&& 0xFFF)
        else vmmGetPhysical state.kernel w.toNat) ∧
    (∀ kernel, vmmMapPage state.kernel virt.toNat phys.toNat flags.toNat = (kernel, false) →
      ∀ w : UInt64, OutsideBoot w.toNat →
        vmmGetPhysical kernel w.toNat = vmmGetPhysical state.kernel w.toNat) ∧
    (∀ w : UInt64, OutsideBoot w.toNat →
      vmmGetPhysical (vmmUnmapPage state.kernel virt.toNat) w.toNat =
        if SamePage w.toNat virt.toNat then 0 else vmmGetPhysical state.kernel w.toNat) ∧
    ∀ call : VmmCall, call.OffLargePages state → call.isClient = true →
      ∀ w : UInt64, OutsideBoot w.toNat →
        vmmGetPhysical (call.apply state).kernel w.toNat =
          vmmGetPhysical state.kernel w.toNat := by
  have inv := vmmInv_reachable run
  obtain ⟨invMap, outcome⟩ := vmmMapPage_outside inv outside phys.toNat flags.toNat_lt
  obtain ⟨present, frame⟩ := leafEntry_fields phys.toNat apart
  -- In turn: a map that succeeds, a map that fails, an unmap, and a client's call.
  refine ⟨fun kernel result w outsideW => ?_, fun kernel result w outsideW => ?_,
    fun w outsideW => ?_, fun call allowed client w outsideW => ?_⟩
  · rw [result] at invMap outcome
    rcases outcome with ⟨failed, -⟩ | ⟨-, assigns⟩
    · exact absurd failed (by simp)
    · rw [assigns.vmmGetPhysical_eq inv invMap outsideW, leafEntry, present, frame]
      rfl
  · rw [result] at invMap outcome
    rcases outcome with ⟨-, grows⟩ | ⟨succeeded, -⟩
    · exact vmmGetPhysical_congr inv invMap outsideW (grows.leaves _ _ rfl)
    · exact absurd succeeded (by simp)
  · obtain ⟨invUnmap, assigns, -⟩ := vmmUnmapPage_outside inv outside
    rw [assigns.vmmGetPhysical_eq inv invUnmap outsideW]
    rfl
  · exact vmmGetPhysical_congr inv (inv.step ⟨call, allowed, rfl⟩) outsideW
      (inv.client_leaves allowed client w.toNat)

/-- After a client has taken a page, a page mapped at 512 GiB is found there and not next to it. -/
theorem vmm_refines_partial_map_after_alloc :
    let state := VmmCall.alloc.apply (VmmState.initial fun _ => 0)
    let virt : UInt64 := 0x8000000000
    let phys : UInt64 := 0x5000
    let flags : UInt64 := 2
    (∀ kernel, vmmMapPage state.kernel virt.toNat phys.toNat flags.toNat = (kernel, true) →
      ∀ w : UInt64, OutsideBoot w.toNat → vmmGetPhysical kernel w.toNat =
        if SamePage w.toNat virt.toNat then (phys.toNat &&& ptAddrMask) + (w.toNat &&& 0xFFF)
        else vmmGetPhysical state.kernel w.toNat) ∧
    (∀ kernel, vmmMapPage state.kernel virt.toNat phys.toNat flags.toNat = (kernel, false) →
      ∀ w : UInt64, OutsideBoot w.toNat →
        vmmGetPhysical kernel w.toNat = vmmGetPhysical state.kernel w.toNat) ∧
    (∀ w : UInt64, OutsideBoot w.toNat →
      vmmGetPhysical (vmmUnmapPage state.kernel virt.toNat) w.toNat =
        if SamePage w.toNat virt.toNat then 0 else vmmGetPhysical state.kernel w.toNat) ∧
    ∀ call : VmmCall, call.OffLargePages state → call.isClient = true →
      ∀ w : UInt64, OutsideBoot w.toNat →
        vmmGetPhysical (call.apply state).kernel w.toNat =
          vmmGetPhysical state.kernel w.toNat :=
  vmm_refines_partial_map (.single ⟨.alloc, trivial, rfl⟩) _ _ _ (by decide) (by decide)

end IncroOS
