import IncroOS.Lib.Runs
import IncroOS.Proofs.Vmm.Rights

/-! `vmm_is_mapped` against the history of the calls, outside the loader's identity map. -/

namespace IncroOS

open Lib

/-- What a call makes of the frame that an address's page is mapped to, if it is mapped. -/
def VmmCall.remaps (state : VmmState) (virt : Nat) (last : Option Nat) : VmmCall → Option Nat
  | .map page phys flags =>
    if SamePage virt page.toNat ∧
        (vmmMapPage state.kernel page.toNat phys.toNat flags.toNat).2 = true then
      some (phys.toNat &&& ptAddrMask)
    else last
  | .unmap page => if SamePage virt page.toNat then none else last
  | .alloc | .free _ | .write _ _ => last

/-- The frame of the most recent successful call on an address's page, if that call was a map. -/
def lastMapped (virt : Nat) : VmmState → List VmmCall → Option Nat → Option Nat
  | _, [], last => last
  | state, call :: rest, last =>
    lastMapped virt (call.apply state) rest (call.remaps state virt last)

/-- The frame in the leaf entry of an address, if that entry is present. -/
def mappedFrame (mem : Mem) (virt : Nat) : Option Nat :=
  if isPresent (leafOf mem virt) then some (leafOf mem virt &&& ptAddrMask) else none

/-- The answer for an address is the one that the history of calls gives. -/
def ReportsPresence (kernel : Kernel) (virt : Nat) (last : Option Nat) : Prop :=
  vmmIsMapped kernel virt = true ↔ last.isSome = true

section History

variable {state : VmmState} {kernel kernel' : Kernel} {owned : Finset Nat} {virt : Nat}
  {calls : List VmmCall}

/-- The entry of an address decides its frame. -/
theorem mappedFrame_congr {mem mem' : Mem} (same : leafOf mem' virt = leafOf mem virt) :
    mappedFrame mem' virt = mappedFrame mem virt := by
  rw [mappedFrame, mappedFrame, same]

/-- A new entry gives its page a new frame and leaves every other page its own. -/
theorem Assigns.mappedFrame_eq {page entry : Nat} (assigns : Assigns kernel kernel' page entry)
    (virt : Nat) :
    mappedFrame kernel'.mem virt =
      if SamePage virt page then (if isPresent entry then some (entry &&& ptAddrMask) else none)
      else mappedFrame kernel.mem virt := by
  -- The frame is read from the leaf, which changes on the one page only.
  have leaf := assigns.leafOf_eq virt
  by_cases same : SamePage virt page
  · rw [if_pos same] at leaf ⊢
    rw [mappedFrame, leaf]
  · rw [if_neg same] at leaf ⊢
    exact mappedFrame_congr leaf

/-- Every allowed call does to the tables what it does to the history. -/
theorem VmmInv.remaps (inv : VmmInv state.kernel state.owned) {call : VmmCall}
    (allowed : call.Allowed state) (virt : Nat) :
    mappedFrame (call.apply state).kernel.mem virt =
      call.remaps state virt (mappedFrame state.kernel.mem virt) := by
  obtain ⟨place, apart⟩ := allowed
  cases call with
  | map page phys flags =>
    rw [VmmCall.apply, VmmCall.remaps]
    by_cases outside : OutsideBoot page.toNat
    · obtain ⟨-, outcome⟩ := vmmMapPage_outside inv outside phys.toNat flags.toNat_lt
      rcases outcome with ⟨failed, grows⟩ | ⟨succeeded, assigns⟩
      · rw [failed, if_neg (by simp)]
        exact mappedFrame_congr (grows.leaves _ _ rfl)
      · obtain ⟨present, frame⟩ := leafEntry_fields phys.toNat apart
        rw [assigns.mappedFrame_eq, succeeded, leafEntry, present, frame]
        simp
    · -- On the first 2 MiB the call is refused.
      have low : pdIndex page.toNat = 0 := Or.resolve_left place outside
      rw [vmmMapPage_inside inv.tree.bootPath inv.pml4 outside, if_pos low, if_neg (by simp)]
  -- A zero entry is not present.
  | unmap page =>
    obtain ⟨-, assigns, -⟩ := vmmUnmapPage_outside inv place
    have absent : isPresent 0 = false := by decide
    rw [VmmCall.apply, VmmCall.remaps, assigns.mappedFrame_eq, absent]
    rfl
  | alloc => exact mappedFrame_congr (inv.client_leaves place rfl virt)
  | free addr => exact mappedFrame_congr (inv.client_leaves place rfl virt)
  | write addr value => exact mappedFrame_congr (inv.client_leaves place rfl virt)

/-- Over a run the tables keep the invariant and follow the history. -/
theorem VmmInv.history (inv : VmmInv state.kernel state.owned)
    (allowed : Along VmmCall.apply VmmCall.Allowed state calls) (virt : Nat) :
    VmmInv (runCalls VmmCall.apply state calls).kernel (runCalls VmmCall.apply state calls).owned ∧
    mappedFrame (runCalls VmmCall.apply state calls).kernel.mem virt =
      lastMapped virt state calls (mappedFrame state.kernel.mem virt) := by
  -- The induction is on the run; each call moves the tables and the history together.
  induction calls generalizing state with
  | nil => exact ⟨inv, rfl⟩
  | cons call rest ih =>
    obtain ⟨here, later⟩ := allowed
    have next := ih (inv.step ⟨call, here.1, rfl⟩) later
    rw [inv.remaps here] at next
    exact next

/-- The loader maps nothing outside the first GiB through page tables. -/
theorem mappedFrame_initial (mem : Mem) (virt : Nat) :
    mappedFrame (VmmState.initial mem).kernel.mem virt = none := by
  have missing : tableAt (initPaging mem).mem (pathOf virt) = none := by
    -- A path of three steps is longer than any path of the loader's tables.
    cases met : tableAt (initPaging mem).mem (pathOf virt) with
    | none => rfl
    | some t =>
      rcases (initPaging_entries mem).tableAt met with ⟨short, -⟩ | ⟨short, -⟩ | ⟨short, -⟩
      · exact absurd (congrArg List.length short) (by simp [pathOf])
      · exact absurd (congrArg List.length short) (by simp [pathOf])
      · exact absurd (congrArg List.length short) (by simp [pathOf])
  have broken : Radix.descend linkOf (slot (initPaging mem).mem) bootCr3 (pathOf virt) = none :=
    missing
  have clear : leafOf (initPaging mem).mem virt = 0 := by
    rw [leafOf, leafAt, Radix.lookup, broken]
    rfl
  have absent : isPresent 0 = false := by decide
  have start : (VmmState.initial mem).kernel.mem = (initPaging mem).mem := rfl
  rw [start, mappedFrame, clear, absent]
  rfl

/-- The manager reports the address that frame and offset give, and zero for a page without one. -/
theorem vmmGetPhysical_mappedFrame (inv : VmmInv kernel owned) (outside : OutsideBoot virt) :
    vmmGetPhysical kernel virt =
      (mappedFrame kernel.mem virt).elim 0 fun frame => frame + virt % 2 ^ 12 := by
  -- The manager and the history read the same leaf.
  rw [vmmGetPhysical_outside inv outside, and_0xFFF, mappedFrame]
  cases isPresent (leafOf kernel.mem virt) with
  | false => rfl
  | true => rfl

/-- The answer is wrong on exactly one kind of address, the start of a page mapped to frame zero. -/
theorem reportsPresence_iff (inv : VmmInv kernel owned) (outside : OutsideBoot virt) :
    ReportsPresence kernel virt (mappedFrame kernel.mem virt) ↔
      ¬ (mappedFrame kernel.mem virt = some 0 ∧ virt % 2 ^ 12 = 0) := by
  have read := vmmGetPhysical_mappedFrame inv outside
  rw [ReportsPresence, vmmIsMapped, bne_iff_ne, read]
  -- Frame and offset add up to zero only if both are zero.
  cases mappedFrame kernel.mem virt with
  | none => simp
  | some frame =>
    simp only [Option.elim_some, Option.isSome_some, iff_true, Option.some.injEq]
    omega

/-- The first GiB is made of whole pages. -/
theorem OutsideBoot.samePage {w : Nat} (outside : OutsideBoot virt) (same : SamePage w virt) :
    OutsideBoot w := by
  unfold OutsideBoot SamePage at *
  rw [pml4Index_eq, pdptIndex_eq] at outside ⊢
  omega

/-- Addresses of one page have one history. -/
theorem lastMapped_congr {w : Nat} (same : SamePage w virt) (last : Option Nat) :
    lastMapped w state calls last = lastMapped virt state calls last := by
  induction calls generalizing state last with
  | nil => rfl
  | cons call rest ih =>
    -- Each call looks at the page of the address only.
    have step : call.remaps state w last = call.remaps state virt last := by
      have pages : ∀ page, SamePage w page ↔ SamePage virt page := fun page => by
        unfold SamePage at same ⊢
        rw [same]
      cases call with
      | map page phys flags => simp only [VmmCall.remaps, pages]
      | unmap page => simp only [VmmCall.remaps, pages]
      | alloc => rfl
      | free addr => rfl
      | write addr value => rfl
    rw [lastMapped, lastMapped, step]
    exact ih _

/-- A history without maps to frame zero never ends in one. -/
theorem lastMapped_nonzero {last : Option Nat} (start : last ≠ some 0)
    (nonzero : ∀ page phys flags, VmmCall.map page phys flags ∈ calls →
      phys.toNat &&& ptAddrMask ≠ 0) : lastMapped virt state calls last ≠ some 0 := by
  induction calls generalizing state last with
  | nil => exact start
  | cons call rest ih =>
    rw [lastMapped]
    refine ih ?_ fun page phys flags member => nonzero page phys flags (List.mem_cons_of_mem _ member)
    -- Only a map puts a frame into the history.
    cases call with
    | map page phys flags =>
      have frame := nonzero page phys flags List.mem_cons_self
      rw [VmmCall.remaps]
      split
      · exact fun zero => frame (Option.some.inj zero)
      · exact start
    | unmap page =>
      rw [VmmCall.remaps]
      split
      · exact Option.some_ne_none 0 |>.symm
      · exact start
    | alloc => exact start
    | free addr => exact start
    | write addr value => exact start

/-- One answer serves a whole page exactly when the page is not mapped to frame zero. -/
theorem isMapped_const_iff (inv : VmmInv kernel owned)
    (whole : ∀ w, w / 2 ^ 12 = virt / 2 ^ 12 →
      OutsideBoot w ∧ mappedFrame kernel.mem w = mappedFrame kernel.mem virt) :
    (∀ w, w / 2 ^ 12 = virt / 2 ^ 12 → vmmIsMapped kernel w = vmmIsMapped kernel virt) ↔
      mappedFrame kernel.mem virt ≠ some 0 := by
  have answer : ∀ w, w / 2 ^ 12 = virt / 2 ^ 12 → vmmIsMapped kernel w =
      ((mappedFrame kernel.mem virt).elim 0 (fun frame => frame + w % 2 ^ 12) != 0) := by
    intro w same
    obtain ⟨outsideW, frame⟩ := whole w same
    rw [vmmIsMapped, vmmGetPhysical_mappedFrame inv outsideW, frame]
  constructor
  · intro constant zero
    -- The first two addresses of such a page get different answers.
    have first := (answer (virt / 2 ^ 12 * 2 ^ 12) (by omega)).symm.trans (constant _ (by omega))
    have second := (answer (virt / 2 ^ 12 * 2 ^ 12 + 1) (by omega)).symm.trans
      (constant _ (by omega))
    have differ := first.trans second.symm
    rw [zero] at differ
    simp only [Option.elim_some] at differ
    rw [show virt / 2 ^ 12 * 2 ^ 12 % 2 ^ 12 = 0 by omega,
      show (virt / 2 ^ 12 * 2 ^ 12 + 1) % 2 ^ 12 = 1 by omega] at differ
    contradiction
  · intro nonzero w same
    rw [answer w same, answer virt rfl]
    cases found : mappedFrame kernel.mem virt with
    | none => rfl
    | some frame =>
      have positive : frame ≠ 0 := fun zero => nonzero (by rw [found, zero])
      simp only [Option.elim_some]
      rw [bne_iff_ne.mpr (show frame + w % 2 ^ 12 ≠ 0 by omega),
        bne_iff_ne.mpr (show frame + virt % 2 ^ 12 ≠ 0 by omega)]

end History

/--
Over every run, `vmm_is_mapped` tells the history of an address outside the first GiB, except at the
start of a page whose most recent successful call mapped it to frame zero.
-/
theorem vmm_is_mapped_iff {mem : Mem} {calls : List VmmCall}
    (allowed : Along VmmCall.apply VmmCall.Allowed (VmmState.initial mem) calls) (virt : UInt64)
    (outside : OutsideBoot virt.toNat) :
    let state := runCalls VmmCall.apply (VmmState.initial mem) calls
    let last := lastMapped virt.toNat (VmmState.initial mem) calls none
    (ReportsPresence state.kernel virt.toNat last ↔
      ¬ (last = some 0 ∧ virt.toNat % 2 ^ 12 = 0)) ∧
    ((∀ w, w / 2 ^ 12 = virt.toNat / 2 ^ 12 →
      vmmIsMapped state.kernel w = vmmIsMapped state.kernel virt.toNat) ↔ last ≠ some 0) ∧
    ((∀ page phys flags, VmmCall.map page phys flags ∈ calls → phys.toNat &&& ptAddrMask ≠ 0) →
      ReportsPresence state.kernel virt.toNat last) := by
  -- The run keeps the invariant and follows the history, for every address of the page.
  intro state last
  have start : VmmInv (VmmState.initial mem).kernel (VmmState.initial mem).owned :=
    vmmInv_initPaging mem
  have follows : ∀ w, VmmInv state.kernel state.owned ∧
      mappedFrame state.kernel.mem w = lastMapped w (VmmState.initial mem) calls none := by
    intro w
    have run := start.history allowed w
    rwa [mappedFrame_initial mem w] at run
  obtain ⟨inv, frame⟩ := follows virt.toNat
  have exact_ := reportsPresence_iff inv outside
  rw [frame] at exact_
  refine ⟨exact_, ?_, fun nonzero => ?_⟩
  · have constant := isMapped_const_iff inv fun w same => by
      have page : SamePage w virt.toNat := by rw [SamePage, same]
      refine ⟨outside.samePage page, ?_⟩
      rw [(follows w).2, frame, lastMapped_congr page]
    rw [frame] at constant
    exact constant
  · refine exact_.mpr fun wrong => ?_
    exact lastMapped_nonzero (Option.some_ne_none 0).symm nonzero wrong.1

/-- A page that is mapped at 512 GiB to frame five is reported at every address. -/
theorem vmm_is_mapped_iff_one_map :
    let calls := [VmmCall.map 0x8000000000 0x5000 2]
    let virt : UInt64 := 0x8000000000
    let state := runCalls VmmCall.apply (VmmState.initial fun _ => 0) calls
    let last := lastMapped virt.toNat (VmmState.initial fun _ => 0) calls none
    (ReportsPresence state.kernel virt.toNat last ↔
      ¬ (last = some 0 ∧ virt.toNat % 2 ^ 12 = 0)) ∧
    ((∀ w, w / 2 ^ 12 = virt.toNat / 2 ^ 12 →
      vmmIsMapped state.kernel w = vmmIsMapped state.kernel virt.toNat) ↔ last ≠ some 0) ∧
    ((∀ page phys flags, VmmCall.map page phys flags ∈ calls → phys.toNat &&& ptAddrMask ≠ 0) →
      ReportsPresence state.kernel virt.toNat last) := by
  -- The only call is outside the first GiB, with flags apart from the mask.
  intro calls virt
  have outside : OutsideBoot (0x8000000000 : UInt64).toNat := by decide
  have apart : (2 : UInt64).toNat &&& ptAddrMask = 0 := by decide
  exact @vmm_is_mapped_iff (fun _ => 0) calls ⟨⟨.inl outside, apart⟩, trivial⟩ virt outside

/-- A page mapped to frame zero is reported as unmapped at its first address, as mapped at the next. -/
theorem vmm_is_mapped_misses_frame_zero :
    let after := vmmMapPage (initPaging fun _ => 0) 0x8000000000 0 2
    after.2 = true ∧ vmmIsMapped after.1 0x8000000000 = false ∧
      vmmIsMapped after.1 0x8000000001 = true := by
  have outside : OutsideBoot 0x8000000000 := by decide
  have next : OutsideBoot 0x8000000001 := by decide
  have mapped := initPaging_maps (fun _ => 0) outside 0 2
  obtain ⟨inv, outcome⟩ := vmmMapPage_outside (vmmInv_initPaging fun _ => 0) outside 0
    (show 2 < 2 ^ 64 by decide)
  rcases outcome with ⟨failed, -⟩ | ⟨-, assigns⟩
  · exact absurd (mapped.symm.trans failed) (by decide)
  · -- Both addresses read the entry of frame zero, and differ in their offset.
    have frame : ∀ w, SamePage w 0x8000000000 →
        mappedFrame (vmmMapPage (initPaging fun _ => 0) 0x8000000000 0 2).1.mem w = some 0 := by
      intro w same
      rw [assigns.mappedFrame_eq, if_pos same]
      rfl
    have first := vmmGetPhysical_mappedFrame inv outside
    have second := vmmGetPhysical_mappedFrame inv next
    rw [frame _ (by decide)] at first second
    refine ⟨mapped, ?_, ?_⟩
    · rw [vmmIsMapped, first]
      rfl
    · rw [vmmIsMapped, second]
      rfl

end IncroOS
