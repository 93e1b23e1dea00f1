import Mathlib.Logic.Relation
import IncroOS.Proofs.Vmm.Boot

/-! Runs of calls to the virtual memory manager, interleaved with clients of the page allocator. -/

namespace IncroOS

open Lib

/-- A kernel together with the pages that clients own. -/
structure VmmState where
  kernel : Kernel
  owned : Finset Nat

/-- The state once paging has been brought up. -/
def VmmState.initial (mem : Mem) : VmmState := ⟨initPaging mem, ∅⟩

/-- A call by a client, or a write of a client to a page it owns. -/
inductive VmmCall where
  | map (virt phys flags : UInt64)
  | unmap (virt : UInt64)
  | alloc
  | free (addr : UInt64)
  | write (addr : Nat) (value : UInt8)

/-- The state a call leaves behind. -/
def VmmCall.apply (state : VmmState) : VmmCall → VmmState
  | .map virt phys flags =>
    { state with kernel := (vmmMapPage state.kernel virt.toNat phys.toNat flags.toNat).1 }
  | .unmap virt => { state with kernel := vmmUnmapPage state.kernel virt.toNat }
  | .alloc =>
    let (kernel, page) := pmmAllocPage state.kernel
    ⟨kernel, if page = 0 then state.owned else insert page state.owned⟩
  | .free addr => ⟨pmmFreePage state.kernel addr.toNat, state.owned.erase addr.toNat⟩
  | .write addr value =>
    { state with kernel := state.kernel.withMem (state.kernel.mem.set addr value) }

/-- Mapping is refused on the first 2 MiB, and what is mapped elsewhere must avoid the first GiB. -/
def MapAllowed (virt : Nat) : Prop := OutsideBoot virt ∨ pdIndex virt = 0

/-- Calls that map pages at some places only, unmap outside the first GiB and keep to their own pages. -/
def VmmCall.MapsAt (place : Nat → Prop) (state : VmmState) : VmmCall → Prop
  | .map virt _ _ => place virt.toNat
  | .unmap virt => OutsideBoot virt.toNat
  | .alloc => True
  | .free addr => addr.toNat ∈ state.owned
  | .write addr _ => ∃ a ∈ state.owned, addr ∈ pageSpan a

/-- Calls that avoid the loader's large pages, whatever their flags. -/
def VmmCall.OffLargePages (state : VmmState) (call : VmmCall) : Prop := call.MapsAt MapAllowed state

/-- Calls that map and unmap outside the first GiB only, whatever their flags. -/
def VmmCall.Outside (state : VmmState) (call : VmmCall) : Prop := call.MapsAt OutsideBoot state

/-- The flags of a map call are apart from the address field. -/
def VmmCall.FlagsApart : VmmCall → Prop
  | .map _ _ flags => flags.toNat &&& ptAddrMask = 0
  | .unmap _ | .alloc | .free _ | .write _ _ => True

/-- Calls that avoid the loader's large pages, with flags apart from the address field. -/
def VmmCall.Allowed (state : VmmState) (call : VmmCall) : Prop :=
  call.OffLargePages state ∧ call.FlagsApart

/-- The pages that `alloc_page_table` takes during a call. -/
def VmmCall.tablePages (state : VmmState) : VmmCall → List Nat
  | .map virt _ _ => vmmMapPages state.kernel virt.toNat
  | .unmap _ | .alloc | .free _ | .write _ _ => []

/-- Calls that do not go to the virtual memory manager. -/
def VmmCall.isClient : VmmCall → Bool
  | .map _ _ _ | .unmap _ => false
  | .alloc | .free _ | .write _ _ => true

/-- One call that avoids the loader's large pages. -/
def VmmStep (state state' : VmmState) : Prop :=
  ∃ call : VmmCall, call.OffLargePages state ∧ state' = call.apply state

/-- One call outside the first GiB. -/
def OutsideStep (state state' : VmmState) : Prop :=
  ∃ call : VmmCall, call.Outside state ∧ state' = call.apply state

section Clients

variable {kernel kernel' : Kernel} {owned owned' : Finset Nat}

/-- What a client leaves of the tables: the invariant, every leaf and every link. -/
structure TablesSpared (kernel kernel' : Kernel) (owned' : Finset Nat) : Prop where
  inv : VmmInv kernel' owned'
  leaves : ∀ virt, leafOf kernel'.mem virt = leafOf kernel.mem virt
  tree : Extends kernel.mem kernel'.mem []

/-- A change that spares the tables, their marks and the reserved pages keeps every translation. -/
theorem VmmInv.frame (inv : VmmInv kernel owned) (cr3 : kernel'.cr3 = kernel.cr3)
    (pml4 : kernel'.pml4 = kernel.pml4) (pageBitmap : kernel'.pageBitmap = kernel.pageBitmap)
    (totalPages : kernel'.totalPages = kernel.totalPages)
    (slots : ∀ path t i, path.length ≤ 3 → tableAt kernel.mem path = some t →
      slot kernel'.mem t i = slot kernel.mem t i)
    (reserved : ∀ page < 384, isPageAllocated kernel' page = true)
    (marks : ∀ path t, path.length ≤ 3 → tableAt kernel.mem path = some t →
      isPageAllocated kernel' (t / pageSize) = true)
    (owners : ∀ a ∈ owned', a % pageSize = 0 ∧ a / pageSize < kernel.totalPages ∧
      isPageAllocated kernel' (a / pageSize) = true ∧ 384 ≤ a / pageSize ∧
      ∀ path, path.length ≤ 3 → tableAt kernel.mem path ≠ some a) :
    TablesSpared kernel kernel' owned' := by
  -- The same entries give the same tree, on which the rest of the invariant is stated.
  obtain ⟨tree, paths, leaves⟩ := inv.tree.congr slots
  refine ⟨⟨cr3.trans inv.cr3, pml4.trans inv.pml4, pageBitmap.trans inv.pageBitmap,
    totalPages.trans inv.totalPages, reserved, tree, ?_, ?_⟩, fun virt => leaves _ _ rfl,
    .of_same paths fun path t i short => slots path t i (by omega)⟩
  · intro path t short met
    rw [paths path short] at met
    have old := inv.tables path t short met
    exact ⟨old.positive, totalPages ▸ old.below, marks path t short met, old.apart⟩
  · intro a member
    obtain ⟨aligned, below, marked, beyond, unlinked⟩ := owners a member
    refine ⟨aligned, totalPages ▸ below, marked, beyond, fun path short met => ?_⟩
    exact unlinked path short (paths path short ▸ met)

/-- An allocation hands a client a page that is no table and that nobody owned. -/
theorem VmmInv.alloc (inv : VmmInv kernel owned) :
    TablesSpared kernel (pmmAllocPage kernel).1
      (if (pmmAllocPage kernel).2 = 0 then owned else insert (pmmAllocPage kernel).2 owned) := by
  -- Either every page is taken and nothing happens, or the lowest free page is marked.
  obtain ⟨-, result⟩ | ⟨page, below, free, -, result⟩ := pmmAllocPage_cases kernel
  · rw [result]
    exact ⟨by simpa using inv, fun virt => rfl, Extends.refl kernel.mem⟩
  · -- A free page holds no table, so marking it and handing it out spares them all.
    obtain ⟨beyond, unlinked⟩ := inv.free_page free
    have address := inv.page_address below
    have nonnull : page * pageSize ≠ 0 := by
      simp only [pageSize]
      omega
    have aligned : page * pageSize % pageSize = 0 := Nat.mul_mod_left page pageSize
    have quotient : page * pageSize / pageSize = page := Nat.mul_div_cancel page (by decide)
    have frame := pmmAllocPage_frame kernel
    rw [result] at frame ⊢
    dsimp only at frame ⊢
    rw [address, if_neg nonnull]
    have marks : ∀ q, isPageAllocated kernel q = true →
        isPageAllocated (reservePage page kernel) q = true := by
      intro q marked
      rw [isPageAllocated_reservePage, marked, Bool.or_true]
    refine inv.frame frame.cr3 frame.pml4 frame.pageBitmap frame.totalPages ?_
      (fun q low => marks q (inv.reserved q low))
      (fun path t short met => marks _ (inv.tables path t short met).allocated) ?_
    · intro path t i short met
      have wide := frame.mem.mono (Set.subset_union_left (t := pageSpan (page * pageSize)))
      exact inv.slot_congr aligned wide short met (fun same => unlinked path short (same ▸ met)) i
    · intro a member
      rcases Finset.mem_insert.mp member with rfl | old
      · refine ⟨aligned, by rw [quotient]; exact below, ?_, by omega, unlinked⟩
        rw [quotient, isPageAllocated_reservePage, decide_eq_true rfl, Bool.true_or]
      · have page := inv.owned a old
        exact ⟨page.aligned, page.below, marks _ page.allocated, page.beyond, page.unlinked⟩

/-- A client's release of a page it owns spares the tables and the pages of others. -/
theorem VmmInv.release (inv : VmmInv kernel owned) {a : Nat} (mine : a ∈ owned) :
    TablesSpared kernel (pmmFreePage kernel a) (owned.erase a) := by
  have own := inv.owned a mine
  have frame := pmmFreePage_frame kernel a
  have marks : ∀ q, q ≠ a / pageSize → isPageAllocated kernel q = true →
      isPageAllocated (pmmFreePage kernel a) q = true := by
    intro q other marked
    obtain ⟨-, result⟩ | ⟨-, -, result⟩ := pmmFreePage_cases kernel a
    · rw [result, marked]
    · rw [result, uncountPage, isPageAllocated_withUsedPages, isPageAllocated_setFree, marked,
        Bool.and_true, decide_eq_true other]
  -- Two pages that are not the same have different numbers.
  have apart : ∀ b, b % pageSize = 0 → b ≠ a → b / pageSize ≠ a / pageSize := by
    intro b aligned other same
    have mine := own.aligned
    simp only [pageSize] at aligned mine same
    omega
  refine inv.frame frame.cr3 frame.pml4 frame.pageBitmap frame.totalPages ?_ ?_ ?_ ?_
  · intro path t i short met
    have wide := frame.mem.mono (Set.subset_union_left (t := pageSpan a))
    exact inv.slot_congr own.aligned wide short met
      (fun same => own.unlinked path short (same ▸ met)) i
  · intro q low
    have beyond := own.beyond
    exact marks q (by omega) (inv.reserved q low)
  · intro path t short met
    refine marks _ (apart t (inv.table_aligned short met) ?_) (inv.tables path t short met).allocated
    rintro rfl
    exact own.unlinked path short met
  · intro b member
    obtain ⟨other, old⟩ := Finset.mem_erase.mp member
    have page := inv.owned b old
    exact ⟨page.aligned, page.below, marks _ (apart b page.aligned other) page.allocated, page.beyond,
      page.unlinked⟩

/-- A client's write to a page it owns spares the tables and the bitmap. -/
theorem VmmInv.clientWrite (inv : VmmInv kernel owned) {a x : Nat} (mine : a ∈ owned)
    (inside : x ∈ pageSpan a) (value : UInt8) :
    TablesSpared kernel (kernel.withMem (kernel.mem.set x value)) owned := by
  have own := inv.owned a mine
  have changes : Mem.ChangesOnly kernel.mem (kernel.mem.set x value) (pageSpan a) :=
    (Mem.set_changes kernel.mem x value).mono (by rintro y rfl; exact inside)
  -- An owned page lies beyond the reserved ones, so it is apart from the bitmap.
  have marks : ∀ q < kernel.totalPages, isPageAllocated (kernel.withMem (kernel.mem.set x value)) q =
      isPageAllocated kernel q := fun q below =>
    isPageAllocated_congr changes (inv.bitmap_apart own.aligned (.inr own.beyond)) below
  have total := inv.totalPages
  refine inv.frame rfl rfl rfl rfl ?_ ?_ ?_ ?_
  · intro path t i short met
    exact inv.slot_congr own.aligned (changes.mono Set.subset_union_right) short met
      (fun same => own.unlinked path short (same ▸ met)) i
  · intro q low
    rw [marks q (by omega)]
    exact inv.reserved q low
  · intro path t short met
    have page := inv.tables path t short met
    rw [marks _ page.below]
    exact page.allocated
  · intro b member
    have page := inv.owned b member
    exact ⟨page.aligned, page.below, (marks _ page.below).trans page.allocated, page.beyond,
      page.unlinked⟩

end Clients

section Steps

variable {state state' : VmmState}

/-- Every call outside the first GiB keeps the invariant and adds only the tables it takes pages for. -/
theorem VmmInv.apply (inv : VmmInv state.kernel state.owned) {call : VmmCall}
    (outside : call.Outside state) :
    VmmInv (call.apply state).kernel (call.apply state).owned ∧
      Extends state.kernel.mem (call.apply state).kernel.mem (call.tablePages state) := by
  cases call with
  | map virt phys flags =>
    exact ⟨(vmmMapPage_outside inv outside phys.toNat flags.toNat_lt).1,
      vmmMapPage_extends inv outside phys.toNat flags.toNat_lt⟩
  | unmap virt =>
    obtain ⟨after, -, extension⟩ := vmmUnmapPage_outside inv outside
    exact ⟨after, extension⟩
  | alloc => exact ⟨inv.alloc.inv, inv.alloc.tree⟩
  | free addr => exact ⟨(inv.release outside).inv, (inv.release outside).tree⟩
  -- The write goes to a page that its client owns.
  | write addr value =>
    obtain ⟨a, mine, inside⟩ := outside
    have spared := inv.clientWrite mine inside value
    exact ⟨spared.inv, spared.tree⟩

/-- The invariant holds in every state that a run of calls outside the first GiB reaches. -/
theorem vmmInv_outside {mem : Mem}
    (run : Relation.ReflTransGen OutsideStep (VmmState.initial mem) state) :
    VmmInv state.kernel state.owned := by
  -- By induction on the run.
  induction run with
  | refl => exact vmmInv_initPaging mem
  | tail _ step ih =>
    obtain ⟨call, outside, rfl⟩ := step
    exact (ih.apply outside).1

/-- A call off the large pages is one outside the first GiB, or it is refused. -/
theorem VmmInv.outside_or_refused (inv : VmmInv state.kernel state.owned) {call : VmmCall}
    (off : call.OffLargePages state) : call.Outside state ∨ call.apply state = state := by
  cases call with
  | map virt phys flags =>
    rcases off with outside | low
    · exact .inl outside
    · by_cases outside : OutsideBoot virt.toNat
      · exact .inl outside
      · -- On the first 2 MiB the descent fails at once.
        right
        rw [VmmCall.apply, vmmMapPage_inside inv.tree.bootPath inv.pml4 outside, if_pos low]
  | unmap virt => exact .inl off
  | alloc => exact .inl off
  | free addr => exact .inl off
  | write addr value => exact .inl off

/-- Every call off the large pages keeps the invariant. -/
theorem VmmInv.step (inv : VmmInv state.kernel state.owned) (step : VmmStep state state') :
    VmmInv state'.kernel state'.owned := by
  -- A call that is refused changes nothing.
  obtain ⟨call, off, rfl⟩ := step
  rcases inv.outside_or_refused off with outside | refused
  · exact (inv.apply outside).1
  · rw [refused]
    exact inv

/-- The invariant holds in every state that a run of such calls reaches. -/
theorem vmmInv_reachable {mem : Mem}
    (run : Relation.ReflTransGen VmmStep (VmmState.initial mem) state) :
    VmmInv state.kernel state.owned := by
  induction run with
  | refl => exact vmmInv_initPaging mem
  | tail _ step ih => exact ih.step step

/-- Calls of clients to the page allocator, and their writes, change no leaf entry. -/
theorem VmmInv.client_leaves (inv : VmmInv state.kernel state.owned) {call : VmmCall}
    (allowed : call.OffLargePages state) (client : call.isClient = true) (virt : Nat) :
    leafOf (call.apply state).kernel.mem virt = leafOf state.kernel.mem virt := by
  -- A client maps nothing, and its other calls spare the tables.
  cases call with
  | map virt phys flags => exact absurd client Bool.false_ne_true
  | unmap virt => exact absurd client Bool.false_ne_true
  | alloc => exact inv.alloc.leaves virt
  | free addr => exact (inv.release allowed).leaves virt
  | write addr value =>
    obtain ⟨a, mine, inside⟩ := allowed
    exact (inv.clientWrite mine inside value).leaves virt

end Steps

end IncroOS
