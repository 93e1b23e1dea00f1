import IncroOS.Memory.Kmalloc
import IncroOS.Memory.PmmAccess
import IncroOS.Proofs.Pmm.Refinement

/-! For which memory sizes the page bitmap stays inside its own memory and off the heap. -/

namespace IncroOS

open Lib

/-- The accesses of one call into the page allocator. -/
def PmmOp.accesses (kernel : Kernel) : PmmOp → List Nat
  | .alloc => pmmAllocAccesses kernel
  | .free addr => pmmFreeAccesses kernel addr.toNat

/-- The addresses at which a list of accesses meets memory. -/
def bitmapBytes (base : Nat) (accesses : List Nat) : Set Nat := {x | ∃ i ∈ accesses, x = base + i}

/-- Every access is inside the bitmap, and the bitmap ends at or before the heap. -/
structure BitmapSafe (kernel : Kernel) (totalMemory : Nat) : Prop where
  init : ∀ i ∈ pmmInitAccesses totalMemory, i < (totalMemory / pageSize + 7) / 8
  calls : ∀ ops op, ∀ i ∈ PmmOp.accesses (runPmm (pmmInit kernel totalMemory) ops) op,
    i < (totalMemory / pageSize + 7) / 8
  below : bitmapAddress + (totalMemory / pageSize + 7) / 8 ≤ heapBase

@[simp] theorem mem_bitmapBytes {base x : Nat} {accesses : List Nat} :
    x ∈ bitmapBytes base accesses ↔ ∃ i ∈ accesses, x = base + i := Iff.rfl

/-- Bitmap bytes of some of the accesses are among those of all. -/
theorem bitmapBytes_mono {base : Nat} {few many : List Nat} (inside : few ⊆ many) :
    bitmapBytes base few ⊆ bitmapBytes base many := by
  rintro x ⟨i, member, rfl⟩
  exact ⟨i, inside member, rfl⟩

section Init

variable {kernel : Kernel} {first count totalMemory : Nat}

/-- The pages of a reservation loop are those of its range. -/
theorem mem_reserveAccesses {i : Nat} :
    i ∈ reserveAccesses first count ↔ ∃ page, first ≤ page ∧ page < first + count ∧ page / 8 = i := by
  rw [reserveAccesses, List.mem_map]
  simp only [List.mem_range'_1, pageToByte, pagesPerByte, and_assoc]

/-- The statics that a loop of `pmm_init` leaves alone, and the bytes it may have written. -/
structure LoopFrame (kernel kernel' : Kernel) (accesses : List Nat) : Prop where
  mem : Mem.ChangesOnly kernel.mem kernel'.mem (bitmapBytes kernel.pageBitmap accesses)
  pageBitmap : kernel'.pageBitmap = kernel.pageBitmap
  totalPages : kernel'.totalPages = kernel.totalPages

/-- Loops that follow each other access what either of them does. -/
theorem LoopFrame.trans {k₁ k₂ k₃ : Kernel} {some more : List Nat} (one : LoopFrame k₁ k₂ some)
    (two : LoopFrame k₂ k₃ more) : LoopFrame k₁ k₃ (some ++ more) where
  mem := by
    have later := two.mem
    rw [one.pageBitmap] at later
    exact (one.mem.mono (bitmapBytes_mono (List.subset_append_left some more))).trans
      (later.mono (bitmapBytes_mono (List.subset_append_right some more)))
  pageBitmap := two.pageBitmap.trans one.pageBitmap
  totalPages := two.totalPages.trans one.totalPages

/-- A loop whose turns each store one byte of the bitmap. -/
theorem loopFrame_of_turns {body : Nat → Kernel → Kernel} {accesses : List Nat}
    (turn : ∀ i s, first ≤ i → i < first + count → ∃ byte used, ∃ at_ ∈ accesses,
      body i s = (s.withMem (s.mem.set (s.pageBitmap + at_) byte)).withUsedPages used) :
    LoopFrame kernel (forLoop body first count kernel) accesses := by
  -- Every turn keeps the frame, which is therefore that of the loop.
  refine forLoop_preserves (fun s => LoopFrame kernel s accesses)
    ⟨Mem.ChangesOnly.refl _ _, rfl, rfl⟩ ?_
  intro i s low high frame
  obtain ⟨byte, used, at_, member, result⟩ := turn i s low high
  rw [result]
  refine ⟨frame.mem.trans ((Mem.set_changes _ _ _).mono ?_), frame.pageBitmap, frame.totalPages⟩
  rintro x rfl
  exact ⟨at_, member, by rw [frame.pageBitmap]⟩

/-- A reservation loop writes the bytes it accesses. -/
theorem reserveLoop_accesses :
    LoopFrame kernel (forLoop reservePage first count kernel) (reserveAccesses first count) := by
  refine loopFrame_of_turns fun page s low high => ?_
  exact ⟨_, _, pageToByte page, mem_reserveAccesses.mpr ⟨page, low, high, rfl⟩, rfl⟩

/-- The zeroing loop writes the bytes of its range. -/
theorem clearLoop_accesses :
    LoopFrame kernel (forLoop clearBitmapByte 0 count kernel) (List.range count) := by
  refine loopFrame_of_turns fun i s _ high => ?_
  exact ⟨_, s.usedPages, i, List.mem_range.mpr (by omega), rfl⟩

/-- Initialisation, at any memory size, writes nothing but the bytes it accesses. -/
theorem pmmInit_accesses :
    LoopFrame (placeBitmap kernel (totalMemory / pageSize)) (pmmInit kernel totalMemory)
      (pmmInitAccesses totalMemory) := by
  unfold pmmInit pmmInitAccesses
  exact ((clearLoop_accesses.trans reserveLoop_accesses).trans reserveLoop_accesses).trans
    reserveLoop_accesses

/-- What `pmm_init` accesses stays inside the bitmap exactly when the bitmap has 48 bytes or more. -/
theorem pmmInitAccesses_bounded (small : totalMemory / pageSize < 2 ^ 52) :
    (∀ i ∈ pmmInitAccesses totalMemory, i < (totalMemory / pageSize + 7) / 8) ↔
      377 ≤ totalMemory / pageSize := by
  simp only [pmmInitAccesses, List.forall_mem_append, List.mem_range, mem_reserveAccesses,
    bitmapSize_eq small, bitmapPages_eq small, reservedLow_eq, kernelPages_eq, bitmapStartPage_eq]
  constructor
  · rintro ⟨⟨-, kernelArea⟩, -⟩
    -- The last page of the kernel area is in the forty-eighth byte.
    have last := kernelArea 47 ⟨383, by omega, by omega, rfl⟩
    omega
  · intro enough
    refine ⟨⟨⟨fun i below => below, ?_⟩, ?_⟩, ?_⟩
    · rintro i ⟨page, -, high, rfl⟩
      omega
    · rintro i ⟨page, -, high, rfl⟩
      omega
    · -- The bitmap has room for its own pages, which are far fewer than its bits.
      rintro i ⟨page, -, high, rfl⟩
      omega

end Init

section Calls

variable {kernel : Kernel} {page count addr i : Nat}

/-- The search accesses bytes of pages in its range. -/
theorem pmmAllocAccessesFrom_bounded (member : i ∈ pmmAllocAccessesFrom kernel page count) :
    i < (page + count + 7) / 8 := by
  -- The induction follows the search.
  induction count generalizing page with
  | zero => simp [pmmAllocAccessesFrom] at member
  | succ count ih =>
    rw [pmmAllocAccessesFrom] at member
    split at member
    · have here : i = page / 8 := by simpa [pageToByte, pagesPerByte] using member
      omega
    · rcases List.mem_cons.mp member with here | later
      · rw [here, pageToByte, pagesPerByte]
        omega
      · have := ih later
        omega

/-- A call accesses bytes of pages below the total. -/
theorem PmmOp.accesses_bounded {op : PmmOp} (member : i ∈ op.accesses kernel) :
    i < (kernel.totalPages + 7) / 8 := by
  cases op with
  -- The search stops at the total.
  | alloc =>
    have := pmmAllocAccessesFrom_bounded member
    rwa [Nat.zero_add] at this
  | free addr =>
    rw [PmmOp.accesses, pmmFreeAccesses] at member
    split at member
    · simp at member
    · -- The page passed the test against the total.
      have here : i = addr.toNat / pageSize / 8 := by
        split at member <;> simpa [pageToByte, pagesPerByte] using member
      omega

/-- The search writes nothing but the bytes it accesses. -/
theorem pmmAllocFrom_accesses :
    Mem.ChangesOnly kernel.mem (pmmAllocFrom kernel page count).1.mem
      (bitmapBytes kernel.pageBitmap (pmmAllocAccessesFrom kernel page count)) := by
  -- The search ends with the page that it marks, or goes on with the next one.
  induction count generalizing page with
  | zero => exact Mem.ChangesOnly.refl _ _
  | succ count ih =>
    rw [pmmAllocFrom, pmmAllocAccessesFrom]
    split
    · refine (Mem.set_changes _ _ _).mono ?_
      rintro x rfl
      exact ⟨pageToByte page, List.mem_cons_self, rfl⟩
    · exact ih.mono (bitmapBytes_mono (List.subset_cons_self _ _))

/-- A call writes nothing but the bytes it accesses. -/
theorem PmmOp.apply_accesses (op : PmmOp) :
    Mem.ChangesOnly kernel.mem (op.apply kernel).mem
      (bitmapBytes kernel.pageBitmap (op.accesses kernel)) := by
  cases op with
  | alloc => exact pmmAllocFrom_accesses
  -- A free writes at most the byte whose bit it has tested.
  | free addr =>
    rw [PmmOp.apply, PmmOp.accesses, pmmFreePage, pmmFreeAccesses]
    split
    · exact Mem.ChangesOnly.refl _ _
    · split
      · refine (Mem.set_changes _ _ _).mono ?_
        rintro x rfl
        exact ⟨_, List.mem_cons_self, rfl⟩
      · exact Mem.ChangesOnly.refl _ _

/-- What the search returns and accesses depends on the bytes it accesses alone. -/
theorem pmmAllocFrom_reads {mem : Mem} (agree : ∀ x ∈ bitmapBytes kernel.pageBitmap
      (pmmAllocAccessesFrom kernel page count), mem x = kernel.mem x) :
    (pmmAllocFrom (kernel.withMem mem) page count).2 = (pmmAllocFrom kernel page count).2 ∧
    pmmAllocAccessesFrom (kernel.withMem mem) page count =
      pmmAllocAccessesFrom kernel page count := by
  induction count generalizing page with
  | zero => exact ⟨rfl, rfl⟩
  | succ count ih =>
    have first : kernel.pageBitmap + pageToByte page ∈ bitmapBytes kernel.pageBitmap
        (pmmAllocAccessesFrom kernel page (count + 1)) := by
      refine ⟨pageToByte page, ?_, rfl⟩
      rw [pmmAllocAccessesFrom]
      split <;> exact List.mem_cons_self
    -- The byte of the page at hand is read the same, so both searches take the same branch.
    have same : isPageAllocated (kernel.withMem mem) page = isPageAllocated kernel page := by
      rw [isPageAllocated, isPageAllocated, Kernel.withMem_mem, Kernel.withMem_pageBitmap,
        agree _ first]
    cases bit : isPageAllocated kernel page with
    | false => simp [pmmAllocFrom, pmmAllocAccessesFrom, same, bit]
    | true =>
      have rest := ih fun x member => agree x (by
        rw [pmmAllocAccessesFrom, bit]
        exact bitmapBytes_mono (List.subset_cons_self _ _) member)
      simp [pmmAllocFrom, pmmAllocAccessesFrom, same, bit, rest.1, rest.2]

end Calls

section Runs

variable {kernel : Kernel} {totalMemory : Nat} {ops : List PmmOp}

/-- No run of calls moves the bitmap. -/
@[simp] theorem runPmm_pageBitmap : (runPmm kernel ops).pageBitmap = kernel.pageBitmap := by
  -- The induction is on the calls, neither of which moves it.
  induction ops generalizing kernel with
  | nil => rfl
  | cons op rest ih =>
    refine (@ih (op.apply kernel)).trans ?_
    cases op with
    | alloc => exact (pmmAllocPage_frame kernel).pageBitmap
    | free addr => exact (pmmFreePage_frame kernel addr.toNat).pageBitmap

/-- After initialisation, at any memory size, the statics are those that it sets. -/
theorem runPmm_statics :
    (runPmm (pmmInit kernel totalMemory) ops).totalPages = totalMemory / pageSize ∧
    (runPmm (pmmInit kernel totalMemory) ops).pageBitmap = bitmapAddress := by
  rw [runPmm_totalPages, runPmm_pageBitmap]
  exact ⟨pmmInit_accesses.totalPages, pmmInit_accesses.pageBitmap⟩

/-- The accesses of every call in every run are inside the bitmap. -/
theorem runPmm_accesses_bounded {op : PmmOp} {i : Nat}
    (member : i ∈ op.accesses (runPmm (pmmInit kernel totalMemory) ops)) :
    i < (totalMemory / pageSize + 7) / 8 := by
  have inside := PmmOp.accesses_bounded member
  rwa [runPmm_statics.1] at inside

/-- The bitmap is safe when the kernel area has its bits and the bitmap fits below the heap. -/
theorem bitmapSafe_iff (bound : totalMemory < 2 ^ 64) :
    BitmapSafe kernel totalMemory ↔ 0x179000 ≤ totalMemory ∧ totalMemory < 0x200001000 := by
  have small : totalMemory / pageSize < 2 ^ 52 := by
    unfold pageSize
    omega
  have fits : bitmapAddress + (totalMemory / pageSize + 7) / 8 ≤ heapBase ↔
      totalMemory < 0x200001000 := by
    unfold bitmapAddress heapBase pageSize
    omega
  have covers : 377 ≤ totalMemory / pageSize ↔ 0x179000 ≤ totalMemory := by
    unfold pageSize
    omega
  -- The initialisation needs the bits of the kernel area, the calls stay below the total.
  constructor
  · rintro ⟨init, -, below⟩
    exact ⟨covers.mp ((pmmInitAccesses_bounded small).mp init), fits.mp below⟩
  · rintro ⟨least, most⟩
    exact ⟨(pmmInitAccesses_bounded small).mpr (covers.mpr least),
      fun _ _ _ member => runPmm_accesses_bounded member, fits.mpr most⟩

/-- What lies at or above the heap's start is reached by no access of a safe bitmap. -/
theorem BitmapSafe.apart (safe : BitmapSafe kernel totalMemory) {accesses : List Nat}
    (inside : ∀ i ∈ accesses, i < (totalMemory / pageSize + 7) / 8) {x : Nat}
    (high : heapBase ≤ x) : x ∉ bitmapBytes bitmapAddress accesses := by
  -- An access goes to a byte of the bitmap, which ends below the heap.
  rintro ⟨i, member, rfl⟩
  have := inside i member
  have := safe.below
  omega

/-- Over a run with a safe bitmap no byte of the heap, or behind it, changes. -/
theorem BitmapSafe.run_mem (safe : BitmapSafe kernel totalMemory) (ops : List PmmOp) {x : Nat}
    (high : heapBase ≤ x) : (runPmm (pmmInit kernel totalMemory) ops).mem x = kernel.mem x := by
  -- The induction takes the last call off the run.
  induction ops using List.reverseRecOn with
  | nil => exact pmmInit_accesses.mem x (safe.apart safe.init high)
  | append_singleton before op ih =>
    have last := @PmmOp.apply_accesses (runPmm (pmmInit kernel totalMemory) before) op
    rw [runPmm_statics.2] at last
    have kept := last x (safe.apart (fun i member => safe.calls before op i member) high)
    rw [runPmm, List.foldl_append, List.foldl_cons, List.foldl_nil]
    exact kept.trans ih

end Runs

/--
The page allocator stays inside its bitmap and off the heap for an exact range of memory sizes.

Below 377 pages the kernel area has bits behind the bitmap, above 2 MiB pages the bitmap meets the heap.
-/
theorem pmm_stays_in_bitmap_iff (kernel : Kernel) (totalMemory : UInt64) :
    (BitmapSafe kernel totalMemory.toNat ↔
      0x179000 ≤ totalMemory.toNat ∧ totalMemory.toNat < 0x200001000) ∧
    (BitmapSafe kernel totalMemory.toNat →
      (∀ i ∈ pmmInitAccesses totalMemory.toNat, bitmapAddress + i < heapBase) ∧
      ∀ ops, let state := runPmm (pmmInit kernel totalMemory.toNat) ops
        (∀ op, ∀ i ∈ PmmOp.accesses state op, state.pageBitmap + i < heapBase) ∧
        ∀ x, heapBase ≤ x → state.mem x = kernel.mem x) := by
  -- The condition comes from the sizes; the rest holds for `pmm_init` and for each later call.
  refine ⟨bitmapSafe_iff totalMemory.toNat_lt, fun safe => ⟨fun i member => ?_, fun ops => ?_⟩⟩
  · have := safe.init i member
    have := safe.below
    omega
  · refine ⟨fun op i member => ?_, fun x high => safe.run_mem ops high⟩
    rw [runPmm_statics.2]
    have := safe.calls ops op i member
    have := safe.below
    omega

/-- At the kernel's own memory size every run keeps off the heap. -/
theorem pmm_stays_in_bitmap_iff_four_gib :
    BitmapSafe (Kernel.zeroed (fun _ => 0) 0x1000) (0x100000000 : UInt64).toNat ∧
    ∀ i ∈ pmmInitAccesses (0x100000000 : UInt64).toNat, bitmapAddress + i < heapBase := by
  obtain ⟨exact_, apart⟩ := pmm_stays_in_bitmap_iff (Kernel.zeroed (fun _ => 0) 0x1000) 0x100000000
  have safe := exact_.mpr (by decide)
  exact ⟨safe, (apart safe).1⟩

/-- One page too few puts a write behind the bitmap, one too many puts a byte of it into the heap. -/
theorem pmm_leaves_bitmap :
    (47 ∈ pmmInitAccesses (0x178000 : UInt64).toNat ∧
      ((0x178000 : UInt64).toNat / pageSize + 7) / 8 = 47 ∧
      ¬ BitmapSafe (Kernel.zeroed (fun _ => 0) 0x1000) (0x178000 : UInt64).toNat) ∧
    0x40000 ∈ pmmInitAccesses (0x200001000 : UInt64).toNat ∧ bitmapAddress + 0x40000 = heapBase ∧
      ¬ BitmapSafe (Kernel.zeroed (fun _ => 0) 0x1000) (0x200001000 : UInt64).toNat := by
  -- The two sizes lie on either side of those that are safe.
  refine ⟨⟨?_, rfl, ?_⟩, ?_, rfl, ?_⟩
  · -- Page 383 is the last of the kernel area.
    have area : 47 ∈ reserveAccesses reservedLow kernelPages :=
      mem_reserveAccesses.mpr ⟨383, by decide, by decide, rfl⟩
    exact List.mem_append_left _ (List.mem_append_right _ area)
  · rw [bitmapSafe_iff (by decide)]
    decide
  · -- The zeroing loop runs over the whole bitmap.
    have zeroed : 0x40000 ∈ List.range (bitmapSize ((0x200001000 : UInt64).toNat / pageSize)) :=
      List.mem_range.mpr (by decide)
    exact List.mem_append_left _ (List.mem_append_left _ (List.mem_append_left _ zeroed))
  · rw [bitmapSafe_iff (by decide)]
    decide

end IncroOS
