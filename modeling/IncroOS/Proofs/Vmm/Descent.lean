import IncroOS.Kernel.System
import IncroOS.Proofs.Vmm.Invariant

/-! `get_or_create_table` follows a link or hangs a fresh table, and nothing else changes. -/

namespace IncroOS

open Lib

section Link

variable {kernel : Kernel} {owned : Finset Nat} {p : List (Fin 512)} {n page : Nat} {mem : Mem}
  {i : Fin 512}

/-- The kernel with a table counted and linked that has been marked and cleared before. -/
def Kernel.linked (kernel : Kernel) (mem : Mem) (count n : Nat) (i : Fin 512) (page : Nat) : Kernel :=
  ((kernel.withMem mem).withUsedPages count).withMem (setPte mem n i (page * pageSize + 3))

/-- Where a fresh table is to be hung: in a vacant entry of a table above the page tables. -/
structure VacantAt (kernel : Kernel) (p : List (Fin 512)) (n : Nat) (i : Fin 512) : Prop where
  short : p.length < 3
  outside : p ≠ [0, 0]
  parent : tableAt kernel.mem p = some n
  vacant : isPresent (slot kernel.mem n i) = false

/-- The path through a vacant entry is as long as a path to a table may be. -/
theorem VacantAt.length (place : VacantAt kernel p n i) : (p ++ [i]).length ≤ 3 := by
  have short := place.short
  rw [List.length_append, List.length_singleton]
  omega

/-- The path through a vacant entry leads nowhere. -/
theorem VacantAt.broken (place : VacantAt kernel p n i) : tableAt kernel.mem (p ++ [i]) = none := by
  have here : Radix.descend linkOf (slot kernel.mem) bootCr3 p = some n := place.parent
  rw [tableAt, Radix.descend_snoc, here, Option.bind_some, linkOf_absent place.vacant]

/-- Linking writes one entry, and clearing one page that was no table: the others keep theirs. -/
theorem FreshTable.kept (count : Nat) (inv : VmmInv kernel owned) (place : VacantAt kernel p n i)
    (fresh : FreshTable kernel page mem) (q : List (Fin 512)) (x : Nat) (j : Fin 512)
    (short : q.length ≤ 3) (met : tableAt kernel.mem q = some x) (elsewhere : x ≠ n ∨ j ≠ i) :
    slot (kernel.linked mem count n i page).mem x j = slot kernel.mem x j := by
  have below := fresh.below
  have aligned : page * pageSize % pageSize = 0 := Nat.mul_mod_left page pageSize
  have other : x ≠ page * pageSize := fun same => (inv.free_page fresh.free).2 q short (same ▸ met)
  -- The mark lies in the bitmap, which is apart from every table.
  have inBitmap : {kernel.pageBitmap + pageToByte page} ⊆ bitmapSpan kernel := by
    rintro x rfl
    simp only [bitmapSpan, pageToByte, pagesPerByte, Set.mem_Ico]
    omega
  have wide := fresh.changes.mono (Set.union_subset_union_left (pageSpan (page * pageSize)) inBitmap)
  rw [← inv.slot_congr aligned wide short met other j]
  refine pte_setPte_other (page * pageSize + 3)
    (inv.table_aligned (Nat.le_of_lt place.short) place.parent) (inv.table_aligned short met)
    i.isLt j.isLt ?_
  rcases elsewhere with table | index
  · exact .inl table
  · exact .inr fun same => index (Fin.ext same)

/-- The linked table has no entry yet. -/
theorem FreshTable.blank (count : Nat) (inv : VmmInv kernel owned) (place : VacantAt kernel p n i)
    (fresh : FreshTable kernel page mem) (j : Fin 512) :
    slot (kernel.linked mem count n i page).mem (page * pageSize) j = 0 := by
  -- The page was zeroed, and the entry that links it lies in its parent, another page.
  have parentOther : n ≠ page * pageSize := fun same =>
    (inv.free_page fresh.free).2 p (Nat.le_of_lt place.short) (same ▸ place.parent)
  rw [← fresh.zeros j j.isLt]
  exact pte_setPte_other _ (inv.table_aligned (Nat.le_of_lt place.short) place.parent)
    (Nat.mul_mod_left page pageSize) i.isLt j.isLt (.inl (Ne.symm parentOther))

/-- What linking makes of the tree: one path more, and every leaf as before. -/
structure LinksTable (kernel kernel' : Kernel) (p : List (Fin 512)) (i : Fin 512) (t : Nat) : Prop where
  tree : PageTree kernel'.mem
  paths : ∀ q, q.length ≤ 3 →
    tableAt kernel'.mem q = if q = p ++ [i] then some t else tableAt kernel.mem q
  leaves : ∀ q j, q.length = 3 → leafAt kernel'.mem q j = leafAt kernel.mem q j
  extension : Extends kernel.mem kernel'.mem [t]

/-- A fresh table that is hung into a vacant entry joins the tree. -/
theorem FreshTable.links (count : Nat) (inv : VmmInv kernel owned) (place : VacantAt kernel p n i)
    (fresh : FreshTable kernel page mem) :
    LinksTable kernel (kernel.linked mem count n i page) p i (page * pageSize) := by
  -- The page was free, so it was no table, and the vacant entry led nowhere.
  have below := fresh.below
  have total := inv.totalPages
  have bound : page * pageSize < 2 ^ 52 := by
    simp only [pageSize]
    omega
  have hung : slot (kernel.linked mem count n i page).mem n i = page * pageSize + 3 :=
    pte_setPte mem n i _ (by omega)
  have blank := fresh.blank count inv place
  have kept := fresh.kept count inv place
  obtain ⟨tree, paths, leaves⟩ := inv.tree.attach place.short place.outside place.parent place.vacant
    (inv.free_page fresh.free).2 (Nat.mul_mod_left page pageSize) bound hung blank kept
  exact ⟨tree, paths, leaves, .of_hung place.short place.parent place.vacant hung blank kept paths⟩

section Links

variable {kernel' : Kernel} {t : Nat} (links : LinksTable kernel kernel' p i t)
include links

/-- The new table is met on its path. -/
theorem LinksTable.met (place : VacantAt kernel p n i) : tableAt kernel'.mem (p ++ [i]) = some t := by
  rw [links.paths _ place.length, if_pos rfl]

/-- The old tables stay on their paths, since the new path led nowhere before. -/
theorem LinksTable.stays (place : VacantAt kernel p n i) {q : List (Fin 512)} {x : Nat}
    (short : q.length ≤ 3) (met : tableAt kernel.mem q = some x) : tableAt kernel'.mem q = some x := by
  -- A path that led to a table is not the new one.
  have other : q ≠ p ++ [i] := by
    rintro rfl
    rw [place.broken] at met
    exact absurd met.symm (Option.some_ne_none x)
  rw [links.paths q short, if_neg other, met]

end Links

/-- Linking marks one page more. -/
theorem FreshTable.bits (count : Nat) (inv : VmmInv kernel owned) (place : VacantAt kernel p n i)
    (fresh : FreshTable kernel page mem) (q : Nat) (below : q < kernel.totalPages) :
    isPageAllocated (kernel.linked mem count n i page) q =
      (decide (q = page) || isPageAllocated kernel q) := by
  -- The entry that is written is apart from the bitmap.
  have short := Nat.le_of_lt place.short
  have write : Mem.ChangesOnly ((kernel.withMem mem).withUsedPages count).mem
      (kernel.linked mem count n i page).mem (pageSpan n) := setPte_changes mem n i _ i.isLt
  have same := isPageAllocated_congr write (inv.bitmap_apart (inv.table_aligned short place.parent)
    (inv.tables p n short place.parent).apart) below
  rw [isPageAllocated_withUsedPages, fresh.marks q below] at same
  exact same

/-- The invariant holds of the tree with its new table. -/
theorem FreshTable.inv (count : Nat) (inv : VmmInv kernel owned) (place : VacantAt kernel p n i)
    (fresh : FreshTable kernel page mem) : VmmInv (kernel.linked mem count n i page) owned := by
  have total := inv.totalPages
  have beyond := (inv.free_page fresh.free).1
  have quotient : page * pageSize / pageSize = page := Nat.mul_div_cancel page (by decide)
  have links := fresh.links count inv place
  have bits := fresh.bits count inv place
  have more : ∀ q < kernel.totalPages, isPageAllocated kernel q = true →
      isPageAllocated (kernel.linked mem count n i page) q = true := by
    intro q inside set
    rw [bits q inside, set, Bool.or_true]
  refine ⟨inv.cr3, inv.pml4, inv.pageBitmap, inv.totalPages, ?_, links.tree, ?_, ?_⟩
  · exact fun q low => more q (by omega) (inv.reserved q low)
  · intro q t short met
    rw [links.paths q short] at met
    split at met
    · -- The new table's page has just been marked.
      rw [← Option.some.inj met]
      refine ⟨by omega, by rw [quotient]; exact fresh.below, ?_, .inr (by omega)⟩
      rw [quotient, bits page fresh.below, decide_eq_true rfl, Bool.true_or]
    · have old := inv.tables q t short met
      exact ⟨old.positive, old.below, more _ old.below old.allocated, old.apart⟩
  · intro a member
    have old := inv.owned a member
    refine ⟨old.aligned, old.below, more _ old.below old.allocated, old.beyond, fun q short met => ?_⟩
    rw [links.paths q short] at met
    split at met
    · -- An owned page was allocated before, so it is not the fresh one.
      have marked := old.allocated
      rw [← Option.some.inj met, quotient] at marked
      exact absurd (marked.symm.trans fresh.free) (by decide)
    · exact old.unlinked q short met

/-- All that linking writes lies in the new table, in its parent or in the byte of its mark. -/
theorem FreshTable.grows (count : Nat) (inv : VmmInv kernel owned) (place : VacantAt kernel p n i)
    (fresh : FreshTable kernel page mem) : Grows kernel (kernel.linked mem count n i page) := by
  -- First the page is marked and zeroed, then the entry of the parent is written.
  have links := fresh.links count inv place
  have self := links.met place
  have quotient : page * pageSize / pageSize = page := Nat.mul_div_cancel page (by decide)
  have entry : Mem.ChangesOnly mem (kernel.linked mem count n i page).mem (pageSpan n) :=
    setPte_changes mem n i _ i.isLt
  refine ⟨fun q t short => links.stays place short, links.leaves, ?_, rfl⟩
  refine (fresh.changes.mono ?_).trans (entry.mono ?_)
  · rintro x (mark | inside)
    · refine ⟨p ++ [i], page * pageSize, place.length, self, .inr ?_⟩
      rw [quotient]
      exact mark
    · exact ⟨p ++ [i], page * pageSize, place.length, self, .inl inside⟩
  · intro x inside
    have short := Nat.le_of_lt place.short
    exact ⟨p, n, short, links.stays place short place.parent, .inl inside⟩

/-- A step down the tree found or made a table, or there was no page left for one. -/
def Descends (kernel : Kernel) (owned : Finset Nat) (path : List (Fin 512)) (result : Kernel × Nat) :
    Prop :=
  result = (kernel, 0) ∨
    (result.2 ≠ 0 ∧ VmmInv result.1 owned ∧ tableAt result.1.mem path = some result.2 ∧
      Grows kernel result.1)

/-- A vacant entry takes the pool's next page for a blank table, and a present one takes none. -/
structure Charges (kernel : Kernel) (p : List (Fin 512)) (n : Nat) (i : Fin 512)
    (result : Kernel × Nat) : Prop where
  tree : Extends kernel.mem result.1.mem (getOrCreatePages kernel n i)
  found : isPresent (pte kernel.mem n i) = true →
    result = (kernel, pte kernel.mem n i &&& ptAddrMask) ∧ result.2 ≠ 0
  pages : isPresent (pte kernel.mem n i) = false →
    getOrCreatePages kernel n i = (pagePool kernel).take.2.toList.map (· * pageSize)
  pool : isPresent (pte kernel.mem n i) = false → pagePool result.1 = (pagePool kernel).take.1
  table : isPresent (pte kernel.mem n i) = false →
    result.2 = ((pagePool kernel).take.2.map (· * pageSize)).getD 0
  blank : isPresent (pte kernel.mem n i) = false → result.2 ≠ 0 → ∀ j, slot result.1.mem result.2 j = 0
  paths : isPresent (pte kernel.mem n i) = false → result.2 ≠ 0 → ∀ q, q.length ≤ 3 →
    tableAt result.1.mem q = if q = p ++ [i] then some result.2 else tableAt kernel.mem q

/-- The entry of a table that is present is followed. -/
theorem getOrCreateTable_found (inv : VmmInv kernel owned) (i : Fin 512) (short : p.length < 3)
    (outside : p ≠ [0, 0]) (parent : tableAt kernel.mem p = some n)
    (present : isPresent (pte kernel.mem n i) = true) :
    Descends kernel owned (p ++ [i]) (getOrCreateTable kernel n i ptWritable) ∧
    Charges kernel p n i (getOrCreateTable kernel n i ptWritable) := by
  have entry : slot kernel.mem n i = pte kernel.mem n i := rfl
  have result : getOrCreateTable kernel n i ptWritable =
      (kernel, pte kernel.mem n i &&& ptAddrMask) := by
    rw [getOrCreateTable, if_pos present]
  have sizeBit := inv.tree.small p n i (by omega) outside parent
    (by rw [entry, ← isPresent_eq, present])
  -- Apart from the page directory's, a present entry is a link of the tree.
  have linked : tableAt kernel.mem (p ++ [i]) = some (pte kernel.mem n i &&& ptAddrMask) := by
    have step := Radix.descend_snoc linkOf (slot kernel.mem) bootCr3 p i
    have here : Radix.descend linkOf (slot kernel.mem) bootCr3 p = some n := parent
    rw [here, Option.bind_some, entry, linkOf_present present sizeBit] at step
    exact step
  have table := inv.tables (p ++ [i]) _
    (by simp only [List.length_append, List.length_singleton]; omega) linked
  have vacant : ∀ {P : Prop}, isPresent (pte kernel.mem n i) = false → P := fun absent =>
    absurd (present.symm.trans absent) (by decide)
  -- Tables lie above page zero, so the frame is not taken for a failure.
  have nonnull : pte kernel.mem n i &&& ptAddrMask ≠ 0 := by
    intro zero
    have positive := table.positive
    rw [zero] at positive
    exact absurd positive (by decide)
  rw [result]
  refine ⟨.inr ⟨nonnull, inv, linked, Grows.refl kernel⟩,
    ⟨?_, fun _ => ⟨rfl, nonnull⟩, vacant, vacant, vacant, vacant, vacant⟩⟩
  rw [getOrCreatePages, if_pos present]
  exact Extends.refl kernel.mem

/-- An entry that is vacant gets a fresh table, if the pool has a page left. -/
theorem getOrCreateTable_vacant (inv : VmmInv kernel owned) (i : Fin 512) (short : p.length < 3)
    (outside : p ≠ [0, 0]) (parent : tableAt kernel.mem p = some n)
    (absent : isPresent (pte kernel.mem n i) = false) :
    Descends kernel owned (p ++ [i]) (getOrCreateTable kernel n i ptWritable) ∧
    Charges kernel p n i (getOrCreateTable kernel n i ptWritable) := by
  have present : ∀ {P : Prop}, isPresent (pte kernel.mem n i) = true → P := fun present =>
    absurd (present.symm.trans absent) (by decide)
  obtain ⟨empty, exhausted, failed⟩ | ⟨page, below, mem, fresh, hands, taken, result⟩ :=
    allocPageTable_cases inv
  · -- The pool is exhausted, so it hands out nothing and stays as it is.
    have same : getOrCreateTable kernel n i ptWritable = (kernel, 0) := by
      simp [getOrCreateTable, absent, failed]
    have pages : getOrCreatePages kernel n i = [] := by
      simp [getOrCreatePages, absent, exhausted]
    rw [same]
    refine ⟨.inl rfl, ⟨?_, present, fun _ => ?_, fun _ => ?_, fun _ => ?_, fun _ null => ?_,
      fun _ null => ?_⟩⟩
    · rw [pages]
      exact Extends.refl kernel.mem
    · rw [pages, empty]
      rfl
    · rw [empty]
    · rw [empty]
      rfl
    · exact absurd rfl null
    · exact absurd rfl null
  · -- A page that the pool has left is cleared and linked.
    have beyond := (inv.free_page fresh.free).1
    have nonnull : page * pageSize ≠ 0 := by
      simp only [pageSize]
      omega
    have aligned : page * pageSize % 4096 = 0 := Nat.mul_mod_left page pageSize
    have created : getOrCreateTable kernel n i ptWritable =
        (kernel.linked mem (u64 (kernel.usedPages + 1)) n i page, page * pageSize) := by
      rw [getOrCreateTable, if_neg (by simp [absent]), result]
      simp only [if_neg nonnull, linkEntry_eq aligned]
      rfl
    have pages : getOrCreatePages kernel n i = [page * pageSize] := by
      simp [getOrCreatePages, absent, taken, nonnull]
    have place : VacantAt kernel p n i := ⟨short, outside, parent, absent⟩
    have links := fresh.links (u64 (kernel.usedPages + 1)) inv place
    rw [created]
    refine ⟨.inr ⟨nonnull, fresh.inv _ inv place, links.met place, fresh.grows _ inv place⟩,
      ⟨by rw [pages]; exact links.extension, present, fun _ => ?_, fun _ => ?_, fun _ => ?_,
        fun _ _ => fresh.blank _ inv place, fun _ _ => links.paths⟩⟩
    · rw [pages, hands]
      rfl
    · -- The marks gain exactly the page that the pool hands out.
      rw [hands]
      exact pagePool_marked below rfl (fresh.bits _ inv place)
    · rw [hands]
      rfl

/--
The table behind an entry is followed, or a fresh one is linked, or no page was left.

The loader's page directory is excluded: its entries are not links.
-/
theorem getOrCreateTable_spec (inv : VmmInv kernel owned) (i : Fin 512) (short : p.length < 3)
    (outside : p ≠ [0, 0]) (parent : tableAt kernel.mem p = some n) :
    Descends kernel owned (p ++ [i]) (getOrCreateTable kernel n i ptWritable) ∧
    Charges kernel p n i (getOrCreateTable kernel n i ptWritable) := by
  cases present : isPresent (pte kernel.mem n i) with
  | true => exact getOrCreateTable_found inv i short outside parent present
  | false => exact getOrCreateTable_vacant inv i short outside parent present

end Link

end IncroOS
