import IncroOS.Lib.Radix
import IncroOS.Proofs.Vmm.Entries

/-! The page tables as a radix tree below the loader's top-level table. -/

namespace IncroOS

open Lib

/-- One entry of a table. -/
def slot (mem : Mem) (table : Nat) (i : Fin 512) : Nat := pte mem table i

/-- The table that an entry links, when it is present and does not map a large page. -/
def linkOf (entry : Nat) : Option Nat :=
  if entry.testBit 0 && !entry.testBit 7 then some (frameOf entry) else none

/-- The table at the end of a path from the top-level table. -/
def tableAt (mem : Mem) (path : List (Fin 512)) : Option Nat :=
  Radix.descend linkOf (slot mem) bootCr3 path

/-- The entry of a page table at the end of a path, or zero where the path breaks off. -/
def leafAt (mem : Mem) (path : List (Fin 512)) (i : Fin 512) : Nat :=
  Radix.lookup linkOf 0 (slot mem) bootCr3 path i

/-- The paths on which the tree has a table. -/
def tablePaths (mem : Mem) (path : List (Fin 512)) : Bool :=
  decide (path.length ≤ 3) && (tableAt mem path).isSome

/-- The addresses of the tables in the tree. -/
def tableSet (mem : Mem) : Set Nat :=
  {t | ∃ path, path.length ≤ 3 ∧ tableAt mem path = some t}

/-- The tree gains the listed tables by links to them, and no other link changes. -/
structure Extends (mem mem' : Mem) (pages : List Nat) : Prop where
  tables : ∀ t, t ∈ tableSet mem' ↔ t ∈ tableSet mem ∨ t ∈ pages
  inner : ∀ path t i, path.length ≤ 2 → path ≠ [0, 0] → tableAt mem' path = some t →
    isPresent (slot mem' t i) = true →
    (tableAt mem path = some t ∧ slot mem' t i = slot mem t i) ∨
      ∃ page ∈ pages, slot mem' t i = page + 3

/--
The tables form a tree that extends the loader's identity map.

Only the loader's page directory holds large pages.
-/
structure PageTree (mem : Mem) : Prop where
  unshared : Radix.Unshared linkOf (slot mem) bootCr3 3
  aligned : ∀ path t, path.length ≤ 3 → tableAt mem path = some t → t % 4096 = 0
  small : ∀ path t i, path.length ≤ 2 → path ≠ [0, 0] → tableAt mem path = some t →
    (slot mem t i).testBit 0 = true → (slot mem t i).testBit 7 = false
  legal : ∀ path t i, path.length ≤ 2 → path ≠ [0, 0] → tableAt mem path = some t →
    (slot mem t i).testBit 0 = true → isReserved (slot mem t i) = false
  bootPml4 : slot mem 0x1000 0 = 0x2003
  bootPdpt : slot mem 0x2000 0 = 0x3003
  bootPd : ∀ k : Fin 512, slot mem 0x3000 k = k * 0x200000 + 0x83

theorem linkOf_zero : linkOf 0 = none := rfl

/-- An entry that is not present links nothing. -/
theorem linkOf_absent {entry : Nat} (absent : isPresent entry = false) : linkOf entry = none := by
  rw [isPresent_eq] at absent
  simp [linkOf, absent]

/-- A present entry without the size bit links the table in its address field. -/
theorem linkOf_present {entry : Nat} (present : isPresent entry = true)
    (small : entry.testBit 7 = false) : linkOf entry = some (entry &&& ptAddrMask) := by
  rw [isPresent_eq] at present
  rw [and_ptAddrMask]
  simp [linkOf, present, small]

/-- The entry that links a fresh table links exactly that table. -/
theorem linkEntry_fields {table : Nat} (aligned : table % 4096 = 0) (bound : table < 2 ^ 52) :
    (table + 3).testBit 7 = false ∧ linkOf (table + 3) = some table ∧
      isReserved (table + 3) = false := by
  -- The low twelve bits of the entry are the two flags.
  have low : (table + 3) % 2 ^ 12 = 3 := by omega
  have bits : ∀ i, i < 12 → (table + 3).testBit i = (3 : Nat).testBit i := by
    intro i within
    have cut := Nat.testBit_mod_two_pow (table + 3) 12 i
    rw [low, decide_eq_true within, Bool.true_and] at cut
    exact cut.symm
  have present : (table + 3).testBit 0 = true := bits 0 (by decide)
  have small : (table + 3).testBit 7 = false := bits 7 (by decide)
  have frame : frameOf (table + 3) = table := by
    unfold frameOf
    omega
  refine ⟨small, by simp [linkOf, present, small, frame], ?_⟩
  exact Nat.testBit_lt_two_pow (by omega)

section Paths

variable {mem mem' : Mem} {p q : List (Fin 512)} {t : Nat}

/-- A table that is met is on a path. -/
theorem tablePaths_met (short : p.length ≤ 3) (met : tableAt mem p = some t) :
    tablePaths mem p = true := by
  rw [tablePaths, met, decide_eq_true short]
  rfl

/-- Beyond a path that breaks off there is no table. -/
theorem tablePaths_broken (broken : tableAt mem p = none) : tablePaths mem (p ++ q) = false := by
  -- The descent stops where the path breaks off.
  have breaks : Radix.descend linkOf (slot mem) bootCr3 p = none := broken
  have onward : tableAt mem (p ++ q) = none := by
    rw [tableAt, Radix.descend_append, breaks, Option.bind_none]
  rw [tablePaths, onward, Option.isSome_none, Bool.and_false]

/-- The same paths lead to tables where every path leads to the same table. -/
theorem tablePaths_congr
    (same : ∀ path, path.length ≤ 3 → tableAt mem' path = tableAt mem path) :
    tablePaths mem' = tablePaths mem := by
  -- Longer paths than three lead to no table on either side.
  funext path
  by_cases short : path.length ≤ 3
  · rw [tablePaths, tablePaths, same path short]
  · rw [tablePaths, tablePaths, decide_eq_false short, Bool.false_and, Bool.false_and]

end Paths

section Extends

variable {mem mem' : Mem} {pages : List Nat}

/-- A change that spares the paths and the inner tables adds nothing. -/
theorem Extends.of_same
    (same : ∀ path, path.length ≤ 3 → tableAt mem' path = tableAt mem path)
    (kept : ∀ path t i, path.length ≤ 2 → tableAt mem path = some t →
      slot mem' t i = slot mem t i) : Extends mem mem' [] := by
  -- The tables are those of before, so every link between them is an old one.
  refine ⟨fun t => ?_, fun path t i short _ met _ => .inl ?_⟩
  · simp only [List.not_mem_nil, or_false]
    exact exists_congr fun path => and_congr_right fun short => by rw [same path short]
  · have old := same path (by omega) ▸ met
    exact ⟨old, kept path t i short old⟩

theorem Extends.refl (mem : Mem) : Extends mem mem [] :=
  .of_same (fun _ _ => rfl) fun _ _ _ _ _ => rfl

/-- Two changes in a row add the tables of both. -/
theorem Extends.trans {mem'' : Mem} {more : List Nat} (first : Extends mem mem' pages)
    (second : Extends mem' mem'' more) : Extends mem mem'' (pages ++ more) := by
  -- A table is an old one or comes from one of the two lists.
  refine ⟨fun t => ?_, fun path t i short outside met present => ?_⟩
  · rw [second.tables, first.tables, List.mem_append, or_assoc]
  · -- An entry that the second change kept is as the first change left it.
    rcases second.inner path t i short outside met present with ⟨old, same⟩ | ⟨page, member, new⟩
    · rw [same] at present ⊢
      rcases first.inner path t i short outside old present with kept | ⟨page, member, new⟩
      · exact .inl kept
      · exact .inr ⟨page, List.mem_append_left more member, new⟩
    · exact .inr ⟨page, List.mem_append_right pages member, new⟩

/-- A table hung into a vacant entry is what the tree gains. -/
theorem Extends.of_hung {p : List (Fin 512)} {i : Fin 512} {n m : Nat} (short : p.length < 3)
    (parent : tableAt mem p = some n) (vacant : isPresent (slot mem n i) = false)
    (hung : slot mem' n i = m + 3) (blank : ∀ j, slot mem' m j = 0)
    (kept : ∀ q x j, q.length ≤ 3 → tableAt mem q = some x → (x ≠ n ∨ j ≠ i) →
      slot mem' x j = slot mem x j)
    (paths : ∀ q, q.length ≤ 3 →
      tableAt mem' q = if q = p ++ [i] then some m else tableAt mem q) :
    Extends mem mem' [m] := by
  have length : (p ++ [i]).length ≤ 3 := by
    rw [List.length_append, List.length_singleton]
    omega
  -- The new path led nowhere before.
  have broken : tableAt mem (p ++ [i]) = none := by
    have step := Radix.descend_snoc linkOf (slot mem) bootCr3 p i
    have here : Radix.descend linkOf (slot mem) bootCr3 p = some n := parent
    rw [here, Option.bind_some, linkOf_absent vacant] at step
    exact step
  refine ⟨fun t => ?_, fun path t j shortPath _ met present => ?_⟩
  · rw [List.mem_singleton]
    constructor
    · rintro ⟨path, shortPath, met⟩
      rw [paths path shortPath] at met
      split at met
      · exact .inr (Option.some.inj met).symm
      · exact .inl ⟨path, shortPath, met⟩
    · rintro (⟨path, shortPath, met⟩ | rfl)
      · refine ⟨path, shortPath, ?_⟩
        rw [paths path shortPath, if_neg fun new => ?_, met]
        rw [new, broken] at met
        exact absurd met (by simp)
      · exact ⟨p ++ [i], length, by rw [paths _ length, if_pos rfl]⟩
  · rw [paths path (by omega)] at met
    split at met
    · -- The new table itself holds nothing that is present.
      rw [← Option.some.inj met, blank] at present
      exact absurd present (by decide)
    · by_cases here : t = n ∧ j = i
      · exact .inr ⟨m, List.mem_singleton_self m, by rw [here.1, here.2, hung]⟩
      · refine .inl ⟨met, kept path t j (by omega) met ?_⟩
        by_contra both
        push Not at both
        exact here both

end Extends

section PageTree

variable {mem mem' : Mem} (tree : PageTree mem)
include tree

/-- The loader's three tables are where it put them. -/
theorem PageTree.bootTables :
    tableAt mem [] = some 0x1000 ∧ tableAt mem [0] = some 0x2000 ∧
      tableAt mem [0, 0] = some 0x3000 := by
  -- The two links are followed from the root.
  have first : linkOf 0x2003 = some 0x2000 := by decide
  have second : linkOf 0x3003 = some 0x3000 := by decide
  have root : bootCr3 = 0x1000 := rfl
  refine ⟨rfl, ?_, ?_⟩
  · simp only [tableAt, Radix.descend, root, tree.bootPml4, first, Option.bind_some]
  · simp only [tableAt, Radix.descend, root, tree.bootPml4, first, tree.bootPdpt, second,
      Option.bind_some]

/-- A change that leaves every entry of every table alone leaves the tree alone. -/
theorem PageTree.congr (agree : ∀ path t i, path.length ≤ 3 → tableAt mem path = some t →
      slot mem' t i = slot mem t i) :
    PageTree mem' ∧ (∀ path, path.length ≤ 3 → tableAt mem' path = tableAt mem path) ∧
      ∀ path i, path.length = 3 → leafAt mem' path i = leafAt mem path i := by
  have same : ∀ path, path.length ≤ 3 → tableAt mem' path = tableAt mem path := fun path short =>
    Radix.descend_congr (fun p n i inner met => agree p n i (by omega) met) short
  -- The paths are the same, so the conditions on the entries carry over.
  obtain ⟨root, first, second⟩ := tree.bootTables
  refine ⟨⟨tree.unshared.congr same, ?_, ?_, ?_, ?_, ?_, ?_⟩, same, ?_⟩
  · intro path t short met
    exact tree.aligned path t short (same path short ▸ met)
  · intro path t i short other met
    have old := same path (by omega) ▸ met
    rw [agree path t i (by omega) old]
    exact tree.small path t i short other old
  · intro path t i short other met
    have old := same path (by omega) ▸ met
    rw [agree path t i (by omega) old]
    exact tree.legal path t i short other old
  · rw [agree [] 0x1000 0 (by decide) root, tree.bootPml4]
  · rw [agree [0] 0x2000 0 (by decide) first, tree.bootPdpt]
  · intro k
    rw [agree [0, 0] 0x3000 k (by decide) second, tree.bootPd]
  · intro path i full
    have sameHere : Radix.descend linkOf (slot mem') bootCr3 path =
        Radix.descend linkOf (slot mem) bootCr3 path := same path (by omega)
    rw [leafAt, leafAt, Radix.lookup, Radix.lookup, sameHere]
    cases met : Radix.descend linkOf (slot mem) bootCr3 path with
    | none => rw [Option.map_none, Option.map_none]
    | some t => rw [Option.map_some, Option.map_some, agree path t i (by omega) met]

/-- Hanging an empty table into a vacant entry extends the tree by that table. -/
theorem PageTree.attach {p : List (Fin 512)} {i : Fin 512} {n m : Nat} (short : p.length < 3)
    (outside : p ≠ [0, 0]) (parent : tableAt mem p = some n)
    (vacant : isPresent (slot mem n i) = false)
    (fresh : ∀ q, q.length ≤ 3 → tableAt mem q ≠ some m) (aligned : m % 4096 = 0)
    (bound : m < 2 ^ 52) (hung : slot mem' n i = m + 3) (blank : ∀ j, slot mem' m j = 0)
    (kept : ∀ q x j, q.length ≤ 3 → tableAt mem q = some x → (x ≠ n ∨ j ≠ i) →
      slot mem' x j = slot mem x j) :
    PageTree mem' ∧
      (∀ q, q.length ≤ 3 → tableAt mem' q = if q = p ++ [i] then some m else tableAt mem q) ∧
      ∀ q j, q.length = 3 → leafAt mem' q j = leafAt mem q j := by
  obtain ⟨sizeBit, link, clean⟩ := linkEntry_fields aligned bound
  have attached : Radix.Attached linkOf 0 (slot mem) (slot mem') bootCr3 3 p i n m :=
    ⟨short, parent, linkOf_absent vacant, fresh, hung ▸ link, blank, kept⟩
  have paths : ∀ q, q.length ≤ 3 →
      tableAt mem' q = if q = p ++ [i] then some m else tableAt mem q :=
    fun q short => attached.descend_eq tree.unshared linkOf_zero short
  obtain ⟨root, first, second⟩ := tree.bootTables
  -- The loader's entries are present, so none of them is the vacant one.
  have busy : ∀ x j, isPresent (slot mem x j) = true → x ≠ n ∨ j ≠ i := by
    intro x j present
    by_contra both
    push Not at both
    obtain ⟨rfl, rfl⟩ := both
    exact absurd (present.symm.trans vacant) (by decide)
  -- A present entry is the new link, or one that the tree had before.
  have entries : ∀ q t j, q.length ≤ 2 → tableAt mem' q = some t →
      (slot mem' t j).testBit 0 = true →
      slot mem' t j = m + 3 ∨ tableAt mem q = some t ∧ slot mem' t j = slot mem t j := by
    intro q t j shortQ met present
    rw [paths q (by omega)] at met
    split at met
    · -- The new table holds no entry at all.
      rw [← Option.some.inj met, blank] at present
      exact absurd present (by decide)
    · by_cases changed : t = n ∧ j = i
      · exact .inl (by rw [changed.1, changed.2, hung])
      · refine .inr ⟨met, kept q t j (by omega) met ?_⟩
        by_contra both
        push Not at both
        exact changed both
  refine ⟨⟨attached.unshared tree.unshared linkOf_zero, ?_, ?_, ?_, ?_, ?_, ?_⟩, paths,
    fun q j full => attached.lookup_eq tree.unshared linkOf_zero full j⟩
  · intro q t shortQ met
    rw [paths q shortQ] at met
    split at met
    · rw [← Option.some.inj met]
      exact aligned
    · exact tree.aligned q t shortQ met
  · intro q t j shortQ other met present
    rcases entries q t j shortQ met present with new | ⟨old, same⟩
    · rw [new]
      exact sizeBit
    · rw [same] at present ⊢
      exact tree.small q t j shortQ other old present
  · intro q t j shortQ other met present
    rcases entries q t j shortQ met present with new | ⟨old, same⟩
    · rw [new]
      exact clean
    · rw [same] at present ⊢
      exact tree.legal q t j shortQ other old present
  · have present : isPresent (slot mem 0x1000 0) = true := by
      rw [tree.bootPml4]
      decide
    rw [kept [] 0x1000 0 (by decide) root (busy _ _ present), tree.bootPml4]
  · have present : isPresent (slot mem 0x2000 0) = true := by
      rw [tree.bootPdpt]
      decide
    rw [kept [0] 0x2000 0 (by decide) first (busy _ _ present), tree.bootPdpt]
  · intro k
    have elsewhere : 0x3000 ≠ n := by
      rintro rfl
      exact outside (tree.unshared p [0, 0] 0x3000 (by omega) (by decide) parent second)
    rw [kept [0, 0] 0x3000 k (by decide) second (.inl elsewhere), tree.bootPd]

/-- Tables higher up in the tree keep all their entries when a page table is written to. -/
theorem PageTree.inner_kept {p : List (Fin 512)} {i : Fin 512} {n : Nat} (full : p.length = 3)
    (leaf : tableAt mem p = some n)
    (kept : ∀ q x j, q.length ≤ 3 → tableAt mem q = some x → (x ≠ n ∨ j ≠ i) →
      slot mem' x j = slot mem x j) (q : List (Fin 512)) (x : Nat) (j : Fin 512)
    (short : q.length ≤ 2) (met : tableAt mem q = some x) : slot mem' x j = slot mem x j := by
  -- A table has one path only, so a table higher up is another page.
  refine kept q x j (by omega) met (.inl ?_)
  rintro rfl
  have same := tree.unshared q p x (by omega) (by omega) met leaf
  rw [same] at short
  omega

/-- Assigning an entry of a page table changes that one leaf. -/
theorem PageTree.assign {p : List (Fin 512)} {i : Fin 512} {n value : Nat} (full : p.length = 3)
    (leaf : tableAt mem p = some n) (given : slot mem' n i = value)
    (kept : ∀ q x j, q.length ≤ 3 → tableAt mem q = some x → (x ≠ n ∨ j ≠ i) →
      slot mem' x j = slot mem x j) :
    PageTree mem' ∧ (∀ q, q.length ≤ 3 → tableAt mem' q = tableAt mem q) ∧
      ∀ q j, q.length = 3 →
        leafAt mem' q j = if q = p ∧ j = i then value else leafAt mem q j := by
  have assigned : Radix.Assigned linkOf (slot mem) (slot mem') bootCr3 3 p i n value :=
    ⟨full, leaf, given, kept⟩
  have paths : ∀ q, q.length ≤ 3 → tableAt mem' q = tableAt mem q :=
    fun q short => assigned.descend_eq tree.unshared short
  -- Only an entry of a page table changes, and the tree's conditions are about those above.
  have inner := tree.inner_kept full leaf kept
  obtain ⟨root, first, second⟩ := tree.bootTables
  refine ⟨⟨assigned.unshared tree.unshared, ?_, ?_, ?_, ?_, ?_, ?_⟩, paths,
    fun q j fullQ => assigned.lookup_eq tree.unshared fullQ j⟩
  · intro q t short met
    exact tree.aligned q t short (paths q short ▸ met)
  · intro q t j short other met
    have old := paths q (by omega) ▸ met
    rw [inner q t j short old]
    exact tree.small q t j short other old
  · intro q t j short other met
    have old := paths q (by omega) ▸ met
    rw [inner q t j short old]
    exact tree.legal q t j short other old
  · rw [inner [] 0x1000 0 (by decide) root, tree.bootPml4]
  · rw [inner [0] 0x2000 0 (by decide) first, tree.bootPdpt]
  · intro k
    rw [inner [0, 0] 0x3000 k (by decide) second, tree.bootPd]

end PageTree

end IncroOS
