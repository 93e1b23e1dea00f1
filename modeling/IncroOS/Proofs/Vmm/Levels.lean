import IncroOS.Proofs.Vmm.Mapping

/-! The levels that `vmm_map_page` goes down: a path of tables, found or made one after the other. -/

namespace IncroOS

open Lib

/-- The table at the end of a path from a table, where every level is found or made. -/
def makeTables (kernel : Kernel) (table : Nat) : List (Fin 512) → Kernel × Nat
  | [] => (kernel, table)
  | i :: rest =>
    let next := getOrCreateTable kernel table i ptWritable
    if next.2 = 0 then (next.1, 0) else makeTables next.1 next.2 rest

/-- The pages that `pmm_alloc_page` returns on the way. -/
def pagesMade (kernel : Kernel) (table : Nat) : List (Fin 512) → List Nat
  | [] => []
  | i :: rest =>
    let next := getOrCreateTable kernel table i ptWritable
    getOrCreatePages kernel table i ++ if next.2 = 0 then [] else pagesMade next.1 next.2 rest

/-- The tables on the way, below the first. -/
def tablesMade (kernel : Kernel) (table : Nat) : List (Fin 512) → List Nat
  | [] => []
  | i :: rest =>
    let next := getOrCreateTable kernel table i ptWritable
    if next.2 = 0 then [] else next.2 :: tablesMade next.1 next.2 rest

/-- The number of tables that a path from a table is short of. -/
def missing (mem : Mem) (table : Nat) : List (Fin 512) → Nat
  | [] => 0
  | i :: rest =>
    if isPresent (pte mem table i) then missing mem (pte mem table i &&& ptAddrMask) rest
    else rest.length + 1

/-- Below a blank table the whole path is missing. -/
theorem missing_blank {mem : Mem} {table : Nat} (blank : ∀ j, slot mem table j = 0)
    (rest : List (Fin 512)) : missing mem table rest = rest.length := by
  -- The first entry is vacant already, and then the rest counts in full.
  have absent : isPresent 0 = false := by decide
  cases rest with
  | nil => rfl
  | cons i rest =>
    have entry : pte mem table i = 0 := blank i
    rw [missing, entry, absent, if_neg (by decide), List.length_cons]

/-- A path is short of no more tables than it has levels. -/
theorem missing_le (mem : Mem) (table : Nat) (rest : List (Fin 512)) :
    missing mem table rest ≤ rest.length := by
  -- By induction along the path, each level adds one at most.
  induction rest generalizing table with
  | nil => exact Nat.le_refl 0
  | cons i rest ih =>
    rw [missing, List.length_cons]
    split
    · exact Nat.le_succ_of_le (ih _)
    · exact Nat.le_refl _

section Levels

variable {kernel : Kernel} {owned : Finset Nat} {p rest : List (Fin 512)} {n : Nat}

/-- What going down a path from a table leaves behind, and what it takes from the pool. -/
structure MakesTables (kernel : Kernel) (owned : Finset Nat) (p : List (Fin 512)) (n : Nat)
    (rest : List (Fin 512)) : Prop where
  inv : VmmInv (makeTables kernel n rest).1 owned
  grows : Grows kernel (makeTables kernel n rest).1
  tree : Extends kernel.mem (makeTables kernel n rest).1.mem (pagesMade kernel n rest)
  met : (makeTables kernel n rest).2 ≠ 0 →
    tableAt (makeTables kernel n rest).1.mem (p ++ rest) = some (makeTables kernel n rest).2
  visited : ∀ t ∈ tablesMade kernel n rest, t ∈ tableSet (makeTables kernel n rest).1.mem
  taken : ∀ page ∈ pagesMade kernel n rest, page ∈ tablesMade kernel n rest
  pages : pagesMade kernel n rest =
    ((pagePool kernel).takes (missing kernel.mem n rest)).map (· * pageSize)
  complete : (pagesMade kernel n rest).length = missing kernel.mem n rest →
    (makeTables kernel n rest).2 ≠ 0

/-- A level that is there is followed. -/
theorem MakesTables.found {i : Fin 512} {t : Nat}
    (result : getOrCreateTable kernel n i ptWritable = (kernel, t)) (nonnull : t ≠ 0)
    (none : getOrCreatePages kernel n i = [])
    (same : missing kernel.mem n (i :: rest) = missing kernel.mem t rest)
    (met : tableAt kernel.mem (p ++ [i]) = some t) (short : (p ++ [i]).length ≤ 3)
    (below : MakesTables kernel owned (p ++ [i]) t rest) :
    MakesTables kernel owned p n (i :: rest) := by
  -- The level itself makes nothing, so all is as below it.
  have made : makeTables kernel n (i :: rest) = makeTables kernel t rest := by
    simp only [makeTables, result, if_neg nonnull]
  have pages : pagesMade kernel n (i :: rest) = pagesMade kernel t rest := by
    simp only [pagesMade, result, if_neg nonnull, none, List.nil_append]
  have tables : tablesMade kernel n (i :: rest) = t :: tablesMade kernel t rest := by
    simp only [tablesMade, result, if_neg nonnull]
  have path : p ++ [i] ++ rest = p ++ i :: rest := List.append_cons p i rest ▸ rfl
  refine ⟨made ▸ below.inv, made ▸ below.grows, ?_, ?_, ?_, ?_, ?_, ?_⟩
  · rw [made, pages]
    exact below.tree
  · rw [made, ← path]
    exact below.met
  · rw [made, tables]
    intro x member
    rcases List.mem_cons.mp member with rfl | deeper
    · exact ⟨p ++ [i], short, below.grows.paths _ _ short met⟩
    · exact below.visited x deeper
  · rw [pages, tables]
    exact fun page member => List.mem_cons_of_mem t (below.taken page member)
  · rw [pages, same]
    exact below.pages
  · rw [made, pages, same]
    exact below.complete

/-- A level that is made takes the pool's next page, and the levels below it start out blank. -/
theorem MakesTables.made {i : Fin 512} {kernel' : Kernel} {page : Nat}
    {inside : page < kernel.totalPages}
    (taken : (pagePool kernel).take = ((pagePool kernel).mark page inside, some page))
    (result : getOrCreateTable kernel n i ptWritable = (kernel', page * pageSize))
    (nonnull : page * pageSize ≠ 0) (one : getOrCreatePages kernel n i = [page * pageSize])
    (vacant : isPresent (pte kernel.mem n i) = false)
    (blank : ∀ j, slot kernel'.mem (page * pageSize) j = 0)
    (pool : pagePool kernel' = (pagePool kernel).mark page inside) (grows : Grows kernel kernel')
    (tree : Extends kernel.mem kernel'.mem [page * pageSize])
    (met : tableAt kernel'.mem (p ++ [i]) = some (page * pageSize)) (short : (p ++ [i]).length ≤ 3)
    (below : MakesTables kernel' owned (p ++ [i]) (page * pageSize) rest) :
    MakesTables kernel owned p n (i :: rest) := by
  -- The level takes one page, and those below it take the others.
  have made : makeTables kernel n (i :: rest) = makeTables kernel' (page * pageSize) rest := by
    simp only [makeTables, result, if_neg nonnull]
  have pages : pagesMade kernel n (i :: rest) =
      [page * pageSize] ++ pagesMade kernel' (page * pageSize) rest := by
    simp only [pagesMade, result, if_neg nonnull, one]
  have tables : tablesMade kernel n (i :: rest) =
      page * pageSize :: tablesMade kernel' (page * pageSize) rest := by
    simp only [tablesMade, result, if_neg nonnull]
  have path : p ++ [i] ++ rest = p ++ i :: rest := List.append_cons p i rest ▸ rfl
  have short_of : missing kernel.mem n (i :: rest) = rest.length + 1 := by
    rw [missing, vacant, if_neg (by decide)]
  -- Below the fresh table nothing is there yet.
  have further := missing_blank blank rest
  refine ⟨made ▸ below.inv, made ▸ grows.trans below.grows, ?_, ?_, ?_, ?_, ?_, ?_⟩
  · rw [made, pages]
    exact tree.trans below.tree
  · rw [made, ← path]
    exact below.met
  · rw [made, tables]
    intro x member
    rcases List.mem_cons.mp member with rfl | deeper
    · exact ⟨p ++ [i], short, below.grows.paths _ _ short met⟩
    · exact below.visited x deeper
  · rw [pages, tables]
    exact List.forall_mem_cons.mpr ⟨List.mem_cons_self,
      fun x member => List.mem_cons_of_mem _ (below.taken x member)⟩
  · rw [pages, short_of, Pool.takes_succ taken, below.pages, further, pool]
    rfl
  · rw [made, pages, short_of, ← further, List.length_append, List.length_singleton, Nat.add_comm]
    exact fun full => below.complete (Nat.succ.inj full)

/-- Without a page left the descent ends, and nothing has changed. -/
theorem MakesTables.exhausted {i : Fin 512} (inv : VmmInv kernel owned)
    (full : (pagePool kernel).take = (pagePool kernel, none))
    (result : getOrCreateTable kernel n i ptWritable = (kernel, 0))
    (none : getOrCreatePages kernel n i = []) (vacant : isPresent (pte kernel.mem n i) = false) :
    MakesTables kernel owned p n (i :: rest) := by
  -- The source returns from the first level that gets no page.
  have made : makeTables kernel n (i :: rest) = (kernel, 0) := by
    simp only [makeTables, result, if_pos]
  have pages : pagesMade kernel n (i :: rest) = [] := by
    simp only [pagesMade, result, if_pos, none, List.append_nil]
  have tables : tablesMade kernel n (i :: rest) = [] := by
    simp only [tablesMade, result, if_pos]
  have short_of : missing kernel.mem n (i :: rest) = rest.length + 1 := by
    rw [missing, vacant, if_neg (by decide)]
  refine ⟨made ▸ inv, made ▸ Grows.refl kernel, ?_, ?_, ?_, ?_, ?_, ?_⟩
  · rw [made, pages]
    exact Extends.refl kernel.mem
  · rw [made]
    exact fun nonnull => absurd rfl nonnull
  · rw [tables]
    exact fun x member => absurd member List.not_mem_nil
  · rw [pages]
    exact fun x member => absurd member List.not_mem_nil
  · rw [pages, Pool.takes_full full]
    rfl
  · rw [pages, short_of]
    exact fun impossible => absurd impossible.symm (Nat.succ_ne_zero _)

/--
Going down a path from a table of the tree keeps the invariant and takes one page a missing level.

The path must not go on below the loader's page directory.
-/
theorem makeTables_spec (inv : VmmInv kernel owned) (fits : p.length + rest.length ≤ 3)
    (outside : rest ≠ [] → (p ++ rest).take 2 ≠ [0, 0]) (parent : tableAt kernel.mem p = some n) :
    MakesTables kernel owned p n rest := by
  -- The induction is on the path, so the kernel, the table and the way to it stay general.
  induction rest generalizing kernel p n with
  | nil =>
    have page := inv.tables p n (by simpa using fits) parent
    refine ⟨inv, Grows.refl kernel, Extends.refl kernel.mem, fun _ => ?_, fun x member => ?_,
      fun x member => ?_, rfl, fun _ null => ?_⟩
    · rw [List.append_nil]
      exact parent
    · exact absurd member List.not_mem_nil
    · exact absurd member List.not_mem_nil
    · have zero : n = 0 := null
      have positive := page.positive
      rw [zero] at positive
      exact absurd positive (by decide)
  | cons i rest ih =>
    have path : p ++ i :: rest = p ++ [i] ++ rest := List.append_cons p i rest
    have short : p.length < 3 := by
      rw [List.length_cons] at fits
      omega
    have fits' : (p ++ [i]).length + rest.length ≤ 3 := by
      rw [List.length_cons] at fits
      rw [List.length_append, List.length_singleton]
      omega
    have onward : (p ++ [i] ++ rest).take 2 ≠ [0, 0] := path ▸ outside (List.cons_ne_nil i rest)
    have aside : p ≠ [0, 0] := by
      rintro rfl
      exact outside (List.cons_ne_nil i rest) rfl
    obtain ⟨descends, charges⟩ := getOrCreateTable_spec inv i short aside parent
    cases present : isPresent (pte kernel.mem n i) with
    | true =>
      obtain ⟨result, nonnull⟩ := charges.found present
      rcases descends with failed | ⟨-, -, met, -⟩
      · exact absurd (congrArg Prod.snd failed) nonnull
      · rw [result] at met nonnull
        exact .found result nonnull (by rw [getOrCreatePages, if_pos present])
          (by rw [missing, present, if_pos rfl]) met (by omega) (ih inv fits' (fun _ => onward) met)
    | false =>
      have pages := charges.pages present
      have table := charges.table present
      obtain ⟨full, -⟩ | ⟨page, inside, free, taken, -⟩ := pagePool_take kernel
      · rw [full] at pages table
        rcases descends with failed | ⟨nonnull, -⟩
        · exact .exhausted inv full failed pages present
        · exact absurd table nonnull
      · rw [taken] at pages table
        have beyond := (inv.free_page free).1
        have nonnull : page * pageSize ≠ 0 := by
          simp only [pageSize]
          omega
        rcases descends with failed | ⟨-, inv', met, grows⟩
        · rw [failed] at table
          exact absurd table.symm nonnull
        · obtain ⟨kernel', t, result⟩ : ∃ kernel' t,
              getOrCreateTable kernel n i ptWritable = (kernel', t) := ⟨_, _, rfl⟩
          have blank := charges.blank present
          have pool := charges.pool present
          have tree := charges.tree
          rw [result] at table inv' met grows blank pool tree
          obtain rfl : t = page * pageSize := table
          rw [pages] at tree
          rw [taken] at pool
          exact .made taken result nonnull pages present (blank nonnull) pool grows tree met
            (by omega) (ih inv' fits' (fun _ => onward) met)

end Levels

end IncroOS
