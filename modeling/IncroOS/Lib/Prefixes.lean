import Mathlib.Data.List.Infix

/-! The prefixes of a path that a tree lacks, in the order in which they would have to be made. -/

namespace Lib

variable {Idx : Type*} {has has' : List Idx → Bool} {p q rest : List Idx} {i : Idx}

/-- The prefixes of a path, from a part of it on, that lead to no node. -/
def lacking (has : List Idx → Bool) (p rest : List Idx) : List (List Idx) :=
  (rest.inits.map (p ++ ·)).filter fun q => !has q

/-- Nothing is lacking at the end of a path that is there. -/
theorem lacking_nil (there : has p = true) : lacking has p [] = [] := by
  simp [lacking, there]

/-- A node that is there is passed over. -/
theorem lacking_cons (there : has p = true) :
    lacking has p (i :: rest) = lacking has (p ++ [i]) rest := by
  -- The first prefix is the path so far, and the others go on behind it.
  have others : ((fun q => p ++ q) ∘ fun q => i :: q) = fun q => p ++ [i] ++ q :=
    funext fun q => List.append_cons p i q
  rw [lacking, List.inits_cons, List.map_cons, List.map_map, others, List.append_nil,
    List.filter_cons_of_neg (by rw [there]; decide)]
  rfl

/-- Where nothing is there all prefixes are lacking. -/
theorem lacking_broken (broken : ∀ q, has (p ++ q) = false) :
    lacking has p rest = rest.inits.map (p ++ ·) := by
  -- The filter keeps every prefix.
  refine List.filter_eq_self.mpr fun q member => ?_
  obtain ⟨part, -, rfl⟩ := List.mem_map.mp member
  rw [broken part]
  rfl

/-- A node that is made is the first of those that were lacking, and the others still are. -/
theorem lacking_made (broken : ∀ q, has (p ++ q) = false) (made : has' p = true)
    (others : ∀ i q, has' (p ++ i :: q) = false) :
    lacking has p rest = p :: lacking has' p rest := by
  rw [lacking_broken broken]
  cases rest with
  | nil => rw [lacking_nil made, List.inits, List.map_singleton, List.append_nil]
  | cons i rest =>
    -- Below the new node nothing is there.
    have below : ∀ q, has' (p ++ [i] ++ q) = false := fun q => by
      rw [← List.append_cons]
      exact others i q
    have behind : ((fun q => p ++ q) ∘ fun q => i :: q) = fun q => p ++ [i] ++ q :=
      funext fun q => List.append_cons p i q
    rw [lacking_cons made, lacking_broken below, List.inits_cons, List.map_cons, List.map_map,
      List.append_nil, behind]

/-- As many prefixes are lacking as there are levels, if the first one is. -/
theorem lacking_length (broken : ∀ q, has (p ++ q) = false) :
    (lacking has p rest).length = rest.length + 1 := by
  rw [lacking_broken broken, List.length_map, List.length_inits]

end Lib
