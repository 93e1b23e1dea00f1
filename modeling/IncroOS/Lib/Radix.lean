import Mathlib.Data.List.Induction

/-! Radix trees kept in mutable slots: what attaching a node or assigning a leaf changes. -/

namespace Lib.Radix

variable {Node Idx Slot : Type*}

/-- The node met by following slots from the root along a path. -/
def descend (link : Slot → Option Node) (slot : Node → Idx → Slot) :
    Node → List Idx → Option Node
  | n, [] => some n
  | n, i :: path => (link (slot n i)).bind fun m => descend link slot m path

/-- The slot at the end of a path, or the empty slot where the path breaks off. -/
def lookup (link : Slot → Option Node) (empty : Slot) (slot : Node → Idx → Slot) (root : Node)
    (path : List Idx) (i : Idx) : Slot :=
  ((descend link slot root path).map fun n => slot n i).getD empty

/-- No node within the depth is met along two paths. -/
def Unshared (link : Slot → Option Node) (slot : Node → Idx → Slot) (root : Node) (depth : Nat) :
    Prop :=
  ∀ p q n, p.length ≤ depth → q.length ≤ depth → descend link slot root p = some n →
    descend link slot root q = some n → p = q

variable {link : Slot → Option Node} {slot slot' : Node → Idx → Slot} {root n m : Node}
  {depth : Nat} {p q : List Idx} {i : Idx}

/-- A path is followed one slot further. -/
theorem descend_snoc (link : Slot → Option Node) (slot : Node → Idx → Slot) (root : Node)
    (path : List Idx) (i : Idx) :
    descend link slot root (path ++ [i]) =
      (descend link slot root path).bind fun n => link (slot n i) := by
  induction path generalizing root with
  | nil => simp [descend]
  | cons j rest ih => simp only [List.cons_append, descend, Option.bind_assoc, ih]

/-- A path is followed in two parts. -/
theorem descend_append (link : Slot → Option Node) (slot : Node → Idx → Slot) (root : Node)
    (path rest : List Idx) :
    descend link slot root (path ++ rest) =
      (descend link slot root path).bind fun n => descend link slot n rest := by
  induction path generalizing root with
  | nil => rfl
  | cons i path ih => simp only [List.cons_append, descend, Option.bind_assoc, ih]

/-- Slots that agree on every node within the depth give the same tree. -/
theorem descend_congr
    (agree : ∀ p n i, p.length < depth → descend link slot root p = some n → slot' n i = slot n i)
    (short : q.length ≤ depth) : descend link slot' root q = descend link slot root q := by
  -- The path is followed from the root, each node being one of the old tree.
  induction q using List.reverseRecOn with
  | nil => rfl
  | append_singleton path j ih =>
    rw [List.length_append, List.length_singleton] at short
    rw [descend_snoc, descend_snoc, ih (by omega)]
    cases met : descend link slot root path with
    | none => rfl
    | some x => simp only [Option.bind_some, agree path x j (by omega) met]

theorem Unshared.congr (unshared : Unshared link slot root depth)
    (same : ∀ q, q.length ≤ depth → descend link slot' root q = descend link slot root q) :
    Unshared link slot' root depth := by
  -- Two paths that meet now met before.
  intro p q n pShort qShort pMeets qMeets
  rw [same p pShort] at pMeets
  rw [same q qShort] at qMeets
  exact unshared p q n pShort qShort pMeets qMeets

/-- A node hangs in a slot of a parent one level up. -/
def Hangs (link : Slot → Option Node) (slot : Node → Idx → Slot) (root : Node) (depth : Nat)
    (n : Node) (level : Nat) (parent : Node) (i : Idx) : Prop :=
  level ≤ depth ∧ link (slot parent i) = some n ∧
    ∃ path, path.length + 1 = level ∧ descend link slot root path = some parent

/-- A node that hangs somewhere is met along a path of its level. -/
theorem Hangs.met {level : Nat} (hangs : Hangs link slot root depth n level m i) :
    ∃ path, (path ++ [i]).length = level ∧ descend link slot root path = some m ∧
      descend link slot root (path ++ [i]) = some n := by
  -- The last step of the path is the entry that the node hangs in.
  obtain ⟨-, hung, path, length, met⟩ := hangs
  refine ⟨path, ?_, met, ?_⟩
  · rw [List.length_append, List.length_singleton, length]
  · rw [descend_snoc, met, Option.bind_some, hung]

/-- In a tree every node below the root hangs at one level, in one slot of one parent. -/
theorem Unshared.hangs_once (unshared : Unshared link slot root depth) (short : q.length ≤ depth)
    (below : q ≠ []) (met : descend link slot root q = some n) :
    ∃! place : Nat × Node × Idx, Hangs link slot root depth n place.1 place.2.1 place.2.2 := by
  cases q using List.reverseRecOn with
  | nil => exact absurd rfl below
  | append_singleton path i _ =>
    have length : (path ++ [i]).length = path.length + 1 := by
      rw [List.length_append, List.length_singleton]
    have step := descend_snoc link slot root path i
    rw [met] at step
    obtain ⟨parent, here, hung⟩ := Option.bind_eq_some_iff.mp step.symm
    refine ⟨(path.length + 1, parent, i), ⟨by omega, hung, path, rfl, here⟩, ?_⟩
    -- Any other place would be met along a path of its own.
    rintro ⟨level, other, j⟩ hangs
    obtain ⟨path', length', there, met'⟩ := hangs.met
    have fits : level ≤ depth := hangs.1
    have same := unshared _ _ n (by omega) short met' met
    obtain ⟨rfl, last⟩ := List.append_inj' same rfl
    obtain rfl : j = i := (List.cons.inj last).1
    obtain rfl : other = parent := Option.some.inj (there.symm.trans here)
    exact Prod.ext (length'.symm.trans length) rfl

section Attach

variable [DecidableEq Idx] {empty : Slot}

/-- A fresh node with empty slots is hung into one slot of a node that was empty there. -/
structure Attached (link : Slot → Option Node) (empty : Slot) (slot slot' : Node → Idx → Slot)
    (root : Node) (depth : Nat) (p : List Idx) (i : Idx) (n m : Node) : Prop where
  short : p.length < depth
  parent : descend link slot root p = some n
  vacant : link (slot n i) = none
  fresh : ∀ q, q.length ≤ depth → descend link slot root q ≠ some m
  hung : link (slot' n i) = some m
  blank : ∀ j, slot' m j = empty
  kept : ∀ q x j, q.length ≤ depth → descend link slot root q = some x → (x ≠ n ∨ j ≠ i) →
    slot' x j = slot x j

/-- Attaching a node adds its own path and changes no other. -/
theorem Attached.descend_eq (attached : Attached link empty slot slot' root depth p i n m)
    (unshared : Unshared link slot root depth) (unlinked : link empty = none)
    (short : q.length ≤ depth) :
    descend link slot' root q = if q = p ++ [i] then some m else descend link slot root q := by
  -- The induction is on the path from its end: what it passes last is what may have changed.
  have parentShort := attached.short
  have broken : descend link slot root (p ++ [i]) = none := by
    rw [descend_snoc, attached.parent, Option.bind_some, attached.vacant]
  induction q using List.reverseRecOn with
  | nil =>
    have other : [] ≠ p ++ [i] := by simp
    rw [if_neg other]
    rfl
  | append_singleton path j ih =>
    rw [List.length_append, List.length_singleton] at short
    rw [descend_snoc, descend_snoc, ih (by omega)]
    by_cases through : path = p ++ [i]
    · -- Beyond the new node everything is empty, as it was before.
      have longer : path ++ [j] ≠ p ++ [i] := by
        intro same
        have lengths := congrArg List.length same
        simp only [through, List.length_append, List.length_singleton] at lengths
        omega
      rw [if_pos through, if_neg longer, through, broken, Option.bind_some, attached.blank, unlinked]
      rfl
    · rw [if_neg through]
      -- Before the last index the descent is as it was.
      cases met : descend link slot root path with
      | none =>
        have other : path ++ [j] ≠ p ++ [i] := by
          intro same
          have prefixes := (List.append_inj' same rfl).1
          rw [prefixes, attached.parent] at met
          exact absurd met (by simp)
        rw [if_neg other]
        rfl
      | some x =>
        simp only [Option.bind_some]
        by_cases here : path = p
        · have same : x = n := Option.some.inj (met.symm.trans (here ▸ attached.parent))
          rw [same, here]
          -- At the parent only the new slot differs.
          by_cases slotHere : j = i
          · rw [slotHere, if_pos rfl, attached.hung]
          · have other : p ++ [j] ≠ p ++ [i] := by simpa using slotHere
            rw [if_neg other, attached.kept p n j (by omega) attached.parent (.inr slotHere)]
        · -- Any other node of the tree keeps its slots.
          have elsewhere : x ≠ n := by
            rintro rfl
            exact here (unshared path p x (by omega) (by omega) met attached.parent)
          have other : path ++ [j] ≠ p ++ [i] := fun same => here (List.append_inj' same rfl).1
          rw [if_neg other, attached.kept path x j (by omega) met (.inl elsewhere)]

/-- The tree is still one after a node has been attached. -/
theorem Attached.unshared (attached : Attached link empty slot slot' root depth p i n m)
    (unshared : Unshared link slot root depth) (unlinked : link empty = none) :
    Unshared link slot' root depth := by
  intro left right x leftShort rightShort leftMeets rightMeets
  rw [attached.descend_eq unshared unlinked leftShort] at leftMeets
  rw [attached.descend_eq unshared unlinked rightShort] at rightMeets
  -- The new node is met along its own path only, and old nodes along their old ones.
  split at leftMeets
  · rename_i leftNew
    split at rightMeets
    · rename_i rightNew
      rw [leftNew, rightNew]
    · rw [← leftMeets] at rightMeets
      exact absurd rightMeets (attached.fresh right rightShort)
  · split at rightMeets
    · rw [← rightMeets] at leftMeets
      exact absurd leftMeets (attached.fresh left leftShort)
    · exact unshared left right x leftShort rightShort leftMeets rightMeets

/-- Attaching an empty node changes no lookup of full depth. -/
theorem Attached.lookup_eq (attached : Attached link empty slot slot' root depth p i n m)
    (unshared : Unshared link slot root depth) (unlinked : link empty = none)
    (full : q.length = depth) (j : Idx) :
    lookup link empty slot' root q j = lookup link empty slot root q j := by
  have short := attached.short
  simp only [lookup, attached.descend_eq unshared unlinked (Nat.le_of_eq full)]
  by_cases new : q = p ++ [i]
  · have broken : descend link slot root q = none := by
      rw [new, descend_snoc, attached.parent, Option.bind_some, attached.vacant]
    rw [if_pos new, broken, Option.map_some, attached.blank]
    rfl
  · rw [if_neg new]
    cases met : descend link slot root q with
    | none => rfl
    | some x =>
      -- A leaf node lies deeper than the node whose slot has changed.
      have elsewhere : x ≠ n := by
        rintro rfl
        have same := unshared q p x (by omega) (by omega) met attached.parent
        rw [same] at full
        omega
      rw [Option.map_some, Option.map_some, attached.kept q x j (by omega) met (.inl elsewhere)]

end Attach

section Assign

variable {empty value : Slot}

/-- One slot of a node at full depth is given a value. -/
structure Assigned (link : Slot → Option Node) (slot slot' : Node → Idx → Slot)
    (root : Node) (depth : Nat) (p : List Idx) (i : Idx) (n : Node) (value : Slot) : Prop where
  full : p.length = depth
  leaf : descend link slot root p = some n
  given : slot' n i = value
  kept : ∀ q x j, q.length ≤ depth → descend link slot root q = some x → (x ≠ n ∨ j ≠ i) →
    slot' x j = slot x j

/-- Assigning a leaf changes no path. -/
theorem Assigned.descend_eq (assigned : Assigned link slot slot' root depth p i n value)
    (unshared : Unshared link slot root depth) (short : q.length ≤ depth) :
    descend link slot' root q = descend link slot root q := by
  -- The node that was changed is at full depth, where no link is followed.
  have full := assigned.full
  refine descend_congr (fun path x j inner met => ?_) short
  have elsewhere : x ≠ n := by
    rintro rfl
    have same := unshared path p x (by omega) (by omega) met assigned.leaf
    rw [same] at inner
    omega
  exact assigned.kept path x j (by omega) met (.inl elsewhere)

theorem Assigned.unshared (assigned : Assigned link slot slot' root depth p i n value)
    (unshared : Unshared link slot root depth) : Unshared link slot' root depth :=
  unshared.congr fun _ short => assigned.descend_eq unshared short

/-- Assigning a leaf changes the lookup of its own path and slot only. -/
theorem Assigned.lookup_eq [DecidableEq Idx] (assigned : Assigned link slot slot' root depth p i n value)
    (unshared : Unshared link slot root depth) (full : q.length = depth) (j : Idx) :
    lookup link empty slot' root q j =
      if q = p ∧ j = i then value else lookup link empty slot root q j := by
  -- All paths lead where they did, and one slot of one leaf differs.
  simp only [lookup, assigned.descend_eq unshared (Nat.le_of_eq full)]
  by_cases here : q = p ∧ j = i
  · obtain ⟨rfl, rfl⟩ := here
    rw [assigned.leaf, if_pos ⟨rfl, rfl⟩, Option.map_some, assigned.given]
    rfl
  · rw [if_neg here]
    cases met : descend link slot root q with
    | none => rfl
    | some x =>
      have elsewhere : x ≠ n ∨ j ≠ i := by
        by_contra both
        push Not at both
        obtain ⟨rfl, rfl⟩ := both
        exact here ⟨unshared q p x (by omega) (Nat.le_of_eq assigned.full) met assigned.leaf, rfl⟩
      rw [Option.map_some, Option.map_some, assigned.kept q x j (by omega) met elsewhere]

end Assign

end Lib.Radix
