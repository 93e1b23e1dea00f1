import Mathlib.Data.List.Nodup

/-! Walks along a null-terminated linked list, with fuel standing for the loop's turns. -/

namespace Lib

/-- From `p`, follow `next` to the null node or the first node that passes the test. -/
def walk (next : Nat → Nat) (stop : Nat → Bool) : Nat → Nat → Option Nat
  -- Running out of fuel stands for a loop that has not ended yet.
  | 0, _ => none
  | fuel + 1, p => if p = 0 || stop p then some p else walk next stop fuel (next p)

/-- From `p`, follow `next` to the null node, accumulating over the nodes met. -/
def walkFold {β : Type*} (next : Nat → Nat) (visit : β → Nat → β) : Nat → Nat → β → Option β
  | 0, _, _ => none
  | fuel + 1, p, acc =>
    if p = 0 then some acc else walkFold next visit fuel (next p) (visit acc p)

/-- The nodes met from `p` up to the null node are exactly those listed. -/
def Linked (next : Nat → Nat) : Nat → List Nat → Prop
  | p, [] => p = 0
  | p, node :: rest => p = node ∧ node ≠ 0 ∧ Linked next (next node) rest

/-- A terminated list is determined by where it starts. -/
theorem Linked.unique {next : Nat → Nat} {p : Nat} {left right : List Nat}
    (first : Linked next p left) (second : Linked next p right) : left = right := by
  -- Both lists end at the null node, and neither contains it.
  induction left generalizing p right with
  | nil =>
    cases right with
    | nil => rfl
    | cons node rest => exact absurd (second.1.symm.trans first) second.2.1
  | cons node rest ih =>
    cases right with
    | nil => exact absurd (first.1.symm.trans second) first.2.1
    | cons other tail =>
      have same : node = other := first.1.symm.trans second.1
      subst same
      rw [ih first.2.2 second.2.2]

/-- A terminated list read from one of its nodes. -/
theorem Linked.suffix {next : Nat → Nat} {p node : Nat} {front back : List Nat}
    (linked : Linked next p (front ++ node :: back)) : Linked next node (node :: back) := by
  -- The walk from the first node passes the front part, node by node.
  induction front generalizing p with
  | nil =>
    obtain ⟨-, nonnull, tail⟩ := linked
    exact ⟨rfl, nonnull, tail⟩
  | cons first rest ih => exact ih linked.2.2

/-- A terminated list has no cycle. -/
theorem Linked.nodup {next : Nat → Nat} {p : Nat} {nodes : List Nat}
    (linked : Linked next p nodes) : nodes.Nodup := by
  induction nodes generalizing p with
  | nil => exact List.nodup_nil
  | cons node rest ih =>
    refine List.nodup_cons.mpr ⟨fun again => ?_, ih linked.2.2⟩
    -- A node met twice would start two lists of different lengths.
    obtain ⟨front, back, rfl⟩ := List.append_of_mem again
    have whole : Linked next node (node :: (front ++ node :: back)) := ⟨rfl, linked.2⟩
    have again : Linked next node (node :: back) := linked.2.2.suffix
    have same := congrArg List.length (whole.unique again)
    simp only [List.length_cons, List.length_append] at same
    omega

/-- With more fuel than nodes the walk ends, at the first node that passes the test. -/
theorem walk_of_linked {next : Nat → Nat} {stop : Nat → Bool} {p fuel : Nat} {nodes : List Nat}
    (linked : Linked next p nodes) (enough : nodes.length < fuel) :
    walk next stop fuel p = some ((nodes.find? stop).getD 0) := by
  -- The induction follows the list, spending one unit of fuel a node.
  induction nodes generalizing p fuel with
  | nil =>
    cases fuel with
    | zero => omega
    | succ fuel =>
      have null : p = 0 := linked
      simp [walk, null]
  | cons node rest ih =>
    cases fuel with
    | zero => omega
    | succ fuel =>
      obtain ⟨rfl, nonnull, tail⟩ := linked
      cases passes : stop p with
      | true => simp [walk, passes]
      | false =>
        have room : rest.length < fuel := by simpa using enough
        have further := ih tail room
        simp [walk, passes, nonnull, further]

/-- With more fuel than nodes the accumulating walk ends, having visited every node once. -/
theorem walkFold_of_linked {β : Type*} {next : Nat → Nat} {visit : β → Nat → β} {p fuel : Nat}
    {nodes : List Nat} (acc : β) (linked : Linked next p nodes) (enough : nodes.length < fuel) :
    walkFold next visit fuel p acc = some (nodes.foldl visit acc) := by
  -- Each node takes one unit of fuel, and the end of the list takes the last.
  induction nodes generalizing p fuel acc with
  | nil =>
    cases fuel with
    | zero => omega
    | succ fuel =>
      have null : p = 0 := linked
      simp [walkFold, null]
  | cons node rest ih =>
    cases fuel with
    | zero => omega
    | succ fuel =>
      obtain ⟨rfl, nonnull, tail⟩ := linked
      have room : rest.length < fuel := by simpa using enough
      have further := ih (visit acc p) tail room
      simp [walkFold, nonnull, further]

/-- An accumulating walk that ends has visited every node once. -/
theorem walkFold_visits {β : Type*} {next : Nat → Nat} {visit : β → Nat → β} {p fuel : Nat}
    {nodes : List Nat} {acc result : β} (linked : Linked next p nodes)
    (ends : walkFold next visit fuel p acc = some result) : result = nodes.foldl visit acc := by
  -- Each node takes one unit of fuel, of which there was enough.
  induction nodes generalizing p fuel acc with
  | nil =>
    cases fuel with
    | zero => simp [walkFold] at ends
    | succ fuel =>
      have null : p = 0 := linked
      simpa [walkFold, null, eq_comm] using ends
  | cons node rest ih =>
    cases fuel with
    | zero => simp [walkFold] at ends
    | succ fuel =>
      obtain ⟨rfl, nonnull, tail⟩ := linked
      rw [walkFold, if_neg nonnull] at ends
      exact ih tail ends

/-- A walk that ends gives the same node with any more fuel. -/
theorem walk_mono {next : Nat → Nat} {stop : Nat → Bool} {p node fuel more : Nat}
    (ends : walk next stop fuel p = some node) (enough : fuel ≤ more) :
    walk next stop more p = some node := by
  -- As long as the walk goes on, both fuels are used up alike.
  induction fuel generalizing p more with
  | zero => simp [walk] at ends
  | succ fuel ih =>
    cases more with
    | zero => omega
    | succ more =>
      simp only [walk] at ends ⊢
      split
      · rename_i halted
        rwa [if_pos halted] at ends
      · rename_i running
        rw [if_neg running] at ends
        exact ih ends (by omega)

/-- Two walks that end give the same node, whatever their fuel. -/
theorem walk_unique {next : Nat → Nat} {stop : Nat → Bool} {p first second fuel more : Nat}
    (one : walk next stop fuel p = some first) (two : walk next stop more p = some second) :
    first = second := by
  -- The larger of the two amounts of fuel gives both answers.
  have left := walk_mono one (Nat.le_max_left fuel more)
  have right := walk_mono two (Nat.le_max_right fuel more)
  exact Option.some.inj (left.symm.trans right)

end Lib
