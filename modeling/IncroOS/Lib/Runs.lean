import Mathlib.Tactic.TypeStar

/-! Runs of calls on a state, and what holds of every call in the state that it is made in. -/

namespace Lib

variable {State Call : Type*} {apply : State → Call → State} {P Q Legal : State → Call → Prop}
  {Inv : State → Prop}

/-- The state that a run of calls leaves behind. -/
def runCalls (apply : State → Call → State) (state : State) (calls : List Call) : State :=
  calls.foldl apply state

/-- Every call of a run meets the predicate, in the state that it is made in. -/
def Along (apply : State → Call → State) (P : State → Call → Prop) : State → List Call → Prop
  | _, [] => True
  | state, call :: rest => P state call ∧ Along apply P (apply state call) rest

/-- A run meets a predicate when its two parts do. -/
theorem along_append {state : State} {calls more : List Call} :
    Along apply P state (calls ++ more) ↔
      Along apply P state calls ∧ Along apply P (runCalls apply state calls) more := by
  -- The second part runs from the state that the first part leaves.
  induction calls generalizing state with
  | nil => simp [Along, runCalls]
  | cons call rest ih =>
    rw [List.cons_append, Along, Along, ih, and_assoc]
    rfl

/-- A call that always meets the predicate may be repeated. -/
theorem along_replicate {state : State} {call : Call} {k : Nat} (always : ∀ state, P state call) :
    Along apply P state (List.replicate k call) := by
  induction k generalizing state with
  | zero => trivial
  | succ k ih => exact ⟨always state, ih⟩

/--
Two predicates agree on runs when they agree on calls under an invariant that they keep.

The invariant only needs to hold as long as the first predicate has held so far.
-/
theorem along_iff {state : State} {calls : List Call}
    (same : ∀ state call, Inv state → Legal state call → (P state call ↔ Q state call))
    (keeps : ∀ state call, Inv state → Legal state call → P state call → Inv (apply state call))
    (start : Inv state) (legal : Along apply Legal state calls) :
    Along apply P state calls ↔ Along apply Q state calls := by
  -- The induction is on the run; a call that fails both predicates settles the rest of it.
  induction calls generalizing state with
  | nil => exact Iff.rfl
  | cons call rest ih =>
    have here := same state call start legal.1
    by_cases holds : P state call
    · have onward := ih (keeps state call start legal.1 holds) legal.2
      exact and_congr here onward
    · exact iff_of_false (fun both => holds both.1) fun both => holds (here.mpr both.1)

end Lib
