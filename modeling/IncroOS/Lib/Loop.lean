import Mathlib.Data.Nat.Init

/-! Counted loops, and the rules that carry an invariant through them. -/

namespace Lib

variable {σ : Type*}

/-- The loop `for (i = first; i < first + count; i++) state = body(i, state)`. -/
def forLoop (body : Nat → σ → σ) : Nat → Nat → σ → σ
  | _, 0, state => state
  | first, count + 1, state => forLoop body (first + 1) count (body first state)

/-- What holds before a loop and is carried by every turn of the body holds after it. -/
theorem forLoop_invariant (body : Nat → σ → σ) (first count : Nat) (state : σ)
    (P : Nat → σ → Prop) (start : P first state)
    (turn : ∀ i s, first ≤ i → i < first + count → P i s → P (i + 1) (body i s)) :
    P (first + count) (forLoop body first count state) := by
  -- Each turn hands the invariant to the loop that starts one later.
  induction count generalizing first state with
  | zero => simpa [forLoop] using start
  | succ count ih =>
    have next := turn first state (by omega) (by omega) start
    have rest := ih _ _ next fun i s low high => turn i s (by omega) (by omega)
    simpa [forLoop, Nat.add_assoc, Nat.add_comm 1] using rest

/-- A property every turn preserves is preserved by the loop. -/
theorem forLoop_preserves {body : Nat → σ → σ} (P : σ → Prop) {first count : Nat} {state : σ}
    (start : P state) (turn : ∀ i s, first ≤ i → i < first + count → P s → P (body i s)) :
    P (forLoop body first count state) :=
  -- The invariant is the same at every turn.
  forLoop_invariant body first count state (fun _ => P) start turn

/-- What the turns of a loop show, in their order. -/
def loopTrace {α : Type*} (body : Nat → σ → σ) (shown : Nat → σ → α) : Nat → Nat → σ → List α
  | _, 0, _ => []
  | first, count + 1, state =>
    shown first state :: loopTrace body shown (first + 1) count (body first state)

/-- What holds of the things shown so far and is carried by every turn holds of all of them. -/
theorem forLoop_trace {α : Type*} {body : Nat → σ → σ} {shown : Nat → σ → α}
    (P : List α → σ → Prop) {first count : Nat} {state : σ} (done : List α) (start : P done state)
    (turn : ∀ i s done, P done s → P (done ++ [shown i s]) (body i s)) :
    P (done ++ loopTrace body shown first count state) (forLoop body first count state) := by
  -- The first turn adds what it shows to the things shown before the rest.
  induction count generalizing first state done with
  | zero => simpa [loopTrace, forLoop] using start
  | succ count ih =>
    have next := turn first state done start
    have rest := @ih (first + 1) _ _ next
    simpa [loopTrace, forLoop] using rest

end Lib
