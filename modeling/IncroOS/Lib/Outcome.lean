import Mathlib.Init

/-! Runs that return a value or stop early, and the rules that carry a condition through them. -/

namespace Lib

universe u

variable {ε : Type*} {α β : Type u}

/-- The run stops in an allowed way, or returns a value that meets the condition. -/
def Meets (run : Except ε α) (allowed : ε → Prop) (post : α → Prop) : Prop :=
  match run with
  | .ok a => post a
  | .error e => allowed e

@[simp] theorem meets_ok (a : α) (allowed : ε → Prop) (post : α → Prop) :
    Meets (.ok a) allowed post ↔ post a := Iff.rfl

@[simp] theorem meets_error (e : ε) (allowed : ε → Prop) (post : α → Prop) :
    Meets (.error e) allowed post ↔ allowed e := Iff.rfl

/-- A run goes on with the value that was returned. -/
theorem ok_bind (a : α) (next : α → Except ε β) : (.ok a >>= next) = next a := rfl

/-- A run that goes on after another one meets what the second part meets. -/
theorem Meets.bind {run : Except ε α} {next : α → Except ε β} {allowed : ε → Prop}
    {middle : α → Prop} {post : β → Prop} (first : Meets run allowed middle)
    (second : ∀ a, middle a → Meets (next a) allowed post) : Meets (run >>= next) allowed post := by
  cases run with
  | ok a => exact second a first
  | error e => exact first

/-- A stronger condition may be weakened. -/
theorem Meets.mono {run : Except ε α} {allowed : ε → Prop} {post weaker : α → Prop}
    (meets : Meets run allowed post) (weaken : ∀ a, post a → weaker a) :
    Meets run allowed weaker := by
  cases run with
  | ok a => exact weaken a meets
  | error e => exact meets

/-- More ways to stop may be allowed. -/
theorem Meets.allow {run : Except ε α} {allowed more : ε → Prop} {post : α → Prop}
    (meets : Meets run allowed post) (allow : ∀ e, allowed e → more e) :
    Meets run more post := by
  cases run with
  | ok a => exact meets
  | error e => exact allow e meets

/-- What a run returned meets the condition. -/
theorem Meets.of_ok {run : Except ε α} {allowed : ε → Prop} {post : α → Prop} {a : α}
    (meets : Meets run allowed post) (returned : run = .ok a) : post a := by
  rw [returned] at meets
  exact meets

/-- A run that meets a condition returns a value that does, or stops in an allowed way. -/
theorem Meets.result {run : Except ε α} {allowed : ε → Prop} {post : α → Prop}
    (meets : Meets run allowed post) :
    (∃ a, run = .ok a ∧ post a) ∨ ∃ e, run = .error e ∧ allowed e := by
  cases run with
  | ok a => exact .inl ⟨a, rfl, meets⟩
  | error e => exact .inr ⟨e, rfl, meets⟩

attribute [irreducible] Meets

end Lib
