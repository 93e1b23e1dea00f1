import Mathlib.Data.Fintype.Pigeonhole
import Mathlib.Logic.Function.Iterate

/-! Following a function until it stops, where finitely many keys tell all that matters. -/

namespace Lib

variable {α κ : Type*} {next : α → α} {stop : α → Prop} {key : α → κ}

/-- Nothing that is followed comes back to a key before it stops. -/
def NeverReturns (next : α → α) (stop : α → Prop) (key : α → κ) (a : α) : Prop :=
  ∀ i j, i < j → key (next^[i] a) = key (next^[j] a) → ∃ k < j, stop (next^[k] a)

/-- Values of one key go on with values of one key. -/
theorem key_iterate (step : ∀ a b, key a = key b → key (next a) = key (next b)) {a b : α}
    (same : key a = key b) (k : Nat) : key (next^[k] a) = key (next^[k] b) := by
  -- One step keeps keys equal, and so do many.
  induction k with
  | zero => exact same
  | succ k ih =>
    rw [Function.iterate_succ_apply', Function.iterate_succ_apply']
    exact step _ _ ih

/-- What never comes back stops, after at most as many steps as there are keys. -/
theorem NeverReturns.stops [Fintype κ] {a : α} (never : NeverReturns next stop key a) :
    ∃ k < Fintype.card κ, stop (next^[k] a) := by
  -- Among one step more than there are keys, two have the same key.
  obtain ⟨x, y, other, same⟩ := Fintype.exists_ne_map_eq_of_card_lt
    (fun i : Fin (Fintype.card κ + 1) => key (next^[i.val] a)) (by simp)
  have ordered : ∀ i j : Fin (Fintype.card κ + 1), i.val < j.val →
      key (next^[i.val] a) = key (next^[j.val] a) → ∃ k < Fintype.card κ, stop (next^[k] a) := by
    intro i j below again
    obtain ⟨k, before, stopped⟩ := never i j below again
    have bound := j.isLt
    exact ⟨k, by omega, stopped⟩
  rcases Nat.lt_or_gt_of_ne (Fin.val_ne_of_ne other) with first | second
  · exact ordered x y first same
  · exact ordered y x second same.symm

/-- What is followed stops exactly when it never comes back. -/
theorem stops_iff [Fintype κ] (step : ∀ a b, key a = key b → key (next a) = key (next b))
    (alike : ∀ a b, key a = key b → (stop a ↔ stop b)) {a : α} :
    (∃ k, stop (next^[k] a)) ↔ NeverReturns next stop key a := by
  constructor
  · rintro ⟨k, stopped⟩ i j below same
    -- A stop behind the return has its like before it, one round earlier.
    induction k using Nat.strongRecOn with
    | ind k ih =>
      by_cases before : k < j
      · exact ⟨k, before, stopped⟩
      · have round := key_iterate step same (k - j)
        rw [← Function.iterate_add_apply, ← Function.iterate_add_apply,
          Nat.sub_add_cancel (by omega)] at round
        exact ih (k - j + i) (by omega) ((alike _ _ round).mpr stopped)
  · intro never
    obtain ⟨k, -, stopped⟩ := never.stops
    exact ⟨k, stopped⟩

/-- One more step stops at once, or behind the first value. -/
theorem stops_below_succ {a : α} {steps : Nat} :
    (∃ k < steps + 1, stop (next^[k] a)) ↔ stop a ∨ ∃ k < steps, stop (next^[k] (next a)) := by
  -- The first value is the one that no step leads to.
  constructor
  · rintro ⟨k, below, stopped⟩
    cases k with
    | zero => exact .inl stopped
    | succ k => exact .inr ⟨k, Nat.lt_of_succ_lt_succ below, stopped⟩
  · rintro (here | ⟨k, below, stopped⟩)
    · exact ⟨0, Nat.succ_pos steps, here⟩
    · exact ⟨k + 1, Nat.succ_lt_succ below, stopped⟩

end Lib
