import Mathlib.Tactic.TypeStar

/-! Arrays whose accesses are checked, filled from their start with one value behind the other. -/

namespace Lib

section Filled

variable {α : Type*} {size : Nat} {before after : Vector α size} {values : List α}

/-- A store to an array, which fails out of bounds. -/
def store (array : Vector α size) (i : Nat) (a : α) : Option (Vector α size) :=
  if within : i < size then some (array.set i a) else none

/-- The array starts with the values, and is as it was behind them. -/
def Filled (before after : Vector α size) (values : List α) : Prop :=
  after.toList = values ++ before.toList.drop values.length

/-- Nothing has been stored to an array. -/
theorem Filled.nil (before : Vector α size) : Filled before before [] := rfl

/-- A value stored behind the others. -/
theorem Filled.store (filled : Filled before after values) (a : α) (room : values.length < size) :
    ∃ next, store after values.length a = some next ∧ Filled before next (values ++ [a]) := by
  refine ⟨after.set values.length a, dif_pos room, ?_⟩
  have inside : values.length < before.toList.length := by rwa [Vector.length_toList]
  -- The store meets the first of the values that were there before.
  have rest : before.toList.drop values.length =
      before.toList[values.length] :: before.toList.drop (values.length + 1) :=
    List.drop_eq_getElem_cons inside
  rw [Filled, Vector.toList_set, filled, rest, List.set_append_right _ _ (Nat.le_refl _),
    Nat.sub_self, List.set_cons_zero, List.append_assoc, List.length_append]
  rfl

/-- A load from the part that is filled. -/
theorem Filled.load (filled : Filled before after values) {i : Nat} (within : i < values.length) :
    after[i]? = values[i]? := by
  rw [← Vector.getElem?_toList, filled, List.getElem?_append_left within]

end Filled

section Strings

variable {size : Nat} {before after : Vector UInt8 size} {text : List UInt8}

/-- The characters of the C string in an array. -/
def cString (array : Vector UInt8 size) : List UInt8 := array.toList.takeWhile (· != 0)

/-- A text with a NUL behind it is the string of the array. -/
theorem Filled.cString (filled : Filled before after (text ++ [0])) (printable : ∀ c ∈ text, c ≠ 0) :
    cString after = text := by
  -- The text is passed over, and the NUL behind it ends the string.
  rw [Lib.cString, filled, List.append_assoc, List.takeWhile_append_of_pos]
  · rw [List.singleton_append, List.takeWhile_cons_of_neg (by simp), List.append_nil]
  · intro c member
    rw [bne_iff_ne]
    exact printable c member

end Strings

end Lib
