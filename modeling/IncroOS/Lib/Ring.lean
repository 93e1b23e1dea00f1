import Mathlib.Data.Nat.Init
import Mathlib.Tactic.TypeStar

/-! A ring of cells that values are written to in turn, and the cursor that goes round with them. -/

namespace Lib

section Cursor

/-- A place in a grid, by its column and its row. -/
structure Cursor where
  column : Nat
  row : Nat

namespace Cursor

variable {width height n : Nat}

/-- The next place on the line, else the start of the next line, else the start of the first. -/
def next (width height : Nat) (cursor : Cursor) : Cursor :=
  if cursor.column + 1 = width then
    ⟨0, if cursor.row + 1 = height then 0 else cursor.row + 1⟩
  else ⟨cursor.column + 1, cursor.row⟩

/-- Where a cursor is after `n` steps from the first place. -/
def after (width height n : Nat) : Cursor := ⟨n % width, n / width % height⟩

/-- Lines are numbered one behind the other, and so are the places on them. -/
def index (width : Nat) (cursor : Cursor) : Nat := cursor.row * width + cursor.column

/-- A counter that wraps at its limit counts the remainder. -/
theorem succ_mod_limit (wide : 0 < width) :
    (n + 1) % width = if n % width + 1 = width then 0 else n % width + 1 := by
  -- The counter is below its limit before the step.
  have within := Nat.mod_lt n wide
  rw [← Nat.mod_add_mod]
  split
  · -- The counter meets its limit.
    rename_i full
    rw [full, Nat.mod_self]
  · -- Below the limit the remainder is the counter itself.
    exact Nat.mod_eq_of_lt (by omega)

/-- What carries over is the quotient. -/
theorem succ_div_limit (wide : 0 < width) :
    (n + 1) / width = if n % width + 1 = width then n / width + 1 else n / width := by
  -- A quotient is settled by the two products around the number.
  have within := Nat.mod_lt n wide
  have parts := Nat.div_add_mod n width
  split
  · -- The last place of a line is followed by the first one of the next.
    refine Nat.div_eq_of_lt_le ?_ ?_
    · rw [Nat.mul_comm, Nat.mul_succ]
      omega
    · rw [Nat.mul_comm, Nat.mul_succ, Nat.mul_succ]
      omega
  · -- Elsewhere the next place is on the same line.
    refine Nat.div_eq_of_lt_le ?_ ?_
    · rw [Nat.mul_comm]
      omega
    · rw [Nat.mul_comm, Nat.mul_succ]
      omega

/-- The cursor takes one step at a time. -/
theorem after_succ (wide : 0 < width) (high : 0 < height) :
    next width height (after width height n) = after width height (n + 1) := by
  -- The row takes a step when the column carries over, and counts round by the same rule.
  unfold next after
  rw [succ_mod_limit wide, succ_div_limit wide]
  dsimp only
  split
  · rw [succ_mod_limit high]
  · rfl

/-- The place after `n` steps is the one with the number `n`, counted round. -/
theorem index_after : (after width height n).index width = n % (width * height) := by
  rw [index, after, Nat.mod_mul, Nat.mul_comm width, Nat.add_comm]

end Cursor

end Cursor

section Ring

variable {α : Type*} {size : Nat} {blank cell cell' : Nat → α} {history : List α}

/-- The last of the values that have been written to a cell, each in the cell behind the one before. -/
def IsLast (size : Nat) (history : List α) (k i : Nat) : Prop :=
  i % size = k ∧ ∀ j < history.length, j % size = k → j ≤ i

/-- Each cell holds the last value that was written to it, or what it held at first. -/
structure RingShows (size : Nat) (blank cell : Nat → α) (history : List α) : Prop where
  last : ∀ k < size, ∀ i a, history[i]? = some a → IsLast size history k i → cell k = a
  first : ∀ k < size, (∀ i < history.length, i % size ≠ k) → cell k = blank k

/-- A ring that nothing has been written to. -/
theorem RingShows.nil (same : ∀ k < size, cell k = blank k) : RingShows size blank cell [] :=
  ⟨fun _ _ _ _ value => absurd value (by simp), fun k within _ => same k within⟩

/-- Only the cells of the ring itself count. -/
theorem RingShows.congr (shows : RingShows size blank cell history)
    (same : ∀ k < size, cell' k = cell k) : RingShows size blank cell' history :=
  ⟨fun k within i a value last => (same k within).trans (shows.last k within i a value last),
    fun k within untouched => (same k within).trans (shows.first k within untouched)⟩

/-- Writing one more value to the next cell. -/
theorem RingShows.push (shows : RingShows size blank cell history) {a : α}
    (written : cell' (history.length % size) = a)
    (kept : ∀ k < size, k ≠ history.length % size → cell' k = cell k) :
    RingShows size blank cell' (history ++ [a]) := by
  -- A cell is asked for its last value, or for the one it held at first.
  have grown : (history ++ [a]).length = history.length + 1 := List.length_append
  refine ⟨fun k within i b value ⟨place, latest⟩ => ?_, fun k within untouched => ?_⟩
  · by_cases here : k = history.length % size
    · -- The cell is the new value's, which is the last one.
      have newest := latest history.length (by omega) here.symm
      have bound := (List.getElem?_eq_some_iff.mp value).1
      obtain rfl : i = history.length := by omega
      rw [List.getElem?_concat_length] at value
      rw [here, written, Option.some.inj value]
    · -- Elsewhere the last value is that of the history before.
      have old : i < history.length := by
        have bound := (List.getElem?_eq_some_iff.mp value).1
        have other : i ≠ history.length := by
          rintro rfl
          exact here place.symm
        omega
      rw [List.getElem?_append_left old] at value
      rw [kept k within here]
      exact shows.last k within i b value ⟨place, fun j inside => latest j (by omega)⟩
  · -- A cell that nothing has come to is not the one that is written now.
    have other : k ≠ history.length % size := fun same => untouched _ (by omega) same.symm
    rw [kept k within other]
    exact shows.first k within fun i inside => untouched i (by omega)

end Ring

end Lib
