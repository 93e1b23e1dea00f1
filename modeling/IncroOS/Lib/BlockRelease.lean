import Mathlib.Data.List.Perm.Basic
import IncroOS.Lib.BlockList

/-! Releasing blocks by their payload address: the order of releases, and the bytes in and out of use. -/

namespace Lib

namespace Block

/-- Raise the flag of the block whose payload is at `p`, with the blocks laid from `a` on. -/
def raiseAt (header p : Nat) : Nat → List Block → List Block
  | _, [] => []
  | a, b :: rest =>
    (if a + header = p then b.released else b) :: raiseAt header p (a + header + b.size) rest

/-- The total size of the blocks in use. -/
def usedSize (blocks : List Block) : Nat :=
  (blocks.map fun b => if b.free then 0 else b.size).sum

/-- The total size of the free blocks. -/
def freeSize (blocks : List Block) : Nat :=
  (blocks.map fun b => if b.free then b.size else 0).sum

section Raise

variable (header : Nat) {a p : Nat} {front back blocks : List Block} {b : Block}

theorem raiseAt_append :
    raiseAt header p a (front ++ back) =
      raiseAt header p a front ++ raiseAt header p (a + span header front) back := by
  -- The address at which the back starts is reached block by block.
  induction front generalizing a with
  | nil => simp [raiseAt]
  | cons c rest ih =>
    have place : a + header + c.size + span header rest = a + span header (c :: rest) := by
      simp only [span_cons]
      omega
    simp only [List.cons_append, raiseAt, ih, place]

/-- An address that is no payload's raises nothing. -/
theorem raiseAt_apart (apart : p < a + header ∨ a + span header blocks < p) :
    raiseAt header p a blocks = blocks := by
  -- Every payload starts behind a header and within the span.
  induction blocks generalizing a with
  | nil => rfl
  | cons c rest ih =>
    simp only [span_cons] at apart
    rw [raiseAt, if_neg (by omega), ih (by omega)]

/-- The block at a payload address is the one that is raised. -/
theorem raiseAt_here (positive : 0 < header) :
    raiseAt header (a + span header front + header) a (front ++ b :: back) =
      front ++ b.released :: back := by
  -- Addresses before the block are too low, and those behind it too high.
  rw [raiseAt_append, raiseAt, if_pos rfl, raiseAt_apart header (.inr (by omega)),
    raiseAt_apart header (.inl (by omega))]

/-- Two flags can be raised in either order. -/
theorem raiseAt_comm (q : Nat) :
    raiseAt header p a (raiseAt header q a blocks) = raiseAt header q a (raiseAt header p a blocks) := by
  induction blocks generalizing a with
  | nil => rfl
  | cons c rest ih =>
    -- A raised block has the size it had, so the others stay where they are.
    have size : ∀ x, (if a + header = x then c.released else c).size = c.size := by
      intro x
      split <;> rfl
    simp only [raiseAt, size, ih, List.cons.injEq, and_true]
    split <;> split <;> rfl

/-- A free block stays as it is when its flag is raised again. -/
theorem released_free (raised : b.free = true) : b.released = b := by
  cases b
  cases raised
  rfl

end Raise

section Joining

variable (header : Nat) {a p : Nat} {blocks : List Block} {b c : Block}

/-- Joining two free blocks first, or one after the other, gives the same. -/
theorem push_push (first : b.free = true) (second : c.free = true) :
    push header ⟨b.size + header + c.size, true⟩ blocks = push header b (push header c blocks) := by
  -- Only the flag of the block that follows decides how many are joined.
  cases blocks with
  | nil => simp [push, first, second]
  | cons d rest =>
    cases third : d.free with
    | true => simp [push, first, second, third, Nat.add_assoc]
    | false => simp [push, first, second, third]

/-- Raising a flag after a join, and joining again, is raising it before a single join. -/
theorem coalesce_raiseAt_coalesce :
    coalesce header (raiseAt header p a (coalesce header blocks)) =
      coalesce header (raiseAt header p a blocks) := by
  -- Each block either stands alone in front of the joined rest or is joined with its first block.
  induction blocks generalizing a with
  | nil => rfl
  | cons b rest ih =>
    have folded : ∀ (d : Block) (list : List Block),
        coalesce header (d :: list) = push header d (coalesce header list) := fun d list => rfl
    rw [folded]
    cases shape : coalesce header rest with
    | nil =>
      have tail := ih (a := a + header + b.size)
      rw [shape] at tail
      simp only [push, raiseAt, folded, ← tail]
    | cons c later =>
      have tail := ih (a := a + header + b.size)
      rw [shape] at tail
      by_cases both : b.free = true ∧ c.free = true
      · -- Neither flag can change, so the join can be made before or after.
        obtain ⟨first, second⟩ := both
        have place : a + header + (b.size + header + c.size) =
            a + header + b.size + header + c.size := by omega
        have keep : ∀ d : Block, d.free = true → ∀ x,
            (if x = p then d.released else d) = d := by
          intro d raised x
          rw [released_free raised, ite_self]
        simp only [push, first, second, Bool.and_self, if_true]
        rw [raiseAt, raiseAt, folded, folded, keep _ rfl, keep b first, ← tail, raiseAt, folded,
          keep c second, place, push_push header first second]
      · -- The block stays in front of the rest, whatever its flag becomes.
        have apart : (b.free && c.free) = false := by simpa using both
        simp only [push, apart, Bool.false_eq_true, if_false]
        rw [raiseAt, folded, tail, raiseAt, folded]

/-- Joining what stands behind first, or only with the whole list, gives the same. -/
theorem coalesce_append_congr {left right : List Block}
    (same : coalesce header left = coalesce header right) (front : List Block) :
    coalesce header (front ++ left) = coalesce header (front ++ right) := by
  simp only [coalesce, List.foldr_append] at same ⊢
  rw [same]

/-- Releasing a block that was just carved, and joining, restores the list it was carved from. -/
theorem coalesce_carved {front back : List Block} {need : Nat} (least : Nat)
    (coalesced : Coalesced (front ++ b :: back)) (fits : Fits need b) :
    ∃ c rest, carve header least need b = c :: rest ∧ c.free = false ∧
      coalesce header (front ++ c.released :: (rest ++ back)) = front ++ b :: back := by
  have whole : coalesce header (front ++ b :: back) = front ++ b :: back :=
    coalesce_of_coalesced header coalesced
  unfold carve
  split
  · -- The two parts join into the block they were cut from, before any neighbour is looked at.
    rename_i room
    refine ⟨_, _, rfl, rfl, ?_⟩
    rw [← whole]
    refine coalesce_append_congr header ?_ front
    have parts : b = ⟨need + header + (b.size - need - header), true⟩ := by
      cases b
      simp only [Fits] at fits
      simp only [mk.injEq, fits.1, and_true]
      simp only at room
      omega
    have folded : ∀ (d : Block) (list : List Block),
        coalesce header (d :: list) = push header d (coalesce header list) := fun d list => rfl
    rw [List.singleton_append, folded, folded, folded b, ← push_push header rfl rfl]
    exact congrArg (fun d => push header d (coalesce header back)) parts.symm
  · -- Taken as a whole, the block only gets its flag back.
    refine ⟨_, _, rfl, rfl, ?_⟩
    have restored : (⟨b.size, false⟩ : Block).released = b := by
      cases b
      simp only [Fits] at fits
      simp [released, fits.1]
    rw [restored, List.nil_append, whole]

/-- Raising every flag leaves one free block. -/
theorem coalesce_all_free (allFree : ∀ d ∈ blocks, d.free = true) (filled : blocks ≠ []) :
    coalesce header blocks = [⟨span header blocks - header, true⟩] := by
  induction blocks with
  | nil => exact absurd rfl filled
  | cons b rest ih =>
    have first : b.free = true := allFree b (by simp)
    have folded : coalesce header (b :: rest) = push header b (coalesce header rest) := rfl
    rw [folded]
    cases rest with
    | nil =>
      -- The last block has nothing to join with.
      cases b
      cases first
      simp [coalesce, push]
    | cons c later =>
      rw [ih (fun d member => allFree d (by simp [member])) (by simp)]
      simp only [push, first, Bool.and_self, if_true, span_cons]
      congr 2
      omega

end Joining

section Sizes

variable (header : Nat) {a p : Nat} {front back blocks : List Block} {b : Block}

@[simp] theorem usedSize_nil : usedSize [] = 0 := rfl

@[simp] theorem usedSize_cons :
    usedSize (b :: blocks) = (if b.free then 0 else b.size) + usedSize blocks := by
  simp [usedSize]

@[simp] theorem usedSize_append : usedSize (front ++ back) = usedSize front + usedSize back := by
  simp [usedSize]

@[simp] theorem freeSize_nil : freeSize [] = 0 := rfl

@[simp] theorem freeSize_cons :
    freeSize (b :: blocks) = (if b.free then b.size else 0) + freeSize blocks := by
  simp [freeSize]

/-- Every byte the blocks take is in use, free, or part of a header. -/
theorem usedSize_add_freeSize (blocks : List Block) :
    usedSize blocks + freeSize blocks + header * blocks.length = span header blocks := by
  -- Each block adds its size on one side, and its header.
  induction blocks with
  | nil => rfl
  | cons b rest ih =>
    simp only [usedSize_cons, freeSize_cons, List.length_cons, span_cons, Nat.mul_succ]
    split <;> omega

/-- Joining free blocks does not change what is in use. -/
theorem usedSize_coalesce : usedSize (coalesce header blocks) = usedSize blocks := by
  -- The list grows from the back, and only its first block can be joined.
  induction blocks with
  | nil => rfl
  | cons b rest ih =>
    have folded : coalesce header (b :: rest) = push header b (coalesce header rest) := rfl
    rw [folded, usedSize_cons, ← ih]
    cases coalesce header rest with
    | nil => simp [push]
    | cons c later =>
      simp only [push]
      split
      · -- A joined block is free, as both of its parts were.
        rename_i both
        obtain ⟨first, second⟩ : b.free = true ∧ c.free = true := by simpa using both
        simp [first, second]
      · simp

end Sizes

end Block

end Lib
