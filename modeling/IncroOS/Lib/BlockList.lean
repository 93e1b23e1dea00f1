import Mathlib.Algebra.GroupWithZero.Nat
import Mathlib.Data.List.Chain

/-! Blocks laid end to end, each behind a header: carving a free block and joining free neighbours. -/

namespace Lib

/-- A block of memory behind a header, free or in use. -/
structure Block where
  size : Nat
  free : Bool
  deriving DecidableEq, Repr

namespace Block

/-- The bytes that blocks and their headers take together. -/
def span (header : Nat) (blocks : List Block) : Nat :=
  (blocks.map fun b => header + b.size).sum

/-- A free block large enough for a request. -/
def Fits (need : Nat) (b : Block) : Prop := b.free = true ∧ need ≤ b.size

instance (need : Nat) (b : Block) : Decidable (Fits need b) := inferInstanceAs (Decidable (_ ∧ _))

/-- Put a free block to use, splitting off what lies beyond the request when it is large enough. -/
def carve (header least need : Nat) (b : Block) : List Block :=
  if need + header + least ≤ b.size then [⟨need, false⟩, ⟨b.size - need - header, true⟩]
  else [⟨b.size, false⟩]

/-- Put a block in front of others, joining it with the first of them when both are free. -/
def push (header : Nat) (b : Block) : List Block → List Block
  | [] => [b]
  | c :: rest => if b.free && c.free then ⟨b.size + header + c.size, true⟩ :: rest else b :: c :: rest

/-- Join every run of neighbouring free blocks into one. -/
def coalesce (header : Nat) (blocks : List Block) : List Block :=
  blocks.foldr (push header) []

/-- The block with its flag raised. -/
def released (b : Block) : Block := { b with free := true }

/-- No two neighbouring blocks are both free. -/
def Coalesced (blocks : List Block) : Prop :=
  blocks.IsChain fun b c => ¬(b.free = true ∧ c.free = true)

/-- The payloads of the blocks in use, with their sizes, when the blocks are laid from `a` on. -/
def inUse (header : Nat) : Nat → List Block → List (Nat × Nat)
  | _, [] => []
  | a, b :: rest =>
    let later := inUse header (a + header + b.size) rest
    if b.free then later else (a + header, b.size) :: later

section Span

variable (header : Nat)

@[simp] theorem span_nil : span header [] = 0 := rfl

@[simp] theorem span_cons (b : Block) (rest : List Block) :
    span header (b :: rest) = header + b.size + span header rest := by
  simp [span]

@[simp] theorem span_append (front back : List Block) :
    span header (front ++ back) = span header front + span header back := by
  simp [span]

/-- Carving neither loses nor gains a byte. -/
theorem span_carve (least need : Nat) (b : Block) :
    span header (carve header least need b) = header + b.size := by
  -- A split spends one header of the free block on the new one.
  unfold carve
  split
  · simp only [span_cons, span_nil]
    omega
  · simp

/-- Joining neighbours neither loses nor gains a byte. -/
theorem span_push (b : Block) (blocks : List Block) :
    span header (push header b blocks) = header + b.size + span header blocks := by
  -- The header of the joined neighbour becomes part of the payload.
  cases blocks with
  | nil => simp [push]
  | cons c rest =>
    simp only [push]
    split
    · simp only [span_cons]
      omega
    · simp

theorem span_coalesce (blocks : List Block) :
    span header (coalesce header blocks) = span header blocks := by
  -- Each block is pushed in front of what is joined already.
  induction blocks with
  | nil => rfl
  | cons b rest ih =>
    have pushed := span_push header b (coalesce header rest)
    rw [ih] at pushed
    rw [span_cons, ← pushed]
    rfl

end Span

section Coalesced

variable (header : Nat)

/-- A block pushed in front of a coalesced list shows its own flag first. -/
theorem push_head (b : Block) (blocks : List Block) :
    ∃ size rest, push header b blocks = ⟨size, b.free⟩ :: rest := by
  -- A block is joined only if it is free, and then the joined one is free too.
  cases blocks with
  | nil => exact ⟨b.size, [], rfl⟩
  | cons c rest =>
    simp only [push]
    split
    · rename_i both
      have raised : b.free = true := by simp_all
      exact ⟨_, rest, by rw [raised]⟩
    · exact ⟨b.size, c :: rest, rfl⟩

/-- Pushing adds at most one block. -/
theorem length_push_le (b : Block) (blocks : List Block) :
    (push header b blocks).length ≤ blocks.length + 1 := by
  -- Joining replaces the first block, and otherwise one is put in front.
  cases blocks with
  | nil => exact Nat.le_refl _
  | cons c rest =>
    simp only [push]
    split <;> simp

/-- Pushing keeps a list coalesced. -/
theorem Coalesced.push {blocks : List Block} (coalesced : Coalesced blocks) (b : Block) :
    Coalesced (push header b blocks) := by
  -- A merged block is followed by what followed the free block it took in, which is not free.
  cases blocks with
  | nil => exact List.isChain_singleton b
  | cons c rest =>
    simp only [Block.push]
    split
    · rename_i both
      have raised : c.free = true := by simp_all
      cases rest with
      | nil => exact List.isChain_singleton _
      | cons d tail =>
        obtain ⟨apart, chain⟩ := List.isChain_cons_cons.mp coalesced
        refine List.isChain_cons_cons.mpr ⟨?_, chain⟩
        rintro ⟨-, next⟩
        exact apart ⟨raised, next⟩
    · rename_i notBoth
      exact List.isChain_cons_cons.mpr ⟨by simpa using notBoth, coalesced⟩

/-- Joining neighbours leaves no two free blocks side by side. -/
theorem coalesced_coalesce (blocks : List Block) : Coalesced (coalesce header blocks) := by
  induction blocks with
  | nil => exact List.isChain_nil
  | cons b rest ih => exact ih.push header b

/-- Carving a free block keeps a list coalesced, since neither neighbour of a free block is free. -/
theorem Coalesced.carve {front back : List Block} {b : Block} (least need : Nat)
    (coalesced : Coalesced (front ++ b :: back)) (raised : b.free = true) :
    Coalesced (front ++ carve header least need b ++ back) := by
  have before : Coalesced front := coalesced.left_of_append
  have after : Coalesced (b :: back) := coalesced.right_of_append
  -- The first carved block is in use, so it agrees with any neighbour before it.
  have meets : ∀ rest : List Block, ∀ size, Coalesced (⟨size, false⟩ :: rest) →
      Coalesced (front ++ ⟨size, false⟩ :: rest) := by
    intro rest size chain
    refine List.isChain_append.mpr ⟨before, chain, ?_⟩
    intro left _ right isRight
    have shape : right = ⟨size, false⟩ := by simpa using isRight.symm
    simp [shape]
  unfold Block.carve
  split
  · -- What remains is free, like the block it was cut from.
    rw [List.append_assoc]
    refine meets _ need (List.isChain_cons_cons.mpr ⟨by simp, ?_⟩)
    cases back with
    | nil => exact List.isChain_singleton _
    | cons c rest =>
      obtain ⟨apart, chain⟩ := List.isChain_cons_cons.mp after
      refine List.isChain_cons_cons.mpr ⟨?_, chain⟩
      rintro ⟨-, next⟩
      exact apart ⟨raised, next⟩
  · rw [List.append_assoc]
    refine meets _ b.size ?_
    cases back with
    | nil => exact List.isChain_singleton _
    | cons c rest =>
      have chain := (List.isChain_cons_cons.mp after).2
      exact List.isChain_cons_cons.mpr ⟨by simp, chain⟩

/-- A property of sizes that joining keeps is kept by coalescing. -/
theorem size_coalesce {P : Nat → Prop} (joins : ∀ m n, P m → P n → P (m + header + n))
    {blocks : List Block} (holds : ∀ b ∈ blocks, P b.size) :
    ∀ b ∈ coalesce header blocks, P b.size := by
  -- The invariant is carried from the back of the list, where joining starts.
  induction blocks with
  | nil => simp [coalesce]
  | cons b rest ih =>
    have first : P b.size := holds b (by simp)
    have others := ih fun c member => holds c (by simp [member])
    have same : coalesce header (b :: rest) = push header b (coalesce header rest) := rfl
    rw [same]
    cases shape : coalesce header rest with
    | nil => simpa [push] using first
    | cons c tail =>
      rw [shape] at others
      have second : P c.size := others c (by simp)
      simp only [push]
      split
      · intro d member
        rcases List.mem_cons.mp member with rfl | later
        · exact joins _ _ first second
        · exact others d (by simp [later])
      · intro d member
        rcases List.mem_cons.mp member with rfl | later
        · exact first
        · exact others d later

/-- A block that may not join its successor is simply put in front. -/
theorem push_of_coalesced {b : Block} {blocks : List Block} (coalesced : Coalesced (b :: blocks)) :
    push header b blocks = b :: blocks := by
  -- Of two neighbours in a coalesced list at most one is free.
  cases blocks with
  | nil => rfl
  | cons c rest =>
    have apart := (List.isChain_cons_cons.mp coalesced).1
    simp only [push]
    rw [if_neg (by simpa using apart)]

/-- A coalesced list has nothing left to join. -/
theorem coalesce_of_coalesced {blocks : List Block} (coalesced : Coalesced blocks) :
    coalesce header blocks = blocks := by
  -- By induction the tail stays, and the head does not join it.
  induction blocks with
  | nil => rfl
  | cons b rest ih =>
    have tail : Coalesced rest := coalesced.tail
    have same : coalesce header (b :: rest) = push header b (coalesce header rest) := rfl
    rw [same, ih tail, push_of_coalesced header coalesced]

/-- Behind a coalesced front, only its last block may join what follows. -/
theorem coalesce_append_push {front blocks : List Block} {d : Block}
    (before : Coalesced (front ++ [d])) (after : Coalesced blocks) :
    coalesce header ((front ++ [d]) ++ blocks) = front ++ push header d blocks := by
  -- The induction walks back over the front, where no block may join the next.
  induction front with
  | nil =>
    have same : coalesce header ([d] ++ blocks) = push header d (coalesce header blocks) := rfl
    rw [List.nil_append, same, coalesce_of_coalesced header after, List.nil_append]
  | cons b rest ih =>
    have tail : Coalesced (rest ++ [d]) := before.tail
    have same : coalesce header ((b :: rest ++ [d]) ++ blocks) =
        push header b (coalesce header ((rest ++ [d]) ++ blocks)) := rfl
    rw [same, ih tail, List.cons_append]
    -- What follows `b` starts with the flag that followed it before.
    cases rest with
    | nil =>
      obtain ⟨size, tail, shape⟩ := push_head header d blocks
      have apart : ¬(b.free = true ∧ d.free = true) := (List.isChain_cons_cons.mp before).1
      rw [List.nil_append, shape, push, if_neg (by simpa using apart)]
    | cons c tail =>
      have apart : ¬(b.free = true ∧ c.free = true) := (List.isChain_cons_cons.mp before).1
      rw [List.cons_append, push, if_neg (by simpa using apart)]

/-- Releasing the first block of a coalesced list joins it with a free successor at most. -/
theorem coalesce_released_first {b : Block} {back : List Block} (coalesced : Coalesced back) :
    coalesce header (b.released :: back) = push header b.released back := by
  have same : coalesce header (b.released :: back) =
      push header b.released (coalesce header back) := rfl
  rw [same, coalesce_of_coalesced header coalesced]

/-- Releasing a later block joins it with a free successor, and the result with a free predecessor. -/
theorem coalesce_released_after {front back : List Block} {b d : Block}
    (coalesced : Coalesced (front ++ d :: b :: back)) :
    coalesce header (front ++ d :: b.released :: back) =
      front ++ push header d (push header b.released back) := by
  have parts : Coalesced ((front ++ [d]) ++ (b :: back)) := by simpa using coalesced
  have before : Coalesced (front ++ [d]) := parts.left_of_append
  have rest : Coalesced back := parts.right_of_append.tail
  have joined := coalesce_append_push header before (rest.push header b.released)
  -- Coalescing the tail first changes nothing in the final result.
  have folded : coalesce header (front ++ d :: b.released :: back) =
      coalesce header ((front ++ [d]) ++ push header b.released back) := by
    have fixed : coalesce header (push header b.released back) =
        coalesce header (b.released :: back) := by
      rw [coalesce_of_coalesced header (rest.push header b.released), coalesce_released_first header rest]
    simp only [coalesce, List.foldr_append, List.foldr_cons, List.foldr_nil] at fixed ⊢
    rw [fixed]
  rw [folded, joined]

end Coalesced

section InUse

variable (header : Nat) {a : Nat} {front back blocks : List Block} {b : Block}

theorem inUse_append :
    inUse header a (front ++ back) =
      inUse header a front ++ inUse header (a + span header front) back := by
  -- The back part starts where the front part's bytes end.
  induction front generalizing a with
  | nil => simp [inUse]
  | cons c rest ih =>
    have place : a + header + c.size + span header rest = a + span header (c :: rest) := by
      simp only [span_cons]
      omega
    simp only [List.cons_append, inUse, ih, place]
    split <;> simp

/-- A free block has no payload in use. -/
theorem inUse_free (raised : b.free = true) :
    inUse header a (b :: blocks) = inUse header (a + header + b.size) blocks := by
  simp [inUse, raised]

/-- Joining free blocks does not touch those in use. -/
theorem inUse_push : inUse header a (push header b blocks) = inUse header a (b :: blocks) := by
  -- Joined blocks are free before and after, and what follows keeps its place.
  cases blocks with
  | nil => rfl
  | cons c rest =>
    simp only [push]
    split
    · rename_i both
      obtain ⟨left, right⟩ : b.free = true ∧ c.free = true := by simpa using both
      have place : a + header + (b.size + header + c.size) =
          a + header + b.size + header + c.size := by omega
      rw [inUse_free header rfl, inUse_free header left, inUse_free header right, place]
    · rfl

theorem inUse_coalesce : inUse header a (coalesce header blocks) = inUse header a blocks := by
  -- Pushing never changes what is in use, whatever the tail has become.
  induction blocks generalizing a with
  | nil => rfl
  | cons b rest ih =>
    have same : coalesce header (b :: rest) = push header b (coalesce header rest) := rfl
    rw [same, inUse_push]
    simp only [inUse, ih]

/-- Carving a free block that fits puts one payload of sufficient size to use. -/
theorem inUse_carve {need : Nat} (least a : Nat) (fits : Fits need b) :
    ∃ size, need ≤ size ∧ inUse header a (carve header least need b) = [(a + header, size)] := by
  -- The block is split behind the request, or it is used whole.
  unfold carve
  split
  · exact ⟨need, Nat.le_refl _, by simp [inUse]⟩
  · exact ⟨b.size, fits.2, by simp [inUse]⟩

/-- Around a free block, the payloads in use are those before it and those behind it. -/
theorem inUse_around (raised : b.free = true) :
    inUse header a (front ++ b :: back) =
      inUse header a front ++ inUse header (a + span header front + header + b.size) back := by
  rw [inUse_append, inUse_free header raised]

/-- Around a block in use, its own payload comes between those before it and those behind it. -/
theorem inUse_around_used (used : b.free = false) :
    inUse header a (front ++ b :: back) =
      inUse header a front ++ (a + span header front + header, b.size) ::
        inUse header (a + span header front + header + b.size) back := by
  rw [inUse_append]
  simp [inUse, used]

/-- Carving a free block that fits adds one payload of sufficient size to those in use. -/
theorem inUse_carved {need : Nat} (least : Nat) (fits : Fits need b) :
    ∃ size, need ≤ size ∧ inUse header a (front ++ carve header least need b ++ back) =
      inUse header a front ++ (a + span header front + header, size) ::
        inUse header (a + span header front + header + b.size) back := by
  obtain ⟨size, enough, carved⟩ := inUse_carve header least (a + span header front) fits
  refine ⟨size, enough, ?_⟩
  -- The carved blocks end where the free block ended.
  rw [inUse_append, inUse_append, carved, span_append, span_carve, ← Nat.add_assoc, ← Nat.add_assoc,
    List.append_assoc, List.singleton_append]

/-- Releasing a block takes its payload from those in use, and joining leaves the others. -/
theorem inUse_released :
    inUse header a (coalesce header (front ++ b.released :: back)) =
      inUse header a front ++ inUse header (a + span header front + header + b.size) back := by
  rw [inUse_coalesce, inUse_around header (show b.released.free = true from rfl)]
  rfl

/-- What is in use behind a release was in use before it. -/
theorem inUse_released_subset (used : b.free = false) :
    inUse header a (coalesce header (front ++ b.released :: back)) ⊆
      inUse header a (front ++ b :: back) := by
  -- Only the block itself goes; those before and behind it stay.
  rw [inUse_released, inUse_around_used header used]
  intro payload member
  rcases List.mem_append.mp member with before | behind
  · exact List.mem_append_left _ before
  · exact List.mem_append_right _ (List.mem_cons_of_mem _ behind)

/-- A payload in use belongs to one of the blocks. -/
theorem mem_inUse {p n : Nat} :
    (p, n) ∈ inUse header a blocks ↔ ∃ front b back, blocks = front ++ b :: back ∧
      b.free = false ∧ p = a + span header front + header ∧ n = b.size := by
  -- The payload is that of the first block, or one further back in the list.
  induction blocks generalizing a with
  | nil => simp [inUse]
  | cons c rest ih =>
    have later : (p, n) ∈ inUse header (a + header + c.size) rest ↔
        ∃ front b back, c :: rest = c :: front ++ b :: back ∧
          b.free = false ∧ p = a + span header (c :: front) + header ∧ n = b.size := by
      rw [ih]
      simp [Nat.add_assoc]
    constructor
    · intro member
      cases raised : c.free with
      | true =>
        rw [inUse_free header raised] at member
        obtain ⟨front, b, back, found⟩ := later.mp member
        exact ⟨c :: front, b, back, found⟩
      | false =>
        simp only [inUse, raised, Bool.false_eq_true, if_false, List.mem_cons] at member
        rcases member with first | member
        · obtain ⟨rfl, rfl⟩ := Prod.mk.inj first
          exact ⟨[], c, rest, rfl, raised, by simp, rfl⟩
        · obtain ⟨front, b, back, found⟩ := later.mp member
          exact ⟨c :: front, b, back, found⟩
    · rintro ⟨front, b, back, shape, used, place, size⟩
      -- An empty front means that the block is the first one.
      cases front with
      | nil =>
        rw [List.nil_append, List.cons.injEq] at shape
        obtain ⟨rfl, rfl⟩ := shape
        simp [inUse, used, place, size]
      | cons d front =>
        have same : c = d := (List.cons.inj shape).1
        subst same
        have member := later.mpr ⟨front, b, back, shape, used, place, size⟩
        simp only [inUse]
        split
        · exact member
        · exact List.mem_cons_of_mem _ member

/-- A payload in use lies within the bytes the blocks take, behind a header. -/
theorem inUse_bounds {p n : Nat} (member : (p, n) ∈ inUse header a blocks) :
    a + header ≤ p ∧ p + n ≤ a + span header blocks := by
  obtain ⟨front, b, back, rfl, -, rfl, rfl⟩ := (mem_inUse header).mp member
  simp only [span_append, span_cons]
  omega

end InUse

end Block

end Lib
