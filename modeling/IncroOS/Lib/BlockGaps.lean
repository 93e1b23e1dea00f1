import IncroOS.Lib.BlockList

/-! The gaps between blocks in use: in a joined list each gap is exactly one free block. -/

namespace Lib

/-- A range between two bounds that avoids a set of addresses and cannot be made longer. -/
structure Gap (covered : Nat → Prop) (base limit lo hi : Nat) : Prop where
  low : base ≤ lo
  proper : lo < hi
  high : hi ≤ limit
  avoids : ∀ x, lo ≤ x → x < hi → ¬ covered x
  left : lo = base ∨ covered (lo - 1)
  right : hi = limit ∨ covered hi

/-- The gaps depend on which addresses are covered only. -/
theorem Gap.congr {covered covered' : Nat → Prop} {base limit lo hi : Nat}
    (same : ∀ x, covered x ↔ covered' x) (gap : Gap covered base limit lo hi) :
    Gap covered' base limit lo hi where
  low := gap.low
  proper := gap.proper
  high := gap.high
  avoids := fun x above below inside => gap.avoids x above below ((same x).mpr inside)
  left := gap.left.imp id (same (lo - 1)).mp
  right := gap.right.imp id (same hi).mp

namespace Block

/-- An address in a block in use, header or payload, with the blocks laid from `a` on. -/
def Covered (header : Nat) : Nat → List Block → Nat → Prop
  | _, [], _ => False
  | a, b :: rest, x =>
    (b.free = false ∧ a ≤ x ∧ x < a + header + b.size) ∨ Covered header (a + header + b.size) rest x

section Covered

variable (header : Nat) {a x lo hi : Nat} {front back blocks : List Block} {b : Block}

theorem covered_append :
    Covered header a (front ++ back) x ↔
      Covered header a front x ∨ Covered header (a + span header front) back x := by
  -- The back part starts where the front part's bytes end.
  induction front generalizing a with
  | nil => simp [Covered]
  | cons c rest ih =>
    have place : a + header + c.size + span header rest = a + span header (c :: rest) := by
      simp only [span_cons]
      omega
    simp only [List.cons_append, Covered, ih, place, or_assoc]

/-- What is covered lies within the bytes the blocks take. -/
theorem Covered.bounds (inside : Covered header a blocks x) :
    a ≤ x ∧ x < a + span header blocks := by
  -- A block covers bytes of its own span, and the rest lies behind it.
  induction blocks generalizing a with
  | nil => exact inside.elim
  | cons c rest ih =>
    simp only [span_cons]
    rcases inside with ⟨-, low, high⟩ | later
    · omega
    · have := ih later
      omega

/-- Within the bytes of one block, being covered is up to that block's flag. -/
theorem covered_within (low : a + span header front ≤ x)
    (high : x < a + span header front + header + b.size) :
    Covered header a (front ++ b :: back) x ↔ b.free = false := by
  -- The blocks before end at or below the byte, and those behind start above it.
  rw [covered_append]
  constructor
  · rintro (before | ⟨used, -⟩ | behind)
    · have := before.bounds
      omega
    · exact used
    · have := behind.bounds
      omega
  · intro used
    exact .inr (.inl ⟨used, low, high⟩)

/-- Each byte that blocks take lies in one of them. -/
theorem exists_block (low : a ≤ x) (high : x < a + span header blocks) :
    ∃ front b back, blocks = front ++ b :: back ∧ a + span header front ≤ x ∧
      x < a + span header front + header + b.size := by
  -- The byte lies in the first block, or among those behind it.
  induction blocks generalizing a with
  | nil =>
    rw [span_nil] at high
    omega
  | cons c rest ih =>
    rw [span_cons] at high
    rcases Nat.lt_or_ge x (a + header + c.size) with here | later
    · exact ⟨[], c, rest, rfl, by simpa using low, by simpa using here⟩
    · obtain ⟨front, b, back, rfl, below, above⟩ := ih later (by omega)
      refine ⟨c :: front, b, back, rfl, ?_, ?_⟩
      · rw [span_cons]
        omega
      · rw [span_cons]
        omega

/-- The byte right before a free block of a joined list is covered, unless nothing is before it. -/
theorem covered_before (positive : 0 < header) (coalesced : Coalesced (front ++ b :: back))
    (raised : b.free = true) :
    front = [] ∨ Covered header a (front ++ b :: back) (a + span header front - 1) := by
  rcases List.eq_nil_or_concat' front with rfl | ⟨init, d, rfl⟩
  · exact .inl rfl
  · refine .inr ?_
    simp only [List.append_assoc, List.singleton_append] at coalesced ⊢
    -- The neighbour before a free block is in use.
    have apart := (List.isChain_cons_cons.mp coalesced.right_of_append).1
    have used : d.free = false := by simpa [raised] using apart
    rw [span_append, span_cons, span_nil]
    exact (covered_within header (by omega) (by omega)).mpr used

/-- The byte right behind a free block of a joined list is covered, unless nothing is behind it. -/
theorem covered_behind (positive : 0 < header) (coalesced : Coalesced (front ++ b :: back))
    (raised : b.free = true) :
    back = [] ∨
      Covered header a (front ++ b :: back) (a + span header front + header + b.size) := by
  -- The block that follows is in use, since two free neighbours would have been joined.
  cases back with
  | nil => exact .inl rfl
  | cons c rest =>
    refine .inr ?_
    have apart := (List.isChain_cons_cons.mp coalesced.right_of_append).1
    have used : c.free = false := by simpa [raised] using apart
    have shape : front ++ b :: c :: rest = (front ++ [b]) ++ c :: rest := by simp
    rw [shape]
    refine (covered_within header ?_ ?_).mpr used
    · simp only [span_append, span_cons, span_nil]
      omega
    · simp only [span_append, span_cons, span_nil]
      omega

/-- A free block of a joined list is a gap. -/
theorem gap_of_free (positive : 0 < header) (coalesced : Coalesced (front ++ b :: back))
    (raised : b.free = true) :
    Gap (Covered header a (front ++ b :: back)) a (a + span header (front ++ b :: back))
      (a + span header front) (a + span header front + header + b.size) where
  low := by omega
  proper := by omega
  high := by
    rw [span_append, span_cons]
    omega
  avoids := fun x low high inside => by
    have used := (covered_within header low high).mp inside
    rw [raised] at used
    contradiction
  left := by
    refine (covered_before header positive coalesced raised).imp ?_ id
    rintro rfl
    simp
  right := by
    refine (covered_behind header positive coalesced raised).imp ?_ id
    rintro rfl
    rw [span_append, span_cons, span_nil]
    omega

/-- The gaps of a joined list are its free blocks. -/
theorem gap_iff (positive : 0 < header) (coalesced : Coalesced blocks) :
    Gap (Covered header a blocks) a (a + span header blocks) lo hi ↔
      ∃ front b back, blocks = front ++ b :: back ∧ b.free = true ∧
        lo = a + span header front ∧ hi = a + span header front + header + b.size := by
  constructor
  · intro gap
    -- The gap starts inside some block, which is free, and which is a gap of its own.
    have start := gap.proper
    obtain ⟨front, b, back, rfl, low, high⟩ := exists_block header gap.low
      (Nat.lt_of_lt_of_le start gap.high)
    have raised : b.free = true := by
      have open_ := gap.avoids lo (Nat.le_refl lo) start
      rw [covered_within header low high] at open_
      simpa using open_
    have whole := @gap_of_free header a front back b positive coalesced raised
    refine ⟨front, b, back, rfl, raised, ?_, ?_⟩
    · -- Two gaps that meet start at the same place.
      by_contra other
      rcases gap.left with atBase | before
      · have := gap.low
        omega
      · exact whole.avoids (lo - 1) (by omega) (by omega) before
    · by_contra other
      rcases Nat.lt_or_gt_of_ne other with short | long
      · rcases gap.right with atLimit | behind
        · have := whole.high
          omega
        · exact whole.avoids hi (by omega) short behind
      · rcases whole.right with atLimit | behind
        · have := gap.high
          omega
        · exact gap.avoids _ (by omega) long behind
  · rintro ⟨front, b, back, rfl, raised, rfl, rfl⟩
    exact gap_of_free header positive coalesced raised

/-- Carving a free block covers its header and the size that is put to use, and nothing else. -/
theorem covered_carve (least need : Nat) :
    Covered header a (front ++ carve header least need b ++ back) x ↔
      (Covered header a front x ∨ Covered header (a + span header front + header + b.size) back x) ∨
      (a + span header front ≤ x ∧ x < a + span header front + header +
        if need + header + least ≤ b.size then need else b.size) := by
  -- What carving leaves behind the taken block is free, and covers nothing.
  have taken := span_carve header least need b
  rw [List.append_assoc, covered_append, covered_append, taken, ← Nat.add_assoc]
  unfold carve
  split
  · simp only [Covered, Bool.true_eq_false, false_and, or_false, true_and]
    rw [or_assoc, or_comm (b := Covered header _ back x)]
  · simp only [Covered, or_false, true_and]
    rw [or_assoc, or_comm (b := Covered header _ back x)]

end Covered

end Block

end Lib
