import Mathlib.Data.Finset.Card
import Mathlib.Data.Finset.Range
import Mathlib.Order.Interval.Finset.Nat

/-! A finite pool of numbered resources that always hands out the lowest one not in use. -/

namespace Lib

/-- The resources below `bound`, with those in use. -/
@[ext] structure Pool where
  bound : Nat
  used : Finset Nat
  inside : used ⊆ Finset.range bound

namespace Pool

/-- The lowest resource not in use. -/
def lowest (pool : Pool) : Option Nat :=
  (List.range pool.bound).find? fun p => p ∉ pool.used

/-- Mark a resource below the bound as used. -/
def mark (pool : Pool) (p : Nat) (below : p < pool.bound) : Pool where
  bound := pool.bound
  used := insert p pool.used
  inside := Finset.insert_subset (Finset.mem_range.mpr below) pool.inside

/-- Return a resource to the pool. -/
def release (pool : Pool) (p : Nat) : Pool where
  bound := pool.bound
  used := pool.used.erase p
  inside := (Finset.erase_subset p pool.used).trans pool.inside

theorem lowest_eq_some {pool : Pool} {p : Nat} :
    pool.lowest = some p ↔ p < pool.bound ∧ p ∉ pool.used ∧ ∀ q < p, q ∈ pool.used := by
  -- The search goes through the resources in ascending order.
  simp only [lowest, List.find?_range_eq_some, List.mem_range, decide_eq_true_eq,
    Bool.not_eq_true', decide_eq_false_iff_not, not_not]
  exact ⟨fun ⟨absent, below, rest⟩ => ⟨below, absent, rest⟩,
    fun ⟨below, absent, rest⟩ => ⟨absent, below, rest⟩⟩

theorem lowest_eq_none {pool : Pool} : pool.lowest = none ↔ pool.used = Finset.range pool.bound := by
  -- A search through all numbers below the bound misses none.
  simp only [lowest, List.find?_eq_none, List.mem_range, decide_eq_true_eq, not_not]
  constructor
  · intro full
    exact pool.inside.antisymm fun p member => full p (Finset.mem_range.mp member)
  · intro full p below
    rw [full]
    exact Finset.mem_range.mpr below

/-- Hand out the lowest resource not in use, if there is one. -/
def take (pool : Pool) : Pool × Option Nat :=
  match found : pool.lowest with
  | none => (pool, none)
  | some p => (pool.mark p (lowest_eq_some.mp found).1, some p)

/-- The two operations of a pool. -/
inductive Op where
  | take
  | release (p : Nat)

/-- The pool after one operation. -/
def step (pool : Pool) : Op → Pool
  | .take => pool.take.1
  | .release p => pool.release p

/-- The pool after a sequence of operations. -/
def run (pool : Pool) (ops : List Op) : Pool := ops.foldl step pool

/-- An exhausted pool is left alone, and any other gains exactly its lowest free resource. -/
theorem take_cases (pool : Pool) :
    (pool.used = Finset.range pool.bound ∧ pool.take = (pool, none)) ∨
    ∃ p, ∃ below : p < pool.bound, p ∉ pool.used ∧ (∀ q < p, q ∈ pool.used) ∧
      pool.take = (pool.mark p below, some p) := by
  -- Taking is decided by what the search finds.
  unfold take
  split
  · rename_i found
    exact .inl ⟨lowest_eq_none.mp found, rfl⟩
  · rename_i p found
    obtain ⟨below, absent, rest⟩ := lowest_eq_some.mp found
    exact .inr ⟨p, below, absent, rest, rfl⟩

/-- When exactly the resources below `n` are in use, a taking hands out `n` itself. -/
theorem take_of_used {pool : Pool} {n : Nat} (used : pool.used = Finset.range n)
    (below : n < pool.bound) : pool.take = (pool.mark n below, some n) := by
  obtain ⟨full, -⟩ | ⟨p, inside, free, lowest, taken⟩ := pool.take_cases
  · have count := congrArg Finset.card (used.symm.trans full)
    rw [Finset.card_range, Finset.card_range] at count
    omega
  · rw [used, Finset.mem_range] at free
    obtain rfl : p = n := by
      -- The lowest free resource cannot lie above the first one that is free.
      by_contra other
      have member := lowest n (by omega)
      rw [used, Finset.mem_range] at member
      omega
    exact taken

/-- A resource in use stays in use through every operation but its own release. -/
theorem step_keeps {pool : Pool} {op : Op} {p : Nat} (member : p ∈ pool.used)
    (other : op ≠ .release p) : p ∈ (pool.step op).used := by
  -- Taking only adds, and releasing removes another resource.
  cases op with
  | take =>
    obtain ⟨-, same⟩ | ⟨q, below, -, -, same⟩ := pool.take_cases
    · simpa [step, same] using member
    · simp [step, same, mark, member]
  | release q =>
    have different : p ≠ q := fun same => other (by rw [same])
    simp [step, release, member, different]

/-- A resource in use stays in use through every run that does not release it. -/
theorem run_keeps {pool : Pool} {ops : List Op} {p : Nat} (member : p ∈ pool.used)
    (unreleased : Op.release p ∉ ops) : p ∈ (pool.run ops).used := by
  -- Each operation of the run keeps the resource, as none of them releases it.
  induction ops generalizing pool with
  | nil => exact member
  | cons op rest ih =>
    rw [List.mem_cons, not_or] at unreleased
    exact ih (step_keeps member (Ne.symm unreleased.1)) unreleased.2

/-- A resource handed out is not handed out again before it is released. -/
theorem not_taken_twice {pool : Pool} {ops : List Op} {p : Nat} (taken : pool.take.2 = some p)
    (unreleased : Op.release p ∉ ops) : (pool.take.1.run ops).take.2 ≠ some p := by
  -- The first hand-out puts the resource in use, and a hand-out needs it not to be.
  intro again
  have marked : p ∈ pool.take.1.used := by
    obtain ⟨-, same⟩ | ⟨q, below, -, -, same⟩ := pool.take_cases
    · simp [same] at taken
    · have named : q = p := by simpa [same] using taken
      simp [same, mark, named]
  have kept := run_keeps marked unreleased
  obtain ⟨-, same⟩ | ⟨q, below, absent, -, same⟩ := (pool.take.1.run ops).take_cases
  · simp [same] at again
  · have named : q = p := by simpa [same] using again
    exact absent (named ▸ kept)

/-- The resources that a number of takings in a row hand out, up to the exhaustion of the pool. -/
def takes : Nat → Pool → List Nat
  | 0, _ => []
  | k + 1, pool =>
    match pool.take with
    | (_, none) => []
    | (next, some p) => p :: takes k next

/-- The number of resources below `b` that are not in use. -/
def freeBelow (pool : Pool) (b : Nat) : Nat := (Finset.range (min b pool.bound) \ pool.used).card

/-- Marking a free resource below `b` leaves one fewer there. -/
theorem freeBelow_mark {pool : Pool} {p b : Nat} (below : p < pool.bound) (free : p ∉ pool.used)
    (low : p < b) : (pool.mark p below).freeBelow b + 1 = pool.freeBelow b := by
  -- The marked resource is one of those counted.
  have member : p ∈ Finset.range (min b pool.bound) \ pool.used := by
    simp only [Finset.mem_sdiff, Finset.mem_range]
    exact ⟨by omega, free⟩
  have fewer : Finset.range (min b pool.bound) \ insert p pool.used =
      (Finset.range (min b pool.bound) \ pool.used).erase p := Finset.sdiff_insert _ _ p
  have count := Finset.card_erase_add_one member
  rw [freeBelow, freeBelow, ← count, ← fewer]
  rfl

/-- When exactly the resources below `n` are in use, those from `n` on are free. -/
theorem freeBelow_of_used {pool : Pool} {n : Nat} (used : pool.used = Finset.range n) (b : Nat) :
    pool.freeBelow b = min b pool.bound - n := by
  rw [freeBelow, used, Finset.range_eq_Ico, Finset.range_eq_Ico, Finset.Ico_sdiff_Ico_left,
    Nat.card_Ico, Nat.zero_max]

/-- An exhausted pool hands out nothing. -/
theorem takes_full {pool : Pool} (full : pool.take = (pool, none)) (k : Nat) :
    takes k pool = [] := by
  cases k with
  | zero => rfl
  | succ k => simp only [takes, full]

/-- A taking that succeeds hands out the first of the resources, and the rest follow it. -/
theorem takes_succ {pool : Pool} {p : Nat} {below : p < pool.bound}
    (taken : pool.take = (pool.mark p below, some p)) (k : Nat) :
    takes (k + 1) pool = p :: takes k (pool.mark p below) := by
  simp only [takes, taken]

/-- Takings in a row hand out resources that were free, each of them once. -/
theorem takes_free (k : Nat) (pool : Pool) :
    (∀ p ∈ takes k pool, p < pool.bound ∧ p ∉ pool.used) ∧ (takes k pool).Nodup := by
  -- The induction is on the takings; what is taken first is in use for those after it.
  induction k generalizing pool with
  | zero => exact ⟨fun p member => absurd member List.not_mem_nil, List.nodup_nil⟩
  | succ k ih =>
    obtain ⟨-, same⟩ | ⟨p, below, free, -, same⟩ := pool.take_cases
    · rw [takes_full same]
      exact ⟨fun p member => absurd member List.not_mem_nil, List.nodup_nil⟩
    · obtain ⟨later, once⟩ := ih (pool.mark p below)
      rw [takes_succ same]
      refine ⟨List.forall_mem_cons.mpr ⟨⟨below, free⟩, fun q member => ?_⟩,
        List.nodup_cons.mpr ⟨fun again => ?_, once⟩⟩
      · obtain ⟨inside, absent⟩ := later q member
        exact ⟨inside, fun used => absent (Finset.mem_insert_of_mem used)⟩
      · exact (later p again).2 (Finset.mem_insert_self p pool.used)

/--
Everything that is handed out lies below `b` exactly when enough is free there, or nothing above.

The lowest free resource comes first, so one above is handed out only once those below are gone.
-/
theorem takes_below_iff (k b : Nat) (pool : Pool) :
    (∀ p ∈ takes k pool, p < b) ↔
      k ≤ pool.freeBelow b ∨ ∀ p < pool.bound, b ≤ p → p ∈ pool.used := by
  -- The induction is on the takings; each hands out the lowest free resource of its own pool.
  induction k generalizing pool with
  | zero => simp [takes]
  | succ k ih =>
    obtain ⟨full, same⟩ | ⟨p, below, free, lowest, same⟩ := pool.take_cases
    · have all : ∀ p < pool.bound, b ≤ p → p ∈ pool.used := by
        intro p inside _
        rw [full]
        exact Finset.mem_range.mpr inside
      rw [takes_full same]
      exact iff_of_true (by simp) (.inr all)
    · rw [takes_succ same, List.forall_mem_cons, ih]
      have marked : ∀ q, q ∈ (pool.mark p below).used ↔ q = p ∨ q ∈ pool.used :=
        fun q => Finset.mem_insert
      by_cases low : p < b
      · -- One of the resources below is gone, and one taking with it.
        have count := freeBelow_mark below free low
        have above : (∀ q < (pool.mark p below).bound, b ≤ q → q ∈ (pool.mark p below).used) ↔
            ∀ q < pool.bound, b ≤ q → q ∈ pool.used := by
          refine forall₃_congr fun q _ high => ?_
          rw [marked]
          exact or_iff_right (by omega)
        rw [above, ← count]
        simp [low]
      · -- Nothing is free below, and the one handed out was free above.
        have none : pool.freeBelow b = 0 := by
          rw [freeBelow, Finset.card_eq_zero, Finset.sdiff_eq_empty_iff_subset]
          intro q member
          rw [Finset.mem_range] at member
          exact lowest q (by omega)
        refine iff_of_false (fun both => low both.1) ?_
        rintro (enough | above)
        · omega
        · exact free (above p below (by omega))

/-- With enough free resources every taking hands one out. -/
theorem takes_length {k : Nat} {pool : Pool} (enough : k ≤ pool.freeBelow pool.bound) :
    (takes k pool).length = k := by
  -- Each taking leaves one fewer free, and there are enough for those behind it.
  induction k generalizing pool with
  | zero => rfl
  | succ k ih =>
    obtain ⟨full, same⟩ | ⟨p, below, free, -, same⟩ := pool.take_cases
    · -- An exhausted pool has nothing free.
      simp [freeBelow, full] at enough
    · have count := freeBelow_mark below free below
      have rest := @ih (pool.mark p below) (by
        show k ≤ (pool.mark p below).freeBelow pool.bound
        omega)
      rw [takes_succ same, List.length_cons, rest]

/-- The pool after a number of takings in a row. -/
def drain : Nat → Pool → Pool
  | 0, pool => pool
  | k + 1, pool => drain k pool.take.1

/-- The number of resources that are not in use. -/
def free (pool : Pool) : Nat := pool.freeBelow pool.bound

/-- An exhausted pool has nothing left. -/
theorem free_full {pool : Pool} (full : pool.used = Finset.range pool.bound) : pool.free = 0 := by
  rw [free, freeBelow, full, Nat.min_self, Finset.sdiff_self, Finset.card_empty]

/-- A pool that hands out nothing has nothing left. -/
theorem free_of_take {pool : Pool} (nothing : pool.take = (pool, none)) : pool.free = 0 := by
  -- A pool with a resource left hands it out.
  obtain ⟨full, -⟩ | ⟨p, below, -, -, same⟩ := pool.take_cases
  · exact free_full full
  · rw [nothing] at same
    exact nomatch congrArg Prod.snd same

/-- A taking that succeeds leaves one fewer. -/
theorem free_mark {pool : Pool} {p : Nat} (below : p < pool.bound) (unused : p ∉ pool.used) :
    (pool.mark p below).free + 1 = pool.free :=
  freeBelow_mark below unused below

/-- Takings do not change an exhausted pool. -/
theorem drain_full {pool : Pool} (full : pool.take = (pool, none)) (k : Nat) :
    drain k pool = pool := by
  induction k with
  | zero => rfl
  | succ k ih => rw [drain, full, ih]

/-- The takings that succeed are as many as there were free resources, or all of them. -/
theorem takes_length_eq (k : Nat) (pool : Pool) : (takes k pool).length = min k pool.free := by
  induction k generalizing pool with
  | zero => rw [takes, List.length_nil, Nat.zero_min]
  | succ k ih =>
    obtain ⟨full, same⟩ | ⟨p, below, unused, -, same⟩ := pool.take_cases
    · rw [takes_full same, free_full full, List.length_nil, Nat.min_zero]
    · -- The first taking leaves one fewer for the others.
      have count := free_mark below unused
      rw [takes_succ same, List.length_cons, ih]
      omega

/-- Takings leave as many resources as they did not hand out. -/
theorem drain_free (k : Nat) (pool : Pool) : (drain k pool).free = pool.free - k := by
  -- By induction on the takings: each has one resource less to take, or none is left.
  induction k generalizing pool with
  | zero => rfl
  | succ k ih =>
    rw [drain, ih]
    obtain ⟨full, same⟩ | ⟨p, below, unused, -, same⟩ := pool.take_cases
    · rw [same, free_full full]
      omega
    · have count := free_mark below unused
      rw [same]
      show (pool.mark p below).free - k = pool.free - (k + 1)
      omega

/-- Takings put to use what they hand out, and nothing else. -/
theorem drain_used (k : Nat) (pool : Pool) :
    (drain k pool).used = pool.used ∪ (takes k pool).toFinset := by
  -- By induction on the takings: each puts the one to use that it hands out.
  induction k generalizing pool with
  | zero => rw [drain, takes, List.toFinset_nil, Finset.union_empty]
  | succ k ih =>
    obtain ⟨-, same⟩ | ⟨p, below, -, -, same⟩ := pool.take_cases
    · rw [drain_full same, takes_full same, List.toFinset_nil, Finset.union_empty]
    · have marked : (pool.mark p below).used = insert p pool.used := rfl
      rw [drain, same, ih, takes_succ same, List.toFinset_cons, marked, Finset.union_insert,
        Finset.insert_union]

/-- Takings in a row hand out resources in ascending order. -/
theorem takes_ascending (k : Nat) (pool : Pool) : (takes k pool).Pairwise (· < ·) := by
  induction k generalizing pool with
  | zero => exact List.Pairwise.nil
  | succ k ih =>
    obtain ⟨-, same⟩ | ⟨p, below, -, lowest, same⟩ := pool.take_cases
    · rw [takes_full same]
      exact List.Pairwise.nil
    · rw [takes_succ same, List.pairwise_cons]
      refine ⟨fun q later => ?_, ih _⟩
      -- Everything up to the first one is in use for those after it.
      have absent := ((takes_free k (pool.mark p below)).1 q later).2
      by_contra high
      have member : q ∈ insert p pool.used := by
        by_cases first : q = p
        · exact first ▸ Finset.mem_insert_self p pool.used
        · exact Finset.mem_insert_of_mem (lowest q (by omega))
      exact absent member

/-- No free resource is left out below one that is handed out. -/
theorem takes_lowest {k p q : Nat} {pool : Pool} (member : p ∈ takes k pool) (low : q < p)
    (unused : q ∉ pool.used) : q ∈ takes k pool := by
  induction k generalizing pool with
  | zero => exact absurd member List.not_mem_nil
  | succ k ih =>
    obtain ⟨-, same⟩ | ⟨first, below, -, lowest, same⟩ := pool.take_cases
    · rw [takes_full same] at member
      exact absurd member List.not_mem_nil
    · rw [takes_succ same] at member ⊢
      rcases List.mem_cons.mp member with rfl | later
      · exact absurd (lowest q low) unused
      · -- It is the first one, or still free behind it.
        by_cases here : q = first
        · exact List.mem_cons.mpr (.inl here)
        · refine List.mem_cons_of_mem _ (ih later fun used => ?_)
          rcases Finset.mem_insert.mp used with named | old
          · exact here named
          · exact unused old

/-- When exactly the resources below `n` are in use, takings hand out those from `n` on. -/
theorem takes_of_used {k n : Nat} {pool : Pool} (used : pool.used = Finset.range n)
    (enough : n + k ≤ pool.bound) : takes k pool = List.range' n k := by
  induction k generalizing pool n with
  | zero => rfl
  | succ k ih =>
    -- The first one is `n`, and then exactly those below `n + 1` are in use.
    have below : n < pool.bound := by omega
    have next : (pool.mark n below).used = Finset.range (n + 1) := by
      rw [Finset.range_add_one, ← used]
      rfl
    have room : n + 1 + k ≤ (pool.mark n below).bound := by
      show n + 1 + k ≤ pool.bound
      omega
    rw [takes_succ (take_of_used used below), ih next room, List.range'_succ]

/-- Takings leave the bound alone. -/
theorem drain_bound (k : Nat) (pool : Pool) : (drain k pool).bound = pool.bound := by
  -- By induction on the takings, none of which moves the bound.
  induction k generalizing pool with
  | zero => rfl
  | succ k ih =>
    rw [drain, ih]
    obtain ⟨-, same⟩ | ⟨p, below, -, -, same⟩ := pool.take_cases
    · rw [same]
    · rw [same]
      rfl

/-- Then exactly the resources below the next one are in use. -/
theorem drain_of_used {k n : Nat} {pool : Pool} (used : pool.used = Finset.range n)
    (enough : n + k ≤ pool.bound) : (drain k pool).used = Finset.range (n + k) := by
  -- The takings hand out the next `k` resources in order.
  rw [drain_used, used, takes_of_used used enough]
  ext p
  simp only [Finset.mem_union, Finset.mem_range, List.mem_toFinset, List.mem_range'_1]
  omega

end Pool

end Lib
