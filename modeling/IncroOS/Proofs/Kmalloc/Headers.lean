import IncroOS.Lib.BlockList
import IncroOS.Memory.Kmalloc

/-! Block headers in memory: what each field write changes, and lists of headers laid end to end. -/

namespace IncroOS

open Lib

@[simp] theorem blockHeaderSize_eq : blockHeaderSize = 24 := rfl

section Fields

variable (mem : Mem) (block value : Nat) (flag : Bool)

theorem blockSize_setSize (bound : value < 2 ^ 64) :
    blockSize (setSize mem block value) block = value := by
  -- Eight bytes hold every 64-bit value.
  have width : 256 ^ 8 = 2 ^ 64 := by decide
  rw [blockSize, setSize, Mem.read_write_self, width, Nat.mod_eq_of_lt bound]

@[simp] theorem blockIsFree_setSize :
    blockIsFree (setSize mem block value) block = blockIsFree mem block := by
  rw [blockIsFree, setSize, Mem.write_apart _ (by omega), blockIsFree]

@[simp] theorem blockNext_setSize :
    blockNext (setSize mem block value) block = blockNext mem block := by
  rw [blockNext, setSize, Mem.read_write_apart _ (by omega), blockNext]

@[simp] theorem blockSize_setIsFree :
    blockSize (setIsFree mem block flag) block = blockSize mem block := by
  rw [blockSize, setIsFree, Mem.read_set_apart _ _ (by omega), blockSize]

@[simp] theorem blockIsFree_setIsFree :
    blockIsFree (setIsFree mem block flag) block = flag := by
  cases flag <;> simp [blockIsFree, setIsFree]

@[simp] theorem blockNext_setIsFree :
    blockNext (setIsFree mem block flag) block = blockNext mem block := by
  rw [blockNext, setIsFree, Mem.read_set_apart _ _ (by omega), blockNext]

@[simp] theorem blockSize_setNext :
    blockSize (setNext mem block value) block = blockSize mem block := by
  rw [blockSize, setNext, Mem.read_write_apart _ (by omega), blockSize]

@[simp] theorem blockIsFree_setNext :
    blockIsFree (setNext mem block value) block = blockIsFree mem block := by
  rw [blockIsFree, setNext, Mem.write_apart _ (by omega), blockIsFree]

theorem blockNext_setNext (bound : value < 2 ^ 64) :
    blockNext (setNext mem block value) block = value := by
  have width : 256 ^ 8 = 2 ^ 64 := by decide
  rw [blockNext, setNext, Mem.read_write_self, width, Nat.mod_eq_of_lt bound]

/-- The bytes of one header. -/
def headerSpan (block : Nat) : Set Nat := Set.Ico block (block + 24)

/-- Every field write stays inside its header. -/
theorem setSize_changes : Mem.ChangesOnly mem (setSize mem block value) (headerSpan block) := by
  refine (Mem.write_changes mem block 8 value).mono fun x member => ?_
  simp only [headerSpan, Set.mem_Ico] at member ⊢
  omega

theorem setIsFree_changes : Mem.ChangesOnly mem (setIsFree mem block flag) (headerSpan block) := by
  -- The flag is the ninth of the 24 bytes.
  refine (Mem.set_changes mem (block + 8) _).mono ?_
  rintro x rfl
  simp only [headerSpan, Set.mem_Ico]
  omega

theorem setNext_changes : Mem.ChangesOnly mem (setNext mem block value) (headerSpan block) := by
  refine (Mem.write_changes mem (block + 16) 8 value).mono fun x member => ?_
  simp only [headerSpan, Set.mem_Ico] at member ⊢
  omega

end Fields

/-- The header at an address describes a block and points to the given successor. -/
structure HeaderAt (mem : Mem) (a : Nat) (b : Block) (next : Nat) : Prop where
  size : blockSize mem a = b.size
  free : blockIsFree mem a = b.free
  next : blockNext mem a = next

/-- A header is read from its 24 bytes alone. -/
theorem HeaderAt.congr {mem mem' : Mem} {a : Nat} {b : Block} {next : Nat}
    (header : HeaderAt mem a b next) (agree : ∀ x, a ≤ x → x < a + 24 → mem' x = mem x) :
    HeaderAt mem' a b next := by
  -- Each of the three fields lies within the 24 bytes.
  refine ⟨?_, ?_, ?_⟩
  · rw [← header.size]
    exact Mem.read_congr fun x low high => agree x low (by omega)
  · rw [← header.free, blockIsFree, blockIsFree, agree (a + 8) (by omega) (by omega)]
  · rw [← header.next]
    exact Mem.read_congr fun x low high => agree x (by omega) (by omega)

section HeaderAt

variable {mem mem' : Mem} {a : Nat} {b : Block} {next : Nat} (header : HeaderAt mem a b next)
include header

/-- A header apart from another one's bytes is not affected by changes to them. -/
theorem HeaderAt.frame {block : Nat} (changes : Mem.ChangesOnly mem mem' (headerSpan block))
    (apart : a + 24 ≤ block ∨ block + 24 ≤ a) : HeaderAt mem' a b next := by
  refine header.congr fun x low high => changes x ?_
  simp only [headerSpan, Set.mem_Ico]
  omega

theorem HeaderAt.setSize {value : Nat} (bound : value < 2 ^ 64) :
    HeaderAt (setSize mem a value) a { b with size := value } next :=
  ⟨blockSize_setSize mem a value bound, by simp [header.free], by simp [header.next]⟩

theorem HeaderAt.setIsFree (flag : Bool) :
    HeaderAt (setIsFree mem a flag) a { b with free := flag } next :=
  ⟨by simp [header.size], blockIsFree_setIsFree mem a flag, by simp [header.next]⟩

/-- Pointing a header elsewhere leaves the block it describes. -/
theorem HeaderAt.setNext {value : Nat} (bound : value < 2 ^ 64) :
    HeaderAt (setNext mem a value) a b value :=
  ⟨by simp [header.size], by simp [header.free], blockNext_setNext mem a value bound⟩

end HeaderAt

/-- Writing all three fields makes a header, whatever was there before. -/
theorem headerAt_write (mem : Mem) (a : Nat) {size next : Nat} (flag : Bool)
    (sizeBound : size < 2 ^ 64) (nextBound : next < 2 ^ 64) :
    HeaderAt (setNext (setIsFree (setSize mem a size) a flag) a next) a ⟨size, flag⟩ next := by
  refine ⟨?_, by simp, blockNext_setNext _ a next nextBound⟩
  rw [blockSize_setNext, blockSize_setIsFree, blockSize_setSize mem a size sizeBound]

/-- The address of a block as a pointer, which is null at the end of the heap. -/
def link (limit a : Nat) : Nat := if a = limit then 0 else a

/-- Blocks laid end to end from `a`, each header pointing to the next. -/
def Headers (mem : Mem) (limit : Nat) : Nat → List Block → Prop
  | _, [] => True
  | a, b :: rest => HeaderAt mem a b (link limit (a + 24 + b.size)) ∧
      Headers mem limit (a + 24 + b.size) rest

/-- The addresses at which blocks laid end to end start. -/
def starts : Nat → List Block → List Nat
  | _, [] => []
  | a, b :: rest => a :: starts (a + 24 + b.size) rest

/-- An address inside one of the headers. -/
def InHeader : Nat → List Block → Nat → Prop
  | _, [], _ => False
  | a, b :: rest, x => (a ≤ x ∧ x < a + 24) ∨ InHeader (a + 24 + b.size) rest x

/-- The bytes taken by blocks of this heap with their headers. -/
def span (blocks : List Block) : Nat := Block.span blockHeaderSize blocks

theorem blockSpan_eq (blocks : List Block) : Block.span 24 blocks = span blocks := rfl

@[simp] theorem span_nil : span [] = 0 := rfl

@[simp] theorem span_cons (b : Block) (rest : List Block) :
    span (b :: rest) = 24 + b.size + span rest := Block.span_cons blockHeaderSize b rest

@[simp] theorem span_append (front back : List Block) : span (front ++ back) = span front + span back :=
  Block.span_append blockHeaderSize front back

variable {mem mem' : Mem} {limit a : Nat} {front back blocks : List Block} {b : Block}

theorem headers_append :
    Headers mem limit a (front ++ back) ↔
      Headers mem limit a front ∧ Headers mem limit (a + span front) back := by
  -- The blocks behind start where those before end, which the induction adds up.
  induction front generalizing a with
  | nil => simp [Headers]
  | cons c rest ih =>
    have place : a + 24 + c.size + span rest = a + span (c :: rest) := by
      simp only [span_cons]
      omega
    simp only [List.cons_append, Headers, ih, place, and_assoc]

theorem starts_append : starts a (front ++ back) = starts a front ++ starts (a + span front) back := by
  -- By induction on the blocks before, as `headers_append`.
  induction front generalizing a with
  | nil => simp [starts]
  | cons c rest ih =>
    have place : a + 24 + c.size + span rest = a + span (c :: rest) := by
      simp only [span_cons]
      omega
    simp only [List.cons_append, starts, ih, place]

theorem inHeader_append {x : Nat} :
    InHeader a (front ++ back) x ↔ InHeader a front x ∨ InHeader (a + span front) back x := by
  -- As for the headers themselves, by induction on the blocks before.
  induction front generalizing a with
  | nil => simp [InHeader]
  | cons c rest ih =>
    have place : a + 24 + c.size + span rest = a + span (c :: rest) := by
      simp only [span_cons]
      omega
    simp only [List.cons_append, InHeader, ih, place, or_assoc]

/-- Headers lie within the bytes their blocks take. -/
theorem InHeader.bounds {x : Nat} (inside : InHeader a blocks x) :
    a ≤ x ∧ x < a + span blocks := by
  -- Each header takes the first 24 bytes of its block.
  induction blocks generalizing a with
  | nil => exact inside.elim
  | cons c rest ih =>
    simp only [span_cons]
    rcases inside with here | later
    · omega
    · have := ih later
      omega

/-- The header of a listed block is one of the list's headers. -/
theorem headerSpan_subset :
    headerSpan (a + span front) ⊆ {x | InHeader a (front ++ b :: back) x} := by
  intro x member
  exact inHeader_append.mpr (.inr (.inl member))

/-- Headers survive any change that leaves their bytes alone. -/
theorem Headers.congr (headers : Headers mem limit a blocks)
    (agree : ∀ x, InHeader a blocks x → mem' x = mem x) : Headers mem' limit a blocks := by
  -- By induction on the blocks, each of which has its own header.
  induction blocks generalizing a with
  | nil => trivial
  | cons c rest ih =>
    refine ⟨headers.1.congr fun x low high => agree x (.inl ⟨low, high⟩), ?_⟩
    exact ih headers.2 fun x inside => agree x (.inr inside)

/-- Headers survive any change apart from the bytes their blocks take. -/
theorem Headers.frame {region : Set Nat} (headers : Headers mem limit a blocks)
    (changes : Mem.ChangesOnly mem mem' region)
    (apart : ∀ x ∈ region, x < a ∨ a + span blocks ≤ x) : Headers mem' limit a blocks := by
  -- A header lies between the start of the blocks and their end.
  refine headers.congr fun x inside => changes x fun member => ?_
  have := inside.bounds
  have := apart x member
  omega

/-- Blocks in the middle of a list can be replaced by others that take the same bytes. -/
theorem Headers.replace (old : List Block) {fresh : List Block}
    (headers : Headers mem limit a (front ++ old ++ back))
    (changes : Mem.ChangesOnly mem mem' (Set.Ico (a + span front) (a + span front + span old)))
    (replaced : Headers mem' limit (a + span front) fresh) (same : span fresh = span old) :
    Headers mem' limit a (front ++ fresh ++ back) := by
  -- The headers before the change, within it and behind it are settled apart.
  obtain ⟨early, late⟩ := headers_append.mp headers
  obtain ⟨before, -⟩ := headers_append.mp early
  refine headers_append.mpr ⟨headers_append.mpr ⟨?_, replaced⟩, ?_⟩
  · -- What comes before ends where the change begins.
    refine before.frame changes fun x member => ?_
    simp only [Set.mem_Ico] at member
    omega
  · -- What comes behind begins where the change ends.
    rw [span_append] at late ⊢
    rw [same]
    refine late.frame changes fun x member => ?_
    simp only [Set.mem_Ico] at member
    omega

/-- The header of a block in the middle of a list. -/
theorem Headers.at (headers : Headers mem limit a (front ++ b :: back)) :
    HeaderAt mem (a + span front) b (link limit (a + span front + 24 + b.size)) :=
  (headers_append.mp headers).2.1

/-- Following the next pointers from the first block meets every block and then the null pointer. -/
theorem Headers.linked (headers : Headers mem limit a blocks) (positive : 0 < a)
    (covers : a + span blocks = limit) :
    Linked (blockNext mem) (link limit a) (starts a blocks) := by
  induction blocks generalizing a with
  | nil =>
    have finished : a = limit := by simpa using covers
    simp [starts, Linked, link, finished]
  | cons c rest ih =>
    simp only [span_cons] at covers
    -- A block that is listed starts before the limit, so its link is not null.
    have running : a ≠ limit := by omega
    refine ⟨by simp [link, running], by omega, ?_⟩
    rw [headers.1.next]
    exact ih headers.2 (by omega) (by omega)

/-- A block starts at each listed address, behind those before it. -/
theorem mem_starts {x : Nat} :
    x ∈ starts a blocks ↔ ∃ front b back, blocks = front ++ b :: back ∧ x = a + span front := by
  -- The blocks before the one that starts here are those that the induction has passed.
  induction blocks generalizing a with
  | nil => simp [starts]
  | cons c rest ih =>
    simp only [starts, List.mem_cons, ih]
    constructor
    · rintro (rfl | ⟨front, b, back, rfl, rfl⟩)
      · exact ⟨[], c, rest, rfl, by simp⟩
      · refine ⟨c :: front, b, back, rfl, ?_⟩
        simp only [span_cons]
        omega
    · rintro ⟨front, b, back, shape, rfl⟩
      cases front with
      | nil => exact .inl (by simp)
      | cons d tail =>
        rw [List.cons_append, List.cons.injEq] at shape
        obtain ⟨rfl, rfl⟩ := shape
        refine .inr ⟨tail, b, back, rfl, ?_⟩
        simp only [span_cons]
        omega

/-- The first address whose block passes a test lies behind blocks that all fail it. -/
theorem find_starts {stop : Nat → Bool} (fails : ∀ x ∈ starts a front, stop x = false)
    (passes : stop (a + span front) = true) :
    (starts a (front ++ b :: back)).find? stop = some (a + span front) := by
  rw [starts_append, List.find?_append, List.find?_eq_none.mpr (by simpa using fails)]
  simp [starts, passes]

/-- There is one start for each block. -/
@[simp] theorem starts_length : (starts a blocks).length = blocks.length := by
  induction blocks generalizing a with
  | nil => rfl
  | cons c rest ih => simp [starts, ih]

end IncroOS
