import IncroOS.Kernel.KMain
import IncroOS.Proofs.Output.Strings

/-! The string literals of the kernel, which are in its image wherever the linker has placed them. -/

namespace IncroOS

open Lib

/-- The string literals of `kMain` and of the functions that it calls. -/
def kernelStrings : List String :=
  ["\n\n=== IncroOS Kernel Starting ===\n", "===========================================\n",
    "  IncroOS - Kernel Starting\n", "Hello, 64-bit kernel World!\n",
    "\n[INIT] Initializing Memory Subsystem...\n", "[PMM] Physical Memory Manager initialized\n",
    "[PMM] Total pages: ", "\n", "[PMM] Free pages: ", "[PMM] Used pages: ",
    "[VMM] Virtual Memory Manager initialized\n", "[KMALLOC] Kernel heap allocator initialized\n",
    "\n[INIT] Memory Subsystem Initialized Successfully\n",
    "\n[TEST] Testing Memory Allocation...\n", "[TEST] kmalloc(64) succeeded\n",
    "[TEST] kfree(64) succeeded\n", "[TEST] kmalloc(64) failed\n",
    "[TEST] kmalloc(1024) succeeded\n", "[TEST] kfree(1024) succeeded\n",
    "[TEST] kmalloc(1024) failed\n", "[TEST] pmm_alloc_page() succeeded, page at: 0x",
    "[TEST] pmm_free_page() succeeded\n", "[TEST] pmm_alloc_page() failed\n",
    "\n[HEAP] Used memory: ", " bytes\n", "[HEAP] Free memory: ",
    "\n===========================================\n", "  Memory Manager Tests Complete\n",
    "Memory Manager Initialized!\n"]

/-- The bytes of the kernel's image, which end where the bitmap of the page allocator starts. -/
def imageSpan : Set Nat := Set.Ico 0x100000 0x140000

/-- Every literal is in memory where the linker placed it, within the kernel's image. -/
structure KernelImage.Loaded (image : KernelImage) (mem : Mem) : Prop where
  strings : ∀ s ∈ kernelStrings, IsString (memoryText mem (image.place s)) (ascii s)
  low : ∀ s ∈ kernelStrings, 0x100000 ≤ image.place s
  high : ∀ s ∈ kernelStrings, image.place s + (ascii s).length < 0x140000

section Loaded

variable {image : KernelImage} {mem mem' : Mem} {region : Set Nat}

/-- The literals stay where nothing is written to the image. -/
theorem KernelImage.Loaded.frame (loaded : image.Loaded mem)
    (changes : Mem.ChangesOnly mem mem' region) (apart : ∀ x ∈ region, x ∉ imageSpan) :
    image.Loaded mem' := by
  refine ⟨fun s member => ?_, loaded.low, loaded.high⟩
  have low := loaded.low s member
  have high := loaded.high s member
  -- Every byte of the literal and its NUL lie in the image.
  have same : ∀ i ≤ (ascii s).length,
      memoryText mem' (image.place s) i = memoryText mem (image.place s) i := by
    intro i within
    have place : u64 (image.place s + i) = image.place s + i := u64_of_lt (by omega)
    refine congrArg some ?_
    rw [place]
    refine changes _ fun written => apart _ written ?_
    rw [imageSpan, Set.mem_Ico]
    omega
  have is := loaded.strings s member
  refine ⟨fun i within => ?_, is.printable, ?_⟩
  · rw [same i (by omega)]
    exact is.chars i within
  · rw [same _ (Nat.le_refl _)]
    exact is.terminated

end Loaded

section Layout

variable {strings : List String} {s : String}

/-- Literals one behind the other, each with its NUL. -/
def literalBytes (strings : List String) : List UInt8 := strings.flatMap fun s => ascii s ++ [0]

/-- Where a literal starts among them. -/
def literalOffset (strings : List String) (s : String) : Nat :=
  (literalBytes (strings.takeWhile (· ≠ s))).length

/-- A literal is found where it starts, with its NUL behind it. -/
theorem literalBytes_split (member : s ∈ strings) :
    ∃ before behind, literalBytes strings = before ++ (ascii s ++ 0 :: behind) ∧
      before.length = literalOffset strings s := by
  -- The induction goes past the literals that come before.
  induction strings with
  | nil => exact absurd member List.not_mem_nil
  | cons first rest ih =>
    by_cases here : first = s
    · refine ⟨[], literalBytes rest, ?_, ?_⟩
      · rw [literalBytes, List.flatMap_cons, here, List.append_assoc]
        rfl
      · rw [literalOffset, List.takeWhile_cons_of_neg (by simpa using here)]
        rfl
    · obtain ⟨before, behind, split, length⟩ :=
        ih (List.mem_of_ne_of_mem (Ne.symm here) member)
      refine ⟨ascii first ++ [0] ++ before, behind, ?_, ?_⟩
      · rw [literalBytes, List.flatMap_cons, ← literalBytes, split, ← List.append_assoc]
      · have further : literalOffset (first :: rest) s =
            (ascii first ++ [0]).length + literalOffset rest s := by
          rw [literalOffset, List.takeWhile_cons_of_pos (by simpa using here), literalBytes,
            List.flatMap_cons, List.length_append]
          rfl
        rw [List.length_append, further, length]

/-- Memory that holds the literals of the kernel from the start of its image on. -/
def imageMem : Mem := fun x =>
  if x < 0x100000 then 0 else (literalBytes kernelStrings).getD (x - 0x100000) 0

/-- An image whose literals stand one behind the other. -/
def plainImage : KernelImage where
  place s := 0x100000 + literalOffset kernelStrings s
  buffer := .replicate 32 0
  temp _ := .replicate 32 0

/-- A literal of less than 64 bytes, none of which is a NUL. -/
def isPlain (s : String) : Bool := (ascii s).all (· != 0) && (ascii s).length < 64

/-- Every literal of the kernel is one. -/
theorem kernelStrings_plain : kernelStrings.all isPlain = true := by decide +kernel

/-- No literal contains a NUL. -/
theorem kernelStrings_printable (member : s ∈ kernelStrings) (c : UInt8) (within : c ∈ ascii s) :
    c ≠ 0 := by
  -- The list of literals is checked once, as a whole.
  have plain := List.all_eq_true.mp kernelStrings_plain s member
  simp only [isPlain, Bool.and_eq_true, List.all_eq_true, bne_iff_ne] at plain
  exact plain.1 c within

/-- Short literals and their NULs take 64 bytes each at most. -/
theorem literalBytes_length (short : ∀ s ∈ strings, (ascii s).length < 64) :
    (literalBytes strings).length ≤ 64 * strings.length := by
  -- By induction on the literals: each adds its own bytes and one NUL.
  induction strings with
  | nil => rfl
  | cons first rest ih =>
    have head := short first List.mem_cons_self
    have tail := ih fun s member => short s (List.mem_cons_of_mem first member)
    rw [literalBytes, List.flatMap_cons, ← literalBytes, List.length_append, List.length_append,
      List.length_singleton, List.length_cons]
    omega

/-- Such an image is loaded in such memory. -/
theorem plainImage_loaded : plainImage.Loaded imageMem := by
  have short : ∀ s ∈ kernelStrings, (ascii s).length < 64 := by
    intro s member
    have plain := List.all_eq_true.mp kernelStrings_plain s member
    simp only [isPlain, Bool.and_eq_true, decide_eq_true_eq] at plain
    exact plain.2
  have total := literalBytes_length short
  have count : kernelStrings.length = 29 := rfl
  -- The bytes of a literal and the one behind it are those of the layout.
  have bytes : ∀ s ∈ kernelStrings, literalOffset kernelStrings s + (ascii s).length < 0x40000 ∧
      ∀ i ≤ (ascii s).length,
        memoryText imageMem (plainImage.place s) i = (ascii s ++ [0])[i]? := by
    intro s member
    obtain ⟨before, behind, split, length⟩ := literalBytes_split member
    rw [split, List.length_append, List.length_append, List.length_cons] at total
    refine ⟨by omega, fun i within => ?_⟩
    have place : u64 (plainImage.place s + i) = 0x100000 + (before.length + i) := by
      have start : plainImage.place s = 0x100000 + before.length := by
        rw [length]
        rfl
      rw [start, u64_of_lt (by omega)]
      omega
    have above : ¬ 0x100000 + (before.length + i) < 0x100000 := by omega
    have within' : i < (ascii s ++ [0]).length := by
      rw [List.length_append, List.length_singleton]
      omega
    have cut : 0x100000 + (before.length + i) - 0x100000 = before.length + i := by omega
    have whole : before ++ (ascii s ++ 0 :: behind) = before ++ ((ascii s ++ [0]) ++ behind) := by
      simp
    rw [memoryText, place, imageMem, if_neg above, cut, split, whole, List.getD_eq_getElem?_getD,
      List.getElem?_append_right (by omega), Nat.add_sub_cancel_left,
      List.getElem?_append_left within', List.getElem?_eq_getElem within']
    rfl
  refine ⟨fun s member => ⟨fun i within => ?_, kernelStrings_printable member, ?_⟩,
    fun s _ => Nat.le_add_right _ _, fun s member => ?_⟩
  · rw [(bytes s member).2 i (by omega), List.getElem?_append_left within,
      List.getElem?_eq_getElem within]
  · rw [(bytes s member).2 _ (Nat.le_refl _), List.getElem?_append_right (Nat.le_refl _), Nat.sub_self]
    rfl
  · have room := (bytes s member).1
    have start : plainImage.place s = 0x100000 + literalOffset kernelStrings s := rfl
    omega

end Layout

end IncroOS
