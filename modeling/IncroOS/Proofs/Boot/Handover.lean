import IncroOS.Boot.Stage2
import IncroOS.Proofs.Boot.Scan
import IncroOS.Proofs.Boot.PageTables

/-! From `CheckCPU` to the jump into the kernel: which memory the processor's set-up changes. -/

namespace IncroOS

open Lib

/-- What a routine leaves that uses the stack and nothing else, at most the given number of bytes. -/
structure StackOnly (depth : Nat) (m m' : Machine) : Prop where
  sp : m'.sp = m.sp
  changes : Mem.ChangesOnly m.mem m'.mem (Set.Ico (m.sp - depth) m.sp)

section Stack

variable {m m₁ m₂ : Machine} {depth width v : Nat}

/-- Registers other than the stack pointer do not matter. -/
theorem StackOnly.regs (sp : m₁.sp = m.sp) (mem : m₁.mem = m.mem) : StackOnly depth m m₁ := by
  refine ⟨sp, ?_⟩
  rw [mem]
  exact Mem.ChangesOnly.refl _ _

theorem StackOnly.load (m : Machine) (eax ebx ecx edx : Nat) :
    StackOnly depth m { m with eax, ebx, ecx, edx } := by
  cases m
  exact .regs rfl rfl

theorem StackOnly.trans (first : StackOnly depth m m₁) (second : StackOnly depth m₁ m₂) :
    StackOnly depth m m₂ := by
  have changes := second.changes
  rw [first.sp] at changes
  exact ⟨second.sp.trans first.sp, first.changes.trans changes⟩

/-- A routine may be given more of the stack than it needs. -/
theorem StackOnly.deeper {more : Nat} (only : StackOnly depth m m₁) (grows : depth ≤ more) :
    StackOnly more m m₁ := by
  refine ⟨only.sp, only.changes.mono fun x inside => ?_⟩
  simp only [Set.mem_Ico] at inside ⊢
  omega

/-- What lies between a `push` and its `pop` needs that much more of the stack. -/
theorem StackOnly.pushed (room : width + depth ≤ m.sp) (bound : m.sp < 2 ^ 16)
    (only : StackOnly depth (m.push width v) m₁) : StackOnly (depth + width) m (m₁.drop width) := by
  have sp := @push_sp m width v (by omega) bound
  have mem := @push_mem m width v (by omega) bound
  have changes := only.changes
  rw [sp] at changes
  refine ⟨drop_sp (by omega) bound (only.sp.trans sp), ?_⟩
  rw [Machine.drop_mem]
  -- The pushed bytes lie right above those that the routine may change.
  have saved := Mem.write_changes m.mem (m.sp - width) width v
  rw [← mem] at saved
  refine (saved.mono fun x inside => ?_).trans (changes.mono fun x inside => ?_)
  · simp only [Set.mem_Ico] at inside ⊢
    omega
  · simp only [Set.mem_Ico] at inside ⊢
    omega

/-- A `push` with its `pop`. -/
theorem StackOnly.push_drop (room : width ≤ m.sp) (bound : m.sp < 2 ^ 16) :
    StackOnly width m ((m.push width v).drop width) := by
  have only := @StackOnly.pushed m _ 0 width v room bound ⟨rfl, Mem.ChangesOnly.refl _ _⟩
  rwa [Nat.zero_add] at only

/-- `pusha` takes 16 bytes of the stack. -/
theorem pusha_sp (room : 16 ≤ m.sp) (bound : m.sp < 2 ^ 16) : m.pusha.sp = m.sp - 16 := by
  -- `popa` gives back the stack pointer that `pusha` started from.
  have restored := congrArg Machine.sp (pusha_popa room bound).1
  have low : m.pusha.sp < 2 ^ 16 := Nat.mod_lt _ (by decide)
  simp only [Machine.popa] at restored
  omega

/-- What lies between `pusha` and `popa` needs 16 bytes more of the stack. -/
theorem StackOnly.saved (room : 16 + depth ≤ m.sp) (bound : m.sp < 2 ^ 16)
    (only : StackOnly depth m.pusha m₁) : StackOnly (depth + 16) m m₁.popa := by
  obtain ⟨-, saved⟩ := @pusha_popa m (by omega) bound
  have sp := @pusha_sp m (by omega) bound
  have changes := only.changes
  have stack := only.sp
  rw [sp] at changes stack
  -- `popa` restores the registers and changes no memory.
  have mem : m₁.popa.mem = m₁.mem := by
    cases m₁
    rfl
  have restored : m₁.popa.sp = (m₁.sp + 16) % 2 ^ 16 := by
    cases m₁
    rfl
  refine ⟨by omega, ?_⟩
  rw [mem]
  refine (saved.mono fun x inside => ?_).trans (changes.mono fun x inside => ?_)
  · simp only [Set.mem_Ico] at inside ⊢
    omega
  · simp only [Set.mem_Ico] at inside ⊢
    omega

/-- A call of a routine that uses the stack only. -/
theorem StackOnly.call {returnTo : Nat} {routine : Machine → Run} {allowed : Stop → Prop}
    (room : 2 + depth ≤ m.sp) (bound : m.sp < 2 ^ 16)
    (meets : Meets (routine (m.push 2 returnTo)) allowed (StackOnly depth (m.push 2 returnTo))) :
    Meets (Machine.call returnTo routine m) allowed (StackOnly (depth + 2) m) := by
  have sp := @push_sp m 2 returnTo (by omega) bound
  refine (call_spec (by omega) bound meets fun last only => ?_).mono ?_
  · -- The return address lies above what the routine may change.
    have changes := only.changes
    rw [sp] at changes
    refine ⟨only.sp.trans sp, changes.read fun x above below => ?_⟩
    simp only [Set.mem_Ico]
    omega
  · rintro m' ⟨last, only, rfl, -⟩
    exact only.pushed room bound

end Stack

section CheckCPU

variable {image : Stage2Image} {platform : Platform} {m : Machine} {allowed : Stop → Prop}

/-- The processor has `cpuid`, with the function that tells of long mode. -/
def Platform.Identifies (platform : Platform) : Prop :=
  dword platform.eflagsFlipped ^^^ dword platform.eflags ≠ 0 ∧
    0x80000001 ≤ (platform.cpuid 0x80000000).1

/-- The stage reboots a processor that it cannot identify. -/
def Platform.Rejected (platform : Platform) (stop : Stop) : Prop :=
  stop = .halted ∧ ¬platform.Identifies

theorem push_top {width v : Nat} (room : width ≤ m.sp) (bound : m.sp < 2 ^ 16) :
    (m.push width v).top width = v % 256 ^ width := by
  rw [Machine.top, push_sp room bound, push_mem room bound, Mem.read_write_self]

theorem identify_eax (m : Machine) : (platform.identify m).eax = (platform.cpuid m.eax).1 := rfl

/-- `cpuid` answers in registers. -/
theorem identify_only {depth : Nat} (m : Machine) (eax : Nat) :
    StackOnly depth m (platform.identify { m with eax }) := by
  cases m
  exact .regs rfl rfl

/-- `DetectCPU` reboots, or returns with four bytes of the stack used. -/
theorem detectCPU_spec (room : 4 ≤ m.sp) (bound : m.sp < 2 ^ 16) :
    Meets (detectCPU platform m) platform.Rejected (StackOnly 4 m) := by
  unfold detectCPU
  extract_lets m₁ m₂ m₃ m₄ m₅ m₆ m₇ m₈ m₉ m₁₀ m₁₁ m₁₂
  -- Each of the four double words is popped before the next one is pushed.
  have flags : StackOnly 4 m m₅ := (((StackOnly.push_drop room bound).trans (.load m₂ _ _ _ _)).trans
    (.load m₃ _ _ _ _)).trans (.load m₄ _ _ _ _)
  have sp₅ := flags.sp
  have toggled : StackOnly 4 m m₆ := flags.trans (.push_drop (by omega) (by omega))
  have sp₆ := toggled.sp
  have probe : StackOnly 4 m₆ m₈ := .push_drop (by omega) (by omega)
  have read : StackOnly 4 m m₉ := toggled.trans (probe.trans (.load m₈ _ _ _ _))
  have sp₉ := read.sp
  have restored : StackOnly 4 m m₁₀ := read.trans (.push_drop (by omega) (by omega))
  have answered : StackOnly 4 m m₁₂ :=
    (restored.trans (.load m₁₀ _ _ _ _)).trans (identify_only m₁₁ _)
  -- The flags are read back from the stack, before and after bit 21 is flipped.
  have before : m₁.top 4 = dword platform.eflags := push_top room bound
  have after : m₇.top 4 = dword platform.eflagsFlipped := push_top (by omega) (by omega)
  have eax : m₁₀.eax = m₇.top 4 := (Machine.drop_eax _ _).trans (Machine.push_eax _ _ _)
  have ecx₆ : m₆.ecx = m₁.top 4 := (Machine.drop_ecx _ _).trans (Machine.push_ecx _ _ _)
  have ecx₈ : m₈.ecx = m₆.ecx := (Machine.drop_ecx _ _).trans (Machine.push_ecx _ _ _)
  have ecx : m₁₀.ecx = m₈.ecx := (Machine.drop_ecx _ _).trans (Machine.push_ecx _ _ _)
  have differ : m₁₁.eax = dword platform.eflagsFlipped ^^^ dword platform.eflags := by
    rw [← before, ← after, ← eax, ← ecx₆, ← ecx₈, ← ecx]
  have functions : m₁₂.eax = (platform.cpuid 0x80000000).1 := identify_eax _
  split
  · rename_i same
    exact (meets_error _ _ _).mpr ⟨rfl, fun able => able.1 (differ.symm.trans same)⟩
  · split
    · rename_i few
      exact (meets_error _ _ _).mpr ⟨rfl, fun able => by
        have many := able.2
        omega⟩
    · exact (meets_ok _ _ _).mpr (answered.trans (identify_only m₁₂ _))

/-- A poll of the keyboard controller. -/
theorem waitController_spec (turn : Nat) (room : 2 ≤ m.sp) (bound : m.sp < 2 ^ 16) :
    Meets (waitController image platform turn m) allowed (StackOnly 2 m) := by
  rw [waitController]
  refine StackOnly.call room bound ?_
  exact (meets_ok _ _ _).mpr (StackOnly.load _ _ _ _ _)

/-- A poll with a value for the controller in `EAX`. -/
theorem waitController_load (turn eax : Nat) (room : 2 ≤ m.sp) (bound : m.sp < 2 ^ 16) :
    Meets (waitController image platform turn { m with eax }) allowed (StackOnly 2 m) := by
  -- Loading a register leaves the stack alone, so it joins the wait that follows.
  have load : StackOnly 2 m { m with eax } := .load m _ _ _ _
  have sp := load.sp
  generalize ({ m with eax } : Machine) = m' at load sp ⊢
  exact (waitController_spec turn (by omega) (by omega)).mono fun m'' only => load.trans only

/-- `EnableA20_KKbrd_Out` uses 22 bytes of the stack. -/
theorem enableA20_spec (room : 22 ≤ m.sp) (bound : m.sp < 2 ^ 16) :
    Meets (enableA20 image platform m) allowed (StackOnly 22 m) := by
  have sp : m.pusha.sp = m.sp - 16 := (pusha_sp (by omega) bound)
  unfold enableA20
  -- The values for the controller only pass through `EAX`.
  refine Meets.bind (waitController_spec 0 (by omega) (by omega)) fun m₁ only₁ => ?_
  have sp₁ := only₁.sp
  refine Meets.bind (waitController_load 1 _ (by omega) (by omega)) fun m₂ only₂ => ?_
  have sp₂ := only₂.sp
  refine Meets.bind (waitController_load 2 _ (by omega) (by omega)) fun m₃ only₃ => ?_
  have sp₃ := only₃.sp
  extract_lets m₄
  have only₄ : StackOnly 6 m.pusha m₄ :=
    (((only₁.trans only₂).trans only₃).deeper (by decide)).trans (.load m₃ _ _ _ _)
  have sp₄ := only₄.sp
  clear_value m₄
  have pushed := @push_sp m₄ 4 m₄.eax (by omega) (by omega)
  refine Meets.bind (waitController_spec 3 (by omega) (by omega)) fun m₅ only₅ => ?_
  have sp₅ := only₅.sp
  refine Meets.bind (waitController_load 4 _ (by omega) (by omega)) fun m₆ only₆ => ?_
  extract_lets m₇ m₈
  have only₈ : StackOnly 6 m₄ m₈ :=
    ((only₅.trans only₆).pushed (by omega) (by omega)).trans (.load m₇ _ _ _ _)
  have sp₈ := only₈.sp
  clear_value m₈
  refine Meets.bind (waitController_load 5 _ (by omega) (by omega)) fun m₉ only₉ => ?_
  have sp₉ := only₉.sp
  refine Meets.bind (waitController_load 6 _ (by omega) (by omega)) fun m₁₀ only₁₀ => ?_
  have both := ((only₉.trans only₁₀).deeper (show 2 ≤ 6 by decide))
  exact (meets_ok _ _ _).mpr (((only₄.trans only₈).trans both).saved (by omega) bound)

/-- A call of a routine that loads a descriptor table. -/
theorem call_ok {returnTo : Nat} (room : 2 ≤ m.sp) (bound : m.sp < 2 ^ 16) :
    Meets (Machine.call returnTo .ok m) allowed (StackOnly 2 m) :=
  @StackOnly.call m 0 returnTo .ok allowed room bound ((meets_ok _ _ _).mpr (.regs rfl rfl))

/-- The interrupt table, the BIOS's own data, and the memory of the adapters. -/
def videoMemory : Set Nat := {x | x < 0x500 ∨ 0xA0000 ≤ x ∧ x < 0x100000}

theorem mem_videoMemory {x : Nat} : x ∈ videoMemory ↔ x < 0x500 ∨ 0xA0000 ≤ x ∧ x < 0x100000 :=
  Iff.rfl

/-- The set-up of the processor changes the free stack and what the video BIOS uses. -/
theorem checkCPU_spec (video : ∀ mem, Mem.ChangesOnly mem (platform.setVideoMode mem) videoMemory)
    (room : 24 ≤ m.sp) (bound : m.sp < 2 ^ 16) :
    Meets (checkCPU image platform m) platform.Rejected fun m' =>
      Mem.ChangesOnly m.mem m'.mem (Set.Ico (m.sp - 24) m.sp ∪ videoMemory) := by
  rw [checkCPU]
  refine Meets.bind (StackOnly.call (by omega) bound
    (detectCPU_spec (by rw [push_sp] <;> omega) (by rw [push_sp] <;> omega))) fun m₁ only₁ => ?_
  have sp₁ := only₁.sp
  refine Meets.bind (StackOnly.call (by omega) (by omega)
    (enableA20_spec (by rw [push_sp] <;> omega) (by rw [push_sp] <;> omega))) fun m₂ only₂ => ?_
  -- Between the calls only the BIOS writes, and only the memory of the screen.
  extract_lets m₃ m₄
  have stack := (only₁.deeper (show 4 + 2 ≤ 22 + 2 by decide)).trans only₂
  have sp₄ : m₄.sp = m.sp := stack.sp
  have screen : Mem.ChangesOnly m₂.mem m₄.mem videoMemory := video m₂.mem
  clear_value m₄
  refine Meets.bind (call_ok (by omega) (by omega)) fun m₅ only₅ => ?_
  have sp₅ := only₅.sp
  refine Meets.bind (call_ok (by omega) (by omega)) fun m₆ only₆ => ?_
  have last := ((only₅.trans only₆).deeper (show 2 ≤ 24 by decide)).changes
  rw [sp₄] at last
  rw [meets_ok]
  exact ((stack.changes.mono Set.subset_union_left).trans
    (screen.mono Set.subset_union_right)).trans (last.mono Set.subset_union_left)

end CheckCPU

section Kernel

variable {image : Stage2Image} {mem : Mem} {m : Machine}

/-- `rep movsb` moves the kernel, and changes nothing below its new place. -/
theorem copyKernel_spec (fits : mem.read image.kernelSize 4 ≤ 0xFFB00) :
    (∀ k < mem.read image.kernelSize 4,
        copyKernel image mem (0x100000 + k) = mem (0x500 + k)) ∧
      ∀ x < 0x100000, copyKernel image mem x = mem x := by
  rw [copyKernel]
  generalize mem.read image.kernelSize 4 = size at fits ⊢
  -- Behind each turn, the bytes up to there are moved, and those below are as before.
  have moved := forLoop_invariant
    (fun i (mem : Mem) => mem.set (dword (0x100000 + i)) (mem (dword (0x500 + i)))) 0 size mem
    (fun i mem' => (∀ k < i, mem' (0x100000 + k) = mem (0x500 + k)) ∧ ∀ x < 0x100000, mem' x = mem x)
    ⟨fun k none => absurd none (Nat.not_lt_zero k), fun _ _ => rfl⟩
    fun i mem' _ within moved => by
      obtain ⟨done, below⟩ := moved
      rw [dword_of_lt (by omega), dword_of_lt (by omega)]
      refine ⟨fun k inside => ?_, fun x low => ?_⟩
      · by_cases here : k = i
        · rw [here, Mem.set_self, below _ (by omega)]
        · rw [Mem.set_other _ _ (by omega), done k (by omega)]
      · rw [Mem.set_other _ _ (by omega), below x low]
  rwa [Nat.zero_add] at moved

/-- The far return's two double words are on the stack, which lies below the kernel. -/
theorem push_far {width v x : Nat} (far : 2 ^ 16 + width ≤ x) : (m.push width v).mem x = m.mem x := by
  have low : (m.sp + 2 ^ 16 - width) % 2 ^ 16 < 2 ^ 16 := Nat.mod_lt _ (by decide)
  exact Mem.write_apart _ (.inr (by omega))

/-- At the jump to 0x100000 the kernel's bytes are those that were at 0x500. -/
theorem loaderEntry32_spec (fits : m.mem.read image.kernelSize 4 ≤ 0xFFB00) {k : Nat}
    (within : k < m.mem.read image.kernelSize 4) :
    loaderEntry32 image m (0x100000 + k) = m.mem (0x500 + k) := by
  -- The page tables lie below the kernel's new place, and so does what is pushed.
  have tables := buildPageTables_changes (copyKernel image m.mem) (0x100000 + k) (by
    simp only [Set.mem_Ico]
    omega)
  rw [loaderEntry32]
  rw [push_far (by omega), push_far (by omega)]
  dsimp only
  rw [tables, (copyKernel_spec fits).1 k within]

end Kernel

end IncroOS
