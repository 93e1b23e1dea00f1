import Mathlib.Order.Interval.Set.Basic
import IncroOS.Boot.Loader

/-! Where a stage keeps its stack and its data, and which bytes its routines leave alone. -/

namespace IncroOS

open Lib

/-- How far the stack of a stage reaches down. -/
def stackSize : Nat := 64

/-- What a read of sectors may change besides its buffer: the free stack and the packet. -/
def Image.scratch (image : Image) (sp : Nat) : Set Nat :=
  {x | image.stackTop - stackSize ≤ x ∧ x < sp ∧ x < image.stackTop ∨
    image.dap + 4 ≤ x ∧ x < image.dap + 16}

/--
What the routines rely on: the scratch bytes, the packet, the drive number, the parameter block,
and the code of the stage with all its data.
-/
def Image.held (image : Image) : Set Nat :=
  {x | image.stackTop - stackSize ≤ x ∧ x < image.stackTop ∨
    image.dap ≤ x ∧ x < image.dap + 16 ∨ x = image.bPhysicalDriveNum ∨ 0x7C00 ≤ x ∧ x < 0x7C40 ∨
    image.codeStart ≤ x ∧ x < image.codeEnd}

/-- The image keeps its data apart from its stack and from the parameter block. -/
structure Image.Placed (image : Image) : Prop where
  stackLow : stackSize ≤ image.stackTop
  stackHigh : image.stackTop < 2 ^ 16
  dapHigh : image.dap + 16 ≤ 2 ^ 16
  stackDap : image.stackTop ≤ image.dap ∨ image.dap + 16 + stackSize ≤ image.stackTop
  stackBlock : image.stackTop ≤ 0x7C00 ∨ 0x7C40 + stackSize ≤ image.stackTop
  stackDrive :
    image.stackTop ≤ image.bPhysicalDriveNum ∨ image.bPhysicalDriveNum + stackSize < image.stackTop
  dapBlock : image.dap + 16 ≤ 0x7C00 ∨ 0x7C40 ≤ image.dap
  dapDrive : image.bPhysicalDriveNum < image.dap ∨ image.dap + 16 ≤ image.bPhysicalDriveNum
  driveBlock : image.bPhysicalDriveNum < 0x7C00 ∨ 0x7C40 ≤ image.bPhysicalDriveNum

/-- The stack pointer leaves room for the given number of bytes. -/
def Image.Room (image : Image) (sp depth : Nat) : Prop :=
  image.stackTop - stackSize + depth ≤ sp ∧ sp ≤ image.stackTop

/-- A buffer that spares all that the routines rely on. -/
def Image.Spares (image : Image) (buffer size : Nat) : Prop :=
  ∀ x, buffer ≤ x → x < buffer + size → x ∉ image.held

theorem Image.mem_scratch {image : Image} {sp x : Nat} :
    x ∈ image.scratch sp ↔
      image.stackTop - stackSize ≤ x ∧ x < sp ∧ x < image.stackTop ∨
      image.dap + 4 ≤ x ∧ x < image.dap + 16 := Iff.rfl

theorem Image.mem_held {image : Image} {x : Nat} :
    x ∈ image.held ↔
      image.stackTop - stackSize ≤ x ∧ x < image.stackTop ∨
      image.dap ≤ x ∧ x < image.dap + 16 ∨ x = image.bPhysicalDriveNum ∨
      0x7C00 ≤ x ∧ x < 0x7C40 ∨ image.codeStart ≤ x ∧ x < image.codeEnd := Iff.rfl

/-- The drive number is not among the bytes that the routines may change. -/
theorem Image.Placed.drive_scratch {image : Image} (placed : image.Placed) (sp : Nat) :
    image.bPhysicalDriveNum ∉ image.scratch sp := by
  -- It is apart from the stack and from the packet.
  have stack := placed.stackDrive
  have packet := placed.dapDrive
  have block := placed.driveBlock
  have fits := placed.stackLow
  rw [Image.mem_scratch]
  omega

/-- A buffer that spares what the routines rely on consists of parts that do. -/
theorem Image.Spares.part {image : Image} {buffer size part length : Nat}
    (spares : image.Spares buffer size) (low : buffer ≤ part)
    (high : part + length ≤ buffer + size) : image.Spares part length :=
  fun x above below => spares x (by omega) (by omega)

theorem Image.scratch_held (image : Image) (sp : Nat) : image.scratch sp ⊆ image.held := by
  -- The stack and the packet are among what the routines rely on.
  intro x member
  rw [Image.mem_scratch] at member
  rw [Image.mem_held]
  omega

section Kept

variable {image : Image} {mem mem' : Mem} {sp buffer size : Nat}

/-- A byte that the routines rely on and do not change survives every read that spares it. -/
theorem Image.Spares.kept (spares : image.Spares buffer size)
    (changes : Mem.ChangesOnly mem mem' (image.scratch sp ∪ Set.Ico buffer (buffer + size))) {x : Nat}
    (held : x ∈ image.held) (fixed : x ∉ image.scratch sp) : mem' x = mem x := by
  -- A change is in the scratch area or in the buffer, and the byte is in neither.
  refine changes x fun inside => ?_
  rcases inside with changed | ⟨above, below⟩
  · exact fixed changed
  · exact spares x above below held

/-- The packet keeps asking for one sector. -/
theorem Image.Spares.count (spares : image.Spares buffer size) (placed : image.Placed)
    (changes : Mem.ChangesOnly mem mem' (image.scratch sp ∪ Set.Ico buffer (buffer + size))) :
    mem'.read (image.dap + 2) 2 = mem.read (image.dap + 2) 2 := by
  -- The bytes of the count are held, and the routines change the packet only behind them.
  have stack := placed.stackDap
  have block := placed.dapBlock
  have fits := placed.stackLow
  refine Mem.read_congr fun x above below => spares.kept changes ?_ ?_
  · rw [Image.mem_held]
    omega
  · rw [Image.mem_scratch]
    omega

/-- The drive number stays. -/
theorem Image.Spares.drive (spares : image.Spares buffer size) (placed : image.Placed)
    (changes : Mem.ChangesOnly mem mem' (image.scratch sp ∪ Set.Ico buffer (buffer + size))) :
    mem' image.bPhysicalDriveNum = mem image.bPhysicalDriveNum :=
  spares.kept changes (.inr (.inr (.inl rfl))) (placed.drive_scratch sp)

/-- The parameter block stays. -/
theorem Image.Spares.block (spares : image.Spares buffer size) (placed : image.Placed)
    (changes : Mem.ChangesOnly mem mem' (image.scratch sp ∪ Set.Ico buffer (buffer + size))) {x : Nat}
    (above : 0x7C00 ≤ x) (below : x < 0x7C40) : mem' x = mem x := by
  -- The stack and the packet lie apart from the block.
  have stack := placed.stackBlock
  have packet := placed.dapBlock
  have fits := placed.stackLow
  refine spares.kept changes ?_ ?_
  · rw [Image.mem_held]
    omega
  · rw [Image.mem_scratch]
    omega

/-- The stack in use stays. -/
theorem Image.Spares.stack (spares : image.Spares buffer size) (placed : image.Placed)
    (changes : Mem.ChangesOnly mem mem' (image.scratch sp ∪ Set.Ico buffer (buffer + size)))
    {a width : Nat} (low : image.stackTop - stackSize ≤ sp) (used : sp ≤ a)
    (high : a + width ≤ image.stackTop) : mem'.read a width = mem.read a width := by
  -- The routine pushes below `sp`, and the packet is apart from the stack.
  have packet := placed.stackDap
  have block := placed.stackBlock
  refine Mem.read_congr fun x above below => spares.kept changes ?_ ?_
  · rw [Image.mem_held]
    omega
  · rw [Image.mem_scratch]
    omega

/-- A smaller stack leaves more alone. -/
theorem Image.scratch_mono {deep high : Nat} (below : deep ≤ high) :
    image.scratch deep ⊆ image.scratch high := by
  intro x member
  rw [Image.mem_scratch] at member ⊢
  omega

end Kept

section Push

variable {m : Machine} {width v : Nat}

theorem push_sp (room : width ≤ m.sp) (bound : m.sp < 2 ^ 16) :
    (m.push width v).sp = m.sp - width := by
  simp only [Machine.push]
  omega

theorem push_mem (room : width ≤ m.sp) (bound : m.sp < 2 ^ 16) :
    (m.push width v).mem = m.mem.write (m.sp - width) width v := by
  have place : (m.sp + 2 ^ 16 - width) % 2 ^ 16 = m.sp - width := by omega
  simp only [Machine.push, place]

/-- What is pushed changes the free stack only. -/
theorem push_changes {image : Image} {depth : Nat} (placed : image.Placed)
    (room : image.Room m.sp depth) (fits : width ≤ depth) :
    (m.push width v).sp = m.sp - width ∧
    (m.push width v).mem = m.mem.write (m.sp - width) width v ∧
    Mem.ChangesOnly m.mem (m.push width v).mem (image.scratch m.sp) := by
  obtain ⟨low, high⟩ := room
  have top := placed.stackHigh
  have mem := @push_mem m width v (by omega) (by omega)
  refine ⟨push_sp (by omega) (by omega), mem, ?_⟩
  rw [mem]
  -- The pushed bytes lie within the depth that is left.
  refine (Mem.write_changes _ _ _ _).mono fun x inside => ?_
  simp only [Set.mem_Ico] at inside
  rw [Image.mem_scratch]
  omega

/-- A `pop` finds the room that its `push` took. -/
theorem drop_sp (room : width ≤ m.sp) (bound : m.sp < 2 ^ 16) {m' : Machine}
    (moved : m'.sp = m.sp - width) : (m'.drop width).sp = m.sp := by
  simp only [Machine.drop, moved]
  omega

end Push

end IncroOS
