import IncroOS.Boot.Loader
import IncroOS.Boot.PageTables

/-! Stage2 from `FixCS` to the jump into the kernel. -/

namespace IncroOS

open Lib

/--
The assembled image of Stage2, which Boot1 loads to 0x7E00.

Its data section starts with the file's name, and the packet is the last thing in it.
-/
structure Stage2Image extends Image where
  kernelSize : Nat
  loaderEntry64 : Nat
  afterDetectCPU : Nat
  afterEnableA20 : Nat
  afterGdtInstall : Nat
  afterInstallIDT : Nat
  /-- The addresses behind the seven calls of `wait_input` and `wait_output`, in their order. -/
  afterWait : Nat → Nat
  start : codeStart = 0x7E00
  packetLast : codeEnd = dap + 16
  stack : stackTop = 0x7E00
  base : loadBase = 0x500
  nameLow : 0x7E00 ≤ szFile
  driveNumber : bPhysicalDriveNum = szFile + 11
  sizePlace : kernelSize = szFile + 12
  dapLow : kernelSize + 4 ≤ dap
  dapHigh : dap + 16 ≤ 2 ^ 16

/-- What the processor, the keyboard controller and the video BIOS answer. -/
structure Platform where
  /-- The flags, and what they read as once bit 21 has been flipped. -/
  eflags : Nat
  eflagsFlipped : Nat
  /-- `EAX`, `EBX`, `ECX` and `EDX` after `cpuid`, for its argument in `EAX`. -/
  cpuid : Nat → Nat × Nat × Nat × Nat
  /-- What a port of the keyboard controller reads as when it is ready. -/
  controllerStatus : Nat → Nat
  outputPort : Nat
  /-- What `int 10h` with `AX = 3` does to memory. -/
  setVideoMode : Mem → Mem
  cr0 : Nat

section Handover

variable (image : Stage2Image) (platform : Platform)

/-- `cpuid` -/
def Platform.identify (m : Machine) : Machine :=
  let answer := platform.cpuid m.eax
  { m with eax := answer.1, ebx := answer.2.1, ecx := answer.2.2.1, edx := answer.2.2.2 }

/-- `DetectCPU`, which reboots a processor without long mode. -/
def detectCPU (m : Machine) : Run :=
  let m := m.push 4 platform.eflags
  let m := { m.drop 4 with eax := m.top 4 }
  let m := { m with ecx := m.eax }
  let m : Machine := { m with eax := m.eax ^^^ 0x200000 }
  let m := (m.push 4 m.eax).drop 4
  let m := m.push 4 platform.eflagsFlipped
  let m := { m.drop 4 with eax := m.top 4 }
  let m := (m.push 4 m.ecx).drop 4
  let m : Machine := { m with eax := m.eax ^^^ m.ecx }
  if m.eax = 0 then .error .halted
  else
    let m := platform.identify { m with eax := 0x80000000 }
    if m.eax < 0x80000001 then .error .halted
    else .ok (platform.identify { m with eax := 0x80000001 })

/-- `wait_input` and `wait_output`: poll the controller until it is ready. -/
def waitController (turn : Nat) (m : Machine) : Run :=
  let poll := fun m : Machine =>
    Except.ok { m with eax := setByte m.eax (platform.controllerStatus turn) }
  Machine.call (image.afterWait turn) poll m

/-- `EnableA20_KKbrd_Out`, which sets bit 1 of the controller's output port. -/
def enableA20 (m : Machine) : Run := do
  let m ← waitController image platform 0 m.pusha
  let m ← waitController image platform 1 { m with eax := setByte m.eax 0xAD }
  let m ← waitController image platform 2 { m with eax := setByte m.eax 0xD0 }
  let m := { m with eax := setByte m.eax platform.outputPort }
  let m ← waitController image platform 3 (m.push 4 m.eax)
  let m ← waitController image platform 4 { m with eax := setByte m.eax 0xD1 }
  let m := { m.drop 4 with eax := m.top 4 }
  let m ← waitController image platform 5 { m with eax := setByte m.eax (byte m.eax ||| 2) }
  let m ← waitController image platform 6 { m with eax := setByte m.eax 0xAE }
  .ok m.popa

/-- From `CheckCPU` to protected mode; `lgdt` and `lidt` change no memory. -/
def checkCPU (m : Machine) : Run := do
  let m ← Machine.call image.afterDetectCPU (detectCPU platform) m
  let m ← Machine.call image.afterEnableA20 (enableA20 image platform) m
  let m := { m with eax := setWord m.eax 3 }
  let m := { m with mem := platform.setVideoMode m.mem }
  let m ← Machine.call image.afterGdtInstall .ok m
  let m ← Machine.call image.afterInstallIDT .ok m
  .ok { m with eax := platform.cr0 ||| 1 }

/-- `rep movsb` of `LoaderEntry32`: the kernel's bytes move from 0x500 up to 0x100000. -/
def copyKernel (mem : Mem) : Mem :=
  forLoop (fun i (mem : Mem) => mem.set (dword (0x100000 + i)) (mem (dword (0x500 + i)))) 0
    (mem.read image.kernelSize 4) mem

/-- `LoaderEntry32` and `LoaderEntry64`: the memory at the jump to 0x100000. -/
def loaderEntry32 (m : Machine) : Mem :=
  let m := { m with mem := buildPageTables (copyKernel image m.mem) }
  -- The far return into 64-bit code pops what is pushed here.
  ((m.push 4 0x28).push 4 image.loaderEntry64).mem

end Handover

section Entry

variable (image : Stage2Image) (bios : Bios) (platform : Platform)

/-- `FixCS` up to the call of `LoadFile`: `ESI` is the first cluster of the kernel's file. -/
def findKernel (fuel : Nat) (m : Machine) : Run := do
  let m ← rootLoop image.toImage bios fuel (fixCS image.toImage m)
  let m := { m with eax := m.mem.read (m.entry 0x1C) 4 }
  let m := { m with mem := m.mem.write image.kernelSize 4 m.eax }
  .ok (firstCluster m)

/-- `LoadFile` and all that follows it: the memory at the jump to 0x100000. -/
def loadKernel (fuel : Nat) (m : Machine) : Except Stop Mem := do
  let m ← loadFile image.toImage bios fuel m
  let m ← checkCPU image platform m
  .ok (loaderEntry32 image m)

end Entry

end IncroOS
