import IncroOS.Kernel.Main
import IncroOS.Output.Serial
import IncroOS.Output.Terminal

/-! The whole kernel: its memory, the statics of all its modules, and the UART that it outputs to. -/

namespace IncroOS

open Lib

/-- The kernel's memory and the statics of its modules, with the UART. -/
structure KernelMachine where
  kernel : Kernel
  terminalRow : Nat
  terminalColumn : Nat
  terminalColor : UInt8
  terminalBuffer : Nat
  uart : Uart

/-- The machine before any static of the terminal is set. -/
def KernelMachine.blank (kernel : Kernel) (uart : Uart) : KernelMachine where
  kernel := kernel
  terminalRow := 0
  terminalColumn := 0
  terminalColor := 0
  terminalBuffer := 0
  uart := uart

/-- The terminal works on the memory of the kernel. -/
def KernelMachine.terminal (machine : KernelMachine) : Terminal where
  mem := machine.kernel.mem
  terminalRow := machine.terminalRow
  terminalColumn := machine.terminalColumn
  terminalColor := machine.terminalColor
  terminalBuffer := machine.terminalBuffer

/-- The machine after a call to the terminal. -/
def KernelMachine.withTerminal (machine : KernelMachine) (terminal : Terminal) : KernelMachine where
  kernel := machine.kernel.withMem terminal.mem
  terminalRow := terminal.terminalRow
  terminalColumn := terminal.terminalColumn
  terminalColor := terminal.terminalColor
  terminalBuffer := terminal.terminalBuffer
  uart := machine.uart

/-- The machine after a call to one of the memory modules. -/
def KernelMachine.withKernel (machine : KernelMachine) (kernel : Kernel) : KernelMachine :=
  { machine with kernel }

/-- The machine after a call to the serial console. -/
def KernelMachine.withUart (machine : KernelMachine) (uart : Uart) : KernelMachine := { machine with uart }

/-- What a pointer into the kernel's memory points to. -/
def KernelMachine.text (machine : KernelMachine) (data : Nat) : Text :=
  memoryText machine.kernel.mem data

/-- `terminal_writestring`, which outputs the string on the serial console as well. -/
def terminalWritestring (line : SerialLine) (fuel data : Nat) (machine : KernelMachine) :
    Option KernelMachine := do
  let size ← strlen fuel (machine.text data)
  let machine := machine.withTerminal (terminalWrite data size machine.terminal)
  let uart ← serialWritestring line fuel (machine.text data) machine.uart
  some (machine.withUart uart)

section Fields

variable (machine : KernelMachine) (terminal : Terminal) (kernel : Kernel) (uart : Uart)

@[simp] theorem KernelMachine.blank_kernel : (KernelMachine.blank kernel uart).kernel = kernel := rfl
@[simp] theorem KernelMachine.terminal_mem : machine.terminal.mem = machine.kernel.mem := rfl
@[simp] theorem KernelMachine.withTerminal_terminal :
    (machine.withTerminal terminal).terminal = terminal := rfl
@[simp] theorem KernelMachine.withTerminal_kernel :
    (machine.withTerminal terminal).kernel = machine.kernel.withMem terminal.mem := rfl
@[simp] theorem KernelMachine.withTerminal_uart :
    (machine.withTerminal terminal).uart = machine.uart := rfl
@[simp] theorem KernelMachine.withKernel_kernel : (machine.withKernel kernel).kernel = kernel := rfl
@[simp] theorem KernelMachine.withKernel_uart : (machine.withKernel kernel).uart = machine.uart := rfl
@[simp] theorem KernelMachine.withUart_kernel : (machine.withUart uart).kernel = machine.kernel := rfl
@[simp] theorem KernelMachine.withUart_terminal :
    (machine.withUart uart).terminal = machine.terminal := rfl
@[simp] theorem KernelMachine.withUart_uart : (machine.withUart uart).uart = uart := rfl

end Fields

end IncroOS
