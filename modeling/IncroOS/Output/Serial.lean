import IncroOS.Lib.Waiting
import IncroOS.Output.Strings

/-! The serial console of `serial.asm` and `serial.c`, on a UART whose line takes bytes in its own time. -/

namespace IncroOS

open Lib

section Device

/-- What the line does: the bytes it takes before an access, and the status bits it shows then. -/
structure SerialLine where
  takes : Nat → Nat
  status : Nat → UInt8

/-- A byte on the line, with the format and the divisor it is sent with. -/
structure Frame where
  data : UInt8
  control : UInt8
  divisor : Nat
deriving DecidableEq

/-- The registers of the UART, the bytes that wait in its transmitter, and those that were sent. -/
structure Uart where
  interruptEnable : UInt8
  fifoControl : UInt8
  lineControl : UInt8
  modemControl : UInt8
  divisorLow : UInt8
  divisorHigh : UInt8
  queue : List UInt8
  sent : List Frame
  accesses : Nat

/-- The frame that the line control register and the divisor make of a byte. -/
def Uart.frame (uart : Uart) (data : UInt8) : Frame :=
  ⟨data, uart.lineControl, uart.divisorLow.toNat + 256 * uart.divisorHigh.toNat⟩

/-- The loopback bit of the modem control register keeps what is transmitted from the line. -/
def Uart.loopback (uart : Uart) : Bool := uart.modemControl &&& 0x10 != 0

/-- The divisor latch access bit of the line control register. -/
def Uart.divisorLatch (uart : Uart) : Bool := uart.lineControl &&& 0x80 != 0

/-- The enable bit of the FIFO control register. -/
def Uart.fifoEnabled (uart : Uart) : Bool := uart.fifoControl &&& 0x01 != 0

/-- Before every access the line takes some of the bytes that wait. -/
def Uart.elapse (line : SerialLine) (uart : Uart) : Uart :=
  let taken := uart.queue.take (line.takes uart.accesses)
  { uart with
    queue := uart.queue.drop (line.takes uart.accesses)
    sent := if uart.loopback then uart.sent else uart.sent ++ taken.map uart.frame
    accesses := uart.accesses + 1 }

/-- A byte for the transmitter: a full FIFO drops it, and without FIFO it replaces the byte before. -/
def Uart.transmit (value : UInt8) (uart : Uart) : Uart :=
  if uart.fifoEnabled then
    if uart.queue.length < 16 then { uart with queue := uart.queue ++ [value] } else uart
  else { uart with queue := [value] }

/-- Bit 2 empties the transmit FIFO, and so does a change of the enable bit. -/
def Uart.controlFifo (value : UInt8) (uart : Uart) : Uart :=
  { uart with
    fifoControl := value
    queue := if value &&& 0x04 != 0 || (value ^^^ uart.fifoControl) &&& 0x01 != 0 then []
      else uart.queue }

end Device

section Driver

/-- `COM1_PORT`. -/
def com1Port : Nat := 0x3F8

/-- `COM1_DATA`. -/
def com1Data : Nat := com1Port

/-- `COM1_IER`. -/
def com1Ier : Nat := com1Port + 1

/-- `COM1_FIFO`. -/
def com1Fifo : Nat := com1Port + 2

/-- `COM1_LCR`. -/
def com1Lcr : Nat := com1Port + 3

/-- `COM1_MCR`. -/
def com1Mcr : Nat := com1Port + 4

/-- `out dx, al`, where the latch bit puts the divisor in the place of two other registers. -/
def outByte (line : SerialLine) (dx : Nat) (al : UInt8) (uart : Uart) : Uart :=
  let uart := uart.elapse line
  if dx = com1Data then
    if uart.divisorLatch then { uart with divisorLow := al } else uart.transmit al
  else if dx = com1Ier then
    if uart.divisorLatch then { uart with divisorHigh := al }
    else { uart with interruptEnable := al }
  else if dx = com1Fifo then uart.controlFifo al
  else if dx = com1Lcr then { uart with lineControl := al }
  else if dx = com1Mcr then { uart with modemControl := al }
  else uart

/-- `in al, dx` from the line status register, whose bit 5 shows that no byte waits. -/
def inLineStatus (line : SerialLine) (uart : Uart) : Uart × UInt8 :=
  let uart := uart.elapse line
  (uart, line.status uart.accesses &&& 0xDF ||| if uart.queue.isEmpty then 0x20 else 0)

/-- One turn of `.init_wait` and of `.wait`. -/
def askTransmitter (line : SerialLine) (uart : Uart) : Uart × Bool :=
  let (uart, al) := inLineStatus line uart
  (uart, al &&& 0x20 != 0)

/-- `serial_init`, whose wait takes at most `fuel` turns. -/
def serialInit (line : SerialLine) (fuel : Nat) (uart : Uart) : Option Uart := do
  let uart := outByte line com1Ier 0 uart
  let uart := outByte line com1Lcr 0x80 uart
  let uart := outByte line com1Data 0x01 uart
  let uart := outByte line com1Ier 0 uart
  let uart := outByte line com1Lcr 0x03 uart
  let uart := outByte line com1Fifo 0xC7 uart
  let uart := outByte line com1Mcr 0x0B uart
  let uart ← pollUntil (askTransmitter line) fuel uart
  some (outByte line com1Data 0x53 uart)

/-- `serial_putchar`, whose wait takes at most `fuel` turns. -/
def serialPutchar (line : SerialLine) (fuel : Nat) (c : UInt8) (uart : Uart) : Option Uart := do
  let uart ← pollUntil (askTransmitter line) fuel uart
  some (outByte line com1Data c uart)

/-- The body of the loop of `serial_write`. -/
def serialWriteTurn (line : SerialLine) (data : Text) (fuel i : Nat) (uart : Uart) :
    Option Uart := do
  let c ← data i
  let uart ← if c = 0x0A then serialPutchar line fuel 0x0D uart else some uart
  serialPutchar line fuel c uart

/-- `serial_write`, each of whose waits takes at most `fuel` turns. -/
def serialWrite (line : SerialLine) (fuel : Nat) (data : Text) (size : Nat) (uart : Uart) :
    Option Uart :=
  waitingLoop (serialWriteTurn line data fuel) 0 size uart

def serialWritestring (line : SerialLine) (fuel : Nat) (data : Text) (uart : Uart) :
    Option Uart := do
  let size ← strlen fuel data
  serialWrite line fuel data size uart

/-- A call to the serial console after its initialisation. -/
inductive SerialCall where
  | putchar (c : UInt8)
  | write (data : Text) (size : UInt64)
  | writestring (data : Text)

/-- What a call does. -/
def SerialCall.apply (line : SerialLine) (fuel : Nat) (uart : Uart) : SerialCall → Option Uart
  | putchar c => serialPutchar line fuel c uart
  | write data size => serialWrite line fuel data size.toNat uart
  | writestring data => serialWritestring line fuel data uart

/-- A run of calls. -/
def serialRun (line : SerialLine) (fuel : Nat) : List SerialCall → Uart → Option Uart
  | [], uart => some uart
  | call :: rest, uart => do
    let uart ← call.apply line fuel uart
    serialRun line fuel rest uart

end Driver

end IncroOS
