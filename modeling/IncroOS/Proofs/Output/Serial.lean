import IncroOS.Output.Serial
import IncroOS.Proofs.Output.Strings

/-! The serial console sends every byte once, in order and in its format, however slow the line is. -/

namespace IncroOS

open Lib

section Device

variable {line : SerialLine} {uart : Uart} {value : UInt8}

/-- The line takes bytes again and again. -/
def SerialLine.Live (line : SerialLine) : Prop := ∀ n, ∃ m, n ≤ m ∧ 0 < line.takes m

/-- The frames that were sent, and those that the bytes in the transmitter will be. -/
def Uart.delivered (uart : Uart) : List Frame := uart.sent ++ uart.queue.map uart.frame

@[simp] theorem elapse_interruptEnable :
    (uart.elapse line).interruptEnable = uart.interruptEnable := rfl
@[simp] theorem elapse_fifoControl : (uart.elapse line).fifoControl = uart.fifoControl := rfl
@[simp] theorem elapse_lineControl : (uart.elapse line).lineControl = uart.lineControl := rfl
@[simp] theorem elapse_modemControl : (uart.elapse line).modemControl = uart.modemControl := rfl
@[simp] theorem elapse_divisorLow : (uart.elapse line).divisorLow = uart.divisorLow := rfl
@[simp] theorem elapse_divisorHigh : (uart.elapse line).divisorHigh = uart.divisorHigh := rfl
@[simp] theorem elapse_accesses : (uart.elapse line).accesses = uart.accesses + 1 := rfl
@[simp] theorem elapse_frame : (uart.elapse line).frame = uart.frame := rfl

@[simp] theorem elapse_queue :
    (uart.elapse line).queue = uart.queue.drop (line.takes uart.accesses) := rfl

/-- What leaves the transmitter goes to the line. -/
theorem elapse_delivered (connected : uart.loopback = false) :
    (uart.elapse line).delivered = uart.delivered := by
  -- The frames that are taken off the queue are appended to those on the line.
  have taken : (uart.elapse line).sent =
      uart.sent ++ (uart.queue.take (line.takes uart.accesses)).map uart.frame := by
    rw [Uart.elapse, connected]
    rfl
  rw [Uart.delivered, Uart.delivered, elapse_queue, elapse_frame, taken, List.append_assoc,
    ← List.map_append, List.take_append_drop]

/-- The bytes that the line has taken and those that still wait are some of those that waited. -/
theorem elapse_sent (line : SerialLine) (uart : Uart) :
    ∃ left : List Frame, (left.map Frame.data ++ (uart.elapse line).queue).Sublist uart.queue ∧
      (uart.elapse line).sent = uart.sent ++ left := by
  cases connected : uart.loopback with
  | true =>
    -- What is taken does not reach the line.
    refine ⟨[], List.drop_sublist _ _, ?_⟩
    rw [Uart.elapse, connected, List.append_nil]
    rfl
  | false =>
    refine ⟨(uart.queue.take (line.takes uart.accesses)).map uart.frame, ?_, ?_⟩
    · have bytes : ((uart.queue.take (line.takes uart.accesses)).map uart.frame).map Frame.data =
          uart.queue.take (line.takes uart.accesses) :=
        List.map_map.trans (List.map_id _)
      have whole : (uart.queue.take (line.takes uart.accesses)) ++ (uart.elapse line).queue =
          uart.queue := by rw [elapse_queue, List.take_append_drop]
      exact (bytes.symm ▸ whole).symm ▸ List.Sublist.refl uart.queue
    · rw [Uart.elapse, connected]
      rfl

/-- The bit that the driver tests shows an empty transmitter, whatever the other bits are. -/
theorem askTransmitter_ready :
    (askTransmitter line uart).2 = (uart.elapse line).queue.isEmpty := by
  -- The mask drops every bit but the fifth, which is set from the queue alone.
  have masked (status : UInt8) : status &&& 0xDF &&& 0x20 = 0 :=
    (UInt8.and_assoc _ _ _).trans UInt8.and_zero
  have bits (status low : UInt8) : (status &&& 0xDF ||| low) &&& 0x20 = low &&& 0x20 := by
    have split : (status &&& 0xDF ||| low) &&& 0x20 = status &&& 0xDF &&& 0x20 ||| low &&& 0x20 :=
      UInt8.toBitVec_inj.mp BitVec.and_or_distrib_right
    rw [split, masked, UInt8.zero_or]
  unfold askTransmitter inLineStatus
  dsimp only
  rw [bits]
  cases (uart.elapse line).queue.isEmpty with
  | true => rfl
  | false => rfl

@[simp] theorem askTransmitter_fst : (askTransmitter line uart).1 = uart.elapse line := rfl

/-- Each question is one access. -/
theorem asked_accesses {n : Nat} :
    (asked (askTransmitter line) uart n).accesses = uart.accesses + n := by
  -- The induction asks the first question apart from those behind it.
  induction n generalizing uart with
  | zero => rfl
  | succ n ih =>
    rw [asked, ih, askTransmitter_fst, elapse_accesses]
    omega

/-- No question puts a byte into the transmitter. -/
theorem asked_queue {n : Nat} :
    (asked (askTransmitter line) uart n).queue.length ≤ uart.queue.length := by
  -- While a question passes, the line may take bytes, and nothing puts any in.
  induction n generalizing uart with
  | zero => exact Nat.le_refl _
  | succ n ih =>
    have shorter : (uart.elapse line).queue.length ≤ uart.queue.length := by
      rw [elapse_queue, List.length_drop]
      omega
    exact (@ih (uart.elapse line)).trans shorter

/-- A live line empties the transmitter in the end. -/
theorem transmitter_empties (live : line.Live) :
    ∃ n, (askTransmitter line (asked (askTransmitter line) uart n)).2 = true := by
  -- The line takes one of the waiting bytes at least, after which fewer of them wait.
  induction bytes : uart.queue.length using Nat.strongRecOn generalizing uart with
  | _ bytes ih =>
    subst bytes
    by_cases empty : uart.queue = []
    · refine ⟨0, ?_⟩
      rw [asked, askTransmitter_ready, elapse_queue, empty, List.drop_nil]
      rfl
    · obtain ⟨m, later, takes⟩ := live uart.accesses
      have waiting : 0 < uart.queue.length := List.length_pos_iff.mpr empty
      have here : (asked (askTransmitter line) uart (m - uart.accesses)).accesses = m := by
        rw [asked_accesses]
        omega
      have few : (asked (askTransmitter line) uart (m - uart.accesses)).queue.length ≤
          uart.queue.length := asked_queue
      have shorter : (asked (askTransmitter line) uart (m - uart.accesses + 1)).queue.length <
          uart.queue.length := by
        rw [asked_add, asked, asked, askTransmitter_fst, elapse_queue, List.length_drop, here]
        omega
      obtain ⟨n, ready⟩ := ih _ shorter rfl
      refine ⟨m - uart.accesses + 1 + n, ?_⟩
      rwa [asked_add]

end Device

section Driver

variable {line : SerialLine} {uart : Uart} {c : UInt8} {data : Text} {size : Nat}

/-- What the driver sets: 8N1 at divisor 1, with the FIFO on and the line connected. -/
structure Programmed (uart : Uart) : Prop where
  fifoControl : uart.fifoControl = 0xC7
  lineControl : uart.lineControl = 0x03
  modemControl : uart.modemControl = 0x0B
  divisorLow : uart.divisorLow = 0x01
  divisorHigh : uart.divisorHigh = 0

/-- The frame in which the kernel sends a byte. -/
def kernelFrame (c : UInt8) : Frame := ⟨c, 0x03, 1⟩

theorem Programmed.elapse (programmed : Programmed uart) : Programmed (uart.elapse line) :=
  ⟨programmed.fifoControl, programmed.lineControl, programmed.modemControl, programmed.divisorLow,
    programmed.divisorHigh⟩

theorem Programmed.connected (programmed : Programmed uart) : uart.loopback = false := by
  rw [Uart.loopback, programmed.modemControl]
  rfl

theorem Programmed.frame (programmed : Programmed uart) : uart.frame = kernelFrame := by
  -- The format of a frame depends on the line control and the divisor only.
  funext c
  rw [Uart.frame, programmed.lineControl, programmed.divisorLow, programmed.divisorHigh]
  rfl

/-- A state in which the driver has output some bytes since another one. -/
structure HasOutput (before : Uart) (bytes : List UInt8) (uart : Uart) : Prop where
  programmed : Programmed uart
  interruptEnable : uart.interruptEnable = before.interruptEnable
  delivered : uart.delivered = before.delivered ++ bytes.map kernelFrame

theorem HasOutput.nil (programmed : Programmed uart) : HasOutput uart [] uart :=
  ⟨programmed, rfl, (List.append_nil _).symm⟩

/-- A byte for an empty transmitter is the next one to be sent. -/
theorem Programmed.outData (programmed : Programmed uart) (empty : uart.queue = []) :
    HasOutput uart [c] (outByte line com1Data c uart) := by
  have later : Programmed (uart.elapse line) := programmed.elapse
  have none : (uart.elapse line).queue = [] := by rw [elapse_queue, empty, List.drop_nil]
  have latch : (uart.elapse line).divisorLatch = false := by
    rw [Uart.divisorLatch, later.lineControl]
    rfl
  have fifo : (uart.elapse line).fifoEnabled = true := by
    rw [Uart.fifoEnabled, later.fifoControl]
    rfl
  -- The byte goes to the FIFO, which has room for it.
  have out : outByte line com1Data c uart = { uart.elapse line with queue := [c] } := by
    rw [outByte, if_pos rfl, latch, if_neg Bool.false_ne_true, Uart.transmit, if_pos fifo, none]
    rfl
  refine ⟨?_, ?_, ?_⟩
  · rw [out]
    exact ⟨later.fifoControl, later.lineControl, later.modemControl, later.divisorLow,
      later.divisorHigh⟩
  · rw [out]
    rfl
  · have same : (uart.elapse line).delivered = uart.delivered :=
      elapse_delivered programmed.connected
    rw [out, ← same, Uart.delivered, Uart.delivered, none, List.map_nil, List.append_nil,
      ← programmed.frame]
    rfl

/-- What was output after some bytes. -/
theorem HasOutput.trans {first second third : Uart} {bytes more : List UInt8}
    (one : HasOutput first bytes second) (two : HasOutput second more third) :
    HasOutput first (bytes ++ more) third := by
  refine ⟨two.programmed, two.interruptEnable.trans one.interruptEnable, ?_⟩
  rw [two.delivered, one.delivered, List.map_append, List.append_assoc]

/-- Time outputs nothing, and loses nothing. -/
theorem Programmed.elapses (programmed : Programmed uart) : HasOutput uart [] (uart.elapse line) :=
  ⟨programmed.elapse, rfl, (elapse_delivered programmed.connected).trans (List.append_nil _).symm⟩

/-- The wait for the transmitter ends with nothing waiting in it. -/
theorem Programmed.wait (programmed : Programmed uart) :
    Settles (fun fuel => pollUntil (askTransmitter line) fuel uart) line.Live
      (fun last => HasOutput uart [] last ∧ last.queue = []) := by
  -- The invariant of the wait: nothing has been output so far.
  refine Settles.poll (HasOutput uart []) (.nil programmed) (fun s before => ?_)
    (fun s before ready => ?_) transmitter_empties
  · exact before.trans before.programmed.elapses
  · rw [askTransmitter_ready, List.isEmpty_iff] at ready
    exact ⟨before.trans before.programmed.elapses, ready⟩

/-- `serial_putchar` outputs its character. -/
theorem HasOutput.putchar {before : Uart} {bytes : List UInt8} (output : HasOutput before bytes uart) :
    Settles (fun fuel => serialPutchar line fuel c uart) line.Live
      (HasOutput before (bytes ++ [c])) := by
  -- Once the transmitter is empty there is room for the byte.
  refine output.programmed.wait.bind fun ready waited => .pure ?_
  obtain ⟨nothing, empty⟩ := waited
  exact output.trans (nothing.trans (nothing.programmed.outData empty))

/-- What a character becomes on the line: a line feed is sent behind a carriage return. -/
def crlf (c : UInt8) : List UInt8 := if c = 0x0A then [0x0D, c] else [c]

/-- One turn of `serial_write` outputs what its character becomes. -/
theorem HasOutput.turn {before : Uart} {bytes : List UInt8} (output : HasOutput before bytes uart)
    (i : Nat) :
    Settles (fun fuel => serialWriteTurn line data fuel i uart) (line.Live ∧ (data i).isSome)
      (fun last => ∃ c, data i = some c ∧ HasOutput before (bytes ++ crlf c) last) := by
  refine (Settles.option And.right).bind fun c read => ?_
  by_cases feed : c = 0x0A
  · -- A line feed waits twice.
    simp only [if_pos feed]
    refine (output.putchar.under And.left).bind fun u returned => ?_
    refine (returned.putchar.under And.left).mono fun last put => ⟨c, read, ?_⟩
    rw [List.append_assoc, List.singleton_append] at put
    rwa [crlf, if_pos feed]
  · simp only [if_neg feed]
    refine (output.putchar.under And.left).mono fun last put => ⟨c, read, ?_⟩
    rwa [crlf, if_neg feed]

/-- What `serial_write` has output of its text. -/
def HasWritten (before : Uart) (bytes : List UInt8) (data : Text) (size : Nat) (uart : Uart) : Prop :=
  ∃ text : List UInt8, text.length = size ∧ Reads data text ∧
    HasOutput before (bytes ++ text.flatMap crlf) uart

/-- `serial_write` outputs its characters, with every line feed behind a carriage return. -/
theorem HasOutput.write {before : Uart} {bytes : List UInt8} (output : HasOutput before bytes uart) :
    Settles (fun fuel => serialWrite line fuel data size uart)
      (line.Live ∧ ∀ i < size, (data i).isSome) (HasWritten before bytes data size) := by
  have start : HasWritten before bytes data 0 uart := by
    refine ⟨[], rfl, .nil, ?_⟩
    rwa [List.flatMap_nil, List.append_nil]
  -- Every turn adds its character to the text.
  refine Settles.loop (HasWritten before bytes data) (Nat.zero_add size) start
    fun i s _ within written => ?_
  obtain ⟨text, rfl, reads, output⟩ := written
  have readable : (line.Live ∧ ∀ i < size, (data i).isSome) →
      line.Live ∧ (data text.length).isSome := fun alive => ⟨alive.1, alive.2 _ within⟩
  refine ((output.turn text.length).under readable).mono fun last returned => ?_
  obtain ⟨c, next, put⟩ := returned
  refine ⟨text ++ [c], List.length_append, reads.push next, ?_⟩
  rwa [List.flatMap_append, ← List.append_assoc, List.flatMap_singleton]

/-- `serial_writestring` outputs the string. -/
theorem HasOutput.writestring {before : Uart} {bytes : List UInt8}
    (output : HasOutput before bytes uart) :
    Settles (fun fuel => serialWritestring line fuel data uart)
      (line.Live ∧ ∃ string, IsString data string ∧ string.length < 2 ^ 64)
      (fun last => ∃ string, IsString data string ∧
        HasOutput before (bytes ++ string.flatMap crlf) last) := by
  refine (strlen_settles And.right).bind fun size measured => ?_
  obtain ⟨string, is, rfl, bound⟩ := measured
  refine (output.write.under fun alive => ⟨alive.1, fun i within => ?_⟩).mono fun last written => ?_
  · rw [is.chars i within]
    rfl
  · -- What was read is the string.
    obtain ⟨text, length, reads, put⟩ := written
    have same : text = string := List.ext_getElem length fun i left right =>
      Option.some.inj ((reads i left).symm.trans (is.chars i right))
    rw [same] at put
    exact ⟨string, is, put⟩

/-- The bytes that a call puts on the line. -/
def SerialCall.Outputs : SerialCall → List UInt8 → Prop
  | putchar c, out => out = [c]
  | write data size, out =>
    ∃ text : List UInt8, text.length = size.toNat ∧ Reads data text ∧ out = text.flatMap crlf
  | writestring data, out => ∃ string, IsString data string ∧ out = string.flatMap crlf

/-- A call whose reads are in bounds and whose string has an end. -/
def SerialCall.Ends : SerialCall → Prop
  | putchar _ => True
  | write data size => ∀ i < size.toNat, (data i).isSome
  | writestring data => ∃ string, IsString data string ∧ string.length < 2 ^ 64

/-- The bytes that a run of calls puts on the line. -/
inductive Outputs : List SerialCall → List UInt8 → Prop
  | nil : Outputs [] []
  | cons {call : SerialCall} {calls : List SerialCall} {out more : List UInt8}
      (first : call.Outputs out) (rest : Outputs calls more) :
      Outputs (call :: calls) (out ++ more)

/-- Every call outputs its bytes. -/
theorem HasOutput.call (line : SerialLine) {before : Uart} {bytes : List UInt8}
    (output : HasOutput before bytes uart) (call : SerialCall) :
    Settles (fun fuel => call.apply line fuel uart) (line.Live ∧ call.Ends)
      (fun last => ∃ out, call.Outputs out ∧ HasOutput before (bytes ++ out) last) := by
  -- Each of the three functions has its own specification, which also says what it read.
  cases call with
  | putchar c => exact (output.putchar.under And.left).mono fun last put => ⟨[c], rfl, put⟩
  | write data size =>
    refine output.write.mono fun last written => ?_
    obtain ⟨text, length, reads, put⟩ := written
    exact ⟨_, ⟨text, length, reads, rfl⟩, put⟩
  | writestring data =>
    refine output.writestring.mono fun last written => ?_
    obtain ⟨string, is, put⟩ := written
    exact ⟨_, ⟨string, is, rfl⟩, put⟩

/-- A run of calls outputs the bytes of each in its turn. -/
theorem HasOutput.run {before : Uart} {bytes : List UInt8} (output : HasOutput before bytes uart)
    (calls : List SerialCall) :
    Settles (fun fuel => serialRun line fuel calls uart)
      (line.Live ∧ ∀ call ∈ calls, call.Ends)
      (fun last => ∃ out, Outputs calls out ∧ HasOutput before (bytes ++ out) last) := by
  -- The induction is on the calls; the first one outputs in front of all the others.
  induction calls generalizing uart bytes with
  | nil => exact .pure ⟨[], .nil, by rwa [List.append_nil]⟩
  | cons call rest ih =>
    have first := (output.call line call).under
      fun alive : line.Live ∧ ∀ c ∈ call :: rest, c.Ends =>
        ⟨alive.1, alive.2 call List.mem_cons_self⟩
    refine first.bind fun s returned => ?_
    obtain ⟨out, outputs, put⟩ := returned
    refine ((ih put).under fun alive =>
      ⟨alive.1, fun c member => alive.2 c (List.mem_cons_of_mem _ member)⟩).mono fun last ran => ?_
    obtain ⟨more, outputs', put'⟩ := ran
    refine ⟨out ++ more, .cons outputs outputs', ?_⟩
    rwa [← List.append_assoc]

end Driver

section Init

variable {line : SerialLine} {start uart : Uart} {al : UInt8}

/-- Since the start the line has taken some bytes of those that waited, and some of them still wait. -/
def Leftover (start uart : Uart) : Prop :=
  ∃ left : List Frame, (left.map Frame.data ++ uart.queue).Sublist start.queue ∧
    uart.sent = start.sent ++ left

theorem Leftover.elapse (leftover : Leftover start uart) : Leftover start (uart.elapse line) := by
  -- What the line takes now comes behind what it had taken before.
  obtain ⟨left, some, sent⟩ := leftover
  obtain ⟨later, some', sent'⟩ := elapse_sent line uart
  refine ⟨left ++ later, ?_, ?_⟩
  · rw [List.map_append, List.append_assoc]
    exact (some'.append_left _).trans some
  · rw [sent', sent, List.append_assoc]

/-- An access that transmits nothing leaves no more waiting than there was. -/
theorem Leftover.out (line : SerialLine) (dx : Nat) (al : UInt8) (leftover : Leftover start uart)
    (latched : dx = com1Data → (uart.elapse line).divisorLatch = true) :
    Leftover start (outByte line dx al uart) := by
  have later : Leftover start (uart.elapse line) := leftover.elapse
  unfold outByte
  dsimp only
  split
  · rename_i data
    rw [latched data]
    exact later
  · split
    · split
      · exact later
      · exact later
    · split
      · -- The FIFO is kept or emptied.
        obtain ⟨left, some, sent⟩ := later
        refine ⟨left, ?_, sent⟩
        unfold Uart.controlFifo
        dsimp only
        split
        · rw [List.append_nil]
          exact (List.sublist_append_left _ _).trans some
        · exact some
      · split
        · exact later
        · split
          · exact later
          · exact later

theorem outIer_plain (plain : uart.divisorLatch = false) :
    outByte line com1Ier al uart = { uart.elapse line with interruptEnable := al } := by
  -- With the latch bit down the port is the one of the register itself.
  have same : (uart.elapse line).divisorLatch = false := plain
  rw [outByte, if_neg (by decide), if_pos rfl, same]
  rfl

theorem outIer_latched (latched : uart.divisorLatch = true) :
    outByte line com1Ier al uart = { uart.elapse line with divisorHigh := al } := by
  -- With the latch bit up the port is the one of the divisor's high byte.
  have same : (uart.elapse line).divisorLatch = true := latched
  rw [outByte, if_neg (by decide), if_pos rfl, same]
  rfl

theorem outData_latched (latched : uart.divisorLatch = true) :
    outByte line com1Data al uart = { uart.elapse line with divisorLow := al } := by
  -- With the latch bit up the port is the one of the divisor's low byte.
  have same : (uart.elapse line).divisorLatch = true := latched
  rw [outByte, if_pos rfl, same]
  rfl

theorem outLcr : outByte line com1Lcr al uart = { uart.elapse line with lineControl := al } := rfl

/-- The value that `serial_init` writes empties the transmit FIFO. -/
theorem outFifo (line : SerialLine) (uart : Uart) : outByte line com1Fifo 0xC7 uart =
    { uart.elapse line with fifoControl := 0xC7, queue := [] } := by
  -- Bit 2 of the value is the one that clears the transmit FIFO.
  have clears : (0xC7 &&& 0x04 != (0 : UInt8)) = true := rfl
  rw [outByte, if_neg (by decide), if_neg (by decide), if_pos rfl, Uart.controlFifo, clears]
  rfl

/-- The writes of `serial_init`, before it waits for the transmitter. -/
def programUart (line : SerialLine) (uart : Uart) : Uart :=
  let uart := outByte line com1Ier 0 uart
  let uart := outByte line com1Lcr 0x80 uart
  let uart := outByte line com1Data 0x01 uart
  let uart := outByte line com1Ier 0 uart
  let uart := outByte line com1Lcr 0x03 uart
  let uart := outByte line com1Fifo 0xC7 uart
  outByte line com1Mcr 0x0B uart

theorem divisorLatch_of (control : uart.lineControl = 0x80) : uart.divisorLatch = true := by
  rw [Uart.divisorLatch, control]
  rfl

/-- The first write meets the divisor instead of its register if the latch bit was left set. -/
theorem outIer_first : (outByte line com1Ier 0 uart).interruptEnable =
    if uart.divisorLatch then uart.interruptEnable else 0 := by
  -- The latch bit may have any value before the first write.
  cases latch : uart.divisorLatch with
  | true =>
    rw [outIer_latched latch]
    rfl
  | false =>
    rw [outIer_plain latch]
    rfl

/-- The divisor is written while the latch bit is set, and the format behind it. -/
theorem setDivisor_spec (line : SerialLine) (latched : uart.lineControl = 0x80)
    (leftover : Leftover start uart) :
    let last := outByte line com1Lcr 0x03 (outByte line com1Ier 0 (outByte line com1Data 0x01 uart))
    last.divisorLow = 0x01 ∧ last.divisorHigh = 0 ∧ last.lineControl = 0x03 ∧
      last.interruptEnable = uart.interruptEnable ∧ Leftover start last := by
  -- The latch bit stays up until the format is written, so both bytes go to the divisor.
  have low : outByte line com1Data 0x01 uart = { uart.elapse line with divisorLow := 0x01 } :=
    outData_latched (divisorLatch_of latched)
  have still : (outByte line com1Data 0x01 uart).divisorLatch = true := by
    rw [low]
    exact divisorLatch_of latched
  have lowLeft : Leftover start (outByte line com1Data 0x01 uart) :=
    leftover.out _ _ _ fun _ => divisorLatch_of latched
  have highLeft : Leftover start (outByte line com1Ier 0 (outByte line com1Data 0x01 uart)) :=
    lowLeft.out _ _ _ fun same => absurd same (by decide)
  refine ⟨?_, ?_, rfl, ?_, highLeft.out _ _ _ fun same => absurd same (by decide)⟩
  all_goals rw [outLcr, outIer_latched still, low]; rfl

/-- The writes set the registers from any state, and empty the transmitter. -/
theorem programUart_spec (line : SerialLine) (uart : Uart) : Programmed (programUart line uart) ∧
      (programUart line uart).queue = [] ∧
      Leftover uart (programUart line uart) ∧
      (programUart line uart).interruptEnable =
        if uart.divisorLatch then uart.interruptEnable else 0 := by
  have untouched : Leftover uart uart :=
    ⟨[], List.Sublist.refl _, (List.append_nil _).symm⟩
  -- The latch bit is set for the divisor, which comes with the format.
  have one : Leftover uart (outByte line com1Ier 0 uart) :=
    untouched.out _ _ _ fun same => absurd same (by decide)
  have two : Leftover uart (outByte line com1Lcr 0x80 (outByte line com1Ier 0 uart)) :=
    one.out _ _ _ fun same => absurd same (by decide)
  obtain ⟨low, high, format, interrupts, three⟩ := setDivisor_spec line rfl two
  -- The other two registers are left.
  have fifo := outFifo line (outByte line com1Lcr 0x03 (outByte line com1Ier 0
    (outByte line com1Data 0x01 (outByte line com1Lcr 0x80 (outByte line com1Ier 0 uart)))))
  have four := three.out line com1Fifo 0xC7 fun same => absurd same (by decide)
  have five := four.out line com1Mcr 0x0B fun same => absurd same (by decide)
  refine ⟨⟨?_, ?_, rfl, ?_, ?_⟩, ?_, five, ?_⟩
  · exact congrArg Uart.fifoControl fifo
  · exact (congrArg Uart.lineControl fifo).trans format
  · exact (congrArg Uart.divisorLow fifo).trans low
  · exact (congrArg Uart.divisorHigh fifo).trans high
  · exact (congrArg (List.drop _) (congrArg Uart.queue fifo)).trans List.drop_nil
  · exact ((congrArg Uart.interruptEnable fifo).trans interrupts).trans outIer_first

/-- `serial_init` programs the UART and outputs an `S`, behind what the line has taken before. -/
theorem serialInit_settles :
    Settles (fun fuel => serialInit line fuel uart) line.Live
      (fun last => ∃ ready : Uart, Leftover uart ready ∧ ready.queue = [] ∧
        ready.interruptEnable = (if uart.divisorLatch then uart.interruptEnable else 0) ∧
        HasOutput ready [0x53] last) := by
  -- The programming needs no wait; only the `S` waits for the transmitter.
  obtain ⟨programmed, empty, leftover, interrupts⟩ := programUart_spec line uart
  refine programmed.wait.bind fun ready waited => .pure ?_
  obtain ⟨nothing, empty'⟩ := waited
  have put : HasOutput ready [0x53] (outByte line com1Data 0x53 ready) :=
    nothing.programmed.outData empty'
  exact ⟨_, leftover, empty, interrupts, nothing.trans put⟩

/-- The UART of the console: what was left of an earlier one, and then the bytes of the kernel. -/
structure ConsoleShows (before : Uart) (bytes : List UInt8) (uart : Uart) : Prop where
  programmed : Programmed uart
  interruptEnable :
    uart.interruptEnable = if before.divisorLatch then before.interruptEnable else 0
  delivered : ∃ left, (left.map Frame.data).Sublist before.queue ∧
    uart.delivered = before.sent ++ left ++ bytes.map kernelFrame

/-- After `serial_init` the console shows an `S`. -/
theorem ConsoleShows.init (line : SerialLine) (uart : Uart) :
    Settles (fun fuel => serialInit line fuel uart) line.Live (ConsoleShows uart [0x53]) := by
  -- What the line took before the `S` was left over from before the call.
  refine serialInit_settles.mono fun last init => ?_
  obtain ⟨ready, ⟨left, some, sent⟩, empty, interrupts, first⟩ := init
  refine ⟨first.programmed, first.interruptEnable.trans interrupts, left, ?_, ?_⟩
  · exact (List.sublist_append_left _ _).trans some
  · rw [first.delivered, Uart.delivered, empty, List.map_nil, List.append_nil, sent]

/-- The console shows what is output behind what it showed. -/
theorem ConsoleShows.output {before : Uart} {bytes more : List UInt8} {last : Uart}
    (shows : ConsoleShows before bytes uart) (output : HasOutput uart more last) :
    ConsoleShows before (bytes ++ more) last := by
  -- What was left over before stays in front of both outputs.
  obtain ⟨left, some, same⟩ := shows.delivered
  refine ⟨output.programmed, output.interruptEnable.trans shows.interruptEnable, left, some, ?_⟩
  rw [output.delivered, same, List.map_append, ← List.append_assoc]

/-- After its initialisation the console has output every byte of every call once and in order. -/
theorem serial_log_exact (line : SerialLine) (uart : Uart) (calls : List SerialCall) :
    Settles (fun fuel => serialInit line fuel uart >>= serialRun line fuel calls)
      (line.Live ∧ ∀ call ∈ calls, call.Ends)
      (fun last => ∃ out, Outputs calls out ∧ ConsoleShows uart (0x53 :: out) last) := by
  -- The initialisation leaves a programmed UART, on which every call outputs its bytes.
  refine ((ConsoleShows.init line uart).under And.left).bind fun started shows => ?_
  refine ((HasOutput.nil shows.programmed).run calls).mono fun last ran => ?_
  obtain ⟨out, outputs, put⟩ := ran
  exact ⟨out, outputs, shows.output put⟩

end Init

section Receiver

variable {text : List UInt8} {calls : List SerialCall} {out : List UInt8}

/-- What the other end of the line makes of the bytes: a carriage return before a line feed goes. -/
def receive : List UInt8 → List UInt8
  | [] => []
  | c :: rest => if c = 0x0D ∧ rest.head? = some 0x0A then receive rest else c :: receive rest

/-- Behind its carriage return no line feed comes first. -/
theorem crlf_head : (text.flatMap crlf).head? ≠ some 0x0A := by
  -- Only the first character of the text matters.
  cases text with
  | nil => exact fun same => nomatch same
  | cons c rest =>
    rw [List.flatMap_cons, crlf]
    split
    · exact fun same => absurd (Option.some.inj same) (by decide)
    · rename_i other
      exact fun same => other (Option.some.inj same)

/-- The receiver has the text again, even where it contains carriage returns. -/
theorem receive_crlf : receive (text.flatMap crlf) = text := by
  induction text with
  | nil => rfl
  | cons c rest ih =>
    rw [List.flatMap_cons, crlf]
    split
    · -- The carriage return goes, and the line feed stays.
      rename_i feed
      subst feed
      rw [List.cons_append, receive, if_pos ⟨rfl, rfl⟩, List.cons_append, receive,
        if_neg fun both => absurd both.1 (by decide), List.nil_append, ih]
    · rw [List.cons_append, receive, if_neg fun both => crlf_head both.2, List.nil_append, ih]

/-- The text of a call. -/
def SerialCall.Spells : SerialCall → List UInt8 → Prop
  | putchar c, said => said = [c]
  | write data size, said => said.length = size.toNat ∧ Reads data said
  | writestring data, said => IsString data said

/-- The text of a run of calls. -/
inductive Spells : List SerialCall → List UInt8 → Prop
  | nil : Spells [] []
  | cons {call : SerialCall} {calls : List SerialCall} {said more : List UInt8}
      (first : call.Spells said) (rest : Spells calls more) : Spells (call :: calls) (said ++ more)

/-- Only `serial_putchar` itself outputs a line feed as it is. -/
theorem SerialCall.Outputs.spells {call : SerialCall} (outputs : call.Outputs out)
    (other : call ≠ .putchar 0x0A) : ∃ said, call.Spells said ∧ out = said.flatMap crlf := by
  -- A single character other than a line feed is output as it is, and texts with carriage returns.
  cases call with
  | putchar c =>
    refine ⟨[c], rfl, ?_⟩
    rw [List.flatMap_singleton, crlf, if_neg fun same => other (congrArg _ same)]
    exact outputs
  | write data size =>
    obtain ⟨said, length, reads, same⟩ := outputs
    exact ⟨said, ⟨length, reads⟩, same⟩
  | writestring data => exact outputs

theorem Outputs.spells (outputs : Outputs calls out) (others : .putchar 0x0A ∉ calls) :
    ∃ said, Spells calls said ∧ out = said.flatMap crlf := by
  -- The induction is on the calls, none of which is the one that is excluded.
  induction outputs with
  | nil => exact ⟨[], .nil, rfl⟩
  | cons first rest ih =>
    rw [List.mem_cons, not_or] at others
    obtain ⟨said, spells, same⟩ := first.spells (Ne.symm others.1)
    obtain ⟨more, spells', same'⟩ := ih others.2
    exact ⟨said ++ more, .cons spells spells', by rw [List.flatMap_append, same, same']⟩

/-- What is received behind the `S` is the text of the calls, if none of them puts a line feed. -/
theorem serial_log_readable (line : SerialLine) (uart : Uart) (calls : List SerialCall)
    (others : .putchar 0x0A ∉ calls) :
    Settles (fun fuel => serialInit line fuel uart >>= serialRun line fuel calls)
      (line.Live ∧ ∀ call ∈ calls, call.Ends)
      (fun last => ∃ out, ConsoleShows uart (0x53 :: out) last ∧ Spells calls (receive out)) := by
  -- Dropping the carriage returns again gives back what the calls spell.
  refine ((ConsoleShows.init line uart).under And.left).bind fun started shows => ?_
  refine ((HasOutput.nil shows.programmed).run calls).mono fun last ran => ?_
  obtain ⟨out, outputs, put⟩ := ran
  obtain ⟨said, spells, rfl⟩ := outputs.spells others
  have received : Spells calls (receive (said.flatMap crlf)) := by rwa [receive_crlf]
  exact ⟨_, shows.output put, received⟩

/-- A line that takes every byte at once. -/
def quickLine : SerialLine := ⟨fun _ => 16, fun _ => 0⟩

/-- It takes bytes after any number of polls. -/
theorem quickLine_live : quickLine.Live := fun n =>
  ⟨n, Nat.le_refl n, show 0 < 16 by decide⟩

/-- A UART with nothing set. -/
def resetUart : Uart := ⟨0, 0, 0, 0, 0, 0, [], [], 0⟩

/-- Two line feeds that `serial_write` outputs are received as they were. -/
theorem serial_log_readable_feeds :
    Settles (fun fuel => serialInit quickLine fuel resetUart >>=
        serialRun quickLine fuel [.write (memoryText (fun _ => 0x0A) 0) 2])
      (quickLine.Live ∧ ∀ call ∈ [SerialCall.write (memoryText (fun _ => 0x0A) 0) 2], call.Ends)
      (fun last => ∃ out, ConsoleShows resetUart (0x53 :: out) last ∧
        Spells [.write (memoryText (fun _ => 0x0A) 0) 2] (receive out)) :=
  serial_log_readable quickLine resetUart _ (by simp)

end Receiver

end IncroOS
