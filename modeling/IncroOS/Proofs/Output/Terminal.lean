import IncroOS.Lib.Ring
import IncroOS.Lib.Runs
import IncroOS.Output.Terminal

/-! The terminal is a ring over the screen: each entry shows the last character that came to it. -/

namespace IncroOS

open Lib

section Printed

variable (terminal : Terminal)

/-- The characters that a call outputs, each as it is when its turn comes. -/
def TerminalCall.characters : TerminalCall → List UInt8
  | setcolor _ => []
  | putchar c => [c]
  | write data size =>
    loopTrace (writeTurn data.toNat) (fun i terminal => terminal.mem (u64 (data.toNat + i))) 0 size.toNat
      terminal

/-- The colour in force after a call. -/
def TerminalCall.colorAfter (color : UInt8) : TerminalCall → UInt8
  | setcolor new => new
  | putchar _ => color
  | write _ _ => color

/-- All characters of a run of calls, with the colour in force at each. -/
def printed (terminal : Terminal) (color : UInt8) : List TerminalCall → List (UInt8 × UInt8)
  | [] => []
  | call :: rest =>
    (call.characters terminal).map (fun c => (c, color)) ++
      printed (call.apply terminal) (call.colorAfter color) rest

end Printed

/-- The entries of the screen. -/
def screenSize : Nat := vgaWidth * vgaHeight

/-- The entry that the initialisation fills the screen with. -/
def blankEntry : UInt16 := vgaEntry 0x20 (vgaEntryColor .lightGrey .black)

/-- The entry of a character in its colour. -/
def entryOf (output : UInt8 × UInt8) : UInt16 := vgaEntry output.1 output.2

/-- The bytes of the entries at the indices. -/
def entryBytes (buffer : Nat) (indices : List Nat) : Set Nat :=
  {x | ∃ index ∈ indices, buffer + 2 * index ≤ x ∧ x < buffer + 2 * index + 2}

section Entries

variable {terminal : Terminal} {entry : UInt16} {index k x y : Nat}

/-- On the screen the arithmetic of an index does not wrap. -/
theorem entryIndex_eq (column : x < vgaWidth) (row : y < vgaHeight) :
    entryIndex x y = y * vgaWidth + x := by
  -- The largest index of the screen is far below the limit of 64 bits.
  unfold vgaWidth at column
  unfold vgaHeight at row
  unfold entryIndex vgaWidth
  exact u64_of_lt (by omega)

theorem setEntryAt_self : (terminal.setEntryAt index entry).entryAt index = entry := by
  -- Two bytes are written, and the same two bytes are read back.
  have bound : entry.toNat < 256 ^ 2 := entry.toNat_lt
  rw [Terminal.setEntryAt, Terminal.entryAt, Mem.read_write_self, Nat.mod_eq_of_lt bound]
  exact UInt16.ofNat_toNat

theorem setEntryAt_other (apart : k ≠ index) :
    (terminal.setEntryAt index entry).entryAt k = terminal.entryAt k := by
  rw [Terminal.setEntryAt, Terminal.entryAt, Mem.read_write_apart _ (by dsimp only; omega)]
  rfl

theorem setEntryAt_changes : Mem.ChangesOnly terminal.mem (terminal.setEntryAt index entry).mem
    (entryBytes terminal.terminalBuffer [index]) := by
  refine (Mem.write_changes _ _ _ _).mono fun x inside => ?_
  exact ⟨index, List.mem_singleton_self index, inside⟩

theorem entryBytes_append {buffer : Nat} {indices more : List Nat} :
    entryBytes buffer (indices ++ more) = entryBytes buffer indices ∪ entryBytes buffer more := by
  ext x
  simp only [entryBytes, List.mem_append, Set.mem_ofPred_eq, Set.mem_union, or_and_right, exists_or]

end Entries

/-- What is written are entries of the screen, and no other byte changes. -/
structure Draws (before after : Terminal) (indices : List Nat) : Prop where
  inside : ∀ index ∈ indices, index < screenSize
  changes : Mem.ChangesOnly before.mem after.mem (entryBytes 0xB8000 indices)

section Draws

variable {first second third : Terminal} {indices more : List Nat}

theorem Draws.of_mem (same : second.mem = first.mem) : Draws first second [] :=
  ⟨fun _ member => absurd member List.not_mem_nil, fun a _ => congrFun same a⟩

theorem Draws.append (one : Draws first second indices) (two : Draws second third more) :
    Draws first third (indices ++ more) := by
  -- Each of the two writes its own part of the entries.
  refine ⟨fun index member => ?_, ?_⟩
  · rcases List.mem_append.mp member with early | late
    · exact one.inside index early
    · exact two.inside index late
  · rw [entryBytes_append]
    exact (one.changes.mono Set.subset_union_left).trans (two.changes.mono Set.subset_union_right)

end Draws

section Put

variable {terminal : Terminal} {c : UInt8}

/-- Where the cursor is. -/
def Terminal.cursor (terminal : Terminal) : Cursor := ⟨terminal.terminalColumn, terminal.terminalRow⟩

/-- The terminal with its cursor elsewhere. -/
def Terminal.withCursor (cursor : Cursor) (terminal : Terminal) : Terminal :=
  { terminal with terminalColumn := cursor.column, terminalRow := cursor.row }

/-- A cursor that is on the screen goes to the next place, behind the entry that is written. -/
theorem terminalPutchar_eq (column : terminal.terminalColumn < vgaWidth)
    (row : terminal.terminalRow < vgaHeight) :
    terminalPutchar c terminal =
      (terminal.setEntryAt terminal.cursorIndex (vgaEntry c terminal.terminalColor)).withCursor
        (terminal.cursor.next vgaWidth vgaHeight) := by
  -- Within the limits neither counter wraps, so that the tests for equality meet them.
  have wide : u64 (terminal.terminalColumn + 1) = terminal.terminalColumn + 1 :=
    u64_of_lt (by unfold vgaWidth at column; omega)
  have high : u64 (terminal.terminalRow + 1) = terminal.terminalRow + 1 :=
    u64_of_lt (by unfold vgaHeight at row; omega)
  unfold terminalPutchar Terminal.cursor Cursor.next terminalPutentryat Terminal.setEntryAt
  dsimp only
  rw [wide, high]
  split
  · -- The column is full, and so may be the row.
    split
    · rfl
    · rfl
  · rfl

/-- A cursor on the screen stands on the entry with its number. -/
theorem cursorIndex_eq (column : terminal.terminalColumn < vgaWidth)
    (row : terminal.terminalRow < vgaHeight) :
    terminal.cursorIndex = terminal.cursor.index vgaWidth :=
  entryIndex_eq column row

end Put

/-- The screen shows a history of characters, and the cursor is behind the last of them. -/
structure ScreenShows (terminal : Terminal) (color : UInt8) (history : List (UInt8 × UInt8)) :
    Prop where
  buffer : terminal.terminalBuffer = 0xB8000
  cursor : terminal.cursor = Cursor.after vgaWidth vgaHeight history.length
  color : terminal.terminalColor = color
  cells : RingShows screenSize (fun _ => blankEntry) terminal.entryAt (history.map entryOf)

section Shows

variable {terminal : Terminal} {color c : UInt8} {history : List (UInt8 × UInt8)}

theorem ScreenShows.column (shows : ScreenShows terminal color history) :
    terminal.terminalColumn = history.length % 80 :=
  congrArg Cursor.column shows.cursor

theorem ScreenShows.row (shows : ScreenShows terminal color history) :
    terminal.terminalRow = history.length / 80 % 25 :=
  congrArg Cursor.row shows.cursor

theorem ScreenShows.column_lt (shows : ScreenShows terminal color history) :
    terminal.terminalColumn < vgaWidth := by
  rw [shows.column]
  exact Nat.mod_lt _ (by decide)

theorem ScreenShows.row_lt (shows : ScreenShows terminal color history) :
    terminal.terminalRow < vgaHeight := by
  rw [shows.row]
  exact Nat.mod_lt _ (by decide)

/-- The next character comes to the entry with the number of characters, counted round. -/
theorem ScreenShows.cursorIndex (shows : ScreenShows terminal color history) :
    terminal.cursorIndex = history.length % screenSize := by
  rw [cursorIndex_eq shows.column_lt shows.row_lt, shows.cursor]
  exact Cursor.index_after

theorem ScreenShows.cursorIndex_lt (shows : ScreenShows terminal color history) :
    terminal.cursorIndex < screenSize := by
  rw [shows.cursorIndex]
  exact Nat.mod_lt _ (by decide)

/-- What one more character does. -/
theorem ScreenShows.putchar_eq (shows : ScreenShows terminal color history) :
    terminalPutchar c terminal =
      (terminal.setEntryAt terminal.cursorIndex (vgaEntry c color)).withCursor
        (Cursor.after vgaWidth vgaHeight (history.length + 1)) := by
  rw [terminalPutchar_eq shows.column_lt shows.row_lt, shows.color, shows.cursor,
    Cursor.after_succ (by decide) (by decide)]

/-- One more character. -/
theorem ScreenShows.putchar (shows : ScreenShows terminal color history) :
    ScreenShows (terminalPutchar c terminal) color (history ++ [(c, color)]) := by
  have longer : (history ++ [(c, color)]).length = history.length + 1 := List.length_append
  -- The buffer and the colour stay as they are.
  rw [shows.putchar_eq]
  refine ⟨shows.buffer, ?_, shows.color, ?_⟩
  · rw [longer]
    rfl
  · -- The entry under the cursor is the next of the ring.
    rw [List.map_append]
    refine shows.cells.push ?_ fun k within other => ?_
    · rw [List.length_map, ← shows.cursorIndex]
      exact setEntryAt_self
    · -- No other entry is touched.
      rw [List.length_map, ← shows.cursorIndex] at other
      exact setEntryAt_other other

/-- One character is written to one entry. -/
theorem ScreenShows.putchar_draws (shows : ScreenShows terminal color history) :
    Draws terminal (terminalPutchar c terminal) [terminal.cursorIndex] := by
  -- The entry is the one under the cursor, which is on the screen.
  refine ⟨fun index member => ?_, ?_⟩
  · rw [List.mem_singleton.mp member]
    exact shows.cursorIndex_lt
  · rw [shows.putchar_eq, ← shows.buffer]
    exact setEntryAt_changes

/-- A run of characters, each as it is in memory when its turn comes. -/
theorem ScreenShows.write (data size : UInt64) (shows : ScreenShows terminal color history) :
    ScreenShows (terminalWrite data.toNat size.toNat terminal) color
      (history ++ ((TerminalCall.write data size).characters terminal).map (fun c => (c, color))) := by
  -- The history grows by the character of each turn.
  refine forLoop_trace
    (fun done terminal => ScreenShows terminal color (history ++ done.map fun c => (c, color)))
    [] (by simpa using shows) fun i s done before => ?_
  rw [List.map_append, ← List.append_assoc]
  exact before.putchar

theorem ScreenShows.write_draws (data size : UInt64)
    (shows : ScreenShows terminal color history) :
    Draws terminal (terminalWrite data.toNat size.toNat terminal)
      ((TerminalCall.write data size).indices terminal) := by
  -- At every turn the screen shows some history, which puts the cursor on it.
  refine (forLoop_trace
    (fun done s => (∃ history, ScreenShows s color history) ∧ Draws terminal s done)
    [] ⟨⟨history, shows⟩, .of_mem rfl⟩ fun i s done before => ?_).2
  obtain ⟨⟨shown, here⟩, draws⟩ := before
  exact ⟨⟨_, here.putchar⟩, draws.append here.putchar_draws⟩

/-- What a call leaves on the screen. -/
theorem ScreenShows.call (shows : ScreenShows terminal color history) (call : TerminalCall) :
    ScreenShows (call.apply terminal) (call.colorAfter color)
      (history ++ (call.characters terminal).map (fun c => (c, color))) := by
  cases call with
  | setcolor new =>
    -- Only the colour changes, and it does not touch what is on the screen.
    rw [TerminalCall.characters, List.map_nil, List.append_nil]
    exact ⟨shows.buffer, shows.cursor, rfl, shows.cells⟩
  | putchar c => exact shows.putchar
  | write data size => exact shows.write data size

theorem ScreenShows.call_draws (shows : ScreenShows terminal color history) (call : TerminalCall) :
    Draws terminal (call.apply terminal) (call.indices terminal) := by
  -- Only the colour is set without drawing.
  cases call with
  | setcolor new => exact .of_mem rfl
  | putchar c => exact shows.putchar_draws
  | write data size => exact shows.write_draws data size

/-- What a run of calls leaves on the screen. -/
theorem ScreenShows.run (shows : ScreenShows terminal color history) (calls : List TerminalCall) :
    ∃ last, ScreenShows (runCalls TerminalCall.apply terminal calls) last
      (history ++ printed terminal color calls) := by
  -- The induction is on the calls, each of which adds its characters.
  induction calls generalizing terminal color history with
  | nil => exact ⟨color, by simpa [runCalls, printed] using shows⟩
  | cons call rest ih =>
    rw [printed, ← List.append_assoc]
    exact ih (shows.call call)

theorem ScreenShows.run_draws (shows : ScreenShows terminal color history)
    (calls : List TerminalCall) :
    Draws terminal (runCalls TerminalCall.apply terminal calls) (indicesWritten terminal calls) := by
  -- What each call shows puts the cursor of the next one on the screen.
  induction calls generalizing terminal color history with
  | nil => exact .of_mem rfl
  | cons call rest ih => exact (shows.call_draws call).append (ih (shows.call call))

end Shows

section Initialize

variable {terminal before : Terminal} {x y n : Nat}

/-- The first entries are blank, and the initialisation has written no others. -/
structure Cleared (before terminal : Terminal) (n : Nat) : Prop where
  buffer : terminal.terminalBuffer = 0xB8000
  cursor : terminal.cursor = ⟨0, 0⟩
  color : terminal.terminalColor = vgaEntryColor .lightGrey .black
  blank : ∀ k < n, terminal.entryAt k = blankEntry
  changes : Mem.ChangesOnly before.mem terminal.mem (entryBytes 0xB8000 initializeIndices)

theorem entryIndex_mem (column : x < vgaWidth) (row : y < vgaHeight) :
    entryIndex x y ∈ initializeIndices :=
  List.mem_flatMap.mpr
    ⟨y, List.mem_range.mpr row, List.mem_map.mpr ⟨x, List.mem_range.mpr column, rfl⟩⟩

/-- The initialisation writes entries of the screen only. -/
theorem initializeIndices_lt {index : Nat} (member : index ∈ initializeIndices) :
    index < screenSize := by
  -- Each index comes from a place on the grid.
  obtain ⟨y, row, inRow⟩ := List.mem_flatMap.mp member
  obtain ⟨x, column, rfl⟩ := List.mem_map.mp inRow
  rw [List.mem_range] at row column
  rw [entryIndex_eq column row]
  unfold vgaWidth at column
  unfold vgaHeight at row
  unfold screenSize vgaWidth vgaHeight
  omega

/-- One more entry. -/
theorem Cleared.entry (cleared : Cleared before terminal (y * vgaWidth + x)) (column : x < vgaWidth)
    (row : y < vgaHeight) : Cleared before (clearEntry y x terminal) (y * vgaWidth + (x + 1)) := by
  -- The turn writes one blank entry behind those that are blank.
  refine ⟨cleared.buffer, cleared.cursor, cleared.color, fun k within => ?_, ?_⟩
  · unfold clearEntry
    rw [entryIndex_eq column row, cleared.color]
    by_cases here : k = y * vgaWidth + x
    · -- This is the entry that the turn writes.
      rw [here]
      exact setEntryAt_self
    · -- The entries before it are blank already.
      rw [setEntryAt_other here]
      exact cleared.blank k (by omega)
  · refine cleared.changes.trans (setEntryAt_changes.mono fun a inside => ?_)
    obtain ⟨index, only, place⟩ := inside
    rw [cleared.buffer] at place
    exact ⟨index, List.mem_singleton.mp only ▸ entryIndex_mem column row, place⟩

/-- One more row. -/
theorem Cleared.row (cleared : Cleared before terminal (y * vgaWidth)) (row : y < vgaHeight) :
    Cleared before (clearRow y terminal) ((y + 1) * vgaWidth) := by
  -- The row is full behind its last entry, where the next row starts.
  have filled := forLoop_invariant (clearEntry y) 0 vgaWidth terminal
    (fun x s => Cleared before s (y * vgaWidth + x)) cleared fun x s _ column here =>
      here.entry (by omega) row
  rwa [Nat.zero_add, ← Nat.succ_mul] at filled

/-- The initialisation blanks the screen. -/
theorem terminalInitialize_cleared : Cleared before (terminalInitialize before) screenSize := by
  -- No entry is known to be blank when the statics have been set.
  have filled := forLoop_invariant clearRow 0 vgaHeight
    { before with
      terminalRow := 0, terminalColumn := 0, terminalColor := vgaEntryColor .lightGrey .black,
      terminalBuffer := 0xB8000 }
    (fun y s => Cleared before s (y * vgaWidth))
    ⟨rfl, rfl, rfl, fun k within => absurd within (by omega), Mem.ChangesOnly.refl _ _⟩
    fun y s _ row here => here.row (by omega)
  rwa [Nat.zero_add, Nat.mul_comm] at filled

theorem terminalInitialize_shows :
    ScreenShows (terminalInitialize before) (vgaEntryColor .lightGrey .black) [] := by
  have cleared : Cleared before (terminalInitialize before) screenSize := terminalInitialize_cleared
  exact ⟨cleared.buffer, cleared.cursor, cleared.color, .nil cleared.blank⟩

theorem terminalInitialize_draws :
    Draws before (terminalInitialize before) initializeIndices :=
  ⟨fun _ => initializeIndices_lt, terminalInitialize_cleared.changes⟩

end Initialize

section Text

variable {terminal : Terminal} {color : UInt8} {history : List (UInt8 × UInt8)}

/-- A byte away from the screen is the same after every turn. -/
theorem Draws.byte {after : Terminal} {indices : List Nat} (draws : Draws terminal after indices)
    {a : Nat} (apart : a < 0xB8000 ∨ 0xB8000 + 2 * screenSize ≤ a) : after.mem a = terminal.mem a := by
  -- Every index that is drawn to lies on the screen.
  refine draws.changes a fun ⟨index, member, low, high⟩ => ?_
  have within := draws.inside index member
  omega

/-- A text that lies apart from the screen is output as it is in memory before the call. -/
theorem characters_write (data size : UInt64) (shows : ScreenShows terminal color history)
    (apart : ∀ i < size.toNat, u64 (data.toNat + i) < 0xB8000 ∨
      0xB8000 + 2 * screenSize ≤ u64 (data.toNat + i)) :
    (TerminalCall.write data size).characters terminal =
      (List.range size.toNat).map fun i => terminal.mem (u64 (data.toNat + i)) := by
  rw [TerminalCall.characters, List.range_eq_range']
  have turns : ∀ first count s, first + count ≤ size.toNat →
      (∃ history, ScreenShows s color history) →
      (∀ i < size.toNat, s.mem (u64 (data.toNat + i)) = terminal.mem (u64 (data.toNat + i))) →
      loopTrace (writeTurn data.toNat) (fun i s => s.mem (u64 (data.toNat + i))) first count s =
        (List.range' first count).map fun i => terminal.mem (u64 (data.toNat + i)) := by
    intro first count
    -- Each turn draws on the screen, which leaves the text to the rest of the loop.
    induction count generalizing first with
    | zero => exact fun _ _ _ _ => rfl
    | succ count ih =>
      intro s fits ⟨shown, here⟩ same
      rw [loopTrace, List.range'_succ, List.map_cons, same first (by omega)]
      congr 1
      refine ih _ _ (by omega) ⟨_, here.putchar⟩ fun i within => ?_
      rw [writeTurn, here.putchar_draws.byte (apart i within), same i within]
  exact turns 0 size.toNat terminal (by omega) ⟨history, shows⟩ fun _ _ => rfl

end Text

/-- The terminal is a ring over the screen. -/
theorem terminal_is_ring (before : Terminal) (calls : List TerminalCall) :
    let start := terminalInitialize before
    let final := runCalls TerminalCall.apply start calls
    let outputs := printed start (vgaEntryColor .lightGrey .black) calls
    let written := initializeIndices ++ indicesWritten start calls
    (∀ index ∈ written, index < 2000) ∧
      Mem.ChangesOnly before.mem final.mem (entryBytes 0xB8000 written) ∧
      final.terminalBuffer = 0xB8000 ∧
      final.terminalColumn = outputs.length % 80 ∧
      final.terminalRow = outputs.length / 80 % 25 ∧
      ∀ k < 2000,
        (∀ i c color, outputs[i]? = some (c, color) → IsLast 2000 outputs k i →
          final.entryAt k = vgaEntry c color) ∧
        ((∀ i < outputs.length, i % 2000 ≠ k) →
          final.entryAt k = vgaEntry 0x20 (vgaEntryColor .lightGrey .black)) := by
  intro start final outputs written
  have blank : ScreenShows start (vgaEntryColor .lightGrey .black) [] := terminalInitialize_shows
  obtain ⟨color, shows⟩ := blank.run calls
  rw [List.nil_append] at shows
  have draws : Draws before final written := terminalInitialize_draws.append (blank.run_draws calls)
  refine ⟨draws.inside, draws.changes, shows.buffer, shows.column, shows.row, fun k within => ?_⟩
  refine ⟨fun i c color value last => ?_, fun untouched => ?_⟩
  · -- The entry of the last character is the last value of the ring's cell.
    have entry : (outputs.map entryOf)[i]? = some (vgaEntry c color) := by
      rw [List.getElem?_map, value]
      rfl
    refine shows.cells.last k within i _ entry ⟨last.1, fun j inside => ?_⟩
    rw [List.length_map] at inside
    exact last.2 j inside
  · refine shows.cells.first k within fun i inside => ?_
    rw [List.length_map] at inside
    exact untouched i inside

end IncroOS
