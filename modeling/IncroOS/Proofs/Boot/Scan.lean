import IncroOS.Lib.Search
import IncroOS.Proofs.Boot.Clusters

/-! The scan of a directory cluster: which entries `.EntryLoop` looks at, and where it ends. -/

namespace IncroOS

open Lib

section Registers

theorem setWord_self (r : Nat) : setWord r (word r) = r := by
  unfold setWord word
  omega

variable {m : Machine}

/-- `popa` finds what `pusha` saved, and only the free stack has changed. -/
theorem pusha_popa (room : 16 ≤ m.sp) (bound : m.sp < 2 ^ 16) :
    m.pusha.popa = { m with mem := m.pusha.mem } ∧
      Mem.ChangesOnly m.mem m.pusha.mem (Set.Ico (m.sp - 16) m.sp) := by
  -- The addresses of the eight words, counted from the bottom.
  have word1 : m.sp - 16 + 2 = m.sp - 14 := by omega
  have word2 : m.sp - 16 + 4 = m.sp - 12 := by omega
  have word4 : m.sp - 16 + 8 = m.sp - 8 := by omega
  have word5 : m.sp - 16 + 10 = m.sp - 6 := by omega
  have word6 : m.sp - 16 + 12 = m.sp - 4 := by omega
  have word7 : m.sp - 16 + 14 = m.sp - 2 := by omega
  have back : (m.sp - 16 + 16) % 2 ^ 16 = m.sp := by omega
  cases m
  dsimp only at room bound word1 word2 word4 word5 word6 word7 back ⊢
  simp (disch := omega) only [Machine.pusha, Machine.push, push_offset, Nat.sub_sub, Nat.reduceAdd]
  refine ⟨?_, fun x outside => ?_⟩
  · simp (disch := omega) only [Machine.popa, word1, word2, word4, word5, word6, word7, back,
      Mem.read_write_self, Mem.read_write_apart, mod_word, setWord_self]
  · simp only [Set.mem_Ico, not_and_or] at outside
    simp (disch := omega) only [Mem.write_apart]

end Registers

/-- Where the clusters of the root directory are read to. -/
def rootBuffer : Nat := 0x1000

/-- The bytes in memory at which the scan stops: a zero, or the name of the file. -/
def hits (mem : Mem) (szFile i : Nat) : Bool :=
  mem (rootBuffer + 32 * i) == 0 ||
    (List.range 11).all fun j => mem (szFile + j) == mem (rootBuffer + 32 * i + j)

/-- The addresses of the entries that `.EntryLoop` looks at. -/
def entriesSeen : Nat → Machine → List Nat
  | 0, _ => []
  | dx + 1, m =>
    let m := { m with edx := setWord m.edx (dx + 1) }
    m.entry 0 ::
      if (m.mem (m.entry 0)).toNat = m.ecx / 2 ^ 8 % 2 ^ 8 || nameMatches m.pusha then []
      else
        let m := m.pusha.popa
        entriesSeen dx { m with edi := setWord m.edi (m.edi + 0x20) }

/-- The state of the scan at an entry, where only the free stack has changed since it started. -/
structure Scanning (image : Image) (mem : Mem) (sp i : Nat) (m : Machine) : Prop where
  stack : m.sp = sp
  es : m.es = 0
  di : word m.edi = rootBuffer + 32 * i
  si : word m.esi = image.szFile
  cx : word m.ecx = 11
  changes : Mem.ChangesOnly mem m.mem (Set.Ico (sp - 16) sp)

/-- The stack lies apart from the entries that are looked at and from the file's name. -/
structure ScanApart (image : Image) (sp : Nat) : Prop where
  entries : rootBuffer + 32 * 32 + 16 ≤ sp
  bound : sp < 2 ^ 16
  name : image.szFile + 11 ≤ sp - 16 ∨ sp ≤ image.szFile
  nameHigh : image.szFile + 11 ≤ 2 ^ 16

/-- What the scan ends in, by the first entry at which it stops. -/
def ScanMeets (image : Image) (mem : Mem) (sp : Nat) (hit : Option Nat) (scan : Scan) : Prop :=
  match hit with
  | none => ∃ m, scan = .passed m ∧ m.sp = sp ∧ Mem.ChangesOnly mem m.mem (Set.Ico (sp - 16) sp)
  | some i =>
    if mem (rootBuffer + 32 * i) = 0 then scan = .ended
    else ∃ m, scan = .found m ∧ Scanning image mem sp i m

section Scan

variable {image : Image} {mem : Mem} {sp i : Nat} {m : Machine}

/-- The scan reads the entry's own bytes. -/
theorem Scanning.entry (scan : Scanning image mem sp i m) (within : i < 32) {j : Nat} (inside : j < 32) :
    m.entry j = rootBuffer + 32 * i + j := by
  -- `ES` is 0, and the buffer ends below 64 KiB.
  have base : rootBuffer = 0x1000 := rfl
  have di := scan.di
  rw [Machine.entry, scan.es]
  simp only [word] at di ⊢
  omega

/-- Neither the entries nor the name are on the stack. -/
theorem Scanning.byte (scan : Scanning image mem sp i m) (apart : ScanApart image sp) {x : Nat}
    (place : x < rootBuffer + 32 * 32 ∨ image.szFile ≤ x ∧ x < image.szFile + 11) :
    m.mem x = mem x := by
  -- All that the scan has changed is a part of the stack.
  have low := apart.entries
  have name := apart.name
  refine scan.changes x fun inside => ?_
  have above := inside.1
  have below := inside.2
  omega

/-- The state after `pusha` and `popa` is as before, but for the free stack. -/
theorem Scanning.saved (scan : Scanning image mem sp i m) (apart : ScanApart image sp) :
    Scanning image mem sp i m.pusha.popa ∧
      ∀ x, x ∉ Set.Ico (sp - 16) sp → m.pusha.mem x = m.mem x := by
  have low := apart.entries
  have sp' := scan.stack
  obtain ⟨same, changes⟩ := @pusha_popa m (by omega) (by rw [sp']; exact apart.bound)
  rw [sp'] at changes
  -- What was pushed does not matter any more.
  generalize m.pusha.mem = pushed at same changes ⊢
  rw [same]
  exact ⟨⟨sp', scan.es, scan.di, scan.si, scan.cx, scan.changes.trans changes⟩, changes⟩

/-- `repe cmpsb` compares the name with the entry. -/
theorem Scanning.nameMatches (scan : Scanning image mem sp i m) (apart : ScanApart image sp)
    (within : i < 32) :
    nameMatches m.pusha = (List.range 11).all fun j =>
      mem (image.szFile + j) == mem (rootBuffer + 32 * i + j) := by
  have low := apart.entries
  have name := apart.name
  have high := apart.nameHigh
  have si := scan.si
  obtain ⟨-, saved⟩ := scan.saved apart
  have regs : m.pusha.ecx = m.ecx ∧ m.pusha.esi = m.esi ∧ ∀ j, m.pusha.entry j = m.entry j := by
    simp only [Machine.pusha, Machine.entry, Machine.push_ecx, Machine.push_esi, Machine.push_edi,
      Machine.push_es, implies_true, and_self]
  rw [IncroOS.nameMatches, regs.1, regs.2.1, scan.cx]
  -- Byte by byte, both operands are read from the memory that the scan started with.
  refine all_agree fun j member => ?_
  have inside : j < 11 := List.mem_range.mp member
  have start : rootBuffer = 0x1000 := rfl
  have place : word (m.esi + j) = image.szFile + j := by
    simp only [word] at si ⊢
    omega
  rw [place, regs.2.2, scan.entry within (by omega), saved _ fun stack => ?_, saved _ fun stack => ?_,
    scan.byte apart (.inr (by omega)), scan.byte apart (.inl (by omega))]
  · have above := stack.1
    omega
  · have above := stack.1
    have below := stack.2
    omega

/-- Counting the entries down changes nothing that the scan relies on. -/
theorem Scanning.count (scan : Scanning image mem sp i m) (edx : Nat) :
    Scanning image mem sp i { m with edx } :=
  ⟨scan.stack, scan.es, scan.di, scan.si, scan.cx, scan.changes⟩

/-- The scan moves on by one entry. -/
theorem Scanning.next (scan : Scanning image mem sp i m) (within : i < 32) :
    Scanning image mem sp (i + 1) { m with edi := setWord m.edi (m.edi + 0x20) } := by
  -- An entry has 32 bytes, and `DI` does not wrap in the buffer.
  have start : rootBuffer = 0x1000 := rfl
  have di := scan.di
  have place : word (m.edi + 0x20) = rootBuffer + 32 * (i + 1) := by
    simp only [word] at di ⊢
    omega
  exact ⟨scan.stack, scan.es, (word_setWord _ _).trans place, scan.si, scan.cx, scan.changes⟩

/-- One turn of `.EntryLoop`, once the entries have been counted down. -/
theorem entryLoop_turn {m' : Machine} {dx : Nat}
    (counted : m' = { m with edx := setWord m.edx (dx + 1) }) :
    entryLoop (dx + 1) m =
      (if (m'.mem (m'.entry 0)).toNat = m'.ecx / 2 ^ 8 % 2 ^ 8 then .ended
      else if IncroOS.nameMatches m'.pusha then .found m'.pusha.popa
      else entryLoop dx
        { m'.pusha.popa with edi := setWord m'.pusha.popa.edi (m'.pusha.popa.edi + 0x20) }) ∧
    entriesSeen (dx + 1) m =
      m'.entry 0 ::
        if (m'.mem (m'.entry 0)).toNat = m'.ecx / 2 ^ 8 % 2 ^ 8 || IncroOS.nameMatches m'.pusha then []
        else entriesSeen dx
          { m'.pusha.popa with edi := setWord m'.pusha.popa.edi (m'.pusha.popa.edi + 0x20) } := by
  subst counted
  exact ⟨rfl, rfl⟩

/-- One turn of `.EntryLoop`, in terms of the memory that the scan started with. -/
theorem Scanning.turn (scan : Scanning image mem sp i m) (apart : ScanApart image sp) (within : i < 32)
    (dx : Nat) :
    ∃ m₁ m₂, Scanning image mem sp i m₁ ∧ Scanning image mem sp (i + 1) m₂ ∧
      entryLoop (dx + 1) m =
        (if mem (rootBuffer + 32 * i) = 0 then .ended
        else if hits mem image.szFile i then .found m₁ else entryLoop dx m₂) ∧
      entriesSeen (dx + 1) m =
        (rootBuffer + 32 * i) :: if hits mem image.szFile i then [] else entriesSeen dx m₂ := by
  -- The registers, the byte and the name in terms of the cluster.
  have counted := scan.count (setWord m.edx (dx + 1))
  obtain ⟨loop, seen⟩ := @entryLoop_turn m _ dx rfl
  generalize ({ m with edx := setWord m.edx (dx + 1) } : Machine) = m' at counted loop seen
  have saved := (counted.saved apart).1
  have names := counted.nameMatches apart within
  have first : m'.entry 0 = rootBuffer + 32 * i := counted.entry within (by decide)
  have byte : m'.mem (rootBuffer + 32 * i) = mem (rootBuffer + 32 * i) :=
    counted.byte apart (.inl (by omega))
  have ch : m'.ecx / 2 ^ 8 % 2 ^ 8 = 0 := by
    have cx := counted.cx
    simp only [word] at cx
    omega
  have zero : (mem (rootBuffer + 32 * i)).toNat = 0 ↔ mem (rootBuffer + 32 * i) = 0 :=
    UInt8.toNat_inj (b := 0)
  rw [first, byte, ch, names] at loop seen
  refine ⟨_, _, saved, saved.next within, loop.trans ?_, seen.trans ?_⟩
  · -- The end of the directory is tested before the name.
    by_cases null : mem (rootBuffer + 32 * i) = 0
    · rw [if_pos (zero.mpr null), if_pos null]
    · have other : (mem (rootBuffer + 32 * i) == 0) = false := by simpa using null
      rw [if_neg (fun same => null (zero.mp same)), if_neg null, hits, other, Bool.false_or]
  · -- The turn stops at the end of the directory or at the name.
    have test : decide ((mem (rootBuffer + 32 * i)).toNat = 0) = (mem (rootBuffer + 32 * i) == 0) := by
      rw [decide_eq_decide.mpr zero]
      exact (beq_eq_decide _ _).symm
    rw [hits, test]

/-- From an entry on, the scan looks at the entries up to the first one at which it stops. -/
theorem entryLoop_spec (apart : ScanApart image sp) {dx : Nat} (scan : Scanning image mem sp i m)
    (turns : i + dx = 32) :
    entriesSeen dx m =
        (upTo (hits mem image.szFile) (List.range' i dx)).map (fun i => rootBuffer + 32 * i) ∧
      ScanMeets image mem sp ((List.range' i dx).find? (hits mem image.szFile)) (entryLoop dx m) := by
  -- The induction is on the entries that are left.
  induction dx generalizing i m with
  | zero => exact ⟨rfl, _, rfl, scan.stack, scan.changes⟩
  | succ dx ih =>
    obtain ⟨m₁, m₂, found, next, loop, seen⟩ := scan.turn apart (by omega) dx
    obtain ⟨further, rest⟩ := ih next (by omega)
    rw [loop, seen, List.range'_succ, upTo, List.map_cons, List.find?_cons]
    cases hit : hits mem image.szFile i with
    | true =>
      refine ⟨rfl, ?_⟩
      rw [ScanMeets]
      split
      · rfl
      · exact ⟨m₁, rfl, found⟩
    | false =>
      -- A byte of zero would have been a hit.
      have nonzero : mem (rootBuffer + 32 * i) ≠ 0 := by
        intro zero
        rw [hits, zero] at hit
        exact absurd hit (by simp)
      rw [if_neg nonzero]
      exact ⟨congrArg _ further, rest⟩

end Scan

attribute [irreducible] ScanMeets

end IncroOS
