import Mathlib.Order.Interval.Set.Basic
import IncroOS.Boot.PageTables

/-! The tables that Stage2 leaves behind: three pages of entries, all others of them zero. -/

namespace IncroOS

open Lib

/-- Two double words make one entry, whose upper half is zero. -/
theorem writeFirstEntry_read (mem : Mem) (edi : Nat) {entry : Nat} (bound : entry < 2 ^ 32) :
    (writeFirstEntry mem edi entry).read edi 8 = entry := by
  have width : 256 ^ 4 = 2 ^ 32 := by decide
  -- Eight bytes are read as the two halves that were written.
  have halves := Mem.read_add (writeFirstEntry mem edi entry) edi 4 4
  have upper : (writeFirstEntry mem edi entry).read (edi + 4) 4 = 0 := by
    rw [writeFirstEntry, Mem.read_write_self, Nat.zero_mod]
  have lower : (writeFirstEntry mem edi entry).read edi 4 = entry := by
    rw [writeFirstEntry, Mem.read_write_apart _ (by omega), Mem.read_write_self, width,
      Nat.mod_eq_of_lt bound]
  rw [upper, lower, Nat.mul_zero, Nat.add_zero] at halves
  exact halves

theorem writeFirstEntry_changes (mem : Mem) (edi entry : Nat) :
    Mem.ChangesOnly mem (writeFirstEntry mem edi entry) (Set.Ico edi (edi + 8)) := by
  -- The entry is written in two halves of four bytes.
  refine ((Mem.write_changes mem edi 4 entry).mono ?_).trans
    ((Mem.write_changes _ (edi + 4) 4 0).mono ?_)
  · intro x member
    simp only [Set.mem_Ico] at member ⊢
    omega
  · intro x member
    simp only [Set.mem_Ico] at member ⊢
    omega

/-- The tables' memory is cleared before any entry is written. -/
theorem clearTables_zero (mem : Mem) {x : Nat} (low : 0x1000 ≤ x) (high : x < 0x5000) :
    clearTables mem x = 0 := by
  -- After `i` turns the first `4 * i` bytes are zero.
  have cleared := forLoop_invariant (fun i (m : Mem) => m.write (0x1000 + 4 * i) 4 0) 0 4096 mem
    (fun i m => ∀ y, 0x1000 ≤ y → y < 0x1000 + 4 * i → m y = 0) (fun y low high => by omega) (by
      rintro i m - - zeros y low high
      by_cases here : 0x1000 + 4 * i ≤ y
      · exact Mem.write_zero m here (by omega)
      · rw [Mem.write_apart m (by omega)]
        exact zeros y low (by omega))
  exact cleared x low (by omega)

theorem clearTables_changes (mem : Mem) :
    Mem.ChangesOnly mem (clearTables mem) (Set.Ico 0x1000 0x5000) := by
  -- The invariant of the loop is the statement itself.
  refine forLoop_preserves (fun m : Mem => Mem.ChangesOnly mem m (Set.Ico 0x1000 0x5000))
    (Mem.ChangesOnly.refl mem _) ?_
  intro i m _ within changes
  refine changes.trans ((Mem.write_changes m (0x1000 + 4 * i) 4 0).mono fun x member => ?_)
  simp only [Set.mem_Ico] at member ⊢
  omega

/-- After `i` turns of `.SetEntry`, the first `i` entries of the page directory are written. -/
structure EntriesSet (mem : Mem) (i : Nat) (s : PageDirectoryFill) : Prop where
  edi : s.edi = 0x3000 + 8 * i
  ebx : s.ebx = i * 0x200000
  entries : ∀ k < i, s.mem.read (0x3000 + 8 * k) 8 = k * 0x200000 + 0x83
  changes : Mem.ChangesOnly mem s.mem (Set.Ico 0x3000 (0x3000 + 8 * i))

/-- A turn writes the entry of the next 2 MiB, as if it were the first one of a table. -/
theorem setEntry_mem {s : PageDirectoryFill} (i : Nat) (ebx : s.ebx = i * 0x200000) :
    (setEntry i s).mem = writeFirstEntry s.mem s.edi (i * 0x200000 + 0x83) := by
  -- The page is a multiple of 2 MiB, so its bits and those of the flags are apart.
  have value : i * 0x200000 ||| 0x83 = i * 0x200000 + 0x83 := by
    have shape : i * 0x200000 = i <<< 21 := (Nat.shiftLeft_eq i 21).symm
    rw [shape, Nat.shiftLeft_add_eq_or_of_lt (by decide)]
  rw [setEntry, ebx, value]
  rfl

/-- One more turn, one more entry. -/
theorem EntriesSet.next {mem : Mem} {i : Nat} {s : PageDirectoryFill} (set : EntriesSet mem i s)
    (within : i < 512) : EntriesSet mem (i + 1) (setEntry i s) := by
  have written := setEntry_mem i set.ebx
  rw [set.edi] at written
  have added := writeFirstEntry_changes s.mem (0x3000 + 8 * i) (i * 0x200000 + 0x83)
  constructor
  · have before := set.edi
    simp only [setEntry]
    omega
  · have before := set.ebx
    simp only [setEntry]
    omega
  · intro k below
    rw [written]
    by_cases here : k = i
    · rw [here]
      exact writeFirstEntry_read s.mem _ (by omega)
    · -- An entry of an earlier turn lies below the one that is written.
      rw [← set.entries k (by omega)]
      refine added.read fun y low high => ?_
      simp only [Set.mem_Ico]
      omega
  · rw [written]
    refine (set.changes.mono ?_).trans (added.mono ?_)
    · exact Set.Ico_subset_Ico (Nat.le_refl _) (by omega)
    · exact Set.Ico_subset_Ico (by omega) (by omega)

/-- The page directory after the loop of `.SetEntry`: every entry maps the next 2 MiB. -/
theorem setEntry_loop (mem : Mem) :
    let filled := (forLoop setEntry 0 512 ⟨mem, 0x3000, 0⟩).mem
    (∀ k < 512, filled.read (0x3000 + 8 * k) 8 = k * 0x200000 + 0x83) ∧
      Mem.ChangesOnly mem filled (Set.Ico 0x3000 0x4000) := by
  intro filled
  have start : EntriesSet mem 0 ⟨mem, 0x3000, 0⟩ :=
    ⟨rfl, rfl, fun k below => absurd below (Nat.not_lt_zero k), Mem.ChangesOnly.refl mem _⟩
  have done := forLoop_invariant setEntry 0 512 ⟨mem, 0x3000, 0⟩ (EntriesSet mem) start
    fun i s _ within set => set.next (by omega)
  exact ⟨done.entries, done.changes⟩

/-- Building the tables writes nothing but the memory that is cleared for them. -/
theorem buildPageTables_changes (mem : Mem) :
    Mem.ChangesOnly mem (buildPageTables mem) (Set.Ico 0x1000 0x5000) := by
  -- The tables are cleared first, then linked, then the page directory is filled.
  have filled := (setEntry_loop
    (writeFirstEntry (writeFirstEntry (clearTables mem) 0x1000 0x2003) 0x2000 0x3003)).2
  have second := writeFirstEntry_changes (writeFirstEntry (clearTables mem) 0x1000 0x2003) 0x2000 0x3003
  have first := writeFirstEntry_changes (clearTables mem) 0x1000 0x2003
  refine (((clearTables_changes mem).trans (first.mono ?_)).trans (second.mono ?_)).trans
    (filled.mono ?_)
  · exact Set.Ico_subset_Ico (by decide) (by decide)
  · exact Set.Ico_subset_Ico (by decide) (by decide)
  · exact Set.Ico_subset_Ico (by decide) (by decide)

/-- The loader's tables: two links, an identity map in large pages, and nothing else. -/
theorem buildPageTables_entries (mem : Mem) :
    (∀ k < 512, (buildPageTables mem).read (0x1000 + 8 * k) 8 = if k = 0 then 0x2003 else 0) ∧
    (∀ k < 512, (buildPageTables mem).read (0x2000 + 8 * k) 8 = if k = 0 then 0x3003 else 0) ∧
    ∀ k < 512, (buildPageTables mem).read (0x3000 + 8 * k) 8 = k * 0x200000 + 0x83 := by
  obtain ⟨entries, changes⟩ :=
    setEntry_loop (writeFirstEntry (writeFirstEntry (clearTables mem) 0x1000 0x2003) 0x2000 0x3003)
  have shape : buildPageTables mem = (forLoop setEntry 0 512 ⟨writeFirstEntry
      (writeFirstEntry (clearTables mem) 0x1000 0x2003) 0x2000 0x3003, 0x3000, 0⟩).mem := rfl
  rw [shape]
  generalize forLoop setEntry 0 512 _ = final at entries changes
  have second := writeFirstEntry_changes (writeFirstEntry (clearTables mem) 0x1000 0x2003) 0x2000 0x3003
  have first := writeFirstEntry_changes (clearTables mem) 0x1000 0x2003
  refine ⟨fun k within => ?_, fun k within => ?_, entries⟩
  · -- The top level: the link is written over the zeros.
    rw [changes.read fun x low high => by simp only [Set.mem_Ico]; omega,
      second.read fun x low high => by simp only [Set.mem_Ico]; omega]
    split
    · rename_i zero
      rw [zero]
      exact writeFirstEntry_read _ 0x1000 (by decide)
    · rw [first.read fun x low high => by simp only [Set.mem_Ico]; omega]
      exact Mem.read_zero fun x low high => clearTables_zero mem (by omega) (by omega)
  · rw [changes.read fun x low high => by simp only [Set.mem_Ico]; omega]
    split
    · rename_i zero
      rw [zero]
      exact writeFirstEntry_read _ 0x2000 (by decide)
    · rw [second.read fun x low high => by simp only [Set.mem_Ico]; omega,
        first.read fun x low high => by simp only [Set.mem_Ico]; omega]
      exact Mem.read_zero fun x low high => clearTables_zero mem (by omega) (by omega)

end IncroOS
