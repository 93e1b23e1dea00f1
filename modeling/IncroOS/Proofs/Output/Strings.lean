import IncroOS.Lib.Waiting
import IncroOS.Output.Strings

/-! `strlen` returns the length of the string it is given, if there is one. -/

namespace IncroOS

open Lib

section Reads

variable {str : Text} {bytes : List UInt8} {c : UInt8}

theorem Reads.nil : Reads str [] :=
  fun _ within => absurd within (Nat.not_lt_zero _)

/-- One more byte. -/
theorem Reads.push (reads : Reads str bytes) (next : str bytes.length = some c) :
    Reads str (bytes ++ [c]) := by
  intro i within
  rw [List.length_append, List.length_singleton] at within
  -- The last byte is the new one, and those before it were there.
  by_cases last : i = bytes.length
  · subst last
    rw [next, List.getElem_concat_length rfl]
  · rw [List.getElem_append_left (by omega)]
    exact reads i (by omega)

end Reads

section Strlen

variable {str : Text} {string other seen : List UInt8} {fuel len : Nat}

/-- The bytes start with some characters, among which is no NUL. -/
structure StartsWith (str : Text) (seen : List UInt8) : Prop where
  chars : Reads str seen
  printable : ∀ c ∈ seen, c ≠ 0

theorem StartsWith.nil : StartsWith str [] :=
  ⟨.nil, fun _ member => absurd member List.not_mem_nil⟩

/-- One more character. -/
theorem StartsWith.push {c : UInt8} (starts : StartsWith str seen) (next : str seen.length = some c)
    (printable : c ≠ 0) : StartsWith str (seen ++ [c]) := by
  -- The new character is read behind the others, and is no NUL either.
  refine ⟨starts.chars.push next, fun d member => ?_⟩
  rcases List.mem_append.mp member with old | new
  · exact starts.printable d old
  · rwa [List.mem_singleton.mp new]

theorem IsString.starts (is : IsString str string) : StartsWith str string :=
  ⟨is.chars, is.printable⟩

/-- The NUL comes behind whatever was seen of the string. -/
theorem IsString.length_le (is : IsString str string) (starts : StartsWith str seen) :
    seen.length ≤ string.length := by
  -- A longer one would contain the NUL that ends the string.
  by_contra longer
  have zero := starts.chars string.length (by omega)
  rw [is.terminated] at zero
  exact starts.printable _ (List.getElem_mem _) (Option.some.inj zero).symm

/-- Bytes are those of one string at most. -/
theorem IsString.unique (is : IsString str string) (is' : IsString str other) : string = other := by
  -- Neither string can go on where the other one ends.
  have short := is.length_le is'.starts
  have long := is'.length_le is.starts
  refine List.ext_getElem (by omega) fun i left right => ?_
  exact Option.some.inj ((is.chars i left).symm.trans (is'.chars i right))

/-- What the loop returns is the length of the string that starts with the characters seen. -/
theorem strlenFrom_sound (starts : StartsWith str seen) (bound : seen.length < 2 ^ 64)
    (returned : strlenFrom str fuel seen.length = some len) :
    ∃ string, IsString str string ∧ string.length = len ∧ len < 2 ^ 64 := by
  induction fuel generalizing seen with
  | zero => exact absurd returned (by simp [strlenFrom])
  | succ fuel ih =>
    obtain ⟨c, next, continued⟩ := Option.bind_eq_some_iff.mp returned
    split at continued
    · rename_i printable
      by_cases wraps : seen.length + 1 < 2 ^ 64
      · -- The character joins those that were seen.
        have more := starts.push next printable
        rw [u64_of_lt wraps] at continued
        have longer : (seen ++ [c]).length = seen.length + 1 := List.length_append
        rw [← longer] at continued wraps
        exact ih more wraps continued
      · -- The length wraps, and the loop starts again with nothing seen.
        have again : u64 (seen.length + 1) = 0 := by
          rw [show seen.length + 1 = 2 ^ 64 by omega]
          rfl
        rw [again] at continued
        exact ih .nil (by decide) continued
    · -- The NUL ends what was seen.
      rename_i zero
      rw [not_ne_iff.mp zero] at next
      obtain rfl := Option.some.inj continued
      exact ⟨seen, ⟨starts.chars, starts.printable, next⟩, rfl, bound⟩

/-- The loop passes over the characters that are left of a string. -/
theorem strlenFrom_returns (is : IsString str string) (bound : string.length < 2 ^ 64)
    {left start : Nat} (rest : start + left = string.length) (enough : left < fuel) :
    strlenFrom str fuel start = some string.length := by
  -- The induction is on the characters that are left, each of which takes one turn.
  obtain ⟨fuel, rfl⟩ := Nat.exists_eq_succ_of_ne_zero (show fuel ≠ 0 by omega)
  induction left generalizing start fuel with
  | zero =>
    obtain rfl : start = string.length := by omega
    rw [strlenFrom, is.terminated]
    rfl
  | succ left ih =>
    obtain ⟨fuel, rfl⟩ := Nat.exists_eq_succ_of_ne_zero (show fuel ≠ 0 by omega)
    have within : start < string.length := by omega
    have printable : string[start] ≠ 0 := is.printable _ (List.getElem_mem within)
    have next := ih (show start + 1 + left = string.length by omega) fuel (by omega)
    rw [strlenFrom, is.chars start within, u64_of_lt (show start + 1 < 2 ^ 64 by omega)]
    exact (if_pos printable).trans next

/-- The length of the string, which the loop comes to exactly if there is a string. -/
theorem strlen_settles {live : Prop}
    (ends : live → ∃ string, IsString str string ∧ string.length < 2 ^ 64) :
    Settles (fun fuel => strlen fuel str) live
      (fun len => ∃ string, IsString str string ∧ string.length = len ∧ len < 2 ^ 64) := by
  -- The first direction holds of every result, the second one finds the fuel for it.
  refine ⟨fun fuel len returned => ?_, fun alive => ?_⟩
  · exact strlenFrom_sound .nil (by decide) returned
  · obtain ⟨string, is, bound⟩ := ends alive
    refine ⟨string.length + 1, string.length, fun more enough => ?_⟩
    exact strlenFrom_returns is bound (Nat.zero_add _) (by omega)

end Strlen

end IncroOS
