import Mathlib.Logic.Basic

/-! A search along a list: what it finds, and what it looks at on the way. -/

namespace Lib

variable {α β : Type*} {p q : α → Bool} {xs ys : List α}

/-- The elements up to and including the first hit, or all of them. -/
def upTo (p : α → Bool) : List α → List α
  | [] => []
  | a :: rest => a :: if p a then [] else upTo p rest

/-- Searches by predicates that agree on the list look at the same elements. -/
theorem upTo_congr (same : ∀ a ∈ xs, p a = q a) : upTo p xs = upTo q xs := by
  -- By induction on the list.
  induction xs with
  | nil => rfl
  | cons a rest ih =>
    rw [upTo, upTo, same a List.mem_cons_self, ih fun b member => same b (List.mem_cons_of_mem a member)]

/-- Searches by predicates that agree on the list find the same element. -/
theorem find?_agree (same : ∀ a ∈ xs, p a = q a) : xs.find? p = xs.find? q := by
  -- The searches agree on the first element, and on what is left behind it.
  induction xs with
  | nil => rfl
  | cons a rest ih =>
    rw [List.find?_cons, List.find?_cons, same a List.mem_cons_self,
      ih fun b member => same b (List.mem_cons_of_mem a member)]

/-- Predicates that agree on the list hold of all its elements together. -/
theorem all_agree (same : ∀ a ∈ xs, p a = q a) : xs.all p = xs.all q := by
  rw [Bool.eq_iff_iff, List.all_eq_true, List.all_eq_true]
  exact forall₂_congr fun a member => by rw [same a member]

/-- A search looks at elements of the list only. -/
theorem mem_of_mem_upTo {a : α} (seen : a ∈ upTo p xs) : a ∈ xs := by
  -- Behind a hit nothing more is looked at.
  induction xs with
  | nil => exact seen
  | cons b rest ih =>
    rw [upTo, List.mem_cons] at seen
    rcases seen with rfl | later
    · exact List.mem_cons_self
    · refine List.mem_cons_of_mem b ?_
      split at later
      · exact absurd later List.not_mem_nil
      · exact ih later

/-- A search of a mapped list looks at the images of what a search of the list looks at. -/
theorem upTo_map (p : β → Bool) (f : α → β) (xs : List α) :
    upTo p (xs.map f) = (upTo (fun a => p (f a)) xs).map f := by
  -- Mapping changes no answer of the predicate.
  induction xs with
  | nil => rfl
  | cons a rest ih =>
    rw [List.map_cons, upTo, upTo, List.map_cons, ih]
    split
    · rfl
    · rfl

/-- A hit in the first part of a list ends the search there. -/
theorem upTo_append_hit {a : α} (hit : xs.find? p = some a) : upTo p (xs ++ ys) = upTo p xs := by
  -- Without a hit at the first element there is one further on.
  induction xs with
  | nil => exact absurd hit (by simp)
  | cons b rest ih =>
    rw [List.find?_cons] at hit
    rw [List.cons_append, upTo, upTo]
    cases here : p b with
    | true => rfl
    | false =>
      rw [here] at hit
      rw [ih hit]

/-- Without a hit in the first part the search goes on behind it. -/
theorem upTo_append_miss (miss : xs.find? p = none) : upTo p (xs ++ ys) = xs ++ upTo p ys := by
  -- No element of the first part is a hit, so each is passed.
  induction xs with
  | nil => rfl
  | cons b rest ih =>
    rw [List.find?_cons] at miss
    rw [List.cons_append, upTo]
    cases here : p b with
    | true =>
      rw [here] at miss
      exact absurd miss (by simp)
    | false =>
      rw [here] at miss
      rw [ih miss]
      rfl

/-- A search without a hit looks at the whole list. -/
theorem upTo_miss (miss : xs.find? p = none) : upTo p xs = xs := by
  have whole := @upTo_append_miss _ p xs [] miss
  rwa [List.append_nil, upTo, List.append_nil] at whole

/-- There is one place in a list where a property holds for the first time. -/
theorem first_unique {P : α → Prop} {front front' back back' : List α} {a a' : α}
    (same : front ++ a :: back = front' ++ a' :: back') (misses : ∀ b ∈ front, ¬ P b) (hit : P a)
    (misses' : ∀ b ∈ front', ¬ P b) (hit' : P a') : front = front' ∧ a = a' ∧ back = back' := by
  -- By induction on one front: a front that is longer would contain the first hit of the other.
  induction front generalizing front' with
  | nil =>
    cases front' with
    | nil =>
      obtain ⟨rfl, rfl⟩ := List.cons.inj same
      exact ⟨rfl, rfl, rfl⟩
    | cons b rest =>
      obtain ⟨rfl, -⟩ := List.cons.inj same
      exact absurd hit (misses' a List.mem_cons_self)
  | cons b rest ih =>
    cases front' with
    | nil =>
      obtain ⟨rfl, -⟩ := List.cons.inj same
      exact absurd hit' (misses b List.mem_cons_self)
    | cons c rest' =>
      obtain ⟨rfl, behind⟩ := List.cons.inj same
      obtain ⟨rfl, here, after⟩ := ih behind (fun d member => misses d (List.mem_cons_of_mem b member))
        fun d member => misses' d (List.mem_cons_of_mem b member)
      exact ⟨rfl, here, after⟩

end Lib
