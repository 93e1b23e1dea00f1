import Mathlib.Tactic.TypeStar

/-! Programs that wait for devices: fuel bounds the turns of their loops, and enough of it settles them. -/

namespace Lib

universe u

section Settles

variable {α β : Type u}

/--
What a program returns meets the condition, and in a live environment it returns with enough fuel.

The fuel stands for the turns of its waiting loops, so that no fuel is enough where one never ends.
-/
structure Settles (run : Nat → Option α) (live : Prop) (post : α → Prop) : Prop where
  sound : ∀ fuel a, run fuel = some a → post a
  settles : live → ∃ fuel a, ∀ more, fuel ≤ more → run more = some a

variable {live : Prop} {post weaker : α → Prop} {final : β → Prop} {a : α}

/-- A program that does not wait. -/
theorem Settles.pure (holds : post a) : Settles (fun _ => some a) live post := by
  refine ⟨fun fuel b same => ?_, fun _ => ⟨0, a, fun _ _ => rfl⟩⟩
  rwa [← Option.some.inj same]

/-- A program that goes on with what another one returns. -/
theorem Settles.bind {run : Nat → Option α} {next : Nat → α → Option β}
    (first : Settles run live post)
    (second : ∀ a, post a → Settles (fun fuel => next fuel a) live final) :
    Settles (fun fuel => run fuel >>= next fuel) live final := by
  refine ⟨fun fuel b same => ?_, fun alive => ?_⟩
  · obtain ⟨a, returned, continued⟩ := Option.bind_eq_some_iff.mp same
    exact (second a (first.sound fuel a returned)).sound fuel b continued
  · -- Fuel that is enough for both parts is enough for the whole.
    obtain ⟨low, a, settled⟩ := first.settles alive
    have holds := first.sound low a (settled low (Nat.le_refl _))
    obtain ⟨high, b, finished⟩ := (second a holds).settles alive
    refine ⟨max low high, b, fun more enough => ?_⟩
    rw [settled more (by omega)]
    exact finished more (by omega)

/-- A weaker condition, or one that follows from it. -/
theorem Settles.mono {run : Nat → Option α} (settles : Settles run live post)
    (weaken : ∀ a, post a → weaker a) : Settles run live weaker :=
  ⟨fun fuel a returned => weaken a (settles.sound fuel a returned), settles.settles⟩

/-- A program settles in any environment that is live enough for it. -/
theorem Settles.under {run : Nat → Option α} {livelier : Prop} (settles : Settles run live post)
    (enough : livelier → live) : Settles run livelier post :=
  ⟨settles.sound, fun alive => settles.settles (enough alive)⟩

/-- A value that may be missing is there in an environment that provides it. -/
theorem Settles.option {value : Option α} (provided : live → value.isSome) :
    Settles (fun _ => value) live (fun a => value = some a) := by
  refine ⟨fun _ a same => same, fun alive => ?_⟩
  obtain ⟨a, same⟩ := Option.isSome_iff_exists.mp (provided alive)
  exact ⟨0, a, fun _ _ => same⟩

/-- A program that ends with enough fuel, and always with the same result. -/
theorem Settles.of_unique {run : Nat → Option α} (low : Nat)
    (ends : ∀ fuel, low ≤ fuel → (run fuel).isSome)
    (unique : ∀ fuel more a b, run fuel = some a → run more = some b → a = b) :
    Settles run live (fun a => ∃ fuel, run fuel = some a) := by
  refine ⟨fun fuel a returned => ⟨fuel, returned⟩, fun _ => ?_⟩
  obtain ⟨a, first⟩ := Option.isSome_iff_exists.mp (ends low (Nat.le_refl low))
  refine ⟨low, a, fun more enough => ?_⟩
  -- More fuel gives a result as well, and so the same one.
  obtain ⟨b, later⟩ := Option.isSome_iff_exists.mp (ends more enough)
  rw [later, unique low more a b first later]

end Settles

section Loop

variable {σ : Type u} {live : Prop}

/-- The loop `for (i = first; i < first + count; i++)` of a body that may wait. -/
def waitingLoop (body : Nat → σ → Option σ) : Nat → Nat → σ → Option σ
  | _, 0, state => some state
  | first, count + 1, state => body first state >>= waitingLoop body (first + 1) count

/-- What every turn carries on holds when the loop has ended. -/
theorem Settles.loop {body : Nat → Nat → σ → Option σ} (P : Nat → σ → Prop) {first count last : Nat}
    {state : σ} (ends : first + count = last) (start : P first state)
    (turn : ∀ i s, first ≤ i → i < last → P i s →
      Settles (fun fuel => body fuel i s) live (P (i + 1))) :
    Settles (fun fuel => waitingLoop (body fuel) first count state) live (P last) := by
  subst ends
  -- Each turn hands the condition to the loop that starts one later.
  induction count generalizing first state with
  | zero => exact .pure start
  | succ count ih =>
    refine (turn first state (by omega) (by omega) start).bind fun s next => ?_
    have rest := ih next fun i s low high => turn i s (by omega) (by omega)
    rwa [Nat.add_right_comm, Nat.add_assoc] at rest

end Loop

section Poll

variable {σ : Type u} {live : Prop} {ask : σ → σ × Bool} {keeps : σ → Prop}

/-- Ask a device until it is ready. -/
def pollUntil (ask : σ → σ × Bool) : Nat → σ → Option σ
  | 0, _ => none
  | fuel + 1, state =>
    let answer := ask state
    if answer.2 then some answer.1 else pollUntil ask fuel answer.1

/-- The states in which a device is asked, if it has not been ready before. -/
def asked (ask : σ → σ × Bool) (state : σ) : Nat → σ
  | 0 => state
  | n + 1 => asked ask (ask state).1 n

theorem asked_add {state : σ} {n m : Nat} :
    asked ask state (n + m) = asked ask (asked ask state n) m := by
  induction n generalizing state with
  | zero => rw [Nat.zero_add, asked]
  | succ n ih => rw [Nat.add_right_comm, asked, ih, asked]

/-- What asking keeps holds at the last question, which finds the device ready. -/
theorem pollUntil_ready {fuel : Nat} {state last : σ} (start : keeps state)
    (step : ∀ s, keeps s → keeps (ask s).1) (ends : pollUntil ask fuel state = some last) :
    ∃ s, keeps s ∧ ask s = (last, true) := by
  -- The loop ends at its first turn, or what asking keeps goes into the next one.
  induction fuel generalizing state with
  | zero => exact absurd ends (by simp [pollUntil])
  | succ fuel ih =>
    rw [pollUntil] at ends
    split at ends
    · rename_i ready
      exact ⟨state, start, Prod.ext (Option.some.inj ends) ready⟩
    · exact ih (step state start) ends

/-- A device that is ready at some time ends the loop, with the same result for any more fuel. -/
theorem pollUntil_ends {state : σ} {n : Nat} (ready : (ask (asked ask state n)).2 = true) :
    ∃ last, ∀ more, n < more → pollUntil ask more state = some last := by
  induction n generalizing state with
  | zero =>
    refine ⟨(ask state).1, fun more enough => ?_⟩
    obtain ⟨fuel, rfl⟩ := Nat.exists_eq_succ_of_ne_zero (show more ≠ 0 by omega)
    exact if_pos ready
  | succ n ih =>
    obtain ⟨last, ends⟩ := ih ready
    cases here : (ask state).2 with
    | true =>
      -- The device is ready even before that time.
      refine ⟨(ask state).1, fun more enough => ?_⟩
      obtain ⟨fuel, rfl⟩ := Nat.exists_eq_succ_of_ne_zero (show more ≠ 0 by omega)
      exact if_pos here
    | false =>
      refine ⟨last, fun more enough => ?_⟩
      obtain ⟨fuel, rfl⟩ := Nat.exists_eq_succ_of_ne_zero (show more ≠ 0 by omega)
      rw [pollUntil, here]
      exact ends fuel (by omega)

/-- A polling loop settles where the environment makes the device ready in the end. -/
theorem Settles.poll (keeps : σ → Prop) {state : σ} {post : σ → Prop} (start : keeps state)
    (step : ∀ s, keeps s → keeps (ask s).1)
    (finish : ∀ s, keeps s → (ask s).2 = true → post (ask s).1)
    (ready : live → ∃ n, (ask (asked ask state n)).2 = true) :
    Settles (fun fuel => pollUntil ask fuel state) live post := by
  -- A loop that ends has met readiness; a live device meets it in the end.
  refine ⟨fun fuel last ends => ?_, fun alive => ?_⟩
  · obtain ⟨s, kept, answer⟩ := pollUntil_ready start step ends
    have done := finish s kept (congrArg Prod.snd answer)
    rwa [answer] at done
  · obtain ⟨n, there⟩ := ready alive
    obtain ⟨last, ends⟩ := pollUntil_ends there
    exact ⟨n + 1, last, fun more enough => ends more (by omega)⟩

end Poll

end Lib
