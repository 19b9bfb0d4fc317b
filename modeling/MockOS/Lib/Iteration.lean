import Mathlib.Tactic.Common

namespace MockOS

theorem bind_eq_ok {E A B : Type} {first : Except E A} {next : A → Except E B} {result : B} :
    (first >>= next) = .ok result ↔ ∃ value, first = .ok value ∧ next value = .ok result := by
  cases first with
  | error fault => simp [bind, Except.bind]
  | ok value => simp [bind, Except.bind]

theorem ok_of_toOption {E A : Type} {result : Except E A} {value : A} (found : result.toOption = some value) :
    result = .ok value := by
  cases result with
  | error => cases found
  | ok => exact congrArg Except.ok (Option.some.inj found)

end MockOS

namespace MockOS.Lib

variable {State Fault : Type}

/-- A `while` loop cut off after `fuel` rounds: `none` says that it was still running. -/
def loop (finished : State → Bool) (step : State → Except Fault State) :
    Nat → State → Except Fault (Option State)
  | fuel, state =>
      if finished state then .ok (some state)
      else match fuel with
        | 0 => .ok none
        | fuel + 1 => (step state).bind (loop finished step fuel)

variable {finished : State → Bool} {step : State → Except Fault State}

theorem loop_finished {state : State} (stops : finished state) (fuel : Nat) :
    loop finished step fuel state = .ok (some state) := by
  cases fuel <;> simp [loop, stops]

theorem loop_succ {state next : State} (continues : finished state = false)
    (steps : step state = .ok next) (fuel : Nat) :
    loop finished step (fuel + 1) state = loop finished step fuel next := by
  simp [loop, continues, steps, Except.bind]

/-- A model that every round brings closer to its end takes the loop with it. -/
theorem loop_terminates {Model : Type} (finished : State → Bool) (step : State → Except Fault State)
    (represents : Model → State → Prop) (measure : Model → Nat)
    (decreases : ∀ model state, represents model state → finished state = false →
      ∃ next nextModel, step state = .ok next ∧ represents nextModel next ∧ measure nextModel < measure model)
    (model : Model) (state : State) (holds : represents model state) :
    ∃ fuel final finalModel, loop finished step fuel state = .ok (some final) ∧
      represents finalModel final ∧ finished final := by
  induction bound : measure model using Nat.strongRecOn generalizing model state with
  | ind size ih =>
      cases stops : finished state with
      | true => exact ⟨0, state, model, loop_finished stops 0, holds, stops⟩
      | false =>
          obtain ⟨next, nextModel, steps, nextHolds, smaller⟩ := decreases model state holds stops
          obtain ⟨fuel, final, finalModel, ends, finalHolds, finalStops⟩ :=
            ih (measure nextModel) (bound ▸ smaller) nextModel next nextHolds rfl
          exact ⟨fuel + 1, final, finalModel, (loop_succ stops steps fuel).trans ends, finalHolds, finalStops⟩

/-- An invariant of the rounds holds where the loop stops. -/
theorem loop_invariant (invariant : State → Prop)
    (keeps : ∀ state next, invariant state → finished state = false → step state = .ok next → invariant next)
    (fuel : Nat) (state final : State) (holds : invariant state)
    (ends : loop finished step fuel state = .ok (some final)) : invariant final ∧ finished final := by
  induction fuel generalizing state with
  | zero =>
      cases stops : finished state with
      | true =>
          rw [loop_finished stops, Except.ok.injEq, Option.some.injEq] at ends
          exact ends ▸ ⟨holds, stops⟩
      | false => simp [loop, stops] at ends
  | succ fuel ih =>
      cases stops : finished state with
      | true =>
          rw [loop_finished stops, Except.ok.injEq, Option.some.injEq] at ends
          exact ends ▸ ⟨holds, stops⟩
      | false =>
          cases steps : step state with
          | error fault => simp [loop, stops, steps, Except.bind] at ends
          | ok next =>
              rw [loop_succ stops steps] at ends
              exact ih next (keeps state next holds stops steps) ends

/-- Two loops whose rounds match run in lockstep. -/
theorem loop_lockstep {Other : Type} {otherFinished : Other → Bool} {otherStep : Other → Except Fault Other}
    (related : State → Other → Prop)
    (matched : ∀ state other, related state other → finished state = otherFinished other)
    (keeps : ∀ state other next, related state other → finished state = false → step state = .ok next →
      ∃ otherNext, otherStep other = .ok otherNext ∧ related next otherNext)
    (fuel : Nat) (state final : State) (other : Other) (holds : related state other)
    (ends : loop finished step fuel state = .ok (some final)) :
    ∃ otherFinal, loop otherFinished otherStep fuel other = .ok (some otherFinal) ∧ related final otherFinal := by
  induction fuel generalizing state other with
  | zero =>
      cases stops : finished state with
      | true =>
          rw [loop_finished stops, Except.ok.injEq, Option.some.injEq] at ends
          exact ⟨other, loop_finished ((matched state other holds).symm.trans stops) 0, ends ▸ holds⟩
      | false => simp [loop, stops] at ends
  | succ fuel ih =>
      cases stops : finished state with
      | true =>
          rw [loop_finished stops, Except.ok.injEq, Option.some.injEq] at ends
          exact ⟨other, loop_finished ((matched state other holds).symm.trans stops) _, ends ▸ holds⟩
      | false =>
          cases steps : step state with
          | error fault => simp [loop, stops, steps, Except.bind] at ends
          | ok next =>
              rw [loop_succ stops steps] at ends
              obtain ⟨otherNext, otherSteps, nextHolds⟩ := keeps state other next holds stops steps
              rw [loop_succ ((matched state other holds).symm.trans stops) otherSteps]
              exact ih next otherNext nextHolds ends

/-- An invariant that excludes the exit and survives each round keeps the loop from ending. -/
theorem loop_never_finishes (finished : State → Bool) (step : State → Except Fault State)
    (invariant : State → Prop)
    (continues : ∀ state, invariant state → finished state = false)
    (preserves : ∀ state next, invariant state → step state = .ok next → invariant next)
    (fuel : Nat) (state final : State) (holds : invariant state) :
    loop finished step fuel state ≠ .ok (some final) := by
  induction fuel generalizing state with
  | zero => simp [loop, continues state holds]
  | succ fuel ih =>
      cases steps : step state with
      | error fault => simp [loop, continues state holds, steps, Except.bind]
      | ok next =>
          rw [loop_succ (continues state holds) steps]
          exact ih next (preserves state next holds steps)

end MockOS.Lib
