import Mathlib.Tactic.Common

namespace MockOS.Lib

variable {State Spec Label : Type*}

/-- The runs of a labelled step relation, with their labels in order. -/
inductive Runs (Step : State → Label → State → Prop) (start : State) : List Label → State → Prop
  | start : Runs Step start [] start
  | step {labels : List Label} {state next : State} {label : Label} :
      Runs Step start labels state → Step state label next → Runs Step start (labels ++ [label]) next

namespace Runs

variable {Step : State → Label → State → Prop} {SpecStep : Spec → Label → Spec → Prop} {start state : State}
  {labels : List Label}

/-- A specification that matches each step matches each run. -/
theorem simulates (runs : Runs Step start labels state) {related : State → Spec → Prop} {spec : Spec}
    (initially : related start spec)
    (matched : ∀ state spec label next, related state spec → Step state label next →
      ∃ specNext, SpecStep spec label specNext ∧ related next specNext) :
    ∃ specLast, Runs SpecStep spec labels specLast ∧ related state specLast := by
  induction runs with
  | start => exact ⟨spec, .start, initially⟩
  | step _ steps ih =>
      obtain ⟨between, specRuns, holds⟩ := ih
      obtain ⟨specNext, specSteps, holdsNext⟩ := matched _ _ _ _ holds steps
      exact ⟨specNext, specRuns.step specSteps, holdsNext⟩

end Runs

end MockOS.Lib
