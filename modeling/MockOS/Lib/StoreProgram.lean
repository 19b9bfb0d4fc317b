import Mathlib.Logic.Function.Basic
import Mathlib.Tactic.Common

namespace MockOS.Lib

/-- A program over a block store reads and writes whole blocks and may run into undefined behaviour. -/
inductive StoreProgram (Address Block : Type) (A : Type) where
  | done (value : A)
  | undefined
  | read (address : Address) (next : Block → StoreProgram Address Block A)
  | write (address : Address) (block : Block) (next : StoreProgram Address Block A)
  | flush (next : StoreProgram Address Block A)

namespace StoreProgram

variable {Address Block A B : Type}

/-- Sequencing continues each completed path with the second program. -/
def bind (program : StoreProgram Address Block A) (next : A → StoreProgram Address Block B) :
    StoreProgram Address Block B :=
  match program with
  | .done value => next value
  | .undefined => .undefined
  | .read address rest => .read address fun block => (rest block).bind next
  | .write address block rest => .write address block (rest.bind next)
  | .flush rest => .flush (rest.bind next)

instance : Monad (StoreProgram Address Block) where
  pure := .done
  bind := bind

/-- The flat meaning keeps one block per address and has nothing to flush. -/
def exec [DecidableEq Address] (program : StoreProgram Address Block A) (store : Address → Block) :
    Option (A × (Address → Block)) :=
  match program with
  | .done value => some (value, store)
  | .undefined => none
  | .read address next => (next (store address)).exec store
  | .write address block next => next.exec (Function.update store address block)
  | .flush next => next.exec store

@[simp] theorem exec_done [DecidableEq Address] (value : A) (store : Address → Block) :
    exec (.done value) store = some (value, store) := rfl

@[simp] theorem exec_pure [DecidableEq Address] (value : A) (store : Address → Block) :
    exec (pure value : StoreProgram Address Block A) store = some (value, store) := rfl

@[simp] theorem exec_undefined [DecidableEq Address] (store : Address → Block) :
    exec (.undefined : StoreProgram Address Block A) store = none := rfl

/-- The flat meaning of a sequence runs its parts in order. -/
theorem exec_bind [DecidableEq Address] (program : StoreProgram Address Block A)
    (next : A → StoreProgram Address Block B) (store : Address → Block) :
    exec (program >>= next) store =
      (exec program store).bind fun result => exec (next result.1) result.2 := by
  change exec (bind program next) store = _
  induction program generalizing store with
  | done value => rfl
  | undefined => rfl
  | read address rest ih => exact ih _ _
  | write address block rest ih => exact ih _
  | flush rest ih => exact ih _

/-- The addresses that the program reads and writes from a store, in order. -/
def accesses [DecidableEq Address] (program : StoreProgram Address Block A) (store : Address → Block) : List Address :=
  match program with
  | .done _ => []
  | .undefined => []
  | .read address next => address :: (next (store address)).accesses store
  | .write address block next => address :: next.accesses (Function.update store address block)
  | .flush next => next.accesses store

/-- The blocks that the program writes from a store, in order, each with its address. -/
def writes [DecidableEq Address] (program : StoreProgram Address Block A) (store : Address → Block) :
    List (Address × Block) :=
  match program with
  | .done _ => []
  | .undefined => []
  | .read address next => (next (store address)).writes store
  | .write address block next => (address, block) :: next.writes (Function.update store address block)
  | .flush next => next.writes store

theorem writes_bind [DecidableEq Address] (program : StoreProgram Address Block A)
    (next : A → StoreProgram Address Block B) (store : Address → Block) :
    writes (program >>= next) store = writes program store ++
      (exec program store).elim [] fun result => writes (next result.1) result.2 := by
  change writes (bind program next) store = _
  induction program generalizing store with
  | done value => rfl
  | undefined => rfl
  | read address rest ih => exact ih _ _
  | write address block rest ih => exact congrArg ((address, block) :: ·) (ih _)
  | flush rest ih => exact ih _

end StoreProgram

/-- A store machine answers the same requests from a state of its own. -/
structure StoreMachine (Address Block State : Type) where
  read : Address → State → Option (Block × State)
  write : Address → Block → State → Option State
  flush : State → State

/-- The machine behaves as the flat store that its view shows, on every state with the invariant. -/
structure StoreMachine.Transparent {Address Block State : Type} [DecidableEq Address]
    (machine : StoreMachine Address Block State) (valid : State → Prop)
    (view : State → Address → Block) : Prop where
  read : ∀ address state, valid state → ∃ next, machine.read address state =
    some (view state address, next) ∧ valid next ∧ view next = view state
  write : ∀ address block state, valid state → ∃ next, machine.write address block state =
    some next ∧ valid next ∧ view next = Function.update (view state) address block
  flush : ∀ state, valid state → valid (machine.flush state) ∧ view (machine.flush state) = view state

/-- The machine meaning threads the machine's own state through the program. -/
def StoreProgram.execOn {Address Block State A : Type} (machine : StoreMachine Address Block State) :
    StoreProgram Address Block A → State → Option (A × State)
  | .done value, state => some (value, state)
  | .undefined, _ => none
  | .read address next, state =>
      (machine.read address state).bind fun result => (next result.1).execOn machine result.2
  | .write address block next, state =>
      (machine.write address block state).bind fun result => next.execOn machine result
  | .flush next, state => next.execOn machine (machine.flush state)

/-- The machine meaning of a sequence runs its parts in order. -/
theorem StoreProgram.execOn_bind {Address Block State A B : Type}
    (machine : StoreMachine Address Block State) (program : StoreProgram Address Block A)
    (next : A → StoreProgram Address Block B) (state : State) :
    execOn machine (program >>= next) state =
      (execOn machine program state).bind fun result => execOn machine (next result.1) result.2 := by
  change execOn machine (StoreProgram.bind program next) state = _
  induction program generalizing state with
  | done value => rfl
  | undefined => rfl
  | read address rest ih =>
      simp only [StoreProgram.bind, execOn, Option.bind_assoc]
      exact congrArg _ (funext fun result => ih _ _)
  | write address block rest ih =>
      simp only [StoreProgram.bind, execOn, Option.bind_assoc]
      exact congrArg _ (funext fun result => ih _)
  | flush rest ih => exact ih _

/-- A transparent machine refines the flat store for every program. -/
theorem StoreMachine.Transparent.execOn_eq {Address Block State A : Type} [DecidableEq Address]
    {machine : StoreMachine Address Block State} {valid : State → Prop}
    {view : State → Address → Block} (transparent : machine.Transparent valid view)
    (program : StoreProgram Address Block A) (state : State) (holds : valid state) :
    (program.execOn machine state).map (fun result => (result.1, view result.2)) =
        program.exec (view state) ∧
      ∀ value next, program.execOn machine state = some (value, next) → valid next := by
  induction program generalizing state with
  | done value =>
      refine ⟨rfl, ?_⟩
      rintro _ _ ⟨⟩
      exact holds
  | undefined => exact ⟨rfl, fun _ _ impossible => nomatch impossible⟩
  | read address next ih =>
      obtain ⟨after, answered, afterHolds, same⟩ := transparent.read address state holds
      have continued := ih (view state address) after afterHolds
      rw [same] at continued
      simpa only [StoreProgram.execOn, StoreProgram.exec, answered, Option.bind_some] using continued
  | write address block next ih =>
      obtain ⟨after, answered, afterHolds, same⟩ := transparent.write address block state holds
      have continued := ih after afterHolds
      rw [same] at continued
      simpa only [StoreProgram.execOn, StoreProgram.exec, answered, Option.bind_some] using continued
  | flush next ih =>
      obtain ⟨afterHolds, same⟩ := transparent.flush state holds
      have continued := ih (machine.flush state) afterHolds
      rw [same] at continued
      exact continued

end MockOS.Lib
