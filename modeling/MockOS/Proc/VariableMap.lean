import MockOS.Lib.SlotStore
import MockOS.Proc.Frames
import MockOS.Proc.Interpreter

namespace MockOS.Proc

open Lib

/-- What `mem_get_value` returns for an unknown name. -/
def notFound (caller : Char) : CString :=
  if caller = 'p' then
    .ofChars ['V', 'a', 'r', 'i', 'a', 'b', 'l', 'e', ' ', 'd', 'o', 'e', 's', ' ', 'n', 'o', 't', ' ', 'e', 'x', 'i', 's', 't']
  else []

namespace ShellMemory

variable {memory : ShellMemory}

def memGetValue (var : CString) (caller : Char) (memory : ShellMemory) : CString :=
  match memory.varZone.find? fun pos => (memory.slots pos).var == var with
  | some pos => (memory.slots pos).value
  | none => notFound caller

/-- The contents of a slot as a pair. -/
def pair (memory : ShellMemory) (pos : Nat) : CString × CString := ((memory.slots pos).var, (memory.slots pos).value)

/-- The variable store as a list of slots. -/
def variableSlots (memory : ShellMemory) : List (CString × CString) := memory.varZone.map memory.pair

theorem pair_setSlot (pos : Nat) (slot : MemoryStruct) :
    (memory.setSlot pos slot).pair = Function.update memory.pair pos (slot.var, slot.value) := by
  funext place
  by_cases here : place = pos
  · rw [here, Function.update_self, pair, setSlot_same]
  · rw [Function.update_of_ne here, pair, setSlot_of_ne here, pair]

theorem find_pair (name : CString) (positions : List Nat) :
    (positions.find? fun pos => (memory.slots pos).var == name) = positions.find? fun pos => decide ((memory.pair pos).1 = name) := by
  simp only [beq_eq_decide]
  rfl

theorem memGetValue_eq (var : CString) (caller : Char) :
    memory.memGetValue var caller = (fetch var memory.variableSlots).getD (notFound caller) := by
  rw [memGetValue, find_pair, variableSlots, fetch_map]
  cases memory.varZone.find? fun pos => decide ((memory.pair pos).1 = var) with
  | none => rfl
  | some pos => rfl

theorem variableSlots_memSetValue (var value : CString) :
    (memory.memSetValue var value).variableSlots = assign noneStr var value memory.variableSlots := by
  have distinct : memory.varZone.Nodup := List.nodup_range'
  rw [memSetValue, find_pair, find_pair, show memory.variableSlots = memory.varZone.map memory.pair from rfl, assign_map distinct]
  cases found : memory.varZone.find? fun pos => decide ((memory.pair pos).1 = var) with
  | some pos =>
      have same : (memory.slots pos).var = var := by
        have hit := List.find?_some found
        exact of_decide_eq_true hit
      dsimp only
      rw [variableSlots, pair_setSlot, same]
      rfl
  | none =>
      cases memory.varZone.find? fun pos => decide ((memory.pair pos).1 = noneStr) with
      | some pos =>
          dsimp only
          rw [variableSlots, pair_setSlot]
          rfl
      | none => rfl

theorem foldl_setSlot_pair (positions : List Nat) (memory : ShellMemory) (slot : MemoryStruct) (pos : Nat) :
    (positions.foldl (fun current pos => current.setSlot pos slot) memory).pair pos =
      if pos ∈ positions then (slot.var, slot.value) else memory.pair pos := by
  induction positions generalizing memory with
  | nil => rfl
  | cons head rest ih =>
      rw [List.foldl_cons, ih, pair_setSlot]
      by_cases later : pos ∈ rest
      · rw [if_pos later, if_pos (List.mem_cons_of_mem _ later)]
      · by_cases here : pos = head
        · simp [here]
        · rw [if_neg later, Function.update_of_ne here, if_neg (by simp [here, later])]

theorem variableSlots_memInit (frameStoreSize varStoreSize : Nat) :
    (memInit frameStoreSize varStoreSize).variableSlots = List.replicate varStoreSize (noneStr, noneStr) := by
  rw [variableSlots, List.eq_replicate_iff]
  refine ⟨by simp [varZone, memInit], fun slot inside => ?_⟩
  obtain ⟨pos, _, rfl⟩ := List.mem_map.mp inside
  rfl

theorem variableSlots_resetVarZone (memory : ShellMemory) :
    memory.resetVarZone.variableSlots = List.replicate memory.varStoreSize (noneStr, noneStr) := by
  have same : SameFrames memory memory.resetVarZone := command_sameFrames .resetmem
  have zone : memory.resetVarZone.varZone = memory.varZone := by
    rw [varZone, varZone, same.frameStoreSize, same.varStoreSize]
  rw [variableSlots, zone, List.eq_replicate_iff]
  refine ⟨by simp [varZone], fun slot inside => ?_⟩
  obtain ⟨pos, member, rfl⟩ := List.mem_map.mp inside
  rw [resetVarZone, foldl_setSlot_pair, if_pos member]

end ShellMemory

/-- A command as the variable store sees it. -/
def VarCommand.storeCommand : VarCommand → StoreCommand CString CString
  | .set var value => .assign var value
  | .resetmem => .reset

def runCommands (commands : List VarCommand) (memory : ShellMemory) : ShellMemory :=
  commands.foldl (fun memory command => command.run memory) memory

/-- The store runs the commands. -/
theorem variableSlots_runCommands (commands : List VarCommand) (memory : ShellMemory) :
    (runCommands commands memory).variableSlots =
      (commands.map VarCommand.storeCommand).foldl (StoreCommand.run noneStr noneStr) memory.variableSlots := by
  induction commands generalizing memory with
  | nil => rfl
  | cons command rest ih =>
      have step : (command.run memory).variableSlots =
          command.storeCommand.run noneStr noneStr memory.variableSlots := by
        cases command with
        | set var value => exact ShellMemory.variableSlots_memSetValue var value
        | resetmem =>
            have size : memory.variableSlots.length = memory.varStoreSize := by
              simp [ShellMemory.variableSlots, ShellMemory.varZone]
            rw [VarCommand.run, ShellMemory.variableSlots_resetVarZone, ← size]
            rfl
      rw [List.map_cons, List.foldl_cons, ← step]
      exact ih (command.run memory)

/-- When the store answers right for the name `"none"`, the assignments being given latest first: no slot is free and it
was not set, or every name set after it was known before it or its value is `"none"`. -/
def NoneKept (size : Nat) (log : List (CString × CString)) : Prop :=
  (noneStr ∉ log.map Prod.fst ∧ (log.map Prod.fst).toFinset.card = size) ∨
    ∃ later value earlier, log = later ++ (noneStr, value) :: earlier ∧ noneStr ∉ later.map Prod.fst ∧
      ((∀ name ∈ later.map Prod.fst, name ∈ earlier.map Prod.fst) ∨ value = noneStr)

theorem notFound_ne_noneStr (caller : Char) : notFound caller ≠ noneStr := by
  rw [notFound]
  split <;> decide

/-- A name gets the value set last, and `"none"` gets it when nothing has taken its slot. -/
theorem memGetValue_iff (frameStoreSize varStoreSize : Nat) (commands : List VarCommand)
    (few : NamesWithin varStoreSize (commands.map VarCommand.storeCommand)) (var : CString) (caller : Char) :
    (runCommands commands (.memInit frameStoreSize varStoreSize)).memGetValue var caller =
        (fetch var (sinceReset (commands.map VarCommand.storeCommand))).getD (notFound caller) ↔
      var ≠ noneStr ∨ NoneKept varStoreSize (sinceReset (commands.map VarCommand.storeCommand)) := by
  obtain ⟨used, vacant, stores⟩ := stores_commands noneStr noneStr varStoreSize _ few
  rw [← ShellMemory.variableSlots_memInit frameStoreSize, ← variableSlots_runCommands] at stores
  set log := sinceReset (commands.map VarCommand.storeCommand) with logEq
  obtain ⟨other, spare⟩ := stores.fetch_slots
  rw [ShellMemory.memGetValue_eq]
  by_cases named : var = noneStr
  · subst named
    rw [spare]
    simp only [ne_eq, not_true_eq_false, false_or]
    by_cases present : noneStr ∈ log.map Prod.fst
    · obtain ⟨head, rest, rfl⟩ :=
        List.exists_cons_of_ne_nil (stores.vacant_ne_nil_of_mem (few _ (List.prefix_refl _)) present)
      have first : head = spareValue noneStr noneStr log := stores.spare head rfl
      rw [List.head?_cons, Option.getD_some, first]
      constructor
      · intro same
        obtain ⟨later, value, earlier, split, absent⟩ := exists_last present
        refine .inr ⟨later, value, earlier, split, absent, ?_⟩
        rw [split, fetch_last absent, spareValue_append absent, Option.getD_some] at same
        split_ifs at same with all
        · exact .inl all
        · exact .inr same.symm
      · rintro (⟨missing, _⟩ | ⟨later, value, earlier, split, absent, kept⟩)
        · exact absurd present missing
        · rw [split, fetch_last absent, spareValue_append absent, Option.getD_some]
          split_ifs with all
          · rfl
          · exact (kept.resolve_left all).symm
    · have absent : noneStr ∉ (log.map Prod.fst).toFinset := fun inside => present (List.mem_toFinset.mp inside)
      have sizes := stores.size
      rw [stores.length_used, Finset.erase_eq_of_notMem absent] at sizes
      have kept : NoneKept varStoreSize log ↔ vacant = [] := by
        rw [← List.length_eq_zero_iff]
        constructor
        · rintro (⟨_, full⟩ | ⟨later, value, earlier, split, _⟩)
          · omega
          · exact absurd (by rw [split]; simp) present
        · exact fun empty => .inl ⟨present, by omega⟩
      rw [kept, fetch_eq_none_iff.mpr present, Option.getD_none]
      cases vacant with
      | nil => simp
      | cons head rest =>
          have first : head = noneStr := (stores.spare head rfl).trans (spareValue_absent present)
          simp [first, Ne.symm (notFound_ne_noneStr caller)]
  · rw [other var named]
    simp [named]

/-- `set none 5` and then `set a 7`. -/
def stolenSlot : List VarCommand := [.set noneStr [53], .set [97] [55]]

theorem stolenSlot_within : NamesWithin 10 (stolenSlot.map VarCommand.storeCommand) := by
  have each : ∀ done ∈ (stolenSlot.map VarCommand.storeCommand).inits, ((sinceReset done).map Prod.fst).toFinset.card ≤ 10 := by decide
  exact fun done first => each done ((List.mem_inits _ _).mpr first)

theorem stolenSlot_memGetValue_iff : (runCommands stolenSlot (.memInit 18 10)).memGetValue [97] 'p' =
    (fetch [97] (sinceReset (stolenSlot.map VarCommand.storeCommand))).getD (notFound 'p') ↔
      ([97] : CString) ≠ noneStr ∨ NoneKept 10 (sinceReset (stolenSlot.map VarCommand.storeCommand)) :=
  memGetValue_iff 18 10 stolenSlot stolenSlot_within [97] 'p'

/-- The variable `a` takes the slot in which the value of the variable `none` stands. -/
theorem stolenSlot_wrong : (∀ name ∈ (sinceReset (stolenSlot.map VarCommand.storeCommand)).map Prod.fst, isAlphaNumStr name = true) ∧
    NamesWithin 10 (stolenSlot.map VarCommand.storeCommand) ∧ (runCommands stolenSlot (.memInit 18 10)).memGetValue noneStr 'p' ≠
      (fetch noneStr (sinceReset (stolenSlot.map VarCommand.storeCommand))).getD (notFound 'p') :=
  ⟨by decide, stolenSlot_within, by decide⟩

end MockOS.Proc
