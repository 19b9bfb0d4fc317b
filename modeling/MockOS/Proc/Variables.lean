import MockOS.Proc.PageLoad
import Mathlib.Data.List.Find

namespace MockOS.Proc

namespace ShellMemory

variable {memory other : ShellMemory} {taken : List Nat}

/-- Two memories of one shape that agree above the border. -/
structure SameVariables (memory other : ShellMemory) : Prop where
  frameStoreSize : other.frameStoreSize = memory.frameStoreSize
  varStoreSize : other.varStoreSize = memory.varStoreSize
  slots : ∀ pos, memory.frameStoreSize ≤ pos → other.slots pos = memory.slots pos

theorem SameVariables.refl : SameVariables memory memory := ⟨rfl, rfl, fun _ _ => rfl⟩

theorem SameVariables.trans {second third : ShellMemory} (first : SameVariables memory second)
    (later : SameVariables second third) : SameVariables memory third where
  frameStoreSize := later.frameStoreSize.trans first.frameStoreSize
  varStoreSize := later.varStoreSize.trans first.varStoreSize
  slots := fun pos above => by rw [later.slots pos (first.frameStoreSize ▸ above), first.slots pos above]

theorem SameVariables.varZone (same : SameVariables memory other) : other.varZone = memory.varZone := by
  rw [ShellMemory.varZone, ShellMemory.varZone, same.frameStoreSize, same.varStoreSize]

theorem SameVariables.setSlot (same : SameVariables memory other) (pos : Nat) (slot : MemoryStruct) :
    SameVariables (memory.setSlot pos slot) (other.setSlot pos slot) where
  frameStoreSize := same.frameStoreSize
  varStoreSize := same.varStoreSize
  slots := by
    intro place above
    by_cases here : place = pos
    · rw [here, setSlot_same, setSlot_same]
    · rw [setSlot_of_ne here, setSlot_of_ne here, same.slots place above]

/-- A search of the variable store finds the same slot. -/
theorem SameVariables.find (same : SameVariables memory other) (var : CString) :
    (other.varZone.find? fun pos => (other.slots pos).var == var) =
      memory.varZone.find? fun pos => (memory.slots pos).var == var := by
  rw [same.varZone]
  exact List.find?_congr fun pos member => by rw [same.slots pos (mem_varZone member)]

theorem SameVariables.resetSlots (same : SameVariables memory other) (positions : List Nat) :
    SameVariables (positions.foldl (fun current pos => current.setSlot pos ⟨noneStr, noneStr⟩) memory)
      (positions.foldl (fun current pos => current.setSlot pos ⟨noneStr, noneStr⟩) other) := by
  induction positions generalizing memory other with
  | nil => exact same
  | cons pos rest ih => exact ih (same.setSlot pos _)

/-- A variable command depends on the variables alone. -/
theorem SameVariables.command (same : SameVariables memory other) (command : VarCommand) :
    SameVariables (command.run memory) (command.run other) := by
  cases command with
  | set var value =>
      simp only [VarCommand.run, memSetValue, same.find]
      cases found : memory.varZone.find? fun pos => (memory.slots pos).var == var with
      | some pos =>
          simp only
          rw [same.slots pos (mem_varZone (List.mem_of_find?_eq_some found))]
          exact same.setSlot pos _
      | none =>
          cases memory.varZone.find? fun pos => (memory.slots pos).var == noneStr with
          | some pos => exact same.setSlot pos _
          | none => exact same
  | resetmem =>
      simp only [VarCommand.run, resetVarZone, same.varZone]
      exact same.resetSlots _

theorem SameVariables.commands (same : SameVariables memory other) (commands : List VarCommand) :
    SameVariables (commands.foldl (fun memory command => command.run memory) memory)
      (commands.foldl (fun memory command => command.run memory) other) := by
  induction commands generalizing memory other with
  | nil => exact same
  | cons command rest ih => exact ih (same.command command)

/-- Every aligned frame from `count` on is free. -/
def FreeFrom (memory : ShellMemory) (count : Nat) : Prop :=
  ∀ frame < memory.frameStoreSize / 3, count ≤ frame → ∀ j < 3, (memory.slots (3 * frame + j)).var = noneStr

/-- The frames in use are the first ones. -/
theorem Frames.lt_of_mem (frames : Frames memory taken) (free : memory.FreeFrom taken.length) {frame : Nat}
    (member : frame ∈ taken) : frame < taken.length := by
  by_contra beyond
  exact frames.used frame member 0 (by decide) (free frame (frames.inside frame member) (by omega) 0 (by decide))

theorem Frames.mem_of_lt (frames : Frames memory taken) (free : memory.FreeFrom taken.length) {frame : Nat}
    (below : frame < taken.length) : frame ∈ taken := by
  have subset : taken ⊆ List.range taken.length := fun frame member => List.mem_range.mpr (frames.lt_of_mem free member)
  have perm := (List.subperm_of_subset frames.nodup subset).perm_of_length_le (by rw [List.length_range])
  exact perm.mem_iff.mpr (List.mem_range.mpr below)

/-- Then the next frame is taken. -/
theorem Frames.frameAlloc_next (frames : Frames memory taken) (free : memory.FreeFrom taken.length) (pid : CString)
    (room : taken.length < memory.frameStoreSize / 3) :
    memory.frameAlloc pid = some (3 * taken.length, memory.mark pid (3 * taken.length)) := by
  have absent : taken.length ∉ taken := fun member => absurd (frames.lt_of_mem free member) (Nat.lt_irrefl _)
  have found : (List.range memory.frameStoreSize).find? memory.freeFrame = some (3 * taken.length) := by
    rw [List.find?_range_eq_some]
    refine ⟨frames.freeFrame_of_free room absent, List.mem_range.mpr (by omega), fun pos before => ?_⟩
    by_contra unused
    obtain ⟨_, outside⟩ := frames.freeFrame_block pos (by simpa using unused)
    exact outside (frames.mem_of_lt free (by omega))
  rw [frameAlloc_eq, found]
  rfl

end ShellMemory

variable {World : Type}

/-- The lines that were handed to `parseInput`, in order. -/
def handedLines (trace : List Event) : List CString :=
  trace.filterMap fun event => match event with
    | .handed _ line => some line
    | _ => none

/-- A list of lines whose own variable commands are all that acts on the memory. -/
def runLines (parseInput : Interpreter World) (lines : List CString) (start : World × ShellMemory) :
    World × ShellMemory :=
  lines.foldl (fun state line =>
    let result := parseInput line state.1
    (result.world, result.commands.foldl (fun memory command => command.run memory) state.2)) start

theorem handedLines_append (trace later : List Event) :
    handedLines (trace ++ later) = handedLines trace ++ handedLines later := List.filterMap_append

theorem runLines_append (parseInput : Interpreter World) (lines later : List CString) (start : World × ShellMemory) :
    runLines parseInput (lines ++ later) start = runLines parseInput later (runLines parseInput lines start) :=
  List.foldl_append ..

end MockOS.Proc
