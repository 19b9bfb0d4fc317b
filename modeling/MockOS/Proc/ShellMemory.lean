import MockOS.Lib.CString
import Mathlib.Data.List.Range
import Mathlib.Logic.Function.Basic
import Mathlib.Tactic.Common

namespace MockOS.Proc

/-- The shell leaves a run by `exit` or by behaviour that C does not define. -/
inductive Fault where
  | exit (status : Nat)
  | undefined

abbrev Outcome := Except Fault

/-- The string `"none"` marks a free slot. -/
def noneStr : CString := .ofChars ['n', 'o', 'n', 'e']

/-- The `sprintf(pid_str, "%d", pid)` of a process id. -/
def pidStr (pid : Nat) : CString := .ofChars (Nat.toDigits 10 pid)

structure MemoryStruct where
  var : CString
  value : CString
  deriving DecidableEq

/-- `shellmemory`: slots below `FRAME_STORE_SIZE` hold frames, the `VAR_STORE_SIZE` slots above it variables. -/
structure ShellMemory where
  frameStoreSize : Nat
  varStoreSize : Nat
  slots : Nat → MemoryStruct

namespace ShellMemory

def setSlot (memory : ShellMemory) (pos : Nat) (slot : MemoryStruct) : ShellMemory :=
  { memory with slots := Function.update memory.slots pos slot }

def memInit (frameStoreSize varStoreSize : Nat) : ShellMemory :=
  ⟨frameStoreSize, varStoreSize, fun _ => ⟨noneStr, noneStr⟩⟩

/-- An access beyond the array is undefined. -/
def inBounds (memory : ShellMemory) (pos : Nat) : Outcome Unit :=
  if pos < memory.frameStoreSize + memory.varStoreSize then .ok () else .error .undefined

def memFreeAt (pos : Nat) (memory : ShellMemory) : Outcome ShellMemory :=
  (memory.inBounds pos).map fun _ => memory.setSlot pos ⟨noneStr, noneStr⟩

/-- Three contiguous free slots that start at `pos` and end below the border. -/
def freeFrame (memory : ShellMemory) (pos : Nat) : Bool :=
  (List.range 3).all fun k => decide (pos + k < memory.frameStoreSize) && (memory.slots (pos + k)).var == noneStr

/-- The first free frame is marked with the process id; its old values stay. -/
def frameAlloc (pid : CString) (memory : ShellMemory) : Option (Nat × ShellMemory) :=
  ((List.range memory.frameStoreSize).find? memory.freeFrame).map fun pos =>
    (pos, (List.range 3).foldl (fun current k =>
      current.setSlot (pos + k) { current.slots (pos + k) with var := pid }) memory)

def memSetValueAt (pos : Nat) (pid value : List UInt8) (memory : ShellMemory) : Outcome ShellMemory :=
  (memory.inBounds pos).map fun _ => memory.setSlot pos ⟨strdup pid, strdup value⟩

def memGetValueAt (pos : Nat) (memory : ShellMemory) : Outcome CString :=
  (memory.inBounds pos).map fun _ => (memory.slots pos).value

/-- The positions of the variable store. -/
def varZone (memory : ShellMemory) : List Nat :=
  List.range' memory.frameStoreSize memory.varStoreSize

def memSetValue (var value : CString) (memory : ShellMemory) : ShellMemory :=
  match memory.varZone.find? fun pos => (memory.slots pos).var == var with
  | some pos => memory.setSlot pos { memory.slots pos with value := value }
  | none =>
      match memory.varZone.find? fun pos => (memory.slots pos).var == noneStr with
      | some pos => memory.setSlot pos ⟨var, value⟩
      | none => memory

def resetVarZone (memory : ShellMemory) : ShellMemory :=
  memory.varZone.foldl (fun current pos => current.setSlot pos ⟨noneStr, noneStr⟩) memory

/-- The three slots from `startPos` on, wherever it points. -/
def clearFrame (startPos : Nat) (memory : ShellMemory) : Outcome ShellMemory :=
  (List.range' startPos 3).foldlM (fun current pos => memFreeAt pos current) memory

end ShellMemory
end MockOS.Proc
