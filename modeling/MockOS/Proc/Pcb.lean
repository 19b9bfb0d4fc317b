import Mathlib.Algebra.GroupWithZero.Nat
import MockOS.Proc.ShellMemory

namespace MockOS.Proc

@[instance] theorem threeLines : NeZero 3 := ⟨by decide⟩

/-- One line of at most `room` bytes, its newline included, and the rest of the file. -/
def readLine : Nat → List UInt8 → List UInt8 × List UInt8
  | 0, file => ([], file)
  | _ + 1, [] => ([], [])
  | room + 1, byte :: rest =>
      if byte = 10 then ([byte], rest) else (byte :: (readLine room rest).1, (readLine room rest).2)

/-- `fgets(line, count, file)`: `none` is the null pointer at the end of the file. -/
def fgets (count : Nat) (file : List UInt8) : Option (List UInt8 × List UInt8) :=
  if file = [] then none else some (readLine (count - 1) file)

/-- The loop of `count_lines` counts the newlines that do not follow a newline. -/
def countNewlines : UInt8 → List UInt8 → Nat
  | _, [] => 0
  | last, byte :: rest => (if byte = 10 ∧ last ≠ 10 then 1 else 0) + countNewlines byte rest

/-- The last line is taken to have no newline of its own. -/
def countLines (file : List UInt8) : Nat := countNewlines 10 file + 1

def pageTableSize (lines : Nat) : Nat :=
  if lines % 3 = 0 then lines / 3 else lines / 3 + 1

/-- A `PAGE *` is named by its `page_pid` and `page_index`. -/
abbrev PageRef := Nat × Nat

structure Page where
  index : Fin 3 → Nat
  validBit : Fin 3 → Bool

def pageInit : Page := ⟨fun _ => 1000, fun _ => false⟩

/-- `sourceFile` holds the bytes that the open script has not yet delivered. -/
structure Pcb where
  size : Int
  programCounter : Nat → Nat
  pageTable : Nat → Page
  pageTableSize : Nat
  sourceFile : List UInt8

namespace Pcb

/-- `page_table[i]`, with an access beyond the table undefined. -/
def page (pcb : Pcb) (i : Nat) : Outcome Page :=
  if i < pcb.pageTableSize then .ok (pcb.pageTable i) else .error .undefined

def setPage (pcb : Pcb) (i : Nat) (page : Page) : Pcb :=
  { pcb with pageTable := Function.update pcb.pageTable i page }

/-- The three-line loop that `PCB_init` and `load_PAGE` share: it stops at the end of the file. -/
def fillPage (pid : CString) : List (Fin 3) → Page → List UInt8 → ShellMemory →
    Outcome (Page × List UInt8 × ShellMemory)
  | [], page, file, memory => .ok (page, file, memory)
  | j :: rest, page, file, memory =>
      match fgets 999 file with
      | none => .ok (page, file, memory)
      | some (line, file) => do
          let memory ← memory.memSetValueAt (page.index j) pid line
          fillPage pid rest { page with validBit := Function.update page.validBit j true } file memory

/-- `frame_alloc` points the page at the frame and clears its valid bits; then the lines are read. -/
def placePage (pcb : Pcb) (pid i pos : Nat) (memory : ShellMemory) : Outcome (Pcb × ShellMemory) := do
  let (page, file, memory) ← fillPage (pidStr pid) [0, 1, 2]
    ⟨fun j => pos + j.val, fun _ => false⟩ pcb.sourceFile memory
  .ok ({ pcb.setPage i page with sourceFile := file }, memory)

/-- The initial loads of `PCB_init`. -/
def initPages (pid : Nat) : List Nat → Pcb → ShellMemory → Outcome (Pcb × ShellMemory)
  | [], pcb, memory => .ok (pcb, memory)
  | i :: rest, pcb, memory =>
      match memory.frameAlloc (pidStr pid) with
      | none => .error (.exit 99)
      | some (pos, memory) => do
          let (pcb, memory) ← pcb.placePage pid i pos memory
          initPages pid rest pcb memory

/-- Only the first two pages are loaded at first. -/
def pageLimit (pcb : Pcb) : Nat :=
  if 2 > pcb.pageTableSize then pcb.pageTableSize else 2

def pcbInit (pid : Nat) (script : Option (List UInt8)) (memory : ShellMemory) : Outcome (Pcb × ShellMemory) :=
  match script with
  | none => .error (.exit 99)
  | some file =>
      let pcb : Pcb := ⟨countLines file, fun _ => 0, fun _ => pageInit, Proc.pageTableSize (countLines file), file⟩
      initPages pid (List.range pcb.pageLimit) pcb memory

/-- `(*program_counter)++, (*size)--` for page `i`. -/
def advance (pcb : Pcb) (i : Nat) : Pcb :=
  { pcb with
    programCounter := Function.update pcb.programCounter i (pcb.programCounter i + 1)
    size := pcb.size - 1 }

def pcbDone (pcb : Pcb) : Bool :=
  (List.range pcb.pageTableSize).all fun i => pcb.programCounter i == 3

/-- The scan of `run_proc_RR`: the first page with lines left, or the size of the table. -/
def firstPage (pcb : Pcb) : Nat :=
  ((List.range pcb.pageTableSize).find? fun i => pcb.programCounter i != 3).getD pcb.pageTableSize

end Pcb
end MockOS.Proc
