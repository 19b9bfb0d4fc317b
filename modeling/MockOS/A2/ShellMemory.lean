import MockOS.Proc.Pcb

namespace MockOS.A2

open MockOS.Proc (Fault Outcome MemoryStruct noneStr)

/-- `shellmemory`: slots below `varmemsize` hold variables, the `framesize` slots above them frames of three lines. -/
structure ShellMemory where
  varmemsize : Nat
  framesize : Nat
  slots : Nat → MemoryStruct

namespace ShellMemory

/-- `SHELL_MEM_LENGTH`. -/
def length (memory : ShellMemory) : Nat := memory.varmemsize + memory.framesize

def setSlot (memory : ShellMemory) (pos : Nat) (slot : MemoryStruct) : ShellMemory :=
  { memory with slots := Function.update memory.slots pos slot }

/-- A store beyond the array is undefined. -/
def store (pos : Nat) (slot : MemoryStruct) (memory : ShellMemory) : Outcome ShellMemory :=
  if pos < memory.length then .ok (memory.setSlot pos slot) else .error .undefined

def memInit (varmemsize framesize : Nat) : ShellMemory := ⟨varmemsize, framesize, fun _ => ⟨noneStr, noneStr⟩⟩

def resetvarmem (memory : ShellMemory) : ShellMemory :=
  (List.range memory.varmemsize).foldl (fun current pos => current.setSlot pos ⟨noneStr, noneStr⟩) memory

def memSetValue (varIn valueIn : CString) (memory : ShellMemory) : ShellMemory :=
  match (List.range memory.varmemsize).find? fun pos => (memory.slots pos).var == varIn with
  | some pos => memory.setSlot pos { memory.slots pos with value := valueIn }
  | none =>
      match (List.range memory.varmemsize).find? fun pos => (memory.slots pos).var == noneStr with
      | some pos => memory.setSlot pos ⟨varIn, valueIn⟩
      | none => memory

/-- `none` is the null pointer; the check lets the slot behind the array pass. -/
def memGetValueAtLine (index : Int) (memory : ShellMemory) : Outcome (Option CString) :=
  if index < 0 ∨ index > memory.length then .ok none
  else if index = memory.length then .error .undefined
  else .ok (some (memory.slots index.toNat).value)

def memFreeLinesFrame (start : Nat) (memory : ShellMemory) : Outcome ShellMemory :=
  (List.range' start 3).foldlM (fun current pos => current.store pos ⟨noneStr, noneStr⟩) memory

end ShellMemory

/-- A file that is read from its start on: the bytes not yet delivered and what `feof` says. -/
structure Stream where
  rest : List UInt8
  eof : Bool

def fopen (file : List UInt8) : Stream := ⟨file, false⟩

/-- `fgets(line, 100, fp)`: the end of the file is noticed when the line is neither full nor ended by a newline. -/
def fgets (fp : Stream) : Option (List UInt8) × Stream :=
  if fp.rest = [] then (none, ⟨[], true⟩)
  else
    let line := (Proc.readLine 99 fp.rest).1
    (some line, ⟨(Proc.readLine 99 fp.rest).2, fp.eof || (decide (line.length < 99) && line.getLast? != some 10)⟩)

/-- The loop of `countLines`, with at most `fuel` rounds. -/
def countRounds : Nat → Stream → Nat
  | 0, _ => 0
  | fuel + 1, fp => if fp.eof then 0 else countRounds fuel (fgets fp).2 + 1

/-- Every round but the last one takes a byte. -/
def countLines (file : List UInt8) : Nat := countRounds (file.length + 1) (fopen file)

def countPages (file : List UInt8) : Nat :=
  let totalLines := countLines file
  if totalLines % 3 ≠ 0 then totalLines / 3 + 1 else totalLines / 3

/-- `none` as `filename` is a pointer into a call that has returned; `script` only records the file of the process. -/
structure Pcb where
  pid : Nat
  pc : Int
  pagetable : Nat → Int
  numPages : Nat
  currentPage : Nat
  pagesNeeded : Nat
  lruTimer : Nat → Nat
  filename : Option CString
  script : List UInt8

/-- `makePCB`: what it leaves open is set before it is read. -/
def makePcb (pid : Nat) (filename : CString) (script : List UInt8) : Pcb :=
  ⟨pid, 0, fun _ => -1, 0, 0, 0, fun _ => 0, some filename, script⟩

/-- `pagetable[k]`, an array of 50 entries. -/
def Pcb.frame (pcb : Pcb) (k : Nat) : Outcome Int :=
  if k < 50 then .ok (pcb.pagetable k) else .error .undefined

/-- The current page lies in the frame of this number. -/
def Pcb.enter (pcb : Pcb) (frameNumber : Int) : Pcb :=
  { pcb with
    pagetable := Function.update pcb.pagetable pcb.currentPage frameNumber
    numPages := pcb.numPages + 1 }

/-- `current_page++`. -/
def Pcb.advancePage (pcb : Pcb) : Pcb := { pcb with currentPage := pcb.currentPage + 1 }

/-- `lru_timer[current_page]++` and `PC++`. -/
def Pcb.fetch (pcb : Pcb) : Pcb :=
  { pcb with
    lruTimer := Function.update pcb.lruTimer pcb.currentPage (pcb.lruTimer pcb.currentPage + 1)
    pc := pcb.pc + 1 }

/-- The page of the process with the smallest timer below 1000, the first of them. -/
def getVictim (pcb : Pcb) : Nat :=
  ((List.range pcb.numPages).foldl (fun (best : Nat × Nat) i => if pcb.lruTimer i < best.1 then (pcb.lruTimer i, i) else best)
    (1000, 0)).2

/-- The first frame whose first line is free, as far as there is one. -/
def firstFree (memory : ShellMemory) : Option Nat :=
  ((List.range ((memory.framesize + 2) / 3)).find? fun frame =>
    (memory.slots (memory.varmemsize + 3 * frame)).var == noneStr).map fun frame => memory.varmemsize + 3 * frame

/-- The slot at which a page can start; the number of the victim page is taken for the number of its frame. -/
def findFreeFrame (pcb : Pcb) (memory : ShellMemory) : Outcome (Nat × Pcb × ShellMemory) :=
  match firstFree memory with
  | some index => .ok (index, pcb, memory)
  | none => do
      let victim := getVictim pcb
      let index := memory.varmemsize + victim * 3
      let memory ← memory.memFreeLinesFrame index
      .ok (index, { pcb with lruTimer := Function.update pcb.lruTimer victim 0 }, memory)

/-- At most three lines are copied; the count of those copied only serves the record of the loads. -/
def readPage (filename : CString) : Nat → Nat → Stream → ShellMemory → Outcome (Nat × Stream × ShellMemory)
  | 0, _, fp, memory => .ok (0, fp, memory)
  | room + 1, frameIndex, fp, memory =>
      match fgets fp with
      | (none, fp) => .ok (0, fp, memory)
      | (some line, fp) => do
          let memory ← memory.store frameIndex ⟨strdup filename, strdup line⟩
          let (lines, fp, memory) ← readPage filename room (frameIndex + 1) fp memory
          .ok (lines + 1, fp, memory)

end MockOS.A2
