import MockOS.Proc.Pcb
import MockOS.Lib.Iteration

namespace MockOS.Proc

/-- What a line of a script can do to the shell memory: `set` and `resetmem`. -/
inductive VarCommand where
  | set (var value : CString)
  | resetmem

def VarCommand.run : VarCommand → ShellMemory → ShellMemory
  | .set var value => ShellMemory.memSetValue var value
  | .resetmem => ShellMemory.resetVarZone

/-- The effect of one line that runs no script: its result, its variable commands and the rest of the shell. -/
structure ParseResult (World : Type) where
  ret : Int
  commands : List VarCommand
  world : World

/-- The command interpreter seen from the kernel, for lines that run no script. -/
abbrev Interpreter (World : Type) := CString → World → ParseResult World

/-- The calls that the properties of the scheduler speak about, oldest first. -/
inductive Event where
  | handed (pid : Nat) (line : CString)
  | loadPage (pid page : Nat)
  | pageEvict (pid page : Nat)
  deriving DecidableEq

/-- The kernel's lists, the processes by id and the memory; `trace` only records the calls made. -/
structure Kernel (World : Type) where
  queue : List Nat
  lruCache : List PageRef
  allPcb : List Nat
  pidCounter : Nat
  pcbs : Nat → Option Pcb
  memory : ShellMemory
  world : World
  trace : List Event

namespace Kernel

variable {World : Type}

/-- The state that `kernel_setup` and every finished run leave. -/
def kernelSetup (pidCounter : Nat) (memory : ShellMemory) (world : World) : Kernel World :=
  ⟨[], [], [], pidCounter, fun _ => none, memory, world, []⟩

/-- A freed process must not be used. -/
def pcb (kernel : Kernel World) (pid : Nat) : Outcome Pcb :=
  match kernel.pcbs pid with
  | some pcb => .ok pcb
  | none => .error .undefined

def setPcb (kernel : Kernel World) (pid : Nat) (pcb : Pcb) : Kernel World :=
  { kernel with pcbs := Function.update kernel.pcbs pid (some pcb) }

def log (kernel : Kernel World) (event : Event) : Kernel World :=
  { kernel with trace := kernel.trace ++ [event] }

/-- `PAGE_equal` compares the first frame positions. -/
def firstIndex (kernel : Kernel World) (page : PageRef) : Option Nat :=
  (kernel.pcbs page.1).map fun pcb => (pcb.pageTable page.2).index 0

def loadPage (pid i : Nat) (kernel : Kernel World) : Outcome (Int × Kernel World) := do
  let kernel := kernel.log (.loadPage pid i)
  let pcb ← kernel.pcb pid
  let _ ← pcb.page i
  match kernel.memory.frameAlloc (pidStr pid) with
  | none => .ok (1, kernel)
  | some (pos, memory) => do
      let (pcb, memory) ← pcb.placePage pid i pos memory
      .ok (0, { kernel.setPcb pid pcb with memory := memory })

def pageEvict (pid i : Nat) (kernel : Kernel World) : Outcome (Kernel World) := do
  let kernel := kernel.log (.pageEvict pid i)
  let pcb ← kernel.pcb pid
  let page ← pcb.page i
  let memory ← kernel.memory.memFreeAt (page.index 0)
  let memory ← memory.memFreeAt (page.index 1)
  let memory ← memory.memFreeAt (page.index 2)
  .ok { kernel.setPcb pid (pcb.setPage i ⟨fun _ => 0, fun _ => false⟩) with memory := memory }

/-- A line is handed to `parseInput`. -/
def interpret (parseInput : Interpreter World) (pid : Nat) (line : CString) (kernel : Kernel World) :
    Kernel World :=
  let result := parseInput line kernel.world
  { kernel.log (.handed pid line) with
    memory := result.commands.foldl (fun memory command => command.run memory) kernel.memory
    world := result.world }

/-- The line of page `i` that its program counter addresses. -/
def cpuRun (parseInput : Interpreter World) (pid i : Nat) (kernel : Kernel World) :
    Outcome (Int × Kernel World) := do
  let pcb ← kernel.pcb pid
  let page ← pcb.page i
  if inside : pcb.programCounter i < 3 then
    let j : Fin 3 := ⟨pcb.programCounter i, inside⟩
    if page.validBit j = false then
      .ok (1, kernel) -- page fault
    else do
      let line ← kernel.memory.memGetValueAt (page.index j)
      .ok ((parseInput line kernel.world).ret, (kernel.interpret parseInput pid line).setPcb pid (pcb.advance i))
  else .error .undefined

/-- Eviction of the least recently used page, when no frame is free. -/
def evictVictim (kernel : Kernel World) : Outcome (Kernel World) :=
  match kernel.lruCache.getLast? with
  | none => .error (.exit 99)
  | some victim =>
      if victim.1 ∈ kernel.allPcb then
        pageEvict victim.1 victim.2 { kernel with lruCache := kernel.lruCache.dropLast }
      else .error .undefined

/-- The page-fault branch of `run_proc`; the result of the second `load_PAGE` is not looked at. -/
def pageFault (pid i : Nat) (kernel : Kernel World) : Outcome (Kernel World) := do
  let (failed, kernel) ← loadPage pid i kernel
  let kernel ← if failed = 1 then do
      let kernel ← evictVictim kernel
      let (_, kernel) ← loadPage pid i kernel
      .ok kernel
    else .ok kernel
  .ok { kernel with lruCache := (pid, i) :: kernel.lruCache, queue := kernel.queue ++ [pid] }

/-- `remove_elem` on the cache, put back at its head; a page that is not found runs off the list. -/
def touch (page : PageRef) (kernel : Kernel World) : Outcome (Kernel World) :=
  let same := fun other => kernel.firstIndex page == kernel.firstIndex other
  match kernel.lruCache.find? same with
  | none => .error .undefined
  | some found => .ok { kernel with lruCache := found :: kernel.lruCache.eraseP same }

def runProc (parseInput : Interpreter World) (pid i : Nat) (kernel : Kernel World) :
    Outcome (Int × Kernel World) := do
  let (ret, kernel) ← cpuRun parseInput pid i kernel
  if ret = 1 then do
    let kernel ← pageFault pid i kernel
    .ok (1, kernel)
  else do
    let kernel ← touch (pid, i) kernel
    .ok (0, kernel)

def newProc (script : Option (List UInt8)) (kernel : Kernel World) : Outcome (Kernel World) := do
  let pid := kernel.pidCounter
  let (pcb, memory) ← Pcb.pcbInit pid script kernel.memory
  .ok { kernel.setPcb pid pcb with
    pidCounter := pid + 1
    memory := memory
    allPcb := kernel.allPcb ++ [pid]
    queue := kernel.queue ++ [pid]
    lruCache := (List.range pcb.pageLimit).foldl (fun cache i => (pid, i) :: cache) kernel.lruCache }

/-- The loads of `run` and `exec`. -/
def newProcs : List (Option (List UInt8)) → Kernel World → Outcome (Kernel World)
  | [], kernel => .ok kernel
  | script :: rest, kernel => do newProcs rest (← newProc script kernel)

def queueDone (kernel : Kernel World) : Bool :=
  kernel.queue.all fun pid => (kernel.pcbs pid).any Pcb.pcbDone

/-- One run of a process: the pointers into its table are computed first. -/
def runLine (parseInput : Interpreter World) (pid : Nat) (kernel : Kernel World) :
    Outcome (Int × Kernel World) := do
  let pcb ← kernel.pcb pid
  runProc parseInput pid pcb.firstPage kernel

/-- One turn of `run_proc_RR`. -/
def rrTurn (parseInput : Interpreter World) (kernel : Kernel World) : Outcome (Kernel World) :=
  match kernel.queue with
  | [] => .error (.exit 99)
  | pid :: queue => do
      let kernel := { kernel with queue := queue }
      let pcb ← kernel.pcb pid
      if pcb.size > 1 then do
        let (ret, kernel) ← runLine parseInput pid kernel
        if ret = 1 then .ok kernel
        else do
          let (ret, kernel) ← runLine parseInput pid kernel
          if ret = 1 then .ok kernel
          else .ok { kernel with queue := kernel.queue ++ [pid] }
      else if pcb.size = 1 then do
        -- whatever `ret` is, the turn ends here
        let (_, kernel) ← runLine parseInput pid kernel
        .ok kernel
      else .ok kernel

def freePcb (kernel : Kernel World) (pid : Nat) : Outcome (Kernel World) := do
  let pcb ← kernel.pcb pid
  let memory ← (List.range pcb.pageTableSize).foldlM (fun memory i =>
    [0, 1, 2].foldlM (fun memory j => memory.clearFrame ((pcb.pageTable i).index j)) memory) kernel.memory
  .ok { kernel with memory := memory, pcbs := Function.update kernel.pcbs pid none }

/-- The `while` loop of `run_proc_RR`, cut off after `fuel` turns. -/
def rrLoop (parseInput : Interpreter World) (fuel : Nat) (kernel : Kernel World) :
    Outcome (Option (Kernel World)) :=
  Lib.loop queueDone (rrTurn parseInput) fuel kernel

def runProcRR (parseInput : Interpreter World) (fuel : Nat) (kernel : Kernel World) :
    Outcome (Option (Kernel World)) := do
  match ← rrLoop parseInput fuel kernel with
  | none => .ok none
  | some kernel => do
      let kernel ← kernel.allPcb.foldlM freePcb kernel
      .ok (some { kernel with queue := [], lruCache := [], allPcb := [] })

/-- The lines that were handed to `parseInput` for one process, in order. -/
def handedTo (pid : Nat) (trace : List Event) : List CString :=
  trace.filterMap fun event => match event with
    | .handed owner line => if owner = pid then some line else none
    | _ => none

end Kernel
end MockOS.Proc
