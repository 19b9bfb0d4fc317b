import MockOS.A2.ShellMemory

namespace MockOS.A2

open MockOS.Proc (Fault Outcome noneStr)

/-- What happens to the processes: the lines handed to `parseInput`, the loads with their lines, and the evictions. -/
inductive Event where
  | handed (pid : Nat) (line : CString)
  | loaded (filename : CString) (lines : Nat)
  | evicted
  deriving DecidableEq

inductive Policy where
  | fcfs
  | rr
  deriving DecidableEq

/-- The commands of a line that matter to the kernel. -/
inductive Command where
  | set (var value : CString)
  | resetmem
  | quit
  | run (script : CString)
  | exec (names : List CString)

/-- `parseInput` seen from the kernel: the commands that it interprets, and the rest of the shell. -/
abbrev Parser (World : Type) := CString → ShellMemory → World → List Command × World

/-- The memory, the ready queue and the files; `policy` is the scheduler that is running. -/
structure Kernel (World : Type) where
  memory : ShellMemory
  queue : List Pcb
  pidCounter : Nat
  inBackground : Bool
  policy : Option Policy
  disk : CString → Option (List UInt8)
  world : World
  trace : List Event

namespace Kernel

variable {World : Type}

/-- The state after `mem_init`, with an empty backing store. -/
def booted (varmemsize framesize : Nat) (disk : CString → Option (List UInt8)) (world : World) : Kernel World :=
  ⟨.memInit varmemsize framesize, [], 1, false, none, disk, world, []⟩

def log (kernel : Kernel World) (event : Event) : Kernel World := { kernel with trace := kernel.trace ++ [event] }

/-- `load_page` fills a frame and enters it for the current page. -/
def loadPage (fp : Stream) (filename : CString) (pcb : Pcb) (kernel : Kernel World) :
    Outcome (Stream × Pcb × Kernel World) := do
  let kernel := if (firstFree kernel.memory).isSome then kernel else kernel.log .evicted
  let (index, pcb, memory) ← findFreeFrame pcb kernel.memory
  let (lines, fp, memory) ← readPage filename 3 index fp memory
  let _ ← pcb.frame pcb.currentPage
  let frameNumber : Int := ((index - kernel.memory.varmemsize) / 3 : Nat) + 1
  .ok (fp, pcb.enter frameNumber, { kernel.log (.loaded filename lines) with memory := memory })

/-- The slot at which the current page starts. -/
def findPC (memory : ShellMemory) (pcb : Pcb) : Outcome Int := do
  let frame ← pcb.frame pcb.currentPage
  .ok (memory.varmemsize + (frame - 1) * 3)

/-- The two loads of a new process, the second one unless the end of the file was noticed. -/
def loadFirst (filename : CString) : Nat → Stream → Pcb → Kernel World → Outcome (Pcb × Kernel World)
  | 0, _, pcb, kernel => .ok (pcb, kernel)
  | rounds + 1, fp, pcb, kernel =>
      if fp.eof then loadFirst filename rounds fp pcb kernel
      else do
        let (fp, pcb, kernel) ← loadPage fp filename pcb kernel
        loadFirst filename rounds fp pcb.advancePage kernel

/-- The status 1 is `FILE_DOES_NOT_EXIST`. -/
def processInitialize (filename : CString) (kernel : Kernel World) : Outcome (Int × Kernel World) :=
  match kernel.disk filename with
  | none => .ok (1, kernel)
  | some file => do
      let (pcb, kernel) ← loadFirst filename 2 (fopen file) (makePcb kernel.pidCounter filename file)
        { kernel with pidCounter := kernel.pidCounter + 1 }
      let pcb := { pcb with currentPage := 0 }
      let pc ← findPC kernel.memory pcb
      .ok (0, { kernel with queue := kernel.queue ++ [{ pcb with pc := pc, pagesNeeded := countPages file }] })

/-- The lines of the earlier pages are read and dropped. -/
def skipLines : Nat → Stream → Stream
  | 0, fp => fp
  | count + 1, fp =>
      match fgets fp with
      | (none, fp) => fp
      | (some _, fp) => skipLines count fp

/-- A file name that is gone, or a file that is gone, must not be used. -/
def handlePageFault (pcb : Pcb) (kernel : Kernel World) : Outcome (Kernel World) :=
  match pcb.filename with
  | none => .error .undefined
  | some filename =>
      match kernel.disk filename with
      | none => .error .undefined
      | some file => do
          let (_, pcb, kernel) ← loadPage (skipLines (pcb.currentPage * 3) (fopen file)) filename pcb kernel
          let pc ← findPC kernel.memory pcb
          .ok { kernel with queue := kernel.queue ++ [{ pcb with pc := pc }] }

/-- `"./backing_store/"`. -/
def backingStore : CString :=
  .ofChars ['.', '/', 'b', 'a', 'c', 'k', 'i', 'n', 'g', '_', 's', 't', 'o', 'r', 'e', '/']

/-- The path must fit its 50 bytes and the file must exist; the byte 255 is taken for the end of the file. -/
def copyFileBack (name : CString) (kernel : Kernel World) : Outcome (CString × Kernel World) :=
  let path := backingStore ++ name
  if path.length < 50 then
    match kernel.disk name with
    | none => .error .undefined
    | some file => .ok (path, { kernel with disk := Function.update kernel.disk path (some (file.takeWhile (· ≠ 255))) })
  else .error .undefined

/-- Nothing is scheduled while a process runs a line. -/
def scheduleByPolicy (policy : Policy) (kernel : Kernel World) : Kernel World :=
  if kernel.inBackground then kernel else { kernel with policy := some policy }

/-- `exec` copies and loads its scripts until one fails. -/
def execLoad : List CString → Kernel World → Outcome (Int × Kernel World)
  | [], kernel => .ok (0, kernel)
  | name :: rest, kernel => do
      let (path, kernel) ← copyFileBack name kernel
      let (errorCode, kernel) ← processInitialize path kernel
      if errorCode ≠ 0 then .ok (errorCode, kernel) else execLoad rest kernel

/-- The names of the processes made from `pid` on point into a call that returns. -/
def dangle (pid : Nat) (kernel : Kernel World) : Kernel World :=
  { kernel with queue := kernel.queue.map fun pcb => if pid ≤ pcb.pid then { pcb with filename := none } else pcb }

/-- The paths live in `exec`, which returns at once unless it is the scheduler that keeps it waiting. -/
def exec (names : List CString) (kernel : Kernel World) : Outcome (Kernel World) := do
  let (errorCode, loaded) ← execLoad names kernel
  if errorCode ≠ 0 then .ok (loaded.dangle kernel.pidCounter)
  else
    let scheduled := loaded.scheduleByPolicy .rr
    .ok (if loaded.inBackground then scheduled.dangle kernel.pidCounter else scheduled)

def runCommand (kernel : Kernel World) : Command → Outcome (Kernel World)
  | .set var value => .ok { kernel with memory := kernel.memory.memSetValue var value }
  | .resetmem => .ok { kernel with memory := kernel.memory.resetvarmem }
  | .quit => .error (.exit 0)
  | .run script => do
      let (_, kernel) ← processInitialize script kernel
      .ok (kernel.scheduleByPolicy .fcfs)
  | .exec names => kernel.exec names

/-- A line of a process; the null pointer is compared with `"none"` first. -/
def parseLine (parse : Parser World) (pid : Nat) (line : Option CString) (kernel : Kernel World) :
    Outcome (Kernel World) :=
  match line with
  | none => .error .undefined
  | some line =>
      if line = noneStr then .ok kernel
      else
        let (commands, world) := parse line kernel.memory kernel.world
        commands.foldlM runCommand { kernel.log (.handed pid line) with world := world }

/-- `none` says that the node of the process was used up, otherwise it is given back. -/
def executeProcess (parse : Parser World) : Nat → Pcb → Kernel World → Outcome (Option Pcb × Kernel World)
  | 0, pcb, kernel => .ok (some pcb, kernel)
  | quanta + 1, pcb, kernel => do
      let frame ← pcb.frame pcb.currentPage
      let last : Int := kernel.memory.varmemsize + (frame - 1) * 3 + 2
      let line ← kernel.memory.memGetValueAtLine pcb.pc
      let pcb := pcb.fetch
      let kernel := { kernel with inBackground := true }
      if pcb.pc > last then do
        let pcb := pcb.advancePage
        let frame ← pcb.frame pcb.currentPage
        if pcb.currentPage + 1 > pcb.pagesNeeded then do
          let kernel ← parseLine parse pcb.pid line kernel
          .ok (none, { kernel with inBackground := false })
        else if frame = -1 then do
          let kernel ← parseLine parse pcb.pid line kernel
          let kernel ← handlePageFault pcb kernel
          .ok (none, kernel)
        else do
          -- the next page is taken to lie behind this one
          let kernel ← parseLine parse pcb.pid line kernel
          executeProcess parse quanta pcb { kernel with inBackground := false }
      else do
        let kernel ← parseLine parse pcb.pid line kernel
        executeProcess parse quanta pcb { kernel with inBackground := false }

def Policy.quanta : Policy → Nat
  | .fcfs => 2147483646
  | .rr => 2

/-- One round of `scheduler_RR` or `scheduler_FCFS`; the latter drops a process that used up its quanta. -/
def turn (parse : Parser World) (policy : Policy) (kernel : Kernel World) : Outcome (Kernel World) :=
  match kernel.queue with
  | [] => .error .undefined
  | pcb :: rest => do
      let (left, kernel) ← executeProcess parse (Policy.quanta policy) pcb { kernel with queue := rest }
      match policy, left with
      | .rr, some pcb => .ok { kernel with queue := kernel.queue ++ [pcb] }
      | _, _ => .ok kernel

/-- A session: commands while no scheduler runs, the rounds of the scheduler, and its end when the queue is empty. -/
inductive Step (parse : Parser World) (kernel : Kernel World) : Kernel World → Prop where
  | command (idle : kernel.policy = none) (world : World) (command : Command) (next : Kernel World)
      (runs : runCommand { kernel with world := world } command = .ok next) : Step parse kernel next
  | turn (policy : Policy) (running : kernel.policy = some policy) (waits : kernel.queue ≠ []) (next : Kernel World)
      (turns : kernel.turn parse policy = .ok next) : Step parse kernel next
  | finish (policy : Policy) (running : kernel.policy = some policy) (ended : kernel.queue = []) :
      Step parse kernel { kernel with policy := none }

end Kernel
end MockOS.A2
