import MockOS.Proc.Interpreter

namespace MockOS.Proc

/-- Why a run is not seen to its end: it leaves by a fault, or the bound on its rounds and on its nesting is used up. -/
inductive Stop where
  | fault (fault : Fault)
  | cutOff

abbrev Course := Except Stop

def Outcome.course {A : Type} (outcome : Outcome A) : Course A := outcome.mapError .fault

/-- A pointer into a line that was read: which line, and its bytes from there on. -/
structure Position where
  line : Nat
  rest : CString
  deriving DecidableEq

/-- One call of `strtok` with `";"`: the token, if there is one, and the position that is saved. -/
def strtok (start : Position) : Option Position × Position :=
  let rest := start.rest.dropWhile (· = 59)
  if rest = [] then (none, ⟨start.line, []⟩)
  else (some ⟨start.line, rest.takeWhile (· ≠ 59)⟩, ⟨start.line, (rest.dropWhile (· ≠ 59)).tail⟩)

/-- A call of `interpreter` that returned: the line whose `parseInput` made it, the token and the value. -/
structure Call where
  caller : Nat
  token : Position
  ret : Int

/-- The kernel and the hidden state of `strtok`; `lines` counts the lines so far, `calls` records what was interpreted. -/
structure Shell (World : Type) where
  kernel : Kernel World
  saved : Position
  lines : Nat
  calls : List Call

/-- `parseInput` as the processes see it. -/
abbrev Parser (World : Type) := CString → Shell World → Course (Int × Shell World)

/-- What `run` and `exec` take from outside: the file commands, `filesys_done` and the script files. -/
structure Host (World : Type) where
  files : FileCommands World
  filesysDone : World → World
  script : World → CString → Option (List UInt8)

namespace Shell

variable {World : Type}

def withKernel (shell : Shell World) (kernel : Kernel World) : Shell World := { shell with kernel := kernel }

/-- The counters are those of the process, which must not have been freed while its line ran. -/
def cpuRun (parse : Parser World) (pid i : Nat) (shell : Shell World) : Course (Int × Shell World) := do
  let pcb ← (shell.kernel.pcb pid).course
  let page ← (pcb.page i).course
  if inside : pcb.programCounter i < 3 then
    let j : Fin 3 := ⟨pcb.programCounter i, inside⟩
    if page.validBit j = false then
      .ok (1, shell) -- page fault
    else do
      let line ← (shell.kernel.memory.memGetValueAt (page.index j)).course
      let (ret, shell) ← parse line (shell.withKernel (shell.kernel.log (.handed pid line)))
      let pcb ← (shell.kernel.pcb pid).course
      .ok (ret, shell.withKernel (shell.kernel.setPcb pid (pcb.advance i)))
  else .error (.fault .undefined)

def runProc (parse : Parser World) (pid i : Nat) (shell : Shell World) : Course (Int × Shell World) := do
  let (ret, shell) ← cpuRun parse pid i shell
  if ret = 1 then do
    let kernel ← (Kernel.pageFault pid i shell.kernel).course
    .ok (1, shell.withKernel kernel)
  else do
    let kernel ← (Kernel.touch (pid, i) shell.kernel).course
    .ok (0, shell.withKernel kernel)

def runLine (parse : Parser World) (pid : Nat) (shell : Shell World) : Course (Int × Shell World) := do
  let pcb ← (shell.kernel.pcb pid).course
  runProc parse pid pcb.firstPage shell

/-- One turn of `run_proc_RR`. -/
def rrTurn (parse : Parser World) (shell : Shell World) : Course (Shell World) :=
  match shell.kernel.queue with
  | [] => .error (.fault (.exit 99))
  | pid :: queue => do
      let shell := shell.withKernel { shell.kernel with queue := queue }
      let pcb ← (shell.kernel.pcb pid).course
      if pcb.size > 1 then do
        let (ret, shell) ← runLine parse pid shell
        if ret = 1 then .ok shell
        else do
          let (ret, shell) ← runLine parse pid shell
          if ret = 1 then .ok shell
          else .ok (shell.withKernel { shell.kernel with queue := shell.kernel.queue ++ [pid] })
      else if pcb.size = 1 then do
        let (_, shell) ← runLine parse pid shell
        .ok shell
      else .ok shell

def queueDone (shell : Shell World) : Bool := shell.kernel.queueDone

/-- The clean-up frees every process of `ALL_PCB` and empties the three lists, whoever put them there. -/
def runProcRR (parse : Parser World) (fuel : Nat) (shell : Shell World) : Course (Int × Shell World) := do
  match ← Lib.loop queueDone (rrTurn parse) fuel shell with
  | none => .error .cutOff
  | some shell => do
      let kernel ← (shell.kernel.allPcb.foldlM Kernel.freePcb shell.kernel).course
      .ok (0, shell.withKernel { kernel with queue := [], lruCache := [], allPcb := [] })

/-- `run` and `exec`. -/
def runScripts (host : Host World) (parse : Parser World) (fuel : Nat) (names : List CString) (shell : Shell World) :
    Course (Int × Shell World) := do
  let kernel ← (Kernel.newProcs (names.map (host.script shell.kernel.world)) shell.kernel).course
  runProcRR parse fuel (shell.withKernel kernel)

/-- The scripts that a command runs. -/
def scriptsOf (args : List CString) : Option (List CString) :=
  match args.map stripped with
  | [] => none
  | name :: scripts =>
      if name = command ['r', 'u', 'n'] ∧ scripts.length = 1 ∨
          name = command ['e', 'x', 'e', 'c'] ∧ 1 ≤ scripts.length ∧ scripts.length ≤ 3 then some scripts
      else none

def quits (args : List CString) : Bool :=
  args.map stripped = [command ['q', 'u', 'i', 't']] || args.map stripped = [command ['e', 'x', 'i', 't']]

/-- `exec` refuses a fourth script. -/
def refused (args : List CString) : Bool :=
  (args.map stripped).head? = some (command ['e', 'x', 'e', 'c']) && args.length = 5

/-- `interpreter` with the commands that run scripts, which call `parseInput` again. -/
def interpreter (host : Host World) (run : List CString → Shell World → Course (Int × Shell World)) (args : List CString)
    (shell : Shell World) : Course (Int × Shell World) :=
  match scriptsOf args with
  | some names => run names shell
  | none =>
      if quits args then .ok (-1, shell.withKernel { shell.kernel with world := host.filesysDone shell.kernel.world })
      else if refused args then .ok (1, shell)
      else match Proc.interpreter host.files args shell.kernel.world with
        | none => .error (.fault .undefined) -- `echo` without an argument
        | some result => .ok (result.ret, shell.withKernel { shell.kernel with
            memory := result.commands.foldl (fun memory command => command.run memory) shell.kernel.memory
            world := result.world })

/-- The next token is taken from the saved position before the result is looked at. -/
def parseLoop (interpret : List CString → Shell World → Course (Int × Shell World)) (caller : Nat) :
    Nat → Option Position → Int → Shell World → Course (Int × Shell World)
  | _, none, ret, shell => .ok (ret, shell)
  | 0, some _, _, _ => .error .cutOff
  | fuel + 1, some token, _, shell => do
      let (ret, shell) ← interpret (words token.rest) shell
      let (next, saved) := strtok shell.saved
      let shell := { shell with saved := saved, calls := shell.calls ++ [⟨caller, token, ret⟩] }
      if ret = -1 then .ok (ret, shell) else parseLoop interpret caller fuel next ret shell

/-- `parseInput`, with at most `depth` lines being parsed at a time. -/
def parseInput (host : Host World) (fuel : Nat) : Nat → Parser World
  | 0, _, _ => .error .cutOff
  | depth + 1, ui, shell =>
      let (token, saved) := strtok ⟨shell.lines, ui⟩
      parseLoop (interpreter host (runScripts host (parseInput host fuel depth) fuel)) shell.lines fuel token 0
        { shell with saved := saved, lines := shell.lines + 1 }

end Shell
end MockOS.Proc
