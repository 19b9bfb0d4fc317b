import MockOS.Fs.Lifetimes
import MockOS.Proc.LineArrays
import MockOS.Proc.ScriptEffects

namespace MockOS.Proc

open MockOS.Fs (ShellCommand Answer System NamedStore runCached filesysInit filesysDone FormatFits)

/-- The machine behind the shell, which is lost when something undefined happens, and what its commands answered so far. -/
structure Console where
  system : Option System
  transcript : List Fs.Event

namespace Console

/-- The shell runs a command on the machine, and gets its value. -/
def call (command : ShellCommand) (console : Console) : Int × Console :=
  match console.system with
  | none => (0, console)
  | some system =>
      match runCached command.answer system with
      | none => (0, { console with system := none })
      | some (answer, next) =>
          (answer.value, ⟨some next, console.transcript ++ [.command (system.world.RoomToCreate command) command answer]⟩)

/-- The commands are run one after the other. -/
def calls (commands : List ShellCommand) (console : Console) : Console :=
  commands.foldl (fun console command => (console.call command).2) console

/-- The commands on the files of the root directory run on the machine, the other ones as they like. -/
def files (others : FileCommands Console) : FileCommands Console :=
  { others with
    ls := call .ls
    cat := fun file => call (.cat file)
    rm := fun file => call (.rm file)
    create := fun file size => call (.create file size)
    write := fun file buffer => call (.write file (fun i => buffer.getD i 0) buffer.length)
    read := fun file size => call (.read file size)
    size := fun file => call (.size file)
    seek := fun file offset => call (.seek file offset) }

end Console

/-- The command on the files that the words of a section stand for. -/
def fileCommand (args : List CString) : Option ShellCommand :=
  match args.map stripped with
  | [] => none
  | name :: rest =>
      if name = command ['l', 's'] then
        if rest.length > 0 then none else some .ls
      else if name = command ['c', 'a', 't'] then
        match rest with
        | [file] => some (.cat file)
        | _ => none
      else if name = command ['r', 'm'] then
        match rest with
        | [file] => some (.rm file)
        | _ => none
      else if name = command ['c', 'r', 'e', 'a', 't', 'e'] then
        match rest with
        | [file, size] => some (.create file (atoi size))
        | _ => none
      else if name = command ['w', 'r', 'i', 't', 'e'] then
        match rest with
        | file :: text :: texts =>
            some (.write file (fun i => (joined (text :: texts) ++ [0, 0]).getD i 0) (joined (text :: texts) ++ [0, 0]).length)
        | _ => none
      else if name = command ['r', 'e', 'a', 'd'] then
        match rest with
        | [file, size] => some (.read file (atoi size))
        | _ => none
      else if name = command ['s', 'i', 'z', 'e'] then
        match rest with
        | [file] => some (.size file)
        | _ => none
      else if name = command ['s', 'e', 'e', 'k'] then
        match rest with
        | [file, offset] => some (.seek file (atoi offset))
        | _ => none
      else none

/-- The commands that end the shell, run scripts, or read or change the files in another way. -/
def furtherCommands : List CString :=
  [command ['q', 'u', 'i', 't'], command ['e', 'x', 'i', 't'], command ['r', 'u', 'n'], command ['e', 'x', 'e', 'c'],
    command ['f', 'i', 'n', 'd', '_', 'f', 'i', 'l', 'e'], command ['c', 'o', 'p', 'y', '_', 'i', 'n'],
    command ['c', 'o', 'p', 'y', '_', 'o', 'u', 't'], command ['f', 'r', 'e', 'e', 's', 'p', 'a', 'c', 'e'],
    command ['f', 'r', 'a', 'g', 'm', 'e', 'n', 't', 'a', 't', 'i', 'o', 'n', '_', 'd', 'e', 'g', 'r', 'e', 'e'],
    command ['d', 'e', 'f', 'r', 'a', 'g', 'm', 'e', 'n', 't'], command ['r', 'e', 'c', 'o', 'v', 'e', 'r']]

/-- The numbers that an `int` holds, and for `read` a size that `malloc` takes. -/
def InRange : ShellCommand → Prop
  | .create _ size => -2147483648 ≤ size ∧ size < 2147483648
  | .read _ size => 0 ≤ size ∧ size < 2147483647
  | _ => True

/-- A plain command on the files, or a command that uses no files; `echo` has an argument. -/
def Sound (args : List CString) : Prop :=
  match fileCommand args with
  | some command => command.Plain ∧ InRange command
  | none => ∀ name ∈ (args.map stripped).head?, name ∉ furtherCommands ∧
      (name = command ['e', 'c', 'h', 'o'] → args.length ≠ 1)

/-- A line that stays in the arrays of the shell and whose sections are sound. -/
structure TypedLine (ui : CString) : Prop where
  short : ui.length ≤ 998
  nulFree : 0 ∉ ui
  inside : ∀ token ∈ tokens ui, StaysInside token
  sound : ∀ token ∈ tokens ui, Sound (words token)

/-- The commands on the files in a line. -/
def lineCommands (ui : CString) : List ShellCommand := (tokens ui).filterMap fun token => fileCommand (words token)

/-- `parseInput` as the kernel calls it. -/
def Console.shell (others : FileCommands Console) : Interpreter Console := fun line console =>
  (parseInput (files others) line console).getD ⟨0, [], console⟩

/-- What a user does: a line, or scripts from process `first` on, whose lines are run in some order, or a restart. -/
inductive Input where
  | line (ui : CString)
  | exec (first : Nat) (scripts : List Script) (order : List (Nat × CString))
  | restart

/-- The commands on the files that are run. -/
def Input.commands : Input → List ShellCommand
  | .line ui => lineCommands ui
  | .exec _ _ order => (order.map Prod.snd).flatMap lineCommands
  | .restart => []

/-- The lines of each script are run once and in order. -/
def Input.Ordered : Input → Prop
  | .exec first scripts order => Interleaves first (scripts.map Script.texts) order
  | _ => True

/-- A line is typed; scripts of such lines, none of which returns 1, run to the end in an empty frame store; or the machine is
shut down without failed allocations and started from the same device. -/
inductive Console.Turn (deviceSize : UInt32) (others : FileCommands Console) : Console → Input → Console → Prop
  | line {console : Console} {ui : CString} {result : ParseResult Console} (typed : TypedLine ui)
      (parses : parseInput (files others) ui console = some result) : Turn deviceSize others console (.line ui) result.world
  | exec {console : Console} {first fuel : Nat} {scripts : List Script} {memory : ShellMemory} {loaded final : Kernel Console}
      (nonempty : scripts ≠ []) (typed : ∀ script ∈ scripts, ∀ line ∈ script.texts, TypedLine line)
      (other : ∀ script ∈ scripts, ∀ line ∈ script.texts, ∀ console, (shell others line console).ret ≠ 1)
      (empty : ∀ pos < memory.frameStoreSize, (memory.slots pos).var = noneStr)
      (loads : Kernel.newProcs (scripts.map fun script => some script.file) (Kernel.kernelSetup first memory console) = .ok loaded)
      (ends : Kernel.runProcRR (shell others) fuel loaded = .ok (some final)) :
      Turn deviceSize others console (.exec first scripts (executed final.trace)) final.world
  | restart {system last again : System} {transcript : List Fs.Event} {garbage : Nat → UInt8} {power : Fs.Cache}
      (noFailure : system.mem.allocationFailures = 0) (stops : runCached filesysDone system = some ((), last))
      (device : power.device = last.cache.device)
      (starts : runCached (filesysInit false) (.boot deviceSize garbage power) = some ((), again)) :
      Turn deviceSize others ⟨some system, transcript⟩ .restart ⟨some again, transcript ++ [.restart]⟩

/-- An event that is no failed write. -/
def Succeeds : Fs.Event → Prop
  | .command _ command answer => command.SucceedsWith answer.value
  | .restart => True

section Interpreter

variable {World : Type} {others : FileCommands Console} {console : Console} {args : List CString} {command : ShellCommand}

theorem runCached_bind {A B : Type} (action : Fs.Action A) (rest : A → Fs.Action B) (system : System) :
    runCached (action >>= rest) system = (runCached action system).bind fun result => runCached (rest result.1) result.2 := by
  unfold runCached
  change (Lib.StoreProgram.execOn Fs.Cache.machine
    (action system.mem >>= fun result => rest result.1 result.2) system.cache).map _ = _
  rw [Lib.StoreProgram.execOn_bind]
  cases Lib.StoreProgram.execOn Fs.Cache.machine (action system.mem) system.cache <;> rfl

/-- `rm` gives zero or one. -/
theorem Console.call_rm (name : CString) (console : Console) :
    (console.call (.rm name)).1 = 0 ∨ (console.call (.rm name)).1 = 1 := by
  rw [Console.call]
  cases console.system with
  | none => exact .inl rfl
  | some system =>
      dsimp only
      cases ran : runCached (ShellCommand.rm name).answer system with
      | none => exact .inl rfl
      | some result =>
          rw [ShellCommand.answer, Fs.fsutilRm] at ran
          simp only [runCached_bind, Option.bind_eq_some_iff] at ran
          obtain ⟨value, ⟨closed, _, removed, _, ends⟩, answers⟩ := ran
          cases ends
          cases answers
          cases removed.1 with
          | false => exact .inl rfl
          | true => exact .inr rfl

theorem handleError_ne (code : ErrorCode) : handleError code ≠ -1 := by
  rw [handleError]
  exact Int.ne_of_gt (Int.lt_of_lt_of_le (by decide) (Int.natCast_nonneg _))

/-- The status of a file command ends no line. -/
theorem checked_status (result : Int × World) (failure : Int) (code : ErrorCode) : ∃ ret,
    some (if result.1 = failure then ⟨handleError code, [], result.2⟩ else ⟨0, [], result.2⟩ : ParseResult World) =
      some ⟨ret, [], result.2⟩ ∧ ret ≠ -1 := by
  split_ifs
  · exact ⟨_, rfl, handleError_ne code⟩
  · exact ⟨_, rfl, by decide⟩

/-- `rm` returns the status of the removal as it is. -/
theorem removed_status (result : Int × World) (status : result.1 = 0 ∨ result.1 = 1) : ∃ ret,
    some (⟨if result.1 = 0 then handleError .errorRm else result.1, [], result.2⟩ : ParseResult World) =
      some ⟨ret, [], result.2⟩ ∧ ret ≠ -1 := by
  refine ⟨_, rfl, ?_⟩
  split_ifs
  · exact handleError_ne _
  · omega

/-- A section with a command on the files runs it once and does not end the line. -/
theorem interpreter_fileCommand (others : FileCommands Console) (console : Console)
    (found : fileCommand args = some command) : ∃ ret,
      interpreter (Console.files others) args console = some ⟨ret, [], (console.call command).2⟩ ∧ ret ≠ -1 := by
  rw [fileCommand] at found
  rw [interpreter]
  cases here : args.map stripped with
  | nil => simp [here] at found
  | cons name rest =>
      simp only [here] at found
      split_ifs at found with list many cat rm create write read size seek
      · subst list
        obtain rfl := Option.some.inj found
        obtain rfl : rest = [] := List.length_eq_zero_iff.mp (by omega)
        exact checked_status _ 1 .filesystemError
      · subst cat
        split at found
        · obtain rfl := Option.some.inj found
          exact checked_status _ 1 .fileDoesNotExist
        · cases found
      · subst rm
        split at found
        · obtain rfl := Option.some.inj found
          exact removed_status _ (Console.call_rm _ console)
        · cases found
      · subst create
        split at found
        · obtain rfl := Option.some.inj found
          exact checked_status _ 0 .fileCreationError
        · cases found
      · subst write
        split at found
        · obtain rfl := Option.some.inj found
          exact checked_status _ (-1) .fileWriteError
        · cases found
      · subst read
        split at found
        · obtain rfl := Option.some.inj found
          refine ⟨_, rfl, ?_⟩
          split_ifs
          · exact handleError_ne _
          · decide
          · decide
        · cases found
      · subst size
        split at found
        · obtain rfl := Option.some.inj found
          exact checked_status _ (-1) .fileDoesNotExist
        · cases found
      · subst seek
        split at found
        · obtain rfl := Option.some.inj found
          exact checked_status _ (-1) .fileDoesNotExist
        · cases found

/-- A section without one leaves the machine, and does not end the line either. -/
theorem interpreter_others (files : FileCommands World) (world : World) (none : fileCommand args = none)
    (sound : Sound args) : ∃ result, interpreter files args world = some result ∧ result.world = world ∧ result.ret ≠ -1 := by
  rw [Sound, none] at sound
  rw [fileCommand] at none
  rw [interpreter]
  cases here : args.map stripped with
  | nil => exact ⟨_, rfl, rfl, handleError_ne _⟩
  | cons name rest =>
      have size : args.length = rest.length + 1 := by
        rw [← List.length_map stripped, here, List.length_cons]
      simp only [here, List.head?_cons, Option.mem_some_iff, forall_eq'] at none sound
      obtain ⟨known, echoes⟩ := sound
      simp only [furtherCommands, List.mem_cons, List.not_mem_nil, or_false, not_or] at known
      have failed : ∀ code, ∃ result : ParseResult World, some ⟨handleError code, [], world⟩ = some result ∧
          result.world = world ∧ result.ret ≠ -1 := fun code => ⟨_, rfl, rfl, handleError_ne code⟩
      have zero : (0 : Int) ≠ -1 := by decide
      split_ifs at none with list many cat rm create write read count seek
      · subst list
        obtain ⟨arg, args, rfl⟩ := List.exists_cons_of_length_pos many
        exact failed .tooManyTokens
      · subst cat
        rcases rest with _ | ⟨file, _ | ⟨second, more⟩⟩
        · exact failed .tooManyTokens
        · cases none
        · exact failed .tooManyTokens
      · subst rm
        rcases rest with _ | ⟨file, _ | ⟨second, more⟩⟩
        · exact failed .tooManyTokens
        · cases none
        · exact failed .tooManyTokens
      · subst create
        rcases rest with _ | ⟨file, _ | ⟨second, _ | ⟨third, more⟩⟩⟩
        · exact failed .tooManyTokens
        · exact failed .tooManyTokens
        · cases none
        · exact failed .tooManyTokens
      · subst write
        rcases rest with _ | ⟨file, _ | ⟨text, texts⟩⟩
        · exact failed .tooFewTokens
        · exact failed .tooFewTokens
        · cases none
      · subst read
        rcases rest with _ | ⟨file, _ | ⟨second, _ | ⟨third, more⟩⟩⟩
        · exact failed .tooManyTokens
        · exact failed .tooManyTokens
        · cases none
        · exact failed .tooManyTokens
      · subst count
        rcases rest with _ | ⟨file, _ | ⟨second, more⟩⟩
        · exact failed .tooManyTokens
        · cases none
        · exact failed .tooManyTokens
      · subst seek
        rcases rest with _ | ⟨file, _ | ⟨second, _ | ⟨third, more⟩⟩⟩
        · exact failed .tooManyTokens
        · exact failed .tooManyTokens
        · cases none
        · exact failed .tooManyTokens
      · simp only [list, cat, rm, create, write, read, count, seek, known, or_self, if_false]
        split_ifs with help more set print echo resetmem
        · exact failed .tooManyTokens
        · exact ⟨_, rfl, rfl, zero⟩
        · rcases rest with _ | ⟨var, _ | ⟨value, values⟩⟩
          · exact failed .tooFewTokens
          · exact failed .tooFewTokens
          · dsimp only
            split_ifs
            · exact failed .nonAlphanumericToken
            · exact failed .nonAlphanumericToken
            · exact ⟨_, rfl, rfl, zero⟩
        · rcases rest with _ | ⟨var, _ | ⟨second, more⟩⟩
          · exact failed .tooFewTokens
          · exact ⟨_, rfl, rfl, zero⟩
          · exact failed .tooManyTokens
        · rcases rest with _ | ⟨var, _ | ⟨second, more⟩⟩
          · exact absurd size (echoes echo)
          · dsimp only
            split_ifs
            · exact ⟨_, rfl, rfl, zero⟩
            · exact failed .nonAlphanumericToken
            · exact ⟨_, rfl, rfl, zero⟩
            · exact failed .nonAlphanumericToken
          · exact failed .tooManyTokens
        · exact ⟨_, rfl, rfl, zero⟩
        · exact failed .badCommand

end Interpreter

section Calls

variable {others : FileCommands Console} {console : Console} {ui : CString}

theorem Console.calls_append (commands later : List ShellCommand) (console : Console) :
    console.calls (commands ++ later) = (console.calls commands).calls later := List.foldl_append

/-- All sections of a line run, in order. -/
theorem Console.parseSections_calls (others : FileCommands Console) {tokens : List CString}
    (sound : ∀ token ∈ tokens, Sound (words token)) (result : ParseResult Console) : ∃ total,
      parseSections (interpreter (Console.files others)) tokens result = some total ∧
      total.world = result.world.calls (tokens.filterMap fun token => fileCommand (words token)) := by
  induction tokens generalizing result with
  | nil => exact ⟨result, rfl, rfl⟩
  | cons token rest ih =>
      have later : ∀ token ∈ rest, Sound (words token) := fun other member => sound other (List.mem_cons_of_mem _ member)
      have here := sound token List.mem_cons_self
      cases found : fileCommand (words token) with
      | some command =>
          obtain ⟨ret, runs, goesOn⟩ := interpreter_fileCommand others result.world found
          obtain ⟨total, ends, after⟩ := ih later ⟨ret, result.commands ++ [], (result.world.call command).2⟩
          refine ⟨total, ?_, ?_⟩
          · rw [parseSections, runs]
            simp only [bind, Option.bind, if_neg goesOn]
            exact ends
          · simp only [after, List.filterMap_cons, found]
            rfl
      | none =>
          obtain ⟨next, runs, same, goesOn⟩ := interpreter_others (Console.files others) result.world found here
          obtain ⟨total, ends, after⟩ := ih later ⟨next.ret, result.commands ++ next.commands, next.world⟩
          refine ⟨total, ?_, ?_⟩
          · rw [parseSections, runs]
            simp only [bind, Option.bind, if_neg goesOn]
            exact ends
          · simp only [after, List.filterMap_cons, found, same]

theorem TypedLine.calls (typed : TypedLine ui) (others : FileCommands Console) (console : Console) : ∃ result,
    parseInput (Console.files others) ui console = some result ∧ result.world = console.calls (lineCommands ui) :=
  Console.parseSections_calls others typed.sound _

theorem TypedLine.shell_world (typed : TypedLine ui) (others : FileCommands Console) (console : Console) :
    (Console.shell others ui console).world = console.calls (lineCommands ui) := by
  obtain ⟨result, parses, world⟩ := typed.calls others console
  rw [Console.shell, parses]
  exact world

theorem runLines_calls {lines : List CString} (typed : ∀ line ∈ lines, TypedLine line) (console : Console)
    (memory : ShellMemory) :
    (runLines (Console.shell others) lines (console, memory)).1 = console.calls (lines.flatMap lineCommands) := by
  induction lines generalizing console memory with
  | nil => rfl
  | cons line rest ih =>
      have later := ih (fun other member => typed other (List.mem_cons_of_mem _ member))
        (Console.shell others line console).world
      rw [List.flatMap_cons, Console.calls_append, ← (typed line List.mem_cons_self).shell_world others console, ← later]
      rfl

theorem TypedLine.plain (typed : TypedLine ui) {command : ShellCommand} (member : command ∈ lineCommands ui) : command.Plain := by
  obtain ⟨token, inside, found⟩ := List.mem_filterMap.mp member
  have sound := typed.sound token inside
  rw [Sound, found] at sound
  exact sound.1

theorem Interleaves.typed {first : Nat} {scripts : List Script} {order : List (Nat × CString)}
    (interleaves : Interleaves first (scripts.map Script.texts) order)
    (typed : ∀ script ∈ scripts, ∀ line ∈ script.texts, TypedLine line) : ∀ line ∈ order.map Prod.snd, TypedLine line := by
  intro line member
  obtain ⟨call, called, rfl⟩ := List.mem_map.mp member
  obtain ⟨text, among, inside⟩ := interleaves.mem called
  obtain ⟨script, there, rfl⟩ := List.mem_map.mp among
  exact typed script there call.2 inside

end Calls

section Follows

variable {deviceSize : UInt32} {others : FileCommands Console} {console : Console} {command : ShellCommand}
  {commands : List ShellCommand}

/-- If no write failed, the machine did what the commands do to a store of named files. -/
def Console.Follows (deviceSize : UInt32) (commands : List ShellCommand) (console : Console) : Prop :=
  (∀ event ∈ console.transcript, Succeeds event) → ∃ system, console.system = some system ∧ system.Ready deviceSize ∧
    Lib.Runs NamedStore.Turn Lib.NamedFiles.empty console.transcript system.world.namedStore ∧
    console.transcript.filterMap Fs.Event.answered = commands

namespace Console.Follows

theorem call (follows : console.Follows deviceSize commands) (plain : command.Plain) :
    (console.call command).2.Follows deviceSize (commands ++ [command]) := by
  intro succeeds
  rw [Console.call] at succeeds ⊢
  cases here : console.system with
  | none =>
      simp only [here] at succeeds
      obtain ⟨system, there, _⟩ := follows succeeds
      exact absurd (here.symm.trans there) (Option.some_ne_none _).symm
  | some system =>
      simp only [here] at succeeds ⊢
      cases ran : runCached command.answer system with
      | none =>
          simp only [ran] at succeeds
          obtain ⟨_, there, ready, _⟩ := follows succeeds
          obtain rfl := Option.some.inj (here.symm.trans there)
          obtain ⟨answer, next, again, _⟩ := ready.answer plain
          exact absurd (ran.symm.trans again) (Option.some_ne_none _).symm
      | some result =>
          obtain ⟨answer, next⟩ := result
          simp only [ran] at succeeds ⊢
          obtain ⟨_, there, ready, runs, same⟩ := follows fun event member => succeeds event (List.mem_append_left _ member)
          obtain rfl := Option.some.inj (here.symm.trans there)
          obtain ⟨_, _, again, steps⟩ := ready.answer plain
          rw [ran, Option.some.injEq, Prod.mk.injEq] at again
          obtain ⟨rfl, rfl⟩ := again
          obtain ⟨readyAfter, step⟩ := steps (succeeds _ (List.mem_append_right _ (List.mem_singleton_self _)))
          refine ⟨next, rfl, readyAfter, runs.step (.command step), ?_⟩
          rw [List.filterMap_append, same]
          rfl

theorem calls {more : List ShellCommand} (plain : ∀ command ∈ more, command.Plain)
    (follows : console.Follows deviceSize commands) : (console.calls more).Follows deviceSize (commands ++ more) := by
  induction more generalizing console commands with
  | nil => rwa [List.append_nil]
  | cons command rest ih =>
      rw [List.append_cons]
      exact ih (fun other member => plain other (List.mem_cons_of_mem _ member))
        (follows.call (plain command List.mem_cons_self))

theorem turn {input : Input} {next : Console} (follows : console.Follows deviceSize commands)
    (turn : Console.Turn deviceSize others console input next) :
    next.Follows deviceSize (commands ++ input.commands) ∧ input.Ordered := by
  cases turn with
  | line typed parses =>
      obtain ⟨result, again, world⟩ := typed.calls others console
      obtain rfl := Option.some.inj (parses.symm.trans again)
      rw [world]
      exact ⟨follows.calls fun command => typed.plain, trivial⟩
  | exec nonempty typed other empty loads ends =>
      have ranAs := Kernel.runProcRR_ranAs_scripts nonempty empty other loads ends
      have interleaves := ranAs.texts
      have lines := interleaves.typed typed
      rw [ranAs.world, runLines_calls lines]
      refine ⟨follows.calls fun command member => ?_, interleaves⟩
      obtain ⟨line, inside, isCommand⟩ := List.mem_flatMap.mp member
      exact (lines line inside).plain isCommand
  | restart noFailure stops device starts =>
      refine ⟨fun succeeds => ?_, trivial⟩
      obtain ⟨_, there, ready, runs, same⟩ := follows fun event member => succeeds event (List.mem_append_left _ member)
      obtain rfl := Option.some.inj there
      obtain ⟨readyAfter, step⟩ := ready.turn (.restart noFailure stops device starts)
      refine ⟨_, rfl, readyAfter, runs.step step, ?_⟩
      rw [List.filterMap_append, same]
      rfl

theorem runs {start : Console} {inputs : List Input} (follows : start.Follows deviceSize commands)
    (runs : Lib.Runs (Console.Turn deviceSize others) start inputs console) :
    console.Follows deviceSize (commands ++ inputs.flatMap Input.commands) ∧ ∀ input ∈ inputs, input.Ordered := by
  induction runs with
  | start => exact ⟨by rwa [List.flatMap_nil, List.append_nil], fun _ none => absurd none List.not_mem_nil⟩
  | step _ turn ih =>
      obtain ⟨after, ordered⟩ := ih.1.turn turn
      rw [List.flatMap_append, List.flatMap_singleton, ← List.append_assoc]
      refine ⟨after, fun input member => ?_⟩
      rcases List.mem_append.mp member with before | now
      · exact ih.2 input before
      · rwa [List.mem_singleton.mp now]

end Console.Follows

/-- From a format on, what a user types acts on the files as on a store of named files: over restarts, through the buffer cache
and under demand paging, every command of every line and script is run once and in order. No typed line runs into undefined
behaviour, nor do scripts whose first pages fit or, as long as no allocation failed, a restart. -/
theorem inputs_refine_namedStore {deviceSize : UInt32} {garbage : Nat → UInt8} {power : Fs.Cache} {start : System}
    {others : FileCommands Console} {inputs : List Input} {console : Console} (fits : FormatFits deviceSize)
    (formatted : runCached (filesysInit true) (.boot deviceSize garbage power) = some ((), start))
    (runs : Lib.Runs (Console.Turn deviceSize others) ⟨some start, []⟩ inputs console)
    (succeeds : ∀ event ∈ console.transcript, Succeeds event) :
    (∃ system, console.system = some system ∧
      Lib.Runs NamedStore.Turn Lib.NamedFiles.empty console.transcript system.world.namedStore) ∧
    console.transcript.filterMap Fs.Event.answered = inputs.flatMap Input.commands ∧ (∀ input ∈ inputs, input.Ordered) ∧
    (∀ ui, TypedLine ui → ∃ result, Proc.parseInput (Console.files others) ui console = some result) ∧
    (∀ (first : Nat) (scripts : List Script) (memory : ShellMemory), scripts ≠ [] →
      (∀ script ∈ scripts, ∀ line ∈ script.texts, TypedLine line) →
      (∀ script ∈ scripts, ∀ line ∈ script.texts, ∀ console, (Console.shell others line console).ret ≠ 1) →
      (∀ pos < memory.frameStoreSize, (memory.slots pos).var = noneStr) →
      (scripts.map fun script => min 2 ((script.lines.length + 2) / 3)).sum ≤ memory.frameStoreSize / 3 →
      2 ≤ memory.varStoreSize → ∃ order next, Console.Turn deviceSize others console (.exec first scripts order) next) ∧
    ∀ system, console.system = some system → system.mem.allocationFailures = 0 → ∃ last,
      runCached filesysDone system = some ((), last) ∧
      ∀ (garbageAfter : Nat → UInt8) (powerAfter : Fs.Cache), powerAfter.device = last.cache.device → ∃ again,
        runCached (filesysInit false) (.boot deviceSize garbageAfter powerAfter) = some ((), again) := by
  obtain ⟨ready, empty, _⟩ := System.ready_format fits formatted
  have begins : (⟨some start, []⟩ : Console).Follows deviceSize [] := fun _ => ⟨start, rfl, ready, empty ▸ .start, rfl⟩
  obtain ⟨follows, ordered⟩ := begins.runs runs
  obtain ⟨system, here, readyAfter, specRuns, same⟩ := follows succeeds
  refine ⟨⟨system, here, specRuns⟩, same, ordered, fun ui typed => ?_, fun first scripts memory nonempty typed other empty room vars => ?_,
    fun system there noFailure => ?_⟩
  · obtain ⟨result, parses, _⟩ := typed.calls others console
    exact ⟨result, parses⟩
  · obtain ⟨loaded, fuel, final, loads, ends⟩ := Kernel.runProcRR_ends_scripts first console other empty room vars
    exact ⟨_, _, .exec nonempty typed other empty loads ends⟩
  · obtain rfl := Option.some.inj (here.symm.trans there)
    obtain ⟨last, stops, restarts⟩ := readyAfter.restart noFailure
    refine ⟨last, stops, fun garbageAfter powerAfter device => ?_⟩
    obtain ⟨again, starts, _⟩ := restarts garbageAfter powerAfter device
    exact ⟨again, starts⟩

/-- The other commands of a shell without them. -/
def idleCommands : FileCommands Console where
  ls console := (0, console)
  cat _ console := (0, console)
  rm _ console := (0, console)
  create _ _ console := (0, console)
  write _ _ console := (0, console)
  read _ _ console := (0, console)
  size _ console := (0, console)
  seek _ _ console := (0, console)
  copyIn _ console := (0, console)
  copyOut _ console := (0, console)
  findFile _ console := console
  freespace console := console
  fragmentationDegree console := console
  defragment console := console
  recover _ console := console

/-- Commands that have room are run without a failed write. -/
theorem Console.calls_roomy {system : System} {world : Fs.World} (ready : system.Ready deviceSize)
    (runs : Lib.Runs Fs.World.RoomyStep system.world commands world) (transcript : List Fs.Event) : ∃ next events,
      (⟨some system, transcript⟩ : Console).calls commands = ⟨some next, transcript ++ events⟩ ∧ next.Ready deviceSize ∧
      next.world = world ∧ ∀ event ∈ events, Succeeds event := by
  induction runs with
  | start => exact ⟨system, [], by rw [List.append_nil]; rfl, ready, rfl, fun _ none => absurd none List.not_mem_nil⟩
  | @step _ _ _ command _ step ih =>
      obtain ⟨middle, events, called, readyHere, rfl, good⟩ := ih
      obtain ⟨answer, next, ran, succeeds, readyNext, nextEq⟩ := readyHere.roomyStep step
      refine ⟨next, events ++ [.command (middle.world.RoomToCreate command) command answer], ?_, readyNext, nextEq, fun event member => ?_⟩
      · rw [Console.calls_append, called]
        change (Console.call _ ⟨some middle, transcript ++ events⟩).2 = _
        simp only [Console.call, ran, List.append_assoc]
      · rcases List.mem_append.mp member with before | now
        · exact good event before
        · rw [List.mem_singleton.mp now]
          exact succeeds

end Follows

section Typed

/-- The line `create a 512;read a 1;size a;cat a;ls;seek a 0`. -/
def firstLine : CString := .ofChars ['c', 'r', 'e', 'a', 't', 'e', ' ', 'a', ' ', '5', '1', '2', ';', 'r', 'e', 'a',
  'd', ' ', 'a', ' ', '1', ';', 's', 'i', 'z', 'e', ' ', 'a', ';', 'c', 'a', 't', ' ', 'a', ';', 'l', 's', ';', 's',
  'e', 'e', 'k', ' ', 'a', ' ', '0']

/-- The text `write a hi`. -/
def writeText : CString := .ofChars ['w', 'r', 'i', 't', 'e', ' ', 'a', ' ', 'h', 'i']

/-- The text `create b 1400`. -/
def createText : CString := .ofChars ['c', 'r', 'e', 'a', 't', 'e', ' ', 'b', ' ', '1', '4', '0', '0']

/-- The text `create d 600`. -/
def lastText : CString := .ofChars ['c', 'r', 'e', 'a', 't', 'e', ' ', 'd', ' ', '6', '0', '0']

/-- The line `cat b;rm d;ls`. -/
def lastLine : CString := .ofChars ['c', 'a', 't', ' ', 'b', ';', 'r', 'm', ' ', 'd', ';', 'l', 's']

/-- A line none of whose sections begins with `set` stays in the arrays. -/
theorem typedLine_of {ui : CString} (short : ui.length ≤ 998) (nulFree : 0 ∉ ui)
    (few : ∀ token ∈ tokens ui, (spacePieces token).length ≤ 100)
    (noSet : ∀ token ∈ tokens ui, ((spacePieces token).map stripped).head? ≠ some (command ['s', 'e', 't']))
    (sound : ∀ token ∈ tokens ui, Sound (words token)) : TypedLine ui := by
  refine ⟨short, nulFree, fun token member => ?_, sound⟩
  refine (staysInside_iff short nulFree member).mpr ⟨few token member, fun var value values same _ => ?_⟩
  exact absurd (congrArg List.head? same) (noSet token member)

theorem typedLine_first : TypedLine firstLine := by
  have parts : tokens firstLine = [.ofChars ['c', 'r', 'e', 'a', 't', 'e', ' ', 'a', ' ', '5', '1', '2'],
      .ofChars ['r', 'e', 'a', 'd', ' ', 'a', ' ', '1'], .ofChars ['s', 'i', 'z', 'e', ' ', 'a'],
      .ofChars ['c', 'a', 't', ' ', 'a'], .ofChars ['l', 's'], .ofChars ['s', 'e', 'e', 'k', ' ', 'a', ' ', '0']] := by decide
  refine typedLine_of (by decide) (by decide) (by decide) (by decide) fun token member => ?_
  rw [parts] at member
  simp only [List.mem_cons, List.not_mem_nil, or_false] at member
  rcases member with rfl | rfl | rfl | rfl | rfl | rfl
  · exact ⟨Fs.plainName_a, by decide, by decide⟩
  · exact ⟨Fs.plainName_a, by decide, by decide⟩
  · exact ⟨Fs.plainName_a, trivial⟩
  · exact ⟨Fs.plainName_a, trivial⟩
  · exact ⟨trivial, trivial⟩
  · exact ⟨⟨Fs.plainName_a, by decide, by decide⟩, trivial⟩

theorem typedLine_last : TypedLine lastLine := by
  have parts : tokens lastLine = [.ofChars ['c', 'a', 't', ' ', 'b'], .ofChars ['r', 'm', ' ', 'd'], .ofChars ['l', 's']] := by
    decide
  refine typedLine_of (by decide) (by decide) (by decide) (by decide) fun token member => ?_
  rw [parts] at member
  simp only [List.mem_cons, List.not_mem_nil, or_false] at member
  rcases member with rfl | rfl | rfl
  · exact ⟨Fs.plainName_b, trivial⟩
  · exact ⟨Fs.plainName_d, trivial⟩
  · exact ⟨trivial, trivial⟩

theorem busyLines_ne_nil : [writeText, createText, lastText] ≠ [] := List.cons_ne_nil _ _

theorem line_busy : ∀ line ∈ [writeText, createText, lastText], line ≠ [] ∧ 10 ∉ line ∧ line.length < 998 := by decide

/-- The script of the lines `write a hi`, `create b 1400` and `create d 600`. -/
def busyScript : Script := ⟨_, busyLines_ne_nil, line_busy⟩

theorem texts_busyScript : busyScript.texts = [writeText ++ [10], createText ++ [10], lastText] := by decide

theorem typed_busyScript : ∀ line ∈ busyScript.texts, TypedLine line := by
  rw [texts_busyScript]
  have parts : tokens (writeText ++ [10]) = [writeText ++ [10]] ∧ tokens (createText ++ [10]) = [createText ++ [10]] ∧
      tokens lastText = [lastText] := by decide
  intro line member
  simp only [List.mem_cons, List.not_mem_nil, or_false] at member
  rcases member with rfl | rfl | rfl
  · refine typedLine_of (by decide) (by decide) (by decide) (by decide) fun token member => ?_
    rw [parts.1, List.mem_singleton] at member
    rw [member]
    exact ⟨⟨Fs.plainName_a, by decide, by decide⟩, trivial⟩
  · refine typedLine_of (by decide) (by decide) (by decide) (by decide) fun token member => ?_
    rw [parts.2.1, List.mem_singleton] at member
    rw [member]
    exact ⟨Fs.plainName_b, by decide, by decide⟩
  · refine typedLine_of (by decide) (by decide) (by decide) (by decide) fun token member => ?_
    rw [parts.2.2, List.mem_singleton] at member
    rw [member]
    exact ⟨Fs.plainName_d, by decide, by decide⟩

/-- A line of one section returns zero or the code of its error. -/
theorem Console.shell_checked {others : FileCommands Console} {command : ShellCommand} {ui : CString} {failure : Int}
    {code : ErrorCode} (single : tokens ui = [ui])
    (checks : ∀ console, interpreter (Console.files others) (words ui) console =
      some (if (console.call command).1 = failure then ⟨handleError code, [], (console.call command).2⟩
        else ⟨0, [], (console.call command).2⟩))
    (different : handleError code ≠ 1) (console : Console) : (Console.shell others ui console).ret ≠ 1 := by
  rw [Console.shell, parseInput, single, parseSections]
  simp only [bind, Option.bind, checks, parseSections, ite_self]
  split_ifs
  · exact different
  · exact (by decide : (0 : Int) ≠ 1)

theorem busyScript_ret (line : CString) (member : line ∈ busyScript.texts) (console : Console) :
    (Console.shell idleCommands line console).ret ≠ 1 := by
  rw [texts_busyScript] at member
  simp only [List.mem_cons, List.not_mem_nil, or_false] at member
  rcases member with rfl | rfl | rfl
  · exact Console.shell_checked (by decide) (fun _ => rfl) (by decide) console
  · exact Console.shell_checked (by decide) (fun _ => rfl) (by decide) console
  · exact Console.shell_checked (by decide) (fun _ => rfl) (by decide) console

/-- The first line is typed and the script is run. -/
theorem Console.turns_busy {start : System} {world : Fs.World} (ready : start.Ready 300)
    (runs : Lib.Runs Fs.World.RoomyStep start.world Fs.busyCommands world) : ∃ next events order,
      Lib.Runs (Console.Turn 300 idleCommands) ⟨some start, []⟩ [.line firstLine, .exec 1 [busyScript] order]
        ⟨some next, events⟩ ∧
      next.Ready 300 ∧ next.world = world ∧ (∀ event ∈ events, Succeeds event) ∧
      order.map Prod.snd = busyScript.texts := by
  obtain ⟨next, events, called, readyNext, same, good⟩ := Console.calls_roomy ready runs []
  obtain ⟨result, parses, first⟩ := typedLine_first.calls idleCommands ⟨some start, []⟩
  have typed : ∀ script ∈ [busyScript], ∀ line ∈ script.texts, TypedLine line := fun script member => by
    rw [List.mem_singleton.mp member]
    exact typed_busyScript
  have other : ∀ script ∈ [busyScript], ∀ line ∈ script.texts, ∀ console,
      (Console.shell idleCommands line console).ret ≠ 1 := fun script member => by
    rw [List.mem_singleton.mp member]
    exact busyScript_ret
  have empty : ∀ pos < (ShellMemory.memInit 6 2).frameStoreSize, ((ShellMemory.memInit 6 2).slots pos).var = noneStr :=
    fun _ _ => rfl
  obtain ⟨loaded, fuel, final, loads, ends⟩ :=
    Kernel.runProcRR_ends_scripts 1 result.world other empty (by decide) (by decide)
  have ranAs := Kernel.runProcRR_ranAs_scripts (List.cons_ne_nil _ _) empty other loads ends
  have order := Interleaves.single ranAs.texts
  have finalEq : final.world = ⟨some next, events⟩ := by
    rw [ranAs.world, runLines_calls (ranAs.texts.typed typed), order, first, ← Console.calls_append]
    exact called
  have turned : Lib.Runs (Console.Turn 300 idleCommands) ⟨some start, []⟩ _ final.world :=
    (Lib.Runs.start.step (.line typedLine_first parses)).step
      (.exec (List.cons_ne_nil _ _) typed other empty loads ends)
  rw [finalEq] at turned
  exact ⟨next, events, _, turned, readyNext, same, good, order⟩

/-- The machine is restarted and the last line is typed. -/
theorem Console.turns_last {start next : System} {inputs : List Input} {events : List Fs.Event}
    (runs : Lib.Runs (Console.Turn 300 idleCommands) ⟨some start, []⟩ inputs ⟨some next, events⟩)
    (ready : next.Ready 300) (noFailure : next.mem.allocationFailures = 0) : ∃ ended later,
      Lib.Runs (Console.Turn 300 idleCommands) ⟨some start, []⟩ (inputs ++ [.restart] ++ [.line lastLine])
        ⟨some ended, events ++ [.restart] ++ later⟩ ∧ ∀ event ∈ later, Succeeds event := by
  obtain ⟨last, stops, restarts⟩ := ready.restart noFailure
  obtain ⟨again, starts, readyAgain, _⟩ := restarts (fun _ => 1) last.cache rfl
  have plainCat : ShellCommand.Plain (.cat [98]) := Fs.plainName_b
  have plainRm : ShellCommand.Plain (.rm [100]) := Fs.plainName_d
  have plainLs : ShellCommand.Plain .ls := trivial
  obtain ⟨_, _, _, _, _, orderly⟩ := readyAgain.rest
  obtain ⟨_, cats, _, _, _, _, orderly₁⟩ := orderly.roomyStep plainCat trivial
  obtain ⟨_, removes, _, _, _, _, orderly₂⟩ := orderly₁.roomyStep plainRm trivial
  obtain ⟨_, lists, _⟩ := orderly₂.roomyStep plainLs trivial
  obtain ⟨ended, later, called, _, _, good⟩ := Console.calls_roomy readyAgain
    (((Lib.Runs.start.step cats).step removes).step lists) (events ++ [.restart])
  obtain ⟨result, parses, typed⟩ := typedLine_last.calls idleCommands ⟨some again, events ++ [.restart]⟩
  have same : result.world = ⟨some ended, events ++ [.restart] ++ later⟩ := typed.trans called
  exact ⟨ended, later, same ▸ (runs.step (.restart noFailure stops rfl starts)).step (.line typedLine_last parses), good⟩

/-- Commands of every kind are typed and run from a script before a restart and after it. -/
theorem inputs_refine_namedStore_small : ∃ start : System, ∃ console order,
    runCached (filesysInit true) (.boot 300 (fun _ => 0) ⟨fun _ => ⟨false, 0, Fs.zeros, false, false⟩, 0, fun _ => Fs.zeros⟩) =
        some ((), start) ∧
      Lib.Runs (Console.Turn 300 idleCommands) ⟨some start, []⟩
        [.line firstLine, .exec 1 [busyScript] order, .restart, .line lastLine] console ∧
      console.transcript.filterMap Fs.Event.answered = Fs.busyCommands ++ [.cat [98], .rm [100], .ls] := by
  obtain ⟨power, powerEq⟩ : ∃ power : Fs.Cache,
      power = ⟨fun _ => ⟨false, 0, Fs.zeros, false, false⟩, 0, fun _ => Fs.zeros⟩ := ⟨_, rfl⟩
  have device : power.device = fun _ => Fs.zeros := by rw [powerEq]
  obtain ⟨fresh, busy, _, _, _, _, formatted, busyRuns, _, _, _, _, _, _, _, _, _, _, noFailure⟩ := Fs.busy_small
  rw [← device, ← System.boot_world] at formatted
  obtain ⟨start, cached, rfl⟩ := Fs.runCached_of_run (System.boot_coherent 300 (fun _ => 0) power) formatted
  obtain ⟨ready, _⟩ := System.ready_format Fs.formatFits_small cached
  obtain ⟨next, events, order, turned, readyNext, rfl, good, texts⟩ := Console.turns_busy ready busyRuns
  obtain ⟨ended, later, turns, goodLater⟩ := Console.turns_last turned readyNext noFailure
  have refines := inputs_refine_namedStore Fs.formatFits_small cached turns
  refine ⟨start, _, order, powerEq ▸ cached, turns, (refines fun event member => ?_).2.1.trans ?_⟩
  · simp only [List.mem_append, List.mem_singleton] at member
    rcases member with (before | rfl) | after
    · exact good event before
    · exact trivial
    · exact goodLater event after
  · have lines : Input.commands (.exec 1 [busyScript] order) = busyScript.texts.flatMap lineCommands := by
      rw [Input.commands, texts]
    simp only [List.cons_append, List.nil_append, List.flatMap_cons, List.flatMap_nil, lines]
    rfl

end Typed

end MockOS.Proc
