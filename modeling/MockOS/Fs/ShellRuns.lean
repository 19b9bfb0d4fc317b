import MockOS.Fs.NameCommands

namespace MockOS.Fs

/-- The file commands of the shell. -/
inductive ShellCommand where
  | create (name : CString) (size : Int)
  | write (name : CString) (buffer : Nat → UInt8) (size : Int)
  | read (name : CString) (size : Int)
  | seek (name : CString) (offset : Int)
  | size (name : CString)
  | cat (name : CString)
  | rm (name : CString)
  | ls

/-- A command runs to its end, or into undefined behaviour. -/
def World.command (world : World) : ShellCommand → Option World
  | .create name size => (run (fsutilCreate name size) world).map Prod.snd
  | .write name buffer size => (run (fsutilWrite name buffer size) world).map Prod.snd
  | .read name size => (run (fsutilRead name size) world).map Prod.snd
  | .seek name offset => (run (fsutilSeek name offset) world).map Prod.snd
  | .size name => (run (fsutilSize name) world).map Prod.snd
  | .cat name => (run (fsutilCat name) world).map Prod.snd
  | .rm name => (run (fsutilRm name) world).map Prod.snd
  | .ls => (run fsutilLs world).map Prod.snd

/-- The arguments are strings and numbers of 32 bits. -/
def ShellCommand.Valid : ShellCommand → Prop
  | .create name _ | .write name _ _ | .read name _ | .size name | .cat name | .rm name => 0 ∉ name
  | .seek name offset => 0 ∉ name ∧ isOffset offset = true
  | .ls => True

/-- A command neither reaches the root directory as a file, nor an inode that was freed, nor a negative position. -/
def World.Safe (world : World) : ShellCommand → Prop
  | .create _ _ | .ls => True
  | .write name _ size => world.Usable name ∧ 0 ≤ world.position name ∧ 1 ≤ size ∧ size < 2147483648
  | .read name _ => world.Usable name ∧ 0 ≤ world.position name
  | .seek name _ | .size name | .cat name => world.Usable name
  | .rm name => world.Closable name ∧ RemoveEnds world.rootEntries name

/-- The states between the commands of a run in which every command is safe. -/
inductive World.SafeRun (start : World) : World → Prop
  | start : SafeRun start start
  | step {world next : World} {command : ShellCommand} : SafeRun start world → command.Valid → world.Safe command →
      world.command command = some next → SafeRun start next

variable {shared : BlockSector → Prop} {own after : Owners} {world middle next : World}
  {nodes nodesBetween nodesAfter : Nodes} {sector number : BlockSector} {pointer dir : Pointer}
  {root rootAfter data dataAfter : InodeDisk} {entries : List DirEntry} {name path : CString}

theorem Mounted.inodeData (mounted : Mounted own shared nodes root entries world) (present : nodes sector = some data) :
    world.inodeData sector = data := mounted.volume.inodeData_eq present

theorem Mounted.rootEntries (mounted : Mounted own shared nodes root entries world) : world.rootEntries = entries := by
  rw [World.rootEntries, World.inodeBytes, mounted.inodeData mounted.present, mounted.holds.entries_eq]

/-- The file system between the commands of a run. -/
def World.Prompting (shared : BlockSector → Prop) (world : World) : Prop :=
  ∃ own nodes root entries, AtPrompt own shared nodes root entries world

theorem Settled.prompting (settled : Settled shared nodes entries world next) : next.Prompting shared := by
  obtain ⟨own, nodesAfter, root, prompt, _⟩ := settled
  exact ⟨own, nodesAfter, root, entries, prompt⟩

/-- A safe command ends between two commands. -/
theorem AtPrompt.command (prompt : AtPrompt own shared nodes root entries world) {command : ShellCommand}
    (valid : command.Valid) (safe : world.Safe command) :
    ∃ next, world.command command = some next ∧ next.Prompting shared := by
  cases command with
  | create name size =>
      obtain ⟨result, next, own', nodes', root', entries', ran, prompt', _⟩ := prompt.fsutilCreate valid size
      exact ⟨next, by rw [World.command, ran]; rfl, own', nodes', root', entries', prompt'⟩
  | write name buffer size =>
      obtain ⟨usable, nonnegative, low, high⟩ := safe
      obtain ⟨value, next, ran, ⟨_, _, settled⟩ | ⟨own', nodes', root', _, _, _, _, _, _, _, prompt', _⟩⟩ :=
        prompt.fsutilWrite usable nonnegative buffer low high
      · exact ⟨next, by rw [World.command, ran]; rfl, settled.prompting⟩
      · exact ⟨next, by rw [World.command, ran]; rfl, own', nodes', root', entries, prompt'⟩
  | read name size =>
      obtain ⟨value, next, ran, settled, _⟩ := prompt.fsutilRead safe.1 safe.2 size
      exact ⟨next, by rw [World.command, ran]; rfl, settled.prompting⟩
  | seek name offset =>
      have inRange : offset < 2147483648 := by
        have := valid.2
        simp [isOffset] at this
        exact this.2
      obtain ⟨value, next, ran, settled, _⟩ := prompt.fsutilSeek safe inRange
      exact ⟨next, by rw [World.command, ran]; rfl, settled.prompting⟩
  | size name =>
      obtain ⟨value, next, ran, settled, _⟩ := prompt.fsutilSize safe
      exact ⟨next, by rw [World.command, ran]; rfl, settled.prompting⟩
  | cat name =>
      obtain ⟨value, next, ran, settled⟩ := prompt.fsutilCat safe
      exact ⟨next, by rw [World.command, ran]; rfl, settled.prompting⟩
  | rm name =>
      obtain ⟨closable, ends⟩ := safe
      rw [prompt.toMounted.rootEntries] at ends
      obtain ⟨value, next, own', nodes', root', entries', ran, prompt', _⟩ := prompt.fsutilRm closable ends
      exact ⟨next, by rw [World.command, ran]; rfl, own', nodes', root', entries', prompt'⟩
  | ls =>
      obtain ⟨next, ran, settled⟩ := prompt.fsutilLs
      exact ⟨next, by rw [World.command, ran]; rfl, settled.prompting⟩

theorem World.SafeRun.prompting {start : World} (reached : start.SafeRun world) (prompts : start.Prompting shared) :
    world.Prompting shared := by
  induction reached with
  | start => exact prompts
  | step _ valid safe ran ih =>
      obtain ⟨own, nodes, root, entries, prompt⟩ := ih
      obtain ⟨next, ranNext, prompts⟩ := prompt.command valid safe
      rw [ran, Option.some.injEq] at ranNext
      rwa [ranNext]

/-- After a format no file is open and the root directory is empty. -/
theorem Fresh.atPrompt {deviceSize : UInt32} (fresh : Fresh own shared nodes deviceSize world) :
    ∃ own' root, AtPrompt own' shared nodes root (newEntries 1 1000) world := by
  obtain ⟨freeMapPointer, freeMap, root, started, nodesEq, _, holds, _⟩ := fresh.nodes
  have present : nodes 1 = some root := by
    rw [nodesEq]
    exact Function.update_self _ _ _
  refine ⟨_, root, ⟨fresh.volume.trim, own.trim_live nodes world.disk, present, holds, tidy_newEntries 1 1000,
    fun name sector named => absurd named (not_named_newEntries _ _ _ _), fun sector there => ?_, ?_⟩, started.cwd, ?_⟩
  · by_cases zero : sector = 0
    · exact .inl zero
    · by_cases one : sector = 1
      · exact .inr (.inl one)
      · rw [nodesEq, Function.update_of_ne one, Function.update_of_ne zero] at there
        exact absurd rfl there
  · have empty := started.fileTable
    constructor <;> simp [empty]
  · intro pointer member data object
    rw [started.openInodes, List.mem_singleton] at member
    subst member
    rw [started.inodes, Function.update_self, Option.some.injEq, Inode.live_inj] at object
    exact absurd object.1 (by decide)

/-- What holds between the commands of a safe run from a format on. -/
theorem safeRun_prompting {deviceSize : UInt32} {garbage : Nat → UInt8} {disk : BlockSector → Sector} {start : World}
    (fits : FormatFits deviceSize) (formatted : run (filesysInit true) ⟨.boot deviceSize garbage, disk⟩ = some ((), start))
    (reached : start.SafeRun world) : ∃ shared, world.Prompting shared := by
  obtain ⟨fresh, own, shared, nodes, ran, isFresh⟩ := filesysInit_format garbage disk fits
  rw [formatted, Option.some.injEq, Prod.mk.injEq] at ran
  obtain rfl := ran.2
  obtain ⟨own', root, prompt⟩ := isFresh.atPrompt
  exact ⟨shared, reached.prompting ⟨own', nodes, root, _, prompt⟩⟩

end MockOS.Fs
