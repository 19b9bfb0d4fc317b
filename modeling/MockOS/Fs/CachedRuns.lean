import MockOS.Fs.CacheTransparency
import MockOS.Fs.PlainRuns

namespace MockOS.Fs

variable {A B : Type}

/-- The memory of the file system and the buffer cache before the device. -/
structure System where
  mem : Mem
  cache : Cache

/-- The sectors are seen through the cache. -/
def System.world (system : System) : World := ⟨system.mem, system.cache.view⟩

/-- A run whose requests the buffer cache answers. -/
def runCached (action : Action A) (system : System) : Option (A × System) :=
  (Lib.StoreProgram.execOn Cache.machine (action system.mem) system.cache).map fun result =>
    (result.1.1, ⟨result.1.2, result.2⟩)

variable {system start next : System} {value : A} {action : Action A}

/-- A cached run is a run on the sectors that the cache shows. -/
theorem runCached_world (coherent : system.cache.Coherent) (action : Action A) :
    (runCached action system).map (fun result => (result.1, result.2.world)) = run action system.world := by
  have same := (Cache.machine_transparent.execOn_eq (action system.mem) system.cache coherent).1
  rw [run, System.world, ← same, runCached, Option.map_map, Option.map_map]
  rfl

theorem runCached_coherent (coherent : system.cache.Coherent) (ran : runCached action system = some (value, next)) :
    next.cache.Coherent := by
  obtain ⟨⟨⟨result, mem⟩, cache⟩, serves, same⟩ := Option.map_eq_some_iff.mp ran
  obtain ⟨-, rfl⟩ := Prod.mk.inj same
  exact (Cache.machine_transparent.execOn_eq (action system.mem) system.cache coherent).2 _ _ serves

theorem run_of_runCached (coherent : system.cache.Coherent) (ran : runCached action system = some (value, next)) :
    run action system.world = some (value, next.world) := by
  rw [← runCached_world coherent, ran]
  rfl

theorem runCached_of_run (coherent : system.cache.Coherent) {last : World} (ran : run action system.world = some (value, last)) :
    ∃ next, runCached action system = some (value, next) ∧ next.world = last := by
  rw [← runCached_world coherent] at ran
  obtain ⟨⟨result, next⟩, cached, same⟩ := Option.map_eq_some_iff.mp ran
  obtain ⟨rfl, rfl⟩ := Prod.mk.inj same
  exact ⟨next, cached, rfl⟩

/-- The machine when it is switched on: the memory is new, and `buffer_cache_init` empties the cache. -/
def System.boot (deviceSize : UInt32) (garbage : Nat → UInt8) (cache : Cache) : System :=
  ⟨.boot deviceSize garbage, cache.bufferCacheInit⟩

theorem System.boot_coherent (deviceSize : UInt32) (garbage : Nat → UInt8) (cache : Cache) :
    (System.boot deviceSize garbage cache).cache.Coherent := cache.bufferCacheInit_spec.1

theorem System.boot_world (deviceSize : UInt32) (garbage : Nat → UInt8) (cache : Cache) :
    (System.boot deviceSize garbage cache).world = ⟨.boot deviceSize garbage, cache.device⟩ :=
  congrArg (World.mk _) cache.bufferCacheInit_spec.2

/-- The call of a command. -/
def ShellCommand.call : ShellCommand → Action Int
  | .create name length => fsutilCreate name length
  | .write name buffer length => fsutilWrite name buffer length
  | .read name length => do
      let (bytesRead, _) ← fsutilRead name length
      pure bytesRead
  | .seek name offset => fsutilSeek name offset
  | .size name => fsutilSize name
  | .cat name => fsutilCat name
  | .rm name => fsutilRm name
  | .ls => do
      let _ ← fsutilLs
      pure 0

theorem World.command_eq (world : World) (command : ShellCommand) :
    world.command command = (run command.call world).map Prod.snd := by
  cases command with
  | read name size =>
      rw [World.command, ShellCommand.call, run_bind]
      cases run (fsutilRead name size) world <;> rfl
  | ls =>
      rw [World.command, ShellCommand.call, run_bind]
      cases run fsutilLs world <;> rfl
  | _ => rfl

/-- The result of a write is not zero. -/
def ShellCommand.SucceedsWith : ShellCommand → Int → Prop
  | .write _ _ _, value => value ≠ 0
  | _, _ => True

/-- The systems between the commands of a run on plain names in which no write fails. -/
inductive System.PlainRun (start : System) : System → Prop
  | start : PlainRun start start
  | step {system next : System} {command : ShellCommand} {value : Int} : PlainRun start system → command.Plain →
      runCached command.call system = some (value, next) → command.SucceedsWith value → PlainRun start next

/-- The cache is not seen in a run. -/
theorem System.PlainRun.world (reached : start.PlainRun system) (coherent : start.cache.Coherent) :
    start.world.PlainRun system.world ∧ system.cache.Coherent := by
  induction reached with
  | start => exact ⟨.start, coherent⟩
  | @step system next command value _ plain ran succeeds ih =>
      obtain ⟨before, coherent⟩ := ih
      have flat := run_of_runCached coherent ran
      refine ⟨.step before plain ?_ (by rw [World.command_eq, flat]; rfl), runCached_coherent coherent ran⟩
      cases command with
      | write name buffer size =>
          change World.writeResult _ _ _ _ ≠ _
          have flat : run (fsutilWrite name buffer size) system.world = some (value, next.world) := flat
          rw [World.writeResult, flat, Option.map_some]
          exact fun failed => succeeds (Option.some.inj failed)
      | _ => trivial

end MockOS.Fs
