import MockOS.Fs.NamedStoreCommands
import MockOS.Lib.Simulation

namespace MockOS.Fs

variable {shared sharedAfter : BlockSector → Prop} {own after : Owners} {world next again : World} {nodes : Nodes}
  {sector : BlockSector} {pointer : Pointer} {root data : InodeDisk} {entries : List DirEntry} {name : CString}
  {deviceSize : UInt32} {garbage : Nat → UInt8}

/-- With the free map file open and no other, every file is tracked. -/
theorem Mem.Started.tracked (started : world.mem.Started pointer data) : world.Tracked := by
  have single : ∀ file object, world.mem.files file = some object → file = pointer + 1 ∧ object = ⟨pointer, 0, false⟩ := by
    intro file object here
    rw [started.files] at here
    by_cases same : file = pointer + 1
    · rw [same, Function.update_self, Option.some.injEq] at here
      exact ⟨same, here.symm⟩
    · rw [Function.update_of_ne same] at here
      cases here
  have object : world.mem.files (pointer + 1) = some ⟨pointer, 0, false⟩ := by rw [started.files, Function.update_self]
  have noTable := started.fileTable
  refine ⟨fun dir => by rw [started.dirs], by rw [started.openInodes]; exact List.nodup_singleton _, ?_, ?_, ?_, ?_,
    by simp [noTable], ?_, by simp [noTable], by simp [noTable]⟩
  · rw [started.openInodes]
    intro inode member
    rw [List.mem_singleton.mp member, started.inodes]
    exact ⟨0, data, Function.update_self _ _ _⟩
  · intro file found here
    rw [(single file found here).2, started.openInodes]
    exact ⟨List.mem_singleton_self _, rfl⟩
  · rw [started.openInodes]
    intro inode member
    rw [List.mem_singleton.mp member]
    exact ⟨pointer + 1, _, object, rfl⟩
  · intro file other one two here there _
    rw [(single file one here).1, (single other two there).1]
  · intro file isFile
    obtain ⟨found, here⟩ := Option.ne_none_iff_exists'.mp isFile
    rw [started.freeMapFile, (single file found here).1]
    exact .inl rfl

theorem Mem.Started.position (started : world.mem.Started pointer data) (name : CString) : world.position name = 0 := by
  rw [World.position, World.handle, started.fileTable]
  rfl

theorem Mem.Started.rootClosed (started : world.mem.Started pointer data) : world.closed 1 := by
  intro inode member other object
  rw [started.openInodes, List.mem_singleton] at member
  subst member
  rw [started.inodes, Function.update_self, Option.some.injEq, Inode.live_inj] at object
  exact absurd object.1 (by decide)

/-- The memory after a start without a format. -/
theorem Image.started {disk : BlockSector → Sector} {map : Nat → Bool}
    (image : Image own nodes disk (mapBits deviceSize) map data)
    (ran : run (MockOS.Fs.filesysInit false) ⟨.boot deviceSize garbage, disk⟩ = some ((), next)) :
    next.mem.Started 0 data := by
  obtain ⟨begun, begunEq⟩ : ∃ begun : World, begun =
    ⟨{ Mem.boot deviceSize garbage with freeMap := initialMap (mapBits deviceSize) }, disk⟩ := ⟨_, rfl⟩
  have initialized : run freeMapInit ⟨.boot deviceSize garbage, disk⟩ = some ((), begun) := by
    rw [begunEq]
    exact run_freeMapInit image.positive
  have rest : begun.mem.AtRest := by
    rw [begunEq]
    exact ⟨rfl, fun _ _ => ⟨rfl, rfl, rfl⟩⟩
  have sameDisk : begun.disk = disk := by rw [begunEq]
  have limit : begun.limit = mapBits deviceSize := by rw [begunEq]; rfl
  rw [← sameDisk, ← limit] at image
  obtain ⟨mem, opens, _, shape, _⟩ := image.freeMapOpen rest
  rw [MockOS.Fs.filesysInit, run_bind, inodeInit, run_modify, Option.bind_some, run_bind] at ran
  change (run freeMapInit ⟨.boot deviceSize garbage, disk⟩).bind _ = _ at ran
  rw [initialized, Option.bind_some, if_neg Bool.false_ne_true, run_bind] at ran
  change (run MockOS.Fs.freeMapOpen begun).bind _ = _ at ran
  rw [opens, Option.bind_some, initFileTable, run_modify, Option.some.injEq, Prod.mk.injEq] at ran
  rw [← ran.2]
  change Mem.Started { mem with fileTable := [] } 0 data
  rw [shape, begunEq]
  constructor <;> rfl

namespace Orderly

theorem sameBytes_saved (orderly : Orderly own shared nodes root entries world) (disk : again.disk = world.disk) :
    SameBytes (fun _ => False) nodes (savedNodes nodes world.disk) world again := by
  intro sector data _ nonzero present
  refine ⟨.ofSector (world.disk sector), by rw [savedNodes, present, Option.map_some], ?_⟩
  rw [disk]
  exact (orderly.volume.node sector data present).fileBytes_reload nonzero

/-- The files and the names are found again when the volume is started from the disk. -/
theorem reopened (orderly : Orderly own shared nodes root entries world) (disk : again.disk = world.disk)
    (volume : Volume own sharedAfter (savedNodes nodes world.disk) again) (started : again.mem.Started pointer data) :
    ∃ own' root', Orderly own' sharedAfter (savedNodes nodes world.disk) root' entries again := by
  have saved : ∀ {sector before}, nodes sector = some before →
      savedNodes nodes world.disk sector = some (.ofSector (world.disk sector)) := by
    intro sector before present
    rw [savedNodes, present, Option.map_some]
  have noTable := started.fileTable
  have mounted : Mounted (own.trim (savedNodes nodes world.disk) again.disk) sharedAfter (savedNodes nodes world.disk)
      (.ofSector (world.disk 1)) entries again := by
    refine ⟨volume.trim, own.trim_live _ _, saved orderly.present, ?_, orderly.tidy, fun name sector named => ?_,
      fun sector there => orderly.named sector fun absent => there ?_, ⟨?_, ?_, ?_, ?_⟩⟩
    · rw [disk]
      exact (orderly.volume.node 1 root orderly.present).holdsEntries_reload (by decide) orderly.holds
    · obtain ⟨notEmpty, nonzero, nonroot, before, present, isFile, tail⟩ := orderly.regular name sector named
      have node := orderly.volume.node sector before present
      refine ⟨notEmpty, nonzero, nonroot, _, saved present, (node.stored nonzero).isDir.trans isFile, ?_⟩
      rw [disk]
      exact node.tailZero_reload nonzero tail
    · rw [savedNodes, absent]
      rfl
    all_goals simp [noTable]
  exact ⟨_, _, ⟨mounted, started.cwd, started.rootClosed⟩, started.tracked, fun path => (started.position path).ge⟩

/-- The volume is orderly after a restart, and all files are closed. -/
theorem restarts (orderly : Orderly own shared nodes root entries world) (limit : world.limit = mapBits deviceSize)
    (stored : InodeDisk.ofSector (world.disk 0) = world.inodeData 0)
    (ran : run (MockOS.Fs.filesysInit false) ⟨.boot deviceSize garbage, world.disk⟩ = some ((), again)) :
    ∃ sharedAfter, again.AtRest sharedAfter ∧ again.limit = mapBits deviceSize ∧
      InodeDisk.ofSector (again.disk 0) = again.inodeData 0 ∧ again.namedStore = world.namedStore.closeAll := by
  obtain ⟨freeMap, image⟩ := orderly.volume.saved stored
  rw [limit] at image
  have started := image.started ran
  obtain ⟨mem, starts, volume, bitCnt, _⟩ := image.filesysInit garbage
  rw [ran, Option.some.injEq, Prod.mk.injEq] at starts
  obtain ⟨-, rfl⟩ := starts
  obtain ⟨own', root', after⟩ := orderly.reopened (show World.disk ⟨mem, world.disk⟩ = world.disk from rfl) volume started
  refine ⟨_, after.atRest, bitCnt, ?_, Lib.NamedFiles.ext (funext fun name => ?_) (funext fun name => ?_)⟩
  · have present := image.present
    rw [after.toMounted.inodeData present]
    obtain ⟨before, _, same⟩ := Option.map_eq_some_iff.mp present
    exact same
  · exact orderly.toAtPrompt.files_kept after.toAtPrompt (fun _ => Iff.rfl) (orderly.sameBytes_saved rfl) fun _ _ => not_false
  · exact congrArg Int.toNat (started.position name)

end Orderly

/-- A command with its answer, and whether the device had room for it, or a restart of the machine. -/
inductive Event where
  | command (room : Prop) (command : ShellCommand) (answer : Answer)
  | restart

/-- The command that an event answers. -/
def Event.answered : Event → Option ShellCommand
  | .command _ asked _ => some asked
  | .restart => none

/-- A plain command that is no failed write, or a shutdown without failed allocations and a start from the same device. -/
inductive System.Turn (deviceSize : UInt32) : System → Event → System → Prop
  | command {system next : System} {command : ShellCommand} {answer : Answer} (plain : command.Plain)
      (ran : runCached command.answer system = some (answer, next)) (succeeds : command.SucceedsWith answer.value) :
      Turn deviceSize system (.command (system.world.RoomToCreate command) command answer) next
  | restart {system last again : System} {garbage : Nat → UInt8} {power : Cache}
      (noFailure : system.mem.allocationFailures = 0) (stops : runCached filesysDone system = some ((), last))
      (device : power.device = last.cache.device)
      (starts : runCached (filesysInit false) (.boot deviceSize garbage power) = some ((), again)) :
      Turn deviceSize system .restart again

inductive NamedStore.Turn : NamedStore → Event → NamedStore → Prop
  | command {store next : NamedStore} {room : Prop} {command : ShellCommand} {answer : Answer}
      (step : NamedStore.Step room store command answer next) : Turn store (.command room command answer) next
  | restart {store : NamedStore} : Turn store .restart store.closeAll

/-- Between two turns the volume is orderly, and the inode of the free map is on the disk unless an allocation failed. -/
structure System.Ready (deviceSize : UInt32) (system : System) : Prop where
  coherent : system.cache.Coherent
  rest : ∃ shared, system.world.AtRest shared
  limit : system.world.limit = mapBits deviceSize
  stored : system.mem.allocationFailures = 0 → InodeDisk.ofSector (system.world.disk 0) = system.world.inodeData 0

theorem run_catFile_bytes (path : CString) (opened : Bool) (file : Pointer) (world : World) :
    run (catFile path opened file) world =
      (run (catFileBytes path opened file) world).map fun result => (result.1.1, result.2) := by
  cases opened <;>
    simp only [catFile, catFileBytes, run_bind, run_catLoop, run_pure, Option.map_bind, Option.bind_map, Function.comp_def,
      Option.map_some, if_true, Bool.false_eq_true, if_false]

theorem run_fsutilCat_bytes (path : CString) (world : World) : run (fsutilCat path) world =
    (run (fsutilCatBytes path) world).map fun result => (result.1.1, result.2) := by
  rw [run_fsutilCat, run_fsutilCatBytes, run_bind, run_bind]
  cases run (commandFile path) world with
  | none => rfl
  | some result =>
      obtain ⟨found, middle⟩ := result
      cases found with
      | none => rfl
      | some file => exact run_catFile_bytes path _ file middle

theorem World.command_of_answer {command : ShellCommand} {answer : Answer}
    (ran : run command.answer world = some (answer, next)) : world.command command = some next := by
  cases command with
  | cat name =>
      rw [ShellCommand.answer] at ran
      obtain ⟨value, last, cats, rest⟩ := run_bind_some.mp ran
      rw [World.command, run_fsutilCat_bytes, cats]
      rw [run_pure, Option.some.injEq, Prod.mk.injEq] at rest
      exact congrArg some rest.2
  | _ =>
      rw [ShellCommand.answer] at ran
      obtain ⟨value, last, calls, rest⟩ := run_bind_some.mp ran
      rw [World.command, calls]
      rw [run_pure, Option.some.injEq, Prod.mk.injEq] at rest
      exact congrArg some rest.2

theorem World.Succeeds.answer {command : ShellCommand} {answer : Answer} (succeeds : world.Succeeds command)
    (ran : run command.answer world = some (answer, next)) : command.SucceedsWith answer.value := by
  cases command with
  | write name buffer size =>
      rw [ShellCommand.answer] at ran
      obtain ⟨value, last, calls, rest⟩ := run_bind_some.mp ran
      rw [run_pure, Option.some.injEq, Prod.mk.injEq] at rest
      rw [← rest.1]
      intro zero
      apply succeeds
      rw [World.writeResult, calls, Option.map_some]
      exact congrArg some zero
  | _ => trivial

section Turns

variable {system last start : System} {event : Event} {events : List Event}

theorem System.Ready.answer (ready : system.Ready deviceSize) {command : ShellCommand} (plain : command.Plain) :
    ∃ answer next, runCached command.answer system = some (answer, next) ∧
      (command.SucceedsWith answer.value → next.Ready deviceSize ∧
        NamedStore.Step (system.world.RoomToCreate command) system.world.namedStore command answer next.world.namedStore) := by
  obtain ⟨shared, rest⟩ := ready.rest
  obtain ⟨own, nodes, root, entries, orderly⟩ := rest
  obtain ⟨answer, flatNext, ran, same⟩ := orderly.answer plain
  obtain ⟨next, cached, rfl⟩ := runCached_of_run ready.coherent ran
  refine ⟨answer, next, cached, fun succeeds => ?_⟩
  obtain ⟨restAfter, step⟩ := same succeeds
  have kept := orderly.atRest.keepsMap plain (World.command_of_answer ran)
  refine ⟨⟨runCached_coherent ready.coherent cached, ⟨shared, restAfter⟩, kept.limit.trans ready.limit, fun noFailure => ?_⟩, step⟩
  -- the failures only grow, so there was none before either
  have failures : next.world.mem.allocationFailures = system.world.mem.allocationFailures :=
    Nat.le_antisymm (noFailure ▸ Nat.zero_le _) kept.failures
  rw [kept.zero failures, kept.inode]
  exact ready.stored (failures.symm.trans noFailure)

/-- A shutdown leaves a device from which the machine can be started again. -/
theorem System.Ready.restart (ready : system.Ready deviceSize) (noFailure : system.mem.allocationFailures = 0) :
    ∃ last, runCached filesysDone system = some ((), last) ∧
      ∀ (garbage : Nat → UInt8) (power : Cache), power.device = last.cache.device →
        ∃ again, runCached (filesysInit false) (.boot deviceSize garbage power) = some ((), again) ∧ again.Ready deviceSize ∧
          again.world.namedStore = system.world.namedStore.closeAll := by
  obtain ⟨shared, own, nodes, root, entries, orderly⟩ := ready.rest
  obtain ⟨after, closes⟩ := orderly.filesysDone
  refine ⟨⟨after, system.cache.bufferCacheClose⟩, ?_, fun garbage power sameDevice => ?_⟩
  · have closes : filesysDone system.mem = .flush (.done ((), after)) := closes
    rw [runCached, closes]
    rfl
  have device : power.device = system.world.disk := sameDevice.trans (Cache.bufferCacheClose_spec ready.coherent).2.2
  have booted := System.boot_coherent deviceSize garbage power
  obtain ⟨flat, ran, _⟩ := orderly.restart ready.limit (ready.stored noFailure) garbage
  obtain ⟨sharedAfter, rest, limit, stored, store⟩ := orderly.restarts ready.limit (ready.stored noFailure) ran
  rw [← device, ← System.boot_world deviceSize garbage power] at ran
  obtain ⟨again, cached, rfl⟩ := runCached_of_run booted ran
  exact ⟨again, cached, ⟨runCached_coherent booted cached, ⟨sharedAfter, rest⟩, limit, fun _ => stored⟩, store⟩

/-- A turn of the system is a turn of its store. -/
theorem System.Ready.turn (ready : system.Ready deviceSize) (turn : system.Turn deviceSize event last) :
    last.Ready deviceSize ∧ NamedStore.Turn system.world.namedStore event last.world.namedStore := by
  cases turn with
  | command plain ran succeeds =>
      obtain ⟨answer, next, again, same⟩ := ready.answer plain
      rw [ran, Option.some.injEq, Prod.mk.injEq] at again
      obtain ⟨rfl, rfl⟩ := again
      obtain ⟨readyAfter, step⟩ := same succeeds
      exact ⟨readyAfter, .command step⟩
  | restart noFailure stops device starts =>
      obtain ⟨stopped, again, restarts⟩ := ready.restart noFailure
      rw [stops, Option.some.injEq, Prod.mk.injEq] at again
      obtain ⟨-, rfl⟩ := again
      obtain ⟨started, startsAgain, readyAfter, store⟩ := restarts _ _ device
      rw [starts, Option.some.injEq, Prod.mk.injEq] at startsAgain
      obtain ⟨-, rfl⟩ := startsAgain
      exact ⟨readyAfter, store ▸ .restart⟩

/-- After a format the store is empty. -/
theorem System.ready_format {power : Cache} (fits : FormatFits deviceSize)
    (formatted : runCached (filesysInit true) (.boot deviceSize garbage power) = some ((), start)) :
    start.Ready deviceSize ∧ start.world.namedStore = Lib.NamedFiles.empty ∧ start.mem.allocationFailures = 0 := by
  have booted := System.boot_coherent deviceSize garbage power
  have flat := run_of_runCached booted formatted
  rw [System.boot_world] at flat
  obtain ⟨world, own, shared, nodes, ran, fresh⟩ := filesysInit_format garbage power.device fits
  rw [flat, Option.some.injEq, Prod.mk.injEq] at ran
  obtain ⟨-, rfl⟩ := ran
  obtain ⟨own', root, orderly⟩ := fresh.orderly
  obtain ⟨pointer, freeMap, _, started, nodesEq, onDisk, _⟩ := fresh.nodes
  have present : nodes 0 = some freeMap := by
    rw [nodesEq, Function.update_of_ne (by decide), Function.update_self]
  refine ⟨⟨runCached_coherent booted formatted, ⟨shared, orderly.atRest⟩, fresh.limit, fun _ => ?_⟩,
    Lib.NamedFiles.ext (funext fun name => ?_) (funext fun name => ?_), started.allocationFailures⟩
  · rw [fresh.volume.inodeData_eq present, onDisk]
  · exact orderly.toAtPrompt.files_unnamed fun sector => not_named_newEntries _ _ _ sector
  · exact congrArg Int.toNat (started.position name)

theorem System.Ready.runs (ready : start.Ready deviceSize) (runs : Lib.Runs (System.Turn deviceSize) start events system) :
    Lib.Runs NamedStore.Turn start.world.namedStore events system.world.namedStore ∧ system.Ready deviceSize := by
  obtain ⟨store, specRuns, readyAfter, same⟩ : ∃ store, Lib.Runs NamedStore.Turn start.world.namedStore events store ∧
      system.Ready deviceSize ∧ system.world.namedStore = store := by
    apply runs.simulates ⟨ready, rfl⟩
    intro system store event next holds turn
    obtain ⟨readyHere, rfl⟩ := holds
    obtain ⟨readyNext, specTurn⟩ := readyHere.turn turn
    exact ⟨_, specTurn, readyNext, rfl⟩
  exact ⟨same ▸ specRuns, readyAfter⟩

/-- From a format on, over restarts and through the buffer cache, the shell sees a store of named files, and neither a plain
command nor, as long as no allocation failed, a restart runs into undefined behaviour. -/
theorem turns_refine_namedStore {power : Cache} (fits : FormatFits deviceSize)
    (formatted : runCached (filesysInit true) (.boot deviceSize garbage power) = some ((), start))
    (runs : Lib.Runs (System.Turn deviceSize) start events system) :
    Lib.Runs NamedStore.Turn Lib.NamedFiles.empty events system.world.namedStore ∧
      (∀ command : ShellCommand, command.Plain → ∃ answer next, runCached command.answer system = some (answer, next)) ∧
      (system.mem.allocationFailures = 0 → ∃ last, runCached filesysDone system = some ((), last) ∧
        ∀ (garbageAfter : Nat → UInt8) (powerAfter : Cache), powerAfter.device = last.cache.device →
          ∃ again, runCached (filesysInit false) (.boot deviceSize garbageAfter powerAfter) = some ((), again)) := by
  obtain ⟨ready, store, _⟩ := System.ready_format fits formatted
  obtain ⟨specRuns, readyAfter⟩ := ready.runs runs
  refine ⟨store ▸ specRuns, fun command plain => ?_, fun noFailure => ?_⟩
  · obtain ⟨answer, next, ran, _⟩ := readyAfter.answer plain
    exact ⟨answer, next, ran⟩
  · obtain ⟨last, stops, restarts⟩ := readyAfter.restart noFailure
    refine ⟨last, stops, fun garbageAfter powerAfter device => ?_⟩
    obtain ⟨again, starts, _⟩ := restarts garbageAfter powerAfter device
    exact ⟨again, starts⟩

/-- A plain command that has room is a turn of the system. -/
theorem System.Ready.roomyStep (ready : system.Ready deviceSize) {command : ShellCommand}
    (step : World.RoomyStep system.world command world) : ∃ answer next, runCached command.answer system = some (answer, next) ∧
      command.SucceedsWith answer.value ∧ next.Ready deviceSize ∧ next.world = world := by
  obtain ⟨plain, room, ran⟩ := step
  obtain ⟨answer, next, cached, steps⟩ := ready.answer plain
  have flat := run_of_runCached ready.coherent cached
  obtain ⟨_, _, _, _, _, orderly⟩ := ready.rest
  have succeeds := (orderly.roomFor_succeeds plain room).answer flat
  exact ⟨answer, next, cached, succeeds, (steps succeeds).1, Option.some.inj ((World.command_of_answer flat).symm.trans ran)⟩

/-- A run of plain commands that have room is a run of the system. -/
theorem System.Ready.roomyRuns {commands : List ShellCommand} (ready : start.Ready deviceSize)
    (runs : Lib.Runs World.RoomyStep start.world commands world) : ∃ events system,
      Lib.Runs (System.Turn deviceSize) start events system ∧ system.Ready deviceSize ∧ system.world = world ∧
      events.filterMap Event.answered = commands := by
  induction runs with
  | start => exact ⟨[], start, .start, ready, rfl, rfl⟩
  | step _ step ih =>
      obtain ⟨events, system, turns, readyHere, rfl, same⟩ := ih
      obtain ⟨answer, next, ran, succeeds, readyNext, nextEq⟩ := readyHere.roomyStep step
      refine ⟨_, next, turns.step (.command step.1 ran succeeds), readyNext, nextEq, ?_⟩
      rw [List.filterMap_append, same]
      rfl

/-- A plain command that is no write is a turn of the system. -/
theorem System.Ready.turnOf (ready : system.Ready deviceSize) {command : ShellCommand} (plain : command.Plain)
    (noWrite : ∀ value, command.SucceedsWith value) : ∃ answer next,
      System.Turn deviceSize system (.command (system.world.RoomToCreate command) command answer) next ∧
      next.Ready deviceSize := by
  obtain ⟨answer, next, ran, steps⟩ := ready.answer plain
  exact ⟨answer, next, .command plain ran (noWrite _), (steps (noWrite _)).1⟩

/-- A device of 300 sectors after commands of every kind. -/
theorem used_system {power : Cache} (device : power.device = fun _ => zeros) :
    ∃ start system : System, ∃ events first second third,
      runCached (filesysInit true) (.boot 300 (fun _ => 0) power) = some ((), start) ∧ start.Ready 300 ∧
      Lib.Runs (System.Turn 300) start events system ∧ system.Ready 300 ∧ events.filterMap Event.answered = usedCommands ∧
      (∀ name sector, Named system.world.rootEntries name sector ↔
        name = [97] ∧ sector = first ∨ name = [98] ∧ sector = second ∨ name = [100] ∧ sector = third) ∧
      (system.world.inodeData first).length = 512 ∧ system.mem.allocationFailures = 0 := by
  obtain ⟨fresh, world, _, first, second, third, formatted, runs, _, names, firstLength, _, _, _, _, noFailure⟩ := used_small
  rw [← device, ← System.boot_world] at formatted
  obtain ⟨start, cached, rfl⟩ := runCached_of_run (System.boot_coherent 300 (fun _ => 0) power) formatted
  obtain ⟨ready, _⟩ := System.ready_format formatFits_small cached
  obtain ⟨events, system, turns, readyAfter, rfl, same⟩ := ready.roomyRuns runs
  exact ⟨start, system, events, first, second, third, cached, ready, turns, readyAfter, same, names, firstLength, noFailure⟩

/-- Commands of every kind, a restart, and a look at what it left. -/
theorem turns_refine_namedStore_small : ∃ start system : System, ∃ events,
    runCached (filesysInit true) (.boot 300 (fun _ => 0) ⟨fun _ => ⟨false, 0, zeros, false, false⟩, 0, fun _ => zeros⟩) =
        some ((), start) ∧
      Lib.Runs (System.Turn 300) start events system ∧ .restart ∈ events ∧
      events.filterMap Event.answered = usedCommands ++ [.read [98] 5, .ls] ∧
      Lib.Runs NamedStore.Turn Lib.NamedFiles.empty events system.world.namedStore := by
  obtain ⟨power, powerEq⟩ : ∃ power : Cache, power = ⟨fun _ => ⟨false, 0, zeros, false, false⟩, 0, fun _ => zeros⟩ := ⟨_, rfl⟩
  have device : power.device = fun _ => zeros := by rw [powerEq]
  obtain ⟨start, used, events, _, _, _, cached, _, runs, ready, same, _, _, noFailure⟩ := used_system device
  obtain ⟨last, stops, restarts⟩ := ready.restart noFailure
  obtain ⟨again, starts, readyAgain, _⟩ := restarts (fun _ => 1) last.cache rfl
  have plain : ShellCommand.Plain (.read [98] 5) := plainName_b
  obtain ⟨_, between, reads, readyBetween⟩ := readyAgain.turnOf plain fun _ => trivial
  have plainLs : ShellCommand.Plain .ls := trivial
  obtain ⟨_, system, lists, _⟩ := readyBetween.turnOf plainLs fun _ => trivial
  have turns := ((runs.step (.restart noFailure stops rfl starts)).step reads).step lists
  refine ⟨start, system, _, powerEq ▸ cached, turns, ?_, ?_, (turns_refine_namedStore formatFits_small cached turns).1⟩
  · simp
  · simp only [List.filterMap_append, same, List.append_assoc]
    rfl

/-- The event creates, writes or removes the file. -/
def Event.Touches (name : CString) : Event → Prop
  | .command _ (.create other _) _ | .command _ (.write other _ _) _ | .command _ (.rm other) _ => other = name
  | _ => False

theorem NamedStore.Turn.files {store next : NamedStore} (turn : NamedStore.Turn store event next)
    (apart : ¬ event.Touches name) : next.files name = store.files name := by
  cases turn with
  | restart => rfl
  | command step =>
      cases step with
      | created => exact Lib.NamedFiles.files_put_of_ne _ _ fun same => apart same.symm
      | written => exact Lib.NamedFiles.files_put_of_ne _ _ fun same => apart same.symm
      | removed => exact Lib.NamedFiles.files_remove_of_ne _ fun same => apart same.symm
      | _ => rfl

theorem NamedStore.runs_files {store next : NamedStore} (runs : Lib.Runs NamedStore.Turn store events next)
    (apart : ∀ event ∈ events, ¬ event.Touches name) : next.files name = store.files name := by
  induction runs with
  | start => rfl
  | step _ turn ih =>
      rw [turn.files (apart _ (List.mem_append_right _ (List.mem_singleton_self _))),
        ih fun event member => apart event (List.mem_append_left _ member)]

theorem NamedStore.Step.cat_answer {store next : NamedStore} {room : Prop} {answer : Answer}
    (step : NamedStore.Step room store (.cat name) answer next) :
    answer = (store.files name).elim ⟨-1, [], []⟩ fun bytes => ⟨0, bytes, []⟩ := by
  cases step with
  | printed present => rw [present]; rfl
  | missing uses absent =>
      obtain rfl := Option.some.inj uses
      rw [absent]
      rfl

theorem System.Ready.cat_answer (ready : system.Ready deviceSize) (plain : PlainName name) {answer : Answer}
    (ran : runCached (ShellCommand.cat name).answer system = some (answer, last)) :
    answer = (system.world.namedStore.files name).elim ⟨-1, [], []⟩ fun bytes => ⟨0, bytes, []⟩ := by
  have plain : ShellCommand.Plain (.cat name) := plain
  obtain ⟨_, _, again, same⟩ := ready.answer plain
  rw [ran, Option.some.injEq, Prod.mk.injEq] at again
  obtain ⟨rfl, rfl⟩ := again
  exact (same trivial).2.cat_answer

/-- What `cat` prints of a file stays through commands on other files, reads of it and restarts. -/
theorem cat_kept {power : Cache} {later nextBefore nextAfter : System} {eventsAfter : List Event} {before after : Answer}
    (fits : FormatFits deviceSize)
    (formatted : runCached (filesysInit true) (.boot deviceSize garbage power) = some ((), start))
    (runs : Lib.Runs (System.Turn deviceSize) start events system)
    (runsOn : Lib.Runs (System.Turn deviceSize) system eventsAfter later)
    (apart : ∀ event ∈ eventsAfter, ¬ event.Touches name) (plain : PlainName name)
    (printsBefore : runCached (ShellCommand.cat name).answer system = some (before, nextBefore))
    (printsAfter : runCached (ShellCommand.cat name).answer later = some (after, nextAfter)) : after = before := by
  obtain ⟨ready, _, _⟩ := System.ready_format fits formatted
  obtain ⟨_, readyHere⟩ := ready.runs runs
  obtain ⟨storeRuns, readyLater⟩ := readyHere.runs runsOn
  rw [readyHere.cat_answer plain printsBefore, readyLater.cat_answer plain printsAfter, NamedStore.runs_files storeRuns apart]

/-- After commands of every kind `cat` prints the file a; it prints it again after a restart and the removal of d. -/
theorem cat_kept_small : ∃ start system later nextBefore nextAfter : System, ∃ events eventsAfter before after bytes,
    runCached (filesysInit true) (.boot 300 (fun _ => 0) ⟨fun _ => ⟨false, 0, zeros, false, false⟩, 0, fun _ => zeros⟩) =
        some ((), start) ∧
      Lib.Runs (System.Turn 300) start events system ∧ events.filterMap Event.answered = usedCommands ∧
      Lib.Runs (System.Turn 300) system eventsAfter later ∧ .restart ∈ eventsAfter ∧
      eventsAfter.filterMap Event.answered = [.read [97] 1, .rm [100]] ∧
      runCached (ShellCommand.cat [97]).answer system = some (before, nextBefore) ∧ before = ⟨0, bytes, []⟩ ∧
      bytes.length = 512 ∧ runCached (ShellCommand.cat [97]).answer later = some (after, nextAfter) ∧ after = before := by
  obtain ⟨power, powerEq⟩ : ∃ power : Cache, power = ⟨fun _ => ⟨false, 0, zeros, false, false⟩, 0, fun _ => zeros⟩ := ⟨_, rfl⟩
  have device : power.device = fun _ => zeros := by rw [powerEq]
  obtain ⟨start, system, events, first, _, _, cached, _, runs, ready, same, names, length, noFailure⟩ := used_system device
  have plain : ShellCommand.Plain (.cat [97]) := plainName_a
  obtain ⟨before, nextBefore, printsBefore, _⟩ := ready.answer plain
  -- the file is there and has 512 bytes
  obtain ⟨_, _, _, _, entries, orderly⟩ := ready.rest
  have named : Named entries [97] first := orderly.toMounted.rootEntries ▸ (names _ _).mpr (.inl ⟨rfl, rfl⟩)
  obtain ⟨_, _, _, data, present, _⟩ := orderly.regular _ _ named
  have answer := ready.cat_answer plainName_a printsBefore
  rw [orderly.toAtPrompt.files_named named present] at answer
  have bytes : (fileBytes system.world.disk data).length = 512 := by
    rw [orderly.toMounted.inodeData present] at length
    rw [fileBytes, length_bytesAt, length]
    rfl
  -- a restart and commands on other files
  obtain ⟨last, stops, restarts⟩ := ready.restart noFailure
  obtain ⟨again, starts, readyAgain, _⟩ := restarts (fun _ => 1) last.cache rfl
  have plainRead : ShellCommand.Plain (.read [97] 1) := plainName_a
  obtain ⟨_, between, reads, readyBetween⟩ := readyAgain.turnOf plainRead fun _ => trivial
  have plainRm : ShellCommand.Plain (.rm [100]) := plainName_d
  obtain ⟨_, later, removes, readyLater⟩ := readyBetween.turnOf plainRm fun _ => trivial
  obtain ⟨after, nextAfter, printsAfter, _⟩ := readyLater.answer plain
  have runsOn := ((Lib.Runs.start.step (System.Turn.restart noFailure stops rfl starts)).step reads).step removes
  refine ⟨start, system, later, nextBefore, nextAfter, events, _, before, after, _, powerEq ▸ cached, runs, same, runsOn, ?_, rfl,
    printsBefore, answer, bytes, printsAfter, ?_⟩
  · simp
  · refine cat_kept formatFits_small cached runs runsOn (fun event member => ?_) plainName_a printsBefore printsAfter
    simp only [List.nil_append, List.cons_append, List.mem_cons, List.not_mem_nil, or_false] at member
    rcases member with rfl | rfl | rfl
    · exact not_false
    · exact not_false
    · exact fun touches : ([100] : CString) = [97] => absurd touches (by decide)

end Turns

end MockOS.Fs
