import MockOS.Fs.CachedRuns
import MockOS.Fs.FreeMapInode

namespace MockOS.Fs

variable {A B : Type} {shared : BlockSector → Prop} {own : Owners} {world next : World} {nodes : Nodes}
  {sector : BlockSector} {pointer file inode : Pointer} {root data : InodeDisk} {entries : List DirEntry} {pos : Int}
  {mem middle : Mem}

/-- An action that makes no request is followed by the next one. -/
theorem bind_done {action : Action A} {rest : A → Action B} {value : A} (first : action mem = .done (value, middle)) :
    (action >>= rest) mem = rest value middle := by
  change (action mem >>= fun result => rest result.1 result.2) = _
  rw [first]
  rfl

theorem getInode_done {object : Inode} (live : mem.inodes inode = some object) :
    getInode inode mem = .done (object, mem) := by
  change deref (mem.inodes inode) mem = _
  rw [live]
  rfl

theorem getFile_done {object : File} (live : mem.files file = some object) :
    getFile file mem = .done (object, mem) := by
  change deref (mem.files file) mem = _
  rw [live]
  rfl

/-- The last reference to an inode that is not removed is dropped without a request. -/
theorem inodeClose_done (live : mem.inodes inode = some (.live sector data)) :
    inodeClose (some inode) mem = .done ((), mem.closeInode inode) := by
  rw [inodeClose, bind_done (getInode_done live)]
  change Lib.StoreProgram.done _ = _
  simp only [Function.update_idem, Mem.closeInode]

theorem fileClose_done (object : mem.files file = some ⟨inode, pos, false⟩)
    (live : mem.inodes inode = some (.live sector data)) :
    fileClose (some file) mem = .done ((), mem.closeFreeMap file inode) := by
  have allows : fileAllowWrite file mem = .done ((), mem) := by
    rw [fileAllowWrite, bind_done (getFile_done object)]
    rfl
  rw [fileClose, bind_done allows, bind_done (getFile_done object), bind_done (inodeClose_done live)]
  rfl

/-- The files of the entries are open, each with an inode of its own. -/
structure Mem.Holds (mem : Mem) (listed : List (CString × Pointer)) : Prop where
  object : ∀ entry ∈ listed, ∃ inode pos sector data,
    mem.files entry.2 = some ⟨inode, pos, false⟩ ∧ mem.inodes inode = some (.live sector data)
  apart : ∀ first ∈ listed, ∀ second ∈ listed, ∀ one two, mem.files first.2 = some one → mem.files second.2 = some two →
    one.inode = two.inode → first.2 = second.2
  distinct : (listed.map Prod.snd).Nodup

/-- One file is closed. -/
theorem Mem.Holds.closeFile {listed : List (CString × Pointer)} (holds : mem.Holds listed) (others : ∀ entry ∈ listed, entry.2 ≠ file)
    (alone : ∀ entry ∈ listed, ∀ other, mem.files entry.2 = some other → other.inode ≠ inode) :
    (mem.closeFreeMap file inode).Holds listed := by
  have same : ∀ entry ∈ listed, (mem.closeFreeMap file inode).files entry.2 = mem.files entry.2 :=
    fun entry member => Function.update_of_ne (others entry member) _ _
  refine ⟨fun entry member => ?_, fun first one second two oneObject twoObject here there => ?_, holds.distinct⟩
  · obtain ⟨held, heldPos, sector, data, there, live⟩ := holds.object entry member
    refine ⟨held, heldPos, sector, data, (same entry member).trans there, ?_⟩
    exact (Function.update_of_ne (alone entry member _ there) _ _).trans live
  · rw [same first one] at here
    rw [same second two] at there
    exact holds.apart first one second two oneObject twoObject here there

/-- The files of the table are closed without a request. -/
theorem closeEntries_done (listed : List (CString × Pointer)) (mem : Mem) (holds : mem.Holds listed) :
    ∃ after, closeEntries listed mem = .done ((), after) := by
  induction listed generalizing mem with
  | nil => exact ⟨mem, rfl⟩
  | cons entry rest ih =>
      obtain ⟨name, file⟩ := entry
      obtain ⟨inode, pos, sector, data, object, live⟩ := holds.object _ (List.mem_cons_self ..)
      have distinct := holds.distinct
      rw [List.map_cons, List.nodup_cons] at distinct
      have others : ∀ entry ∈ rest, entry.2 ≠ file := by
        intro entry member same
        have listed : entry.2 ∈ rest.map Prod.snd := List.mem_map_of_mem member
        exact distinct.1 (same ▸ listed)
      have restHolds : Mem.Holds { mem with fileTable := rest } rest :=
        ⟨fun entry member => holds.object entry (List.mem_cons_of_mem _ member),
          fun first one second two => holds.apart first (List.mem_cons_of_mem _ one) second (List.mem_cons_of_mem _ two),
          distinct.2⟩
      have alone : ∀ entry ∈ rest, ∀ other, mem.files entry.2 = some other → other.inode ≠ inode := by
        intro entry member other there same
        exact others entry member
          (holds.apart entry (List.mem_cons_of_mem _ member) _ (List.mem_cons_self ..) _ _ there object same)
      obtain ⟨after, closes⟩ := ih _ (restHolds.closeFile others alone)
      have drops : (modify fun mem => { mem with fileTable := rest } : Action Unit) mem =
          .done ((), { mem with fileTable := rest }) := rfl
      have first : fileClose (some file) { mem with fileTable := rest } = .done ((), _) :=
        fileClose_done object live
      refine ⟨after, ?_⟩
      rw [closeEntries, bind_done drops, bind_done first, closes]

namespace Orderly

theorem holdsTable (orderly : Orderly own shared nodes root entries world) : world.mem.Holds world.mem.fileTable where
  object entry member := by
    obtain ⟨object, here⟩ := Option.ne_none_iff_exists'.mp (orderly.tracked.listed entry member)
    obtain ⟨isOpen, writable⟩ := orderly.tracked.live _ _ here
    obtain ⟨sector, data, live⟩ := orderly.tracked.single _ isOpen
    exact ⟨object.inode, object.pos, sector, data, by rw [here, ← writable], live⟩
  apart _ _ _ _ _ _ here there same := orderly.tracked.apart _ _ _ _ here there same
  distinct := orderly.tracked.distinct

/-- `filesys_done` makes no request but the flush of the cache. -/
theorem filesysDone (orderly : Orderly own shared nodes root entries world) :
    ∃ after, MockOS.Fs.filesysDone world.mem = .flush (.done ((), after)) := by
  obtain ⟨mapPointer, mapFile, data, opened, _, _⟩ := orderly.volume.freeMap
  have object : world.mem.files mapPointer = some ⟨mapFile.inode, mapFile.pos, false⟩ := by
    rw [opened.liveFile, ← (orderly.tracked.live _ _ opened.liveFile).2]
  have closesMap : freeMapClose world.mem = .done ((), world.mem.closeFreeMap mapPointer mapFile.inode) := by
    change fileClose world.mem.freeMapFile world.mem = _
    rw [opened.opened]
    exact fileClose_done object opened.liveInode
  have others : ∀ entry ∈ world.mem.fileTable, entry.2 ≠ mapPointer := by
    rintro entry member rfl
    exact orderly.handles.freeMapFile entry member opened.opened
  have alone : ∀ entry ∈ world.mem.fileTable, ∀ other, world.mem.files entry.2 = some other → other.inode ≠ mapFile.inode :=
    fun entry member other there same => others entry member (orderly.tracked.apart _ _ _ _ there object same)
  obtain ⟨after, closes⟩ := closeEntries_done _ _ (orderly.holdsTable.closeFile others alone)
  refine ⟨after, ?_⟩
  rw [MockOS.Fs.filesysDone, bind_done closesMap]
  exact congrArg Lib.StoreProgram.flush closes

end Orderly

/-- The inodes when they are all read from the disk again. -/
def savedNodes (nodes : Nodes) (disk : BlockSector → Sector) : Nodes := fun sector =>
  (nodes sector).map fun _ => .ofSector (disk sector)

/-- A volume whose free map inode is on the disk leaves an image, which has all that the lengths of the inodes need. -/
theorem Volume.saved (volume : Volume own shared nodes world)
    (stored : InodeDisk.ofSector (world.disk 0) = world.inodeData 0) :
    ∃ freeMap, Image own (savedNodes nodes world.disk) world.disk world.limit world.mem.freeMap.bits freeMap := by
  obtain ⟨pointer, file, data, opened, copy, member⟩ := volume.freeMap
  have present := volume.table.node ⟨member, opened.liveInode⟩
  rw [volume.inodeData_eq present] at stored
  refine ⟨data, volume.sound.used, volume.sound.zero, volume.sound.self, volume.sound.reserved, opened.positive,
    volume.sound.small, fun sector saved there => ?_, fun sector saved there => ?_, ?_, opened.length, copy⟩
  · obtain ⟨before, here, rfl⟩ := Option.map_eq_some_iff.mp there
    by_cases zero : sector = 0
    · subst zero
      rw [present, Option.some.injEq] at here
      rw [stored, here]
      exact volume.node 0 before (here ▸ present)
    · exact (volume.node sector before here).reload zero
  · obtain ⟨before, _, rfl⟩ := Option.map_eq_some_iff.mp there
    rfl
  · rw [savedNodes, present, Option.map_some, stored]

/-- `filesys_init` starts from an image. -/
theorem Image.filesysInit {deviceSize : UInt32} {disk : BlockSector → Sector} {map : Nat → Bool}
    (image : Image own nodes disk (mapBits deviceSize) map data) (garbage : Nat → UInt8) : ∃ mem,
    run (MockOS.Fs.filesysInit false) ⟨.boot deviceSize garbage, disk⟩ = some ((), ⟨mem, disk⟩) ∧
      Volume own (sharedSectors disk data) nodes ⟨mem, disk⟩ ∧ mem.freeMap.bitCnt = mapBits deviceSize ∧
      ∀ index < mapBits deviceSize, mem.freeMap.bits index = map index := by
  obtain ⟨begun, begunEq⟩ : ∃ begun : World, begun =
    ⟨{ Mem.boot deviceSize garbage with freeMap := initialMap (mapBits deviceSize) }, disk⟩ := ⟨_, rfl⟩
  have initialized : run freeMapInit ⟨.boot deviceSize garbage, disk⟩ = some ((), begun) := by
    rw [begunEq]
    exact run_freeMapInit image.positive
  have rest : begun.mem.AtRest := by
    rw [begunEq]
    exact ⟨rfl, fun _ _ => ⟨rfl, rfl, rfl⟩⟩
  have sameDisk : begun.disk = disk := by rw [begunEq]
  have limit : begun.limit = mapBits deviceSize := by rw [begunEq]; rfl
  rw [← sameDisk, ← limit] at image
  obtain ⟨mem, opens, volume, _, bitCnt, bits⟩ := image.freeMapOpen rest
  rw [sameDisk] at opens volume
  rw [limit] at bitCnt bits
  refine ⟨{ mem with fileTable := [] }, ?_, volume.heap rfl rfl (fun _ _ => rfl) (Nat.le_refl _) fun above late =>
    (volume.table.fresh above late).2, bitCnt, bits⟩
  rw [MockOS.Fs.filesysInit, run_bind, inodeInit, run_modify, Option.bind_some, run_bind]
  change (run freeMapInit ⟨.boot deviceSize garbage, disk⟩).bind _ = _
  rw [initialized, Option.bind_some, if_neg Bool.false_ne_true, run_bind]
  change (run MockOS.Fs.freeMapOpen begun).bind _ = _
  rw [opens]
  rfl

/-- The free map, the names and the files are the same. -/
structure SameVolume (world next : World) : Prop where
  limit : next.limit = world.limit
  freeMap : ∀ index < world.limit, next.mem.freeMap.bits index = world.mem.freeMap.bits index
  entries : next.rootEntries = world.rootEntries
  files : ∀ name sector, Named world.rootEntries name sector →
    (next.inodeData sector).length = (world.inodeData sector).length ∧ next.inodeBytes sector = world.inodeBytes sector

/-- A start from the disk of an orderly state. -/
theorem Orderly.restart {deviceSize : UInt32} (orderly : Orderly own shared nodes root entries world)
    (limit : world.limit = mapBits deviceSize) (stored : InodeDisk.ofSector (world.disk 0) = world.inodeData 0)
    (garbage : Nat → UInt8) : ∃ again,
    run (MockOS.Fs.filesysInit false) ⟨.boot deviceSize garbage, world.disk⟩ = some ((), again) ∧ SameVolume world again := by
  obtain ⟨freeMap, image⟩ := orderly.volume.saved stored
  rw [limit] at image
  obtain ⟨mem, ran, volume, bitCnt, bits⟩ := image.filesysInit garbage
  have reloaded : ∀ {sector data}, sector ≠ 0 → nodes sector = some data →
      (World.inodeData ⟨mem, world.disk⟩ sector).length = (world.inodeData sector).length ∧
        World.inodeBytes ⟨mem, world.disk⟩ sector = world.inodeBytes sector := by
    intro sector data nonzero present
    have node := orderly.volume.node sector data present
    have saved : savedNodes nodes world.disk sector = some (.ofSector (world.disk sector)) := by
      rw [savedNodes, present, Option.map_some]
    rw [World.inodeBytes, World.inodeBytes, volume.inodeData_eq saved, orderly.volume.inodeData_eq present]
    exact ⟨(node.stored nonzero).length, node.fileBytes_reload nonzero⟩
  refine ⟨_, ran, bitCnt.trans limit.symm, fun index inside => bits index (limit ▸ inside), ?_, fun name sector named => ?_⟩
  · rw [World.rootEntries, (reloaded (by decide) orderly.present).2, World.rootEntries]
  · rw [orderly.toMounted.rootEntries] at named
    obtain ⟨_, nonzero, _, data, present, _⟩ := orderly.regular name sector named
    exact reloaded nonzero present

section Format

variable {deviceSize : UInt32} {garbage : Nat → UInt8}

/-- The free map inode is on the disk as long as no allocation has failed. -/
theorem plainRun_stored {disk : BlockSector → Sector} {start : World} (fits : FormatFits deviceSize)
    (formatted : run (filesysInit true) ⟨.boot deviceSize garbage, disk⟩ = some ((), start))
    (reached : start.PlainRun world) (noFailure : world.mem.allocationFailures = 0) :
    world.limit = mapBits deviceSize ∧ InodeDisk.ofSector (world.disk 0) = world.inodeData 0 := by
  obtain ⟨begun, own, shared, nodes, ran, fresh⟩ := filesysInit_format garbage disk fits
  rw [formatted, Option.some.injEq, Prod.mk.injEq] at ran
  obtain ⟨-, rfl⟩ := ran
  obtain ⟨own', root, orderly⟩ := fresh.orderly
  obtain ⟨pointer, freeMap, _, started, nodesEq, onDisk, _⟩ := fresh.nodes
  have kept := reached.keepsMap orderly.atRest
  have present : nodes 0 = some freeMap := by
    rw [nodesEq, Function.update_of_ne (by decide), Function.update_self]
  refine ⟨kept.limit.trans fresh.limit, ?_⟩
  rw [kept.zero (noFailure.trans started.allocationFailures.symm), kept.inode, fresh.volume.inodeData_eq present, onDisk]

/-- What was there when the system was shut down is there when it is started again on the same device. -/
theorem restart_sameVolume {garbageAfter : Nat → UInt8} {power : Cache} {start system : System} (fits : FormatFits deviceSize)
    (formatted : runCached (filesysInit true) (.boot deviceSize garbage power) = some ((), start))
    (reached : start.PlainRun system) (noFailure : system.mem.allocationFailures = 0) :
    ∃ last, runCached filesysDone system = some ((), last) ∧ ∀ powerAfter : Cache, powerAfter.device = last.cache.device →
      ∃ again, runCached (filesysInit false) (.boot deviceSize garbageAfter powerAfter) = some ((), again) ∧
        SameVolume system.world again.world := by
  have booted := System.boot_coherent deviceSize garbage power
  have formattedWorld := run_of_runCached booted formatted
  rw [System.boot_world] at formattedWorld
  obtain ⟨reachedWorld, coherent⟩ := reached.world (runCached_coherent booted formatted)
  obtain ⟨shared, own, nodes, root, entries, orderly⟩ := plainRun_atRest fits formattedWorld reachedWorld
  obtain ⟨limit, stored⟩ := plainRun_stored fits formattedWorld reachedWorld noFailure
  obtain ⟨after, closes⟩ := orderly.filesysDone
  refine ⟨⟨after, system.cache.bufferCacheClose⟩, ?_, fun powerAfter sameDevice => ?_⟩
  · have closes : filesysDone system.mem = .flush (.done ((), after)) := closes
    rw [runCached, closes]
    rfl
  -- the device holds what the cache showed
  have device : powerAfter.device = system.world.disk := sameDevice.trans (Cache.bufferCacheClose_spec coherent).2.2
  obtain ⟨last, ran, same⟩ := orderly.restart limit stored garbageAfter
  rw [← device, ← System.boot_world deviceSize garbageAfter powerAfter] at ran
  obtain ⟨again, cached, rfl⟩ := runCached_of_run (System.boot_coherent deviceSize garbageAfter powerAfter) ran
  exact ⟨again, cached, same⟩

end Format

/-- A device of 300 sectors on which a file is created before the system is shut down. -/
theorem restart_sameVolume_small : ∃ start system last again : System, ∃ sector,
    runCached (filesysInit true) (.boot 300 (fun _ => 0) ⟨fun _ => ⟨false, 0, zeros, false, false⟩, 0, fun _ => zeros⟩) =
        some ((), start) ∧ start.PlainRun system ∧ Named system.world.rootEntries [97] sector ∧
      runCached filesysDone system = some ((), last) ∧
      runCached (filesysInit false) (.boot 300 (fun _ => 1) last.cache) = some ((), again) ∧
      SameVolume system.world again.world := by
  obtain ⟨world, own, shared, nodes, root, formatted, free, _, noFailure, orderly⟩ := orderly_small
  obtain ⟨power, powerEq⟩ : ∃ power : Cache, power = ⟨fun _ => ⟨false, 0, zeros, false, false⟩, 0, fun _ => zeros⟩ := ⟨_, rfl⟩
  have booted := System.boot_coherent 300 (fun _ => 0) power
  have device : power.device = fun _ => zeros := by rw [powerEq]
  rw [← device, ← System.boot_world] at formatted
  obtain ⟨start, formattedCached, rfl⟩ := runCached_of_run booted formatted
  have maximum : maxBlocks = 16635 := rfl
  have blocks : (inodePlaces (blocksOf 600)).length = 2 := length_inodePlaces_direct (by decide)
  obtain ⟨_, own', nodes', root', sector, data, creates, orderly', _, _, _, new⟩ :=
    orderly.fsutilCreate_room plainName_a (by decide) (not_named_newEntries _ _ _) (by decide : (0 : Int) ≤ 600) (by omega)
      (by omega) freeSlot_newEntries
  have coherent := runCached_coherent booted formattedCached
  obtain ⟨system, createsCached, rfl⟩ :
      ∃ next : System, runCached (ShellCommand.create [97] 600).call start = some (1, next) ∧ next.world = _ :=
    runCached_of_run coherent creates
  have plain : ShellCommand.Plain (.create [97] 600) := plainName_a
  have reached : start.PlainRun system := .step .start plain createsCached trivial
  have named := (orderly.tidy.named_new plainName_a.nulFree (by decide) sector [97] sector).mpr (.inr ⟨rfl, rfl⟩)
  rw [← orderly'.toMounted.rootEntries] at named
  obtain ⟨last, stops, restarts⟩ :=
    restart_sameVolume formatFits_small formattedCached reached (new.failures.trans noFailure)
  obtain ⟨again, starts, same⟩ := restarts last.cache rfl
  exact ⟨start, system, last, again, sector, powerEq ▸ formattedCached, reached, named, stops, starts, same⟩

end MockOS.Fs
