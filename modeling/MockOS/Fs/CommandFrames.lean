import MockOS.Fs.RoomyRuns

namespace MockOS.Fs

/-- A bit in the bytes of the free map file. -/
def mapBit (bytes : List UInt8) (index : Nat) : Bool := (bytes.getD (index / 8) 0).toNat.testBit (index % 8)

/-- The bytes of the free map file differ only in the bits of sectors that were taken or released. -/
def SameFreeMapFile (world next : World) : Prop :=
  (next.inodeBytes 0).length = (world.inodeBytes 0).length ∧ ∀ index < world.limit,
    mapBit (next.inodeBytes 0) index ≠ mapBit (world.inodeBytes 0) index →
      next.mem.freeMap.bits index ≠ world.mem.freeMap.bits index

/-- A write to a name leaves the root directory, the free map file and the other files, and does nothing for a name that
the root directory does not have. -/
def World.WritesOnly (world : World) (name : CString) (buffer : Nat → UInt8) (size : Int) : Prop :=
  ∃ value next, run (fsutilWrite name buffer size) world = some (value, next) ∧
    next.inodeBytes 1 = world.inodeBytes 1 ∧ SameFreeMapFile world next ∧
    (∀ other sector, Named world.rootEntries other sector → other ≠ name →
      next.inodeBytes sector = world.inodeBytes sector) ∧
    ((∀ sector, ¬ Named world.rootEntries name sector) → value = -1 ∧ next.disk = world.disk ∧
      next.mem.freeMap = world.mem.freeMap)

/-- `ls` gives each name of the root directory once, and no directory stays open behind its first entry. -/
def World.Lists (world : World) : Prop :=
  (∀ dir object, world.mem.cwd = some dir → world.mem.dirs dir = some object → object.pos = 36) ∧
    (namesOf world.rootEntries).Nodup ∧ ∃ next, run fsutilLs world = some (namesOf world.rootEntries, next)

variable {shared : BlockSector → Prop} {own ownAfter : Owners} {world middle next : World} {nodes nodesAfter : Nodes}
  {sector : BlockSector} {root rootAfter data : InodeDisk} {entries entriesAfter : List DirEntry} {name path : CString}

theorem AtPrompt.lists (prompt : AtPrompt own shared nodes root entries world) : world.Lists := by
  obtain ⟨next, ran, _⟩ := prompt.fsutilLs
  refine ⟨fun dir object isOpen => ?_, ?_, next, ?_⟩
  · rw [prompt.cwd] at isOpen
    cases isOpen
  · rw [prompt.toMounted.rootEntries]
    exact prompt.tidy.nodup_namesOf
  · rw [prompt.toMounted.rootEntries]
    exact ran

/-- The bytes of an inode that a command does not change. -/
theorem AtPrompt.inodeBytes_eq (prompt : AtPrompt own shared nodes root entries world)
    (after : AtPrompt ownAfter shared nodesAfter rootAfter entriesAfter next) {changed : BlockSector → Prop}
    (same : SameBytes changed nodes nodesAfter world next) (outside : ¬ changed sector) (nonzero : sector ≠ 0)
    (present : nodes sector = some data) : next.inodeBytes sector = world.inodeBytes sector := by
  obtain ⟨dataAfter, there, bytes⟩ := same sector data outside nonzero present
  rw [World.inodeBytes, World.inodeBytes, after.toMounted.inodeData there, prompt.toMounted.inodeData present, bytes]

/-- The free map file holds the bits of the free map. -/
theorem AtPrompt.mapBit_eq (prompt : AtPrompt own shared nodes root entries world) : ∃ data, nodes 0 = some data ∧
    (world.inodeBytes 0).length = data.length.toNat ∧
    ∀ index < world.limit, mapBit (world.inodeBytes 0) index = world.mem.freeMap.bits index := by
  obtain ⟨pointer, file, data, opened, copy, member⟩ := prompt.volume.freeMap
  have present := prompt.volume.table.node ⟨member, opened.liveInode⟩
  have low := (prompt.volume.node 0 data present).low
  have length : data.length = Bitmap.byteCnt world.limit := opened.length
  rw [World.inodeBytes, prompt.toMounted.inodeData present]
  refine ⟨data, present, by rw [fileBytes, length_bytesAt], fun index small => ?_⟩
  have inside : ((index / 8 : Nat) : Int) < data.length := by
    rw [length, Bitmap.byteCnt, Bitmap.elemCnt]
    omega
  rw [mapBit, getD_fileBytes _ low, if_pos inside]
  exact copy index small

theorem AtPrompt.sameFreeMapFile (prompt : AtPrompt own shared nodes root entries world)
    (after : AtPrompt ownAfter shared nodesAfter rootAfter entriesAfter next) (zero : nodesAfter 0 = nodes 0)
    (limit : next.limit = world.limit) : SameFreeMapFile world next := by
  obtain ⟨data, present, length, bits⟩ := prompt.mapBit_eq
  obtain ⟨dataAfter, there, lengthAfter, bitsAfter⟩ := after.mapBit_eq
  rw [zero, present, Option.some.injEq] at there
  subst there
  refine ⟨lengthAfter.trans length.symm, fun index small different => ?_⟩
  rwa [bits index small, bitsAfter index (limit ▸ small)] at different

/-- A write to a name without a directory, or to one that is not there. -/
theorem AtPrompt.writesOnly (prompt : AtPrompt own shared nodes root entries world) (usable : world.Usable name)
    (nonnegative : 0 ≤ world.position name) (buffer : Nat → UInt8) {size : Int} (low : 1 ≤ size)
    (high : size < 2147483648)
    (plain : 47 ∉ name ∨ ∀ sector, ¬ Named world.rootEntries (fileName name) sector) :
    world.WritesOnly name buffer size := by
  have rootEntries := prompt.toMounted.rootEntries
  obtain ⟨value, next, ran, outcome⟩ := prompt.fsutilWrite usable nonnegative buffer low high
  refine ⟨value, next, ran, ?_⟩
  have regular : ∀ other number, Named world.rootEntries other number → number ≠ 0 ∧ ∃ data, nodes number = some data := by
    intro other number named
    rw [rootEntries] at named
    obtain ⟨_, nonzero, _, data, present, _⟩ := prompt.regular other number named
    exact ⟨nonzero, data, present⟩
  rcases outcome with ⟨_, refused, own', nodes', root', after, inMemory, same, zero⟩ |
    ⟨own', nodes', root', file, inode, sector, data, dataAfter, before, afterOwn, after, same, zero, present, _, handle,
      written⟩
  · refine ⟨prompt.inodeBytes_eq after same (fun impossible => impossible) (by decide) prompt.present,
      prompt.sameFreeMapFile after zero inMemory.limit, fun other number named _ => ?_,
      fun _ => ⟨refused, inMemory.disk, inMemory.freeMap⟩⟩
    obtain ⟨nonzero, data, present⟩ := regular other number named
    exact prompt.inodeBytes_eq after same (fun impossible => impossible) nonzero present
  · have named := handle.named
    have noSlash : 47 ∉ name := plain.resolve_right fun unnamed => unnamed sector (by rwa [rootEntries])
    have sameName : fileName name = name := fileName_eq noSlash
    rw [sameName] at named
    have limit : next.limit = world.limit := by
      rcases written with ⟨_, stores⟩ | ⟨_, keeps⟩
      · exact stores.limit
      · exact keeps.limit
    have nonroot := (prompt.regular name sector named).2.2.1
    refine ⟨prompt.inodeBytes_eq after same (fun isRoot => nonroot isRoot.symm) (by decide) prompt.present,
      prompt.sameFreeMapFile after zero limit, fun other number isNamed different => ?_, fun unnamed => ?_⟩
    · obtain ⟨nonzero, before, there⟩ := regular other number isNamed
      rw [rootEntries] at isNamed
      refine prompt.inodeBytes_eq after same (fun isSector => different ?_) nonzero there
      subst isSector
      exact prompt.tidy.name_unique isNamed named
    · exact absurd named (rootEntries ▸ unnamed sector)

section Format

variable {deviceSize : UInt32} {garbage : Nat → UInt8} {disk : BlockSector → Sector} {start : World}

/-- In every state of a safe run, `ls` lists all names. -/
theorem safeRun_lists (fits : FormatFits deviceSize)
    (formatted : run (filesysInit true) ⟨.boot deviceSize garbage, disk⟩ = some ((), start))
    (reached : start.SafeRun world) : world.Lists := by
  obtain ⟨shared, own, nodes, root, entries, prompt⟩ := safeRun_prompting fits formatted reached
  exact prompt.lists

/-- In every state of a safe run, a safe write to a name without a directory, or to one that is not there, touches
nothing else. -/
theorem safeRun_writesOnly (fits : FormatFits deviceSize)
    (formatted : run (filesysInit true) ⟨.boot deviceSize garbage, disk⟩ = some ((), start))
    (reached : start.SafeRun world) {buffer : Nat → UInt8} {size : Int} (safe : world.Safe (.write name buffer size))
    (plain : 47 ∉ name ∨ ∀ sector, ¬ Named world.rootEntries (fileName name) sector) :
    world.WritesOnly name buffer size := by
  obtain ⟨shared, own, nodes, root, entries, prompt⟩ := safeRun_prompting fits formatted reached
  obtain ⟨usable, nonnegative, low, high⟩ := safe
  exact prompt.writesOnly usable nonnegative buffer low high plain

end Format

/-- After commands of every kind, a write to the open file a leaves b and d. -/
theorem safeRun_writesOnly_small : ∃ start world first second third,
    run (filesysInit true) ⟨.boot 300 fun _ => 0, fun _ => zeros⟩ = some ((), start) ∧
      Lib.Runs World.RoomyStep start usedCommands world ∧
      (∀ name sector, Named world.rootEntries name sector ↔
        name = [97] ∧ sector = first ∨ name = [98] ∧ sector = second ∨ name = [100] ∧ sector = third) ∧
      world.position [97] = 2 ∧ world.WritesOnly [97] (fun _ => 65) 2 := by
  obtain ⟨start, world, shared, first, second, third, formatted, runs, ⟨_, _, _, _, orderly⟩, names, _, _, _, _, position, _⟩ :=
    used_small
  obtain ⟨_, rest⟩ := plainRun_atRest formatFits_small formatted .start
  have reached := ((roomyRun_of_runs runs).plainRun rest).safeRun rest
  have plain : ShellCommand.Plain (.write [97] (fun _ => 65) 2) := ⟨plainName_a, by decide, by decide⟩
  exact ⟨start, world, first, second, third, formatted, runs, names, position,
    safeRun_writesOnly formatFits_small formatted reached (orderly.safe plain).2 (.inl (by decide))⟩

/-- After commands of every kind `ls` lists a, b and d. -/
theorem safeRun_lists_small : ∃ start world first second third,
    run (filesysInit true) ⟨.boot 300 fun _ => 0, fun _ => zeros⟩ = some ((), start) ∧
      Lib.Runs World.RoomyStep start usedCommands world ∧
      (∀ name sector, Named world.rootEntries name sector ↔
        name = [97] ∧ sector = first ∨ name = [98] ∧ sector = second ∨ name = [100] ∧ sector = third) ∧ world.Lists := by
  obtain ⟨start, world, shared, first, second, third, formatted, runs, _, names, _⟩ := used_small
  obtain ⟨_, rest⟩ := plainRun_atRest formatFits_small formatted .start
  have reached := ((roomyRun_of_runs runs).plainRun rest).safeRun rest
  exact ⟨start, world, first, second, third, formatted, runs, names, safeRun_lists formatFits_small formatted reached⟩

/-- The root directory is opened as a file: its path has no file name. -/
theorem AtPrompt.commandFile_root (prompt : AtPrompt own shared nodes root entries world)
    (unlisted : world.handle [47] = none) : ∃ dir pointer file own' next,
    run (MockOS.Fs.commandFile [47]) world = some (some file, next) ∧ Volume own' shared nodes next ∧
      DirOpened next dir 1 pointer root entries ∧ next.mem.cwd = some dir ∧
      next.mem.dirs dir = some ⟨pointer, 36, 1⟩ ∧ next.mem.files file = some ⟨pointer, 0, false⟩ := by
  obtain ⟨dir, pointer, own₁, world₁, ran₁, open₁, object, quiet₁, inMemory₁, _⟩ := prompt.dirOpenRoot
  have volume₂ := open₁.volume.newFile ⟨pointer, 0, false⟩
  obtain ⟨next, nextEq⟩ : ∃ next : World, next = ⟨{ world₁.mem.newFile ⟨pointer, 0, false⟩ with
    fileTable := world₁.mem.fileTable ++ [([47], world₁.mem.nextPointer)] }, world₁.disk⟩ := ⟨_, rfl⟩
  have opens : run (MockOS.Fs.filesysOpen [47]) world =
      some (some world₁.mem.nextPointer, ⟨world₁.mem.newFile ⟨pointer, 0, false⟩, world₁.disk⟩) := by
    rw [MockOS.Fs.filesysOpen, if_neg (by decide)]
    change run (do
      let dir ← deref (← MockOS.Fs.dirOpenRoot)
      if ([] : CString) = [] then openInode (some (← dirGetInode dir))
      else do
        let inode ← dirLookup dir []
        dirClose (some dir)
        openInode inode) world = _
    rw [run_bind, ran₁, Option.bind_some, run_bind, run_deref_some, Option.bind_some, if_pos rfl, run_bind,
      open₁.dirOpened.run_dirGetInode, Option.bind_some, openInode, run_bind, inodeIsRemoved, run_bind,
      run_getInode open₁.opened.object, Option.bind_some, run_pure, Option.bind_some]
    exact run_fileOpen
  have absent : (⟨world₁.mem.newFile ⟨pointer, 0, false⟩, world₁.disk⟩ : World).handle [47] = none := by
    change world₁.mem.fileTable.find? _ = none
    rw [quiet₁.fileTable]
    exact unlisted
  refine ⟨dir, pointer, world₁.mem.nextPointer, own₁, next, ?_, ?_, ⟨⟨36, 1, ?_⟩, ?_, ?_, open₁.dirOpened.some_entry⟩, ?_, ?_,
    ?_⟩
  · rw [MockOS.Fs.commandFile, run_bind, run_getFileByFname, unlisted, Option.map_none, Option.bind_some, run_bind, opens,
      Option.bind_some]
    dsimp only
    rw [run_bind, MockOS.Fs.addToFileTable, run_bind, run_getFileByFname, absent, Option.map_none, Option.bind_some,
      run_modify, nextEq]
    rfl
  · rw [nextEq]
    exact volume₂.heap rfl rfl (fun _ _ => rfl) (Nat.le_refl _) fun above late => (volume₂.table.fresh above late).2
  · rw [nextEq]
    exact object
  · rw [nextEq]
    exact ⟨open₁.opened.member, open₁.opened.object⟩
  · rw [nextEq]
    exact open₁.holds
  · rw [nextEq]
    exact open₁.cwd
  · rw [nextEq]
    exact object
  · rw [nextEq]
    exact Function.update_self _ _ _

/-- A listing of a directory that another user holds open starts at its position. -/
theorem Volume.fsutilLs_shared {dir pointer : Pointer} (volume : Volume own shared nodes world)
    (opened : DirOpened world dir 1 pointer root entries) (isOpen : world.mem.cwd = some dir) {slot : Nat}
    (inside : slot ≤ entries.length) (object : world.mem.dirs dir = some ⟨pointer, (36 * slot : Nat), 1⟩) :
    run fsutilLs world = some (((entries.drop slot).filter (·.inUse)).map (·.fname),
      world.seekDir dir pointer 1 entries.length) := by
  have opens : run dirOpenRoot world = some (some dir, world.seekDir dir pointer 2 slot) := by
    rw [dirOpenRoot, run_bind, run_get, Option.bind_some, isOpen]
    dsimp only
    rw [run_bind, run_getDir object, Option.bind_some, run_bind, run_setDir, Option.bind_some, run_pure]
    rfl
  obtain ⟨volume₁, opened₁⟩ := volume.seekDir opened 2 slot
  have names := volume.readNames opened 2 (entries.length + 1) slot inside (by omega)
  have closes : run (dirClose (some dir)) (world.seekDir dir pointer 2 entries.length) =
      some ((), world.seekDir dir pointer 1 entries.length) := by
    have held : (world.seekDir dir pointer 2 entries.length).mem.dirs dir =
        some ⟨pointer, (36 * entries.length : Nat), 2⟩ := Function.update_self _ _ _
    rw [dirClose, run_bind, run_getDir held, Option.bind_some, run_bind, run_setDir, Option.bind_some,
      if_neg (show ¬ (2 - 1 : Int) = 0 by decide), run_pure, World.seekDir, World.seekDir]
    simp only [Function.update_idem]
    rfl
  rw [MockOS.Fs.fsutilLs, run_bind, opens, Option.bind_some, run_bind, run_deref_some, Option.bind_some, run_bind,
    opened₁.run_dirGetInode, Option.bind_some, run_bind, opened₁.holds.run_entryRounds opened₁.opened, Option.bind_some,
    run_bind, names, Option.bind_some, run_bind, closes]
  rfl

/-- The first byte of a new root directory. -/
theorem first_byte {bytes : List UInt8} (same : entriesOf bytes = newEntries 1 1000) : bytes.getD 0 0 ≠ 0 := by
  intro zero
  have first : (entriesOf bytes)[0]? = some ⟨1, List.replicate 31 0, true⟩ := by
    rw [same]
    rfl
  obtain ⟨inside, here⟩ := List.getElem?_eq_some_iff.mp first
  rw [getElem_entriesOf bytes inside] at here
  have sector := congrArg DirEntry.inodeSector here
  have start : ((bytes.drop (36 * 0)).take 36).getD 0 0 = bytes.getD 0 0 := by
    simp
  rw [DirEntry.ofBytes] at sector
  dsimp only at sector
  rw [start, zero] at sector
  have value := congrArg UInt32.toNat sector
  rw [UInt32.toNat_ofNat'] at value
  have one : (1 : UInt32).toNat = 1 := rfl
  have none : (0 : UInt8).toNat = 0 := rfl
  omega

/-- A write to the path of the root directory overwrites its first entry. -/
theorem write_to_root : ∃ world,
    run (filesysInit true) ⟨.boot 300 fun _ => 0, fun _ => zeros⟩ = some ((), world) ∧
      ¬ world.WritesOnly [47] (fun _ => 65) 1 := by
  obtain ⟨world, own, shared, nodes, root, formatted, _, empty, prompt⟩ := format_small
  refine ⟨world, formatted, ?_⟩
  rintro ⟨value, next, ran, sameRoot, _⟩
  have unlisted : world.handle [47] = none := by rw [World.handle, empty]; rfl
  obtain ⟨dir, pointer, file, own₁, world₁, ran₁, volume₁, opened₁, _, _, object₁⟩ := prompt.commandFile_root unlisted
  obtain ⟨rootAfter, world₂, own₂, step₂, mem₂, _, outcome⟩ := volume₁.inodeWriteAt opened₁.opened (by decide)
    (terminated (fun _ => 65) 1) (by decide : 0 < 1) (by decide) (by decide : 0 < 2147483648)
  rcases outcome with ⟨ran₂, stores⟩ | ⟨_, keeps⟩
  · have object₂ : world₂.mem.files file = some ⟨pointer, 0, false⟩ := by
      rw [mem₂]
      exact object₁
    have final : run (MockOS.Fs.fsutilWrite [47] (fun _ => 65) 1) world =
        some (1, world₂.seekFile file pointer (wrap32 (0 + (1 - 2)))) := by
      rw [MockOS.Fs.fsutilWrite, run_bind, ran₁, Option.bind_some]
      dsimp only
      rw [wrap32_of_range (by decide) (by decide), fileWrite, if_neg (by decide), run_bind, run_getFile object₁,
        Option.bind_some, run_bind]
      change (run (inodeWriteAt pointer (terminated (fun _ => 65) 1) ((1 : Nat) : Int) ((0 : Nat) : Int)) world₁).bind _ = _
      rw [ran₂, Option.bind_some, run_bind, run_getFile object₂]
      rfl
    rw [final, Option.some.injEq, Prod.mk.injEq] at ran
    obtain ⟨_, rfl⟩ := ran
    have bytes : (world₂.seekFile file pointer (wrap32 (0 + (1 - 2)))).inodeBytes 1 = fileBytes world₂.disk rootAfter := by
      change world₂.inodeBytes 1 = _
      rw [World.inodeBytes, step₂.volume.inodeData_eq (Function.update_self _ _ _)]
    rw [bytes, (stores.bytes opened₁.holds.tail).2] at sameRoot
    refine first_byte prompt.toMounted.rootEntries ?_
    have inside : 0 < max (fileBytes world₁.disk root).length (0 + 1) := by omega
    rw [← sameRoot, overwrite, List.getD_eq_getElem?_getD, List.getElem?_map, List.getElem?_range inside]
    rfl
  · have beyond := keeps.beyond
    have length := opened₁.holds.length
    rw [length, newEntries, List.length_cons] at beyond
    omega

/-- After the path of the root directory was used and a listing was made, the next listing is empty. -/
theorem list_after_root : ∃ start created sized listed,
    run (filesysInit true) ⟨.boot 300 fun _ => 0, fun _ => zeros⟩ = some ((), start) ∧
      start.command (.create [97] 0) = some created ∧ created.command (.size [47]) = some sized ∧
      sized.command .ls = some listed ∧ ¬ listed.Lists := by
  obtain ⟨start, own, shared, nodes, root, formatted, free, empty, prompt⟩ := format_small
  have nulFree : (0 : UInt8) ∉ fileName [97] := by decide
  obtain ⟨result, created, own₁, nodes₁, root₁, entries₁, ran₁, prompt₁, quiet₁, outcome⟩ :=
    prompt.fsutilCreate (by decide : (0 : UInt8) ∉ [97]) 0
  rcases outcome with ⟨bad, _⟩ | ⟨_, _, made⟩
  · exact absurd bad (by decide)
  obtain rfl : result = true := made.succeeds (by decide) (by decide) (fun _ => not_named_newEntries _ _ _ _)
    (by decide) (by decide) (by rw [free]; decide) freeSlot_newEntries
  rcases made.outcome with ⟨impossible, _⟩ | ⟨_, _, sector, _, rfl, _, _, new⟩
  · cases impossible
  have named := (new.named prompt.tidy nulFree [97] sector).mpr (.inr ⟨rfl, rfl⟩)
  have unlisted : created.handle [47] = none := by
    rw [World.handle, quiet₁.fileTable, empty]
    rfl
  obtain ⟨dir, pointer, file, own₂, sized, ran₂, volume₂, opened₂, isOpen, object₂, file₂⟩ :=
    prompt₁.commandFile_root unlisted
  have size : created.command (.size [47]) = some sized := by
    rw [World.command, MockOS.Fs.fsutilSize, run_bind, ran₂, Option.bind_some]
    dsimp only
    rw [run_bind, run_getFile file₂, Option.bind_some, run_bind, fileLength, run_bind, run_getFile file₂, Option.bind_some,
      inodeLength, run_bind, run_getInode opened₂.opened.object, Option.bind_some, run_pure, Option.bind_some, run_bind,
      fileSeek, run_bind, run_getFile file₂, Option.bind_some, run_setFile]
    have same := sized.seekFile_same file₂
    rw [World.seekFile] at same
    exact congrArg some same
  have lists := volume₂.fsutilLs_shared opened₂ isOpen opened₂.some_entry object₂
  obtain ⟨volume₃, opened₃⟩ := volume₂.seekDir opened₂ 1 _
  refine ⟨start, created, sized, _, formatted, by rw [World.command, ran₁]; rfl, size, by rw [World.command, lists]; rfl, ?_⟩
  rintro ⟨_, _, next, again⟩
  have nothing := volume₃.fsutilLs_shared opened₃ isOpen (Nat.le_refl _) (Function.update_self _ _ _)
  rw [again, Option.some.injEq, Prod.mk.injEq, List.drop_length] at nothing
  have there : [97] ∈ namesOf (setSlot (newEntries 1 1000) (freeSlot (newEntries 1 1000))
      ⟨sector, strncpy (fileName [97]) 31, true⟩) := mem_namesOf.mpr ⟨sector, named⟩
  have entries := nothing.1
  rw [World.rootEntries, World.inodeBytes, volume₃.inodeData_eq (volume₃.table.node opened₃.opened),
    opened₃.holds.entries_eq] at entries
  rw [entries] at there
  cases there

end MockOS.Fs
