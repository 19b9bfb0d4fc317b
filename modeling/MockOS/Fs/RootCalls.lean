import MockOS.Fs.Handles

namespace MockOS.Fs

variable {A : Type} {shared : BlockSector → Prop} {own after : Owners} {world middle next : World}
  {nodes nodesAfter : Nodes} {sector number : BlockSector} {pointer dir file inode : Pointer}
  {root data dataAfter : InodeDisk} {entries : List DirEntry} {name path : CString} {pos : Int}

/-- Two worlds have the same handles, each file at its position. -/
structure Undisturbed (world next : World) : Prop extends SameHandles world next where
  sameFiles : next.mem.files = world.mem.files

instance : IsPreorder World Undisturbed where
  refl _ := ⟨⟨rfl, fun _ _ => rfl, fun _ => rfl, rfl, rfl, rfl⟩, rfl⟩
  trans _ _ _ first second := ⟨trans_of SameHandles first.toSameHandles second.toSameHandles,
    second.sameFiles.trans first.sameFiles⟩

theorem SameObjects.undisturbed (same : SameObjects world next) : Undisturbed world next := ⟨same.sameHandles, same.files⟩

theorem Undisturbed.handle (same : Undisturbed world next) (path : CString) : next.handle path = world.handle path := by
  rw [World.handle, same.fileTable, World.handle]

theorem Undisturbed.position (same : Undisturbed world next) (path : CString) : next.position path = world.position path := by
  rw [World.position, same.handle, same.sameFiles, World.position]

/-- An inode that is opened, used and closed again leaves the other handles. -/
theorem Undisturbed.closeOpened (table : Table nodes world)
    (same : SameObjects ⟨world.mem.openInode sector data, world.disk⟩ middle)
    (openInodes : next.mem.openInodes = middle.mem.openInodes.erase world.mem.nextPointer)
    (headers : ∀ inode, inode ≠ world.mem.nextPointer →
      (next.mem.inodes inode).map Inode.header = (middle.mem.inodes inode).map Inode.header)
    (files : next.mem.files = middle.mem.files) (dirs : next.mem.dirs = middle.mem.dirs)
    (fileTable : next.mem.fileTable = middle.mem.fileTable) (freeMapFile : next.mem.freeMapFile = middle.mem.freeMapFile) :
    Undisturbed world next := by
  refine ⟨⟨?_, fun inode member => ?_, fun file => by rw [files, same.files]; rfl, dirs.trans same.dirs,
    fileTable.trans same.fileTable, freeMapFile.trans same.freeMapFile⟩, files.trans same.files⟩
  · rw [openInodes, same.openInodes]
    exact List.erase_cons_head ..
  · have old : inode ≠ world.mem.nextPointer := by
      rintro rfl
      obtain ⟨_, _, object, _⟩ := table.opened _ member
      rw [(table.fresh _ (Nat.le_refl _)).1] at object
      cases object
    rw [headers inode old, same.headers]
    change (Function.update world.mem.inodes world.mem.nextPointer _ inode).map _ = _
    rw [Function.update_of_ne old]

/-- `dir_open_root`, a use of the directory, and `dir_close` leave the handles. -/
theorem AtPrompt.undisturbed_root (prompt : AtPrompt own shared nodes root entries world)
    (same : Undisturbed ⟨{ world.mem.openRoot root with dirs := middle.mem.dirs }, world.disk⟩ middle)
    (cursor : middle.mem.dirs = Function.update world.mem.dirs (world.mem.nextPointer + 1)
      (some ⟨world.mem.nextPointer, pos, 1⟩)) {result : Unit}
    (ran : run (dirClose (some (world.mem.nextPointer + 1))) middle = some (result, next)) : Undisturbed world next := by
  have table := prompt.volume.table
  have member : world.mem.nextPointer ∈ middle.mem.openInodes := by
    rw [same.openInodes]
    exact List.mem_cons_self
  have header := same.headers world.mem.nextPointer List.mem_cons_self
  change _ = (Function.update world.mem.inodes world.mem.nextPointer _ world.mem.nextPointer).map _ at header
  rw [Function.update_self] at header
  obtain ⟨rootAfter, live⟩ := header_live header
  have object : middle.mem.dirs (world.mem.nextPointer + 1) = some ⟨world.mem.nextPointer, pos, 1⟩ := by
    rw [cursor, Function.update_self]
  rw [run_dirClose object ⟨member, live⟩, Option.some.injEq, Prod.mk.injEq] at ran
  obtain ⟨-, rfl⟩ := ran
  refine ⟨⟨?_, fun inode listed => ?_, fun file => ?_, ?_, same.fileTable, same.freeMapFile⟩, same.sameFiles⟩
  · change middle.mem.openInodes.erase _ = _
    rw [same.openInodes]
    exact List.erase_cons_head ..
  · have old : inode ≠ world.mem.nextPointer := by
      rintro rfl
      obtain ⟨_, _, object, _⟩ := table.opened _ listed
      rw [(table.fresh _ (Nat.le_refl _)).1] at object
      cases object
    change (Function.update middle.mem.inodes world.mem.nextPointer none inode).map _ = _
    rw [Function.update_of_ne old, same.headers inode (List.mem_cons_of_mem _ listed)]
    change (Function.update world.mem.inodes world.mem.nextPointer _ inode).map _ = _
    rw [Function.update_of_ne old]
  · exact same.files file
  · change Function.update middle.mem.dirs _ none = _
    rw [cursor, Function.update_idem, ← (table.fresh (world.mem.nextPointer + 1) (Nat.le_succ _)).2.2,
      Function.update_eq_self]

/-- The same for a use that leaves the objects. -/
theorem AtPrompt.undisturbed_inRoot (prompt : AtPrompt own shared nodes root entries world)
    (same : Undisturbed ⟨world.mem.openRoot root, world.disk⟩ middle) {result : Unit}
    (ran : run (dirClose (some (world.mem.nextPointer + 1))) middle = some (result, next)) : Undisturbed world next := by
  have dirs : (⟨{ world.mem.openRoot root with dirs := middle.mem.dirs }, world.disk⟩ : World) =
      ⟨world.mem.openRoot root, world.disk⟩ := by rw [same.dirs]
  exact prompt.undisturbed_root (dirs ▸ same) same.dirs ran

theorem sameObjects_releaseRemoved (inode : Inode) : Respects SameObjects (releaseRemoved inode) := by
  unfold releaseRemoved
  split_ifs
  · exact respects_bind (sameObjects_freeMapRelease _ _) fun _ =>
      respects_bind (sameObjects_deallocate _) fun _ => respects_pure _
  · exact respects_pure _

/-- `create_in` and the release of its sector leave the objects. -/
theorem sameObjects_createOrRelease (dir : Pointer) (name : CString) (length : Int) :
    Respects SameObjects (createOrRelease dir name length) := by
  unfold MockOS.Fs.createOrRelease
  refine respects_bind (sameObjects_steps.createIn _ _ _) fun created => ?_
  obtain ⟨made, success⟩ := created
  cases made with
  | none => exact respects_pure _
  | some sector =>
      dsimp only
      split_ifs
      · exact respects_bind (sameObjects_freeMapRelease _ _) fun _ => respects_pure _
      · exact respects_pure _

theorem AtPrompt.undisturbed_filesysCreate (prompt : AtPrompt own shared nodes root entries world) {length : Int}
    {result : Bool} (ran : run (MockOS.Fs.filesysCreate path length false) world = some (result, next)) : Undisturbed world next := by
  rw [run_filesysCreate prompt.run_dirOpenRoot] at ran
  obtain ⟨⟨success, middle⟩, creates, rest⟩ := Option.bind_eq_some_iff.mp ran
  obtain ⟨_, last, closes, rest⟩ := run_bind_some.mp rest
  rw [run_pure, Option.some.injEq, Prod.mk.injEq] at rest
  rw [← rest.2]
  exact prompt.undisturbed_inRoot (sameObjects_createOrRelease _ _ _ _ _ _ creates).undisturbed closes

theorem AtPrompt.undisturbed_fsutilCreate (prompt : AtPrompt own shared nodes root entries world) {size value : Int}
    (ran : run (MockOS.Fs.fsutilCreate path size) world = some (value, next)) : Undisturbed world next := by
  rw [MockOS.Fs.fsutilCreate] at ran
  by_cases refused : path.length = 0 ∨ path.length ≥ 255
  · rw [if_pos refused, run_pure, Option.some.injEq, Prod.mk.injEq] at ran
    rw [← ran.2]
    exact refl_of Undisturbed _
  · rw [if_neg refused] at ran
    obtain ⟨created, last, creates, rest⟩ := run_bind_some.mp ran
    rw [run_pure, Option.some.injEq, Prod.mk.injEq] at rest
    rw [← rest.2]
    exact prompt.undisturbed_filesysCreate creates

/-- `fsutil_ls` leaves the handles. -/
theorem AtPrompt.undisturbed_fsutilLs (prompt : AtPrompt own shared nodes root entries world) {names : List CString}
    (ran : run MockOS.Fs.fsutilLs world = some (names, next)) : Undisturbed world next := by
  obtain ⟨own₁, scan⟩ := prompt.startScan
  have start : (⟨world.mem.openRoot root, world.disk⟩ : World) =
      World.seekDir ⟨world.mem.openRoot root, world.disk⟩ (world.mem.nextPointer + 1) world.mem.nextPointer 1 1 := by
    rw [World.seekDir, ← scan.cursor, Function.update_eq_self]
  have listed := scan.volume.readNames scan.dirOpened 1 (entries.length + 1) 1 scan.dirOpened.some_entry (by omega)
  rw [← start] at listed
  rw [MockOS.Fs.fsutilLs, run_bind, prompt.run_dirOpenRoot, Option.bind_some, run_bind, run_deref_some, Option.bind_some, run_bind,
    scan.dirOpened.run_dirGetInode, Option.bind_some, run_bind,
    scan.dirOpened.holds.run_entryRounds scan.dirOpened.opened, Option.bind_some, run_bind, listed, Option.bind_some] at ran
  obtain ⟨_, last, closes, rest⟩ := run_bind_some.mp ran
  rw [run_pure, Option.some.injEq, Prod.mk.injEq] at rest
  rw [← rest.2]
  have cursor : Function.update (Function.update world.mem.dirs (world.mem.nextPointer + 1)
        (some ⟨world.mem.nextPointer, 36, 1⟩)) (world.mem.nextPointer + 1)
        (some ⟨world.mem.nextPointer, (36 * entries.length : Nat), 1⟩) =
      Function.update world.mem.dirs (world.mem.nextPointer + 1)
        (some ⟨world.mem.nextPointer, (36 * entries.length : Nat), 1⟩) := Function.update_idem _ _ _
  exact prompt.undisturbed_root (refl_of Undisturbed _) cursor closes

/-- `dir_remove` of a closed file leaves the handles. -/
theorem RootOpen.undisturbed_dirRemove (open_ : RootOpen own shared nodes root entries world dir pointer)
    (closed : ∀ sector, Named entries name sector → world.closed sector) {result : Bool}
    (ran : run (MockOS.Fs.dirRemove dir name) world = some (result, next)) : Undisturbed world next := by
  cases found : entries[nameSlot entries name]? with
  | none =>
      rw [open_.volume.dirRemove_absent open_.dirOpened found, Option.some.injEq, Prod.mk.injEq] at ran
      rw [← ran.2]
      exact refl_of Undisturbed _
  | some entry =>
      have named : Named entries name entry.inodeSector := by
        rw [open_.tidy.named_iff, found]
        rfl
      obtain ⟨_, _, _, data, present, isFile, _⟩ := open_.regular _ _ named
      have table := open_.volume.table
      have opens := (open_.volume.inodeOpen_closed present (closed _ named)).1
      have object : (world.mem.openInode entry.inodeSector data).inodes world.mem.nextPointer =
          some (.live entry.inodeSector data) := Function.update_self _ _ _
      rw [MockOS.Fs.dirRemove, run_bind, open_.volume.lookup open_.dirOpened, found, Option.map_some, Option.bind_some] at ran
      dsimp only at ran
      rw [run_bind, opens, Option.bind_some, run_bind, removable, run_bind, inodeIsDirectory, run_bind, run_getInode object,
        Option.bind_some, run_pure, Option.bind_some,
        if_neg (by rw [Inode.live, isFile]; exact Bool.false_ne_true), run_pure, Option.bind_some, if_pos rfl] at ran
      obtain ⟨inode, _, gets, ran⟩ := run_bind_some.mp ran
      have kept : Respects (· = ·) (dirGetInode dir) := respects_dirGetInode dir
      obtain rfl := kept _ _ _ gets
      obtain ⟨erased, middle, writes, ran⟩ := run_bind_some.mp ran
      have same := sameObjects_steps.writeEntry _ _ _ _ _ _ writes
      have header := same.headers world.mem.nextPointer
      change _ = ((world.mem.openInode entry.inodeSector data).inodes world.mem.nextPointer).map _ at header
      rw [object] at header
      obtain ⟨dataAfter, live⟩ := header_live header
      cases erased with
      | false =>
          rw [if_neg Bool.false_ne_true, run_bind, run_inodeClose live, Option.bind_some, run_pure, Option.some.injEq,
            Prod.mk.injEq] at ran
          rw [← ran.2]
          exact .closeOpened table same rfl (fun inode old => congrArg _ (Function.update_of_ne old _ _)) rfl rfl rfl rfl
      | true =>
          rw [if_pos rfl] at ran
          obtain ⟨_, _, marks, ran⟩ := run_bind_some.mp ran
          obtain ⟨_, last, closes, ran⟩ := run_bind_some.mp ran
          rw [run_pure, Option.some.injEq, Prod.mk.injEq] at ran
          obtain ⟨-, rfl⟩ := ran
          have both : run (do inodeRemove world.mem.nextPointer; MockOS.Fs.inodeClose (some world.mem.nextPointer)) middle =
              some ((), last) := run_bind_some.mpr ⟨_, _, marks, closes⟩
          rw [inodeClose_removed live] at both
          obtain ⟨_, released, releases, frees⟩ := run_bind_some.mp both
          have after := sameObjects_releaseRemoved _ _ _ _ releases
          rw [freeInode, run_modify, Option.some.injEq, Prod.mk.injEq] at frees
          obtain ⟨-, rfl⟩ := frees
          refine .closeOpened table same after.openInodes (fun inode old => ?_) after.files after.dirs after.fileTable
            after.freeMapFile
          change (Function.update released.mem.inodes _ none inode).map _ = _
          rw [Function.update_of_ne old, after.headers]
          exact congrArg _ (Function.update_of_ne old _ _)

theorem closed_openRoot (closed : world.closed sector) (nonroot : sector ≠ 1) :
    World.closed ⟨world.mem.openRoot root, world.disk⟩ sector := by
  intro inode member data
  change Function.update world.mem.inodes world.mem.nextPointer (some (.live 1 root)) inode ≠ _
  by_cases same : inode = world.mem.nextPointer
  · rw [same, Function.update_self, Ne, Option.some.injEq, Inode.live_inj]
    exact fun equal => nonroot equal.1.symm
  · rw [Function.update_of_ne same]
    exact closed inode ((List.mem_cons.mp member).resolve_left same) data

theorem AtPrompt.undisturbed_filesysRemove (prompt : AtPrompt own shared nodes root entries world)
    (flat : (pathTokens path).dropLast = []) (closed : ∀ sector, Named entries (fileName path) sector → world.closed sector)
    {removed : Bool} (ran : run (MockOS.Fs.filesysRemove path) world = some (removed, next)) : Undisturbed world next := by
  obtain ⟨own₁, scan⟩ := prompt.startScan
  obtain ⟨result, middle, _, _, _, _, ran₂, open₂, _⟩ := scan.toRootOpen.dirRemove (fileName path)
  have same := scan.undisturbed_dirRemove (fun sector named =>
    closed_openRoot (closed sector named) (prompt.regular _ _ named).2.2.1) ran₂
  obtain ⟨_, last, ran₃, _⟩ := open₂.dirClose
  rw [run_filesysRemove_some (scan.run_dirOpenPath ((prompt.run_startDir _).trans prompt.run_dirOpenRoot) flat) ran₂ ran₃,
    Option.some.injEq, Prod.mk.injEq] at ran
  rw [← ran.2]
  exact prompt.undisturbed_inRoot same ran₃

/-- The memory after the closed file of a path was opened. -/
def Mem.opened (mem : Mem) (sector : BlockSector) (data : InodeDisk) : Mem :=
  { mem with
    nextPointer := mem.nextPointer + 4
    openInodes := (mem.nextPointer + 2) :: mem.openInodes
    inodes := Function.update mem.inodes (mem.nextPointer + 2) (some (.live sector data))
    files := Function.update mem.files (mem.nextPointer + 3) (some ⟨mem.nextPointer + 2, 0, false⟩) }

theorem AtPrompt.run_filesysOpen (prompt : AtPrompt own shared nodes root entries world) (notEmpty : fileName path ≠ []) :
    run (MockOS.Fs.filesysOpen path) world =
      (run (dirLookup (world.mem.nextPointer + 1) (fileName path)) ⟨world.mem.openRoot root, world.disk⟩).bind fun result =>
        run (do dirClose (some (world.mem.nextPointer + 1)); openInode result.1) result.2 := by
  have pathNotEmpty : path ≠ [] := by
    rintro rfl
    exact notEmpty rfl
  rw [MockOS.Fs.filesysOpen, if_neg pathNotEmpty]
  change run (do
    let dir ← deref (← MockOS.Fs.dirOpenRoot)
    if fileName path = [] then openInode (some (← dirGetInode dir))
    else do
      let inode ← dirLookup dir (fileName path)
      dirClose (some dir)
      openInode inode) world = _
  simp only [run_bind, prompt.run_dirOpenRoot, Option.bind_some, run_deref_some, if_neg notEmpty]

/-- `filesys_open` of a path without a name in the root directory. -/
theorem AtPrompt.run_filesysOpen_absent (prompt : AtPrompt own shared nodes root entries world)
    (notEmpty : fileName path ≠ []) (notDot : fileName path ≠ [46]) (notDots : fileName path ≠ [46, 46])
    (absent : ∀ sector, ¬ Named entries (fileName path) sector) :
    run (MockOS.Fs.filesysOpen path) world =
      some (none, ⟨{ world.mem with nextPointer := world.mem.nextPointer + 2 }, world.disk⟩) := by
  obtain ⟨own₁, scan⟩ := prompt.startScan
  have table := prompt.volume.table
  have inodes : Function.update world.mem.inodes world.mem.nextPointer none = world.mem.inodes := by
    rw [← (table.fresh _ (Nat.le_refl _)).1, Function.update_eq_self]
  have dirs : Function.update world.mem.dirs (world.mem.nextPointer + 1) none = world.mem.dirs := by
    rw [← (table.fresh _ (Nat.le_succ _)).2.2, Function.update_eq_self]
  have closed : (world.mem.openRoot root).closeDir (world.mem.nextPointer + 1) world.mem.nextPointer =
      { world.mem with nextPointer := world.mem.nextPointer + 2 } := by
    rw [Mem.closeDir, Mem.closeInode, Mem.openRoot, Mem.openDir, Mem.openInode]
    simp only [Function.update_idem, List.erase_cons_head, inodes, dirs, prompt.cwd]
  rcases scan.dirLookup notDot notDots with ⟨_, looks⟩ | ⟨sector, _, _, _, _, named, _⟩
  · rw [prompt.run_filesysOpen notEmpty, looks, Option.bind_some, run_bind, run_dirClose scan.cursor scan.opened,
      Option.bind_some, closed]
    rfl
  · exact absurd named (absent sector)

/-- `filesys_open` of a closed file. -/
theorem AtPrompt.run_filesysOpen_closed (prompt : AtPrompt own shared nodes root entries world)
    (notDot : fileName path ≠ [46]) (notDots : fileName path ≠ [46, 46]) (named : Named entries (fileName path) sector)
    (present : nodes sector = some data) (closed : world.closed sector) :
    run (MockOS.Fs.filesysOpen path) world =
      some (some (world.mem.nextPointer + 3), ⟨world.mem.opened sector data, world.disk⟩) := by
  obtain ⟨own₁, scan⟩ := prompt.startScan
  obtain ⟨notEmpty, _, nonroot, _⟩ := prompt.regular _ _ named
  have table := prompt.volume.table
  have opens := (scan.volume.inodeOpen_closed present (closed_openRoot closed nonroot)).1
  obtain ⟨entry, found, rfl⟩ := Option.map_eq_some_iff.mp (prompt.tidy.named_iff.mp named)
  have looks : run (dirLookup (world.mem.nextPointer + 1) (fileName path)) ⟨world.mem.openRoot root, world.disk⟩ =
      some (some (world.mem.nextPointer + 2), ⟨(world.mem.openRoot root).openInode entry.inodeSector data, world.disk⟩) := by
    rw [dirLookup, run_bind, scan.dirOpened.run_dirGetInode, Option.bind_some, if_neg notDot, if_neg notDots, run_bind,
      scan.volume.lookup scan.dirOpened, found]
    simp only [Option.map_some, Option.bind_some, run_bind, opens, run_pure]
    rfl
  have apart : world.mem.nextPointer + 2 ≠ world.mem.nextPointer := by
    exact Nat.ne_of_gt (Nat.lt_add_of_pos_right (by decide))
  have rootOpened : Opened ⟨(world.mem.openRoot root).openInode entry.inodeSector data, world.disk⟩ 1
      world.mem.nextPointer root :=
    ⟨List.mem_cons_of_mem _ scan.opened.member, (Function.update_of_ne apart.symm _ _).trans scan.opened.object⟩
  have inodes : Function.update (Function.update (Function.update world.mem.inodes world.mem.nextPointer (some (.live 1 root)))
      (world.mem.nextPointer + 2) (some (.live entry.inodeSector data))) world.mem.nextPointer none =
      Function.update world.mem.inodes (world.mem.nextPointer + 2) (some (.live entry.inodeSector data)) := by
    rw [Function.update_comm apart, Function.update_idem, ← (table.fresh _ (Nat.le_refl _)).1, Function.update_eq_self]
  have dirs : Function.update world.mem.dirs (world.mem.nextPointer + 1) none = world.mem.dirs := by
    rw [← (table.fresh _ (Nat.le_succ _)).2.2, Function.update_eq_self]
  have openInodes : ((world.mem.nextPointer + 2) :: world.mem.nextPointer :: world.mem.openInodes).erase
      world.mem.nextPointer = (world.mem.nextPointer + 2) :: world.mem.openInodes := by
    rw [List.erase_cons_tail (beq_false_of_ne apart ▸ Bool.false_ne_true), List.erase_cons_head]
  have closes : (((world.mem.openRoot root).openInode entry.inodeSector data).closeDir (world.mem.nextPointer + 1)
      world.mem.nextPointer).newFile ⟨world.mem.nextPointer + 2, 0, false⟩ = world.mem.opened entry.inodeSector data := by
    simp only [Mem.newFile, Mem.closeDir, Mem.closeInode, Mem.openRoot, Mem.openDir, Mem.openInode, Mem.opened,
      Function.update_idem, openInodes, inodes, dirs, prompt.cwd]
  have live : (((world.mem.openRoot root).openInode entry.inodeSector data).closeDir (world.mem.nextPointer + 1)
      world.mem.nextPointer).inodes (world.mem.nextPointer + 2) = some (.live entry.inodeSector data) :=
    (Function.update_of_ne apart _ _).trans (Function.update_self _ _ _)
  rw [prompt.run_filesysOpen notEmpty, looks, Option.bind_some, run_bind, run_dirClose (by exact scan.cursor) rootOpened,
    Option.bind_some, openInode, run_bind, inodeIsRemoved, run_bind, run_getInode (by exact live),
    Option.bind_some, run_pure, Option.bind_some, if_neg (by simp [Inode.live]), run_fileOpen, closes]
  rfl

end MockOS.Fs
