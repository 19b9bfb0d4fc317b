import MockOS.Fs.PathAgreement
import MockOS.Fs.Recover
import MockOS.Fs.Respects

namespace MockOS.Fs

variable {A : Type} {shared : BlockSector → Prop} {own : Owners} {world next : World} {nodes nodesAfter : Nodes}
  {sector number : BlockSector} {pointer dir file inode : Pointer} {root data : InodeDisk} {entries : List DirEntry}
  {name path : CString} {slot : Nat} {pos : Int}

/-- The names of the entries in use from a slot on. -/
def laterNames (entries : List DirEntry) (slot : Nat) : List CString :=
  ((entries.drop slot).filter (·.inUse)).map (·.fname)

/-- A command goes through the root directory, whose names are those of live inodes. -/
structure DirScan (own : Owners) (shared : BlockSector → Prop) (nodes : Nodes) (root : InodeDisk)
    (entries : List DirEntry) (world : World) (dir pointer : Pointer) (slot : Nat) : Prop where
  volume : Volume own shared nodes world
  dirOpened : DirOpened world dir 1 pointer root entries
  tidy : Tidy entries
  live : ∀ name sector, Named entries name sector → name ≠ [] ∧ sector ≠ 0 ∧ sector ≠ 1 ∧ ∃ data, nodes sector = some data
  cwd : world.mem.cwd = some dir
  cursor : world.mem.dirs dir = some ⟨pointer, (36 * slot : Nat), 1⟩
  inside : slot ≤ entries.length

/-- The inodes have the same lengths and the same sectors for them. -/
def SameBlocks (store : BlockSector → Sector) (nodes nodesAfter : Nodes) : Prop :=
  ∀ sector data, nodes sector = some data → ∃ dataAfter, nodesAfter sector = some dataAfter ∧
    dataAfter.length = data.length ∧
    ∀ place ∈ inodePlaces (blocksOf data.length), sectorAt store dataAfter place = sectorAt store data place

theorem SameBlocks.refl (store : BlockSector → Sector) (nodes : Nodes) : SameBlocks store nodes nodes :=
  fun _ data there => ⟨data, there, rfl, fun _ _ => rfl⟩

theorem SameBlocks.trans {store : BlockSector → Sector} {nodesBetween : Nodes}
    (first : SameBlocks store nodes nodesBetween) (second : SameBlocks store nodesBetween nodesAfter) :
    SameBlocks store nodes nodesAfter := by
  intro sector data there
  obtain ⟨between, found, length, places⟩ := first sector data there
  obtain ⟨after, foundAfter, lengthAfter, placesAfter⟩ := second sector between found
  refine ⟨after, foundAfter, lengthAfter.trans length, fun place needed => ?_⟩
  rw [placesAfter place (by rwa [length]), places place needed]

/-- What the disk holds of an inode has its sectors. -/
theorem SameBlocks.reload (volume : Volume own shared nodes world) (present : nodes sector = some data) (nonzero : sector ≠ 0) :
    SameBlocks world.disk nodes (Function.update nodes sector (some (.ofSector (world.disk sector)))) := by
  intro number before there
  by_cases same : number = sector
  · subst same
    have stored := (volume.node number before there).stored nonzero
    exact ⟨_, Function.update_self _ _ _, stored.length, fun place needed => stored.needed needed⟩
  · exact ⟨before, (Function.update_of_ne same _ _).trans there, rfl, fun _ _ => rfl⟩

/-- The names that a scan meets are those of the directory. -/
theorem named_of_laterNames (low : 1 ≤ slot) (member : name ∈ laterNames entries slot) :
    ∃ sector, Named entries name sector := by
  refine mem_namesOf.mp ?_
  obtain ⟨entry, used, rfl⟩ := List.mem_map.mp member
  obtain ⟨there, inUse⟩ := List.mem_filter.mp used
  refine List.mem_map.mpr ⟨entry, List.mem_filter.mpr ⟨?_, inUse⟩, rfl⟩
  rw [show slot = 1 + (slot - 1) from by omega, ← List.drop_drop] at there
  exact List.mem_of_mem_drop there

/-- `file_close` closes the inode and frees the file. -/
theorem run_fileClose (object : world.mem.files file = some ⟨inode, pos, false⟩)
    (live : world.mem.inodes inode = some (.live sector data)) : run (fileClose (some file)) world =
      some ((), ⟨{ world.mem.closeInode inode with files := Function.update world.mem.files file none }, world.disk⟩) := by
  rw [fileClose, run_bind, fileAllowWrite, run_bind, run_getFile object, Option.bind_some, if_neg (by simp), run_pure,
    Option.bind_some, run_bind, run_getFile object, Option.bind_some, run_bind, run_inodeClose live, Option.bind_some]
  rfl

/-- What a loop through the root directory does with a name. -/
def visit (use : CString → Pointer → Action A) (name : CString) : Action (List A) := do
  let f ← filesysOpen name
  let found ← (match f with
    | some file => do pure [← use name file]
    | none => pure [])
  fileClose f
  pure found

theorem run_visitFiles_succ (dir : Pointer) (use : CString → Pointer → Action A) (rounds : Nat) (world : World) :
    run (visitFiles dir use (rounds + 1)) world = (run (dirReaddir dir) world).bind fun read => match read.1 with
      | none => some ([], read.2)
      | some name => (run (visit use name) read.2).bind fun visited =>
          (run (visitFiles dir use rounds) visited.2).map fun rest => (visited.1 ++ rest.1, rest.2) := by
  rw [visitFiles, run_bind]
  congr 1
  funext read
  obtain ⟨next, middle⟩ := read
  cases next with
  | none => rfl
  | some name =>
      dsimp only
      rw [visit, run_bind, run_bind, Option.bind_assoc]
      congr 1
      funext opened
      rw [run_bind, run_bind, Option.bind_assoc]
      congr 1
      funext used
      rw [run_bind, run_bind, Option.bind_assoc]
      congr 1
      funext closed
      rw [run_bind, run_pure, Option.bind_some]
      cases run (visitFiles dir use rounds) closed.2 <;> rfl

/-- The memory after a file of a closed inode was opened and closed. -/
theorem openClose_closed (table : Table nodes world) (data : InodeDisk) :
    { (((world.mem.openInode sector data).newFile ⟨world.mem.nextPointer, 0, false⟩).closeInode world.mem.nextPointer) with
      files := Function.update ((world.mem.openInode sector data).newFile ⟨world.mem.nextPointer, 0, false⟩).files
        (world.mem.nextPointer + 1) none } = { world.mem with nextPointer := world.mem.nextPointer + 2 } := by
  have noInode := (table.fresh _ (Nat.le_refl world.mem.nextPointer)).1
  have noFile := (table.fresh _ (Nat.le_succ world.mem.nextPointer)).2.1
  have inodes : Function.update world.mem.inodes world.mem.nextPointer none = world.mem.inodes := by
    rw [← noInode, Function.update_eq_self]
  have files : Function.update world.mem.files (world.mem.nextPointer + 1) none = world.mem.files := by
    rw [← noFile, Function.update_eq_self]
  simp only [Mem.closeInode, Mem.newFile, Mem.openInode, Function.update_idem, List.erase_cons_head, inodes, files]

/-- The memory after a file of an open inode was opened and closed. -/
theorem openClose_open (table : Table nodes world) (inode : Pointer) :
    { ((world.mem.newFile ⟨inode, 0, false⟩).closeInode inode) with
      files := Function.update (world.mem.newFile ⟨inode, 0, false⟩).files world.mem.nextPointer none } =
      { world.mem.closeInode inode with nextPointer := world.mem.nextPointer + 1 } := by
  have noFile := (table.fresh _ (Nat.le_refl world.mem.nextPointer)).2.1
  have files : Function.update world.mem.files world.mem.nextPointer none = world.mem.files := by
    rw [← noFile, Function.update_eq_self]
  simp only [Mem.closeInode, Mem.newFile, Function.update_idem, files]

namespace DirScan

/-- The next round of a scan. -/
theorem dirReaddir (scan : DirScan own shared nodes root entries world dir pointer slot) :
    laterNames entries slot = [] ∧ run (dirReaddir dir) world = some (none, world.seekDir dir pointer 1 entries.length) ∨
      ∃ name slot', laterNames entries slot = name :: laterNames entries slot' ∧ slot < slot' ∧ slot' ≤ entries.length ∧
        run (MockOS.Fs.dirReaddir dir) world = some (some name, world.seekDir dir pointer 1 slot') := by
  have same : world = world.seekDir dir pointer 1 slot := by
    rw [World.seekDir, ← scan.cursor, Function.update_eq_self]
  have ran := scan.volume.readdirLoop scan.dirOpened 1 (entries.length + 1) slot scan.inside (by omega)
  have names := filter_findIdx (·.inUse) (entries.drop slot)
  rw [← same] at ran
  rw [List.getElem?_drop] at names
  rw [MockOS.Fs.dirReaddir, run_bind, scan.dirOpened.run_dirGetInode, Option.bind_some, run_bind,
    scan.dirOpened.holds.run_entryRounds scan.dirOpened.opened, Option.bind_some]
  cases found : entries[slot + (entries.drop slot).findIdx (·.inUse)]? with
  | none =>
      rw [found] at names ran
      have beyond := List.getElem?_eq_none_iff.mp found
      rw [Nat.min_eq_left (by omega)] at ran
      exact .inl ⟨by rw [laterNames, names]; rfl, ran⟩
  | some entry =>
      rw [found] at names ran
      obtain ⟨small, _⟩ := List.getElem?_eq_some_iff.mp found
      rw [Nat.min_eq_right (by omega)] at ran
      refine .inr ⟨entry.fname, slot + (entries.drop slot).findIdx (·.inUse) + 1, ?_, by omega, by omega, ran⟩
      rw [laterNames, names, List.drop_drop, laterNames]
      rfl

theorem seekDir (scan : DirScan own shared nodes root entries world dir pointer slot) {slot' : Nat}
    (inside : slot' ≤ entries.length) :
    DirScan own shared nodes root entries (world.seekDir dir pointer 1 slot') dir pointer slot' := by
  obtain ⟨volume, opened⟩ := scan.volume.seekDir scan.dirOpened 1 slot'
  exact ⟨volume, opened, scan.tidy, scan.live, scan.cwd, Function.update_self _ _ _, inside⟩

/-- The memory besides the inodes and files may change, as long as the directory stays open. -/
theorem inMemory (scan : DirScan own shared nodes root entries world dir pointer slot)
    (volume : Volume own shared nodesAfter next) (disk : next.disk = world.disk)
    (live : ∀ sector, nodes sector ≠ none → nodesAfter sector ≠ none) (opened : Opened next 1 pointer root)
    (dirs : next.mem.dirs = world.mem.dirs) (cwd : next.mem.cwd = world.mem.cwd) :
    DirScan own shared nodesAfter root entries next dir pointer slot := by
  refine ⟨volume, ⟨⟨_, _, by rw [dirs]; exact scan.cursor⟩, opened, by rw [disk]; exact scan.dirOpened.holds,
    scan.dirOpened.some_entry⟩, scan.tidy, fun name sector named => ?_, cwd.trans scan.cwd, by rw [dirs]; exact scan.cursor,
    scan.inside⟩
  obtain ⟨notEmpty, nonzero, nonroot, data, present⟩ := scan.live name sector named
  refine ⟨notEmpty, nonzero, nonroot, Option.ne_none_iff_exists'.mp (live sector ?_)⟩
  rw [present]
  simp

/-- `filesys_open` of a name while the root directory is gone through: its directory is held twice meanwhile. -/
theorem filesysOpen (scan : DirScan own shared nodes root entries world dir pointer slot)
    (notDot : fileName path ≠ [46]) (notDots : fileName path ≠ [46, 46]) (named : Named entries (fileName path) sector) :
    ∃ inode data mem,
      run (filesysOpen path) world = some (some mem.nextPointer, ⟨mem.newFile ⟨inode, 0, false⟩, world.disk⟩) ∧
      DirScan own shared nodes root entries ⟨mem, world.disk⟩ dir pointer slot ∧
      Opened ⟨mem, world.disk⟩ sector inode data ∧ nodes sector = some data ∧
      (mem = world.mem ∨
        world.closed sector ∧ inode = world.mem.nextPointer ∧ mem = world.mem.openInode sector data) := by
  obtain ⟨notEmpty, _, _, data, present⟩ := scan.live _ _ named
  have pathNotEmpty : path ≠ [] := by
    rintro rfl
    exact notEmpty rfl
  obtain ⟨held, heldEq⟩ : ∃ held, held = world.seekDir dir pointer 2 slot := ⟨_, rfl⟩
  obtain ⟨volumeHeld, openedHeld⟩ := scan.volume.seekDir scan.dirOpened 2 slot
  rw [← heldEq] at volumeHeld openedHeld
  have opens : run MockOS.Fs.dirOpenRoot world = some (some dir, held) := by
    rw [MockOS.Fs.dirOpenRoot, run_bind, run_get, Option.bind_some, scan.cwd]
    dsimp only
    rw [run_bind, run_getDir scan.cursor, Option.bind_some, run_bind, run_setDir, Option.bind_some, run_pure, heldEq]
    rfl
  obtain ⟨inode, mem, ran, opened, volumeAfter, how⟩ := scan.volume.inodeOpen present
  -- the count of the directory does not matter to the inodes
  have dirs : mem.dirs = world.mem.dirs := by
    rcases how with same | ⟨_, _, same⟩ <;> rw [same]
    rfl
  have cwd : mem.cwd = world.mem.cwd := by
    rcases how with same | ⟨_, _, same⟩ <;> rw [same]
    rfl
  have rootOpened : Opened ⟨mem, world.disk⟩ 1 pointer root := by
    have before := scan.dirOpened.opened
    rcases how with same | ⟨_, _, same⟩
    · rw [same]
      exact before
    · have old : pointer ≠ world.mem.nextPointer := by
        rintro rfl
        have absent := (scan.volume.table.fresh _ (Nat.le_refl _)).1
        rw [before.object] at absent
        cases absent
      rw [same]
      exact ⟨List.mem_cons_of_mem _ before.member, (Function.update_of_ne old _ _).trans before.object⟩
  have opensInode : run (inodeOpen sector) held = some (inode, ⟨{ mem with dirs := held.mem.dirs }, world.disk⟩) := by
    rcases how with rfl | ⟨closed, rfl, rfl⟩
    · have openedThere : Opened held sector inode data := by
        rw [heldEq]
        exact ⟨opened.member, opened.object⟩
      rw [inodeOpen_opened volumeHeld.table openedThere, heldEq]
      rfl
    · have closedHeld : held.closed sector := by
        rw [heldEq]
        exact fun pointer member data object => closed pointer member data object
      rw [(volumeHeld.inodeOpen_closed present closedHeld).1, heldEq]
      rfl
  have finds := volumeHeld.lookup openedHeld (fileName path)
  have entry := scan.tidy.named_iff.mp named
  obtain ⟨found, there, rfl⟩ := Option.map_eq_some_iff.mp entry
  have looks : run (dirLookup dir (fileName path)) held =
      some (some inode, ⟨{ mem with dirs := held.mem.dirs }, world.disk⟩) := by
    rw [MockOS.Fs.dirLookup, run_bind, openedHeld.run_dirGetInode, Option.bind_some, if_neg notDot, if_neg notDots, run_bind,
      finds, there]
    simp only [Option.map_some, Option.bind_some, run_bind, opensInode, run_pure]
  have closes : run (dirClose (some dir)) ⟨{ mem with dirs := held.mem.dirs }, world.disk⟩ =
      some ((), ⟨mem, world.disk⟩) := by
    have object : held.mem.dirs dir = some ⟨pointer, (36 * slot : Nat), 2⟩ := by
      rw [heldEq]
      exact Function.update_self _ _ _
    have back : Function.update held.mem.dirs dir (some ⟨pointer, (36 * slot : Nat), 1⟩) = mem.dirs := by
      rw [heldEq, dirs, ← scan.cursor]
      simp only [World.seekDir, Function.update_idem, Function.update_eq_self]
    rw [dirClose, run_bind, run_getDir (by exact object), Option.bind_some, run_bind, run_setDir, Option.bind_some,
      if_neg (show ¬ (2 - 1 : Int) = 0 by decide), run_pure]
    dsimp only
    rw [show (2 - 1 : Int) = 1 from rfl, back]
  refine ⟨inode, data, mem, ?_, scan.inMemory volumeAfter rfl (fun _ there => there) rootOpened dirs cwd, opened, present, how⟩
  rw [MockOS.Fs.filesysOpen, if_neg pathNotEmpty]
  change run (do
      let dir ← deref (← MockOS.Fs.dirOpenRoot)
      if fileName path = [] then openInode (some (← dirGetInode dir))
      else do
        let inode ← MockOS.Fs.dirLookup dir (fileName path)
        dirClose (some dir)
        openInode inode) world = _
  rw [run_bind, opens, Option.bind_some, run_bind, run_deref_some, Option.bind_some, if_neg notEmpty, run_bind, looks,
    Option.bind_some, run_bind, closes, Option.bind_some, openInode, run_bind, inodeIsRemoved, run_bind,
    run_getInode opened.object, Option.bind_some, run_pure, Option.bind_some]
  exact run_fileOpen

/-- A name without a slash is opened as a new file. -/
theorem opensFile (scan : DirScan own shared nodes root entries world dir pointer slot) (notDot : name ≠ [46])
    (notDots : name ≠ [46, 46]) (noSlash : 47 ∉ name) (named : Named entries name sector) : ∃ inode data mem,
    run (MockOS.Fs.filesysOpen name) world = some (some mem.nextPointer, ⟨mem.newFile ⟨inode, 0, false⟩, world.disk⟩) ∧
      DirScan own shared nodes root entries ⟨mem, world.disk⟩ dir pointer slot ∧
      DirScan own shared nodes root entries ⟨mem.newFile ⟨inode, 0, false⟩, world.disk⟩ dir pointer slot ∧
      Opened ⟨mem, world.disk⟩ sector inode data ∧ Opened ⟨mem.newFile ⟨inode, 0, false⟩, world.disk⟩ sector inode data ∧
      nodes sector = some data ∧ (mem.newFile ⟨inode, 0, false⟩).files mem.nextPointer = some ⟨inode, 0, false⟩ ∧
      (mem = world.mem ∨
        world.closed sector ∧ inode = world.mem.nextPointer ∧ mem = world.mem.openInode sector data) := by
  have sameName : fileName name = name := fileName_eq noSlash
  have notDotFile : fileName name ≠ [46] := by rwa [sameName]
  have notDotsFile : fileName name ≠ [46, 46] := by rwa [sameName]
  have namedFile : Named entries (fileName name) sector := by rwa [sameName]
  obtain ⟨inode, data, mem, opens, scanned, opened, present, how⟩ := scan.filesysOpen notDotFile notDotsFile namedFile
  have scannedFile : DirScan own shared nodes root entries ⟨mem.newFile ⟨inode, 0, false⟩, world.disk⟩ dir pointer slot :=
    scanned.inMemory (scanned.volume.newFile ⟨inode, 0, false⟩) rfl (fun _ there => there)
      ⟨scanned.dirOpened.opened.member, scanned.dirOpened.opened.object⟩ rfl rfl
  exact ⟨inode, data, mem, opens, scanned, scannedFile, opened, ⟨opened.member, opened.object⟩, present,
    Function.update_self _ _ _, how⟩

/-- The visit of a file ends with its inode closed, also when it was open before. -/
theorem visit (scan : DirScan own shared nodes root entries world dir pointer slot) (notDot : name ≠ [46])
    (notDots : name ≠ [46, 46]) (noSlash : 47 ∉ name) (named : Named entries name sector)
    {use : CString → Pointer → Action A} {value : A}
    (uses : ∀ {mem inode data file}, DirScan own shared nodes root entries ⟨mem, world.disk⟩ dir pointer slot →
      Opened ⟨mem, world.disk⟩ sector inode data → nodes sector = some data →
      mem.files file = some ⟨inode, 0, false⟩ →
      run (use name file) ⟨mem, world.disk⟩ = some (value, ⟨mem, world.disk⟩)) :
    ∃ nodes' next, run (MockOS.Fs.visit use name) world = some ([value], next) ∧
      DirScan own shared nodes' root entries next dir pointer slot ∧ SameBlocks world.disk nodes nodes' ∧
      next.disk = world.disk ∧
      (world.closed sector ∧ nodes' = nodes ∧
          next.mem = { world.mem with nextPointer := world.mem.nextPointer + 2 } ∨
        ∃ inode data, Opened world sector inode data ∧
          next.mem = { world.mem.closeInode inode with nextPointer := world.mem.nextPointer + 1 }) := by
  obtain ⟨_, nonzero, nonroot, _⟩ := scan.live _ _ named
  obtain ⟨inode, data, mem, opens, scanned, scannedFile, opened, openedFile, present, object, how⟩ :=
    scan.opensFile notDot notDots noSlash named
  have used := uses scannedFile openedFile present object
  obtain ⟨withFile, withFileEq⟩ : ∃ withFile, withFile = mem.newFile ⟨inode, 0, false⟩ := ⟨_, rfl⟩
  rw [← withFileEq] at opens scannedFile openedFile object used
  have closes := run_fileClose object openedFile.object
  obtain ⟨final, finalEq⟩ : ∃ final, final = { withFile.closeInode inode with
    files := Function.update withFile.files mem.nextPointer none } := ⟨_, rfl⟩
  dsimp only at closes
  rw [← finalEq] at closes
  have volumeClosed := (scannedFile.volume.inodeClose openedFile nonzero).2
  have volumeFinal : Volume own shared (Function.update nodes sector (some (.ofSector (world.disk sector))))
      ⟨final, world.disk⟩ := by
    rw [finalEq]
    refine volumeClosed.heap rfl rfl (fun freeMapPointer isFreeMap => ?_) (Nat.le_refl _) fun other above => ?_
    · refine Function.update_of_ne ?_ _ _
      rintro rfl
      obtain ⟨freeMapFile, file, freeMapData, freeMap, _⟩ := scanned.volume.freeMap
      have same : mem.freeMapFile = some freeMapFile := freeMap.opened
      rw [withFileEq] at isFreeMap
      change mem.freeMapFile = some mem.nextPointer at isFreeMap
      have noFile := (scanned.volume.table.fresh _ (Nat.le_refl mem.nextPointer)).2.1
      rw [same, Option.some.injEq] at isFreeMap
      rw [← isFreeMap, freeMap.liveFile] at noFile
      cases noFile
    · obtain ⟨_, noFile, noDir⟩ := scannedFile.volume.table.fresh other above
      refine ⟨?_, noDir⟩
      change Function.update withFile.files mem.nextPointer none other = none
      by_cases same : other = mem.nextPointer
      · rw [same, Function.update_self]
      · rw [Function.update_of_ne same]
        exact noFile
  have rootOpened : Opened ⟨final, world.disk⟩ 1 pointer root := by
    have still := openedFile.closeInode_other scannedFile.volume.table (Ne.symm nonroot) scannedFile.dirOpened.opened world.disk
    rw [finalEq]
    exact ⟨still.member, still.object⟩
  refine ⟨_, ⟨final, world.disk⟩, ?_, scannedFile.inMemory volumeFinal rfl (fun number there => ?_) rootOpened
    (by rw [finalEq]; rfl) (by rw [finalEq]; rfl), .reload scan.volume present nonzero, rfl, ?_⟩
  · rw [MockOS.Fs.visit, run_bind, opens, Option.bind_some]
    dsimp only
    rw [run_bind, run_bind, used, Option.bind_some, run_pure, Option.bind_some, run_bind, closes]
    rfl
  · by_cases same : number = sector
    · rw [same, Function.update_self]
      simp
    · rwa [Function.update_of_ne same]
  · rcases how with rfl | ⟨closed, rfl, rfl⟩
    · refine .inr ⟨inode, data, opened, ?_⟩
      rw [finalEq, withFileEq]
      exact openClose_open scan.volume.table inode
    · refine .inl ⟨closed, ?_, ?_⟩
      · rw [scan.volume.table.closed sector data present closed, ← present, Function.update_eq_self]
      · rw [finalEq, withFileEq]
        exact openClose_closed scan.volume.table data

/-- A use without a result leaves the visit without one. -/
theorem visit_undefined (scan : DirScan own shared nodes root entries world dir pointer slot) (notDot : name ≠ [46])
    (notDots : name ≠ [46, 46]) (noSlash : 47 ∉ name) (named : Named entries name sector)
    {use : CString → Pointer → Action A}
    (uses : ∀ {mem inode data file}, DirScan own shared nodes root entries ⟨mem, world.disk⟩ dir pointer slot →
      Opened ⟨mem, world.disk⟩ sector inode data → nodes sector = some data →
      mem.files file = some ⟨inode, 0, false⟩ → run (use name file) ⟨mem, world.disk⟩ = none) :
    run (MockOS.Fs.visit use name) world = none := by
  obtain ⟨inode, data, mem, opens, _, scannedFile, _, openedFile, present, object, _⟩ :=
    scan.opensFile notDot notDots noSlash named
  rw [MockOS.Fs.visit, run_bind, opens, Option.bind_some]
  dsimp only
  rw [run_bind, run_bind, uses scannedFile openedFile present object]
  rfl

/-- The two names that stand for directories lead to the root directory itself. -/
theorem dirLookup_dots (volume : Volume own shared nodes world) (dirOpened : DirOpened world dir 1 pointer root entries)
    (parent : entries[0]?.map (·.inodeSector) = some 1) (dots : name = [46] ∨ name = [46, 46]) :
    run (dirLookup dir name) world = some (some pointer, world) := by
  rw [dirLookup, run_bind, dirOpened.run_dirGetInode, Option.bind_some]
  dsimp only
  rcases dots with rfl | rfl
  · rw [if_pos rfl]
    rfl
  · rw [if_neg (by decide), if_pos rfl]
    obtain ⟨entry, first, same⟩ := Option.map_eq_some_iff.mp parent
    have read := volume.readEntry dirOpened.opened dirOpened.holds (Nat.zero_le entries.length)
    rw [first, Nat.mul_zero] at read
    rw [run_bind]
    change (run (readEntry pointer ((0 : Nat) : Int)) world).bind _ = _
    rw [read, Option.bind_some]
    dsimp only
    rw [run_bind, run_deref_some, Option.bind_some]
    dsimp only
    rw [run_bind, same, inodeOpen_opened volume.table dirOpened.opened]
    rfl

/-- A file that is opened by such a name closes the inode of the root directory, which is read next. -/
theorem visit_dots (scan : DirScan own shared nodes root entries world dir pointer slot)
    (parent : entries[0]?.map (·.inodeSector) = some 1) (dots : name = [46] ∨ name = [46, 46])
    {use : CString → Pointer → Action A} (reads : ∀ file, Respects (· = ·) (use name file)) {visited : List A}
    (ran : run (MockOS.Fs.visit use name) world = some (visited, next)) :
    next.mem.inodes pointer = none ∧ next.mem.dirs dir = some ⟨pointer, (36 * slot : Nat), 1⟩ := by
  have sameName : fileName name = name := by
    rcases dots with rfl | rfl <;> exact fileName_eq (by decide)
  have notEmpty : name ≠ [] := by
    rcases dots with rfl | rfl <;> simp
  obtain ⟨held, heldEq⟩ : ∃ held, held = world.seekDir dir pointer 2 slot := ⟨_, rfl⟩
  obtain ⟨volumeHeld, openedHeld⟩ := scan.volume.seekDir scan.dirOpened 2 slot
  rw [← heldEq] at volumeHeld openedHeld
  have opens : run dirOpenRoot world = some (some dir, held) := by
    rw [dirOpenRoot, run_bind, run_get, Option.bind_some, scan.cwd]
    dsimp only
    rw [run_bind, run_getDir scan.cursor, Option.bind_some, run_bind, run_setDir, Option.bind_some, run_pure, heldEq]
    rfl
  have closes : run (dirClose (some dir)) held = some ((), world) := by
    have object : held.mem.dirs dir = some ⟨pointer, (36 * slot : Nat), 2⟩ := by
      rw [heldEq]
      exact Function.update_self _ _ _
    rw [dirClose, run_bind, run_getDir object, Option.bind_some, run_bind, run_setDir, Option.bind_some,
      if_neg (show ¬ (2 - 1 : Int) = 0 by decide), run_pure, heldEq]
    change some ((), World.seekDir (world.seekDir dir pointer 2 slot) dir pointer 1 slot) = _
    simp only [World.seekDir, Function.update_idem]
    rw [← scan.cursor, Function.update_eq_self]
  have opensFile : run (MockOS.Fs.filesysOpen name) world =
      some (some world.mem.nextPointer, ⟨world.mem.newFile ⟨pointer, 0, false⟩, world.disk⟩) := by
    rw [MockOS.Fs.filesysOpen, if_neg notEmpty]
    change run (do
        let dir ← deref (← dirOpenRoot)
        if fileName name = [] then openInode (some (← dirGetInode dir))
        else do
          let inode ← dirLookup dir (fileName name)
          dirClose (some dir)
          openInode inode) world = _
    rw [run_bind, opens, Option.bind_some, run_bind, run_deref_some, Option.bind_some, sameName, if_neg notEmpty, run_bind,
      dirLookup_dots volumeHeld openedHeld parent dots, Option.bind_some, run_bind, closes, Option.bind_some, openInode,
      run_bind, inodeIsRemoved, run_bind, run_getInode scan.dirOpened.opened.object, Option.bind_some, run_pure,
      Option.bind_some]
    exact run_fileOpen
  rw [MockOS.Fs.visit, run_bind, opensFile, Option.bind_some] at ran
  dsimp only at ran
  obtain ⟨found, middle, used, rest⟩ := run_bind_some.mp ran
  obtain ⟨value, after, ranUse, last⟩ := run_bind_some.mp used
  obtain rfl := reads _ _ _ _ ranUse
  rw [run_pure, Option.some.injEq, Prod.mk.injEq] at last
  obtain ⟨-, rfl⟩ := last
  obtain ⟨withFile, withFileEq⟩ : ∃ withFile : World, withFile = ⟨world.mem.newFile ⟨pointer, 0, false⟩, world.disk⟩ :=
    ⟨_, rfl⟩
  have object : withFile.mem.files world.mem.nextPointer = some ⟨pointer, 0, false⟩ := by
    rw [withFileEq]
    exact Function.update_self _ _ _
  have live : withFile.mem.inodes pointer = some (.live 1 root) := by
    rw [withFileEq]
    exact scan.dirOpened.opened.object
  have cursor : withFile.mem.dirs dir = some ⟨pointer, (36 * slot : Nat), 1⟩ := by
    rw [withFileEq]
    exact scan.cursor
  have closesFile := run_fileClose object live
  rw [← withFileEq, run_bind, closesFile, Option.bind_some, run_pure, Option.some.injEq, Prod.mk.injEq] at rest
  rw [← rest.2]
  exact ⟨Function.update_self _ _ _, cursor⟩

/-- The root directory cannot be read without its inode. -/
theorem visitFiles_freed (noInode : world.mem.inodes pointer = none) (cursor : world.mem.dirs dir = some ⟨pointer, pos, 1⟩)
    (use : CString → Pointer → Action A) (rounds : Nat) : run (MockOS.Fs.visitFiles dir use rounds) world = none := by
  cases rounds with
  | zero => rfl
  | succ rounds =>
      rw [run_visitFiles_succ, MockOS.Fs.dirReaddir, run_bind, dirGetInode, run_bind, run_getDir cursor, Option.bind_some,
        run_pure, Option.bind_some, run_bind, entryRounds, run_bind, inodeLength, run_bind]
      dsimp only
      rw [getInode, run_bind, run_get, Option.bind_some, noInode]
      rfl

section Loop

variable {use : CString → Pointer → Action A} {value : CString → A} {good : CString → Prop} {inv : Nodes → World → Prop}
  (seeks : ∀ {nodes world slot}, inv nodes world → inv nodes (world.seekDir dir pointer 1 slot))
  (visits : ∀ {nodes world slot name sector}, DirScan own shared nodes root entries world dir pointer slot →
    inv nodes world → Named entries name sector → good name → ∃ nodes' next,
      run (MockOS.Fs.visit use name) world = some ([value name], next) ∧
        DirScan own shared nodes' root entries next dir pointer slot ∧ inv nodes' next)

include seeks visits

/-- The loop visits all names, and what every visit keeps holds in the end. -/
theorem visitFiles (scan : DirScan own shared nodes root entries world dir pointer slot) (low : 1 ≤ slot)
    (holds : inv nodes world) (allGood : ∀ name ∈ laterNames entries slot, good name) {rounds : Nat}
    (enough : entries.length < slot + rounds) :
    ∃ nodes' next, run (visitFiles dir use rounds) world = some ((laterNames entries slot).map value, next) ∧
      DirScan own shared nodes' root entries next dir pointer entries.length ∧ inv nodes' next := by
  induction rounds generalizing nodes world slot with
  | zero =>
      have inside := scan.inside
      omega
  | succ rounds ih =>
      rw [run_visitFiles_succ]
      rcases scan.dirReaddir with ⟨none, read⟩ | ⟨name, slot', names, later, inside, read⟩
      · rw [read, none]
        exact ⟨nodes, _, rfl, scan.seekDir (Nat.le_refl _), seeks holds⟩
      · have member : name ∈ laterNames entries slot := by
          rw [names]
          exact List.mem_cons_self
        obtain ⟨sector, named⟩ := named_of_laterNames low member
        obtain ⟨nodes₁, middle, visited, scanned, still⟩ :=
          visits (scan.seekDir inside) (seeks holds) named (allGood name member)
        obtain ⟨nodes₂, next, ran, scannedAll, inTheEnd⟩ := ih scanned (by omega) still
          (fun other inRest => allGood other (by rw [names]; exact List.mem_cons_of_mem _ inRest)) (by omega)
        refine ⟨nodes₂, next, ?_, scannedAll, inTheEnd⟩
        rw [read, Option.bind_some]
        dsimp only
        rw [visited, Option.bind_some, ran, names]
        rfl

/-- The loop does not come to an end behind a name that breaks it. -/
theorem visitFiles_undefined (scan : DirScan own shared nodes root entries world dir pointer slot) (low : 1 ≤ slot)
    (holds : inv nodes world) (breaks : ∀ {nodes world slot name sector visited next},
      DirScan own shared nodes root entries world dir pointer slot → inv nodes world → Named entries name sector →
      ¬ good name → run (MockOS.Fs.visit use name) world = some (visited, next) →
        ∀ rounds, run (MockOS.Fs.visitFiles dir use rounds) next = none)
    (someBad : ∃ name ∈ laterNames entries slot, ¬ good name) (rounds : Nat) :
    run (MockOS.Fs.visitFiles dir use rounds) world = none := by
  induction rounds generalizing nodes world slot with
  | zero => rfl
  | succ rounds ih =>
      rw [run_visitFiles_succ]
      rcases scan.dirReaddir with ⟨none, _⟩ | ⟨name, slot', names, later, inside, read⟩
      · obtain ⟨name, member, _⟩ := someBad
        rw [none] at member
        cases member
      · have member : name ∈ laterNames entries slot := by
          rw [names]
          exact List.mem_cons_self
        rw [read, Option.bind_some]
        dsimp only
        obtain ⟨sector, named⟩ := named_of_laterNames low member
        by_cases isGood : good name
        · obtain ⟨nodes₁, middle, visited, scanned, still⟩ := visits (scan.seekDir inside) (seeks holds) named isGood
          obtain ⟨bad, inNames, isBad⟩ := someBad
          rw [names] at inNames
          rcases List.mem_cons.mp inNames with rfl | inRest
          · exact absurd isGood isBad
          · rw [visited, Option.bind_some, ih scanned (by omega) still ⟨bad, inRest, isBad⟩]
            rfl
        · cases visited : run (MockOS.Fs.visit use name) (world.seekDir dir pointer 1 slot') with
          | none => rfl
          | some result =>
              rw [Option.bind_some, breaks (scan.seekDir inside) (seeks holds) named isGood visited]
              rfl

end Loop

end DirScan

end MockOS.Fs
