import MockOS.Fs.Mounted

namespace MockOS.Fs

variable {shared : BlockSector → Prop} {own after : Owners} {world middle next : World}
  {nodes nodesBetween nodesAfter : Nodes} {sector number : BlockSector} {pointer dir : Pointer}
  {root rootAfter data dataAfter : InodeDisk} {entries : List DirEntry} {name path : CString}

/-- The bytes of the inodes other than those that a step changes; an inode can be read again from its sector. -/
def SameBytes (changed : BlockSector → Prop) (nodes nodesAfter : Nodes) (world next : World) : Prop :=
  ∀ sector data, ¬ changed sector → sector ≠ 0 → nodes sector = some data → ∃ dataAfter,
    nodesAfter sector = some dataAfter ∧ fileBytes next.disk dataAfter = fileBytes world.disk data

namespace SameBytes

variable {changed wider : BlockSector → Prop}

theorem refl (changed : BlockSector → Prop) (nodes : Nodes) (disk : next.disk = world.disk) :
    SameBytes changed nodes nodes world next := fun _ data _ _ present => ⟨data, present, by rw [disk]⟩

theorem trans (first : SameBytes changed nodes nodesBetween world middle)
    (second : SameBytes changed nodesBetween nodesAfter middle next) : SameBytes changed nodes nodesAfter world next := by
  intro sector data same nonzero present
  obtain ⟨between, there, one⟩ := first sector data same nonzero present
  obtain ⟨after, here, two⟩ := second sector between same nonzero there
  exact ⟨after, here, two.trans one⟩

theorem mono (same : SameBytes changed nodes nodesAfter world next) (subset : ∀ sector, changed sector → wider sector) :
    SameBytes wider nodes nodesAfter world next := fun sector data outside =>
  same sector data fun inside => outside (subset sector inside)

theorem of_frame (frame : Frame changed nodes nodesAfter world next) : SameBytes changed nodes nodesAfter world next :=
  fun sector data outside nonzero present =>
    ⟨data, (frame.sameNodes sector outside).trans present, (frame.sameBytes sector data outside nonzero present).1⟩

/-- An inode that is read again has the same bytes. -/
theorem reload (volume : Volume own shared nodes world) (disk : next.disk = world.disk) (nonzero : sector ≠ 0)
    (present : nodes sector = some data) : SameBytes (fun _ => False) nodes
      (Function.update nodes sector (some (.ofSector (world.disk sector)))) world next := by
  intro number before _ _ there
  by_cases same : number = sector
  · subst same
    rw [present, Option.some.injEq] at there
    subst there
    refine ⟨_, Function.update_self _ _ _, ?_⟩
    rw [disk]
    exact (volume.node number data present).fileBytes_reload nonzero
  · exact ⟨before, (Function.update_of_ne same _ _).trans there, by rw [disk]⟩

end SameBytes

/-- The inode of a file is opened while the root directory is open. -/
theorem RootOpen.inodeOpen (open_ : RootOpen own shared nodes root entries world dir pointer)
    (named : Named entries name sector) : ∃ inode data own' next,
    run (inodeOpen sector) world = some (inode, next) ∧ RootOpen own' shared nodes root entries next dir pointer ∧
      nodes sector = some data ∧ Opened next sector inode data ∧ inode < next.mem.nextPointer ∧ Quiet world next ∧
      InMemory world next := by
  obtain ⟨_, nonzero, nonroot, data, present, _⟩ := open_.regular name sector named
  obtain ⟨inode, mem, ran, opened, volume, how⟩ := open_.volume.inodeOpen present
  have quiet : Quiet world ⟨mem, world.disk⟩ := by
    rcases how with same | ⟨_, _, same⟩
    · rw [same]
      exact .refl _
    · rw [same]
      exact .openInode sector data
  have same : OpenSame sector world ⟨mem, world.disk⟩ := by
    rcases how with same | ⟨_, _, same⟩
    · rw [same]
      exact .refl _ _
    · rw [same]
      exact .openInode open_.volume.table sector data
  have shape : mem.dirs = world.mem.dirs ∧ mem.cwd = world.mem.cwd ∧ mem.freeMap = world.mem.freeMap ∧
      mem.allocationFailures = world.mem.allocationFailures := by
    rcases how with same | ⟨_, _, same⟩
    · rw [same]
      exact ⟨rfl, rfl, rfl, rfl⟩
    · rw [same]
      exact ⟨rfl, rfl, rfl, rfl⟩
  have below : inode < mem.nextPointer := by
    by_contra above
    have noInode := (volume.table.fresh inode (Nat.not_lt.mp above)).1
    rw [opened.object] at noInode
    cases noInode
  obtain ⟨pos, object⟩ := open_.object
  refine ⟨inode, data, _, _, ran, ⟨open_.toMounted.inMemory volume rfl
    (open_.handles.quiet quiet fun _ _ _ _ named _ => named), (same 1 nonroot.symm _ _).mpr open_.opened, ⟨pos, ?_⟩, ?_⟩,
    present, opened, below, quiet, ⟨rfl, shape.2.2.1, shape.2.2.2⟩⟩
  · rw [shape.1]
    exact object
  · rw [shape.2.1]
    exact open_.cwd

/-- `dir_lookup` of a name other than the dots. -/
theorem RootOpen.dirLookup (open_ : RootOpen own shared nodes root entries world dir pointer) (notDot : name ≠ [46])
    (notDots : name ≠ [46, 46]) :
    (∀ sector, ¬ Named entries name sector) ∧ run (dirLookup dir name) world = some (none, world) ∨
      ∃ sector inode data own' next, Named entries name sector ∧ run (dirLookup dir name) world = some (some inode, next) ∧
        RootOpen own' shared nodes root entries next dir pointer ∧ nodes sector = some data ∧
        Opened next sector inode data ∧ inode < next.mem.nextPointer ∧ Quiet world next ∧ InMemory world next := by
  have looks := open_.volume.lookup open_.dirOpened name
  cases found : entries[nameSlot entries name]? with
  | none =>
      refine .inl ⟨nameSlot_none found, ?_⟩
      rw [MockOS.Fs.dirLookup, run_bind, open_.dirOpened.run_dirGetInode, Option.bind_some, if_neg notDot, if_neg notDots,
        run_bind, looks, found]
      rfl
  | some entry =>
      have named : Named entries name entry.inodeSector := by
        rw [open_.tidy.named_iff, found]
        rfl
      obtain ⟨inode, data, own', next, ran, after, present, opened, below, quiet, inMemory⟩ := open_.inodeOpen named
      refine .inr ⟨_, inode, data, own', next, named, ?_, after, present, opened, below, quiet, inMemory⟩
      rw [MockOS.Fs.dirLookup, run_bind, open_.dirOpened.run_dirGetInode, Option.bind_some, if_neg notDot, if_neg notDots,
        run_bind, looks, found]
      simp only [Option.map_some, Option.bind_some, run_bind, ran, run_pure]

/-- The memory with one more file object. -/
def Mem.newFile (mem : Mem) (file : File) : Mem :=
  { mem with nextPointer := mem.nextPointer + 1, files := Function.update mem.files mem.nextPointer (some file) }

theorem run_fileOpen : run (fileOpen (some pointer)) world =
    some (some world.mem.nextPointer, ⟨world.mem.newFile ⟨pointer, 0, false⟩, world.disk⟩) := rfl

theorem Quiet.newFile (file : File) : Quiet world ⟨world.mem.newFile file, world.disk⟩ := by
  refine ⟨Nat.le_succ _, fun sector pointer data opened _ => ⟨data, opened.member, opened.object⟩, rfl,
    fun pointer below => ?_, rfl⟩
  exact Function.update_of_ne (Nat.ne_of_lt below) _ _

theorem Volume.newFile (volume : Volume own shared nodes world) (file : File) :
    Volume own shared nodes ⟨world.mem.newFile file, world.disk⟩ := by
  refine volume.heap rfl rfl (fun pointer opens => ?_) (Nat.le_succ _) fun pointer above => ?_
  · obtain ⟨freeMapPointer, freeMapFile, data, opened, _⟩ := volume.freeMap
    have same := opened.opened
    rw [opens, Option.some.injEq] at same
    refine Function.update_of_ne ?_ _ _
    rintro rfl
    have noFile := (volume.table.fresh _ (Nat.le_refl world.mem.nextPointer)).2.1
    rw [same, opened.liveFile] at noFile
    cases noFile
  · have above : world.mem.nextPointer + 1 ≤ pointer := above
    obtain ⟨_, noFile, noDir⟩ := volume.table.fresh pointer (Nat.le_of_succ_le above)
    refine ⟨?_, noDir⟩
    exact (Function.update_of_ne (Nat.ne_of_gt above) _ _).trans noFile

theorem Mounted.newFile (mounted : Mounted own shared nodes root entries world) (file : File) :
    ∃ own', Mounted own' shared nodes root entries ⟨world.mem.newFile file, world.disk⟩ :=
  ⟨_, mounted.inMemory (mounted.volume.newFile file) rfl
    (mounted.handles.quiet (.newFile file) fun _ _ _ _ named _ => named)⟩

theorem AtPrompt.newFile (prompt : AtPrompt own shared nodes root entries world) (file : File) :
    ∃ own', AtPrompt own' shared nodes root entries ⟨world.mem.newFile file, world.disk⟩ := by
  obtain ⟨own', mounted⟩ := prompt.toMounted.newFile file
  exact ⟨own', mounted, prompt.cwd, fun pointer member data object => prompt.rootClosed pointer member data object⟩

/-- `filesys_open` gives a new file on the inode of the name. -/
theorem AtPrompt.filesysOpen (prompt : AtPrompt own shared nodes root entries world) (notEmpty : fileName path ≠ [])
    (notDot : fileName path ≠ [46]) (notDots : fileName path ≠ [46, 46]) : ∃ own' nodes' root' next,
    AtPrompt own' shared nodes' root' entries next ∧ Quiet world next ∧ InMemory world next ∧
      SameBytes (fun _ => False) nodes nodes' world next ∧ (∀ number, number ≠ 1 → nodes' number = nodes number) ∧
      ((∀ sector, ¬ Named entries (fileName path) sector) ∧ run (filesysOpen path) world = some (none, next) ∨
        ∃ sector inode data file, Named entries (fileName path) sector ∧ run (filesysOpen path) world = some (some file, next) ∧
          nodes sector = some data ∧ Opened next sector inode data ∧ next.mem.files file = some ⟨inode, 0, false⟩ ∧
          world.mem.nextPointer ≤ file ∧ file < next.mem.nextPointer ∧ inode < next.mem.nextPointer) := by
  have pathNotEmpty : path ≠ [] := by
    rintro rfl
    exact notEmpty rfl
  obtain ⟨dir, pointer, own₁, world₁, ran₁, open₁, _, quiet₁, inMemory₁, frame₁⟩ := prompt.dirOpenRoot
  have ran : run (MockOS.Fs.filesysOpen path) world = (run (dirLookup dir (fileName path)) world₁).bind fun result =>
      run (do dirClose (some dir); openInode result.1) result.2 := by
    rw [MockOS.Fs.filesysOpen, if_neg pathNotEmpty]
    change run (do
      let dir ← deref (← MockOS.Fs.dirOpenRoot)
      if fileName path = [] then openInode (some (← dirGetInode dir))
      else do
        let inode ← dirLookup dir (fileName path)
        dirClose (some dir)
        openInode inode) world = _
    simp only [run_bind, ran₁, Option.bind_some, run_deref_some, if_neg notEmpty]
  rcases open₁.dirLookup notDot notDots with ⟨absent, ran₂⟩ |
    ⟨sector, inode, data, own₂, world₂, named, ran₂, open₂, present, opened, below, quiet₂, inMemory₂⟩
  · obtain ⟨own₃, world₃, ran₃, prompt₃, quiet₃, inMemory₃, frame₃⟩ := open₁.dirClose
    refine ⟨own₃, _, _, world₃, prompt₃, quiet₁.trans quiet₃, inMemory₁.trans inMemory₃, ?_,
      fun number different => Function.update_of_ne different _ _, .inl ⟨absent, ?_⟩⟩
    · exact (SameBytes.refl _ nodes inMemory₁.disk).trans
        (.reload open₁.volume inMemory₃.disk (by decide) open₁.present)
    · rw [ran, ran₂, Option.bind_some, run_bind, ran₃]
      rfl
  · obtain ⟨own₃, world₃, ran₃, prompt₃, quiet₃, inMemory₃, frame₃⟩ := open₂.dirClose
    have nonroot := (open₂.regular _ _ named).2.2.1
    have opened₃ := (frame₃.sameOpen sector nonroot inode data).mpr opened
    obtain ⟨own₄, prompt₄⟩ := prompt₃.newFile ⟨inode, 0, false⟩
    refine ⟨own₄, _, _, _, prompt₄, ((quiet₁.trans quiet₂).trans quiet₃).trans (.newFile _),
      ((inMemory₁.trans inMemory₂).trans inMemory₃).trans ⟨rfl, rfl, rfl⟩, ?_,
      fun number different => Function.update_of_ne different _ _,
      .inr ⟨sector, inode, data, world₃.mem.nextPointer, named, ?_, present, ⟨opened₃.member, opened₃.object⟩,
        Function.update_self _ _ _, ?_, Nat.lt_succ_self _, ?_⟩⟩
    · refine ((SameBytes.refl _ nodes (inMemory₁.trans inMemory₂).disk).trans
        (.reload open₂.volume inMemory₃.disk (by decide) open₂.present)).trans (.refl _ _ rfl)
    · rw [ran, ran₂, Option.bind_some, run_bind, ran₃, Option.bind_some, openInode, run_bind, inodeIsRemoved, run_bind,
        run_getInode opened₃.object, Option.bind_some, run_pure, Option.bind_some]
      exact run_fileOpen
    · exact ((quiet₁.trans quiet₂).trans quiet₃).later
    · exact Nat.lt_succ_of_lt (Nat.lt_of_lt_of_le below quiet₃.later)

/-- The entry of the file table for a path. -/
def World.handle (world : World) (path : CString) : Option (CString × Pointer) :=
  world.mem.fileTable.find? fun entry => entry.1 == path

/-- The position of a path: that of its file, and 0 for a file that is opened first. -/
def World.position (world : World) (path : CString) : Int :=
  ((world.handle path).bind fun entry => world.mem.files entry.2).elim 0 File.pos

/-- A command can use the path: the inode of its file is still open, or the path does not lead to the root directory. -/
def World.Usable (world : World) (path : CString) : Prop :=
  match world.handle path with
  | some entry => ∃ file, world.mem.files entry.2 = some file ∧ file.inode ∈ world.mem.openInodes
  | none => path = [] ∨ fileName path ≠ [] ∧ fileName path ≠ [46] ∧ fileName path ≠ [46, 46]

theorem handle_some {entry : CString × Pointer} (found : world.handle path = some entry) :
    entry ∈ world.mem.fileTable ∧ entry.1 = path :=
  ⟨List.mem_of_find?_eq_some found, by simpa using List.find?_some found⟩

theorem handle_none (absent : world.handle path = none) : path ∉ world.mem.fileTable.map Prod.fst := by
  intro member
  obtain ⟨entry, inTable, same⟩ := List.mem_map.mp member
  have different := List.find?_eq_none.mp absent entry inTable
  simp [same] at different

theorem run_getFileByFname : run (getFileByFname path) world = some ((world.handle path).map Prod.snd, world) := rfl

/-- An open file of the shell on the inode of its name. -/
structure HandleOpen (entries : List DirEntry) (world : World) (path : CString) (file inode : Pointer) (pos : Int)
    (sector : BlockSector) (data : InodeDisk) : Prop where
  handle : world.handle path = some (path, file)
  object : world.mem.files file = some ⟨inode, pos, false⟩
  opened : Opened world sector inode data
  named : Named entries (fileName path) sector
  inRange : pos < 2147483648

theorem HandleOpen.usable {file inode : Pointer} {pos : Int}
    (handle : HandleOpen entries world path file inode pos sector data) : world.Usable path := by
  rw [World.Usable, handle.handle]
  exact ⟨_, handle.object, handle.opened.member⟩

theorem HandleOpen.position {file inode : Pointer} {pos : Int}
    (handle : HandleOpen entries world path file inode pos sector data) : world.position path = pos := by
  rw [World.position, handle.handle, Option.bind_some, handle.object]
  rfl

/-- A file in the table whose inode is open. -/
theorem AtPrompt.handleOpen (prompt : AtPrompt own shared nodes root entries world) {entry : CString × Pointer}
    (found : world.handle path = some entry) (usable : world.Usable path) : ∃ inode pos sector data,
    HandleOpen entries world path entry.2 inode pos sector data := by
  obtain ⟨member, same⟩ := handle_some found
  obtain ⟨inode, pos, object, inRange, _, _, named⟩ := prompt.handles.object entry member
  rw [World.Usable, found] at usable
  obtain ⟨file, here, isOpen⟩ := usable
  rw [object, Option.some.injEq] at here
  subst here
  obtain ⟨sector, data, live, _⟩ := prompt.volume.table.opened inode isOpen
  have opened : Opened world sector inode data := ⟨isOpen, live⟩
  refine ⟨inode, pos, sector, data, ?_, object, opened, same ▸ named sector data opened, inRange⟩
  rw [found, ← same]

/-- The memory with one more entry of the file table. -/
def Mem.listFile (mem : Mem) (path : CString) (file : Pointer) : Mem :=
  { mem with fileTable := mem.fileTable ++ [(path, file)] }

theorem run_addToFileTable {file : Pointer} (absent : world.handle path = none) :
    run (addToFileTable file path) world = some ((), ⟨world.mem.listFile path file, world.disk⟩) := by
  rw [MockOS.Fs.addToFileTable, run_bind, run_getFileByFname, absent, Option.map_none, Option.bind_some, run_modify]
  rfl

/-- A new file is added to the table. -/
theorem Mounted.addToFileTable (mounted : Mounted own shared nodes root entries world) {file inode : Pointer} {pos : Int}
    (absent : world.handle path = none) (object : world.mem.files file = some ⟨inode, pos, false⟩) (inRange : pos < 2147483648)
    (fileOld : file < world.mem.nextPointer) (inodeOld : inode < world.mem.nextPointer)
    (opened : Opened world sector inode data) (named : Named entries (fileName path) sector)
    (unlisted : file ∉ world.mem.fileTable.map Prod.snd) (notFreeMap : world.mem.freeMapFile ≠ some file) :
    ∃ own', Mounted own' shared nodes root entries ⟨world.mem.listFile path file, world.disk⟩ ∧
      HandleOpen entries ⟨world.mem.listFile path file, world.disk⟩ path file inode pos sector data := by
  have handles : Handles entries ⟨world.mem.listFile path file, world.disk⟩ := by
    constructor
    · intro handle member
      rcases List.mem_append.mp member with member | member
      · obtain ⟨inode, pos, object, inRange, fileOld, inodeOld, named⟩ := mounted.handles.object handle member
        exact ⟨inode, pos, object, inRange, fileOld, inodeOld, fun sector data opened =>
          named sector data ⟨opened.member, opened.object⟩⟩
      · rw [List.mem_singleton.mp member]
        refine ⟨inode, pos, object, inRange, fileOld, inodeOld, fun number other again => ?_⟩
        have same := again.object
        change world.mem.inodes inode = _ at same
        rw [opened.object, Option.some.injEq, Inode.live_inj] at same
        rw [← same.1]
        exact named
    · rw [Mem.listFile, List.map_append, List.nodup_append']
      refine ⟨mounted.handles.names, List.nodup_singleton _, fun key member other => ?_⟩
      rw [List.mem_singleton.mp other] at member
      exact handle_none absent member
    · rw [Mem.listFile, List.map_append, List.nodup_append']
      refine ⟨mounted.handles.files, List.nodup_singleton _, fun pointer member other => ?_⟩
      rw [List.mem_singleton.mp other] at member
      exact unlisted member
    · intro handle member
      rcases List.mem_append.mp member with member | member
      · exact mounted.handles.freeMapFile handle member
      · rw [List.mem_singleton.mp member]
        exact notFreeMap
  have volume : Volume own shared nodes ⟨world.mem.listFile path file, world.disk⟩ :=
    mounted.volume.heap rfl rfl (fun _ _ => rfl) (Nat.le_refl _) fun pointer above =>
      (mounted.volume.table.fresh pointer above).2
  refine ⟨_, mounted.inMemory volume rfl handles, ?_, object, ⟨opened.member, opened.object⟩, named, inRange⟩
  rw [World.handle, Mem.listFile, List.find?_append]
  unfold World.handle at absent
  rw [absent]
  simp

theorem AtPrompt.addToFileTable (prompt : AtPrompt own shared nodes root entries world) {file inode : Pointer} {pos : Int}
    (absent : world.handle path = none) (object : world.mem.files file = some ⟨inode, pos, false⟩) (inRange : pos < 2147483648)
    (fileOld : file < world.mem.nextPointer) (inodeOld : inode < world.mem.nextPointer)
    (opened : Opened world sector inode data) (named : Named entries (fileName path) sector)
    (unlisted : file ∉ world.mem.fileTable.map Prod.snd) (notFreeMap : world.mem.freeMapFile ≠ some file) :
    ∃ own' next, run (addToFileTable file path) world = some ((), next) ∧
      AtPrompt own' shared nodes root entries next ∧ InMemory world next ∧
      next.mem = { world.mem with fileTable := world.mem.fileTable ++ [(path, file)] } ∧
      HandleOpen entries next path file inode pos sector data := by
  obtain ⟨own', mounted, handle⟩ := prompt.toMounted.addToFileTable absent object inRange fileOld inodeOld opened named
    unlisted notFreeMap
  exact ⟨own', _, run_addToFileTable absent, ⟨mounted, prompt.cwd, fun pointer member data object =>
    prompt.rootClosed pointer member data object⟩, ⟨rfl, rfl, rfl⟩, rfl, handle⟩

/-- `command_file` gives the file of the path, or none when the root directory does not have the name. -/
theorem AtPrompt.commandFile (prompt : AtPrompt own shared nodes root entries world) (usable : world.Usable path) :
    ∃ own' nodes' root' next, AtPrompt own' shared nodes' root' entries next ∧ InMemory world next ∧
      SameBytes (fun _ => False) nodes nodes' world next ∧ (∀ number, number ≠ 1 → nodes' number = nodes number) ∧
      ((∀ sector, ¬ Named entries (fileName path) sector) ∧ run (commandFile path) world = some (none, next) ∧
          next.Usable path ∨
        ∃ file inode sector data, run (commandFile path) world = some (some file, next) ∧
          HandleOpen entries next path file inode (world.position path) sector data ∧ nodes' sector = some data) := by
  cases found : world.handle path with
  | some entry =>
      obtain ⟨inode, pos, sector, data, handle⟩ := prompt.handleOpen found usable
      refine ⟨own, nodes, root, world, prompt, .refl _, .refl _ _ rfl, fun _ _ => rfl,
        .inr ⟨entry.2, inode, sector, data, ?_, ?_, prompt.volume.table.node handle.opened⟩⟩
      · rw [MockOS.Fs.commandFile, run_bind, run_getFileByFname, found]
        rfl
      · rw [handle.position]
        exact handle
  | none =>
      rw [World.Usable, found] at usable
      rcases usable with rfl | ⟨notEmpty, notDot, notDots⟩
      · refine ⟨own, nodes, root, world, prompt, .refl _, .refl _ _ rfl, fun _ _ => rfl, .inl ⟨fun sector named => ?_, ?_, ?_⟩⟩
        · exact (prompt.regular _ _ named).1 rfl
        · rw [MockOS.Fs.commandFile, run_bind, run_getFileByFname, found]
          rfl
        · rw [World.Usable, found]
          exact .inl rfl
      · obtain ⟨own₁, nodes₁, root₁, world₁, prompt₁, quiet₁, inMemory₁, same₁, others₁, outcome⟩ :=
          prompt.filesysOpen notEmpty notDot notDots
        have absent₁ : world₁.handle path = none := by
          rw [World.handle, quiet₁.fileTable]
          exact found
        rcases outcome with ⟨absent, ran⟩ |
          ⟨sector, inode, data, file, named, ran, present, opened, object, new, fileOld, inodeOld⟩
        · refine ⟨own₁, nodes₁, root₁, world₁, prompt₁, inMemory₁, same₁, others₁, .inl ⟨absent, ?_, ?_⟩⟩
          · rw [MockOS.Fs.commandFile, run_bind, run_getFileByFname, found, Option.map_none, Option.bind_some, run_bind, ran]
            rfl
          · rw [World.Usable, absent₁]
            exact .inr ⟨notEmpty, notDot, notDots⟩
        · obtain ⟨own₂, world₂, ran₂, prompt₂, inMemory₂, _, handle⟩ := prompt₁.addToFileTable absent₁ object (by decide) fileOld
            inodeOld opened named (fun member => by
              rw [quiet₁.fileTable] at member
              obtain ⟨entry, inTable, rfl⟩ := List.mem_map.mp member
              obtain ⟨_, _, _, _, old, _⟩ := prompt.handles.object entry inTable
              exact absurd old (Nat.not_lt.mpr new)) (fun same => by
              obtain ⟨freeMapPointer, freeMapFile, _, freeMap, _⟩ := prompt.volume.freeMap
              have opens := freeMap.opened
              rw [← quiet₁.freeMapFile, same, Option.some.injEq] at opens
              have noFile := (prompt.volume.table.fresh file new).2.1
              rw [opens, freeMap.liveFile] at noFile
              cases noFile)
          have start : world.position path = 0 := by
            rw [World.position, found]
            rfl
          refine ⟨own₂, nodes₁, root₁, world₂, prompt₂, inMemory₁.trans inMemory₂, same₁.trans (.refl _ _ inMemory₂.disk),
            others₁, .inr ⟨file, inode, sector, data, ?_, ?_, prompt₂.volume.table.node handle.opened⟩⟩
          · rw [MockOS.Fs.commandFile, run_bind, run_getFileByFname, found, Option.map_none, Option.bind_some, run_bind, ran,
              Option.bind_some]
            dsimp only
            rw [run_bind, ran₂]
            rfl
          · rw [start]
            exact handle

end MockOS.Fs
