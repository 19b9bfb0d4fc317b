import MockOS.Fs.ByteFiles
import MockOS.Fs.DirectoryOps

namespace MockOS.Fs

variable {shared : BlockSector → Prop} {own after : Owners} {world middle next : World} {nodes nodesAfter : Nodes}
  {sector number : BlockSector} {pointer dir : Pointer} {root rootAfter data dataAfter : InodeDisk}
  {entries entriesAfter : List DirEntry} {name path : CString}

/-- The component of a path that is looked up in the root directory. -/
def fileName (path : CString) : CString := (splitPathFilename path).2

theorem OpenSame.trans (first : OpenSame sector world middle) (second : OpenSame sector middle next) :
    OpenSame sector world next := fun number different pointer data =>
  (second number different pointer data).trans (first number different pointer data)

/-- A step on the inodes leaves the open files and their table, and no object that was closed is open again. -/
structure Quiet (world next : World) : Prop where
  later : world.mem.nextPointer ≤ next.mem.nextPointer
  old : ∀ sector pointer data, Opened next sector pointer data → pointer < world.mem.nextPointer →
    ∃ before, Opened world sector pointer before
  fileTable : next.mem.fileTable = world.mem.fileTable
  files : ∀ pointer < world.mem.nextPointer, next.mem.files pointer = world.mem.files pointer
  freeMapFile : next.mem.freeMapFile = world.mem.freeMapFile

namespace Quiet

theorem refl (world : World) : Quiet world world :=
  ⟨Nat.le_refl _, fun _ _ data opened _ => ⟨data, opened⟩, rfl, fun _ _ => rfl, rfl⟩

theorem trans (first : Quiet world middle) (second : Quiet middle next) : Quiet world next where
  later := Nat.le_trans first.later second.later
  old sector pointer data opened below := by
    obtain ⟨before, between⟩ := second.old sector pointer data opened (Nat.lt_of_lt_of_le below first.later)
    exact first.old sector pointer before between below
  fileTable := second.fileTable.trans first.fileTable
  files pointer below :=
    (second.files pointer (Nat.lt_of_lt_of_le below first.later)).trans (first.files pointer below)
  freeMapFile := second.freeMapFile.trans first.freeMapFile

/-- A step that leaves the inode objects. -/
theorem of_objects (mem : next.mem = { world.mem with
      freeMap := next.mem.freeMap, allocationFailures := next.mem.allocationFailures, dirs := next.mem.dirs
      cwd := next.mem.cwd, nextPointer := next.mem.nextPointer, panics := next.mem.panics })
    (later : world.mem.nextPointer ≤ next.mem.nextPointer) : Quiet world next := by
  refine ⟨later, fun sector pointer data opened _ => ⟨data, ?_, ?_⟩, by rw [mem], fun _ _ => by rw [mem], by rw [mem]⟩
  · have member := opened.member
    rwa [mem] at member
  · have object := opened.object
    rwa [mem] at object

theorem openInode (sector : BlockSector) (data : InodeDisk) :
    Quiet world ⟨world.mem.openInode sector data, world.disk⟩ := by
  refine ⟨Nat.le_succ _, fun number pointer before opened below => ⟨before, ?_, ?_⟩, rfl, fun _ _ => rfl, rfl⟩
  · rcases List.mem_cons.mp opened.member with rfl | member
    · exact absurd below (Nat.lt_irrefl _)
    · exact member
  · have object := opened.object
    change Function.update world.mem.inodes world.mem.nextPointer _ pointer = _ at object
    rwa [Function.update_of_ne (Nat.ne_of_lt below)] at object

/-- A step that closes an object. -/
theorem closeInode (table : Table nodes world) (mem : next.mem = { world.mem.closeInode pointer with
      freeMap := next.mem.freeMap, dirs := next.mem.dirs, cwd := next.mem.cwd }) : Quiet world next := by
  refine ⟨by rw [mem]; exact Nat.le_refl _, fun number other before opened _ => ⟨before, ?_, ?_⟩, by rw [mem]; rfl,
    fun _ _ => by rw [mem]; rfl, by rw [mem]; rfl⟩
  · have member := opened.member
    rw [mem] at member
    exact List.mem_of_mem_erase member
  · have member := opened.member
    have object := opened.object
    rw [mem] at member object
    have apart := ((table.nodup.mem_erase_iff).mp member).1
    change Function.update world.mem.inodes pointer none other = _ at object
    rwa [Function.update_of_ne apart] at object

/-- A write to an open inode. -/
theorem write (opened : Opened world sector pointer data)
    (mem : next.mem = { world.mem with
      freeMap := next.mem.freeMap, allocationFailures := next.mem.allocationFailures
      inodes := Function.update world.mem.inodes pointer (some (.live sector dataAfter)) }) : Quiet world next := by
  refine ⟨by rw [mem], fun number other before again _ => ?_, by rw [mem], fun _ _ => by rw [mem], by rw [mem]⟩
  have member := again.member
  have object := again.object
  rw [mem] at member object
  change Function.update world.mem.inodes pointer _ other = _ at object
  by_cases same : other = pointer
  · subst same
    rw [Function.update_self, Option.some.injEq, Inode.live_inj] at object
    rw [← object.1]
    exact ⟨data, opened⟩
  · rw [Function.update_of_ne same] at object
    exact ⟨before, member, object⟩

end Quiet

/-- The files of the shell: an open inode of theirs is the one that the root directory gives for the name. -/
structure Handles (entries : List DirEntry) (world : World) : Prop where
  object : ∀ handle ∈ world.mem.fileTable, ∃ inode pos, world.mem.files handle.2 = some ⟨inode, pos, false⟩ ∧
    pos < 2147483648 ∧ handle.2 < world.mem.nextPointer ∧ inode < world.mem.nextPointer ∧
    ∀ sector data, Opened world sector inode data → Named entries (fileName handle.1) sector
  names : (world.mem.fileTable.map Prod.fst).Nodup
  files : (world.mem.fileTable.map Prod.snd).Nodup
  freeMapFile : ∀ handle ∈ world.mem.fileTable, world.mem.freeMapFile ≠ some handle.2

theorem Handles.quiet (handles : Handles entries world) (quiet : Quiet world next)
    (kept : ∀ name sector pointer data, Named entries name sector → Opened next sector pointer data →
      Named entriesAfter name sector) : Handles entriesAfter next := by
  constructor
  · intro handle member
    rw [quiet.fileTable] at member
    obtain ⟨inode, pos, object, inRange, fileOld, inodeOld, named⟩ := handles.object handle member
    refine ⟨inode, pos, (quiet.files _ fileOld).trans object, inRange, Nat.lt_of_lt_of_le fileOld quiet.later,
      Nat.lt_of_lt_of_le inodeOld quiet.later, fun sector data opened => ?_⟩
    obtain ⟨before, wasOpened⟩ := quiet.old sector inode data opened inodeOld
    exact kept _ _ _ _ (named sector before wasOpened) opened
  · rw [quiet.fileTable]
    exact handles.names
  · rw [quiet.fileTable]
    exact handles.files
  · rw [quiet.fileTable, quiet.freeMapFile]
    exact handles.freeMapFile

/-- The file system while commands run: the root directory names the regular files, which are all the other inodes. -/
structure Mounted (own : Owners) (shared : BlockSector → Prop) (nodes : Nodes) (root : InodeDisk)
    (entries : List DirEntry) (world : World) : Prop where
  volume : Volume own shared nodes world
  live : own.Live nodes world.disk
  present : nodes 1 = some root
  holds : HoldsEntries world.disk root entries
  tidy : Tidy entries
  regular : ∀ name sector, Named entries name sector → name ≠ [] ∧ sector ≠ 0 ∧ sector ≠ 1 ∧
    ∃ data, nodes sector = some data ∧ data.isDir = false ∧ TailZero world.disk data
  named : ∀ sector, nodes sector ≠ none → sector = 0 ∨ sector = 1 ∨ ∃ name, Named entries name sector
  handles : Handles entries world

/-- A step keeps the file system when the names that it leaves or adds are those of regular files. -/
theorem Mounted.step (mounted : Mounted own shared nodes root entries world) {changed : BlockSector → Prop}
    (volume : Volume after shared nodesAfter next) (frame : Frame changed nodes nodesAfter world next)
    (quiet : Quiet world next) (present : nodesAfter 1 = some rootAfter)
    (holds : HoldsEntries next.disk rootAfter entriesAfter) (tidy : Tidy entriesAfter)
    (names : ∀ name sector, Named entriesAfter name sector → Named entries name sector ∧ ¬ changed sector ∨
      name ≠ [] ∧ sector ≠ 0 ∧ sector ≠ 1 ∧
        ∃ data, nodesAfter sector = some data ∧ data.isDir = false ∧ TailZero next.disk data)
    (named : ∀ sector, nodesAfter sector ≠ none → sector = 0 ∨ sector = 1 ∨ ∃ name, Named entriesAfter name sector)
    (kept : ∀ name sector pointer data, Named entries name sector → Opened next sector pointer data →
      Named entriesAfter name sector) :
    Mounted (after.trim nodesAfter next.disk) shared nodesAfter rootAfter entriesAfter next where
  volume := volume.trim
  live := after.trim_live _ _
  present := present
  holds := holds
  tidy := tidy
  regular name sector isNamed := by
    rcases names name sector isNamed with ⟨before, same⟩ | regular
    · obtain ⟨notEmpty, nonzero, nonroot, data, there, isFile, tail⟩ := mounted.regular name sector before
      exact ⟨notEmpty, nonzero, nonroot, data, (frame.sameNodes sector same).trans there, isFile,
        (frame.sameBytes sector data same nonzero there).2 tail⟩
    · exact regular
  named := named
  handles := mounted.handles.quiet quiet kept

/-- A step that leaves the inodes and the sectors. -/
theorem Mounted.inMemory (mounted : Mounted own shared nodes root entries world) (volume : Volume after shared nodes next)
    (disk : next.disk = world.disk) (handles : Handles entries next) :
    Mounted (after.trim nodes next.disk) shared nodes root entries next where
  volume := volume.trim
  live := after.trim_live _ _
  present := mounted.present
  holds := disk ▸ mounted.holds
  tidy := mounted.tidy
  regular := disk ▸ mounted.regular
  named := mounted.named
  handles := handles

/-- A step on the root directory that keeps its names. -/
theorem Mounted.stepRoot (mounted : Mounted own shared nodes root entries world)
    (volume : Volume after shared nodesAfter next) (frame : Frame (· = 1) nodes nodesAfter world next)
    (quiet : Quiet world next) (present : nodesAfter 1 = some rootAfter)
    (holds : HoldsEntries next.disk rootAfter entries) :
    Mounted (after.trim nodesAfter next.disk) shared nodesAfter rootAfter entries next := by
  refine mounted.step volume frame quiet present holds mounted.tidy (fun name sector named => .inl ⟨named, ?_⟩)
    (fun sector there => ?_) (fun _ _ _ _ named _ => named)
  · exact (mounted.regular name sector named).2.2.1
  · by_cases isRoot : sector = 1
    · exact .inr (.inl isRoot)
    · rw [frame.sameNodes sector isRoot] at there
      exact mounted.named sector there

/-- A step that leaves the sectors and the free map. -/
structure InMemory (world next : World) : Prop where
  disk : next.disk = world.disk
  freeMap : next.mem.freeMap = world.mem.freeMap
  failures : next.mem.allocationFailures = world.mem.allocationFailures

theorem InMemory.refl (world : World) : InMemory world world := ⟨rfl, rfl, rfl⟩

theorem InMemory.trans (first : InMemory world middle) (second : InMemory middle next) : InMemory world next :=
  ⟨second.disk.trans first.disk, second.freeMap.trans first.freeMap, second.failures.trans first.failures⟩

/-- The file system between two commands: no directory is open. -/
structure AtPrompt (own : Owners) (shared : BlockSector → Prop) (nodes : Nodes) (root : InodeDisk)
    (entries : List DirEntry) (world : World) : Prop extends Mounted own shared nodes root entries world where
  cwd : world.mem.cwd = none
  rootClosed : world.closed 1

/-- The file system while a command uses the root directory. -/
structure RootOpen (own : Owners) (shared : BlockSector → Prop) (nodes : Nodes) (root : InodeDisk)
    (entries : List DirEntry) (world : World) (dir pointer : Pointer) : Prop
    extends Mounted own shared nodes root entries world where
  opened : Opened world 1 pointer root
  object : ∃ pos, world.mem.dirs dir = some ⟨pointer, pos, 1⟩
  cwd : world.mem.cwd = some dir

theorem RootOpen.dirOpened (open_ : RootOpen own shared nodes root entries world dir pointer) :
    DirOpened world dir 1 pointer root entries := by
  obtain ⟨pos, object⟩ := open_.object
  obtain ⟨first, there, _⟩ := open_.tidy.first
  obtain ⟨inside, _⟩ := List.getElem?_eq_some_iff.mp there
  exact ⟨⟨pos, 1, object⟩, open_.opened, open_.holds, by omega⟩

/-- `dir_open_root` opens the root directory. -/
theorem AtPrompt.dirOpenRoot (prompt : AtPrompt own shared nodes root entries world) : ∃ dir pointer own' next,
    run dirOpenRoot world = some (some dir, next) ∧ RootOpen own' shared nodes root entries next dir pointer ∧
      next.mem.dirs dir = some ⟨pointer, 36, 1⟩ ∧ Quiet world next ∧ InMemory world next ∧
      Frame (· = 1) nodes nodes world next := by
  obtain ⟨ran, opened, volume⟩ := prompt.volume.inodeOpen_closed prompt.present prompt.rootClosed
  obtain ⟨next, nextEq⟩ : ∃ next : World, next = ⟨{ (world.mem.openInode 1 root).openDir world.mem.nextPointer with
    cwd := some (world.mem.nextPointer + 1) }, world.disk⟩ := ⟨_, rfl⟩
  have opensDir := volume.openDir world.mem.nextPointer
  have volumeNext : Volume own shared nodes next := by
    rw [nextEq]
    exact opensDir.heap rfl rfl (fun _ _ => rfl) (Nat.le_refl _) fun above late => (opensDir.table.fresh above late).2
  have same : OpenSame 1 world next := by
    rw [nextEq]
    exact (OpenSame.openInode prompt.volume.table 1 root).trans (.of_mem rfl rfl)
  have quiet : Quiet world next := by
    refine (Quiet.openInode 1 root).trans (.of_objects ?_ ?_)
    · rw [nextEq]
      rfl
    · rw [nextEq]
      exact Nat.le_succ _
  have frame : Frame (· = 1) nodes nodes world next := .of_memory (by rw [nextEq]) (fun _ _ => rfl) same
  refine ⟨world.mem.nextPointer + 1, world.mem.nextPointer, _, next, ?_, ⟨prompt.toMounted.stepRoot volumeNext frame quiet
    prompt.present (by rw [nextEq]; exact prompt.holds), ?_, ⟨36, ?_⟩, ?_⟩, ?_, quiet, ?_, frame⟩
  · rw [MockOS.Fs.dirOpenRoot, run_bind, run_get, Option.bind_some, prompt.cwd]
    simp only [run_bind, ran, Option.bind_some, run_dirOpen, setCwd, run_modify, run_pure, nextEq]
    rfl
  · rw [nextEq]
    exact ⟨opened.member, opened.object⟩
  · rw [nextEq]
    exact Function.update_self _ _ _
  · rw [nextEq]
  · rw [nextEq]
    exact Function.update_self _ _ _
  · rw [nextEq]
    exact ⟨rfl, rfl, rfl⟩

/-- `dir_close` closes it again; its inode is what the disk holds. -/
theorem RootOpen.dirClose (open_ : RootOpen own shared nodes root entries world dir pointer) : ∃ own' next,
    run (dirClose (some dir)) world = some ((), next) ∧
      AtPrompt own' shared (Function.update nodes 1 (some (.ofSector (world.disk 1)))) (.ofSector (world.disk 1)) entries
        next ∧
      Quiet world next ∧ InMemory world next ∧
      Frame (· = 1) nodes (Function.update nodes 1 (some (.ofSector (world.disk 1)))) world next := by
  obtain ⟨pos, object⟩ := open_.object
  have volume := open_.volume.closeDir open_.opened (by decide) dir
  have same : OpenSame 1 world ⟨world.mem.closeDir dir pointer, world.disk⟩ :=
    .closeInode open_.volume.table open_.opened rfl rfl
  have quiet : Quiet world ⟨world.mem.closeDir dir pointer, world.disk⟩ :=
    .closeInode open_.volume.table rfl
  have frame : Frame (· = 1) nodes (Function.update nodes 1 (some (.ofSector (world.disk 1)))) world
      ⟨world.mem.closeDir dir pointer, world.disk⟩ :=
    .of_memory rfl (fun number different => Function.update_of_ne different _ _) same
  have node := open_.volume.node 1 root open_.present
  refine ⟨_, _, run_dirClose object open_.opened, ⟨open_.toMounted.stepRoot volume frame quiet (Function.update_self _ _ _)
    (node.holdsEntries_reload (by decide) open_.holds), rfl, ?_⟩, quiet, ⟨rfl, rfl, rfl⟩, frame⟩
  exact closed_closeInode open_.volume.table open_.opened rfl rfl

end MockOS.Fs
