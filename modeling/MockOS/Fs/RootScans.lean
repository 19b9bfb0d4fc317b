import MockOS.Fs.DirScans

namespace MockOS.Fs

variable {shared : BlockSector → Prop} {own after : Owners} {world middle next : World}
  {nodes nodesAfter : Nodes} {sector number : BlockSector} {pointer dir file inode : Pointer}
  {root data dataAfter : InodeDisk} {entries : List DirEntry} {name path : CString} {slot : Nat} {pos : Int}

/-- The file system while a command goes through the root directory. -/
structure RootScan (own : Owners) (shared : BlockSector → Prop) (nodes : Nodes) (root : InodeDisk)
    (entries : List DirEntry) (world : World) (dir pointer : Pointer) (slot : Nat) : Prop
    extends RootOpen own shared nodes root entries world dir pointer where
  cursor : world.mem.dirs dir = some ⟨pointer, (36 * slot : Nat), 1⟩
  inside : slot ≤ entries.length

/-- The memory after `dir_open_root` of the closed root directory. -/
def Mem.openRoot (mem : Mem) (root : InodeDisk) : Mem :=
  { (mem.openInode 1 root).openDir mem.nextPointer with cwd := some (mem.nextPointer + 1) }

theorem Volume.run_dirOpenRoot (volume : Volume own shared nodes world) (present : nodes 1 = some root)
    (closed : world.closed 1) (cwd : world.mem.cwd = none) :
    run dirOpenRoot world = some (some (world.mem.nextPointer + 1), ⟨world.mem.openRoot root, world.disk⟩) := by
  have opens := (volume.inodeOpen_closed present closed).1
  rw [dirOpenRoot, run_bind, run_get, Option.bind_some, cwd]
  simp only [run_bind, opens, Option.bind_some, run_dirOpen, setCwd, run_modify, run_pure]
  rfl

theorem AtPrompt.run_dirOpenRoot (prompt : AtPrompt own shared nodes root entries world) :
    run MockOS.Fs.dirOpenRoot world = some (some (world.mem.nextPointer + 1), ⟨world.mem.openRoot root, world.disk⟩) :=
  prompt.volume.run_dirOpenRoot prompt.present prompt.rootClosed prompt.cwd

/-- A scan starts behind the entry for the parent. -/
theorem AtPrompt.startScan (prompt : AtPrompt own shared nodes root entries world) : ∃ own',
    RootScan own' shared nodes root entries ⟨world.mem.openRoot root, world.disk⟩ (world.mem.nextPointer + 1)
      world.mem.nextPointer 1 := by
  obtain ⟨dir, pointer, own', next, ran, open_, object, _⟩ := prompt.dirOpenRoot
  rw [prompt.run_dirOpenRoot, Option.some.injEq, Prod.mk.injEq, Option.some.injEq] at ran
  obtain ⟨rfl, rfl⟩ := ran
  have here : (world.mem.openRoot root).dirs (world.mem.nextPointer + 1) = some ⟨world.mem.nextPointer, 36, 1⟩ :=
    Function.update_self _ _ _
  have same := object.symm.trans here
  rw [Option.some.injEq, Dir.mk.injEq] at same
  obtain ⟨rfl, _⟩ := same
  exact ⟨own', open_, here, open_.dirOpened.some_entry⟩

theorem RootScan.dirScan (scan : RootScan own shared nodes root entries world dir pointer slot) :
    DirScan own shared nodes root entries world dir pointer slot := by
  refine ⟨scan.volume, scan.dirOpened, scan.tidy, fun name sector named => ?_, scan.cwd, scan.cursor, scan.inside⟩
  obtain ⟨notEmpty, nonzero, nonroot, data, present, _⟩ := scan.regular name sector named
  exact ⟨notEmpty, nonzero, nonroot, data, present⟩

theorem RootScan.seekDir (scan : RootScan own shared nodes root entries world dir pointer slot) {slot' : Nat}
    (inside : slot' ≤ entries.length) :
    ∃ own', RootScan own' shared nodes root entries (world.seekDir dir pointer 1 slot') dir pointer slot' := by
  obtain ⟨own', open_⟩ := scan.toRootOpen.seekDir slot'
  exact ⟨own', open_, Function.update_self _ _ _, inside⟩

/-- `filesys_open` of a name while the root directory is gone through. -/
theorem RootScan.filesysOpen (scan : RootScan own shared nodes root entries world dir pointer slot)
    (notDot : fileName path ≠ [46]) (notDots : fileName path ≠ [46, 46]) (named : Named entries (fileName path) sector) :
    ∃ inode data mem own',
      run (filesysOpen path) world = some (some mem.nextPointer, ⟨mem.newFile ⟨inode, 0, false⟩, world.disk⟩) ∧
      RootScan own' shared nodes root entries ⟨mem, world.disk⟩ dir pointer slot ∧
      Opened ⟨mem, world.disk⟩ sector inode data ∧ nodes sector = some data ∧
      (mem = world.mem ∨
        world.closed sector ∧ inode = world.mem.nextPointer ∧ mem = world.mem.openInode sector data) := by
  obtain ⟨inode, data, mem, opens, scanned, opened, present, how⟩ := scan.dirScan.filesysOpen notDot notDots named
  have ran : run (inodeOpen sector) world = some (inode, ⟨mem, world.disk⟩) := by
    rcases how with rfl | ⟨closed, rfl, rfl⟩
    · exact inodeOpen_opened scan.volume.table opened
    · exact (scan.volume.inodeOpen_closed present closed).1
  obtain ⟨inode', data', own', next, ran', open_, _⟩ := scan.toRootOpen.inodeOpen named
  rw [ran, Option.some.injEq, Prod.mk.injEq] at ran'
  obtain ⟨-, rfl⟩ := ran'
  exact ⟨inode, data, mem, own', opens, ⟨open_, scanned.cursor, scanned.inside⟩, opened, present, how⟩

/-- Addresses that are not used again do not matter. -/
theorem Mounted.later (mounted : Mounted own shared nodes root entries world) {later : Pointer}
    (above : world.mem.nextPointer ≤ later) :
    ∃ own', Mounted own' shared nodes root entries ⟨{ world.mem with nextPointer := later }, world.disk⟩ :=
  ⟨_, mounted.inMemory (mounted.volume.heap rfl rfl (fun _ _ => rfl) above fun _ late =>
    (mounted.volume.table.fresh _ (Nat.le_trans above late)).2) rfl
    (mounted.handles.quiet (.of_objects rfl above) fun _ _ _ _ named _ => named)⟩

theorem RootScan.later (scan : RootScan own shared nodes root entries world dir pointer slot) {later : Pointer}
    (above : world.mem.nextPointer ≤ later) : ∃ own',
    RootScan own' shared nodes root entries ⟨{ world.mem with nextPointer := later }, world.disk⟩ dir pointer slot := by
  obtain ⟨own', mounted⟩ := scan.toMounted.later above
  exact ⟨own', ⟨mounted, ⟨scan.opened.member, scan.opened.object⟩, scan.object, scan.cwd⟩, scan.cursor, scan.inside⟩

/-- The root directory of a freshly formatted device is open. -/
theorem rootOpen_small : ∃ world own shared nodes root,
    run (filesysInit true) ⟨.boot 300 fun _ => 0, fun _ => zeros⟩ = some ((), world) ∧
      run dirOpenRoot world = some (some (world.mem.nextPointer + 1), ⟨world.mem.openRoot root, world.disk⟩) ∧
      Volume own shared nodes ⟨world.mem.openRoot root, world.disk⟩ ∧
      Opened ⟨world.mem.openRoot root, world.disk⟩ 1 world.mem.nextPointer root ∧ root.length = 36000 := by
  obtain ⟨world, own, shared, nodes, root, formatted, _, _, prompt⟩ := format_small
  obtain ⟨own', scan⟩ := prompt.startScan
  have length : root.length = ((36 * (newEntries 1 1000).length : Nat) : Int) := scan.holds.length
  rw [show (newEntries 1 1000).length = 1000 from by rw [newEntries, List.length_cons, List.length_replicate]] at length
  exact ⟨world, own', shared, nodes, root, formatted, prompt.run_dirOpenRoot, scan.volume, scan.opened, length⟩

end MockOS.Fs
