import MockOS.Fs.OpenFiles

namespace MockOS.Fs

variable {shared : BlockSector → Prop} {own after : Owners} {world middle next : World}
  {nodes nodesBetween nodesAfter : Nodes} {sector number : BlockSector} {pointer dir file inode : Pointer}
  {root rootAfter data dataAfter : InodeDisk} {entries : List DirEntry} {name path : CString} {pos : Int}

/-- The world with a file at another position. -/
def World.seekFile (world : World) (file inode : Pointer) (pos : Int) : World :=
  ⟨{ world.mem with files := Function.update world.mem.files file (some ⟨inode, pos, false⟩) }, world.disk⟩

theorem World.seekFile_same (object : world.mem.files file = some ⟨inode, pos, false⟩) :
    world.seekFile file inode pos = world := by
  rw [seekFile, ← object, Function.update_eq_self]

@[simp] theorem World.seekFile_seekFile (world : World) (file inode : Pointer) (first second : Int) :
    (world.seekFile file inode first).seekFile file inode second = world.seekFile file inode second := by
  simp only [seekFile, Function.update_idem]

theorem World.inMemory_seekFile (world : World) (file inode : Pointer) (pos : Int) :
    InMemory world (world.seekFile file inode pos) := ⟨rfl, rfl, rfl⟩

theorem HandleOpen.member (handle : HandleOpen entries world path file inode pos sector data) :
    (path, file) ∈ world.mem.fileTable := (handle_some handle.handle).1

theorem Mounted.seekFile (mounted : Mounted own shared nodes root entries world)
    (handle : HandleOpen entries world path file inode pos sector data) {newPos : Int} (inRange : newPos < 2147483648) :
    ∃ own', Mounted own' shared nodes root entries (world.seekFile file inode newPos) ∧
      HandleOpen entries (world.seekFile file inode newPos) path file inode newPos sector data := by
  have handles : Handles entries (world.seekFile file inode newPos) := by
    refine ⟨fun other member => ?_, mounted.handles.names, mounted.handles.files, mounted.handles.freeMapFile⟩
    obtain ⟨otherInode, otherPos, object, otherRange, fileOld, inodeOld, named⟩ := mounted.handles.object other member
    by_cases same : other.2 = file
    · rw [same, handle.object, Option.some.injEq, File.mk.injEq] at object
      obtain ⟨rfl, rfl, _⟩ := object
      refine ⟨inode, newPos, ?_, inRange, fileOld, inodeOld, fun sector data opened =>
        named sector data ⟨opened.member, opened.object⟩⟩
      rw [same]
      exact Function.update_self _ _ _
    · exact ⟨otherInode, otherPos, (Function.update_of_ne same _ _).trans object, otherRange, fileOld, inodeOld,
        fun sector data opened => named sector data ⟨opened.member, opened.object⟩⟩
  have volume : Volume own shared nodes (world.seekFile file inode newPos) := by
    refine mounted.volume.heap rfl rfl (fun opens same => ?_) (Nat.le_refl _) fun above late => ?_
    · refine Function.update_of_ne ?_ _ _
      rintro rfl
      exact mounted.handles.freeMapFile _ handle.member same
    · obtain ⟨_, noFile, noDir⟩ := mounted.volume.table.fresh above late
      refine ⟨(Function.update_of_ne ?_ _ _).trans noFile, noDir⟩
      rintro rfl
      rw [handle.object] at noFile
      cases noFile
  exact ⟨_, mounted.inMemory volume rfl handles, handle.handle, Function.update_self _ _ _,
    ⟨handle.opened.member, handle.opened.object⟩, handle.named, inRange⟩

theorem AtPrompt.seekFile (prompt : AtPrompt own shared nodes root entries world)
    (handle : HandleOpen entries world path file inode pos sector data) {newPos : Int} (inRange : newPos < 2147483648) :
    ∃ own', AtPrompt own' shared nodes root entries (world.seekFile file inode newPos) ∧
      HandleOpen entries (world.seekFile file inode newPos) path file inode newPos sector data := by
  obtain ⟨own', mounted, moved⟩ := prompt.toMounted.seekFile handle inRange
  exact ⟨own', ⟨mounted, prompt.cwd, fun pointer member data object => prompt.rootClosed pointer member data object⟩,
    moved⟩

theorem HandleOpen.run_fileSeek (handle : HandleOpen entries world path file inode pos sector data) (newPos : Int) :
    run (fileSeek file newPos) world = some ((), world.seekFile file inode newPos) := by
  rw [fileSeek, run_bind, run_getFile handle.object]
  rfl

theorem HandleOpen.run_fileLength (handle : HandleOpen entries world path file inode pos sector data) :
    run (fileLength file) world = some (data.length, world) := by
  rw [fileLength, run_bind, run_getFile handle.object, Option.bind_some, inodeLength, run_bind,
    run_getInode handle.opened.object]
  rfl

/-- An open inode of a file is closed; the node is what the disk holds. -/
theorem Mounted.inodeClose (mounted : Mounted own shared nodes root entries world) (opened : Opened world sector inode data)
    (named : Named entries name sector) : ∃ own', run (inodeClose (some inode)) world =
      some ((), ⟨world.mem.closeInode inode, world.disk⟩) ∧
    Mounted own' shared (Function.update nodes sector (some (.ofSector (world.disk sector)))) root entries
      ⟨world.mem.closeInode inode, world.disk⟩ ∧
    OpenSame sector world ⟨world.mem.closeInode inode, world.disk⟩ ∧
    (⟨world.mem.closeInode inode, world.disk⟩ : World).closed sector := by
  obtain ⟨_, nonzero, nonroot, before, present, isFile, tail⟩ := mounted.regular _ _ named
  obtain ⟨ran, volume⟩ := mounted.volume.inodeClose opened nonzero
  have node := mounted.volume.node sector before present
  have same : OpenSame sector world ⟨world.mem.closeInode inode, world.disk⟩ :=
    .closeInode mounted.volume.table opened rfl rfl
  have after := mounted.step volume
    (.of_memory rfl (fun number different => Function.update_of_ne different _ _) same)
    (.closeInode mounted.volume.table rfl) ((Function.update_of_ne nonroot.symm _ _).trans mounted.present) mounted.holds
    mounted.tidy
    (fun other number isNamed => by
      by_cases here : number = sector
      · subst here
        exact .inr ⟨(mounted.regular other number isNamed).1, nonzero, nonroot, _, Function.update_self _ _ _,
          (node.stored nonzero).isDir.trans isFile, node.tailZero_reload nonzero tail⟩
      · exact .inl ⟨isNamed, here⟩)
    (fun number there => by
      by_cases here : number = sector
      · exact .inr (.inr ⟨_, here ▸ named⟩)
      · rw [Function.update_of_ne here] at there
        exact mounted.named number there)
    (fun _ _ _ _ isNamed _ => isNamed)
  exact ⟨_, ran, after, same, closed_closeInode mounted.volume.table opened rfl rfl⟩

section OneFile

variable (prompt : AtPrompt own shared nodes root entries world)
  (handle : HandleOpen entries world path file inode pos sector data)

include prompt handle

theorem AtPrompt.sector_regular : sector ≠ 0 ∧ sector ≠ 1 ∧ nodes sector = some data ∧ TailZero world.disk data := by
  obtain ⟨_, nonzero, nonroot, other, present, _, tail⟩ := prompt.regular _ _ handle.named
  have here := prompt.volume.table.node handle.opened
  rw [here, Option.some.injEq] at present
  exact ⟨nonzero, nonroot, here, present ▸ tail⟩

theorem AtPrompt.length_small : (fileBytes world.disk data).length ≤ 8517120 := by
  have node := prompt.volume.node sector data (prompt.volume.table.node handle.opened)
  have high := node.high
  have maximum : maxBlocks = 16635 := rfl
  rw [fileBytes, length_bytesAt]
  omega

/-- `file_read` gives the bytes behind the position. -/
theorem AtPrompt.fileRead (nonnegative : 0 ≤ pos) (size : Int) {bytes : List UInt8}
    (same : bytes = ((fileBytes world.disk data).drop pos.toNat).take size.toNat) : ∃ own',
    run (fileRead file size) world = some (bytes, world.seekFile file inode (pos + bytes.length)) ∧
      AtPrompt own' shared nodes root entries (world.seekFile file inode (pos + bytes.length)) ∧
      HandleOpen entries (world.seekFile file inode (pos + bytes.length)) path file inode (pos + bytes.length) sector
        data := by
  have inRange := handle.inRange
  have small := prompt.length_small handle
  have moved : bytes.length = 0 ∨ pos + bytes.length ≤ 8517120 := by
    rw [same, List.length_take, List.length_drop]
    omega
  have read := prompt.volume.inodeReadAt handle.opened size (by omega : pos.toNat < 2147483648)
  rw [Int.toNat_of_nonneg nonnegative, ← same] at read
  obtain ⟨own', prompt', handle'⟩ := prompt.seekFile handle (by omega : pos + (bytes.length : Int) < 2147483648)
  have sum : wrap32 (pos + (bytes.length : Int)) = pos + bytes.length := wrap32_of_range (by omega) (by omega)
  refine ⟨own', ?_, prompt', handle'⟩
  rw [MockOS.Fs.fileRead, run_bind, run_getFile handle.object, Option.bind_some, run_bind, read, Option.bind_some,
    run_bind, run_setFile, Option.bind_some, run_pure]
  dsimp only
  rw [sum]
  rfl

/-- `file_write` stores all bytes, the last of them replaced by the terminator, or none. -/
theorem AtPrompt.fileWrite (nonnegative : 0 ≤ pos) (buffer : Nat → UInt8) {size : Int} (low : 1 ≤ size)
    (high : size < 2147483648) : ∃ written dataAfter middle after own',
    run (fileWrite file buffer size) world = some (written, middle.seekFile file inode (pos + (written - 2))) ∧
      InodeStep shared sector own after nodes (Function.update nodes sector (some dataAfter)) world middle ∧
      middle.mem = { world.mem with
        freeMap := middle.mem.freeMap, allocationFailures := middle.mem.allocationFailures
        inodes := Function.update world.mem.inodes inode (some (.live sector dataAfter)) } ∧
      AtPrompt own' shared (Function.update nodes sector (some dataAfter)) root entries
        (middle.seekFile file inode (pos + (written - 2))) ∧
      HandleOpen entries (middle.seekFile file inode (pos + (written - 2))) path file inode (pos + (written - 2)) sector
        dataAfter ∧
      (written = size ∧
          Stores own after sector data dataAfter (terminated buffer size) size.toNat pos.toNat world middle ∨
        written = 0 ∧ Keeps data dataAfter size.toNat pos.toNat world middle) := by
  obtain ⟨nonzero, nonroot, present, tail⟩ := prompt.sector_regular handle
  have inRange := handle.inRange
  have maximum : maxBlocks = 16635 := rfl
  obtain ⟨dataAfter, middle, after, step, mem, isDir, outcome⟩ := prompt.volume.inodeWriteAt handle.opened nonzero
    (terminated buffer size) (by omega : 0 < size.toNat) (by omega) (by omega : pos.toNat < 2147483648)
  rw [Int.toNat_of_nonneg nonnegative, Int.toNat_of_nonneg (by omega : 0 ≤ size)] at outcome
  obtain ⟨same, opened⟩ := handle.opened.write mem
  obtain ⟨written, ran, stored, tailAfter⟩ : ∃ written,
      run (inodeWriteAt inode (terminated buffer size) size pos) world = some (written, middle) ∧
      (written = size ∧
          Stores own after sector data dataAfter (terminated buffer size) size.toNat pos.toNat world middle ∨
        written = 0 ∧ Keeps data dataAfter size.toNat pos.toNat world middle) ∧ TailZero middle.disk dataAfter := by
    rcases outcome with ⟨ran, stores⟩ | ⟨ran, keeps⟩
    · exact ⟨size, ran, .inl ⟨rfl, stores⟩, (stores.bytes tail).1⟩
    · exact ⟨0, ran, .inr ⟨rfl, keeps⟩, (keeps.bytes tail).1⟩
  have mounted := prompt.toMounted.step step.volume (.of_step step prompt.volume same) (.write handle.opened mem)
    ((Function.update_of_ne nonroot.symm _ _).trans prompt.present)
    (step.holdsEntries prompt.volume nonroot.symm (by decide) prompt.present prompt.holds) prompt.tidy
    (fun name number named => by
      by_cases here : number = sector
      · subst here
        obtain ⟨notEmpty, _, _, before, there, isFile, _⟩ := prompt.regular name number named
        rw [present, Option.some.injEq] at there
        subst there
        exact .inr ⟨notEmpty, nonzero, nonroot, dataAfter, Function.update_self _ _ _, isDir.trans isFile, tailAfter⟩
      · exact .inl ⟨named, here⟩)
    (fun number there => by
      by_cases here : number = sector
      · exact .inr (.inr ⟨_, here ▸ handle.named⟩)
      · rw [Function.update_of_ne here] at there
        exact prompt.named number there)
    (fun _ _ _ _ named _ => named)
  have promptMiddle : AtPrompt _ shared (Function.update nodes sector (some dataAfter)) root entries middle :=
    ⟨mounted, by rw [mem]; exact prompt.cwd, (same.closed nonroot.symm).mpr prompt.rootClosed⟩
  have handleMiddle : HandleOpen entries middle path file inode pos sector dataAfter := by
    refine ⟨?_, ?_, opened, handle.named, inRange⟩
    · rw [World.handle, mem]
      exact handle.handle
    · rw [mem]
      exact handle.object
  have bounds : -2147483648 ≤ pos + (written - 2) ∧ pos + (written - 2) < 2147483648 := by
    rcases stored with ⟨rfl, stores⟩ | ⟨rfl, _⟩
    · have fits := stores.fits
      omega
    · omega
  obtain ⟨own', promptAfter, handleAfter⟩ := promptMiddle.seekFile handleMiddle bounds.2
  refine ⟨written, dataAfter, middle, after, own', ?_, step, mem, promptAfter, handleAfter, stored⟩
  rw [MockOS.Fs.fileWrite, if_neg (by omega), run_bind, run_getFile handle.object, Option.bind_some, run_bind, ran,
    Option.bind_some]
  dsimp only
  rw [run_bind, run_getFile handleMiddle.object, Option.bind_some, run_bind, run_setFile, Option.bind_some, run_pure]
  dsimp only
  rw [wrap32_of_range bounds.1 bounds.2]
  rfl

/-- An open inode of a file is closed; the node is what the disk holds. -/
theorem AtPrompt.inodeClose : ∃ own', run (inodeClose (some inode)) world =
      some ((), ⟨world.mem.closeInode inode, world.disk⟩) ∧
    AtPrompt own' shared (Function.update nodes sector (some (.ofSector (world.disk sector)))) root entries
      ⟨world.mem.closeInode inode, world.disk⟩ ∧
    (⟨world.mem.closeInode inode, world.disk⟩ : World).closed sector := by
  obtain ⟨own', ran, mounted, same, closed⟩ := prompt.toMounted.inodeClose handle.opened handle.named
  have nonroot := (prompt.sector_regular handle).2.1
  exact ⟨own', ran, ⟨mounted, prompt.cwd, (same.closed nonroot.symm).mpr prompt.rootClosed⟩, closed⟩

end OneFile

/-- The memory without a file object and its entry of the table. -/
def Mem.dropFile (mem : Mem) (entry : CString × Pointer) : Mem :=
  { mem with files := Function.update mem.files entry.2 none, fileTable := mem.fileTable.erase entry }

theorem AtPrompt.dropFile (prompt : AtPrompt own shared nodes root entries world) (entry : CString × Pointer)
    (member : entry ∈ world.mem.fileTable) :
    ∃ own', AtPrompt own' shared nodes root entries ⟨world.mem.dropFile entry, world.disk⟩ := by
  have rest : ∀ other, other ∈ world.mem.fileTable.erase entry → other ∈ world.mem.fileTable ∧ other.2 ≠ entry.2 := by
    intro other inRest
    have listed := List.mem_of_mem_erase inRest
    refine ⟨listed, fun same => ?_⟩
    have equal := List.inj_on_of_nodup_map prompt.handles.files listed member same
    rw [equal] at inRest
    exact prompt.handles.names.of_map.not_mem_erase inRest
  have handles : Handles entries ⟨world.mem.dropFile entry, world.disk⟩ := by
    refine ⟨fun other inRest => ?_, ?_, ?_, fun other inRest => ?_⟩
    · obtain ⟨listed, different⟩ := rest other inRest
      obtain ⟨inode, pos, object, inRange, fileOld, inodeOld, named⟩ := prompt.handles.object other listed
      exact ⟨inode, pos, (Function.update_of_ne different _ _).trans object, inRange, fileOld, inodeOld,
        fun sector data opened => named sector data ⟨opened.member, opened.object⟩⟩
    · exact prompt.handles.names.sublist (List.erase_sublist.map _)
    · exact prompt.handles.files.sublist (List.erase_sublist.map _)
    · exact prompt.handles.freeMapFile other (rest other inRest).1
  have volume : Volume own shared nodes ⟨world.mem.dropFile entry, world.disk⟩ := by
    refine prompt.volume.heap rfl rfl (fun opens same => ?_) (Nat.le_refl _) fun above late => ?_
    · refine Function.update_of_ne ?_ _ _
      rintro rfl
      exact prompt.handles.freeMapFile _ member same
    · obtain ⟨_, noFile, noDir⟩ := prompt.volume.table.fresh above late
      refine ⟨?_, noDir⟩
      change Function.update world.mem.files entry.2 none above = none
      by_cases same : above = entry.2
      · rw [same, Function.update_self]
      · rw [Function.update_of_ne same, noFile]
  exact ⟨_, prompt.toMounted.inMemory volume rfl handles, prompt.cwd, fun pointer member data object =>
    prompt.rootClosed pointer member data object⟩

/-- A file in the table is closed and taken out. -/
theorem AtPrompt.removeFromFileTable (prompt : AtPrompt own shared nodes root entries world)
    (handle : HandleOpen entries world path file inode pos sector data) : ∃ own' next,
    run (removeFromFileTable path) world = some (true, next) ∧
      AtPrompt own' shared (Function.update nodes sector (some (.ofSector (world.disk sector)))) root entries next ∧
      InMemory world next ∧ next.handle path = none ∧ next.closed sector := by
  obtain ⟨own₁, ran, prompt₁, closed⟩ := prompt.inodeClose handle
  obtain ⟨own₂, prompt₂⟩ := prompt₁.dropFile (path, file) handle.member
  refine ⟨own₂, _, ?_, prompt₂, ⟨rfl, rfl, rfl⟩, ?_, fun pointer member data object => closed pointer member data object⟩
  · have found := handle.handle
    unfold World.handle at found
    rw [MockOS.Fs.removeFromFileTable, run_bind, run_get, Option.bind_some, found]
    dsimp only
    rw [run_bind, fileClose, run_bind, fileAllowWrite, run_bind, run_getFile handle.object, Option.bind_some,
      if_neg (by simp), run_pure, Option.bind_some, run_bind, run_getFile handle.object, Option.bind_some, run_bind, ran,
      Option.bind_some]
    rfl
  · refine List.find?_eq_none.mpr fun other inRest => ?_
    have inRest : other ∈ world.mem.fileTable.erase (path, file) := inRest
    have listed := List.mem_of_mem_erase inRest
    intro same
    have equal := List.inj_on_of_nodup_map prompt.handles.names listed handle.member (by simpa using same)
    rw [equal] at inRest
    exact prompt.handles.names.of_map.not_mem_erase inRest

/-- A command that leaves the sectors, the free map and the root directory. -/
def Settled (shared : BlockSector → Prop) (nodes : Nodes) (entries : List DirEntry) (world next : World) : Prop :=
  ∃ own nodesAfter root, AtPrompt own shared nodesAfter root entries next ∧ InMemory world next ∧
    SameBytes (fun _ => False) nodes nodesAfter world next ∧ nodesAfter 0 = nodes 0

/-- A command on the file of a path: it is not there, or its open file is used. -/
theorem AtPrompt.withFile {A : Type} (prompt : AtPrompt own shared nodes root entries world) (usable : world.Usable path)
    (missing : A) (use : Pointer → Action A) {result : A → World → Prop}
    (absent : ∀ next, (∀ sector, ¬ Named entries (fileName path) sector) → next.Usable path →
      Settled shared nodes entries world next → result missing next)
    (present : ∀ own' nodes' root' middle file inode sector data, AtPrompt own' shared nodes' root' entries middle →
      InMemory world middle → SameBytes (fun _ => False) nodes nodes' world middle → nodes' 0 = nodes 0 →
      nodes sector = some data → HandleOpen entries middle path file inode (world.position path) sector data →
        ∃ value next, run (use file) middle = some (value, next) ∧ result value next) :
    ∃ value next, run (do
      match ← MockOS.Fs.commandFile path with
      | none => pure missing
      | some file => use file) world = some (value, next) ∧ result value next := by
  obtain ⟨own', nodes', root', middle, prompt', inMemory, same, others, outcome⟩ := prompt.commandFile usable
  rcases outcome with ⟨unnamed, ran, again⟩ | ⟨file, inode, sector, data, ran, handle, there⟩
  · refine ⟨missing, middle, ?_, absent middle unnamed again ⟨own', nodes', root', prompt', inMemory, same, others 0 (by decide)⟩⟩
    rw [run_bind, ran, Option.bind_some, run_pure]
  · have nonroot := (prompt'.sector_regular handle).2.1
    obtain ⟨value, next, uses, holds⟩ := present own' nodes' root' middle file inode sector data prompt' inMemory same
      (others 0 (by decide)) ((others sector nonroot).symm.trans there) handle
    refine ⟨value, next, ?_, holds⟩
    rw [run_bind, ran, Option.bind_some]
    exact uses

/-- `fsutil_read` gives the bytes behind the position of the file. -/
theorem AtPrompt.fsutilRead (prompt : AtPrompt own shared nodes root entries world) (usable : world.Usable path)
    (nonnegative : 0 ≤ world.position path) (size : Int) : ∃ value next,
    run (fsutilRead path size) world = some (value, next) ∧ Settled shared nodes entries world next ∧
      ((∀ sector, ¬ Named entries (fileName path) sector) ∧ next.Usable path ∧ value = (-1, []) ∨
        ∃ sector data file inode bytes, nodes sector = some data ∧
          bytes = ((fileBytes world.disk data).drop (world.position path).toNat).take (wrap32 size).toNat ∧
          value = ((bytes.length : Int), bytes) ∧
          HandleOpen entries next path file inode (world.position path + bytes.length) sector data) := by
  apply prompt.withFile usable
  · exact fun next unnamed again settled => ⟨settled, .inl ⟨unnamed, again, rfl⟩⟩
  intro own' nodes' root' middle file inode sector data prompt' inMemory same zero there handle
  obtain ⟨own'', read, prompt'', handle'⟩ := prompt'.fileRead handle nonnegative (wrap32 size) rfl
  rw [inMemory.disk] at read prompt'' handle'
  refine ⟨_, _, ?_, ⟨own'', nodes', root', prompt'', inMemory.trans (middle.inMemory_seekFile _ _ _),
    same.trans (.refl _ _ rfl), zero⟩, .inr ⟨sector, data, file, inode, _, there, rfl, rfl, handle'⟩⟩
  rw [run_bind, read]
  rfl

/-- `fsutil_size` gives the length of the file. -/
theorem AtPrompt.fsutilSize (prompt : AtPrompt own shared nodes root entries world) (usable : world.Usable path) :
    ∃ value next, run (fsutilSize path) world = some (value, next) ∧ Settled shared nodes entries world next ∧
      ((∀ sector, ¬ Named entries (fileName path) sector) ∧ next.Usable path ∧ value = -1 ∨
        ∃ sector data file inode, nodes sector = some data ∧ value = data.length ∧
          HandleOpen entries next path file inode (world.position path) sector data) := by
  apply prompt.withFile usable
  · exact fun next unnamed again settled => ⟨settled, .inl ⟨unnamed, again, rfl⟩⟩
  intro own' nodes' root' middle file inode sector data prompt' inMemory same zero there handle
  refine ⟨data.length, middle, ?_, ⟨own', nodes', root', prompt', inMemory, same, zero⟩,
    .inr ⟨sector, data, file, inode, there, rfl, handle⟩⟩
  rw [run_bind, run_getFile handle.object, Option.bind_some, run_bind, handle.run_fileLength, Option.bind_some, run_bind,
    handle.run_fileSeek, Option.bind_some, run_pure, World.seekFile_same handle.object]

/-- `fsutil_seek` moves the file. -/
theorem AtPrompt.fsutilSeek (prompt : AtPrompt own shared nodes root entries world) (usable : world.Usable path)
    {offset : Int} (inRange : offset < 2147483648) :
    ∃ value next, run (fsutilSeek path offset) world = some (value, next) ∧ Settled shared nodes entries world next ∧
      ((∀ sector, ¬ Named entries (fileName path) sector) ∧ next.Usable path ∧ value = -1 ∨
        ∃ sector data file inode, nodes sector = some data ∧ value = 0 ∧
          HandleOpen entries next path file inode offset sector data) := by
  apply prompt.withFile usable
  · exact fun next unnamed again settled => ⟨settled, .inl ⟨unnamed, again, rfl⟩⟩
  intro own' nodes' root' middle file inode sector data prompt' inMemory same zero there handle
  obtain ⟨own'', prompt'', handle'⟩ := prompt'.seekFile handle inRange
  refine ⟨0, _, ?_, ⟨own'', nodes', root', prompt'', inMemory.trans (middle.inMemory_seekFile _ _ _),
    same.trans (.refl _ _ rfl), zero⟩, .inr ⟨sector, data, file, inode, there, rfl, handle'⟩⟩
  rw [run_bind, handle.run_fileSeek]
  rfl

theorem InMemory.free (same : InMemory world next) : next.free = world.free := by rw [World.free, same.freeMap, World.free]

theorem InMemory.limit (same : InMemory world next) : next.limit = world.limit := by
  rw [World.limit, same.freeMap, World.limit]

theorem InMemory.used (same : InMemory world next) (sector : BlockSector) : next.used sector ↔ world.used sector := by
  rw [World.used, same.freeMap, World.used]

/-- What a write stores, seen from before and after steps in memory. -/
theorem Stores.inMemory {before last : World} {buffer : Nat → UInt8} {size offset : Nat}
    (stores : Stores own after sector data dataAfter buffer size offset world next) (first : InMemory before world)
    (second : InMemory next last) : Stores own after sector data dataAfter buffer size offset before last where
  fits := stores.fits
  enough := by
    rw [← first.disk, ← first.free]
    exact stores.enough
  free := by
    rw [second.free, stores.free, first.free, first.disk]
  length := stores.length
  failures := second.failures.trans (stores.failures.trans first.failures)
  limit := second.limit.trans (stores.limit.trans first.limit)
  used other isUsed := (second.used other).mpr (stores.used other ((first.used other).mpr isUsed))
  bytes := by
    rw [← first.disk, second.disk]
    exact stores.bytes
  exact := by
    rw [← first.disk, second.disk]
    intro exact
    obtain ⟨after, taken⟩ := stores.exact exact
    refine ⟨after, fun other small isUsed => ?_⟩
    rw [← first.used]
    exact taken other (by rwa [first.limit]) ((second.used other).mp isUsed)
  fresh other owner owned absent isUsed := stores.fresh other owner owned absent ((first.used other).mpr isUsed)
  tree := by
    rw [← first.disk, second.disk]
    exact stores.tree

theorem Keeps.inMemory {before last : World} {size offset : Nat} (keeps : Keeps data dataAfter size offset world next)
    (first : InMemory before world) (second : InMemory next last) : Keeps data dataAfter size offset before last where
  beyond := keeps.beyond
  cause := by
    rw [second.failures, ← first.failures, ← first.free, ← first.disk]
    exact keeps.cause
  free := by
    rw [second.free, keeps.free, first.free, first.disk]
  length := keeps.length
  bytes := by
    rw [← first.disk, second.disk]
    exact keeps.bytes
  limit := second.limit.trans (keeps.limit.trans first.limit)
  used other isUsed := (second.used other).mpr (keeps.used other ((first.used other).mpr isUsed))

/-- A write stores all bytes or none. -/
def AllOrNone (own after : Owners) (sector : BlockSector) (data dataAfter : InodeDisk) (buffer : Nat → UInt8)
    (size pos value : Int) (world next : World) : Prop :=
  value = size ∧ Stores own after sector data dataAfter (terminated buffer size) size.toNat pos.toNat world next ∨
    value = 0 ∧ Keeps data dataAfter size.toNat pos.toNat world next

/-- `fsutil_write` writes to the file of the path and to no other. -/
theorem AtPrompt.fsutilWrite (prompt : AtPrompt own shared nodes root entries world) (usable : world.Usable path)
    (nonnegative : 0 ≤ world.position path) (buffer : Nat → UInt8) {size : Int} (low : 1 ≤ size)
    (high : size < 2147483648) : ∃ value next, run (fsutilWrite path buffer size) world = some (value, next) ∧
      ((∀ sector, ¬ Named entries (fileName path) sector) ∧ value = -1 ∧ Settled shared nodes entries world next ∨
        ∃ own' nodes' root' file inode sector data dataAfter before after,
          AtPrompt own' shared nodes' root' entries next ∧ SameBytes (· = sector) nodes nodes' world next ∧
          nodes' 0 = nodes 0 ∧ nodes sector = some data ∧ nodes' sector = some dataAfter ∧
          HandleOpen entries next path file inode (world.position path + (value - 2)) sector dataAfter ∧
          AllOrNone before after sector data dataAfter buffer size (world.position path) value world next) := by
  apply prompt.withFile usable
  · exact fun next unnamed _ settled => .inl ⟨unnamed, rfl, settled⟩
  intro own' nodes' root' middle file inode sector data prompt' inMemory same zero there handle
  obtain ⟨value, dataAfter, last, after, own'', ran, step, mem, prompt'', handle', written⟩ :=
    prompt'.fileWrite handle nonnegative buffer low high
  obtain ⟨nonzero, _, _, _⟩ := prompt'.sector_regular handle
  have sameOpen := (handle.opened.write mem).1
  have moved := last.inMemory_seekFile file inode (world.position path + (value - 2))
  refine ⟨value, _, ?_, .inr ⟨own'', _, root', file, inode, sector, data, dataAfter, own', after, prompt'',
    ((same.mono fun _ => False.elim).trans (.of_frame (.of_step step prompt'.volume sameOpen))).trans (.refl _ _ rfl),
    (Function.update_of_ne nonzero.symm _ _).trans zero, there, Function.update_self _ _ _, handle', ?_⟩⟩
  · rw [wrap32_of_range (by omega) high]
    exact ran
  · exact written.imp (fun both => ⟨both.1, both.2.inMemory inMemory moved⟩)
      (fun both => ⟨both.1, both.2.inMemory inMemory moved⟩)

/-- The reads of `fsutil_cat` end behind the last byte. -/
theorem AtPrompt.catLoop (prompt : AtPrompt own shared nodes root entries world)
    (handle : HandleOpen entries world path file inode 0 sector data) : ∃ own' last,
    run (catLoop file data.length (data.length.toNat + 1)) world = some ((), world.seekFile file inode last) ∧
      AtPrompt own' shared nodes root entries (world.seekFile file inode last) ∧
      HandleOpen entries (world.seekFile file inode last) path file inode last sector data := by
  have whole : (fileBytes world.disk data).length = data.length.toNat := by rw [fileBytes, length_bytesAt]
  obtain ⟨own₁, read₁, prompt₁, handle₁⟩ := prompt.fileRead handle (Int.le_refl 0) data.length rfl
  rw [Int.toNat_zero, List.drop_zero, List.take_of_length_le (Nat.le_of_eq whole), Int.zero_add] at read₁ prompt₁ handle₁
  by_cases empty : fileBytes world.disk data = []
  · refine ⟨own₁, _, ?_, prompt₁, handle₁⟩
    rw [MockOS.Fs.catLoop, run_bind, read₁, Option.bind_some, if_pos empty, run_pure]
  · have ended : [] = ((fileBytes (world.seekFile file inode (fileBytes world.disk data).length).disk data).drop
        ((fileBytes world.disk data).length : Int).toNat).take data.length.toNat := by
      rw [Int.toNat_natCast, World.seekFile, List.drop_length, List.take_nil]
    obtain ⟨own₂, read₂, prompt₂, handle₂⟩ := prompt₁.fileRead handle₁ (Int.natCast_nonneg _) data.length ended
    rw [World.seekFile_seekFile] at read₂ prompt₂ handle₂
    refine ⟨own₂, _, ?_, prompt₂, handle₂⟩
    have positive : 0 < data.length.toNat := by
      rw [← whole]
      exact List.length_pos_iff.mpr empty
    obtain ⟨rounds, same⟩ := Nat.exists_eq_succ_of_ne_zero (Nat.ne_of_gt positive)
    rw [same, MockOS.Fs.catLoop, run_bind, read₁, Option.bind_some, if_neg empty, MockOS.Fs.catLoop, run_bind, read₂,
      Option.bind_some, if_pos rfl, run_pure]

/-- What `fsutil_cat` does with the file, which it closes if it opened it. -/
def catFile (path : CString) (opened : Bool) (file : Pointer) : Action Int := do
  let curOffset := (← getFile file).pos
  fileSeek file 0
  let fileSize ← fileLength file
  catLoop file fileSize (fileSize.toNat + 1)
  fileSeek file curOffset
  if opened then do
    let _ ← removeFromFileTable path
    pure 0
  else pure 0

theorem run_fsutilCat (path : CString) (world : World) : run (fsutilCat path) world = run (do
    match ← commandFile path with
    | none => pure (-1)
    | some file => catFile path (world.handle path).isNone file) world := by
  rewrite [fsutilCat, run_bind, run_getFileByFname, Option.bind_some, Option.isNone_map]
  rfl

/-- The reads leave the position of the file. -/
theorem AtPrompt.run_catFile (prompt : AtPrompt own shared nodes root entries world)
    (handle : HandleOpen entries world path file inode pos sector data) (opened : Bool) :
    run (catFile path opened file) world = run (if opened then do
      let _ ← MockOS.Fs.removeFromFileTable path
      pure 0
    else pure (0 : Int)) world := by
  obtain ⟨own₁, prompt₁, handle₁⟩ := prompt.seekFile handle (by decide : (0 : Int) < 2147483648)
  obtain ⟨own₂, last, ran₂, prompt₂, handle₂⟩ := prompt₁.catLoop handle₁
  rw [World.seekFile_seekFile] at ran₂ handle₂
  rw [catFile, run_bind, run_getFile handle.object, Option.bind_some, run_bind, handle.run_fileSeek, Option.bind_some,
    run_bind, handle₁.run_fileLength, Option.bind_some, run_bind, ran₂, Option.bind_some, run_bind, handle₂.run_fileSeek,
    Option.bind_some, World.seekFile_seekFile, World.seekFile_same handle.object]

/-- `fsutil_cat` leaves the position of the file, or closes a file that it opened. -/
theorem AtPrompt.fsutilCat (prompt : AtPrompt own shared nodes root entries world) (usable : world.Usable path) :
    ∃ value next, run (fsutilCat path) world = some (value, next) ∧ Settled shared nodes entries world next := by
  rw [run_fsutilCat]
  apply prompt.withFile usable
  · exact fun next _ _ settled => settled
  intro own' nodes' root' middle file inode sector data prompt' inMemory same zero there handle
  rw [prompt'.run_catFile handle]
  by_cases opened : (world.handle path).isNone = true
  · obtain ⟨own₁, next, ran₁, prompt₁, inMemory₁, _⟩ := prompt'.removeFromFileTable handle
    obtain ⟨nonzero, _, present, _⟩ := prompt'.sector_regular handle
    refine ⟨0, next, ?_, own₁, _, root', prompt₁, inMemory.trans inMemory₁,
      same.trans (.reload prompt'.volume inMemory₁.disk nonzero present),
      (Function.update_of_ne nonzero.symm _ _).trans zero⟩
    rw [if_pos opened, run_bind, ran₁]
    rfl
  · refine ⟨0, middle, ?_, own', nodes', root', prompt', inMemory, same, zero⟩
    rw [if_neg opened, run_pure]

theorem RootOpen.seekDir (open_ : RootOpen own shared nodes root entries world dir pointer) (slot : Nat) :
    ∃ own', RootOpen own' shared nodes root entries (world.seekDir dir pointer 1 slot) dir pointer := by
  obtain ⟨volume, dirOpened⟩ := open_.volume.seekDir open_.dirOpened 1 slot
  have quiet : Quiet world (world.seekDir dir pointer 1 slot) := .of_objects rfl (Nat.le_refl _)
  exact ⟨_, open_.toMounted.inMemory volume rfl (open_.handles.quiet quiet fun _ _ _ _ named _ => named),
    dirOpened.opened, ⟨_, Function.update_self _ _ _⟩, open_.cwd⟩

/-- `fsutil_ls` gives the names of the root directory. -/
theorem AtPrompt.fsutilLs (prompt : AtPrompt own shared nodes root entries world) : ∃ next,
    run fsutilLs world = some (namesOf entries, next) ∧ Settled shared nodes entries world next := by
  obtain ⟨dir, pointer, own₁, world₁, ran₁, open₁, object, quiet₁, inMemory₁, frame₁⟩ := prompt.dirOpenRoot
  have start : world₁ = world₁.seekDir dir pointer 1 1 := by
    rw [World.seekDir, ← show world₁.mem.dirs dir = some ⟨pointer, ((36 * 1 : Nat) : Int), 1⟩ from object,
      Function.update_eq_self]
  have dirOpened := open₁.dirOpened
  have names := open₁.volume.readNames dirOpened 1 (entries.length + 1) 1 dirOpened.some_entry (by omega)
  rw [← start] at names
  obtain ⟨own₂, open₂⟩ := open₁.seekDir entries.length
  obtain ⟨own₃, world₃, ran₃, prompt₃, quiet₃, inMemory₃, frame₃⟩ := open₂.dirClose
  have inMemory₂ : InMemory world₁ (world₁.seekDir dir pointer 1 entries.length) := ⟨rfl, rfl, rfl⟩
  refine ⟨world₃, ?_, own₃, _, _, prompt₃, (inMemory₁.trans inMemory₂).trans inMemory₃,
    (SameBytes.refl _ nodes (inMemory₁.trans inMemory₂).disk).trans
      (.reload open₂.volume inMemory₃.disk (by decide) open₂.present), Function.update_of_ne (by decide) _ _⟩
  rw [MockOS.Fs.fsutilLs, run_bind, ran₁, Option.bind_some, run_bind, run_deref_some, Option.bind_some, run_bind,
    dirOpened.run_dirGetInode, Option.bind_some, run_bind, dirOpened.holds.run_entryRounds dirOpened.opened,
    Option.bind_some, run_bind, names, Option.bind_some, run_bind, ran₃]
  rfl

end MockOS.Fs
