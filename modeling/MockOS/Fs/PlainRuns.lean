import MockOS.Fs.FreshFiles
import MockOS.Fs.RootCalls

namespace MockOS.Fs

variable {A : Type} {shared : BlockSector → Prop} {own after : Owners} {world middle next : World}
  {nodes nodesAfter : Nodes} {sector number : BlockSector} {pointer dir file inode : Pointer}
  {root rootAfter data dataAfter : InodeDisk} {entries entriesAfter : List DirEntry} {name path other : CString} {pos : Int}

/-- A name that leads to a file of the root directory. -/
structure PlainName (name : CString) : Prop where
  notEmpty : name ≠ []
  noSlash : 47 ∉ name
  nulFree : 0 ∉ name
  notDot : name ≠ [46]
  notDots : name ≠ [46, 46]

theorem PlainName.fileName (plain : PlainName name) : fileName name = name := fileName_eq plain.noSlash

theorem PlainName.flat (plain : PlainName name) : (pathTokens name).dropLast = [] := by
  rw [pathTokens_single plain.notEmpty plain.noSlash]
  rfl

theorem PlainName.removeEnds (plain : PlainName name) (entries : List DirEntry) : RemoveEnds entries name := by
  rw [RemoveEnds, plain.flat]
  trivial

namespace World.Tracked

theorem closable (tracked : world.Tracked) (name : CString) : world.Closable name := by
  intro entry found
  obtain ⟨object, here⟩ := Option.ne_none_iff_exists'.mp (tracked.listed entry (handle_some found).1)
  exact ⟨object, here, (tracked.live _ _ here).1⟩

theorem usable (tracked : world.Tracked) (plain : PlainName name) : world.Usable name := by
  rw [World.Usable]
  cases found : world.handle name with
  | none =>
      dsimp only
      rw [plain.fileName]
      exact .inr ⟨plain.notEmpty, plain.notDot, plain.notDots⟩
  | some entry => exact tracked.closable name entry found

/-- The inode of a file without an entry in the table is closed. -/
theorem closed_of_unlisted (tracked : world.Tracked) (prompt : AtPrompt own shared nodes root entries world)
    (named : Named entries name sector) (unlisted : world.handle name = none) : world.closed sector := by
  intro pointer isOpen data live
  obtain ⟨file, object, here, holds⟩ := tracked.held pointer isOpen
  rcases tracked.owned file (by rw [here]; simp) with freeMapFile | ⟨other, listed⟩
  · obtain ⟨mapPointer, mapFile, mapData, opened, _⟩ := prompt.volume.freeMap
    have same := opened.opened
    rw [freeMapFile, Option.some.injEq] at same
    have liveFile := opened.liveFile
    rw [← same, here, Option.some.injEq] at liveFile
    have liveInode := opened.liveInode
    rw [← holds, liveFile, liveInode, Option.some.injEq, Inode.live_inj] at live
    exact (prompt.regular name sector named).2.1 live.1.symm
  · obtain ⟨inode, pos, there, _, _, _, isNamed⟩ := prompt.handles.object _ listed
    rw [here, Option.some.injEq] at there
    subst there
    obtain rfl : inode = pointer := holds
    have same := isNamed sector data ⟨isOpen, live⟩
    rw [MockOS.Fs.fileName, fileName_eq (tracked.flat _ listed)] at same
    obtain rfl := prompt.tidy.name_unique named same
    exact absurd (List.mem_map_of_mem listed) (handle_none unlisted)

end World.Tracked

/-- The position of a path that is not moved stays. -/
theorem World.position_eq (handle : next.handle path = world.handle path)
    (files : ∀ entry, world.handle path = some entry → next.mem.files entry.2 = world.mem.files entry.2) :
    next.position path = world.position path := by
  rw [World.position, handle, World.position]
  cases found : world.handle path with
  | none => rfl
  | some entry => rw [Option.bind_some, Option.bind_some, files entry found]

theorem HandleOpen.other_file (handle : HandleOpen entries world path file inode pos sector data)
    (handles : Handles entries world) {entry : CString × Pointer} (different : other ≠ path)
    (found : world.handle other = some entry) : entry.2 ≠ file := by
  intro same
  obtain ⟨listed, isOther⟩ := handle_some found
  have equal := List.inj_on_of_nodup_map handles.files listed handle.member same
  exact different (by rw [← isOther, equal])

/-- Another path keeps its entry when one is taken out of the table. -/
theorem find_erase (entries : List (CString × Pointer)) (entry : CString × Pointer) (different : other ≠ entry.1) :
    (entries.erase entry).find? (fun listed => listed.1 == other) = entries.find? fun listed => listed.1 == other := by
  have skipped : (entry.1 == other) = false := beq_false_of_ne different.symm
  induction entries with
  | nil => rfl
  | cons first rest ih =>
      by_cases same : first = entry
      · rw [same, List.erase_cons_head, List.find?_cons_of_neg (by simp [skipped])]
      · rw [List.erase_cons_tail (by simpa using same), List.find?_cons, List.find?_cons, ih]

/-- The state between the commands on plain names: no handle is stale and no position negative. -/
structure Orderly (own : Owners) (shared : BlockSector → Prop) (nodes : Nodes) (root : InodeDisk) (entries : List DirEntry)
    (world : World) : Prop extends AtPrompt own shared nodes root entries world where
  tracked : world.Tracked
  positions : ∀ path, 0 ≤ world.position path

namespace Orderly

theorem usable (orderly : Orderly own shared nodes root entries world) (plain : PlainName name) : world.Usable name :=
  orderly.tracked.usable plain

theorem undisturbed (orderly : Orderly own shared nodes root entries world)
    (prompt : AtPrompt after shared nodesAfter rootAfter entriesAfter next) (same : Undisturbed world next) :
    Orderly after shared nodesAfter rootAfter entriesAfter next :=
  ⟨prompt, orderly.tracked.sameHandles same.toSameHandles, fun path => by
    rw [same.position]
    exact orderly.positions path⟩

/-- The file of a path is moved, after a step that leaves the files. -/
theorem moved (orderly : Orderly own shared nodes root entries world) {newPos : Int} (low : 0 ≤ newPos)
    (handle : HandleOpen entries world path file inode pos sector data) (same : Undisturbed world middle)
    (prompt : AtPrompt after shared nodesAfter rootAfter entries (middle.seekFile file inode newPos))
    (handleAfter : HandleOpen entries (middle.seekFile file inode newPos) path file inode newPos sector dataAfter) :
    Orderly after shared nodesAfter rootAfter entries (middle.seekFile file inode newPos) := by
  have object : middle.mem.files file = some ⟨inode, pos, false⟩ := by rw [same.sameFiles, handle.object]
  refine ⟨prompt, (orderly.tracked.sameHandles same.toSameHandles).sameHandles (.setFile object), fun other => ?_⟩
  by_cases here : other = path
  · rw [here, handleAfter.position]
    exact low
  · have kept : (middle.seekFile file inode newPos).position other = world.position other := by
      refine World.position_eq (same.handle other) fun entry found => ?_
      change Function.update middle.mem.files file _ entry.2 = _
      rw [Function.update_of_ne (handle.other_file orderly.handles here found), same.sameFiles]
    rw [kept]
    exact orderly.positions other

theorem seekFile (orderly : Orderly own shared nodes root entries world)
    (handle : HandleOpen entries world path file inode pos sector data) {newPos : Int} (low : 0 ≤ newPos)
    (high : newPos < 2147483648) : ∃ own', Orderly own' shared nodes root entries (world.seekFile file inode newPos) ∧
      HandleOpen entries (world.seekFile file inode newPos) path file inode newPos sector data := by
  obtain ⟨own', prompt, handleAfter⟩ := orderly.toAtPrompt.seekFile handle high
  exact ⟨own', orderly.moved low handle (refl_of Undisturbed _) prompt handleAfter, handleAfter⟩

/-- The entry of a path is taken out of the table with its file. -/
theorem removeFromFileTable (orderly : Orderly own shared nodes root entries world)
    (handle : HandleOpen entries world path file inode pos sector data) : ∃ own' next,
    run (MockOS.Fs.removeFromFileTable path) world = some (true, next) ∧
      Orderly own' shared (Function.update nodes sector (some (.ofSector (world.disk sector)))) root entries next ∧
      InMemory world next ∧ next.handle path = none ∧ next.closed sector := by
  obtain ⟨own', next, ran, prompt, inMemory, gone, closed⟩ := orderly.toAtPrompt.removeFromFileTable handle
  refine ⟨own', next, ran, ⟨prompt, orderly.tracked.removeFromFileTable ran, fun other => ?_⟩, inMemory, gone, closed⟩
  by_cases here : other = path
  · rw [here, World.position, gone]
    exact Int.le_refl 0
  · have found := handle.handle
    unfold World.handle at found
    rw [MockOS.Fs.removeFromFileTable, run_bind, run_get, Option.bind_some, found] at ran
    dsimp only at ran
    rw [run_bind, run_fileClose handle.object handle.opened.object, Option.bind_some, run_bind, run_modify, Option.bind_some,
      run_pure, Option.some.injEq, Prod.mk.injEq] at ran
    have kept : next.position other = world.position other := by
      rw [← ran.2]
      refine World.position_eq (find_erase _ _ here) fun entry there => ?_
      exact Function.update_of_ne (handle.other_file orderly.handles here there) _ _
    rw [kept]
    exact orderly.positions other

/-- `command_file` of a path that is not open and not there. -/
theorem commandFile_absent (orderly : Orderly own shared nodes root entries world) (plain : PlainName name)
    (unlisted : world.handle name = none) (absent : ∀ sector, ¬ Named entries name sector) : ∃ next,
    run (MockOS.Fs.commandFile name) world = some (none, next) ∧ Undisturbed world next := by
  have sameName := plain.fileName
  refine ⟨⟨{ world.mem with nextPointer := world.mem.nextPointer + 2 }, world.disk⟩, ?_,
    ⟨⟨rfl, fun _ _ => rfl, fun _ => rfl, rfl, rfl, rfl⟩, rfl⟩⟩
  rw [MockOS.Fs.commandFile, run_bind, run_getFileByFname, unlisted, Option.map_none, Option.bind_some, run_bind,
    orderly.run_filesysOpen_absent (by rw [sameName]; exact plain.notEmpty) (by rw [sameName]; exact plain.notDot)
      (by rw [sameName]; exact plain.notDots) (by rwa [sameName])]
  rfl

/-- `command_file` of a file that is not open. -/
theorem commandFile_opens (orderly : Orderly own shared nodes root entries world) (plain : PlainName name)
    (unlisted : world.handle name = none) (named : Named entries name sector) (present : nodes sector = some data) :
    run (MockOS.Fs.commandFile name) world = some (some (world.mem.nextPointer + 3),
      ⟨(world.mem.opened sector data).listFile name (world.mem.nextPointer + 3), world.disk⟩) := by
  have sameName := plain.fileName
  have unlistedAfter : World.handle ⟨world.mem.opened sector data, world.disk⟩ name = none := unlisted
  rw [MockOS.Fs.commandFile, run_bind, run_getFileByFname, unlisted, Option.map_none, Option.bind_some, run_bind,
    orderly.run_filesysOpen_closed (by rw [sameName]; exact plain.notDot) (by rw [sameName]; exact plain.notDots)
      (by rwa [sameName]) present (orderly.tracked.closed_of_unlisted orderly.toAtPrompt named unlisted), Option.bind_some]
  dsimp only
  rw [run_bind, run_addToFileTable unlistedAfter]
  rfl

/-- The file of a command is open afterwards. -/
theorem commandFile (orderly : Orderly own shared nodes root entries world) (plain : PlainName name) :
    ∃ own' nodes' root' next, Orderly own' shared nodes' root' entries next ∧ InMemory world next ∧
      SameBytes (fun _ => False) nodes nodes' world next ∧ (∀ number, number ≠ 1 → nodes' number = nodes number) ∧
      (∀ other, next.position other = world.position other) ∧
      ((∀ sector, ¬ Named entries name sector) ∧ run (MockOS.Fs.commandFile name) world = some (none, next) ∨
        ∃ file inode sector data, run (MockOS.Fs.commandFile name) world = some (some file, next) ∧
          HandleOpen entries next name file inode (world.position name) sector data ∧ nodes' sector = some data) := by
  obtain ⟨own', nodes', root', next, prompt, inMemory, same, others, outcome⟩ :=
    orderly.toAtPrompt.commandFile (orderly.usable plain)
  rw [plain.fileName] at outcome
  cases found : world.handle name with
  | some entry =>
      have ran : run (MockOS.Fs.commandFile name) world = some (some entry.2, world) := by
        rw [MockOS.Fs.commandFile, run_bind, run_getFileByFname, found]
        rfl
      have here : next = world := by
        rcases outcome with ⟨_, again, _⟩ | ⟨_, _, _, _, again, _⟩
        · rw [ran] at again
          cases again
        · rw [ran, Option.some.injEq, Prod.mk.injEq] at again
          exact again.2.symm
      subst here
      refine ⟨own', nodes', root', next, orderly.undisturbed prompt (refl_of Undisturbed _), inMemory, same, others,
        fun _ => rfl, outcome.imp (fun both => ⟨both.1, both.2.1⟩) id⟩
  | none =>
      rcases outcome with ⟨absent, again, _⟩ | ⟨file, inode, sector, data, again, handle, there⟩
      · obtain ⟨last, ran, undisturbed⟩ := orderly.commandFile_absent plain found absent
        have here := again
        rw [ran, Option.some.injEq, Prod.mk.injEq] at here
        obtain ⟨-, rfl⟩ := here
        exact ⟨own', nodes', root', last, orderly.undisturbed prompt undisturbed, inMemory, same, others,
          undisturbed.position, .inl ⟨absent, again⟩⟩
      · have named := handle.named
        rw [plain.fileName] at named
        have nonroot := (orderly.regular _ _ named).2.2.1
        have present : nodes sector = some data := (others sector nonroot).symm.trans there
        have ran := again
        rw [orderly.commandFile_opens plain found named present, Option.some.injEq, Prod.mk.injEq, Option.some.injEq] at ran
        obtain ⟨rfl, rfl⟩ := ran
        have table := orderly.volume.table
        have noInode : world.mem.nextPointer + 2 ∉ world.mem.openInodes := by
          intro member
          obtain ⟨_, _, object, _⟩ := table.opened _ member
          rw [(table.fresh _ (Nat.le_add_right _ _)).1] at object
          cases object
        have noFile := (table.fresh (world.mem.nextPointer + 3) (Nat.le_add_right _ _)).2.1
        have positions : ∀ other, World.position ⟨(world.mem.opened sector data).listFile name (world.mem.nextPointer + 3),
            world.disk⟩ other = world.position other := by
          intro other
          by_cases here : other = name
          · rw [here, handle.position]
          · refine World.position_eq ?_ fun entry listed => Function.update_of_ne ?_ _ _
            · change List.find? _ (_ ++ _) = _
              rw [List.find?_append, List.find?_singleton, if_neg (by simpa using Ne.symm here), Option.or_none]
              rfl
            · intro fresh
              exact orderly.tracked.listed entry (handle_some listed).1 (by rw [fresh, noFile])
        refine ⟨own', nodes', root', _, ⟨prompt, orderly.tracked.newHandle noInode noFile plain.noSlash rfl, fun other => ?_⟩,
          inMemory, same, others, positions, .inr ⟨_, inode, sector, data, again, handle, there⟩⟩
        rw [positions]
        exact orderly.positions other

/-- A command on the file of a plain name: it is not there, or its open file is used. -/
theorem withFile (orderly : Orderly own shared nodes root entries world) (plain : PlainName name) (missing : A)
    (use : Pointer → Action A) {result : A → World → Prop}
    (absent : ∀ own' nodes' root' next, Orderly own' shared nodes' root' entries next → result missing next)
    (present : ∀ own' nodes' root' middle file inode sector data, Orderly own' shared nodes' root' entries middle →
      HandleOpen entries middle name file inode (world.position name) sector data →
        ∃ value next, run (use file) middle = some (value, next) ∧ result value next) :
    ∃ value next, run (do
      match ← MockOS.Fs.commandFile name with
      | none => pure missing
      | some file => use file) world = some (value, next) ∧ result value next := by
  obtain ⟨own', nodes', root', middle, orderly', _, _, _, _, outcome⟩ := orderly.commandFile plain
  rcases outcome with ⟨_, ran⟩ | ⟨file, inode, sector, data, ran, handle, _⟩
  · refine ⟨missing, middle, ?_, absent own' nodes' root' middle orderly'⟩
    rw [run_bind, ran, Option.bind_some, run_pure]
  · obtain ⟨value, next, uses, holds⟩ := present own' nodes' root' middle file inode sector data orderly' handle
    refine ⟨value, next, ?_, holds⟩
    rw [run_bind, ran, Option.bind_some]
    exact uses

end Orderly

/-- The state is orderly, whatever its inodes and names are. -/
def World.AtRest (shared : BlockSector → Prop) (world : World) : Prop :=
  ∃ own nodes root entries, Orderly own shared nodes root entries world

namespace Orderly

theorem atRest (orderly : Orderly own shared nodes root entries world) : world.AtRest shared :=
  ⟨own, nodes, root, entries, orderly⟩

theorem fsutilRead (orderly : Orderly own shared nodes root entries world) (plain : PlainName name) (size : Int) :
    ∃ value next, run (MockOS.Fs.fsutilRead name size) world = some (value, next) ∧ next.AtRest shared := by
  apply orderly.withFile plain
  · exact fun _ _ _ _ after => after.atRest
  intro own' nodes' root' middle file inode sector data orderly' handle
  have low := orderly.positions name
  obtain ⟨own'', read, _, moved⟩ := orderly'.toAtPrompt.fileRead handle low (wrap32 size) rfl
  obtain ⟨_, after, _⟩ := orderly'.seekFile handle (show 0 ≤ world.position name + (_ : Int) from
    Int.add_nonneg low (Int.natCast_nonneg _)) moved.inRange
  rw [run_bind, read]
  exact ⟨_, _, rfl, after.atRest⟩

theorem fsutilSize (orderly : Orderly own shared nodes root entries world) (plain : PlainName name) :
    ∃ value next, run (MockOS.Fs.fsutilSize name) world = some (value, next) ∧ next.AtRest shared := by
  apply orderly.withFile plain
  · exact fun _ _ _ _ after => after.atRest
  intro own' nodes' root' middle file inode sector data orderly' handle
  refine ⟨data.length, middle, ?_, orderly'.atRest⟩
  rw [run_bind, run_getFile handle.object, Option.bind_some, run_bind, handle.run_fileLength, Option.bind_some, run_bind,
    handle.run_fileSeek, World.seekFile_same handle.object]
  rfl

theorem fsutilSeek (orderly : Orderly own shared nodes root entries world) (plain : PlainName name) {offset : Int}
    (low : 0 ≤ offset) (high : offset < 2147483648) :
    ∃ value next, run (MockOS.Fs.fsutilSeek name offset) world = some (value, next) ∧ next.AtRest shared := by
  apply orderly.withFile plain
  · exact fun _ _ _ _ after => after.atRest
  intro own' nodes' root' middle file inode sector data orderly' handle
  obtain ⟨_, after, _⟩ := orderly'.seekFile handle low high
  refine ⟨0, _, ?_, after.atRest⟩
  rw [run_bind, handle.run_fileSeek]
  rfl

/-- A write that does not fail for lack of room. -/
theorem fsutilWrite (orderly : Orderly own shared nodes root entries world) (plain : PlainName name)
    (buffer : Nat → UInt8) {size : Int} (low : 2 ≤ size) (high : size < 2147483648) :
    ∃ value next, run (MockOS.Fs.fsutilWrite name buffer size) world = some (value, next) ∧
      (value ≠ 0 → next.AtRest shared) := by
  apply orderly.withFile plain
  · exact fun _ _ _ _ after _ => after.atRest
  intro own' nodes' root' middle file inode sector data orderly' handle
  have position := orderly.positions name
  rw [wrap32_of_range (by omega) high]
  obtain ⟨written, dataAfter, last, _, own'', ran, _, mem, prompt, moved, outcome⟩ :=
    orderly'.toAtPrompt.fileWrite handle position buffer (by omega : 1 ≤ size) high
  refine ⟨written, _, ran, fun stored => ?_⟩
  have full : written = size := outcome.elim And.left fun failed => absurd failed.1 stored
  have same : Undisturbed middle last := by
    refine ⟨⟨by rw [mem], fun other _ => ?_, fun _ => by rw [mem], by rw [mem], by rw [mem], by rw [mem]⟩, by rw [mem]⟩
    rw [mem]
    change (Function.update middle.mem.inodes inode _ other).map _ = _
    by_cases here : other = inode
    · rw [here, Function.update_self, handle.opened.object]
      rfl
    · rw [Function.update_of_ne here]
  exact (orderly'.moved (by omega) handle same prompt moved).atRest

theorem fsutilCat (orderly : Orderly own shared nodes root entries world) (plain : PlainName name) :
    ∃ value next, run (MockOS.Fs.fsutilCat name) world = some (value, next) ∧ next.AtRest shared := by
  rw [run_fsutilCat]
  apply orderly.withFile plain
  · exact fun _ _ _ _ after => after.atRest
  intro own' nodes' root' middle file inode sector data orderly' handle
  rw [orderly'.run_catFile handle]
  split_ifs
  · obtain ⟨_, next, ran, after, _⟩ := orderly'.removeFromFileTable handle
    exact ⟨0, next, by rw [run_bind, ran]; rfl, after.atRest⟩
  · exact ⟨0, middle, rfl, orderly'.atRest⟩

theorem fsutilCreate (orderly : Orderly own shared nodes root entries world) (plain : PlainName name) (size : Int) :
    ∃ value next, run (MockOS.Fs.fsutilCreate name size) world = some (value, next) ∧ next.AtRest shared := by
  obtain ⟨result, next, own', nodes', root', entries', ran, prompt, _⟩ :=
    orderly.toAtPrompt.fsutilCreate plain.nulFree size
  exact ⟨_, next, ran, (orderly.undisturbed prompt (orderly.undisturbed_fsutilCreate ran)).atRest⟩

theorem fsutilLs (orderly : Orderly own shared nodes root entries world) :
    ∃ value next, run MockOS.Fs.fsutilLs world = some (value, next) ∧ next.AtRest shared := by
  obtain ⟨next, ran, own', nodes', root', prompt, _⟩ := orderly.toAtPrompt.fsutilLs
  exact ⟨_, next, ran, (orderly.undisturbed prompt (orderly.undisturbed_fsutilLs ran)).atRest⟩

/-- The file of a path is closed before the path is removed. -/
theorem closePath (orderly : Orderly own shared nodes root entries world) (plain : PlainName name) :
    ∃ removed next own' nodes', run (MockOS.Fs.removeFromFileTable name) world = some (removed, next) ∧
      Orderly own' shared nodes' root entries next ∧ next.handle name = none := by
  cases found : world.handle name with
  | none =>
      refine ⟨false, world, own, nodes, ?_, orderly, found⟩
      have absent := found
      unfold World.handle at absent
      rw [MockOS.Fs.removeFromFileTable, run_bind, run_get, Option.bind_some, absent]
      rfl
  | some entry =>
      obtain ⟨inode, pos, sector, data, handle⟩ := orderly.handleOpen found (orderly.usable plain)
      obtain ⟨own', next, ran, after, _, gone, _⟩ := orderly.removeFromFileTable handle
      exact ⟨true, next, own', _, ran, after, gone⟩

theorem fsutilRm (orderly : Orderly own shared nodes root entries world) (plain : PlainName name) :
    ∃ value next, run (MockOS.Fs.fsutilRm name) world = some (value, next) ∧ next.AtRest shared := by
  obtain ⟨removed, middle, own₁, nodes₁, ran₁, orderly₁, gone⟩ := orderly.closePath plain
  obtain ⟨result, next, own₂, nodes₂, root₂, entries₂, ran₂, prompt₂, _⟩ :=
    orderly₁.toAtPrompt.filesysRemove (plain.removeEnds entries)
  have closed : ∀ sector, Named entries (fileName name) sector → middle.closed sector := by
    rw [plain.fileName]
    exact fun sector named => orderly₁.tracked.closed_of_unlisted orderly₁.toAtPrompt named gone
  refine ⟨if result then 1 else 0, next, ?_,
    (orderly₁.undisturbed prompt₂ (orderly₁.undisturbed_filesysRemove plain.flat closed ran₂)).atRest⟩
  rw [MockOS.Fs.fsutilRm, run_bind, ran₁, Option.bind_some, run_bind, ran₂]
  rfl

end Orderly

/-- The commands on plain names, with offsets that are not negative and at least the two bytes of an empty text. -/
def ShellCommand.Plain : ShellCommand → Prop
  | .create name _ | .read name _ | .size name | .cat name | .rm name => PlainName name
  | .write name _ length => PlainName name ∧ 2 ≤ length ∧ length < 2147483648
  | .seek name offset => PlainName name ∧ 0 ≤ offset ∧ offset < 2147483648
  | .ls => True

/-- The result of a write. -/
def World.writeResult (world : World) (name : CString) (buffer : Nat → UInt8) (size : Int) : Option Int :=
  (run (fsutilWrite name buffer size) world).map Prod.fst

/-- A write does not return zero. -/
def World.Succeeds (world : World) : ShellCommand → Prop
  | .write name buffer size => world.writeResult name buffer size ≠ some 0
  | _ => True

/-- The states between the commands of a run on plain names in which no write fails. -/
inductive World.PlainRun (start : World) : World → Prop
  | start : PlainRun start start
  | step {world next : World} {command : ShellCommand} : PlainRun start world → command.Plain → world.Succeeds command →
      world.command command = some next → PlainRun start next

/-- A command on a plain name ends between two commands, unless it is a write that fails. -/
theorem World.AtRest.command (rest : world.AtRest shared) {command : ShellCommand} (plain : command.Plain) :
    ∃ next, world.command command = some next ∧ (world.Succeeds command → next.AtRest shared) := by
  obtain ⟨own, nodes, root, entries, orderly⟩ := rest
  cases command with
  | create name size =>
      obtain ⟨value, next, ran, after⟩ := orderly.fsutilCreate plain size
      exact ⟨next, by rw [World.command, ran]; rfl, fun _ => after⟩
  | write name buffer size =>
      obtain ⟨value, next, ran, after⟩ := orderly.fsutilWrite plain.1 buffer plain.2.1 plain.2.2
      refine ⟨next, by rw [World.command, ran]; rfl, fun succeeds => after fun failed => succeeds ?_⟩
      rw [World.writeResult, ran, failed]
      rfl
  | read name size =>
      obtain ⟨value, next, ran, after⟩ := orderly.fsutilRead plain size
      exact ⟨next, by rw [World.command, ran]; rfl, fun _ => after⟩
  | seek name offset =>
      obtain ⟨value, next, ran, after⟩ := orderly.fsutilSeek plain.1 plain.2.1 plain.2.2
      exact ⟨next, by rw [World.command, ran]; rfl, fun _ => after⟩
  | size name =>
      obtain ⟨value, next, ran, after⟩ := orderly.fsutilSize plain
      exact ⟨next, by rw [World.command, ran]; rfl, fun _ => after⟩
  | cat name =>
      obtain ⟨value, next, ran, after⟩ := orderly.fsutilCat plain
      exact ⟨next, by rw [World.command, ran]; rfl, fun _ => after⟩
  | rm name =>
      obtain ⟨value, next, ran, after⟩ := orderly.fsutilRm plain
      exact ⟨next, by rw [World.command, ran]; rfl, fun _ => after⟩
  | ls =>
      obtain ⟨value, next, ran, after⟩ := orderly.fsutilLs
      exact ⟨next, by rw [World.command, ran]; rfl, fun _ => after⟩

theorem World.PlainRun.atRest {start : World} (reached : start.PlainRun world) (rest : start.AtRest shared) :
    world.AtRest shared := by
  induction reached with
  | start => exact rest
  | step _ plain succeeds ran ih =>
      obtain ⟨next, ranNext, after⟩ := ih.command plain
      rw [ran, Option.some.injEq] at ranNext
      rw [ranNext]
      exact after succeeds

/-- After a format only the free map file is open. -/
theorem Fresh.orderly {deviceSize : UInt32} (fresh : Fresh own shared nodes deviceSize world) :
    ∃ own' root, Orderly own' shared nodes root (newEntries 1 1000) world := by
  obtain ⟨own', root, prompt⟩ := fresh.atPrompt
  obtain ⟨pointer, freeMap, _, started, _⟩ := fresh.nodes
  have noTable := started.fileTable
  have single : ∀ file object, world.mem.files file = some object → file = pointer + 1 ∧ object = ⟨pointer, 0, false⟩ := by
    intro file object here
    rw [started.files] at here
    by_cases same : file = pointer + 1
    · rw [same, Function.update_self, Option.some.injEq] at here
      exact ⟨same, here.symm⟩
    · rw [Function.update_of_ne same] at here
      cases here
  have object : world.mem.files (pointer + 1) = some ⟨pointer, 0, false⟩ := by rw [started.files, Function.update_self]
  refine ⟨own', root, prompt, ⟨fun dir => by rw [started.dirs], by rw [started.openInodes]; exact List.nodup_singleton _,
    ?_, ?_, ?_, ?_, by simp [noTable], ?_, by simp [noTable], by simp [noTable]⟩, fun path => ?_⟩
  · rw [started.openInodes]
    intro inode member
    rw [List.mem_singleton.mp member, started.inodes]
    exact ⟨0, freeMap, Function.update_self _ _ _⟩
  · intro file found here
    rw [(single file found here).2, started.openInodes]
    exact ⟨List.mem_singleton_self _, rfl⟩
  · rw [started.openInodes]
    intro inode member
    rw [List.mem_singleton.mp member]
    exact ⟨pointer + 1, _, object, rfl⟩
  · intro file other one two here there _
    rw [(single file one here).1, (single other two there).1]
  · intro file isFile
    obtain ⟨found, here⟩ := Option.ne_none_iff_exists'.mp isFile
    rw [started.freeMapFile, (single file found here).1]
    exact .inl rfl
  · rw [World.position, World.handle, noTable]
    exact Int.le_refl 0

/-- What holds between the commands of a plain run from a format on. -/
theorem plainRun_atRest {deviceSize : UInt32} {garbage : Nat → UInt8} {disk : BlockSector → Sector} {start : World}
    (fits : FormatFits deviceSize) (formatted : run (filesysInit true) ⟨.boot deviceSize garbage, disk⟩ = some ((), start))
    (reached : start.PlainRun world) : ∃ shared, world.AtRest shared := by
  obtain ⟨fresh, own, shared, nodes, ran, isFresh⟩ := filesysInit_format garbage disk fits
  rw [formatted, Option.some.injEq, Prod.mk.injEq] at ran
  obtain rfl := ran.2
  obtain ⟨own', root, orderly⟩ := isFresh.orderly
  exact ⟨shared, reached.atRest orderly.atRest⟩

theorem orderly_small : ∃ world own shared nodes root,
    run (filesysInit true) ⟨.boot 300 fun _ => 0, fun _ => zeros⟩ = some ((), world) ∧ world.free = 225 ∧
      world.mem.fileTable = [] ∧ world.mem.allocationFailures = 0 ∧
      Orderly own shared nodes root (newEntries 1 1000) world := by
  obtain ⟨world, own, shared, nodes, formatted, fresh⟩ := filesysInit_format (fun _ => 0) (fun _ => zeros) formatFits_small
  obtain ⟨own', root, orderly⟩ := fresh.orderly
  obtain ⟨_, _, _, started, _⟩ := fresh.nodes
  have places : mapBits 300 = 299 ∧ (inodePlaces (blocksOf (Bitmap.byteCnt (mapBits 300)))).length = 1 ∧
    (inodePlaces (blocksOf 36000)).length = 71 := by decide
  have free := fresh.free
  exact ⟨world, own', shared, nodes, root, formatted, by omega, started.fileTable, started.allocationFailures, orderly⟩

theorem plainName_a : PlainName [97] := ⟨by decide, by decide, by decide, by decide, by decide⟩

/-- `fsutil_create` of a new name when the root directory and the device have room. -/
theorem Orderly.fsutilCreate_room (orderly : Orderly own shared nodes root entries world) (plain : PlainName name)
    (short : name.length ≤ 30) (unnamed : ∀ sector, ¬ Named entries name sector) {length : Int} (low : 0 ≤ length)
    (fits : length ≤ 512 * maxBlocks) (enough : (inodePlaces (blocksOf length)).length < world.free)
    (slot : freeSlot entries < entries.length) : ∃ next own' nodes' root' sector data,
      run (MockOS.Fs.fsutilCreate name length) world = some (1, next) ∧
      Orderly own' shared nodes' root' (setSlot entries (freeSlot entries) ⟨sector, strncpy name 31, true⟩) next ∧
      next.mem.fileTable = world.mem.fileTable ∧ nodes' sector = some data ∧
      (∀ number, number ≠ 1 → number ≠ sector → nodes' number = nodes number) ∧
      NewFile nodes root entries name length sector data world next := by
  have maximum : maxBlocks = 16635 := rfl
  obtain ⟨result, next, own', nodes', root', entries', ran, prompt, quiet, outcome⟩ :=
    orderly.toAtPrompt.fsutilCreate plain.nulFree length
  rcases outcome with ⟨bad, _⟩ | ⟨_, _, created⟩
  · rw [List.length_eq_zero_iff] at bad
    exact absurd bad (not_or.mpr ⟨plain.notEmpty, by omega⟩)
  rw [wrap32_of_range (by omega) (by omega), plain.fileName] at created
  have done := created.succeeds plain.notEmpty short unnamed low fits enough slot
  rcases created.outcome with ⟨failed, _⟩ | ⟨_, _, sector, data, rfl, present, others, new⟩
  · rw [done] at failed
    cases failed
  rw [done] at ran
  exact ⟨next, own', nodes', root', sector, data, ran, orderly.undisturbed prompt (orderly.undisturbed_fsutilCreate ran),
    quiet.fileTable, present, others, new⟩

/-- `create` of a new name when the root directory and the device have room. -/
theorem Orderly.create_room (orderly : Orderly own shared nodes root entries world) (plain : PlainName name)
    (short : name.length ≤ 30) (unnamed : ∀ sector, ¬ Named entries name sector) {length : Int} (low : 0 ≤ length)
    (fits : length ≤ 512 * maxBlocks) (enough : (inodePlaces (blocksOf length)).length < world.free)
    (slot : freeSlot entries < entries.length) : ∃ next own' nodes' root' sector data,
      world.command (.create name length) = some next ∧
      Orderly own' shared nodes' root' (setSlot entries (freeSlot entries) ⟨sector, strncpy name 31, true⟩) next ∧
      next.mem.fileTable = world.mem.fileTable ∧ nodes' sector = some data ∧ data.length = length ∧
      Filled next.disk data (blocksOf length) ∧ (∀ number, number ≠ 1 → number ≠ sector → nodes' number = nodes number) ∧
      next.free + 1 + (inodePlaces (blocksOf length)).length = world.free := by
  obtain ⟨next, own', nodes', root', sector, data, ran, orderly', table, present, others, new⟩ :=
    orderly.fsutilCreate_room plain short unnamed low fits enough slot
  have free := new.free
  rw [orderly.demandFor_slot slot] at free
  refine ⟨next, own', nodes', root', sector, data, by rw [World.command, ran]; rfl, orderly', table, present, new.length_eq,
    new.filled, others, ?_⟩
  omega

/-- A file of at most two blocks that was created behind a format. -/
theorem created_small {length : Int} (low : 0 ≤ length) (small : length ≤ 600) :
    ∃ start world own shared nodes root entries sector data,
      run (filesysInit true) ⟨.boot 300 fun _ => 0, fun _ => zeros⟩ = some ((), start) ∧ start.PlainRun world ∧
        Orderly own shared nodes root entries world ∧ world.mem.fileTable = [] ∧ Named entries [97] sector ∧
        nodes sector = some data ∧ data.length = length := by
  obtain ⟨start, own, shared, nodes, root, formatted, free, noFiles, _, orderly⟩ := orderly_small
  have maximum : maxBlocks = 16635 := rfl
  have blocks : blocksOf length ≤ 123 := by
    rw [blocksOf]
    omega
  obtain ⟨world, own', nodes', root', sector, data, creates, orderly', table, present, dataLength, _⟩ :=
    orderly.create_room plainName_a (by decide) (not_named_newEntries _ _ _) low (by omega)
      (by rw [length_inodePlaces_direct blocks]; omega) freeSlot_newEntries
  have plain : ShellCommand.Plain (.create [97] length) := plainName_a
  have named := (orderly.tidy.named_new plainName_a.nulFree (by decide) sector [97] sector).mpr (.inr ⟨rfl, rfl⟩)
  exact ⟨start, world, own', shared, nodes', root', _, sector, data, formatted, .step .start plain trivial creates, orderly',
    table.trans noFiles, named, present, dataLength⟩

/-- The same file, open at its start. -/
theorem opened_small {length : Int} (low : 0 ≤ length) (small : length ≤ 600) :
    ∃ start world own shared nodes root entries file inode sector data,
      run (filesysInit true) ⟨.boot 300 fun _ => 0, fun _ => zeros⟩ = some ((), start) ∧ start.PlainRun world ∧
        Orderly own shared nodes root entries world ∧ HandleOpen entries world [97] file inode 0 sector data ∧
        data.length = length := by
  obtain ⟨start, world, own, shared, nodes, root, entries, sector, data, formatted, reached, orderly, noFiles, named, present,
    dataLength⟩ := created_small low small
  obtain ⟨own', nodes', root', next, orderly', _, _, others, _, outcome⟩ := orderly.commandFile plainName_a
  rcases outcome with ⟨absent, _⟩ | ⟨file, inode, number, found, opens, handle, there⟩
  · exact absurd named (absent sector)
  have position : world.position [97] = 0 := by
    rw [World.position, World.handle, noFiles]
    rfl
  rw [position] at handle
  have isNamed := handle.named
  rw [plainName_a.fileName] at isNamed
  obtain rfl := orderly.tidy.sector_unique named isNamed
  have same : found = data := by
    rw [others sector (orderly.regular _ _ named).2.2.1, present, Option.some.injEq] at there
    exact there.symm
  have sizes : world.command (.size [97]) = some next := by
    rw [World.command, fsutilSize, run_bind, opens, Option.bind_some]
    dsimp only
    rw [run_bind, run_getFile handle.object, Option.bind_some, run_bind, handle.run_fileLength, Option.bind_some, run_bind,
      handle.run_fileSeek, World.seekFile_same handle.object]
    rfl
  have plain : ShellCommand.Plain (.size [97]) := plainName_a
  exact ⟨start, next, own', shared, nodes', root', entries, file, inode, sector, found, formatted,
    .step reached plain trivial sizes, orderly', handle, same ▸ dataLength⟩

end MockOS.Fs
