import MockOS.Fs.Atomicity
import MockOS.Fs.Restart
import MockOS.Lib.NamedFiles

namespace MockOS.Fs

/-- What a shell wants of its file commands. -/
abbrev NamedStore := Lib.NamedFiles CString UInt8

/-- The result of a command, the bytes that it reads or prints and the names that it lists. -/
structure Answer where
  value : Int
  bytes : List UInt8
  names : List CString

/-- The reads of `fsutil_cat` with the bytes that they print. -/
def catBytes (file : Pointer) (fileSize : Int) : Nat → Action (List UInt8)
  | 0 => undefined
  | rounds + 1 => do
      let bytes ← fileRead file fileSize
      if bytes = [] then pure [] else do pure (bytes ++ (← catBytes file fileSize rounds))

/-- `fsutil_cat` with the bytes that it prints. -/
def fsutilCatBytes (fileName : CString) : Action (Int × List UInt8) := do
  let opened := (← getFileByFname fileName).isNone
  match ← commandFile fileName with
  | none => pure (-1, [])
  | some file => do
      let curOffset := (← getFile file).pos
      fileSeek file 0
      let fileSize ← fileLength file
      let bytes ← catBytes file fileSize (fileSize.toNat + 1)
      fileSeek file curOffset
      if opened then do
        let _ ← removeFromFileTable fileName
        pure (0, bytes)
      else pure (0, bytes)

/-- A command with all that it answers. -/
def ShellCommand.answer : ShellCommand → Action Answer
  | .create name length => do pure ⟨← fsutilCreate name length, [], []⟩
  | .write name buffer length => do pure ⟨← fsutilWrite name buffer length, [], []⟩
  | .read name length => do
      let (bytesRead, bytes) ← fsutilRead name length
      pure ⟨bytesRead, bytes, []⟩
  | .seek name offset => do pure ⟨← fsutilSeek name offset, [], []⟩
  | .size name => do pure ⟨← fsutilSize name, [], []⟩
  | .cat name => do
      let (value, bytes) ← fsutilCatBytes name
      pure ⟨value, bytes, []⟩
  | .rm name => do pure ⟨← fsutilRm name, [], []⟩
  | .ls => do pure ⟨0, [], ← fsutilLs⟩

/-- The file that a command uses. -/
def ShellCommand.file : ShellCommand → Option CString
  | .write name _ _ | .read name _ | .seek name _ | .size name | .cat name => some name
  | .create _ _ | .rm _ | .ls => none

/-- A size that a new file can have. -/
def FileSize (size : Int) : Prop := 0 ≤ wrap32 size ∧ wrap32 size ≤ 512 * maxBlocks

/-- The commands on the store; what it does not know is whether the device has room for a new file. -/
inductive NamedStore.Step (room : Prop) (store : NamedStore) : ShellCommand → Answer → NamedStore → Prop
  | created {name : CString} {size : Int} (absent : store.files name = none) (short : name.length ≤ 30)
      (sized : FileSize size) (fits : room) :
      Step room store (.create name size) ⟨1, [], []⟩ (store.put name (List.replicate (wrap32 size).toNat 0))
  | refused {name : CString} {size : Int}
      (cause : store.files name ≠ none ∨ 30 < name.length ∨ ¬ FileSize size ∨ ¬ room) :
      Step room store (.create name size) ⟨0, [], []⟩ store
  | written {name : CString} {buffer : Nat → UInt8} {size : Int} {bytes : List UInt8}
      (present : store.files name = some bytes) :
      Step room store (.write name buffer size) ⟨size, [], []⟩
        ((store.put name (overwrite bytes (store.position name) size.toNat (terminated buffer size))).seek name
          (store.position name + (size.toNat - 2)))
  | read {name : CString} {size : Int} {bytes found : List UInt8} (present : store.files name = some bytes)
      (part : found = (bytes.drop (store.position name)).take (wrap32 size).toNat) :
      Step room store (.read name size) ⟨found.length, found, []⟩
        (store.seek name (store.position name + found.length))
  | moved {name : CString} {offset : Int} {bytes : List UInt8} (present : store.files name = some bytes) :
      Step room store (.seek name offset) ⟨0, [], []⟩ (store.seek name offset.toNat)
  | sized {name : CString} {bytes : List UInt8} (present : store.files name = some bytes) :
      Step room store (.size name) ⟨bytes.length, [], []⟩ store
  | printed {name : CString} {bytes : List UInt8} (present : store.files name = some bytes) :
      Step room store (.cat name) ⟨0, bytes, []⟩ store
  | removed {name : CString} {bytes : List UInt8} (present : store.files name = some bytes) :
      Step room store (.rm name) ⟨1, [], []⟩ (store.remove name)
  | notRemoved {name : CString} (absent : store.files name = none) : Step room store (.rm name) ⟨0, [], []⟩ store
  | listed {names : List CString} (distinct : names.Nodup) (all : ∀ name, name ∈ names ↔ store.files name ≠ none) :
      Step room store .ls ⟨0, [], names⟩ store
  | missing {command : ShellCommand} {name : CString} (uses : command.file = some name)
      (absent : store.files name = none) : Step room store command ⟨-1, [], []⟩ store

/-- The device has room for a new file, and the root directory for its name. -/
def World.RoomToCreate (world : World) : ShellCommand → Prop
  | .create _ size => 36 * freeSlot world.rootEntries + 36 ≤ 512 * maxBlocks ∧
      world.slotDemand + (inodePlaces (blocksOf (wrap32 size))).length < world.free
  | _ => True

/-- The store that a state shows through the root directory and the file table. -/
def World.namedStore (world : World) : NamedStore where
  files name := (world.rootEntries[nameSlot world.rootEntries name]?).map fun entry => world.inodeBytes entry.inodeSector
  position name := (world.position name).toNat

variable {shared sharedAfter : BlockSector → Prop} {own after : Owners} {world middle next : World} {nodes nodesAfter : Nodes}
  {sector : BlockSector} {file inode : Pointer} {root rootAfter data : InodeDisk} {entries entriesAfter : List DirEntry}
  {name : CString} {pos newPos : Int} {bytes : List UInt8}

theorem World.namedStore_files (world : World) (name : CString) : world.namedStore.files name =
    (world.rootEntries[nameSlot world.rootEntries name]?).map fun entry => world.inodeBytes entry.inodeSector := rfl

theorem AtPrompt.files_named (prompt : AtPrompt own shared nodes root entries world) (named : Named entries name sector)
    (present : nodes sector = some data) : world.namedStore.files name = some (fileBytes world.disk data) := by
  have found := prompt.tidy.named_iff.mp named
  obtain ⟨entry, there, rfl⟩ := Option.map_eq_some_iff.mp found
  rw [World.namedStore_files, prompt.toMounted.rootEntries, there, Option.map_some, World.inodeBytes,
    prompt.toMounted.inodeData present]

theorem AtPrompt.files_unnamed (prompt : AtPrompt own shared nodes root entries world)
    (unnamed : ∀ sector, ¬ Named entries name sector) : world.namedStore.files name = none := by
  rw [World.namedStore_files, prompt.toMounted.rootEntries, Option.map_eq_none_iff]
  cases found : entries[nameSlot entries name]? with
  | none => rfl
  | some entry => exact absurd (prompt.tidy.named_iff.mpr (by rw [found]; rfl)) (unnamed entry.inodeSector)

theorem AtPrompt.files_ne_none_iff (prompt : AtPrompt own shared nodes root entries world) :
    world.namedStore.files name ≠ none ↔ ∃ sector, Named entries name sector := by
  constructor
  · intro present
    by_contra unnamed
    push Not at unnamed
    exact present (prompt.files_unnamed unnamed)
  · rintro ⟨sector, named⟩
    obtain ⟨_, _, _, data, present, _⟩ := prompt.regular name sector named
    rw [prompt.files_named named present]
    exact Option.some_ne_none _

/-- A file stays when its name and its bytes do. -/
theorem AtPrompt.files_kept (prompt : AtPrompt own shared nodes root entries world)
    (promptAfter : AtPrompt after sharedAfter nodesAfter rootAfter entriesAfter next)
    (names : ∀ sector, Named entriesAfter name sector ↔ Named entries name sector) {changed : BlockSector → Prop}
    (same : SameBytes changed nodes nodesAfter world next) (unchanged : ∀ sector, Named entries name sector → ¬ changed sector) :
    next.namedStore.files name = world.namedStore.files name := by
  by_cases some_sector : ∃ sector, Named entries name sector
  · obtain ⟨sector, named⟩ := some_sector
    obtain ⟨_, nonzero, _, data, present, _⟩ := prompt.regular name sector named
    obtain ⟨dataAfter, there, bytes⟩ := same sector data (unchanged sector named) nonzero present
    rw [promptAfter.files_named ((names sector).mpr named) there, bytes, prompt.files_named named present]
  · push Not at some_sector
    rw [prompt.files_unnamed some_sector, promptAfter.files_unnamed fun sector named => some_sector sector ((names sector).mp named)]

/-- The store stays when the names, the bytes and the positions do. -/
theorem AtPrompt.namedStore_eq (prompt : AtPrompt own shared nodes root entries world)
    (promptAfter : AtPrompt after shared nodesAfter rootAfter entries next)
    (same : SameBytes (fun _ => False) nodes nodesAfter world next)
    (positions : ∀ name, next.position name = world.position name) : next.namedStore = world.namedStore := by
  refine Lib.NamedFiles.ext (funext fun name => ?_) (funext fun name => congrArg Int.toNat (positions name))
  exact prompt.files_kept promptAfter (fun _ => Iff.rfl) same fun _ _ => not_false

/-- A new position of an open file. -/
theorem HandleOpen.position_seekFile (handle : HandleOpen entries world name file inode pos sector data)
    (handles : Handles entries world) (other : CString) :
    (world.seekFile file inode newPos).position other = if other = name then newPos else world.position other := by
  by_cases here : other = name
  · rw [if_pos here, here, World.position]
    change ((world.handle name).bind fun entry => Function.update world.mem.files file _ entry.2).elim 0 File.pos = newPos
    rw [handle.handle, Option.bind_some, Function.update_self]
    rfl
  · rw [if_neg here]
    exact World.position_eq rfl fun entry found => Function.update_of_ne (handle.other_file handles here found) _ _

theorem HandleOpen.namedStore_seekFile (handle : HandleOpen entries world name file inode pos sector data)
    (handles : Handles entries world) :
    (world.seekFile file inode newPos).namedStore = world.namedStore.seek name newPos.toNat := by
  refine Lib.NamedFiles.ext rfl (funext fun other => ?_)
  change ((world.seekFile file inode newPos).position other).toNat = _
  rw [handle.position_seekFile handles]
  by_cases here : other = name
  · rw [if_pos here, here, Lib.NamedFiles.position_seek_self]
  · rw [if_neg here, Lib.NamedFiles.position_seek_of_ne _ _ here]
    rfl

end MockOS.Fs
