import MockOS.Fs.NamedStore

namespace MockOS.Fs

variable {A : Type} {shared : BlockSector → Prop} {own : Owners} {world next : World} {nodes : Nodes} {sector : BlockSector}
  {file inode : Pointer} {root data : InodeDisk} {entries : List DirEntry} {name : CString} {pos : Int}

/-- A command leads to an orderly state, and answers and changes the store as it should. -/
structure Matches (shared : BlockSector → Prop) (world : World) (command : ShellCommand) (answer : Answer) (next : World) :
    Prop where
  rest : next.AtRest shared
  step : NamedStore.Step (world.RoomToCreate command) world.namedStore command answer next.namedStore

theorem Matches.unchanged {command : ShellCommand} {answer : Answer} (rest : next.AtRest shared)
    (same : next.namedStore = world.namedStore)
    (step : NamedStore.Step (world.RoomToCreate command) world.namedStore command answer world.namedStore) :
    Matches shared world command answer next := ⟨rest, same.symm ▸ step⟩

section Cat

/-- The reads of `fsutil_cat` print the file, and end behind the last byte. -/
theorem AtPrompt.catBytes (prompt : AtPrompt own shared nodes root entries world)
    (handle : HandleOpen entries world name file inode 0 sector data) : ∃ own' last,
    run (MockOS.Fs.catBytes file data.length (data.length.toNat + 1)) world =
      some (fileBytes world.disk data, world.seekFile file inode last) ∧
      AtPrompt own' shared nodes root entries (world.seekFile file inode last) ∧
      HandleOpen entries (world.seekFile file inode last) name file inode last sector data := by
  have whole : (fileBytes world.disk data).length = data.length.toNat := by rw [fileBytes, length_bytesAt]
  obtain ⟨own₁, read₁, prompt₁, handle₁⟩ := prompt.fileRead handle (Int.le_refl 0) data.length rfl
  rw [Int.toNat_zero, List.drop_zero, List.take_of_length_le (Nat.le_of_eq whole), Int.zero_add] at read₁ prompt₁ handle₁
  by_cases empty : fileBytes world.disk data = []
  · refine ⟨own₁, _, ?_, prompt₁, handle₁⟩
    rw [MockOS.Fs.catBytes, run_bind, read₁, Option.bind_some, if_pos empty, run_pure, empty]
  · have ended : [] = ((fileBytes (world.seekFile file inode (fileBytes world.disk data).length).disk data).drop
        ((fileBytes world.disk data).length : Int).toNat).take data.length.toNat := by
      rw [Int.toNat_natCast, World.seekFile, List.drop_length, List.take_nil]
    obtain ⟨own₂, read₂, prompt₂, handle₂⟩ := prompt₁.fileRead handle₁ (Int.natCast_nonneg _) data.length ended
    rw [World.seekFile_seekFile] at read₂ prompt₂ handle₂
    have positive : 0 < data.length.toNat := by
      rw [← whole]
      exact List.length_pos_iff.mpr empty
    obtain ⟨rounds, same⟩ := Nat.exists_eq_succ_of_ne_zero (Nat.ne_of_gt positive)
    refine ⟨own₂, _, ?_, prompt₂, handle₂⟩
    rw [same, MockOS.Fs.catBytes, run_bind, read₁, Option.bind_some, if_neg empty, MockOS.Fs.catBytes, run_bind, run_bind,
      read₂, Option.bind_some, if_pos rfl, run_pure, Option.bind_some, run_pure, List.append_nil]

/-- What `fsutil_cat` does with the file, which it closes if it opened it. -/
def catFileBytes (path : CString) (opened : Bool) (file : Pointer) : Action (Int × List UInt8) := do
  let curOffset := (← getFile file).pos
  fileSeek file 0
  let fileSize ← fileLength file
  let bytes ← MockOS.Fs.catBytes file fileSize (fileSize.toNat + 1)
  fileSeek file curOffset
  if opened then do
    let _ ← removeFromFileTable path
    pure (0, bytes)
  else pure (0, bytes)

theorem run_fsutilCatBytes (path : CString) (world : World) : run (fsutilCatBytes path) world = run (do
    match ← commandFile path with
    | none => pure (-1, [])
    | some file => catFileBytes path (world.handle path).isNone file) world := by
  rewrite [fsutilCatBytes, run_bind, run_getFileByFname, Option.bind_some, Option.isNone_map]
  rfl

/-- The reads leave the position of the file. -/
theorem AtPrompt.run_catFileBytes (prompt : AtPrompt own shared nodes root entries world)
    (handle : HandleOpen entries world name file inode pos sector data) (opened : Bool) :
    run (catFileBytes name opened file) world = run (if opened then do
      let _ ← MockOS.Fs.removeFromFileTable name
      pure (0, fileBytes world.disk data)
    else pure ((0 : Int), fileBytes world.disk data)) world := by
  obtain ⟨own₁, prompt₁, handle₁⟩ := prompt.seekFile handle (by decide : (0 : Int) < 2147483648)
  obtain ⟨own₂, last, ran₂, prompt₂, handle₂⟩ := prompt₁.catBytes handle₁
  rw [World.seekFile_seekFile] at ran₂ handle₂
  rw [catFileBytes, run_bind, run_getFile handle.object, Option.bind_some, run_bind, handle.run_fileSeek, Option.bind_some,
    run_bind, handle₁.run_fileLength, Option.bind_some, run_bind, ran₂, Option.bind_some, run_bind, handle₂.run_fileSeek,
    Option.bind_some, World.seekFile_seekFile, World.seekFile_same handle.object]
  rfl

/-- The loop reads in the same way when the bytes are kept. -/
theorem run_catLoop (file : Pointer) (fileSize : Int) (rounds : Nat) (world : World) :
    run (catLoop file fileSize rounds) world =
      (run (MockOS.Fs.catBytes file fileSize rounds) world).map fun result => ((), result.2) := by
  induction rounds generalizing world with
  | zero => rfl
  | succ rounds ih =>
      rw [catLoop, MockOS.Fs.catBytes, run_bind, run_bind]
      cases run (fileRead file fileSize) world with
      | none => rfl
      | some result =>
          rw [Option.bind_some, Option.bind_some]
          by_cases empty : result.1 = []
          · rw [if_pos empty, if_pos empty]
            rfl
          · rw [if_neg empty, if_neg empty, ih, run_bind]
            cases run (MockOS.Fs.catBytes file fileSize rounds) result.2 <;> rfl

end Cat

namespace Orderly

/-- A command on the file of a plain name, which is missing in the store or open with its bytes. -/
theorem withStore (orderly : Orderly own shared nodes root entries world) (plain : PlainName name) (missing : A)
    (use : Pointer → Action A) {result : A → World → Prop}
    (absent : ∀ next, next.AtRest shared → next.namedStore = world.namedStore → world.namedStore.files name = none →
      result missing next)
    (present : ∀ own' nodes' root' middle file inode sector data, Orderly own' shared nodes' root' entries middle →
      middle.namedStore = world.namedStore → HandleOpen entries middle name file inode (world.position name) sector data →
      world.namedStore.files name = some (fileBytes middle.disk data) →
        ∃ value next, run (use file) middle = some (value, next) ∧ result value next) :
    ∃ value next, run (do
      match ← MockOS.Fs.commandFile name with
      | none => pure missing
      | some file => use file) world = some (value, next) ∧ result value next := by
  obtain ⟨own', nodes', root', middle, orderly', _, same, _, positions, outcome⟩ := orderly.commandFile plain
  have sameStore := orderly.toAtPrompt.namedStore_eq orderly'.toAtPrompt same positions
  rcases outcome with ⟨unnamed, ran⟩ | ⟨file, inode, sector, data, ran, handle, there⟩
  · refine ⟨missing, middle, ?_, absent middle orderly'.atRest sameStore (orderly.toAtPrompt.files_unnamed unnamed)⟩
    rw [run_bind, ran, Option.bind_some, run_pure]
  · have named := handle.named
    rw [plain.fileName] at named
    have found := orderly'.toAtPrompt.files_named named there
    rw [sameStore] at found
    obtain ⟨value, next, uses, holds⟩ := present own' nodes' root' middle file inode sector data orderly' sameStore handle found
    refine ⟨value, next, ?_, holds⟩
    rw [run_bind, ran, Option.bind_some]
    exact uses

theorem toNat_position (orderly : Orderly own shared nodes root entries world) (name : CString) :
    (world.namedStore.position name : Int) = world.position name := Int.toNat_of_nonneg (orderly.positions name)

theorem answer_read (orderly : Orderly own shared nodes root entries world) (plain : PlainName name) (size : Int) :
    ∃ answer next, run (ShellCommand.read name size).answer world = some (answer, next) ∧
      Matches shared world (.read name size) answer next := by
  obtain ⟨value, next, ran, holds⟩ : ∃ value next, run (MockOS.Fs.fsutilRead name size) world = some (value, next) ∧
      Matches shared world (.read name size) ⟨value.1, value.2, []⟩ next := by
    apply orderly.withStore plain
    · exact fun next rest same absent => .unchanged rest same (.missing rfl absent)
    intro own' nodes' root' middle file inode sector data orderly' same handle found
    have low := orderly.positions name
    obtain ⟨bytes, part⟩ : ∃ bytes,
        bytes = ((fileBytes middle.disk data).drop (world.position name).toNat).take (wrap32 size).toNat := ⟨_, rfl⟩
    obtain ⟨own'', read, _, moved⟩ := orderly'.toAtPrompt.fileRead handle low (wrap32 size) part
    obtain ⟨_, after, _⟩ := orderly'.seekFile handle (Int.add_nonneg low (Int.natCast_nonneg _)) moved.inRange
    refine ⟨(bytes.length, bytes), _, by rw [run_bind, read]; rfl, after.atRest, ?_⟩
    rw [handle.namedStore_seekFile orderly'.handles, same, Int.toNat_add low (Int.natCast_nonneg _), Int.toNat_natCast]
    exact .read found part
  refine ⟨_, next, ?_, holds⟩
  rw [ShellCommand.answer, run_bind, ran]
  rfl

theorem answer_seek (orderly : Orderly own shared nodes root entries world) (plain : PlainName name) {offset : Int}
    (low : 0 ≤ offset) (high : offset < 2147483648) :
    ∃ answer next, run (ShellCommand.seek name offset).answer world = some (answer, next) ∧
      Matches shared world (.seek name offset) answer next := by
  obtain ⟨value, next, ran, holds⟩ : ∃ value next, run (MockOS.Fs.fsutilSeek name offset) world = some (value, next) ∧
      Matches shared world (.seek name offset) ⟨value, [], []⟩ next := by
    apply orderly.withStore plain
    · exact fun next rest same absent => .unchanged rest same (.missing rfl absent)
    intro own' nodes' root' middle file inode sector data orderly' same handle found
    obtain ⟨_, after, _⟩ := orderly'.seekFile handle low high
    refine ⟨0, _, by rw [run_bind, handle.run_fileSeek]; rfl, after.atRest, ?_⟩
    rw [handle.namedStore_seekFile orderly'.handles, same]
    exact .moved found
  refine ⟨_, next, ?_, holds⟩
  rw [ShellCommand.answer, run_bind, ran]
  rfl

theorem answer_size (orderly : Orderly own shared nodes root entries world) (plain : PlainName name) :
    ∃ answer next, run (ShellCommand.size name).answer world = some (answer, next) ∧
      Matches shared world (.size name) answer next := by
  obtain ⟨value, next, ran, holds⟩ : ∃ value next, run (MockOS.Fs.fsutilSize name) world = some (value, next) ∧
      Matches shared world (.size name) ⟨value, [], []⟩ next := by
    apply orderly.withStore plain
    · exact fun next rest same absent => .unchanged rest same (.missing rfl absent)
    intro own' nodes' root' middle file inode sector data orderly' same handle found
    have low := (orderly'.volume.node sector data (orderly'.volume.table.node handle.opened)).low
    have length : data.length = ((fileBytes middle.disk data).length : Int) := by
      rw [fileBytes, length_bytesAt, Int.toNat_of_nonneg low]
    refine ⟨data.length, middle, ?_, orderly'.atRest, ?_⟩
    · rw [run_bind, run_getFile handle.object, Option.bind_some, run_bind, handle.run_fileLength, Option.bind_some, run_bind,
        handle.run_fileSeek, World.seekFile_same handle.object]
      rfl
    · rw [same, length]
      exact .sized found
  refine ⟨_, next, ?_, holds⟩
  rw [ShellCommand.answer, run_bind, ran]
  rfl

/-- The store after a write to an open file. -/
theorem namedStore_write (orderly : Orderly own shared nodes root entries world) (plain : PlainName name)
    (handle : HandleOpen entries world name file inode (world.position name) sector data) {buffer : Nat → UInt8} {size : Int}
    (low : 2 ≤ size) {after : Owners} {dataAfter : InodeDisk} {last : World}
    (step : InodeStep shared sector own after nodes (Function.update nodes sector (some dataAfter)) world last)
    (mem : last.mem = { world.mem with
      freeMap := last.mem.freeMap, allocationFailures := last.mem.allocationFailures
      inodes := Function.update world.mem.inodes inode (some (.live sector dataAfter)) })
    (stores : Stores own after sector data dataAfter (terminated buffer size) size.toNat (world.position name).toNat world last)
    {own' : Owners} (prompt : AtPrompt own' shared (Function.update nodes sector (some dataAfter)) root entries
      (last.seekFile file inode (world.position name + (size - 2)))) :
    (last.seekFile file inode (world.position name + (size - 2))).namedStore =
      (world.namedStore.put name (overwrite (fileBytes world.disk data) (world.namedStore.position name) size.toNat
        (terminated buffer size))).seek name (world.namedStore.position name + (size.toNat - 2)) := by
  obtain ⟨nonzero, _, present, tail⟩ := orderly.toAtPrompt.sector_regular handle
  have named := handle.named
  rw [plain.fileName] at named
  have sameBytes : SameBytes (· = sector) nodes (Function.update nodes sector (some dataAfter)) world
      (last.seekFile file inode (world.position name + (size - 2))) :=
    (SameBytes.of_frame (Frame.of_step step orderly.volume (handle.opened.write mem).1)).trans (.refl _ _ rfl)
  refine Lib.NamedFiles.ext (funext fun other => ?_) (funext fun other => ?_)
  · by_cases here : other = name
    · rw [here, prompt.files_named named (Function.update_self _ _ _), Lib.NamedFiles.files_seek,
        Lib.NamedFiles.files_put_self]
      exact congrArg some (stores.bytes tail).2
    · rw [Lib.NamedFiles.files_seek, Lib.NamedFiles.files_put_of_ne _ _ here]
      refine orderly.toAtPrompt.files_kept prompt (fun _ => Iff.rfl) sameBytes fun number isNamed same => here ?_
      exact orderly.tidy.name_unique (same ▸ isNamed) named
  · have moved : (world.seekFile file inode (world.position name + (size - 2))).position other = _ :=
      handle.position_seekFile orderly.handles other
    have sameFiles : (last.seekFile file inode (world.position name + (size - 2))).position other =
        (world.seekFile file inode (world.position name + (size - 2))).position other := by
      refine World.position_eq ?_ fun entry _ => ?_
      · change last.mem.fileTable.find? _ = world.mem.fileTable.find? _
        rw [mem]
      · change Function.update last.mem.files file _ entry.2 = Function.update world.mem.files file _ entry.2
        rw [mem]
    change ((last.seekFile file inode (world.position name + (size - 2))).position other).toNat = _
    rw [sameFiles, moved]
    by_cases here : other = name
    · have position := orderly.toNat_position name
      rw [if_pos here, here, Lib.NamedFiles.position_seek_self]
      omega
    · rw [if_neg here, Lib.NamedFiles.position_seek_of_ne _ _ here]
      rfl

/-- A write that does not fail for lack of room. -/
theorem answer_write (orderly : Orderly own shared nodes root entries world) (plain : PlainName name)
    (buffer : Nat → UInt8) {size : Int} (low : 2 ≤ size) (high : size < 2147483648) :
    ∃ answer next, run (ShellCommand.write name buffer size).answer world = some (answer, next) ∧
      (answer.value ≠ 0 → Matches shared world (.write name buffer size) answer next) := by
  obtain ⟨again, last, ranAgain, rest⟩ := orderly.fsutilWrite plain buffer low high
  obtain ⟨value, next, ran, holds⟩ : ∃ value next, run (MockOS.Fs.fsutilWrite name buffer size) world = some (value, next) ∧
      (value ≠ 0 → NamedStore.Step (world.RoomToCreate (.write name buffer size)) world.namedStore
        (.write name buffer size) ⟨value, [], []⟩ next.namedStore) := by
    apply orderly.withStore plain
    · exact fun next _ same absent _ => same.symm ▸ .missing rfl absent
    intro own' nodes' root' middle file inode sector data orderly' same handle found
    have sameName : middle.position name = world.position name := handle.position
    rw [← sameName] at handle
    rw [wrap32_of_range (by omega) high]
    obtain ⟨written, dataAfter, last, _, own'', writes, step, mem, prompt, _, outcome⟩ :=
      orderly'.toAtPrompt.fileWrite handle (orderly'.positions name) buffer (by omega : 1 ≤ size) high
    refine ⟨written, _, writes, fun stored => ?_⟩
    rcases outcome with ⟨rfl, stores⟩ | ⟨failed, _⟩
    · rw [orderly'.namedStore_write plain handle low step mem stores prompt, same]
      exact .written found
    · exact absurd failed stored
  rw [ran, Option.some.injEq, Prod.mk.injEq] at ranAgain
  obtain ⟨rfl, rfl⟩ := ranAgain
  refine ⟨⟨value, [], []⟩, next, ?_, fun stored => ⟨rest stored, holds stored⟩⟩
  rw [ShellCommand.answer, run_bind, ran]
  rfl

/-- The store after a file of the table was closed. -/
theorem namedStore_removeFromFileTable (orderly : Orderly own shared nodes root entries world) {after : Owners}
    (handle : HandleOpen entries world name file inode pos sector data)
    (ran : run (MockOS.Fs.removeFromFileTable name) world = some (true, next))
    (orderlyAfter : Orderly after shared (Function.update nodes sector (some (.ofSector (world.disk sector)))) root entries next)
    (disk : next.disk = world.disk) (gone : next.handle name = none) :
    next.namedStore = world.namedStore.seek name 0 := by
  obtain ⟨nonzero, _, present, _⟩ := orderly.toAtPrompt.sector_regular handle
  refine Lib.NamedFiles.ext (funext fun other => ?_) (funext fun other => ?_)
  · exact orderly.toAtPrompt.files_kept orderlyAfter.toAtPrompt (fun _ => Iff.rfl) (.reload orderly.volume disk nonzero present)
      fun _ _ => not_false
  · change (next.position other).toNat = _
    by_cases here : other = name
    · rw [here, Lib.NamedFiles.position_seek_self, World.position, gone]
      rfl
    · have found := handle.handle
      unfold World.handle at found
      rw [MockOS.Fs.removeFromFileTable, run_bind, run_get, Option.bind_some, found] at ran
      dsimp only at ran
      rw [run_bind, run_fileClose handle.object handle.opened.object, Option.bind_some, run_bind, run_modify, Option.bind_some,
        run_pure, Option.some.injEq, Prod.mk.injEq] at ran
      have kept : next.position other = world.position other := by
        rw [← ran.2]
        refine World.position_eq (find_erase _ _ here) fun entry there => ?_
        exact Function.update_of_ne (handle.other_file orderly.handles here there) _ _
      rw [kept, Lib.NamedFiles.position_seek_of_ne _ _ here]
      rfl

theorem answer_cat (orderly : Orderly own shared nodes root entries world) (plain : PlainName name) :
    ∃ answer next, run (ShellCommand.cat name).answer world = some (answer, next) ∧
      Matches shared world (.cat name) answer next := by
  obtain ⟨value, next, ran, holds⟩ : ∃ value next, run (fsutilCatBytes name) world = some (value, next) ∧
      Matches shared world (.cat name) ⟨value.1, value.2, []⟩ next := by
    rw [run_fsutilCatBytes]
    apply orderly.withStore plain
    · exact fun next rest same absent => .unchanged rest same (.missing rfl absent)
    intro own' nodes' root' middle file inode sector data orderly' same handle found
    rw [orderly'.toAtPrompt.run_catFileBytes handle]
    by_cases opened : (world.handle name).isNone = true
    · obtain ⟨own'', next, ran, after, inMemory, gone, _⟩ := orderly'.removeFromFileTable handle
      refine ⟨(0, fileBytes middle.disk data), next, by rw [if_pos opened, run_bind, ran]; rfl, after.atRest, ?_⟩
      have unlisted : world.handle name = none := by simpa using opened
      have start : world.namedStore.position name = 0 := by
        change (world.position name).toNat = 0
        rw [World.position, unlisted]
        rfl
      have store : next.namedStore = world.namedStore := by
        rw [orderly'.namedStore_removeFromFileTable handle ran after inMemory.disk gone, same, ← start]
        exact Lib.NamedFiles.ext rfl (Function.update_eq_self _ _)
      rw [store]
      exact .printed found
    · refine ⟨(0, fileBytes middle.disk data), middle, by rw [if_neg opened]; rfl, .unchanged orderly'.atRest same (.printed found)⟩
  refine ⟨_, next, ?_, holds⟩
  rw [ShellCommand.answer, run_bind, ran]
  rfl

theorem answer_ls (orderly : Orderly own shared nodes root entries world) :
    ∃ answer next, run ShellCommand.ls.answer world = some (answer, next) ∧ Matches shared world .ls answer next := by
  obtain ⟨next, ran, own', nodes', root', prompt, _, same, _⟩ := orderly.toAtPrompt.fsutilLs
  have undisturbed := orderly.undisturbed_fsutilLs ran
  have after := orderly.undisturbed prompt undisturbed
  refine ⟨⟨0, [], namesOf entries⟩, next, by rw [ShellCommand.answer, run_bind, ran]; rfl, .unchanged after.atRest ?_ ?_⟩
  · exact orderly.toAtPrompt.namedStore_eq prompt same undisturbed.position
  · refine .listed orderly.tidy.nodup_namesOf fun name => ?_
    rw [mem_namesOf, orderly.toAtPrompt.files_ne_none_iff]

/-- A file that is not created. -/
theorem refused_of_notCreated (orderly : Orderly own shared nodes root entries world) (plain : PlainName name) {size : Int}
    (cause : NotCreated root entries name (wrap32 size) world next) :
    NamedStore.Step (world.RoomToCreate (.create name size)) world.namedStore (.create name size) ⟨0, [], []⟩ world.namedStore := by
  have slotDemand : world.slotDemand = demandFor world.disk root (36 * freeSlot entries + 36) := by
    rw [World.slotDemand, orderly.toMounted.inodeData orderly.present, orderly.toMounted.rootEntries]
  have noRoom : world.free ≤ world.slotDemand + (inodePlaces (blocksOf (wrap32 size))).length ∨
      512 * maxBlocks < 36 * freeSlot entries + 36 → ¬ world.RoomToCreate (.create name size) := by
    rintro full ⟨slot, enough⟩
    rw [orderly.toMounted.rootEntries] at slot
    omega
  refine .refused ?_
  cases cause with
  | noSector full => exact .inr (.inr (.inr (noRoom (.inl (by omega)))))
  | noInode _ cause =>
      rcases cause with negative | large | full
      · exact .inr (.inr (.inl fun sized => absurd sized.1 (by omega)))
      · exact .inr (.inr (.inl fun sized => absurd sized.2 (by omega)))
      · exact .inr (.inr (.inr (noRoom (.inl (by omega)))))
  | refused cause =>
      rcases cause with empty | long | named
      · exact absurd empty plain.notEmpty
      · exact .inr (.inl long)
      · exact .inl (orderly.toAtPrompt.files_ne_none_iff.mpr named)
  | noSlot _ full _ _ _ cause =>
      refine .inr (.inr (.inr (noRoom ?_)))
      rw [slotDemand, full]
      omega

theorem answer_create (orderly : Orderly own shared nodes root entries world) (plain : PlainName name) (size : Int) :
    ∃ answer next, run (ShellCommand.create name size).answer world = some (answer, next) ∧
      Matches shared world (.create name size) answer next := by
  obtain ⟨result, next, own', nodes', root', entries', ran, prompt, _, outcome⟩ :=
    orderly.toAtPrompt.fsutilCreate plain.nulFree size
  have undisturbed := orderly.undisturbed_fsutilCreate ran
  have after := orderly.undisturbed prompt undisturbed
  have answers : run (ShellCommand.create name size).answer world = some (⟨if result then 1 else 0, [], []⟩, next) := by
    rw [ShellCommand.answer, run_bind, ran]
    rfl
  refine ⟨_, next, answers, after.atRest, ?_⟩
  rcases outcome with ⟨bad, rfl, rfl, _⟩ | ⟨_, _, created⟩
  · have long : 30 < name.length := by
      have positive := List.length_pos_iff.mpr plain.notEmpty
      omega
    exact .refused (.inr (.inl long))
  rw [plain.fileName] at created
  rcases created.outcome with ⟨rfl, rfl, same, _, cause⟩ | ⟨rfl, same, sector, data, rfl, present, _, new⟩
  · rw [orderly.toAtPrompt.namedStore_eq prompt same undisturbed.position]
    exact orderly.refused_of_notCreated plain cause
  · have store : next.namedStore = world.namedStore.put name (List.replicate (wrap32 size).toNat 0) := by
      have named := orderly.tidy.named_new plain.nulFree new.short sector
      refine Lib.NamedFiles.ext (funext fun other => ?_) (funext fun other => ?_)
      · by_cases here : other = name
        · rw [here, prompt.files_named ((named name sector).mpr (.inr ⟨rfl, rfl⟩)) present, new.bytes,
            Lib.NamedFiles.files_put_self]
        · rw [Lib.NamedFiles.files_put_of_ne _ _ here]
          refine orderly.toAtPrompt.files_kept prompt (fun number => ?_) same fun number isNamed => ?_
          · rw [named]
            exact or_iff_left fun both => here both.1.symm
          · exact (orderly.regular other number isNamed).2.2.1
      · exact congrArg Int.toNat (undisturbed.position other)
    have root : world.inodeData 1 = _ := orderly.toMounted.inodeData orderly.present
    rw [store]
    refine .created (orderly.toAtPrompt.files_unnamed new.unnamed) new.short ⟨new.low, new.fits⟩ ?_
    rw [World.RoomToCreate, World.slotDemand, orderly.toMounted.rootEntries, root]
    exact ⟨new.slotFits, new.enough⟩

/-- A file that is not there is not open. -/
theorem position_absent (orderly : Orderly own shared nodes root entries world) (plain : PlainName name)
    (absent : world.namedStore.files name = none) : world.namedStore.position name = 0 := by
  have unlisted : world.handle name = none := by
    by_contra listed
    obtain ⟨entry, found⟩ := Option.ne_none_iff_exists'.mp listed
    obtain ⟨_, _, sector, _, handle⟩ := orderly.handleOpen found (orderly.usable plain)
    have named := handle.named
    rw [plain.fileName] at named
    exact orderly.toAtPrompt.files_ne_none_iff.mpr ⟨sector, named⟩ absent
  change (world.position name).toNat = 0
  rw [World.position, unlisted]
  rfl

/-- The store when the file of a path was closed before the path is removed. -/
theorem closePath_store (orderly : Orderly own shared nodes root entries world) (plain : PlainName name) :
    ∃ removed next own' nodes', run (MockOS.Fs.removeFromFileTable name) world = some (removed, next) ∧
      Orderly own' shared nodes' root entries next ∧ next.handle name = none ∧
      next.namedStore = world.namedStore.seek name 0 := by
  cases found : world.handle name with
  | none =>
      obtain ⟨removed, next, own', nodes', ran, after, gone⟩ := orderly.closePath plain
      have absent := found
      unfold World.handle at absent
      rw [MockOS.Fs.removeFromFileTable, run_bind, run_get, Option.bind_some, absent] at ran
      dsimp only at ran
      rw [run_pure, Option.some.injEq, Prod.mk.injEq] at ran
      have start : world.namedStore.position name = 0 := by
        change (world.position name).toNat = 0
        rw [World.position, found]
        rfl
      refine ⟨false, world, own, nodes, ?_, orderly, found, ?_⟩
      · rw [MockOS.Fs.removeFromFileTable, run_bind, run_get, Option.bind_some, absent]
        rfl
      · rw [← start]
        exact Lib.NamedFiles.ext rfl (Function.update_eq_self _ _).symm
  | some entry =>
      obtain ⟨inode, pos, sector, data, handle⟩ := orderly.handleOpen found (orderly.usable plain)
      obtain ⟨own', next, ran, after, inMemory, gone, _⟩ := orderly.removeFromFileTable handle
      exact ⟨true, next, own', _, ran, after, gone,
        orderly.namedStore_removeFromFileTable handle ran after inMemory.disk gone⟩

theorem answer_rm (orderly : Orderly own shared nodes root entries world) (plain : PlainName name) :
    ∃ answer next, run (ShellCommand.rm name).answer world = some (answer, next) ∧
      Matches shared world (.rm name) answer next := by
  obtain ⟨removed, middle, own₁, nodes₁, ran₁, orderly₁, gone, closed₁⟩ := orderly.closePath_store plain
  obtain ⟨result, next, own₂, nodes₂, root₂, entries₂, ran₂, prompt₂, _, _, names, same, _, _, outcome, _⟩ :=
    orderly₁.toAtPrompt.filesysRemove (plain.removeEnds entries)
  rw [plain.fileName, plain.flat] at names same outcome
  have closed : ∀ sector, Named entries (fileName name) sector → middle.closed sector := by
    rw [plain.fileName]
    exact fun sector named => orderly₁.tracked.closed_of_unlisted orderly₁.toAtPrompt named gone
  have undisturbed := orderly₁.undisturbed_filesysRemove plain.flat closed ran₂
  have answers : run (ShellCommand.rm name).answer world = some (⟨if result then 1 else 0, [], []⟩, next) := by
    rw [ShellCommand.answer, run_bind, MockOS.Fs.fsutilRm, run_bind, ran₁, Option.bind_some, run_bind, ran₂]
    rfl
  have store : next.namedStore = world.namedStore.remove name := by
    refine Lib.NamedFiles.ext (funext fun other => ?_) (funext fun other => ?_)
    · by_cases here : other = name
      · rw [here, Lib.NamedFiles.files_remove_self]
        exact prompt₂.files_unnamed fun number named => ((names name number).mp named).2 ⟨rfl, rfl⟩
      · rw [Lib.NamedFiles.files_remove_of_ne _ here, orderly₁.toAtPrompt.files_kept prompt₂ (fun number => ?_) same
          fun number named => ?_, closed₁, Lib.NamedFiles.files_seek]
        · rw [names]
          exact and_iff_left fun both => here both.1
        · rintro (isRoot | ⟨_, isNamed⟩)
          · exact (orderly₁.regular other number named).2.2.1 isRoot
          · exact here (orderly₁.tidy.name_unique named isNamed)
    · have kept : next.namedStore.position other = middle.namedStore.position other :=
        congrArg Int.toNat (undisturbed.position other)
      rw [kept, closed₁]
      rfl
  refine ⟨_, next, answers, (orderly₁.undisturbed prompt₂ undisturbed).atRest, ?_⟩
  cases result with
  | true =>
      obtain ⟨_, some_sector⟩ := outcome.mp rfl
      obtain ⟨bytes, present⟩ := Option.ne_none_iff_exists'.mp (orderly.toAtPrompt.files_ne_none_iff.mpr some_sector)
      rw [store]
      exact .removed present
  | false =>
      have absent : world.namedStore.files name = none := by
        by_contra there
        exact Bool.false_ne_true (outcome.mpr ⟨rfl, orderly.toAtPrompt.files_ne_none_iff.mp there⟩)
      have unchanged : world.namedStore.remove name = world.namedStore := by
        refine Lib.NamedFiles.ext ?_ ?_
        · change Function.update world.namedStore.files name none = _
          rw [← absent, Function.update_eq_self]
        · change Function.update world.namedStore.position name 0 = _
          rw [← orderly.position_absent plain absent, Function.update_eq_self]
      rw [store, unchanged]
      exact .notRemoved absent

/-- Each plain command answers as the store does, unless it is a write that fails. -/
theorem answer (orderly : Orderly own shared nodes root entries world) {command : ShellCommand} (plain : command.Plain) :
    ∃ answer next, run command.answer world = some (answer, next) ∧
      (command.SucceedsWith answer.value → Matches shared world command answer next) := by
  cases command with
  | create name size =>
      obtain ⟨answer, next, ran, same⟩ := orderly.answer_create plain size
      exact ⟨answer, next, ran, fun _ => same⟩
  | write name buffer size => exact orderly.answer_write plain.1 buffer plain.2.1 plain.2.2
  | read name size =>
      obtain ⟨answer, next, ran, same⟩ := orderly.answer_read plain size
      exact ⟨answer, next, ran, fun _ => same⟩
  | seek name offset =>
      obtain ⟨answer, next, ran, same⟩ := orderly.answer_seek plain.1 plain.2.1 plain.2.2
      exact ⟨answer, next, ran, fun _ => same⟩
  | size name =>
      obtain ⟨answer, next, ran, same⟩ := orderly.answer_size plain
      exact ⟨answer, next, ran, fun _ => same⟩
  | cat name =>
      obtain ⟨answer, next, ran, same⟩ := orderly.answer_cat plain
      exact ⟨answer, next, ran, fun _ => same⟩
  | rm name =>
      obtain ⟨answer, next, ran, same⟩ := orderly.answer_rm plain
      exact ⟨answer, next, ran, fun _ => same⟩
  | ls =>
      obtain ⟨answer, next, ran, same⟩ := orderly.answer_ls
      exact ⟨answer, next, ran, fun _ => same⟩

end Orderly

end MockOS.Fs
