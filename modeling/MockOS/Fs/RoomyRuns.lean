import MockOS.Fs.FilePositions
import MockOS.Fs.FreshFiles
import MockOS.Lib.Simulation

namespace MockOS.Fs

variable {shared : BlockSector → Prop} {own : Owners} {world middle next start : World} {nodes : Nodes} {sector : BlockSector}
  {root data : InodeDisk} {entries : List DirEntry} {name : CString} {commands : List ShellCommand}

/-- The slots of a directory that are not in use. -/
def unusedSlots (entries : List DirEntry) : Nat := entries.countP fun entry => !entry.inUse

theorem freeSlot_lt_of_unused (some_unused : 0 < unusedSlots entries) : freeSlot entries < entries.length := by
  obtain ⟨entry, member, unused⟩ := List.countP_pos_iff.mp some_unused
  exact List.findIdx_lt_length_of_exists ⟨entry, member, unused⟩

/-- A new entry takes one of the slots that are not in use. -/
theorem unusedSlots_setSlot (slot : freeSlot entries < entries.length) (entry : DirEntry) (inUse : entry.inUse = true) :
    unusedSlots (setSlot entries (freeSlot entries) entry) + 1 = unusedSlots entries := by
  have unused : entries[freeSlot entries].inUse = false := freeSlot_unused (List.getElem?_eq_getElem slot)
  have parts : entries = entries.take (freeSlot entries) ++ entries[freeSlot entries] :: entries.drop (freeSlot entries + 1) := by
    rw [List.getElem_cons_drop, List.take_append_drop]
  rw [unusedSlots, unusedSlots, setSlot]
  conv_rhs => rw [parts]
  simp only [List.countP_append, List.countP_cons, inUse, unused, Bool.not_true, Bool.not_false, Bool.false_eq_true, if_false,
    if_true]
  omega

theorem unusedSlots_newEntries : unusedSlots (newEntries 1 1000) = 999 := by
  rw [unusedSlots, newEntries, List.countP_cons_of_neg (by decide), List.countP_replicate]
  rfl

/-- The names, the lengths of the files and the used sectors stay, and no allocation fails. -/
structure World.SameShape (world next : World) : Prop where
  rootEntries : next.rootEntries = world.rootEntries
  length : ∀ name sector, Named world.rootEntries name sector →
    (next.inodeData sector).length = (world.inodeData sector).length
  limit : next.limit = world.limit
  used : ∀ other : BlockSector, other.toNat < world.limit → (next.used other ↔ world.used other)
  failures : next.mem.allocationFailures = world.mem.allocationFailures

namespace World.SameShape

theorem trans (first : World.SameShape world middle) (second : World.SameShape middle next) :
    World.SameShape world next where
  rootEntries := second.rootEntries.trans first.rootEntries
  length := fun name sector named =>
    (second.length name sector (first.rootEntries ▸ named)).trans (first.length name sector named)
  limit := second.limit.trans first.limit
  used := fun other inside => (second.used other (first.limit ▸ inside)).trans (first.used other inside)
  failures := second.failures.trans first.failures

theorem freeFrom {m : Nat} (shape : World.SameShape world next) (before : world.FreeFrom m) : next.FreeFrom m := by
  intro other inside
  rw [shape.limit] at inside
  rw [shape.used other inside]
  exact before other inside

end World.SameShape

/-- A file whose bytes stay keeps its length. -/
theorem AtPrompt.length_eq {after : Owners} {nodesAfter : Nodes} {rootAfter : InodeDisk} {entriesAfter : List DirEntry}
    (prompt : AtPrompt own shared nodes root entries world)
    (promptAfter : AtPrompt after shared nodesAfter rootAfter entriesAfter next) {changed : BlockSector → Prop}
    (same : SameBytes changed nodes nodesAfter world next) (outside : ¬ changed sector) (named : Named entries name sector) :
    (next.inodeData sector).length = (world.inodeData sector).length := by
  obtain ⟨_, nonzero, _, data, present, _⟩ := prompt.regular name sector named
  obtain ⟨dataAfter, there, bytes⟩ := same sector data outside nonzero present
  have low := (prompt.volume.node sector data present).low
  have lowAfter := (promptAfter.volume.node sector dataAfter there).low
  have lengths := congrArg List.length bytes
  rw [fileBytes, fileBytes, length_bytesAt, length_bytesAt] at lengths
  rw [prompt.toMounted.inodeData present, promptAfter.toMounted.inodeData there]
  omega

theorem AtPrompt.sameShape (prompt : AtPrompt own shared nodes root entries world)
    (settled : Settled shared nodes entries world next) : world.SameShape next := by
  obtain ⟨after, nodesAfter, rootAfter, promptAfter, inMemory, same, _⟩ := settled
  refine ⟨promptAfter.toMounted.rootEntries.trans prompt.toMounted.rootEntries.symm, fun name sector named => ?_,
    inMemory.limit, fun other _ => inMemory.used other, inMemory.failures⟩
  rw [prompt.toMounted.rootEntries] at named
  exact prompt.length_eq promptAfter same not_false named

/-- The commands that only look at files or move in them. -/
def ShellCommand.Looks : ShellCommand → Prop
  | .read _ _ | .seek _ _ | .size _ | .cat _ | .ls => True
  | _ => False

theorem Orderly.sameShape (orderly : Orderly own shared nodes root entries world) {command : ShellCommand} (looks : command.Looks)
    (plain : command.Plain) (ran : world.command command = some next) : world.SameShape next := by
  have prompt := orderly.toAtPrompt
  cases command with
  | create | write | rm => exact looks.elim
  | read name size =>
      obtain ⟨_, _, again, settled, _⟩ := prompt.fsutilRead (orderly.usable plain) (orderly.positions name) size
      rw [World.command, again, Option.map_some, Option.some.injEq] at ran
      exact prompt.sameShape (ran ▸ settled)
  | seek name offset =>
      obtain ⟨_, _, again, settled, _⟩ := prompt.fsutilSeek (orderly.usable plain.1) plain.2.2
      rw [World.command, again, Option.map_some, Option.some.injEq] at ran
      exact prompt.sameShape (ran ▸ settled)
  | size name =>
      obtain ⟨_, _, again, settled, _⟩ := prompt.fsutilSize (orderly.usable plain)
      rw [World.command, again, Option.map_some, Option.some.injEq] at ran
      exact prompt.sameShape (ran ▸ settled)
  | cat name =>
      obtain ⟨_, _, again, settled⟩ := prompt.fsutilCat (orderly.usable plain)
      rw [World.command, again, Option.map_some, Option.some.injEq] at ran
      exact prompt.sameShape (ran ▸ settled)
  | ls =>
      obtain ⟨_, again, settled⟩ := prompt.fsutilLs
      rw [World.command, again, Option.map_some, Option.some.injEq] at ran
      exact prompt.sameShape (ran ▸ settled)

/-- A write inside a file has room. -/
theorem Orderly.hasRoom (orderly : Orderly own shared nodes root entries world) (named : Named entries name sector) {size : Int}
    (inside : world.position name + size ≤ (world.inodeData sector).length) : world.HasRoom name size := by
  intro other isOther
  rw [orderly.toMounted.rootEntries] at isOther
  obtain rfl := orderly.tidy.sector_unique named isOther
  obtain ⟨_, _, _, data, present, _⟩ := orderly.regular name sector named
  have node := orderly.volume.node sector data present
  have low := node.low
  have high := node.high
  rw [orderly.toMounted.inodeData present] at inside ⊢
  refine ⟨by omega, ?_⟩
  rw [demandFor_of_complete node.complete (by omega) high]
  exact Nat.zero_le _

/-- A write inside a file keeps the shape of the volume and leaves the file open behind the text. -/
theorem Orderly.write_inside (orderly : Orderly own shared nodes root entries world) {buffer : Nat → UInt8} {size : Int}
    (plain : ShellCommand.Plain (.write name buffer size)) (named : Named entries name sector)
    (inside : world.position name + size ≤ (world.inodeData sector).length)
    (ran : world.command (.write name buffer size) = some next) : world.SameShape next ∧
      (∃ file, (name, file) ∈ next.mem.fileTable) ∧ next.position name = world.position name + (size - 2) := by
  obtain ⟨plainName, low, high⟩ := plain
  have prompt := orderly.toAtPrompt
  have position := orderly.positions name
  obtain ⟨value, last, again, outcome⟩ :=
    prompt.fsutilWrite (orderly.usable plainName) position buffer (by omega : 1 ≤ size) high
  rw [World.command, again, Option.map_some, Option.some.injEq] at ran
  obtain rfl : last = next := ran
  rw [plainName.fileName] at outcome
  rcases outcome with ⟨absent, _⟩ | ⟨own', nodes', root', file, inode, number, before, after, _, _, promptAfter, same, _, present,
    presentAfter, handle, written⟩
  · exact absurd named (absent sector)
  have isNamed := handle.named
  rw [plainName.fileName] at isNamed
  obtain rfl := prompt.tidy.sector_unique named isNamed
  have node := prompt.volume.node sector before present
  rw [prompt.toMounted.inodeData present] at inside
  rcases written with ⟨rfl, stores⟩ | ⟨_, keeps⟩
  · have demand : demandFor world.disk before ((world.position name).toNat + value.toNat) = 0 :=
      demandFor_of_complete node.complete (by omega) node.high
    refine ⟨?_, ⟨file, handle.member⟩, handle.position⟩
    have free : last.free = world.free := by
      rw [stores.free, demand, Nat.sub_zero]
    refine ⟨promptAfter.toMounted.rootEntries.trans prompt.toMounted.rootEntries.symm, fun other number isOther => ?_,
      stores.limit, fun other inLimit => ?_, stores.failures⟩
    · rw [prompt.toMounted.rootEntries] at isOther
      by_cases here : number = sector
      · have lengths := stores.length
        rw [here, prompt.toMounted.inodeData present, promptAfter.toMounted.inodeData presentAfter, lengths]
        omega
      · exact prompt.length_eq promptAfter same here isOther
    · rw [World.used, World.used, World.bits_eq_of_free prompt.volume.sound.small stores.limit stores.used free inLimit]
  · have beyond := keeps.beyond
    omega

/-- What `rm` of a file leaves. -/
structure World.Removed (name : CString) (world next : World) : Prop where
  named : ∀ other sector, Named next.rootEntries other sector ↔ Named world.rootEntries other sector ∧ other ≠ name
  length : ∀ other sector, Named next.rootEntries other sector →
    (next.inodeData sector).length = (world.inodeData sector).length
  failures : next.mem.allocationFailures = world.mem.allocationFailures

theorem Orderly.rm_removes (orderly : Orderly own shared nodes root entries world) (plain : PlainName name)
    (ran : world.command (.rm name) = some next) : World.Removed name world next := by
  have prompt := orderly.toAtPrompt
  obtain ⟨removed, middle, closes, settled, _⟩ := prompt.closePath (orderly.tracked.closable name)
  have shape := prompt.sameShape settled
  obtain ⟨own₁, nodes₁, root₁, prompt₁, _, _, _⟩ := settled
  obtain ⟨result, last, own₂, nodes₂, root₂, entries₂, removes, prompt₂, _, failures, erased, same, _⟩ :=
    prompt₁.filesysRemove (plain.removeEnds entries)
  rw [World.command, MockOS.Fs.fsutilRm, run_bind, closes, Option.bind_some, run_bind, removes, Option.bind_some, run_pure,
    Option.map_some, Option.some.injEq] at ran
  obtain rfl : last = next := ran
  rw [plain.fileName] at erased same
  have named : ∀ other sector, Named last.rootEntries other sector ↔ Named world.rootEntries other sector ∧ other ≠ name := by
    intro other sector
    rw [prompt₂.toMounted.rootEntries, prompt.toMounted.rootEntries, erased, and_iff_left plain.flat]
  refine ⟨named, fun other sector isOther => ?_, failures.trans shape.failures⟩
  obtain ⟨before, different⟩ := (named other sector).mp isOther
  rw [← shape.length other sector before]
  rw [prompt.toMounted.rootEntries] at before
  refine prompt₁.length_eq prompt₂ same ?_ before
  rintro (isRoot | ⟨_, isNamed⟩)
  · exact (prompt.regular other sector before).2.2.1 isRoot
  · exact different (prompt.tidy.name_unique before isNamed)

/-- A command on plain names that has room. -/
def World.RoomyStep (world : World) (command : ShellCommand) (next : World) : Prop :=
  command.Plain ∧ world.RoomFor command ∧ world.command command = some next

theorem Orderly.roomyStep (orderly : Orderly own shared nodes root entries world) {command : ShellCommand} (plain : command.Plain)
    (room : world.RoomFor command) : ∃ next, world.RoomyStep command next ∧ next.AtRest shared := by
  obtain ⟨next, ran, after⟩ := orderly.atRest.command plain
  exact ⟨next, ⟨plain, room, ran⟩, after (orderly.roomFor_succeeds plain room)⟩

/-- A file is where it was moved to. -/
theorem Orderly.seek_position (orderly : Orderly own shared nodes root entries world) {offset : Int}
    (plain : ShellCommand.Plain (.seek name offset)) (named : Named entries name sector)
    (ran : world.command (.seek name offset) = some next) : next.position name = offset := by
  obtain ⟨value, last, again, _, outcome⟩ := orderly.toAtPrompt.fsutilSeek (orderly.usable plain.1) plain.2.2
  rw [World.command, again, Option.map_some, Option.some.injEq] at ran
  obtain rfl : last = next := ran
  rcases outcome with ⟨absent, _⟩ | ⟨_, _, _, _, _, _, handle⟩
  · rw [plain.1.fileName] at absent
    exact absurd named (absent sector)
  · exact handle.position

theorem roomyRun_of_runs (runs : Lib.Runs World.RoomyStep start commands world) : start.RoomyRun world := by
  induction runs with
  | start => exact .start
  | step _ steps ih => exact .step ih steps.1 steps.2.1 steps.2.2

/-- A command on a plain name is safe. -/
theorem Orderly.safe (orderly : Orderly own shared nodes root entries world) {command : ShellCommand} (plain : command.Plain) :
    command.Valid ∧ world.Safe command := by
  cases command with
  | create name size => exact ⟨plain.nulFree, trivial⟩
  | write name buffer size =>
      obtain ⟨plainName, low, high⟩ := plain
      exact ⟨plainName.nulFree, orderly.usable plainName, orderly.positions name, by omega, high⟩
  | read name size => exact ⟨plain.nulFree, orderly.usable plain, orderly.positions name⟩
  | seek name offset =>
      obtain ⟨plainName, low, high⟩ := plain
      refine ⟨⟨plainName.nulFree, ?_⟩, orderly.usable plainName⟩
      simp [isOffset]
      omega
  | size name => exact ⟨plain.nulFree, orderly.usable plain⟩
  | cat name => exact ⟨plain.nulFree, orderly.usable plain⟩
  | rm name => exact ⟨plain.nulFree, orderly.tracked.closable name, plain.removeEnds _⟩
  | ls => exact ⟨trivial, trivial⟩

/-- A plain run is safe. -/
theorem World.PlainRun.safeRun (reached : start.PlainRun world) (rest : start.AtRest shared) : start.SafeRun world := by
  induction reached with
  | start => exact .start
  | step before plain _ ran ih =>
      obtain ⟨_, _, _, _, orderly⟩ := before.atRest rest
      obtain ⟨valid, safe⟩ := orderly.safe plain
      exact .step ih valid safe ran

/-- A command of a roomy run that only looks at files. -/
theorem Orderly.looks (orderly : Orderly own shared nodes root entries world) (command : ShellCommand) (looks : command.Looks)
    (plain : command.Plain) : ∃ next, world.RoomyStep command next ∧ next.AtRest shared ∧ world.SameShape next := by
  have room : world.RoomFor command := by
    cases command with
    | write => exact looks.elim
    | _ => trivial
  obtain ⟨next, step, rest⟩ := orderly.roomyStep plain room
  exact ⟨next, step, rest, orderly.sameShape looks plain step.2.2⟩

/-- `fsutil_create` with a name of good length is `filesys_create`. -/
theorem World.command_create {size : Int} {created : Bool} (long : name ≠ []) (short : name.length < 255)
    (ran : run (MockOS.Fs.filesysCreate name (wrap32 size) false) world = some (created, next)) :
    world.command (.create name size) = some next := by
  have good : ¬ (name.length = 0 ∨ name.length ≥ 255) := by
    rw [List.length_eq_zero_iff]
    exact not_or.mpr ⟨long, Nat.not_le.mpr short⟩
  rw [World.command, MockOS.Fs.fsutilCreate, if_neg good, run_bind, ran]
  rfl

/-- What the creation of a file behind the used sectors leaves. -/
structure World.Created (name : CString) (length : Int) (sector : BlockSector) (m : Nat) (world next : World) : Prop where
  unused : unusedSlots next.rootEntries + 1 = unusedSlots world.rootEntries
  named : ∀ other number, Named next.rootEntries other number ↔
    Named world.rootEntries other number ∨ name = other ∧ sector = number
  length_eq : (next.inodeData sector).length = length
  others : ∀ other number, Named world.rootEntries other number →
    (next.inodeData number).length = (world.inodeData number).length
  limit : next.limit = world.limit
  freeFrom : next.FreeFrom (m + 1 + blocksOf length)
  close : next.HasClose name length
  otherClose : ∀ other size, world.HasClose other size → next.HasClose other size
  failures : next.mem.allocationFailures = world.mem.allocationFailures

/-- The creation of a file where the root directory has unused slots and the device has room behind the used sectors. -/
theorem Orderly.createStep {m : Nat} (orderly : Orderly own shared nodes root entries world) (freeFrom : world.FreeFrom m)
    (plain : PlainName name) (short : name.length ≤ 30) (unnamed : ∀ sector, ¬ Named world.rootEntries name sector)
    {length : Int} (low : 0 ≤ length) (small : length ≤ 62976) (room : m + 1 + blocksOf length ≤ world.limit)
    (unused : 0 < unusedSlots world.rootEntries) : ∃ next sector, world.RoomyStep (.create name length) next ∧
      next.AtRest shared ∧ World.Created name length sector m world next := by
  have maximum : maxBlocks = 16635 := rfl
  have direct : blocksOf length ≤ 123 := by
    unfold blocksOf
    omega
  have places := length_inodePlaces_direct direct
  have stored := orderly.toMounted.rootEntries
  rw [stored] at unnamed unused
  have slot := freeSlot_lt_of_unused unused
  have plainName := plain.fileName
  obtain ⟨next, own', nodes', root', sector, ran, prompt, _, limit, contiguous, _, length', _, _, others⟩ :=
    orderly.toAtPrompt.create_room freeFrom plain.nulFree (by rw [plainName]; exact plain.notEmpty)
      (by rw [plainName]; exact short) (by rw [plainName]; exact unnamed) slot low (by omega) (by omega)
  obtain ⟨_, _, close, otherClose⟩ := orderly.toAtPrompt.create_close freeFrom plain.nulFree (by omega) ran
  rw [plainName] at prompt
  have isPlain : ShellCommand.Plain (.create name length) := plain
  have command : world.command (.create name length) = some next :=
    World.command_create plain.notEmpty (by omega) (by rw [wrap32_of_range (by omega) (by omega)]; exact ran)
  obtain ⟨after, step, rest⟩ := orderly.roomyStep isPlain trivial
  obtain rfl : after = next := Option.some.inj (step.2.2.symm.trans command)
  rw [places] at contiguous
  refine ⟨after, sector, step, rest, ⟨?_, fun other number => ?_, length', fun other number named => ?_, limit, contiguous, close,
    otherClose, ?_⟩⟩
  · rw [prompt.toMounted.rootEntries, stored]
    exact unusedSlots_setSlot slot _ rfl
  · rw [prompt.toMounted.rootEntries, stored]
    exact orderly.tidy.named_new plain.nulFree short sector other number
  · rw [others other number (stored ▸ named)]
  · have free := freeFrom.free orderly.volume.sound.small
    obtain ⟨last, _, _, _, _, _, again, _, _, _, _, new⟩ :=
      orderly.fsutilCreate_room plain short unnamed low (by omega) (by omega) slot
    have sameRun : world.command (.create name length) = some last := by
      rw [World.command, again]
      rfl
    obtain rfl : last = after := Option.some.inj (sameRun.symm.trans command)
    exact new.failures

/-- Commands that leave the files a of one sector, which is written, and b and d of several ones. -/
def busyCommands : List ShellCommand :=
  [.create [97] 512, .read [97] 1, .size [97], .cat [97], .ls, .seek [97] 0,
    .write [97] (fun index => [104, 105, 0, 0].getD index 0) 4, .create [98] 1400, .create [100] 600]

theorem plainName_b : PlainName [98] := ⟨by decide, by decide, by decide, by decide, by decide⟩

theorem plainName_c : PlainName [99] := ⟨by decide, by decide, by decide, by decide, by decide⟩

theorem plainName_d : PlainName [100] := ⟨by decide, by decide, by decide, by decide, by decide⟩

/-- A write inside a file leaves the shape of the volume. -/
theorem Orderly.writeStep (orderly : Orderly own shared nodes root entries world) {buffer : Nat → UInt8} {size : Int}
    (plain : ShellCommand.Plain (.write name buffer size)) (named : Named world.rootEntries name sector)
    (start : world.position name = 0) (inside : size ≤ (world.inodeData sector).length) :
    ∃ next, world.RoomyStep (.write name buffer size) next ∧ next.AtRest shared ∧ world.SameShape next ∧
      (∃ file, (name, file) ∈ next.mem.fileTable) ∧ next.position name = size - 2 := by
  rw [orderly.toMounted.rootEntries] at named
  have fits : world.position name + size ≤ (world.inodeData sector).length := by omega
  obtain ⟨next, step, rest⟩ := orderly.roomyStep plain (orderly.hasRoom named fits)
  obtain ⟨shape, opened, moved⟩ := orderly.write_inside plain named fits step.2.2
  exact ⟨next, step, rest, shape, opened, by omega⟩

theorem busy_small : ∃ start world shared first second third,
    run (filesysInit true) ⟨.boot 300 fun _ => 0, fun _ => zeros⟩ = some ((), start) ∧
      Lib.Runs World.RoomyStep start busyCommands world ∧ world.AtRest shared ∧
      (∀ name sector, Named world.rootEntries name sector ↔
        name = [97] ∧ sector = first ∨ name = [98] ∧ sector = second ∨ name = [100] ∧ sector = third) ∧
      (world.inodeData first).length = 512 ∧ (world.inodeData second).length = 1400 ∧ (world.inodeData third).length = 600 ∧
      world.HasClose [98] 1400 ∧ world.HasClose [100] 600 ∧ world.FreeFrom 83 ∧ world.limit = 299 ∧
      0 < unusedSlots world.rootEntries ∧ world.mem.allocationFailures = 0 := by
  obtain ⟨start, own, shared, nodes, root, formatted, _, _, noFailure, orderly⟩ := orderly_small
  obtain ⟨same, _, _, _, _, again, limit, freeFrom, _⟩ := format_small_freeFrom
  obtain rfl : same = start := (Prod.mk.inj (Option.some.inj (again.symm.trans formatted))).2
  have blocks : blocksOf 512 = 1 ∧ blocksOf 1400 = 3 ∧ blocksOf 600 = 2 := by decide
  have unused := unusedSlots_newEntries
  have noNames : ∀ name sector, ¬ Named same.rootEntries name sector := fun name sector => by
    rw [orderly.toMounted.rootEntries]
    exact not_named_newEntries _ _ _ _
  rw [← orderly.toMounted.rootEntries] at unused
  -- a is created, looked at and written
  obtain ⟨world₁, first, step₁, ⟨_, _, _, _, orderly₁⟩, created₁⟩ :=
    orderly.createStep freeFrom plainName_a (by decide) (noNames _) (by decide : (0 : Int) ≤ 512) (by decide) (by omega)
      (by omega)
  obtain ⟨world₂, step₂, ⟨_, _, _, _, orderly₂⟩, shape₂⟩ := orderly₁.looks (.read [97] 1) trivial plainName_a
  obtain ⟨world₃, step₃, ⟨_, _, _, _, orderly₃⟩, shape₃⟩ := orderly₂.looks (.size [97]) trivial plainName_a
  obtain ⟨world₄, step₄, ⟨_, _, _, _, orderly₄⟩, shape₄⟩ := orderly₃.looks (.cat [97]) trivial plainName_a
  obtain ⟨world₅, step₅, ⟨_, _, _, _, orderly₅⟩, shape₅⟩ := orderly₄.looks .ls trivial trivial
  have plain₆ : ShellCommand.Plain (.seek [97] 0) := ⟨plainName_a, by decide, by decide⟩
  obtain ⟨world₆, step₆, ⟨_, _, _, _, orderly₆⟩, shape₆⟩ := orderly₅.looks (.seek [97] 0) trivial plain₆
  have looked := ((shape₂.trans shape₃).trans shape₄).trans shape₅
  have named₁ : Named world₁.rootEntries [97] first := (created₁.named _ _).mpr (.inr ⟨rfl, rfl⟩)
  have named₅ : Named world₅.rootEntries [97] first := looked.rootEntries ▸ named₁
  have position := orderly₅.seek_position plain₆ (orderly₅.toMounted.rootEntries ▸ named₅) step₆.2.2
  have length₆ : (world₆.inodeData first).length = 512 := by
    rw [(looked.trans shape₆).length _ _ named₁, created₁.length_eq]
  have plain₇ : ShellCommand.Plain (.write [97] (fun index => [104, 105, 0, 0].getD index 0) 4) := ⟨plainName_a, by decide, by decide⟩
  obtain ⟨world₇, step₇, ⟨_, _, _, _, orderly₇⟩, shape₇, _⟩ :=
    orderly₆.writeStep plain₇ (shape₆.rootEntries ▸ named₅) position (by omega)
  have shape := (looked.trans shape₆).trans shape₇
  -- b and d are created behind it
  have onlyFirst : ∀ name sector, Named world₇.rootEntries name sector ↔ [97] = name ∧ first = sector := fun name sector => by
    rw [shape.rootEntries, created₁.named, or_iff_right (noNames name sector)]
  have named₇ := (onlyFirst _ _).mpr ⟨rfl, rfl⟩
  have limit₇ := shape.limit.trans created₁.limit
  have unused₁ := created₁.unused
  have unused₇ := congrArg unusedSlots shape.rootEntries
  obtain ⟨world₈, second, step₈, ⟨_, _, _, _, orderly₈⟩, created₈⟩ :=
    orderly₇.createStep (shape.freeFrom created₁.freeFrom) plainName_b (by decide)
      (fun sector named => absurd ((onlyFirst _ _).mp named).1 (by decide)) (by decide : (0 : Int) ≤ 1400) (by decide)
      (by omega) (by omega)
  have limit₈ := created₈.limit
  have unused₈ := created₈.unused
  obtain ⟨world, third, step₉, rest, created₉⟩ :=
    orderly₈.createStep created₈.freeFrom plainName_d (by decide)
      (fun sector named => by
        rw [created₈.named, onlyFirst] at named
        rcases named with ⟨same, _⟩ | ⟨same, _⟩ <;> exact absurd same (by decide))
      (by decide : (0 : Int) ≤ 600) (by decide) (by omega) (by omega)
  have limit₉ := created₉.limit
  have unused₉ := created₉.unused
  have isSecond : Named world₈.rootEntries [98] second := (created₈.named _ _).mpr (.inr ⟨rfl, rfl⟩)
  have runs := ((((((((Lib.Runs.start.step step₁).step step₂).step step₃).step step₄).step step₅).step step₆).step step₇).step
    step₈).step step₉
  have freeFrom₉ := created₉.freeFrom
  rw [blocks.1, blocks.2.1, blocks.2.2] at freeFrom₉
  refine ⟨same, world, shared, first, second, third, formatted, runs, rest, fun name sector => ?_, ?_, ?_, created₉.length_eq,
    created₉.otherClose _ _ created₈.close, created₉.close, freeFrom₉, by omega, by omega, ?_⟩
  · rw [created₉.named, created₈.named, onlyFirst]
    simp only [eq_comm, or_assoc]
  · rw [created₉.others _ _ ((created₈.named _ _).mpr (.inl named₇)), created₈.others _ _ named₇, shape.length _ _ named₁,
      created₁.length_eq]
  · rw [created₉.others _ _ isSecond, created₈.length_eq]
  · rw [created₉.failures, created₈.failures, shape.failures, created₁.failures, noFailure]

/-- Commands of every kind, which leave the files a, b and d. -/
def usedCommands : List ShellCommand :=
  busyCommands ++ [.create [99] 513, .rm [99], .seek [97] 0, .write [97] (fun index => [104, 111, 0, 0].getD index 0) 4]

theorem used_small : ∃ start world shared first second third,
    run (filesysInit true) ⟨.boot 300 fun _ => 0, fun _ => zeros⟩ = some ((), start) ∧
      Lib.Runs World.RoomyStep start usedCommands world ∧ world.AtRest shared ∧
      (∀ name sector, Named world.rootEntries name sector ↔
        name = [97] ∧ sector = first ∨ name = [98] ∧ sector = second ∨ name = [100] ∧ sector = third) ∧
      (world.inodeData first).length = 512 ∧ (world.inodeData second).length = 1400 ∧ (world.inodeData third).length = 600 ∧
      (∃ file, ([97], file) ∈ world.mem.fileTable) ∧ world.position [97] = 2 ∧ world.mem.allocationFailures = 0 := by
  obtain ⟨start, busy, shared, first, second, third, formatted, runs, ⟨_, _, _, _, orderly⟩, names, firstLength, secondLength,
    thirdLength, _, _, freeFrom, limit, unused, noFailure⟩ := busy_small
  have blocks : blocksOf 513 = 2 := by decide
  have unnamed : ∀ sector, ¬ Named busy.rootEntries [99] sector := fun sector named => by
    rw [names] at named
    rcases named with ⟨same, _⟩ | ⟨same, _⟩ | ⟨same, _⟩ <;> exact absurd same (by decide)
  obtain ⟨world₁, _, step₁, ⟨_, _, _, _, orderly₁⟩, created⟩ :=
    orderly.createStep freeFrom plainName_c (by decide) unnamed (by decide : (0 : Int) ≤ 513) (by decide) (by omega) unused
  have plain₂ : ShellCommand.Plain (.rm [99]) := plainName_c
  obtain ⟨world₂, step₂, ⟨_, _, _, _, orderly₂⟩⟩ := orderly₁.roomyStep plain₂ trivial
  have removed := orderly₁.rm_removes plainName_c step₂.2.2
  have names₂ : ∀ name sector, Named world₂.rootEntries name sector ↔ Named busy.rootEntries name sector := by
    intro name sector
    rw [removed.named, created.named]
    constructor
    · rintro ⟨before | ⟨rfl, _⟩, different⟩
      · exact before
      · exact absurd rfl different
    · intro before
      refine ⟨.inl before, ?_⟩
      rintro rfl
      exact unnamed sector before
  have lengths₂ : ∀ name sector, Named busy.rootEntries name sector →
      (world₂.inodeData sector).length = (busy.inodeData sector).length := fun name sector named => by
    rw [removed.length _ _ ((names₂ name sector).mpr named), created.others _ _ named]
  -- a is written again
  have isFirst := (names [97] first).mpr (.inl ⟨rfl, rfl⟩)
  have plain₃ : ShellCommand.Plain (.seek [97] 0) := ⟨plainName_a, by decide, by decide⟩
  obtain ⟨world₃, step₃, ⟨_, _, _, _, orderly₃⟩, shape₃⟩ := orderly₂.looks (.seek [97] 0) trivial plain₃
  have named₂ := (names₂ [97] first).mpr isFirst
  have position := orderly₂.seek_position plain₃ (orderly₂.toMounted.rootEntries ▸ named₂) step₃.2.2
  have length₃ : (world₃.inodeData first).length = 512 := by
    rw [shape₃.length _ _ named₂, lengths₂ _ _ isFirst, firstLength]
  have plain₄ : ShellCommand.Plain (.write [97] (fun index => [104, 111, 0, 0].getD index 0) 4) := ⟨plainName_a, by decide, by decide⟩
  obtain ⟨world, step₄, rest, shape₄, opened, moved⟩ :=
    orderly₃.writeStep plain₄ (shape₃.rootEntries ▸ named₂) position (by omega)
  have shape := shape₃.trans shape₄
  have kept : ∀ name sector, Named busy.rootEntries name sector →
      (world.inodeData sector).length = (busy.inodeData sector).length := fun name sector named =>
    (shape.length _ _ ((names₂ name sector).mpr named)).trans (lengths₂ _ _ named)
  refine ⟨start, world, shared, first, second, third, formatted, (((runs.step step₁).step step₂).step step₃).step step₄, rest,
    fun name sector => ?_, ?_, ?_, ?_, opened, moved, ?_⟩
  · rw [shape.rootEntries, names₂, names]
  · exact (kept _ _ isFirst).trans firstLength
  · exact (kept [98] second ((names _ _).mpr (.inr (.inl ⟨rfl, rfl⟩)))).trans secondLength
  · exact (kept [100] third ((names _ _).mpr (.inr (.inr ⟨rfl, rfl⟩)))).trans thirdLength
  · rw [shape.failures, removed.failures, created.failures, noFailure]

section Format

variable {deviceSize : UInt32} {garbage : Nat → UInt8} {disk : BlockSector → Sector}

/-- While every write of a run has room no position is negative, and a write that stores nothing leaves its position exactly
when it has room. -/
theorem roomyRun_positions (fits : FormatFits deviceSize)
    (formatted : run (filesysInit true) ⟨.boot deviceSize garbage, disk⟩ = some ((), start))
    (reached : start.RoomyRun world) : world.PositionsValid ∧ ∀ name buffer size,
      (ShellCommand.write name buffer size).Plain →
        (world.WriteKeepsPosition name buffer size ↔ world.HasRoom name size) := by
  obtain ⟨_, rest⟩ := plainRun_atRest fits formatted .start
  obtain ⟨_, _, _, _, orderly⟩ := (reached.plainRun rest).atRest rest
  exact ⟨orderly.positionsValid, fun name buffer size plain => orderly.writeKeepsPosition_iff plain⟩

end Format

/-- After the commands of every kind a is open at 2. -/
theorem roomyRun_positions_small : ∃ start world,
    run (filesysInit true) ⟨.boot 300 fun _ => 0, fun _ => zeros⟩ = some ((), start) ∧
      Lib.Runs World.RoomyStep start usedCommands world ∧ (∃ file, ([97], file) ∈ world.mem.fileTable) ∧
      world.position [97] = 2 ∧ world.PositionsValid ∧
      (world.WriteKeepsPosition [97] (fun _ => 65) 3 ↔ world.HasRoom [97] 3) := by
  obtain ⟨start, world, _, _, _, _, formatted, runs, _, _, _, _, _, opened, position, _⟩ := used_small
  obtain ⟨valid, keeps⟩ := roomyRun_positions formatFits_small formatted (roomyRun_of_runs runs)
  exact ⟨start, world, formatted, runs, opened, position, valid, keeps _ _ _ ⟨plainName_a, by decide, by decide⟩⟩

/-- `create a 0` and `create b 113664` fill the device; then `write a x` moves the position of the empty file to -2. -/
theorem failed_write_moves_back : ∃ start world next file,
    run (filesysInit true) ⟨.boot 300 fun _ => 0, fun _ => zeros⟩ = some ((), start) ∧ start.RoomyRun world ∧
      run (fsutilWrite [97] (fun index => if index = 0 then 120 else 0) 3) world = some (0, next) ∧
      ([97], file) ∈ next.mem.fileTable ∧ (next.mem.files file).map File.pos = some (-2) ∧ ¬ next.PositionsValid := by
  obtain ⟨start, own, shared, nodes, root, formatted, free, noFiles, _, orderly⟩ := orderly_small
  have none : (inodePlaces (blocksOf 0)).length = 0 := by decide
  have many : (inodePlaces (blocksOf 113664)).length = 223 := by
    rw [inodePlaces_indirect (by decide) (by decide), List.length_append, length_inodePlaces_direct (Nat.le_refl 123),
      List.length_map, Lib.length_places_one (by decide)]
    decide
  obtain ⟨first, own₁, nodes₁, root₁, sector, data, creates₁, orderly₁, table₁, present₁, length₁, filled, _, free₁⟩ :=
    orderly.create_room plainName_a (by decide) (not_named_newEntries _ _ _) (by decide : (0 : Int) ≤ 0) (by decide)
      (by omega) freeSlot_newEntries
  obtain ⟨unnamed, slot⟩ := freeSlot_second orderly.tidy sector plainName_a.nulFree (by decide : ([97] : CString) ≠ [98])
    (by decide)
  obtain ⟨world, own₂, nodes₂, root₂, other, _, creates₂, orderly₂, table₂, _, _, _, others₂, free₂⟩ :=
    orderly₁.create_room plainName_b (by decide) unnamed (by decide : (0 : Int) ≤ 113664) (by decide) (by omega) slot
  have plain₁ : ShellCommand.Plain (.create [97] 0) := plainName_a
  have plain₂ : ShellCommand.Plain (.create [98] 113664) := plainName_b
  have reached : start.RoomyRun world := .step (.step .start plain₁ trivial creates₁) plain₂ trivial creates₂
  have named₁ := (orderly.tidy.named_new plainName_a.nulFree (by decide) sector [97] sector).mpr (.inr ⟨rfl, rfl⟩)
  have named := (orderly₁.tidy.named_new plainName_b.nulFree (by decide) other [97] sector).mpr (.inl named₁)
  have isOther := (orderly₁.tidy.named_new plainName_b.nulFree (by decide) other [98] other).mpr (.inr ⟨rfl, rfl⟩)
  have apart : sector ≠ other := by
    rintro rfl
    exact absurd (orderly₂.tidy.name_unique named isOther) (by decide)
  have present := (others₂ sector (orderly₂.regular _ _ named).2.2.1 apart).trans present₁
  have missing : data.entry 0 = 0 := by
    by_contra there
    have within : Place.within (0, []) :=
      within_of_mem_inodePlaces (by decide : ((0, []) : Place) ∈ inodePlaces (blocksOf 512))
    exact absurd ((filled (0, []) within).mp there) (by decide)
  have demand : demandFor world.disk data 3 = 1 := by
    have places : inodePlaces (bytesToSectors (3 : Nat)) = [(0, [])] := by decide
    rw [demandFor, inodeDemand, places, List.length_map, List.filter_cons_of_pos]
    · rfl
    · exact decide_eq_true missing
  have position : world.position [97] = 0 := by
    rw [World.position, World.handle, table₂, table₁, noFiles]
    rfl
  obtain ⟨value, next, ran, outcome⟩ := orderly₂.toAtPrompt.fsutilWrite (orderly₂.usable plainName_a)
    (orderly₂.positions [97]) (fun index => if index = 0 then 120 else 0) (by decide : (1 : Int) ≤ 3) (by decide)
  rw [position, plainName_a.fileName] at outcome
  rcases outcome with ⟨absent, _⟩ | ⟨_, _, _, file, inode, number, before, _, _, _, _, _, _, there, _, handle,
    ⟨_, stores⟩ | ⟨rfl, _⟩⟩
  · exact absurd named (absent sector)
  · have isNamed := handle.named
    rw [plainName_a.fileName] at isNamed
    obtain rfl := orderly₂.tidy.sector_unique named isNamed
    obtain rfl : before = data := Option.some.inj (there.symm.trans present)
    have enough := stores.enough
    change demandFor world.disk before 3 ≤ _ at enough
    omega
  · refine ⟨start, world, next, file, formatted, reached, ran, handle.member, by rw [handle.object]; rfl, fun valid => ?_⟩
    exact absurd (valid _ handle.member _ handle.object) (show ¬ (0 : Int) ≤ 0 + (0 - 2) by decide)

end MockOS.Fs
