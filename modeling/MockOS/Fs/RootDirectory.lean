import MockOS.Fs.ByteFiles
import MockOS.Fs.DirectoryOps

namespace MockOS.Fs

/-- What happened to the inodes and the names, the latest first. -/
inductive RootEvent where
  | created (sector : BlockSector)
  | added (name : CString) (sector : BlockSector)
  | removed (name : CString) (sector : BlockSector)

/-- The sector of the last add of a name that no remove follows. -/
def sectorIn : List RootEvent → CString → Option BlockSector
  | [], _ => none
  | .created _ :: rest, name => sectorIn rest name
  | .added other sector :: rest, name => if other = name then some sector else sectorIn rest name
  | .removed other _ :: rest, name => if other = name then none else sectorIn rest name

/-- The sectors of regular files that were created and not removed. -/
def liveIn : List RootEvent → BlockSector → Bool
  | [], _ => false
  | .created other :: rest, sector => other == sector || liveIn rest sector
  | .added _ _ :: rest, sector => liveIn rest sector
  | .removed _ other :: rest, sector => other != sector && liveIn rest sector

/-- The calls on the root directory, and the creation of inodes for them. -/
inductive RootCall where
  | create (length : Int)
  | add (name : CString) (sector : BlockSector)
  | remove (name : CString)

/-- The root directory is open while it is used. -/
structure RootSession where
  world : World
  dir : Pointer
  history : List RootEvent

namespace RootSession

/-- A call runs to its result, or into undefined behaviour. -/
def perform (session : RootSession) : RootCall → Option (Bool × RootSession)
  | .create length =>
      (run (createInode length) session.world).map fun result =>
        match result.1 with
        | some sector => (true, { session with world := result.2, history := .created sector :: session.history })
        | none => (false, { session with world := result.2 })
  | .add name sector =>
      (run (dirAdd session.dir name sector false) session.world).map fun result =>
        (result.1, { session with
          world := result.2
          history := if result.1 then .added name sector :: session.history else session.history })
  | .remove name =>
      (run (dirRemove session.dir name) session.world).map fun result =>
        (result.1, { session with
          world := result.2
          history := if result.1 then .removed name ((sectorIn session.history name).getD 0) :: session.history
            else session.history })

theorem history_add {session next : RootSession} {name : CString} {sector : BlockSector}
    (ran : session.perform (.add name sector) = some (true, next)) :
    next.history = .added name sector :: session.history := by
  simp only [perform, Option.map_eq_some_iff, Prod.mk.injEq] at ran
  obtain ⟨_, _, done, rfl⟩ := ran
  dsimp only
  rw [if_pos done]

end RootSession

/-- The entries of the root directory. -/
def World.rootEntries (world : World) : List DirEntry := entriesOf (world.inodeBytes 1)

/-- An entry can be stored: a slot is free, or the extension of the directory does not fail. -/
def World.RootHasRoom (world : World) : Prop :=
  (∃ entry ∈ world.rootEntries, entry.inUse = false) ∨
    36 * (world.rootEntries.length + 1) ≤ 512 * maxBlocks ∧
      demandFor world.disk (world.inodeData 1) (36 * (world.rootEntries.length + 1)) ≤ world.free

/-- An added sector holds a live regular file that no entry names yet. -/
def RootSession.Legal (session : RootSession) : RootCall → Prop
  | .create length => isOffset length
  | .add name sector => 0 ∉ name ∧ liveIn session.history sector = true ∧
      (∀ other, sectorIn session.history other ≠ some sector) ∧ session.world.RootHasRoom
  | .remove _ => True

inductive RootSession.Reaches : RootSession → RootSession → Prop
  | refl (session : RootSession) : Reaches session session
  | step {start session next : RootSession} {call : RootCall} {result : Bool} : Reaches start session →
      session.Legal call → session.perform call = some (result, next) → Reaches start next

/-- The names that a freshly opened root directory gives to `dir_readdir`. -/
def freshNames : Action (List CString) := do
  let dir ← deref (← dirOpen (some (← inodeOpen 1)))
  readNames dir (← entryRounds (← dirGetInode dir))

/-- The root directory is the finite map of its history. -/
structure RootSession.IsMap (session : RootSession) : Prop where
  first : ∃ entry, session.world.rootEntries[0]? = some entry ∧ entry.inUse = true
  distinct : (namesOf session.world.rootEntries).Nodup
  lookup : ∀ name, ∃ found, run (lookup session.dir name) session.world = some (found, session.world) ∧
    found.map (fun found => found.1.inodeSector) = sectorIn session.history name
  readdir : ∃ names next, run freshNames session.world = some (names, next) ∧ names.Nodup ∧
    ∀ name, name ∈ names ↔ sectorIn session.history name ≠ none
  add : ∀ name sector, session.Legal (.add name sector) → ∃ result next,
    session.perform (.add name sector) = some (result, next) ∧
    (result = false ↔ name = [] ∨ 30 < name.length ∨ sectorIn session.history name ≠ none) ∧
    (result = false → next.world.rootEntries = session.world.rootEntries)
  remove : ∀ name, ∃ result next, session.perform (.remove name) = some (result, next) ∧
    (result = false ↔ sectorIn session.history name = none) ∧
    (result = false → next.world.rootEntries = session.world.rootEntries)

variable {shared : BlockSector → Prop} {own after : Owners} {world next : World} {nodes nodesAfter : Nodes}
  {sector number : BlockSector} {pointer dir : Pointer} {root data dataAfter : InodeDisk} {entries : List DirEntry}
  {entry : DirEntry} {name : CString} {session : RootSession}

/-- The entries hold the names of the history, each for a live regular file. -/
structure RootSession.Holds (session : RootSession) (own : Owners) (shared : BlockSector → Prop) (nodes : Nodes)
    (pointer : Pointer) (root : InodeDisk) (entries : List DirEntry) : Prop where
  volume : Volume own shared nodes session.world
  live : own.Live nodes session.world.disk
  opened : DirOpened session.world session.dir 1 pointer root entries
  tidy : Tidy entries
  named : ∀ name sector, Named entries name sector ↔ sectorIn session.history name = some sector
  target : ∀ name sector, Named entries name sector → liveIn session.history sector = true
  regular : ∀ sector, liveIn session.history sector = true →
    sector ≠ 0 ∧ sector ≠ 1 ∧ ∃ data, nodes sector = some data ∧ data.isDir = false

namespace RootSession.Holds

theorem rootEntries (holds : session.Holds own shared nodes pointer root entries) :
    session.world.rootEntries = entries := by
  rw [World.rootEntries, World.inodeBytes,
    holds.volume.inodeData_eq (holds.volume.table.node holds.opened.opened), holds.opened.holds.entries_eq]

/-- `lookup` gives the sector of the history. -/
theorem lookup_eq (holds : session.Holds own shared nodes pointer root entries) (name : CString) :
    (entries[nameSlot entries name]?).map (·.inodeSector) = sectorIn session.history name := by
  apply Option.ext
  intro sector
  rw [← holds.named, holds.tidy.named_iff]

theorem absent_iff (holds : session.Holds own shared nodes pointer root entries) (name : CString) :
    entries[nameSlot entries name]? = none ↔ sectorIn session.history name = none := by
  rw [← holds.lookup_eq, Option.map_eq_none_iff]

/-- A directory with room takes the entry. -/
theorem room (holds : session.Holds own shared nodes pointer root entries) (hasRoom : session.world.RootHasRoom)
    (full : freeSlot entries = entries.length) :
    36 * (entries.length + 1) ≤ 512 * maxBlocks ∧
      demandFor session.world.disk root (36 * (entries.length + 1)) ≤ session.world.free := by
  rw [World.RootHasRoom, holds.rootEntries,
    holds.volume.inodeData_eq (holds.volume.table.node holds.opened.opened)] at hasRoom
  refine hasRoom.resolve_left ?_
  rintro ⟨entry, member, unused⟩
  have found := List.findIdx_lt_length_of_exists (p := fun entry : DirEntry => !entry.inUse) ⟨entry, member, by simp [unused]⟩
  unfold freeSlot at full
  omega

theorem root_present (holds : session.Holds own shared nodes pointer root entries) : nodes 1 = some root :=
  holds.volume.table.node holds.opened.opened

/-- A new inode does not touch the directory. -/
theorem create (holds : session.Holds own shared nodes pointer root entries) {length : Int}
    (valid : isOffset length = true) : ∃ result next own' nodes',
      session.perform (.create length) = some (result, next) ∧ next.Holds own' shared nodes' pointer root entries ∧
      ((length < 0 ∨ 512 * maxBlocks < length ∨ session.world.free ≤ (inodePlaces (blocksOf length)).length) ∨
        ∃ sector, result = true ∧ next.history = .created sector :: session.history) := by
  have high : length < 2147483648 := by
    simp [isOffset] at valid
    exact valid.2
  obtain ⟨pos, openCnt, object⟩ := holds.opened.object
  rcases holds.volume.createInode holds.live high with
    ⟨sector, next, after, ran, absent, mem, step, cause⟩ | ⟨sector, data, next, after, ran, absent, mem, step, created⟩
  · have notRoot : sector ≠ 1 := by
      rintro rfl
      rw [holds.root_present] at absent
      cases absent
    have same : OpenSame sector session.world next := .of_mem (by rw [mem]) (by rw [mem])
    refine ⟨false, { session with world := next }, _, nodes, by rw [perform, ran]; rfl,
      ⟨step.volume.trim, after.trim_live _ _, ⟨⟨pos, openCnt, ?_⟩, (same 1 notRoot.symm _ _).mpr holds.opened.opened,
        step.holdsEntries holds.volume notRoot.symm (by decide) holds.root_present holds.opened.holds,
        holds.opened.some_entry⟩, holds.tidy, holds.named, holds.target, holds.regular⟩, .inl cause⟩
    change next.mem.dirs session.dir = _
    rw [mem]
    exact object
  · have notRoot : sector ≠ 1 := by
      rintro rfl
      rw [holds.root_present] at absent
      cases absent
    have same : OpenSame sector session.world next := .of_mem (by rw [mem]) (by rw [mem])
    refine ⟨true, { session with world := next, history := .created sector :: session.history }, _, _,
      by rw [perform, ran]; rfl, ⟨step.volume.trim, after.trim_live _ _, ⟨⟨pos, openCnt, ?_⟩,
        (same 1 notRoot.symm _ _).mpr holds.opened.opened,
        step.holdsEntries holds.volume notRoot.symm (by decide) holds.root_present holds.opened.holds,
        holds.opened.some_entry⟩, holds.tidy, holds.named, fun name number named => ?_, fun number isLive => ?_⟩,
      .inr ⟨sector, rfl, rfl⟩⟩
    · change next.mem.dirs session.dir = _
      rw [mem]
      exact object
    · rw [liveIn, holds.target name number named, Bool.or_true]
    · rw [liveIn, Bool.or_eq_true, beq_iff_eq] at isLive
      by_cases isNew : number = sector
      · subst isNew
        exact ⟨created.nonzero, notRoot, data, Function.update_self _ _ _, created.isDir⟩
      · obtain ⟨nonzero, nonroot, data, present, regular⟩ := holds.regular number (isLive.resolve_left (Ne.symm isNew))
        exact ⟨nonzero, nonroot, data, (Function.update_of_ne isNew _ _).trans present, regular⟩

/-- An add succeeds unless the name is bad or there. -/
theorem add (holds : session.Holds own shared nodes pointer root entries) (legal : session.Legal (.add name sector)) :
    ∃ result next own' nodes' root' entries', session.perform (.add name sector) = some (result, next) ∧
      next.Holds own' shared nodes' pointer root' entries' ∧
      (result = false ↔ name = [] ∨ 30 < name.length ∨ sectorIn session.history name ≠ none) ∧
      (result = false → entries' = entries) := by
  obtain ⟨nulFree, isLive, unnamed, hasRoom⟩ := legal
  by_cases bad : name = [] ∨ 30 < name.length ∨ sectorIn session.history name ≠ none
  · have ran : run (dirAdd session.dir name sector false) session.world = some (false, session.world) := by
      apply holds.volume.dirAdd_refused holds.opened
      rw [ne_eq, holds.absent_iff]
      exact bad
    exact ⟨false, session, own, nodes, root, entries, by rw [perform, ran]; rfl, holds, by simp [bad], fun _ => rfl⟩
  · push Not at bad
    obtain ⟨notEmpty, short, absent⟩ := bad
    obtain ⟨notZero, notRoot, data, present, regular⟩ := holds.regular sector isLive
    obtain ⟨pos, openCnt, object⟩ := holds.opened.object
    obtain ⟨rootAfter, next, after, step, mem, _, outcome⟩ := holds.volume.dirAdd holds.opened (by decide) notEmpty short
      ((holds.absent_iff name).mpr absent) sector
    obtain ⟨same, openedAfter⟩ := holds.opened.opened.write mem
    rcases outcome with ⟨ran, holdsAfter, _, _⟩ | ⟨_, full, _, keeps⟩
    · have fname := fname_new nulFree short sector true
      have low := holds.tidy.one_le_freeSlot
      have inside := freeSlot_le entries
      have named := named_setSlot low inside (fun before found => freeSlot_unused found)
        (rfl : (DirEntry.mk sector (strncpy name 31) true).inUse = true)
      rw [fname] at named
      have regularAfter : ∀ number, liveIn session.history number = true → number ≠ 0 ∧ number ≠ 1 ∧
          ∃ data, Function.update nodes 1 (some rootAfter) number = some data ∧ data.isDir = false := by
        intro number numberLive
        obtain ⟨nonzero, nonroot, data, present, regular⟩ := holds.regular number numberLive
        exact ⟨nonzero, nonroot, data, (Function.update_of_ne nonroot _ _).trans present, regular⟩
      refine ⟨true, { session with world := next, history := .added name sector :: session.history }, _, _, rootAfter, _,
        by rw [perform, ran]; rfl, ⟨step.volume.trim, after.trim_live _ _, ⟨⟨pos, openCnt, ?_⟩, openedAfter, holdsAfter, ?_⟩,
        holds.tidy.setSlot low inside ?_ ?_, fun other number => ?_, fun other number isNamed => ?_, regularAfter⟩,
        ?_, by simp⟩
      · change next.mem.dirs session.dir = _
        rw [mem]
        exact object
      · rw [length_setSlot inside]
        omega
      · intro number isNamed
        rw [fname, holds.named, absent] at isNamed
        cases isNamed
      · intro other isNamed
        exact unnamed other ((holds.named other sector).mp isNamed)
      · rw [named, holds.named, sectorIn]
        by_cases isName : name = other
        · subst isName
          simp [absent]
        · simp [isName]
      · rcases (named other number).mp isNamed with before | ⟨_, rfl⟩
        · exact holds.target other number before
        · exact isLive
      · simp only [Bool.true_eq_false, false_iff, not_or]
        exact ⟨notEmpty, by omega, by simp [absent]⟩
    · exfalso
      have room := holds.room hasRoom full
      rw [full] at keeps
      rcases keeps.cause with large | ⟨_, short⟩
      · omega
      · rw [show 36 * entries.length + 36 = 36 * (entries.length + 1) from rfl] at short
        omega

/-- A remove succeeds exactly for the names that are there. -/
theorem remove (holds : session.Holds own shared nodes pointer root entries) (name : CString) :
    ∃ result next own' nodes' root' entries', session.perform (.remove name) = some (result, next) ∧
      next.Holds own' shared nodes' pointer root' entries' ∧
      (result = false ↔ sectorIn session.history name = none) ∧ (result = false → entries' = entries) := by
  cases found : entries[nameSlot entries name]? with
  | none =>
      have absent := (holds.absent_iff name).mp found
      have ran := holds.volume.dirRemove_absent holds.opened found
      exact ⟨false, session, own, nodes, root, entries, by rw [perform, ran]; rfl, holds, by simp [absent], fun _ => rfl⟩
  | some entry =>
      have named : Named entries name entry.inodeSector := by
        rw [holds.tidy.named_iff, found]
        rfl
      have there := (holds.named _ _).mp named
      obtain ⟨notZero, notRoot, data, present, regular⟩ := holds.regular _ (holds.target _ _ named)
      obtain ⟨rootAfter, next, after, ran, volume, _, _, _, _, opened, _⟩ :=
        holds.volume.dirRemove holds.opened (by decide) found present regular notRoot notZero
      have erased := holds.tidy.named_erase found
      refine ⟨true, { session with
          world := next
          history := .removed name ((sectorIn session.history name).getD 0) :: session.history }, _, _, rootAfter, _,
        by rw [perform, ran]; rfl, ⟨volume.trim, after.trim_live _ _, opened, holds.tidy.erase found, fun other number => ?_,
        fun other number isNamed => ?_, fun number isLive => ?_⟩, by simp [there], by simp⟩
      · rw [erased, holds.named, sectorIn]
        by_cases isName : name = other
        · simp [isName]
        · simp [isName, Ne.symm isName]
      · obtain ⟨before, different⟩ := (erased other number).mp isNamed
        rw [there, Option.getD_some, liveIn, Bool.and_eq_true, bne_iff_ne]
        refine ⟨?_, holds.target other number before⟩
        rintro rfl
        obtain ⟨slot, one, low, here, inUse, isOther, isSector⟩ := before
        obtain ⟨usedEntry, nameEntry⟩ := nameSlot_some found
        have same := holds.tidy.distinct _ _ _ _ low (one_le_nameSlot _ _) here found inUse usedEntry (.inr isSector)
        rw [same, found, Option.some.injEq] at here
        exact different (by rw [← isOther, ← here, nameEntry])
      · rw [there, Option.getD_some, liveIn, Bool.and_eq_true, bne_iff_ne] at isLive
        obtain ⟨nonzero, nonroot, data, present, regular⟩ := holds.regular number isLive.2
        exact ⟨nonzero, nonroot, data, (Function.update_of_ne isLive.1.symm _ _).trans
          ((Function.update_of_ne nonroot _ _).trans present), regular⟩

/-- A freshly opened directory gives all its names. -/
theorem freshNames (holds : session.Holds own shared nodes pointer root entries) :
    ∃ next, run freshNames session.world = some (namesOf entries, next) := by
  obtain ⟨other, mem, ran, opened, volume, _⟩ := holds.volume.inodeOpen holds.root_present
  obtain ⟨start, startEq⟩ : ∃ start : World, start = ⟨mem.openDir other, session.world.disk⟩ := ⟨_, rfl⟩
  have volumeStart : Volume own shared nodes start := by
    rw [startEq]
    exact volume.openDir other
  have openedStart : DirOpened start mem.nextPointer 1 other root entries := by
    rw [startEq]
    exact ⟨⟨36, 1, Function.update_self _ _ _⟩, ⟨opened.member, opened.object⟩, holds.opened.holds, holds.opened.some_entry⟩
  have atFirst : start = start.seekDir mem.nextPointer other 1 1 := by
    rw [startEq, World.seekDir]
    simp only [Mem.openDir, Function.update_idem]
    rfl
  have names := volumeStart.readNames openedStart 1 (entries.length + 1) 1 openedStart.some_entry (by omega)
  rw [← atFirst] at names
  refine ⟨start.seekDir mem.nextPointer other 1 entries.length, ?_⟩
  rw [MockOS.Fs.freshNames, run_bind, ran, Option.bind_some, run_bind, run_dirOpen, Option.bind_some]
  rw [← startEq, run_bind, run_deref_some, Option.bind_some, run_bind, openedStart.run_dirGetInode, Option.bind_some,
    run_bind, openedStart.holds.run_entryRounds openedStart.opened, Option.bind_some]
  exact names

theorem perform (holds : session.Holds own shared nodes pointer root entries) {call : RootCall}
    (legal : session.Legal call) : ∃ result next own' nodes' root' entries',
      session.perform call = some (result, next) ∧ next.Holds own' shared nodes' pointer root' entries' := by
  cases call with
  | create length =>
      obtain ⟨result, next, own', nodes', ran, after, _⟩ := holds.create legal
      exact ⟨result, next, own', nodes', root, entries, ran, after⟩
  | add name sector =>
      obtain ⟨result, next, own', nodes', root', entries', ran, after, _⟩ := holds.add legal
      exact ⟨result, next, own', nodes', root', entries', ran, after⟩
  | remove name =>
      obtain ⟨result, next, own', nodes', root', entries', ran, after, _⟩ := holds.remove name
      exact ⟨result, next, own', nodes', root', entries', ran, after⟩

theorem reaches {start : RootSession} (reached : start.Reaches session)
    (holds : start.Holds own shared nodes pointer root entries) :
    ∃ own' nodes' root' entries', session.Holds own' shared nodes' pointer root' entries' := by
  induction reached with
  | refl => exact ⟨own, nodes, root, entries, holds⟩
  | step _ legal performed ih =>
      obtain ⟨_, _, _, _, before⟩ := ih
      obtain ⟨_, _, own', nodes', root', entries', ran, after⟩ := before.perform legal
      rw [performed, Option.some.injEq, Prod.mk.injEq] at ran
      rw [ran.2]
      exact ⟨own', nodes', root', entries', after⟩

theorem isMap (holds : session.Holds own shared nodes pointer root entries) : session.IsMap where
  first := by
    rw [holds.rootEntries]
    exact holds.tidy.first
  distinct := by
    rw [holds.rootEntries]
    exact holds.tidy.nodup_namesOf
  lookup name := by
    refine ⟨_, holds.volume.lookup holds.opened name, ?_⟩
    rw [Option.map_map, ← holds.lookup_eq]
    rfl
  readdir := by
    obtain ⟨next, ran⟩ := holds.freshNames
    refine ⟨_, next, ran, holds.tidy.nodup_namesOf, fun name => ?_⟩
    rw [mem_namesOf]
    simp only [holds.named, ← Option.isSome_iff_exists, ne_eq, ← Option.isSome_iff_ne_none]
  add name sector legal := by
    obtain ⟨result, next, _, _, _, entries', ran, after, refused, same⟩ := holds.add legal
    refine ⟨result, next, ran, refused, fun failed => ?_⟩
    rw [after.rootEntries, holds.rootEntries, same failed]
  remove name := by
    obtain ⟨result, next, _, _, _, entries', ran, after, refused, same⟩ := holds.remove name
    refine ⟨result, next, ran, refused, fun failed => ?_⟩
    rw [after.rootEntries, holds.rootEntries, same failed]

end RootSession.Holds

/-- The root directory of a fresh device is empty. -/
theorem Fresh.openRoot {deviceSize : UInt32} (fresh : Fresh own shared nodes deviceSize world) :
    ∃ dir start own' pointer root, run dirOpenRoot world = some (some dir, start) ∧
      (RootSession.mk start dir []).Holds own' shared nodes pointer root (newEntries 1 1000) ∧
      start.free = world.free := by
  obtain ⟨freeMapPointer, freeMap, root, started, nodesEq, _, holds, _⟩ := fresh.nodes
  have present : nodes 1 = some root := by
    rw [nodesEq]
    exact Function.update_self _ _ _
  obtain ⟨other, mem, ran, opened, volume, how⟩ := fresh.volume.inodeOpen present
  obtain ⟨start, startEq⟩ : ∃ start : World, start = ⟨{ mem.openDir other with cwd := some mem.nextPointer }, world.disk⟩ :=
    ⟨_, rfl⟩
  have opensDir := volume.openDir other
  have volumeStart : Volume own shared nodes start := by
    rw [startEq]
    exact opensDir.heap rfl rfl (fun _ _ => rfl) (Nat.le_refl _) fun above late => (opensDir.table.fresh above late).2
  refine ⟨mem.nextPointer, start, _, other, root, ?_, ⟨volumeStart.trim, own.trim_live nodes start.disk,
    ⟨⟨36, 1, ?_⟩, ?_, ?_, ?_⟩, tidy_newEntries 1 1000, fun name sector => ?_, fun name sector named => ?_,
    fun sector isLive => ?_⟩, ?_⟩
  · rw [dirOpenRoot, run_bind, run_get, Option.bind_some, started.cwd]
    simp only [run_bind, ran, Option.bind_some, run_dirOpen, setCwd, run_modify, run_pure, startEq]
  · rw [startEq]
    exact Function.update_self _ _ _
  · rw [startEq]
    exact ⟨opened.member, opened.object⟩
  · rw [startEq]
    exact holds
  · rw [newEntries, List.length_cons]
    omega
  · simp only [not_named_newEntries, sectorIn]
    simp
  · exact absurd named (not_named_newEntries _ _ _ _)
  · cases isLive
  · rw [startEq]
    rcases how with rfl | ⟨_, _, rfl⟩ <;> rfl

section Format

variable {deviceSize : UInt32} {garbage : Nat → UInt8} {disk : BlockSector → Sector}

/-- From a format on, whatever is added and removed, the root directory is a finite map from names to inodes. -/
theorem rootDirectory_isMap (fits : FormatFits deviceSize)
    (formatted : run (filesysInit true) ⟨.boot deviceSize garbage, disk⟩ = some ((), world))
    (opens : run dirOpenRoot world = some (some dir, next)) (reached : (RootSession.mk next dir []).Reaches session) :
    session.IsMap := by
  obtain ⟨start, own, shared, nodes, ran, fresh⟩ := filesysInit_format garbage disk fits
  rw [formatted, Option.some.injEq, Prod.mk.injEq] at ran
  obtain rfl := ran.2
  obtain ⟨dir', next', own', pointer, root, opened, holds, _⟩ := fresh.openRoot
  rw [opens, Option.some.injEq, Prod.mk.injEq, Option.some.injEq] at opened
  obtain ⟨rfl, rfl⟩ := opened
  obtain ⟨_, _, _, _, holds'⟩ := holds.reaches reached
  exact holds'.isMap

end Format

theorem rootDirectory_isMap_small : ∃ world dir start created sector added removed,
    run (filesysInit true) ⟨.boot 300 fun _ => 0, fun _ => zeros⟩ = some ((), world) ∧
      run dirOpenRoot world = some (some dir, start) ∧
      (RootSession.mk start dir []).perform (.create 600) = some (true, created) ∧
      created.perform (.add [98] sector) = some (true, added) ∧ added.IsMap ∧
      added.perform (.remove [98]) = some (true, removed) ∧ removed.IsMap := by
  obtain ⟨world, own, shared, nodes, formatted, fresh⟩ :=
    filesysInit_format (fun _ => 0) (fun _ => zeros) formatFits_small
  obtain ⟨dir, start, own', pointer, root, opened, holds, free⟩ := fresh.openRoot
  have valid : isOffset 600 = true := by decide
  obtain ⟨_, created, _, _, creates, holdsCreated, cause | ⟨sector, rfl, history⟩⟩ := holds.create valid
  · have before := fresh.free
    have maximum : maxBlocks = 16635 := rfl
    have places : mapBits 300 = 299 ∧ (inodePlaces (blocksOf (Bitmap.byteCnt (mapBits 300)))).length = 1 ∧
      (inodePlaces (blocksOf 36000)).length = 71 ∧ (inodePlaces (blocksOf 600)).length = 2 := by decide
    dsimp only at cause
    omega
  have none : ∀ name, sectorIn created.history name = none := by
    intro name
    rw [history]
    rfl
  have isLive : liveIn created.history sector = true := by
    rw [history]
    simp [liveIn]
  have room : created.world.RootHasRoom := by
    left
    rw [holdsCreated.rootEntries]
    exact ⟨emptyEntry, .tail _ (List.mem_replicate.mpr ⟨by decide, rfl⟩), rfl⟩
  have legal : created.Legal (.add [98] sector) := by
    refine ⟨by decide, isLive, fun other => ?_, room⟩
    rw [none]
    exact Option.some_ne_none _ ∘ Eq.symm
  obtain ⟨result, added, _, _, _, _, adds, holdsAdded, refused, _⟩ := holdsCreated.add legal
  obtain rfl : result = true := by
    rw [← Bool.not_eq_false, refused, none]
    decide
  obtain ⟨result, removed, _, _, _, _, removes, _, absent, _⟩ := holdsAdded.remove [98]
  obtain rfl : result = true := by
    rw [← Bool.not_eq_false, absent, RootSession.history_add adds]
    simp [sectorIn]
  have legalCreate : (RootSession.mk start dir []).Legal (.create 600) := valid
  have legalRemove : added.Legal (.remove [98]) := trivial
  have reachesAdded := RootSession.Reaches.step (.step (.refl _) legalCreate creates) legal adds
  exact ⟨world, dir, start, created, sector, added, removed, formatted, opened, creates, adds,
    rootDirectory_isMap formatFits_small formatted opened reachesAdded, removes,
    rootDirectory_isMap formatFits_small formatted opened (.step reachesAdded legalRemove removes)⟩

end MockOS.Fs
