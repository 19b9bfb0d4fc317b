import MockOS.Fs.FileCommands
import MockOS.Fs.Paths
import MockOS.Fs.ReserveCost
import MockOS.Fs.RootDirectory

namespace MockOS.Fs

variable {shared : BlockSector → Prop} {own after : Owners} {world middle next : World}
  {nodes nodesBetween nodesAfter : Nodes} {sector number : BlockSector} {pointer dir : Pointer}
  {root rootAfter data dataAfter : InodeDisk} {entries : List DirEntry} {name path : CString}

/-- The sector of an inode that is not used is released, and its blocks with nobody to release them. -/
theorem Volume.releaseSector (volume : Volume own shared nodes world) (self : own sector = some (sector, none))
    (nonzero : sector ≠ 0) (closed : world.closed sector) : ∃ next,
    run (freeMapRelease sector 1) world = some ((), next) ∧
      next.mem = { world.mem with freeMap := next.mem.freeMap } ∧
      InodeStep shared sector own (own.without [sector]) nodes (Function.update nodes sector none) world next ∧
      next.free = world.free + 1 ∧ next.limit = world.limit ∧
      ∀ other, next.used other ↔ world.used other ∧ other ≠ sector := by
  obtain ⟨filePointer, file, freeMapData, freeMap, copy, member⟩ := volume.freeMap
  obtain ⟨next, ran, released⟩ := Released.single volume.sound freeMap self nonzero (fun place same => by cases same)
  have mem := released.mem
  have kept : ∀ other number part, own other = some (number, part) → number ≠ sector →
      own.without [sector] other = some (number, part) := by
    intro other number part owned different
    rw [Owners.without, if_neg, owned]
    rw [List.mem_singleton]
    rintro rfl
    rw [self, Option.some.injEq, Prod.mk.injEq] at owned
    exact different owned.1.symm
  refine ⟨next, ran, mem, volume.step released.sound (.inr ⟨_, _, _, released.opened, released.copy⟩)
    (fun other changed => .inl (released.frame other changed)) kept nonzero (by rw [mem]) (fun pointer number data opened _ => by rw [mem]; exact opened.object)
    (fun pointer data opened => absurd opened.object (closed pointer opened.member data))
    (fun pointer above => by rw [mem]; exact (volume.table.fresh pointer above).1)
    (fun number different => Function.update_of_ne different _ _) (fun data present => ?_) (fun _ data present => ?_)
    (by rw [mem]) (fun _ => not_not.mp fun changed => volume.not_shared_zero (released.frame 0 changed)), ?_,
    released.limit, fun other => ?_⟩
  · rw [Function.update_self] at present
    cases present
  · rw [Function.update_self] at present
    cases present
  · rw [released.free, List.length_singleton]
  · rw [released.used, List.mem_singleton]

/-- The missing blocks of another inode stay the same. -/
theorem InodeStep.demandFor_other (step : InodeStep shared sector own after nodes nodesAfter world next)
    (volume : Volume own shared nodes world) (different : number ≠ sector) (present : nodes number = some data)
    (length : Nat) : demandFor next.disk data length = demandFor world.disk data length := by
  have node := volume.node number data present
  have same : ∀ place ∈ inodePlaces (bytesToSectors length),
      decide (sectorAt next.disk data place = 0) = decide (sectorAt world.disk data place = 0) := by
    intro place member
    rw [step.touches.sectorAt_eq volume.sound volume.freeMap different node.owned (within_of_mem_inodePlaces member)]
  rw [demandFor, inodeDemand, List.length_map, List.filter_congr same, demandFor, inodeDemand, List.length_map]

/-- A sector that was taken and is not named is released again. -/
theorem RootOpen.dropSector (open_ : RootOpen own shared nodes root entries world dir pointer)
    (volume : Volume after shared nodesBetween middle)
    (frame : Frame (fun number => number = sector ∨ number = 1) nodes nodesBetween world middle)
    (quiet : Quiet world middle) (absent : nodes sector = none) (nonzero : sector ≠ 0)
    (self : after sector = some (sector, none)) (closed : middle.closed sector)
    (opened : Opened middle 1 pointer rootAfter) (holds : HoldsEntries middle.disk rootAfter entries)
    (dirs : middle.mem.dirs = world.mem.dirs) (cwd : middle.mem.cwd = world.mem.cwd) : ∃ own' next,
    run (freeMapRelease sector 1) middle = some ((), next) ∧
      RootOpen own' shared (Function.update nodesBetween sector none) rootAfter entries next dir pointer ∧
      Frame (fun number => number = sector ∨ number = 1) nodes (Function.update nodesBetween sector none) world next ∧
      fileBytes next.disk rootAfter = fileBytes middle.disk rootAfter ∧
      Quiet world next ∧ next.mem.allocationFailures = middle.mem.allocationFailures ∧ next.free = middle.free + 1 ∧
      next.limit = middle.limit ∧ ∀ other, next.used other ↔ middle.used other ∧ other ≠ sector := by
  have nonroot : sector ≠ 1 := by
    rintro rfl
    rw [open_.present] at absent
    cases absent
  have presentMiddle := volume.table.node opened
  obtain ⟨next, ran, mem, step, free, limit, used⟩ := volume.releaseSector self nonzero closed
  have same : OpenSame sector middle next := .of_mem (by rw [mem]) (by rw [mem])
  have frameAfter := frame.trans ((Frame.of_step step volume same).mono fun number here => .inl here)
  have quietAfter : Quiet world next := quiet.trans (.of_objects (by rw [mem]) (by rw [mem]))
  have holdsAfter := step.holdsEntries volume nonroot.symm (by decide) presentMiddle holds
  have mounted := open_.toMounted.step step.volume frameAfter quietAfter
    ((Function.update_of_ne nonroot.symm _ _).trans presentMiddle) holdsAfter open_.tidy
    (fun name number named => by
      obtain ⟨_, _, isFile, _, present, _⟩ := open_.regular name number named
      refine .inl ⟨named, ?_⟩
      rintro (rfl | here)
      · rw [absent] at present
        cases present
      · exact isFile here)
    (fun number there => by
      by_cases here : number = sector ∨ number = 1
      · rcases here with rfl | here
        · rw [Function.update_self] at there
          exact absurd rfl there
        · exact .inr (.inl here)
      · rw [frameAfter.sameNodes number here] at there
        exact open_.named number there)
    (fun _ _ _ _ named _ => named)
  obtain ⟨pos, object⟩ := open_.object
  refine ⟨_, next, ran, ⟨mounted, (same 1 nonroot.symm _ _).mpr opened, ⟨pos, ?_⟩, ?_⟩, frameAfter,
    step.fileBytes volume nonroot.symm (by decide) presentMiddle, quietAfter, by rw [mem], free, limit, used⟩
  · rw [mem]
    change middle.mem.dirs dir = _
    rw [dirs]
    exact object
  · rw [mem]
    change middle.mem.cwd = _
    rw [cwd]
    exact open_.cwd

/-- Why a file is not created, and what that costs. -/
inductive NotCreated (root : InodeDisk) (entries : List DirEntry) (name : CString) (length : Int) (world next : World) :
    Prop
  | noSector (full : world.free = 0) (free : next.free = 0)
      (failures : world.mem.allocationFailures < next.mem.allocationFailures)
  | noInode (available : world.free ≠ 0)
      (cause : length < 0 ∨ 512 * maxBlocks < length ∨ world.free ≤ (inodePlaces (blocksOf length)).length)
      (negative : length < 0 → next.free = world.free)
      (free : 0 ≤ length → next.free = world.free - 1 - (inodePlaces (bytesToSectors length)).length + 1)
      (failures : length < 0 ∨ 512 * maxBlocks < length ∨ world.mem.allocationFailures < next.mem.allocationFailures)
  | refused (cause : name = [] ∨ 30 < name.length ∨ ∃ sector, Named entries name sector) (low : 0 ≤ length)
      (fits : length ≤ 512 * maxBlocks) (enough : (inodePlaces (blocksOf length)).length < world.free)
      (free : next.free = world.free - (inodePlaces (blocksOf length)).length)
  | noSlot (good : name ≠ [] ∧ name.length ≤ 30 ∧ ∀ sector, ¬ Named entries name sector)
      (full : freeSlot entries = entries.length) (low : 0 ≤ length) (fits : length ≤ 512 * maxBlocks)
      (enough : (inodePlaces (blocksOf length)).length < world.free)
      (cause : 512 * maxBlocks < 36 * entries.length + 36 ∨
        world.free - 1 - (inodePlaces (blocksOf length)).length < demandFor world.disk root (36 * entries.length + 36) ∧
          world.mem.allocationFailures < next.mem.allocationFailures)
      (free : next.free = world.free - 1 - (inodePlaces (blocksOf length)).length -
        demandFor world.disk root (36 * entries.length + 36) + 1)

/-- A file of zeros with a name of its own. -/
structure NewFile (nodes : Nodes) (root : InodeDisk) (entries : List DirEntry) (name : CString) (length : Int)
    (sector : BlockSector) (data : InodeDisk) (world next : World) : Prop where
  notEmpty : name ≠ []
  short : name.length ≤ 30
  unnamed : ∀ sector, ¬ Named entries name sector
  absent : nodes sector = none
  low : 0 ≤ length
  fits : length ≤ 512 * maxBlocks
  length_eq : data.length = length
  bytes : fileBytes next.disk data = List.replicate length.toNat 0
  filled : Filled next.disk data (blocksOf length)
  closed : next.closed sector
  slotFits : 36 * freeSlot entries + 36 ≤ 512 * maxBlocks
  enough : demandFor world.disk root (36 * freeSlot entries + 36) + (inodePlaces (blocksOf length)).length < world.free
  free : next.free = world.free - 1 - (inodePlaces (blocksOf length)).length -
    demandFor world.disk root (36 * freeSlot entries + 36)
  failures : next.mem.allocationFailures = world.mem.allocationFailures

/-- What `create_in` and the release after a failure do to the root directory. -/
structure CreateResult (nodes nodesAfter : Nodes) (root : InodeDisk) (entries entriesAfter : List DirEntry)
    (name : CString) (length : Int) (result : Bool) (world next : World) : Prop where
  limit : next.limit = world.limit
  used : ∀ other, world.used other → next.used other
  outcome : result = false ∧ entriesAfter = entries ∧ SameBytes (fun _ => False) nodes nodesAfter world next ∧
      (∀ number, number ≠ 1 → nodesAfter number = nodes number) ∧ NotCreated root entries name length world next ∨
    result = true ∧ SameBytes (· = 1) nodes nodesAfter world next ∧ ∃ sector data,
      entriesAfter = setSlot entries (freeSlot entries) ⟨sector, strncpy name 31, true⟩ ∧
      nodesAfter sector = some data ∧ (∀ number, number ≠ 1 → number ≠ sector → nodesAfter number = nodes number) ∧
      NewFile nodes root entries name length sector data world next

/-- The steps of `filesys_create` between the opening and the closing of the root directory. -/
def createOrRelease (dir : Pointer) (fileName : CString) (initialSize : Int) : Action Bool := do
  let (inodeSector, success) ← createIn dir fileName initialSize false
  match inodeSector with
  | some sector => if success = false ∧ sector ≠ 0 then freeMapRelease sector 1 else pure ()
  | none => pure ()
  pure success

/-- A failed creation on a full device. -/
theorem RootOpen.create_noSector (open_ : RootOpen own shared nodes root entries world dir pointer) (name : CString)
    (length : Int)
    (full : world.free = 0) (ran : run (freeMapAllocate 1) world = some (none, world.failed))
    (volume : Volume own shared nodes world.failed) : ∃ own',
    run (createOrRelease dir name length) world = some (false, world.failed) ∧
      RootOpen own' shared nodes root entries world.failed dir pointer ∧ Quiet world world.failed ∧
      CreateResult nodes nodes root entries entries name length false world world.failed := by
  have quiet : Quiet world world.failed := .of_objects rfl (Nat.le_refl _)
  obtain ⟨pos, object⟩ := open_.object
  refine ⟨_, ?_, ⟨open_.toMounted.inMemory volume rfl (open_.handles.quiet quiet fun _ _ _ _ named _ => named),
    ⟨open_.opened.member, open_.opened.object⟩, ⟨pos, object⟩, open_.cwd⟩, quiet, rfl, fun _ used => used,
    .inl ⟨rfl, rfl, .refl _ _ rfl, fun _ _ => rfl, .noSector full full (Nat.lt_succ_self _)⟩⟩
  rw [createOrRelease, run_bind, createIn, run_bind, ran]
  rfl

/-- A creation that fails after its sector was taken. -/
theorem RootOpen.create_released (open_ : RootOpen own shared nodes root entries world dir pointer) {length : Int}
    (volume : Volume after shared nodesBetween middle)
    (ran : run (createIn dir name length false) world = some ((some sector, false), middle))
    (frame : Frame (fun number => number = sector ∨ number = 1) nodes nodesBetween world middle)
    (quiet : Quiet world middle) (absent : nodes sector = none) (nonzero : sector ≠ 0) (unused : ¬ world.used sector)
    (self : after sector = some (sector, none)) (closed : middle.closed sector)
    (opened : Opened middle 1 pointer rootAfter) (holds : HoldsEntries middle.disk rootAfter entries)
    (bytes : fileBytes middle.disk rootAfter = fileBytes world.disk root)
    (dirs : middle.mem.dirs = world.mem.dirs) (cwd : middle.mem.cwd = world.mem.cwd) (limit : middle.limit = world.limit)
    (used : ∀ other, world.used other → middle.used other)
    (cause : ∀ next : World, next.free = middle.free + 1 →
      next.mem.allocationFailures = middle.mem.allocationFailures → NotCreated root entries name length world next) :
    ∃ next own' nodes', run (createOrRelease dir name length) world = some (false, next) ∧
      RootOpen own' shared nodes' rootAfter entries next dir pointer ∧ Quiet world next ∧
      CreateResult nodes nodes' root entries entries name length false world next := by
  obtain ⟨own', next, ran₂, after_, frameAfter, bytesAfter, quietAfter, failures, free, limitAfter, usedAfter⟩ :=
    open_.dropSector volume frame quiet absent nonzero self closed opened holds dirs cwd
  have others : ∀ number, number ≠ 1 → Function.update nodesBetween sector none number = nodes number := by
    intro number different
    by_cases here : number = sector
    · rw [here, Function.update_self, absent]
    · exact frameAfter.sameNodes number (by simp [here, different])
  refine ⟨next, own', _, ?_, after_, quietAfter, limitAfter.trans limit, fun other isUsed => ?_,
    .inl ⟨rfl, rfl, fun number before _ notZero present => ?_, others, cause next free failures⟩⟩
  · rw [createOrRelease, run_bind, ran, Option.bind_some]
    dsimp only
    rw [if_pos ⟨rfl, nonzero⟩, run_bind, ran₂]
    rfl
  · refine (usedAfter other).mpr ⟨used other isUsed, ?_⟩
    rintro rfl
    exact unused isUsed
  · by_cases isRoot : number = 1
    · subst isRoot
      rw [open_.present, Option.some.injEq] at present
      subst present
      exact ⟨rootAfter, after_.present, bytesAfter.trans bytes⟩
    · have apart : ¬ (number = sector ∨ number = 1) := by
        rintro (rfl | here)
        · rw [absent] at present
          cases present
        · exact isRoot here
      exact ⟨before, (others number isRoot).trans present, (frameAfter.sameBytes number before apart notZero present).1⟩

/-- The new inode is none of the open ones. -/
theorem Volume.closed_of_absent (volume : Volume own shared nodes world) (absent : nodes sector = none) :
    world.closed sector := by
  intro pointer member data object
  have present := volume.table.node ⟨member, object⟩
  rw [absent] at present
  cases present

theorem World.closed.of_mem (closed : world.closed sector) (openInodes : next.mem.openInodes = world.mem.openInodes)
    (inodes : next.mem.inodes = world.mem.inodes) : next.closed sector := by
  intro pointer member data object
  rw [openInodes] at member
  rw [inodes] at object
  exact closed pointer member data object

/-- The entries of a name that is not there. -/
theorem Tidy.absent_iff (tidy : Tidy entries) :
    entries[nameSlot entries name]? = none ↔ ∀ sector, ¬ Named entries name sector := by
  constructor
  · exact nameSlot_none
  · intro unnamed
    cases found : entries[nameSlot entries name]? with
    | none => rfl
    | some entry =>
        refine absurd (tidy.named_iff.mpr ?_) (unnamed entry.inodeSector)
        rw [found]
        rfl

section Create

variable (open_ : RootOpen own shared nodes root entries world dir pointer) {length : Int} (absent : nodes sector = none)
  (nonzero : sector ≠ 0) (unused : ¬ world.used sector)

include open_ absent nonzero unused

/-- A creation that finds too few sectors for the blocks. -/
theorem RootOpen.create_noInode (name : CString)
    (mem : next.mem = { world.mem with
      freeMap := next.mem.freeMap, allocationFailures := next.mem.allocationFailures })
    (available : world.free ≠ 0) (ran : run (freeMapAllocate 1) world = some (some sector, middle))
    (ran₂ : run (inodeCreate sector length false) middle = some (false, next))
    (step : InodeStep shared sector own after nodes nodes world next) (self : after sector = some (sector, none))
    (failed : NoInode length world next) : ∃ last own' nodes',
    run (createOrRelease dir name length) world = some (false, last) ∧
      RootOpen own' shared nodes' root entries last dir pointer ∧ Quiet world last ∧
      CreateResult nodes nodes' root entries entries name length false world last := by
  have nonroot : (1 : BlockSector) ≠ sector := by
    rintro rfl
    rw [open_.present] at absent
    cases absent
  have same : OpenSame sector world next := .of_mem (by rw [mem]) (by rw [mem])
  refine open_.create_released step.volume ?_
    ((Frame.of_step step open_.volume same).mono fun _ here => .inl here) (.of_objects (by rw [mem]) (by rw [mem])) absent
    nonzero unused self ((open_.volume.closed_of_absent absent).of_mem (by rw [mem]) (by rw [mem]))
    ((same 1 nonroot _ _).mpr open_.opened)
    (step.holdsEntries open_.volume nonroot (by decide) open_.present open_.holds)
    (step.fileBytes open_.volume nonroot (by decide) open_.present) (by rw [mem]) (by rw [mem]) failed.limit failed.used
    fun last free failures => .noInode available failed.cause (fun negative => ?_) (fun low => ?_) ?_
  · rw [createIn, run_bind, ran, Option.bind_some]
    dsimp only
    rw [run_bind, ran₂]
    rfl
  · rw [free, failed.negative negative]
  · rw [free, failed.free low]
  · rw [failures]
    exact failed.failures

variable {world₁ world₂ : World} (ran₁ : run (freeMapAllocate 1) world = some (some sector, world₁))
  (ran₂ : run (inodeCreate sector length false) world₁ = some (true, world₂))
  (mem₂ : world₂.mem = { world.mem with
    freeMap := world₂.mem.freeMap, allocationFailures := world₂.mem.allocationFailures })
  (step₂ : InodeStep shared sector own after nodes (Function.update nodes sector (some data)) world world₂)
  (created : Created own after sector length data world world₂)

include mem₂ step₂ created

omit nonzero unused created in
/-- The root directory after the inode was made. -/
theorem RootOpen.afterInode : (1 : BlockSector) ≠ sector ∧ world₂.closed sector ∧
    OpenSame sector world world₂ ∧ DirOpened world₂ dir 1 pointer root entries ∧
    Function.update nodes sector (some data) 1 = some root := by
  have nonroot : (1 : BlockSector) ≠ sector := by
    rintro rfl
    rw [open_.present] at absent
    cases absent
  have same : OpenSame sector world world₂ := .of_mem (by rw [mem₂]) (by rw [mem₂])
  obtain ⟨pos, object⟩ := open_.object
  exact ⟨nonroot, (open_.volume.closed_of_absent absent).of_mem (by rw [mem₂]) (by rw [mem₂]), same,
    ⟨⟨pos, 1, by rw [mem₂]; exact object⟩, (same 1 nonroot _ _).mpr open_.opened,
      step₂.holdsEntries open_.volume nonroot (by decide) open_.present open_.holds, open_.dirOpened.some_entry⟩,
    (Function.update_of_ne nonroot _ _).trans open_.present⟩

include ran₁ ran₂

omit unused absent open_ nonzero mem₂ step₂ created in
theorem run_createIn_inode {success : Bool} (adds : run (dirAdd dir name sector false) world₂ = some (success, next)) :
    run (createIn dir name length false) world = some ((some sector, success), next) := by
  rw [createIn, run_bind, ran₁, Option.bind_some]
  dsimp only
  rw [run_bind, ran₂, Option.bind_some, if_pos rfl, run_bind, adds]
  rfl

/-- A creation with a bad name or a name that is there. -/
theorem RootOpen.create_refused
    (cause : name = [] ∨ 30 < name.length ∨ ∃ sector, Named entries name sector) : ∃ last own' nodes',
    run (createOrRelease dir name length) world = some (false, last) ∧
      RootOpen own' shared nodes' root entries last dir pointer ∧ Quiet world last ∧
      CreateResult nodes nodes' root entries entries name length false world last := by
  obtain ⟨nonroot, closed, same, dirOpened, present⟩ := open_.afterInode absent mem₂ step₂
  have self := (step₂.volume.node sector data (Function.update_self _ _ _)).self
  have refused : run (dirAdd dir name sector false) world₂ = some (false, world₂) := by
    apply step₂.volume.dirAdd_refused dirOpened
    refine cause.imp id (Or.imp id ?_)
    rintro ⟨number, named⟩ none
    exact nameSlot_none none number named
  refine open_.create_released step₂.volume (run_createIn_inode ran₁ ran₂ refused)
    ((Frame.of_step step₂ open_.volume same).mono fun _ here => .inl here) (.of_objects (by rw [mem₂]) (by rw [mem₂]))
    absent nonzero unused self closed dirOpened.opened dirOpened.holds
    (step₂.fileBytes open_.volume nonroot (by decide) open_.present) (by rw [mem₂]) (by rw [mem₂]) created.limit
    created.used fun last free failures => .refused cause created.nonnegative created.fits created.enough ?_
  have enough := created.enough
  rw [free, created.free]
  omega

/-- A creation with a good name: the entry is stored, or the root directory cannot grow. -/
theorem RootOpen.create_named (nulFree : 0 ∉ name) (notEmpty : name ≠ []) (short : name.length ≤ 30)
    (unnamed : ∀ sector, ¬ Named entries name sector) : ∃ result last own' nodes' root' entries',
    run (createOrRelease dir name length) world = some (result, last) ∧
      RootOpen own' shared nodes' root' entries' last dir pointer ∧ Quiet world last ∧
      CreateResult nodes nodes' root entries entries' name length result world last := by
  obtain ⟨nonroot, closed₂, same₂, dirOpened₂, present₂⟩ := open_.afterInode absent mem₂ step₂
  have self₂ := (step₂.volume.node sector data (Function.update_self _ _ _)).self
  have demand : ∀ length, demandFor world₂.disk root length = demandFor world.disk root length :=
    step₂.demandFor_other open_.volume nonroot open_.present
  have enough := created.enough
  obtain ⟨rootAfter, world₃, own₃, step₃, mem₃, _, outcome⟩ := step₂.volume.dirAdd dirOpened₂ (by decide) notEmpty short
    (open_.tidy.absent_iff.mpr unnamed) sector
  obtain ⟨same₃, opened₃⟩ := dirOpened₂.opened.write mem₃
  have frame := ((Frame.of_step step₂ open_.volume same₂).mono
    fun number here => (.inl here : number = sector ∨ number = 1)).trans
      ((Frame.of_step step₃ step₂.volume same₃).mono fun _ here => .inr here)
  have quiet : Quiet world world₃ :=
    Quiet.trans (.of_objects (by rw [mem₂]) (by rw [mem₂])) (.write dirOpened₂.opened mem₃)
  have closed₃ := (same₃.closed nonroot.symm).mpr closed₂
  rcases outcome with ⟨ran₃, holds₃, failures₃, stores⟩ | ⟨ran₃, full, holds₃, keeps⟩
  · have low := open_.tidy.one_le_freeSlot
    have inside := freeSlot_le entries
    have fname := fname_new nulFree short sector true
    have named := named_setSlot low inside (fun before found => freeSlot_unused found)
      (rfl : (DirEntry.mk sector (strncpy name 31) true).inUse = true)
    rw [fname] at named
    have there : Function.update (Function.update nodes sector (some data)) 1 (some rootAfter) sector = some data :=
      (Function.update_of_ne nonroot.symm _ _).trans (Function.update_self _ _ _)
    have others : ∀ number, number ≠ 1 → number ≠ sector →
        Function.update (Function.update nodes sector (some data)) 1 (some rootAfter) number = nodes number := by
      intro number one two
      rw [Function.update_of_ne one, Function.update_of_ne two]
    have apart : ∀ other number, Named entries other number → ¬ (number = sector ∨ number = 1) := by
      intro other number isNamed
      obtain ⟨_, _, isFile, _, present, _⟩ := open_.regular other number isNamed
      rintro (rfl | here)
      · rw [absent] at present
        cases present
      · exact isFile here
    have mounted := open_.toMounted.step step₃.volume frame quiet (Function.update_self _ _ _) holds₃
      (open_.tidy.setSlot low inside (by rwa [fname]) fun other isNamed => apart other sector isNamed (.inl rfl))
      (fun other number isNamed => by
        rcases (named other number).mp isNamed with before | ⟨rfl, rfl⟩
        · exact .inl ⟨before, apart other number before⟩
        · exact .inr ⟨notEmpty, nonzero, nonroot.symm, data, there, created.isDir,
            step₃.tailZero step₂.volume nonroot.symm nonzero (Function.update_self _ _ _) created.tail⟩)
      (fun number present => by
        by_cases here : number = sector ∨ number = 1
        · rcases here with rfl | here
          · exact .inr (.inr ⟨name, (named name number).mpr (.inr ⟨rfl, rfl⟩)⟩)
          · exact .inr (.inl here)
        · rw [frame.sameNodes number here] at present
          exact (open_.named number present).imp id (Or.imp id fun ⟨other, before⟩ =>
            ⟨other, (named other number).mpr (.inl before)⟩))
      (fun other number _ _ before _ => (named other number).mpr (.inl before))
    obtain ⟨pos, object⟩ := dirOpened₂.object
    have used := stores.used
    have filled : Filled world₃.disk data (blocksOf length) := by
      have before := (created.accounted open_.live absent step₂).filled step₂.volume (Function.update_self _ _ _)
      rw [created.length_eq] at before
      intro place within
      rw [step₃.touches.sectorAt_eq step₂.volume.sound step₂.volume.freeMap nonroot.symm
        (step₂.volume.node sector data (Function.update_self _ _ _)).owned within]
      exact before place within
    have storedEnough := stores.enough
    have storedFree := stores.free
    rw [demand] at storedEnough storedFree
    obtain ⟨pos', object'⟩ := open_.object
    refine ⟨true, world₃, _, _, rootAfter, _, ?_, ⟨mounted, opened₃, ⟨pos', ?_⟩, ?_⟩, quiet,
      stores.limit.trans created.limit, fun other isUsed => used other (created.used other isUsed),
      .inr ⟨rfl, fun number before notRoot notZero present => ?_, sector, data, rfl, there, others, notEmpty, short,
        unnamed, absent, created.nonnegative, created.fits, created.length_eq, ?_, filled, closed₃, stores.fits, ?_, ?_,
        failures₃.trans created.failures⟩⟩
    · rw [createOrRelease, run_bind, run_createIn_inode ran₁ ran₂ ran₃, Option.bind_some]
      dsimp only
      rw [if_neg (by simp), run_pure]
    · rw [mem₃]
      change world₂.mem.dirs dir = _
      rw [mem₂]
      exact object'
    · rw [mem₃]
      change world₂.mem.cwd = _
      rw [mem₂]
      exact open_.cwd
    · have notNew : number ≠ sector := by
        rintro rfl
        rw [absent] at present
        cases present
      exact ⟨before, (others number notRoot notNew).trans present,
        (frame.sameBytes number before (by simp [notNew, notRoot]) notZero present).1⟩
    · rw [step₃.fileBytes step₂.volume nonroot.symm nonzero (Function.update_self _ _ _), created.bytes]
    · rw [created.free] at storedEnough
      omega
    · rw [storedFree, created.free]
  · have sizes := open_.volume.entries_small open_.opened open_.holds
    have maximum : maxBlocks = 16635 := rfl
    have bytes : fileBytes world₃.disk rootAfter = fileBytes world.disk root := by
      rw [(keeps.bytes dirOpened₂.holds.tail).2, step₂.fileBytes open_.volume nonroot (by decide) open_.present]
    have cause := keeps.cause
    have free := keeps.free
    rw [full, demand, created.free, created.failures] at cause
    rw [full, demand, created.free, if_pos (by omega)] at free
    obtain ⟨last, own', nodes', ran, after_, quietAfter, created_⟩ := open_.create_released step₃.volume
      (run_createIn_inode ran₁ ran₂ ran₃) frame quiet absent nonzero unused
      (step₃.kept sector sector none self₂ nonroot.symm) closed₃ opened₃ holds₃ bytes
      (by rw [mem₃, mem₂]) (by rw [mem₃, mem₂]) (keeps.limit.trans created.limit)
      (fun other isUsed => keeps.used other (created.used other isUsed))
      fun last freed failures => .noSlot ⟨notEmpty, short, unnamed⟩ full created.nonnegative created.fits enough
        (cause.imp id fun both => ⟨both.2, failures ▸ both.1⟩) (by rw [freed, free])
    exact ⟨false, last, own', nodes', rootAfter, entries, ran, after_, quietAfter, created_⟩

end Create

/-- A creation succeeds, or costs the sectors that it leaves taken. -/
theorem RootOpen.createOrRelease (open_ : RootOpen own shared nodes root entries world dir pointer) (nulFree : 0 ∉ name)
    {length : Int} (high : length < 2147483648) : ∃ result next own' nodes' root' entries',
    run (createOrRelease dir name length) world = some (result, next) ∧
      RootOpen own' shared nodes' root' entries' next dir pointer ∧ Quiet world next ∧
      CreateResult nodes nodes' root entries entries' name length result world next := by
  rcases open_.volume.newInode open_.live high with ⟨full, ran, volume⟩ |
    ⟨sector, world₁, world₂, after, ran₁, available, absent, nonzero, unused, mem₂,
      ⟨ran₂, step, self, failed⟩ | ⟨data, ran₂, step, created⟩⟩
  · obtain ⟨own', ran', open', quiet, result⟩ := open_.create_noSector name length full ran volume
    exact ⟨false, _, own', nodes, root, entries, ran', open', quiet, result⟩
  · obtain ⟨last, own', nodes', ran', open', quiet, result⟩ := open_.create_noInode absent nonzero unused name
      mem₂ available ran₁ ran₂ step self failed
    exact ⟨false, last, own', nodes', root, entries, ran', open', quiet, result⟩
  · by_cases bad : name = [] ∨ 30 < name.length ∨ ∃ sector, Named entries name sector
    · obtain ⟨last, own', nodes', ran', open', quiet, result⟩ := open_.create_refused absent nonzero unused ran₁ ran₂ mem₂
        step created bad
      exact ⟨false, last, own', nodes', root, entries, ran', open', quiet, result⟩
    · push Not at bad
      obtain ⟨notEmpty, short, unnamed⟩ := bad
      exact open_.create_named absent nonzero unused ran₁ ran₂ mem₂ step created nulFree notEmpty short unnamed

theorem run_filesysCreate {length : Int} (opens : run dirOpenRoot world = some (some dir, middle)) :
    run (filesysCreate path length false) world =
      (run (createOrRelease dir (fileName path) length) middle).bind fun result =>
        run (do dirClose (some dir); pure result.1) result.2 := by
  rw [filesysCreate, MockOS.Fs.createOrRelease]
  change run (do
      let dir ← deref (← dirOpenRoot)
      let (inodeSector, success) ← createIn dir (fileName path) length false
      match inodeSector with
      | some sector => if success = false ∧ sector ≠ 0 then freeMapRelease sector 1 else pure ()
      | none => pure ()
      dirClose (some dir)
      pure success) world = _
  rw [run_bind, opens, Option.bind_some, run_bind, run_deref_some, Option.bind_some, run_bind, run_bind]
  cases run (createIn dir (fileName path) length false) middle with
  | none => rfl
  | some result =>
      obtain ⟨⟨made, success⟩, last⟩ := result
      cases made with
      | none => rfl
      | some sector =>
          simp only [Option.bind_some]
          split_ifs with failed
          · simp only [run_bind]
            cases run (freeMapRelease sector 1) last <;> rfl
          · rfl

section InMemory

variable {before last : World} {length : Int} (first : InMemory before world) (second : InMemory next last)

include first second

theorem NotCreated.inMemory (failed : NotCreated root entries name length world next) :
    NotCreated root entries name length before last := by
  have free := first.free
  have freeAfter := second.free
  have failures := first.failures
  have failuresAfter := second.failures
  have disk := first.disk
  cases failed with
  | noSector full empty failed => exact .noSector (by omega) (by omega) (by omega)
  | noInode available cause negative cost failed =>
      refine .noInode (by omega) (by rwa [← free]) (fun low => ?_) (fun low => ?_) (by rwa [failuresAfter, ← failures])
      · rw [freeAfter, negative low, free]
      · rw [freeAfter, cost low, free]
  | refused cause low fits enough cost =>
      exact .refused cause low fits (by rwa [← free]) (by rw [freeAfter, cost, free])
  | noSlot good full low fits enough cause cost =>
      refine .noSlot good full low fits (by rwa [← free]) ?_ (by rw [freeAfter, cost, free, disk])
      rw [failuresAfter, ← failures, ← free, ← disk]
      exact cause

/-- Steps in memory before and after a creation; the root directory may be read again. -/
theorem CreateResult.inMemory {entriesAfter : List DirEntry} {result : Bool}
    (created : CreateResult nodes nodesBetween root entries entriesAfter name length result world next)
    (present : nodes 1 = some root) (same : SameBytes (fun _ => False) nodesBetween nodesAfter next last)
    (others : ∀ number, number ≠ 1 → nodesAfter number = nodesBetween number)
    (closed : ∀ sector, sector ≠ 1 → next.closed sector → last.closed sector) :
    CreateResult nodes nodesAfter root entries entriesAfter name length result before last := by
  refine ⟨second.limit.trans (created.limit.trans first.limit),
    fun other isUsed => (second.used other).mpr (created.used other ((first.used other).mpr isUsed)), ?_⟩
  rcases created.outcome with ⟨rfl, rfl, kept, sameNodes, failed⟩ |
    ⟨rfl, kept, sector, data, rfl, there, sameNodes, new⟩
  · exact .inl ⟨rfl, rfl, ((SameBytes.refl _ nodes first.disk).trans kept).trans same,
      fun number different => (others number different).trans (sameNodes number different), failed.inMemory first second⟩
  · have nonroot : sector ≠ 1 := by
      rintro rfl
      have absent := new.absent
      rw [present] at absent
      cases absent
    refine .inr ⟨rfl, ((SameBytes.refl _ nodes first.disk).trans kept).trans (same.mono fun _ => False.elim), sector, data,
      rfl, (others sector nonroot).trans there,
      fun number one two => (others number one).trans (sameNodes number one two), { new with
        bytes := ?_, filled := ?_, closed := closed sector nonroot new.closed, enough := ?_, free := ?_, failures := ?_ }⟩
    · rw [second.disk]
      exact new.bytes
    · rw [second.disk]
      exact new.filled
    · rw [← first.disk, ← first.free]
      exact new.enough
    · rw [second.free, new.free, first.free, first.disk]
    · rw [second.failures, new.failures, first.failures]

end InMemory

/-- `filesys_create` in a directory that is closed before and after. -/
theorem AtPrompt.filesysCreate (prompt : AtPrompt own shared nodes root entries world) (nulFree : 0 ∉ fileName path)
    {length : Int} (high : length < 2147483648) : ∃ result next own' nodes' root' entries',
    run (filesysCreate path length false) world = some (result, next) ∧
      AtPrompt own' shared nodes' root' entries' next ∧ Quiet world next ∧
      CreateResult nodes nodes' root entries entries' (fileName path) length result world next := by
  obtain ⟨dir, pointer, own₁, world₁, ran₁, open₁, _, quiet₁, inMemory₁, frame₁⟩ := prompt.dirOpenRoot
  obtain ⟨result, world₂, own₂, nodes₂, root₂, entries₂, ran₂, open₂, quiet₂, created⟩ :=
    open₁.createOrRelease nulFree high
  obtain ⟨own₃, world₃, ran₃, prompt₃, quiet₃, inMemory₃, frame₃⟩ := open₂.dirClose
  refine ⟨result, world₃, own₃, _, _, entries₂, ?_, prompt₃, (quiet₁.trans quiet₂).trans quiet₃, ?_⟩
  · rw [run_filesysCreate ran₁, ran₂, Option.bind_some, run_bind, ran₃]
    rfl
  · exact created.inMemory inMemory₁ inMemory₃ prompt.present
      (.reload open₂.volume inMemory₃.disk (by decide) open₂.present)
      (fun number different => Function.update_of_ne different _ _)
      fun sector nonroot closed => (frame₃.closed nonroot).mpr closed

/-- A name of the root directory is removed with its inode. -/
theorem RootOpen.dirRemove (open_ : RootOpen own shared nodes root entries world dir pointer) (name : CString) :
    ∃ result next own' nodes' root' entries', run (dirRemove dir name) world = some (result, next) ∧
      RootOpen own' shared nodes' root' entries' next dir pointer ∧ Quiet world next ∧
      next.mem.allocationFailures = world.mem.allocationFailures ∧
      (∀ other number, Named entries' other number ↔ Named entries other number ∧ other ≠ name) ∧
      SameBytes (fun number => number = 1 ∨ Named entries name number) nodes nodes' world next ∧ nodes' 0 = nodes 0 ∧
      entries'[0]? = entries[0]? ∧ (result = true ↔ ∃ sector, Named entries name sector) ∧
      RemovesOnly (Named entries name) nodes nodes' world next := by
  cases found : entries[nameSlot entries name]? with
  | none =>
      have unnamed := nameSlot_none found
      refine ⟨false, world, own, nodes, root, entries, open_.volume.dirRemove_absent open_.dirOpened found, open_, .refl _,
        rfl, fun other number => ⟨fun named => ⟨named, ?_⟩, And.left⟩, .refl _ _ rfl, rfl, rfl, by simp [unnamed], rfl,
        fun _ _ _ => rfl, fun sector _ named => absurd named (unnamed sector)⟩
      rintro rfl
      exact unnamed number named
  | some entry =>
      have named : Named entries name entry.inodeSector := by
        rw [open_.tidy.named_iff, found]
        rfl
      obtain ⟨_, nonzero, nonroot, data, present, isFile, _⟩ := open_.regular _ _ named
      obtain ⟨rootAfter, next, after, ran, volume, frame, mem, later, _, opened, limit, _, used⟩ :=
        open_.volume.dirRemove open_.dirOpened (by decide) found present isFile nonroot nonzero
      have erased := open_.tidy.named_erase found
      have unique : ∀ number, Named entries name number → number = entry.inodeSector := by
        intro number other
        rw [open_.tidy.named_iff, found, Option.map_some, Option.some.injEq] at other
        exact other.symm
      have gone : ∀ inode data, ¬ Opened next entry.inodeSector inode data := by
        intro inode data live
        have there := volume.table.node live
        rw [Function.update_self] at there
        cases there
      have rootThere := volume.table.node opened.opened
      have quiet : Quiet world next := by
        refine ⟨later, fun sector inode data live old => ?_, by rw [mem]; rfl, fun _ _ => by rw [mem]; rfl, by rw [mem]; rfl⟩
        by_cases isRoot : sector = 1
        · subst isRoot
          rw [volume.table.unique live opened.opened]
          exact ⟨root, open_.opened⟩
        · by_cases isTarget : sector = entry.inodeSector
          · subst isTarget
            exact absurd live (gone inode data)
          · exact ⟨data, (frame.sameOpen sector (by simp [isRoot, isTarget]) inode data).mp live⟩
      have apart : ∀ other number, Named entries other number → other ≠ name →
          ¬ (number = 1 ∨ number = entry.inodeSector) := by
        rintro other number isNamed different (isRoot | isTarget)
        · exact (open_.regular other number isNamed).2.2.1 isRoot
        · obtain ⟨slot, one, low, here, inUse, isOther, isSector⟩ := isNamed
          obtain ⟨usedEntry, nameEntry⟩ := nameSlot_some found
          have same := open_.tidy.distinct _ _ _ _ low (one_le_nameSlot _ _) here found inUse usedEntry
            (.inr (isSector.trans isTarget))
          rw [same, found, Option.some.injEq] at here
          exact different (by rw [← isOther, ← here, nameEntry])
      have mounted := open_.toMounted.step volume frame quiet rootThere opened.holds (open_.tidy.erase found)
        (fun other number isNamed => by
          obtain ⟨before, different⟩ := (erased other number).mp isNamed
          exact .inl ⟨before, apart other number before different⟩)
        (fun number there => by
          by_cases isTarget : number = entry.inodeSector
          · rw [isTarget, Function.update_self] at there
            exact absurd rfl there
          · by_cases isRoot : number = 1
            · exact .inr (.inl isRoot)
            · rw [frame.sameNodes number (by simp [isRoot, isTarget])] at there
              rcases open_.named number there with zero | one | ⟨other, before⟩
              · exact .inl zero
              · exact .inr (.inl one)
              · refine .inr (.inr ⟨other, (erased other number).mpr ⟨before, ?_⟩⟩)
                rintro rfl
                exact isTarget (unique number before))
        (fun other number inode data before live => by
          refine (erased other number).mpr ⟨before, ?_⟩
          rintro rfl
          rw [unique number before] at live
          exact gone inode data live)
      obtain ⟨pos, object⟩ := open_.object
      refine ⟨true, next, _, _, rootAfter, _, ran, ⟨mounted, opened.opened, ⟨pos, ?_⟩, ?_⟩, quiet, ?_, erased, ?_, ?_, ?_, ?_,
        limit, fun number notRoot unnamed => ?_, fun sector before isNamed there => ?_⟩
      · rw [mem]
        exact object
      · rw [mem]
        exact open_.cwd
      · rw [mem]
        rfl
      · refine (SameBytes.of_frame frame).mono fun number here => here.imp id ?_
        rintro rfl
        exact named
      · rw [Function.update_of_ne nonzero.symm, Function.update_of_ne (by decide)]
      · obtain ⟨inside, _⟩ := List.getElem?_eq_some_iff.mp found
        rw [getElem?_setSlot (Nat.le_of_lt inside), if_neg (Nat.ne_of_lt (one_le_nameSlot entries name))]
      · simp only [true_iff]
        exact ⟨_, named⟩
      · apply frame.sameNodes
        rintro (isRoot | rfl)
        · exact notRoot isRoot
        · exact unnamed named
      · obtain rfl := unique sector isNamed
        rw [present, Option.some.injEq] at there
        exact there ▸ used

/-- The directory of a path is the root directory, or its first component is not there. -/
def RemoveEnds (entries : List DirEntry) (path : CString) : Prop :=
  match (pathTokens path).dropLast with
  | [] => True
  | token :: _ => token ≠ [46] ∧ token ≠ [46, 46] ∧ ∀ sector, ¬ Named entries token sector

theorem AtPrompt.run_startDir (prompt : AtPrompt own shared nodes root entries world) (path : CString) :
    run (startDir path) world = run MockOS.Fs.dirOpenRoot world := by
  rw [startDir]
  split_ifs
  · rfl
  · rw [run_bind, run_get, Option.bind_some, prompt.cwd]

theorem run_filesysRemove_none (missing : run (dirOpenPath (splitPathFilename path).1) world = some (none, next)) :
    run (filesysRemove path) world = some (false, next) := by
  rw [filesysRemove]
  dsimp only
  rw [run_bind, missing, Option.bind_some]
  rfl

theorem run_filesysRemove_some {success : Bool}
    (opened : run (dirOpenPath (splitPathFilename path).1) world = some (some dir, middle))
    (removed : run (dirRemove dir (fileName path)) middle = some (success, next))
    (closed : run (dirClose (some dir)) next = some ((), last)) :
    run (filesysRemove path) world = some (success, last) := by
  rw [filesysRemove]
  dsimp only
  rw [run_bind, opened, Option.bind_some]
  dsimp only
  rw [run_bind, show dirRemove dir (splitPathFilename path).2 = dirRemove dir (fileName path) from rfl, removed,
    Option.bind_some, run_bind, closed]
  rfl

/-- The directory of a path without directories is the root directory. -/
theorem RootOpen.run_dirOpenPath (open_ : RootOpen own shared nodes root entries middle dir pointer)
    (opens : run (startDir (splitPathFilename path).1) world = some (some dir, middle))
    (flat : (pathTokens path).dropLast = []) :
    run (dirOpenPath (splitPathFilename path).1) world = some (some dir, middle) := by
  rw [dirOpenPath, run_bind, opens, Option.bind_some, run_bind, run_deref_some, Option.bind_some, run_bind,
    pathTokens_directory, flat, walkPath, run_pure, Option.bind_some]
  dsimp only
  rw [run_bind, open_.dirOpened.run_dirGetInode, Option.bind_some, run_bind, inodeIsRemoved, run_bind,
    run_getInode open_.opened.object, Option.bind_some, run_pure, Option.bind_some, if_neg (by simp [Inode.live]), run_pure]

/-- `filesys_remove` removes a name of the root directory, and nothing for a path through another directory. -/
theorem AtPrompt.filesysRemove (prompt : AtPrompt own shared nodes root entries world) (ends : RemoveEnds entries path) :
    ∃ result next own' nodes' root' entries', run (filesysRemove path) world = some (result, next) ∧
      AtPrompt own' shared nodes' root' entries' next ∧ Quiet world next ∧
      next.mem.allocationFailures = world.mem.allocationFailures ∧
      (∀ other number, Named entries' other number ↔
        Named entries other number ∧ ¬ (other = fileName path ∧ (pathTokens path).dropLast = [])) ∧
      SameBytes (fun number => number = 1 ∨ (pathTokens path).dropLast = [] ∧ Named entries (fileName path) number)
        nodes nodes' world next ∧
      nodes' 0 = nodes 0 ∧ entries'[0]? = entries[0]? ∧
      (result = true ↔ (pathTokens path).dropLast = [] ∧ ∃ sector, Named entries (fileName path) sector) ∧
      RemovesOnly (fun number => (pathTokens path).dropLast = [] ∧ Named entries (fileName path) number) nodes nodes' world
        next := by
  obtain ⟨dir, pointer, own₁, world₁, ran₁, open₁, _, quiet₁, inMemory₁, frame₁⟩ := prompt.dirOpenRoot
  unfold RemoveEnds at ends
  cases tokens : (pathTokens path).dropLast with
  | nil =>
      obtain ⟨result, world₂, own₂, nodes₂, root₂, entries₂, ran₂, open₂, quiet₂, failures₂, erased, same₂, zero, first, there,
        removes⟩ := open₁.dirRemove (fileName path)
      obtain ⟨own₃, world₃, ran₃, prompt₃, quiet₃, inMemory₃, frame₃⟩ := open₂.dirClose
      refine ⟨result, world₃, own₃, _, _, entries₂, ?_, prompt₃, (quiet₁.trans quiet₂).trans quiet₃,
        inMemory₃.failures.trans (failures₂.trans inMemory₁.failures), fun other number => ?_, ?_, ?_, first, ?_,
        inMemory₃.limit.trans (removes.limit.trans inMemory₁.limit), fun number notRoot unnamed => ?_,
        fun sector data named present other inside => ?_⟩
      · exact run_filesysRemove_some (open₁.run_dirOpenPath ((prompt.run_startDir _).trans ran₁) tokens) ran₂ ran₃
      · rw [erased, and_iff_left rfl]
      · exact ((SameBytes.refl _ nodes inMemory₁.disk).trans (same₂.mono fun _ => Or.imp id fun named => ⟨rfl, named⟩)).trans
          ((SameBytes.reload open₂.volume inMemory₃.disk (by decide) open₂.present).mono fun _ => False.elim)
      · rw [Function.update_of_ne (by decide), zero]
      · rw [there, and_iff_right rfl]
      · rw [Function.update_of_ne notRoot]
        exact removes.others number notRoot fun named => unnamed ⟨rfl, named⟩
      · rw [inMemory₃.used, removes.used sector data named.2 present other (inMemory₁.limit ▸ inside), inMemory₁.used,
          inMemory₁.disk]
  | cons token rest =>
      rw [tokens] at ends
      obtain ⟨notDot, notDots, unnamed⟩ := ends
      rcases open₁.dirLookup notDot notDots with ⟨_, ran₂⟩ | ⟨sector, _, _, _, _, named, _⟩
      · obtain ⟨own₃, world₃, ran₃, prompt₃, quiet₃, inMemory₃, frame₃⟩ := open₁.dirClose
        refine ⟨false, world₃, own₃, _, _, entries, ?_, prompt₃, quiet₁.trans quiet₃,
          inMemory₃.failures.trans inMemory₁.failures, fun other number => by simp, ?_,
          Function.update_of_ne (by decide) _ _, rfl, by simp, inMemory₃.limit.trans inMemory₁.limit,
          fun number notRoot _ => Function.update_of_ne notRoot _ _, fun _ _ impossible => by cases impossible.1⟩
        · refine run_filesysRemove_none ?_
          rw [dirOpenPath, run_bind, prompt.run_startDir, ran₁, Option.bind_some, run_bind, run_deref_some,
            Option.bind_some, run_bind, pathTokens_directory, tokens, walkPath, run_bind, ran₂, Option.bind_some]
          dsimp only
          rw [run_bind, ran₃, Option.bind_some, run_pure, Option.bind_some]
          rfl
        · exact (SameBytes.refl _ nodes inMemory₁.disk).trans
            ((SameBytes.reload open₁.volume inMemory₃.disk (by decide) open₁.present).mono fun _ => False.elim)
      · exact absurd named (unnamed sector)

/-- The inode of the file of a path is still open, if the path has a file. -/
def World.Closable (world : World) (path : CString) : Prop :=
  ∀ entry, world.handle path = some entry →
    ∃ file, world.mem.files entry.2 = some file ∧ file.inode ∈ world.mem.openInodes

/-- The file of a path is closed before the path is removed. -/
theorem AtPrompt.closePath (prompt : AtPrompt own shared nodes root entries world) (closable : world.Closable path) :
    ∃ removed next, run (MockOS.Fs.removeFromFileTable path) world = some (removed, next) ∧
      Settled shared nodes entries world next ∧ next.handle path = none := by
  cases found : world.handle path with
  | none =>
      refine ⟨false, world, ?_, ⟨own, nodes, root, prompt, .refl _, .refl _ _ rfl, rfl⟩, found⟩
      have none := found
      unfold World.handle at none
      rw [MockOS.Fs.removeFromFileTable, run_bind, run_get, Option.bind_some, none]
      rfl
  | some entry =>
      have usable : world.Usable path := by
        rw [World.Usable, found]
        exact closable entry found
      obtain ⟨inode, pos, sector, data, handle⟩ := prompt.handleOpen found usable
      obtain ⟨own', next, ran, prompt', inMemory, gone, _⟩ := prompt.removeFromFileTable handle
      obtain ⟨nonzero, _, present, _⟩ := prompt.sector_regular handle
      exact ⟨true, next, ran, ⟨own', _, root, prompt', inMemory,
        .reload prompt.volume inMemory.disk nonzero present, Function.update_of_ne nonzero.symm _ _⟩, gone⟩

/-- `fsutil_rm` removes a name of the root directory. -/
theorem AtPrompt.fsutilRm (prompt : AtPrompt own shared nodes root entries world) (closable : world.Closable path)
    (ends : RemoveEnds entries path) :
    ∃ value next own' nodes' root' entries', run (fsutilRm path) world = some (value, next) ∧
      AtPrompt own' shared nodes' root' entries' next ∧
      next.mem.allocationFailures = world.mem.allocationFailures ∧
      (∀ other number, Named entries' other number ↔
        Named entries other number ∧ ¬ (other = fileName path ∧ (pathTokens path).dropLast = [])) ∧
      SameBytes (fun number => number = 1 ∨ (pathTokens path).dropLast = [] ∧ Named entries (fileName path) number)
        nodes nodes' world next ∧
      nodes' 0 = nodes 0 ∧ entries'[0]? = entries[0]? := by
  obtain ⟨removed, middle, ran₁, ⟨own₁, nodes₁, root₁, prompt₁, inMemory₁, same₁, zero₁⟩, _⟩ := prompt.closePath closable
  obtain ⟨result, next, own₂, nodes₂, root₂, entries₂, ran₂, prompt₂, _, failures₂, erased, same₂, zero₂, first, _⟩ :=
    prompt₁.filesysRemove ends
  refine ⟨if result then 1 else 0, next, own₂, nodes₂, root₂, entries₂, ?_, prompt₂, failures₂.trans inMemory₁.failures, erased,
    (same₁.mono fun _ => False.elim).trans same₂, zero₂.trans zero₁, first⟩
  rw [MockOS.Fs.fsutilRm, run_bind, ran₁, Option.bind_some, run_bind, ran₂]
  rfl

theorem nul_free_fileName (nulFree : 0 ∉ path) : 0 ∉ fileName path := by
  rw [fileName, splitPathFilename]
  cases last : (pathTokens path).getLast? with
  | none => simp
  | some token =>
      rw [Option.getD_some]
      exact fun inside => nulFree ((mem_pathTokens (List.mem_of_getLast? last)).2.2 0 inside)

theorem slash_free_fileName (path : CString) : 47 ∉ fileName path := by
  rw [fileName, splitPathFilename]
  cases last : (pathTokens path).getLast? with
  | none => simp
  | some token => exact (mem_pathTokens (List.mem_of_getLast? last)).2.1

/-- `fsutil_create` refuses names of bad lengths and else is `filesys_create`. -/
theorem AtPrompt.fsutilCreate (prompt : AtPrompt own shared nodes root entries world) (nulFree : 0 ∉ path) (size : Int) :
    ∃ result next own' nodes' root' entries', run (fsutilCreate path size) world = some (if result then 1 else 0, next) ∧
      AtPrompt own' shared nodes' root' entries' next ∧ Quiet world next ∧
      ((path.length = 0 ∨ 255 ≤ path.length) ∧ result = false ∧ next = world ∧ nodes' = nodes ∧ entries' = entries ∨
        path.length ≠ 0 ∧ path.length < 255 ∧
          CreateResult nodes nodes' root entries entries' (fileName path) (wrap32 size) result world next) := by
  by_cases bad : path.length = 0 ∨ path.length ≥ 255
  · refine ⟨false, world, own, nodes, root, entries, ?_, prompt, .refl _, .inl ⟨bad, rfl, rfl, rfl, rfl⟩⟩
    rw [MockOS.Fs.fsutilCreate, if_pos bad]
    rfl
  · obtain ⟨result, next, own', nodes', root', entries', ran, prompt', quiet, created⟩ :=
      prompt.filesysCreate (nul_free_fileName nulFree) (wrap32_bounds size).2
    refine ⟨result, next, own', nodes', root', entries', ?_, prompt', quiet, .inr ⟨by omega, by omega, created⟩⟩
    rw [MockOS.Fs.fsutilCreate, if_neg bad, run_bind, ran]
    rfl

end MockOS.Fs
