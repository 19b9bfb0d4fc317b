import MockOS.Fs.InodeCalls

namespace MockOS.Fs

variable {shared : BlockSector → Prop} {own after : Owners} {world next : World} {nodes nodesAfter : Nodes}
  {sector inode : BlockSector} {pointer : Pointer} {data dataAfter : InodeDisk}

/-- An owner of a sector is a live inode that has the sector in its tree. -/
def OwnerLive (nodes : Nodes) (store : BlockSector → Sector) (sector : BlockSector) (owner : Owner) : Prop :=
  ∃ data, nodes owner.1 = some data ∧ ∀ place, owner.2 = some place → place.within ∧ sectorAt store data place = sector

def Owners.Live (own : Owners) (nodes : Nodes) (store : BlockSector → Sector) : Prop :=
  ∀ sector owner, own sector = some owner → OwnerLive nodes store sector owner

open Classical in
/-- The owners without those of leaked sectors. -/
noncomputable def Owners.trim (own : Owners) (nodes : Nodes) (store : BlockSector → Sector) : Owners := fun sector =>
  (own sector).filter fun owner => OwnerLive nodes store sector owner

theorem Owners.trim_eq_some {store : BlockSector → Sector} {owner : Owner} :
    own.trim nodes store sector = some owner ↔ own sector = some owner ∧ OwnerLive nodes store sector owner := by
  simp [trim, Option.filter_eq_some_iff]

theorem Owners.trim_live (own : Owners) (nodes : Nodes) (store : BlockSector → Sector) :
    (own.trim nodes store).Live nodes store := fun _ _ owned => (Owners.trim_eq_some.mp owned).2

theorem Owners.Live.exact {store : BlockSector → Sector} (live : own.Live nodes store) (present : nodes inode = some data) :
    Exact own store inode data := by
  intro sector place owned
  obtain ⟨other, same, here⟩ := live sector _ owned
  rw [present, Option.some.injEq] at same
  subst same
  exact here place rfl

theorem InodeOwned.trim {store : BlockSector → Sector} (owned : InodeOwned own store inode data)
    (present : nodes inode = some data) : InodeOwned (own.trim nodes store) store inode data := by
  intro place within there
  refine Owners.trim_eq_some.mpr ⟨owned place within there, data, present, ?_⟩
  rintro other same
  obtain rfl : place = other := Option.some.inj same
  exact ⟨within, rfl⟩

theorem Volume.trim (volume : Volume own shared nodes world) :
    Volume (own.trim nodes world.disk) shared nodes world where
  sound := by
    constructor
    · intro sector owned
      obtain ⟨owner, same⟩ := Option.ne_none_iff_exists'.mp owned
      apply volume.sound.used
      rw [(Owners.trim_eq_some.mp same).1]
      exact Option.some_ne_none _
    · intro inode place owned
      exact volume.sound.zero inode place (Owners.trim_eq_some.mp owned).1
    · intro sector inode owned
      exact volume.sound.self sector inode (Owners.trim_eq_some.mp owned).1
    · exact volume.sound.reserved
    · exact volume.sound.small
  freeMap := by
    obtain ⟨pointer, file, data, opened, copy, member⟩ := volume.freeMap
    refine ⟨pointer, file, data, { opened with owned := ?_ }, copy, member⟩
    exact opened.owned.trim (volume.table.node ⟨member, opened.liveInode⟩)
  node sector data present := by
    have node := volume.node sector data present
    refine { node with self := Owners.trim_eq_some.mpr ⟨node.self, data, present, ?_⟩, owned := node.owned.trim present }
    intro place none
    cases none
  table := volume.table

/-- What a successful creation gives. -/
structure Created (own after : Owners) (sector : BlockSector) (length : Int) (data : InodeDisk) (world next : World) :
    Prop where
  nonnegative : 0 ≤ length
  fits : length ≤ 512 * maxBlocks
  enough : (inodePlaces (blocksOf length)).length < world.free
  free : next.free = world.free - 1 - (inodePlaces (blocksOf length)).length
  failures : next.mem.allocationFailures = world.mem.allocationFailures
  length_eq : data.length = length
  nonzero : sector ≠ 0
  unused : ¬ world.used sector
  isDir : data.isDir = false
  tail : TailZero next.disk data
  bytes : fileBytes next.disk data = List.replicate length.toNat 0
  limit : next.limit = world.limit
  used : ∀ other, world.used other → next.used other
  exact : Exact after next.disk sector data
  taken : ∀ other : BlockSector, other.toNat < world.limit → next.used other →
    world.used other ∨ other ∈ inodeSectors next.disk sector data
  fresh : ∀ other owner, after other = some owner → own other = none → ¬ world.used other

/-- A sector that no inode can have. -/
theorem Volume.absent_noSector (volume : Volume own shared nodes world) : nodes noSector = none := by
  cases present : nodes noSector with
  | none => rfl
  | some data =>
      have small := volume.sound.small
      have inside := (volume.sound.used noSector (by
        rw [(volume.node noSector data present).self]
        exact Option.some_ne_none _)).2
      have value : noSector.toNat = 4294967295 := rfl
      omega

/-- What a failed creation leaves, its sector still taken. -/
structure NoInode (length : Int) (world next : World) : Prop where
  cause : length < 0 ∨ 512 * maxBlocks < length ∨ world.free ≤ (inodePlaces (blocksOf length)).length
  failures : length < 0 ∨ 512 * maxBlocks < length ∨ world.mem.allocationFailures < next.mem.allocationFailures
  negative : length < 0 → next.free + 1 = world.free
  free : 0 ≤ length → next.free = world.free - 1 - (inodePlaces (bytesToSectors length)).length
  limit : next.limit = world.limit
  used : ∀ other, world.used other → next.used other

/-- A sector is taken and an inode made on it, unless too few sectors are free. -/
theorem Volume.newInode (volume : Volume own shared nodes world) (live : own.Live nodes world.disk) {length : Int}
    (high : length < 2147483648) :
    (world.free = 0 ∧ run (MockOS.Fs.freeMapAllocate 1) world = some (none, world.failed) ∧
      Volume own shared nodes world.failed) ∨
    ∃ sector middle next after, run (MockOS.Fs.freeMapAllocate 1) world = some (some sector, middle) ∧ world.free ≠ 0 ∧
      nodes sector = none ∧ sector ≠ 0 ∧ ¬ world.used sector ∧
      next.mem = { world.mem with
        freeMap := next.mem.freeMap, allocationFailures := next.mem.allocationFailures } ∧
      (run (MockOS.Fs.inodeCreate sector length false) middle = some (false, next) ∧
          InodeStep shared sector own after nodes nodes world next ∧ after sector = some (sector, none) ∧
          NoInode length world next ∨
        ∃ data, run (MockOS.Fs.inodeCreate sector length false) middle = some (true, next) ∧
          InodeStep shared sector own after nodes (Function.update nodes sector (some data)) world next ∧
          Created own after sector length data world next) := by
  rcases volume.freeMapAllocate with full |
    ⟨sector, disk, notFull, ran, unused, unowned, nonzero, inside, _, step₁⟩
  · exact .inl full
  have absent : nodes sector = none := by
    cases present : nodes sector with
    | none => rfl
    | some data =>
        have self := (volume.node sector data present).self
        rw [unowned] at self
        cases self
  obtain ⟨middle, middleEq⟩ : ∃ middle : World, middle = ⟨(world.mark sector true).mem, disk⟩ := ⟨_, rfl⟩
  rw [← middleEq] at ran step₁
  have used₁ : ∀ other, middle.used other ↔ other = sector ∨ world.used other := by
    intro other
    have marked := world.mark_used sector other true
    rw [middleEq]
    change (world.mark sector true).used other ↔ _
    rw [marked]
    split_ifs with same <;> simp [same]
  have mem₁ : middle.mem = { world.mem with freeMap := middle.mem.freeMap } := by
    rw [middleEq]
    rfl
  have limit₁ : middle.limit = world.limit := by
    rw [middleEq]
    rfl
  have free₁ : middle.free = world.free - 1 := by
    have taken := World.mark_true_free inside unused
    have same : middle.free = (world.mark sector true).free := by
      rw [middleEq]
      rfl
    omega
  have failures₁ : middle.mem.allocationFailures = world.mem.allocationFailures := by rw [mem₁]
  rcases step₁.volume.inodeCreate false (Function.update_self _ _ _) absent nonzero high with
    ⟨next, after, ran₂, mem, step₂, self, refuses⟩ | ⟨data, next, after, ran₂, mem, step₂, creates⟩
  · refine .inr ⟨sector, middle, next, after, ran, notFull, absent, nonzero, unused, by rw [mem, mem₁],
      .inl ⟨ran₂, step₁.trans step₂, self, ?_⟩⟩
    refine ⟨refuses.cause.imp id (Or.imp id fun short => by omega), ?_, fun negative => ?_, fun low => ?_, ?_,
      fun other used => refuses.used other ((used₁ other).mpr (.inr used))⟩
    · rw [← failures₁]
      exact refuses.failures.imp And.left id
    · rcases refuses.failures with ⟨_, same⟩ | large | _
      · rw [same, free₁]
        omega
      · omega
      · rw [inodeCreate_negative negative, Option.some.injEq, Prod.mk.injEq] at ran₂
        rw [← ran₂.2, free₁]
        omega
    · rw [refuses.free low, free₁]
    · rw [refuses.limit, limit₁]
  · have noBlocks : ∀ other place, Function.update own sector (some (sector, none)) other ≠ some (sector, some place) := by
      intro other place owned
      by_cases same : other = sector
      · subst same
        rw [Function.update_self] at owned
        cases owned
      · rw [Function.update_of_ne same] at owned
        obtain ⟨data, present, _⟩ := live _ _ owned
        rw [absent] at present
        cases present
    obtain ⟨exact, taken⟩ := creates.exact noBlocks
    have enough := creates.enough
    have free := creates.free
    refine .inr ⟨sector, middle, next, after, ran, notFull, absent, nonzero, unused, by rw [mem, mem₁],
      .inr ⟨data, ran₂, step₁.trans step₂, creates.nonnegative, creates.fits, by omega, by omega,
        creates.failures.trans failures₁, creates.length_eq, nonzero, unused, creates.isDir_eq, creates.tail,
        creates.bytes, ?_, ?_, exact, ?_, ?_⟩⟩
    · rw [creates.limit, limit₁]
    · intro other used
      exact creates.used other ((used₁ other).mpr (.inr used))
    · intro other small used
      rw [inodeSectors, List.mem_cons]
      rcases taken other (by rw [middleEq]; exact small) used with before | ⟨place, member, same⟩
      · exact ((used₁ other).mp before).symm.imp id .inl
      · refine .inr (.inr (List.mem_map.mpr ⟨place, ?_, same.symm⟩))
        rwa [creates.length_eq]
    · intro other owner owned absent isUsed
      by_cases same : other = sector
      · exact unused (same ▸ isUsed)
      · exact creates.fresh other owner owned (by rwa [Function.update_of_ne same]) ((used₁ other).mpr (.inr isUsed))

theorem Volume.createInode (volume : Volume own shared nodes world) (live : own.Live nodes world.disk) {length : Int}
    (high : length < 2147483648) :
    (∃ sector next after, run (createInode length) world = some (none, next) ∧ nodes sector = none ∧
      next.mem = { world.mem with
        freeMap := next.mem.freeMap, allocationFailures := next.mem.allocationFailures } ∧
      InodeStep shared sector own after nodes nodes world next ∧
      (length < 0 ∨ 512 * maxBlocks < length ∨ world.free ≤ (inodePlaces (blocksOf length)).length)) ∨
    ∃ sector data next after, run (createInode length) world = some (some sector, next) ∧ nodes sector = none ∧
      next.mem = { world.mem with
        freeMap := next.mem.freeMap, allocationFailures := next.mem.allocationFailures } ∧
      InodeStep shared sector own after nodes (Function.update nodes sector (some data)) world next ∧
      Created own after sector length data world next := by
  rcases volume.newInode live high with ⟨full, ran, failed⟩ |
    ⟨sector, middle, next, after, ran, _, absent, _, _, mem, ⟨ran₂, step, _, failed⟩ | ⟨data, ran₂, step, created⟩⟩
  · refine .inl ⟨noSector, world.failed, own, ?_, volume.absent_noSector, rfl,
      ⟨failed, Touches.refl _ _ _ _, fun _ _ _ owned _ => owned, fun _ _ => rfl, Nat.le_succ _, fun _ => rfl⟩,
      .inr (.inr (by omega))⟩
    rw [MockOS.Fs.createInode, run_bind, ran, Option.bind_some, run_pure]
  · refine .inl ⟨sector, next, after, ?_, absent, mem, step, failed.cause⟩
    rw [MockOS.Fs.createInode, run_bind, ran, Option.bind_some, run_bind, ran₂]
    rfl
  · refine .inr ⟨sector, data, next, after, ?_, absent, mem, step, created⟩
    rw [MockOS.Fs.createInode, run_bind, ran, Option.bind_some, run_bind, ran₂]
    rfl

/-- The inode that the code reads is the one of the volume. -/
theorem Volume.inodeData_eq (volume : Volume own shared nodes world) (present : nodes sector = some data) :
    world.inodeData sector = data := by
  rw [World.inodeData]
  by_cases closed : world.closed sector
  · rw [List.findSome?_eq_none_iff.mpr, Option.getD_none, volume.table.closed sector data present closed]
    intro pointer member
    obtain ⟨number, before, object, _⟩ := volume.table.opened pointer member
    rw [object, Option.bind_some, if_neg]
    rintro rfl
    exact closed pointer member before object
  · obtain ⟨pointer, before, opened⟩ := not_closed.mp closed
    have same := volume.table.node opened
    rw [present, Option.some.injEq] at same
    subst same
    cases found : world.mem.openInodes.findSome? fun pointer => (world.mem.inodes pointer).bind fun inode =>
        if inode.sector = sector then some inode.data else none with
    | none =>
        have none := List.findSome?_eq_none_iff.mp found pointer opened.member
        rw [opened.object, Option.bind_some, if_pos (show (Inode.live sector data).sector = sector from rfl)] at none
        cases none
    | some value =>
        obtain ⟨other, member, same⟩ := List.exists_of_findSome?_eq_some found
        obtain ⟨number, before, object, here⟩ := volume.table.opened other member
        rw [object, Option.bind_some] at same
        split_ifs at same with isSector
        obtain rfl : number = sector := isSector
        rw [present] at here
        rw [Option.getD_some]
        exact ((Option.some.inj same).symm.trans (Option.some.inj here).symm)

/-- An inode of the client is a file of the map, open or closed. -/
def HoldsFile (nodes : Nodes) (world : World) (sector : BlockSector) : Option ByteFile → Option (Option Pointer) → Prop
  | none, none => nodes sector = none
  | some file, some handle => ∃ data, nodes sector = some data ∧ TailZero world.disk data ∧
      fileBytes world.disk data = file.bytes ∧
      match handle with
      | none => file.isOpen = false ∧ world.closed sector
      | some pointer => file.isOpen = true ∧ Opened world sector pointer data
  | _, _ => False

/-- A step on another inode leaves the file. -/
theorem HoldsFile.other {number : BlockSector} {file : Option ByteFile} {handle : Option (Option Pointer)}
    (holds : HoldsFile nodes world number file handle) (volume : Volume own shared nodes world)
    (step : InodeStep shared sector own after nodes nodesAfter world next) (same : OpenSame sector world next)
    (different : number ≠ sector) (nonzero : number ≠ 0) : HoldsFile nodesAfter next number file handle := by
  cases file with
  | none =>
      cases handle with
      | none => exact (step.others number different).trans holds
      | some handle => exact holds
  | some file =>
      cases handle with
      | none => exact holds
      | some handle =>
          obtain ⟨data, present, tail, bytes, object⟩ := holds
          refine ⟨data, (step.others number different).trans present, step.tailZero volume different nonzero present tail,
            (step.fileBytes volume different nonzero present).trans bytes, ?_⟩
          cases handle with
          | none => exact ⟨object.1, (same.closed different).mpr object.2⟩
          | some pointer => exact ⟨object.1, (same number different pointer data).mpr object.2⟩

/-- The client's inodes hold the files of the map, and the root directory keeps its bytes. -/
structure Session.Represents (session : Session) (files : ByteFiles) (root : InodeDisk) (rootBytes : List UInt8)
    (own : Owners) (shared : BlockSector → Prop) (nodes : Nodes) : Prop where
  volume : Volume own shared nodes session.world
  live : own.Live nodes session.world.disk
  root : nodes 1 = some root ∧ fileBytes session.world.disk root = rootBytes
  reserved : ∀ sector, sector = 0 ∨ sector = 1 → files sector = none ∧ session.handles sector = none
  holds : ∀ sector, sector ≠ 0 → sector ≠ 1 →
    HoldsFile nodes session.world sector (files sector) (session.handles sector)

@[simp] theorem Session.setHandle_handles (session : Session) (sector : BlockSector) (handle : Option (Option Pointer))
    (world : World) : (session.setHandle sector handle world).handles = Function.update session.handles sector handle :=
  rfl

/-- The inode that a call names. -/
def InodeCall.named : InodeCall → Option BlockSector
  | .create _ => none
  | .openInode sector | .readAt sector _ _ | .writeAt sector _ _ _ | .close sector | .remove sector => some sector

/-- A call has a result that the map allows, and is a step on the inode that it names or creates. -/
def Session.Simulated (root : InodeDisk) (rootBytes : List UInt8) (shared : BlockSector → Prop) (session : Session)
    (files : ByteFiles) (own : Owners) (nodes : Nodes) (call : InodeCall) : Prop :=
  ∃ reply session' files' own' nodes' number after, session.perform call = some (reply, session') ∧
    files.Step call reply files' ∧ session'.Represents files' root rootBytes own' shared nodes' ∧
    InodeStep shared number own after nodes nodes' session.world session'.world ∧
    (nodes number = none ∨ call.named = some number)

namespace Session.Represents

variable {session : Session} {files : ByteFiles} {root : InodeDisk} {rootBytes : List UInt8}

theorem ne_of_absent (represents : session.Represents files root rootBytes own shared nodes)
    (absent : nodes sector = none) : sector ≠ 0 ∧ sector ≠ 1 := by
  constructor
  · rintro rfl
    obtain ⟨pointer, file, data, opened, _, member⟩ := represents.volume.freeMap
    have present := represents.volume.table.node ⟨member, opened.liveInode⟩
    rw [absent] at present
    cases present
  · rintro rfl
    rw [represents.root.1] at absent
    cases absent

theorem ne_of_handle (represents : session.Represents files root rootBytes own shared nodes) {handle : Option Pointer}
    (held : session.handles sector = some handle) : sector ≠ 0 ∧ sector ≠ 1 := by
  constructor
  · rintro rfl
    rw [(represents.reserved 0 (.inl rfl)).2] at held
    cases held
  · rintro rfl
    rw [(represents.reserved 1 (.inr rfl)).2] at held
    cases held

theorem of_absent (represents : session.Represents files root rootBytes own shared nodes)
    (absent : nodes sector = none) : files sector = none ∧ session.handles sector = none := by
  obtain ⟨notZero, notRoot⟩ := represents.ne_of_absent absent
  have holds := represents.holds sector notZero notRoot
  cases file : files sector with
  | none =>
      cases handle : session.handles sector with
      | none => exact ⟨rfl, rfl⟩
      | some handle =>
          rw [file, handle] at holds
          exact holds.elim
  | some file' =>
      cases handle : session.handles sector with
      | none =>
          rw [file, handle] at holds
          exact holds.elim
      | some handle' =>
          rw [file, handle] at holds
          obtain ⟨data, present, _⟩ := holds
          rw [absent] at present
          cases present

/-- The file of an inode that the client holds. -/
theorem of_handle (represents : session.Represents files root rootBytes own shared nodes) {handle : Option Pointer}
    (held : session.handles sector = some handle) :
    ∃ file, files sector = some file ∧ HoldsFile nodes session.world sector (some file) (some handle) := by
  obtain ⟨notZero, notRoot⟩ := represents.ne_of_handle held
  have holds := represents.holds sector notZero notRoot
  rw [held] at holds
  cases present : files sector with
  | none =>
      rw [present] at holds
      exact holds.elim
  | some file =>
      rw [present] at holds
      exact ⟨file, rfl, holds⟩

/-- A call on one inode. -/
theorem step (represents : session.Represents files root rootBytes own shared nodes) {file : Option ByteFile}
    {handle : Option (Option Pointer)} (step : InodeStep shared sector own after nodes nodesAfter session.world next)
    (same : OpenSame sector session.world next) (notZero : sector ≠ 0) (notRoot : sector ≠ 1)
    (here : HoldsFile nodesAfter next sector file handle) :
    (session.setHandle sector handle next).Represents (Function.update files sector file) root rootBytes
      (after.trim nodesAfter next.disk) shared nodesAfter where
  volume := step.volume.trim
  live := after.trim_live nodesAfter next.disk
  root := by
    obtain ⟨present, bytes⟩ := represents.root
    exact ⟨(step.others 1 notRoot.symm).trans present,
      (step.fileBytes represents.volume notRoot.symm (by decide) present).trans bytes⟩
  reserved number special := by
    have different : number ≠ sector := by
      rintro rfl
      exact special.elim notZero notRoot
    obtain ⟨noFile, noHandle⟩ := represents.reserved number special
    exact ⟨(Function.update_of_ne different _ _).trans noFile, (Function.update_of_ne different _ _).trans noHandle⟩
  holds number nonzero nonroot := by
    by_cases different : number = sector
    · subst different
      rw [Function.update_self, setHandle_handles, Function.update_self]
      exact here
    · rw [Function.update_of_ne different, setHandle_handles, Function.update_of_ne different]
      exact (represents.holds number nonzero nonroot).other represents.volume step same different nonzero

/-- A call that neither opens nor closes. -/
theorem stepFile (represents : session.Represents files root rootBytes own shared nodes) {file : Option ByteFile}
    (stepped : InodeStep shared sector own after nodes nodesAfter session.world next)
    (same : OpenSame sector session.world next) (notZero : sector ≠ 0) (notRoot : sector ≠ 1)
    (here : HoldsFile nodesAfter next sector file (session.handles sector)) :
    ({ session with world := next } : Session).Represents (Function.update files sector file) root rootBytes
      (after.trim nodesAfter next.disk) shared nodesAfter := by
  have represents' := represents.step stepped same notZero notRoot here
  rwa [setHandle, Function.update_eq_self] at represents'

/-- A call that changes no file. -/
theorem stepSame (represents : session.Represents files root rootBytes own shared nodes)
    (stepped : InodeStep shared sector own after nodes nodesAfter session.world next)
    (same : OpenSame sector session.world next) (notZero : sector ≠ 0) (notRoot : sector ≠ 1)
    (here : HoldsFile nodesAfter next sector (files sector) (session.handles sector)) :
    ({ session with world := next } : Session).Represents files root rootBytes (after.trim nodesAfter next.disk) shared
      nodesAfter := by
  have represents' := represents.stepFile stepped same notZero notRoot here
  rwa [Function.update_eq_self] at represents'

theorem open_iff (represents : session.Represents files root rootBytes own shared nodes) :
    (∃ bytes, files sector = some ⟨bytes, true⟩) ↔ ∃ pointer, session.handles sector = some (some pointer) := by
  constructor
  · rintro ⟨bytes, present⟩
    have notZero : sector ≠ 0 := by
      rintro rfl
      rw [(represents.reserved 0 (.inl rfl)).1] at present
      cases present
    have notRoot : sector ≠ 1 := by
      rintro rfl
      rw [(represents.reserved 1 (.inr rfl)).1] at present
      cases present
    have holds := represents.holds sector notZero notRoot
    rw [present] at holds
    rcases handle : session.handles sector with _ | _ | pointer
    · rw [handle] at holds
      exact holds.elim
    · rw [handle] at holds
      obtain ⟨data, _, _, _, isClosed, _⟩ := holds
      cases isClosed
    · exact ⟨pointer, rfl⟩
  · rintro ⟨pointer, held⟩
    obtain ⟨⟨bytes, isOpen⟩, present, data, _, _, _, opens, _⟩ := represents.of_handle held
    obtain rfl : isOpen = true := opens
    exact ⟨bytes, present⟩

theorem closed_iff (represents : session.Represents files root rootBytes own shared nodes) :
    (∃ bytes, files sector = some ⟨bytes, false⟩) ↔ session.handles sector = some none := by
  constructor
  · rintro ⟨bytes, present⟩
    rcases handle : session.handles sector with _ | _ | pointer
    · exfalso
      by_cases special : sector = 0 ∨ sector = 1
      · rw [(represents.reserved sector special).1] at present
        cases present
      · push Not at special
        have holds := represents.holds sector special.1 special.2
        rw [present, handle] at holds
        exact holds
    · rfl
    · obtain ⟨other, same⟩ := represents.open_iff.mpr ⟨pointer, handle⟩
      rw [present] at same
      cases same
  · intro held
    obtain ⟨⟨bytes, isOpen⟩, present, data, _, _, _, isClosed, _⟩ := represents.of_handle held
    obtain rfl : isOpen = false := isClosed
    exact ⟨bytes, present⟩

/-- The file and the object of an open inode. -/
theorem of_open (represents : session.Represents files root rootBytes own shared nodes)
    (held : session.handles sector = some (some pointer)) :
    ∃ data bytes, files sector = some ⟨bytes, true⟩ ∧ nodes sector = some data ∧ TailZero session.world.disk data ∧
      fileBytes session.world.disk data = bytes ∧ Opened session.world sector pointer data := by
  obtain ⟨⟨bytes, isOpen⟩, present, data, here, tail, same, opens, opened⟩ := represents.of_handle held
  obtain rfl : isOpen = true := opens
  exact ⟨data, bytes, present, here, tail, same, opened⟩

/-- A call that is not made changes nothing. -/
theorem simulated_refused (represents : session.Represents files root rootBytes own shared nodes) {call : InodeCall}
    (ran : session.perform call = some (.refused, session)) (illegal : ¬ files.Allows call) :
    session.Simulated root rootBytes shared files own nodes call :=
  ⟨.refused, session, files, own, nodes, noSector, own, ran, .refused illegal, represents,
    .memory represents.volume rfl rfl fun _ _ => rfl, .inl represents.volume.absent_noSector⟩

theorem create (represents : session.Represents files root rootBytes own shared nodes) (length : Int) :
    session.Simulated root rootBytes shared files own nodes (.create length) := by
  by_cases valid : isOffset length = true
  · have high : length < 2147483648 := by
      simp [isOffset] at valid
      exact valid.2
    rcases represents.volume.createInode represents.live high with
      ⟨sector, next, after, ran, absent, mem, step, _⟩ |
      ⟨sector, data, next, after, ran, absent, mem, step, created⟩
    · obtain ⟨notZero, notRoot⟩ := represents.ne_of_absent absent
      obtain ⟨noFile, noHandle⟩ := represents.of_absent absent
      refine ⟨_, _, files, _, nodes, sector, _, ?_, .notCreated valid,
        represents.stepSame step (.of_mem (by rw [mem]) (by rw [mem])) notZero notRoot ?_, step, .inl absent⟩
      · simp only [perform, if_pos valid, ran, Option.map_some]
      · rw [noFile, noHandle]
        exact absent
    · obtain ⟨notZero, notRoot⟩ := represents.ne_of_absent absent
      have holds : HoldsFile (Function.update nodes sector (some data)) next sector
          (some ⟨List.replicate length.toNat 0, false⟩) (some none) := by
        refine ⟨data, Function.update_self _ _ _, created.tail, created.bytes, rfl, ?_⟩
        intro pointer member before object
        rw [mem] at member object
        have opened : Opened session.world sector pointer before := ⟨member, object⟩
        rw [represents.volume.table.node opened] at absent
        cases absent
      refine ⟨_, _, _, _, _, sector, _, ?_, .created valid created.nonnegative (represents.of_absent absent).1,
        represents.step step (.of_mem (by rw [mem]) (by rw [mem])) notZero notRoot holds, step, .inl absent⟩
      simp only [perform, if_pos valid, ran, Option.map_some]
  · exact represents.simulated_refused (by rw [perform, if_neg valid]) valid

theorem openInode (represents : session.Represents files root rootBytes own shared nodes) (sector : BlockSector) :
    session.Simulated root rootBytes shared files own nodes (.openInode sector) := by
  by_cases valid : session.handles sector = some none
  · obtain ⟨notZero, notRoot⟩ := represents.ne_of_handle valid
    obtain ⟨bytes, present⟩ := represents.closed_iff.mpr valid
    obtain ⟨file, same, data, here, tail, bytesSame, isClosed, closed⟩ := represents.of_handle valid
    rw [present, Option.some.injEq] at same
    subst same
    obtain ⟨ran, opened, volume⟩ := represents.volume.inodeOpen_closed here closed
    have sameOpen : OpenSame sector session.world ⟨session.world.mem.openInode sector data, session.world.disk⟩ :=
      .openInode represents.volume.table sector data
    have holds : HoldsFile nodes ⟨session.world.mem.openInode sector data, session.world.disk⟩ sector
        (some ⟨bytes, true⟩) (some (some session.world.mem.nextPointer)) :=
      ⟨data, here, tail, bytesSame, rfl, opened⟩
    have step : InodeStep shared sector own own nodes nodes session.world
        ⟨session.world.mem.openInode sector data, session.world.disk⟩ := .memory volume rfl rfl fun _ _ => rfl
    refine ⟨_, _, _, _, _, sector, _, ?_, .opened present, represents.step step sameOpen notZero notRoot holds, step,
      .inr rfl⟩
    simp only [perform, if_pos valid, ran, Option.map_some]
  · exact represents.simulated_refused (by rw [perform, if_neg valid]) fun allowed => valid (represents.closed_iff.mp allowed)

/-- A call that needs an open inode is refused without one. -/
theorem refused (represents : session.Represents files root rootBytes own shared nodes) (call : InodeCall)
    (sector : BlockSector) (valid : Bool) {use : Pointer → Option (InodeReply × Session)}
    (allows : files.Allows call → (∃ bytes, files sector = some ⟨bytes, true⟩) ∧ valid = true) :
    (∃ pointer, session.handles sector = some (some pointer) ∧ valid = true ∧
      session.onHandle sector valid use = use pointer) ∨
    ¬ files.Allows call ∧ session.onHandle sector valid use = some (.refused, session) := by
  rcases held : session.handles sector with _ | _ | pointer
  · refine .inr ⟨fun allowed => ?_, by rw [onHandle, held]⟩
    obtain ⟨pointer, same⟩ := represents.open_iff.mp (allows allowed).1
    rw [held] at same
    cases same
  · refine .inr ⟨fun allowed => ?_, by rw [onHandle, held]⟩
    obtain ⟨pointer, same⟩ := represents.open_iff.mp (allows allowed).1
    rw [held] at same
    cases same
  · cases valid with
    | true => exact .inl ⟨pointer, rfl, rfl, by rw [onHandle, held]; rfl⟩
    | false =>
        refine .inr ⟨fun allowed => ?_, by rw [onHandle, held]; rfl⟩
        cases (allows allowed).2

theorem readAt (represents : session.Represents files root rootBytes own shared nodes) (sector : BlockSector)
    (size offset : Int) : session.Simulated root rootBytes shared files own nodes (.readAt sector size offset) := by
  rcases represents.refused (.readAt sector size offset) sector
    (isOffset size && isOffset offset && 0 ≤ offset) (fun allowed => ⟨allowed.1, by
    simp [allowed.2.1, allowed.2.2.1, allowed.2.2.2]⟩) with ⟨pointer, held, valid, ran⟩ | ⟨illegal, ran⟩
  · obtain ⟨data, bytes, present, here, tail, same, opened⟩ := represents.of_open held
    simp only [Bool.and_eq_true, decide_eq_true_eq] at valid
    have inside : offset.toNat < 2147483648 := by
      have := valid.1.2
      simp [isOffset] at this
      omega
    have read := represents.volume.inodeReadAt opened size inside
    rw [show ((offset.toNat : Nat) : Int) = offset from by omega, same] at read
    refine ⟨_, session, files, own, nodes, sector, own, ?_,
      .bytes ⟨⟨bytes, present⟩, valid.1.1, valid.1.2, valid.2⟩ present, represents,
      .memory represents.volume rfl rfl fun _ _ => rfl, .inr rfl⟩
    rw [perform, ran, read]
    rfl
  · exact represents.simulated_refused ran illegal

/-- The arguments of a write that is made. -/
theorem writeAt_run (represents : session.Represents files root rootBytes own shared nodes)
    (held : session.handles sector = some (some pointer)) (notZero : sector ≠ 0) (buffer : Nat → UInt8) {size offset : Int}
    (valid : (isOffset size && isOffset offset && decide (0 ≤ offset) && decide (1 ≤ size)) = true) :
    ∃ data dataAfter next after, Opened session.world sector pointer data ∧ Opened next sector pointer dataAfter ∧
      OpenSame sector session.world next ∧
      InodeStep shared sector own after nodes (Function.update nodes sector (some dataAfter)) session.world next ∧
      (run (inodeWriteAt pointer buffer size offset) session.world = some (size, next) ∧
          Stores own after sector data dataAfter buffer size.toNat offset.toNat session.world next ∨
        run (inodeWriteAt pointer buffer size offset) session.world = some (0, next) ∧
          Keeps data dataAfter size.toNat offset.toNat session.world next) := by
  obtain ⟨data, bytes, present, here, tail, same, opened⟩ := represents.of_open held
  simp only [isOffset, Bool.and_eq_true, decide_eq_true_eq] at valid
  obtain ⟨dataAfter, next, after, step, mem, _, result⟩ := represents.volume.inodeWriteAt opened notZero buffer
    (by omega : 0 < size.toNat) (by omega) (by omega : offset.toNat < 2147483648)
  rw [show ((offset.toNat : Nat) : Int) = offset from by omega, show ((size.toNat : Nat) : Int) = size from by omega]
    at result
  obtain ⟨sameOpen, openedAfter⟩ := opened.write mem
  exact ⟨data, dataAfter, next, after, opened, openedAfter, sameOpen, step, result⟩

/-- A write inside an open file stores all its bytes. -/
theorem writeAt_inside (represents : session.Represents files root rootBytes own shared nodes) {bytes : List UInt8}
    (present : files sector = some ⟨bytes, true⟩) (buffer : Nat → UInt8) {size offset : Nat} (positive : 0 < size)
    (inside : offset + size ≤ bytes.length) :
    ∃ next, session.perform (.writeAt sector buffer size offset) = some (.wrote size, { session with world := next }) := by
  obtain ⟨pointer, held⟩ := represents.open_iff.mp ⟨bytes, present⟩
  obtain ⟨notZero, notRoot⟩ := represents.ne_of_handle held
  obtain ⟨data, bytes', present', here, tail, same, opened⟩ := represents.of_open held
  rw [present, Option.some.injEq, ByteFile.mk.injEq] at present'
  obtain ⟨rfl, _⟩ := present'
  have node := represents.volume.node sector data here
  have high := node.high
  have maximum : maxBlocks = 16635 := rfl
  have length : bytes.length = data.length.toNat := by rw [← same, fileBytes, length_bytesAt]
  have fits : ((offset + size : Nat) : Int) ≤ data.length := by omega
  obtain ⟨disk, ran, _⟩ := represents.volume.write_inPlace opened notZero buffer positive fits
  have valid : (isOffset size && isOffset offset && decide ((0 : Int) ≤ offset) && decide ((1 : Int) ≤ size)) = true := by
    simp [isOffset]
    omega
  refine ⟨⟨session.world.mem, disk⟩, ?_⟩
  rw [perform, onHandle, held]
  dsimp only
  rw [if_pos valid, ran]
  rfl

theorem writeAt (represents : session.Represents files root rootBytes own shared nodes) (sector : BlockSector)
    (buffer : Nat → UInt8) (size offset : Int) :
    session.Simulated root rootBytes shared files own nodes (.writeAt sector buffer size offset) := by
  rcases represents.refused (.writeAt sector buffer size offset) sector
    (isOffset size && isOffset offset && 0 ≤ offset && 1 ≤ size) (fun allowed => ⟨allowed.1, by
    simp [allowed.2.1, allowed.2.2.1, allowed.2.2.2.1, allowed.2.2.2.2]⟩) with ⟨pointer, held, valid, ran⟩ | ⟨illegal, ran⟩
  · obtain ⟨notZero, notRoot⟩ := represents.ne_of_handle held
    obtain ⟨before, bytes, present, here, tail, same, openedBefore⟩ := represents.of_open held
    obtain ⟨data, dataAfter, next, after, opened, openedAfter, sameOpen, step, result⟩ :=
      represents.writeAt_run held notZero buffer valid
    obtain rfl : before = data := by
      have object := openedBefore.object
      rw [opened.object, Option.some.injEq, Inode.live_inj] at object
      exact object.2.symm
    simp only [Bool.and_eq_true, decide_eq_true_eq] at valid
    have allowed : files.Allows (.writeAt sector buffer size offset) :=
      ⟨⟨bytes, present⟩, valid.1.1.1, valid.1.1.2, valid.1.2, valid.2⟩
    have nodeAfter : Function.update nodes sector (some dataAfter) sector = some dataAfter := Function.update_self _ _ _
    rcases result with ⟨wrote, stores⟩ | ⟨wrote, keeps⟩
    · obtain ⟨tailAfter, bytesAfter⟩ := stores.bytes tail
      refine ⟨_, _, _, _, _, sector, _, ?_, .wrote allowed present,
        represents.stepFile step sameOpen notZero notRoot ?_, step, .inr rfl⟩
      · rw [perform, ran, wrote]
        rfl
      · rw [held]
        exact ⟨dataAfter, nodeAfter, tailAfter, by rw [bytesAfter, same], rfl, openedAfter⟩
    · obtain ⟨tailAfter, bytesAfter⟩ := keeps.bytes tail
      refine ⟨_, _, _, _, _, sector, _, ?_, .notWritten allowed,
        represents.stepSame step sameOpen notZero notRoot ?_, step, .inr rfl⟩
      · rw [perform, ran, wrote]
        rfl
      · rw [held, present]
        exact ⟨dataAfter, nodeAfter, tailAfter, by rw [bytesAfter, same], rfl, openedAfter⟩
  · exact represents.simulated_refused ran illegal

theorem close (represents : session.Represents files root rootBytes own shared nodes) (sector : BlockSector) :
    session.Simulated root rootBytes shared files own nodes (.close sector) := by
  rcases represents.refused (.close sector) sector true (fun allowed => ⟨allowed, rfl⟩) with
    ⟨pointer, held, _, ran⟩ | ⟨illegal, ran⟩
  · obtain ⟨notZero, notRoot⟩ := represents.ne_of_handle held
    obtain ⟨data, bytes, present, here, tail, same, opened⟩ := represents.of_open held
    have node := represents.volume.node sector data here
    obtain ⟨closes, volume⟩ := represents.volume.inodeClose opened notZero
    have holds : HoldsFile (Function.update nodes sector (some (.ofSector (session.world.disk sector))))
        ⟨session.world.mem.closeInode pointer, session.world.disk⟩ sector (some ⟨bytes, false⟩) (some none) := by
      refine ⟨_, Function.update_self _ _ _, node.tailZero_reload notZero tail, ?_, rfl,
        closed_closeInode represents.volume.table opened rfl rfl⟩
      rw [← same]
      exact node.fileBytes_reload notZero
    have step : InodeStep shared sector own own nodes
        (Function.update nodes sector (some (.ofSector (session.world.disk sector)))) session.world
        ⟨session.world.mem.closeInode pointer, session.world.disk⟩ :=
      .memory volume rfl rfl fun number different => Function.update_of_ne different _ _
    refine ⟨_, _, _, _, _, sector, _, ?_, .closed present, represents.step step
      (.closeInode represents.volume.table opened rfl rfl) notZero notRoot holds, step, .inr rfl⟩
    rw [perform, ran, closes]
    rfl
  · exact represents.simulated_refused ran illegal

theorem remove (represents : session.Represents files root rootBytes own shared nodes) (sector : BlockSector) :
    session.Simulated root rootBytes shared files own nodes (.remove sector) := by
  rcases represents.refused (.remove sector) sector true (fun allowed => ⟨allowed, rfl⟩) with
    ⟨pointer, held, _, ran⟩ | ⟨illegal, ran⟩
  · obtain ⟨notZero, notRoot⟩ := represents.ne_of_handle held
    obtain ⟨data, bytes, present, here, tail, same, opened⟩ := represents.of_open held
    obtain ⟨next, sectors, removes, mem, step, _⟩ := represents.volume.inodeRemove opened notZero
    have absent : HoldsFile (Function.update nodes sector none) next sector none none := Function.update_self _ _ _
    refine ⟨_, _, _, _, _, sector, _, ?_, .removed present, represents.step step
      (.closeInode represents.volume.table opened (by rw [mem]; rfl) (by rw [mem]; rfl)) notZero notRoot absent, step,
      .inr rfl⟩
    rw [perform, ran, removes]
    rfl
  · exact represents.simulated_refused ran illegal

/-- The bytes of the files are those of the inodes. -/
theorem inodeBytes (represents : session.Represents files root rootBytes own shared nodes) {file : ByteFile}
    (present : files sector = some file) : session.world.inodeBytes sector = file.bytes := by
  have notZero : sector ≠ 0 := by
    rintro rfl
    rw [(represents.reserved 0 (.inl rfl)).1] at present
    cases present
  have notRoot : sector ≠ 1 := by
    rintro rfl
    rw [(represents.reserved 1 (.inr rfl)).1] at present
    cases present
  have holds := represents.holds sector notZero notRoot
  rw [present] at holds
  cases handle : session.handles sector with
  | none =>
      rw [handle] at holds
      exact holds.elim
  | some handle' =>
      rw [handle] at holds
      obtain ⟨data, here, _, bytes, _⟩ := holds
      rw [World.inodeBytes, represents.volume.inodeData_eq here, bytes]

theorem rootBytes_eq (represents : session.Represents files root rootBytes own shared nodes) :
    session.world.inodeBytes 1 = rootBytes := by
  rw [World.inodeBytes, represents.volume.inodeData_eq represents.root.1, represents.root.2]

/-- Each call has a result that the map allows. -/
theorem perform (represents : session.Represents files root rootBytes own shared nodes) (call : InodeCall) :
    session.Simulated root rootBytes shared files own nodes call := by
  cases call with
  | create length => exact represents.create length
  | openInode sector => exact represents.openInode sector
  | readAt sector size offset => exact represents.readAt sector size offset
  | writeAt sector buffer size offset => exact represents.writeAt sector buffer size offset
  | close sector => exact represents.close sector
  | remove sector => exact represents.remove sector

theorem performAll (calls : List InodeCall) :
    ∀ {session : Session} {files : ByteFiles} {own : Owners} {nodes : Nodes},
      session.Represents files root rootBytes own shared nodes →
      ∃ replies session' files' own' nodes', session.performAll calls = some (replies, session') ∧
        files.Run calls replies files' ∧ session'.Represents files' root rootBytes own' shared nodes' := by
  induction calls with
  | nil =>
      intro session files own nodes represents
      exact ⟨[], session, files, own, nodes, rfl, .nil, represents⟩
  | cons call rest ih =>
      intro session files own nodes represents
      obtain ⟨reply, middle, filesMiddle, ownMiddle, nodesMiddle, _, _, ran, step, represents', _⟩ := represents.perform call
      obtain ⟨replies, last, filesLast, ownLast, nodesLast, ranRest, runRest, representsLast⟩ := ih represents'
      exact ⟨reply :: replies, last, filesLast, ownLast, nodesLast, Session.performAll_cons ran ranRest,
        .cons step runRest, representsLast⟩

end Session.Represents

/-- After a format no inode but those of the free map and of the root directory is there. -/
theorem Fresh.represents {deviceSize : UInt32} (fresh : Fresh own shared nodes deviceSize world) :
    ∃ root, (Session.start world).Represents (fun _ => none) root (world.inodeBytes 1) (own.trim nodes world.disk) shared nodes := by
  obtain ⟨pointer, freeMap, root, _, nodesEq, _⟩ := fresh.nodes
  have present : nodes 1 = some root := by
    rw [nodesEq]
    exact Function.update_self _ _ _
  refine ⟨root, fresh.volume.trim, own.trim_live nodes world.disk, ⟨present, ?_⟩, fun _ _ => ⟨rfl, rfl⟩, fun sector notZero notRoot => ?_⟩
  · rw [World.inodeBytes, fresh.volume.inodeData_eq present]
    rfl
  · change nodes sector = none
    rw [nodesEq, Function.update_of_ne notRoot, Function.update_of_ne notZero]

/-- On a freshly formatted device every sequence of calls of the inode layer has the results of a map from inodes to
growable arrays of bytes. -/
theorem inodeCalls_refine_byteFiles {deviceSize : UInt32} {garbage : Nat → UInt8} {disk : BlockSector → Sector}
    (fits : FormatFits deviceSize) (formatted : run (filesysInit true) ⟨.boot deviceSize garbage, disk⟩ = some ((), world))
    (calls : List InodeCall) :
    ∃ replies session files, (Session.start world).performAll calls = some (replies, session) ∧
      ByteFiles.Run (fun _ => none) calls replies files ∧
      (∀ sector file, files sector = some file → session.world.inodeBytes sector = file.bytes) ∧
      session.world.inodeBytes 1 = world.inodeBytes 1 := by
  obtain ⟨start, own, shared, nodes, ran, fresh⟩ := filesysInit_format garbage disk fits
  rw [formatted, Option.some.injEq, Prod.mk.injEq] at ran
  obtain rfl := ran.2
  obtain ⟨root, represents⟩ := fresh.represents
  obtain ⟨replies, session, files, _, _, performed, allowed, final⟩ := Session.Represents.performAll calls represents
  exact ⟨replies, session, files, performed, allowed, fun _ _ => final.inodeBytes, final.rootBytes_eq⟩

/-- A device of 300 sectors can be formatted. -/
theorem formatFits_small : FormatFits 300 := by
  constructor <;> decide

/-- On a device of 300 sectors there is room for a file of two blocks. -/
theorem create_small : ∃ world root rootBytes own shared nodes sector next,
    run (filesysInit true) ⟨.boot 300 fun _ => 0, fun _ => zeros⟩ = some ((), world) ∧
      (Session.start world).Represents (fun _ => none) root rootBytes own shared nodes ∧
      (Session.start world).perform (.create 600) =
        some (.created (some sector), (Session.start world).setHandle sector (some none) next) := by
  obtain ⟨world, own, shared, nodes, formatted, fresh⟩ :=
    filesysInit_format (fun _ => 0) (fun _ => zeros) formatFits_small
  obtain ⟨root, represents⟩ := fresh.represents
  have room : 3 ≤ world.free := by
    have free := fresh.free
    have places : mapBits 300 = 299 ∧ (inodePlaces (blocksOf (Bitmap.byteCnt (mapBits 300)))).length = 1 ∧
      (inodePlaces (blocksOf 36000)).length = 71 := by decide
    omega
  have blocks : (inodePlaces (blocksOf 600)).length = 2 := by decide
  have maximum : maxBlocks = 16635 := rfl
  rcases represents.volume.createInode represents.live (by decide : (600 : Int) < 2147483648) with
    ⟨_, _, _, _, _, _, _, negative | large | full⟩ | ⟨sector, data, next, _, ran, _⟩
  · omega
  · omega
  · have free : (Session.start world).world.free = world.free := rfl
    omega
  · refine ⟨world, root, _, _, shared, nodes, sector, next, formatted, represents, ?_⟩
    simp only [Session.perform, ran, if_pos (show isOffset 600 = true by decide), Option.map_some]

/-- On a device of 300 sectors a file of two blocks is created, opened and written. -/
theorem write_small : ∃ world root rootBytes own shared nodes files sector created opened written,
    run (filesysInit true) ⟨.boot 300 fun _ => 0, fun _ => zeros⟩ = some ((), world) ∧
      (Session.start world).perform (.create 600) = some (.created (some sector), created) ∧
      created.perform (.openInode sector) = some (.opened, opened) ∧
      opened.world.mem.freeMap = created.world.mem.freeMap ∧
      opened.perform (.writeAt sector (fun _ => 7) 3 100) = some (.wrote 3, written) ∧
      written.Represents files root rootBytes own shared nodes ∧
      files sector = some ⟨overwrite (List.replicate 600 0) 100 3 fun _ => 7, true⟩ := by
  obtain ⟨world, root, rootBytes, own, shared, nodes, sector, next, formatted, represents, creates⟩ := create_small
  obtain ⟨_, created, files₁, _, _, _, _, again, step₁, represents₁, _⟩ := represents.perform (.create 600)
  rw [creates, Option.some.injEq, Prod.mk.injEq] at again
  obtain ⟨rfl, rfl⟩ := again
  have present₁ : files₁ sector = some ⟨List.replicate 600 0, false⟩ := by
    cases step₁
    exact Function.update_self _ _ _
  have held := represents₁.closed_iff.mp ⟨_, present₁⟩
  obtain ⟨_, _, _, here, _, _, _, closed⟩ := represents₁.of_handle held
  obtain ⟨opens, _, _⟩ := represents₁.volume.inodeOpen_closed here closed
  obtain ⟨opened, performed, map⟩ : ∃ opened,
      ((Session.start world).setHandle sector (some none) next).perform (.openInode sector) = some (.opened, opened) ∧
        opened.world.mem.freeMap = next.mem.freeMap :=
    ⟨_, by simp only [Session.perform, if_pos held, opens, Option.map_some]; rfl, rfl⟩
  obtain ⟨_, _, files₂, _, _, _, _, again, step₂, represents₂, _⟩ := represents₁.perform (.openInode sector)
  rw [performed, Option.some.injEq, Prod.mk.injEq] at again
  obtain ⟨rfl, rfl⟩ := again
  have present₂ : files₂ sector = some ⟨List.replicate 600 0, true⟩ := by
    cases step₂ with
    | opened before =>
        rw [present₁, Option.some.injEq, ByteFile.mk.injEq] at before
        rw [Function.update_self, before.1]
  have inside : 100 + 3 ≤ (List.replicate 600 (0 : UInt8)).length := by
    rw [List.length_replicate]
    omega
  obtain ⟨written, writes⟩ := represents₂.writeAt_inside present₂ (fun _ => 7) (by decide : 0 < 3) inside
  obtain ⟨_, _, files₃, own', nodes', _, _, again, step₃, represents₃, _⟩ :=
    represents₂.perform (.writeAt sector (fun _ => 7) (3 : Nat) (100 : Nat))
  rw [writes, Option.some.injEq, Prod.mk.injEq] at again
  obtain ⟨rfl, rfl⟩ := again
  have present₃ : files₃ sector = some ⟨overwrite (List.replicate 600 0) 100 3 fun _ => 7, true⟩ := by
    cases step₃ with
    | wrote _ before =>
        rw [present₂, Option.some.injEq, ByteFile.mk.injEq] at before
        rw [Function.update_self, ← before.1]
        rfl
  exact ⟨world, root, rootBytes, own', shared, nodes', files₃, sector, _, _, _, formatted, creates, performed, map,
    writes, represents₃, present₃⟩

theorem inodeCalls_refine_byteFiles_small : ∃ world sector replies session files,
    run (filesysInit true) ⟨.boot 300 fun _ => 0, fun _ => zeros⟩ = some ((), world) ∧
      replies = [.created (some sector), .opened, .wrote 3, .bytes [0, 0, 7, 7, 7, 0], .closed] ∧
      (Session.start world).performAll [.create 600, .openInode sector, .writeAt sector (fun _ => 7) 3 100,
        .readAt sector 6 98, .close sector] = some (replies, session) ∧
      ByteFiles.Run (fun _ => none) [.create 600, .openInode sector, .writeAt sector (fun _ => 7) 3 100,
        .readAt sector 6 98, .close sector] replies files ∧
      (∀ sector file, files sector = some file → session.world.inodeBytes sector = file.bytes) ∧
      session.world.inodeBytes 1 = world.inodeBytes 1 := by
  obtain ⟨world, _, _, _, _, _, files, sector, created, opened, written, formatted, creates, opens, _, writes,
    represents, present⟩ := write_small
  obtain ⟨reply, read, files', _, _, _, _, reads, step, representsRead, _⟩ := represents.perform (.readAt sector 6 98)
  have content : reply = .bytes [0, 0, 7, 7, 7, 0] ∧ files' = files := by
    cases step with
    | refused illegal => exact absurd ⟨⟨_, present⟩, by decide, by decide, by decide⟩ illegal
    | bytes _ before =>
        rw [present, Option.some.injEq, ByteFile.mk.injEq] at before
        rw [← before.1]
        exact ⟨by decide +kernel, rfl⟩
  obtain ⟨rfl, rfl⟩ := content
  obtain ⟨reply, closed, _, _, _, _, _, closes, step, _⟩ := representsRead.perform (.close sector)
  obtain rfl : reply = .closed := by
    cases step with
    | refused illegal => exact absurd ⟨_, present⟩ illegal
    | closed _ => rfl
  have performed := Session.performAll_cons creates (Session.performAll_cons opens (Session.performAll_cons writes
    (Session.performAll_cons reads (Session.performAll_cons closes (rfl : closed.performAll [] = some ([], closed))))))
  obtain ⟨replies, session, files, ran, allowed, bytes, same⟩ :=
    inodeCalls_refine_byteFiles formatFits_small formatted [.create 600, .openInode sector,
      .writeAt sector (fun _ => 7) 3 100, .readAt sector 6 98, .close sector]
  have replied := congrArg (Option.map Prod.fst) (ran.symm.trans performed)
  simp only [Option.map_some, Option.some.injEq] at replied
  exact ⟨world, sector, replies, session, files, formatted, replied, ran, allowed, bytes, same⟩

end MockOS.Fs
