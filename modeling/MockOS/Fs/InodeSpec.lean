import MockOS.Fs.OpenInodes

namespace MockOS.Fs

variable {shared : BlockSector → Prop} {own after : Owners} {world next : World} {nodes nodesAfter : Nodes}
  {sector inode : BlockSector} {pointer : Pointer} {data dataAfter : InodeDisk}

/-- A step on one inode keeps the volume and leaves the other inodes. -/
structure InodeStep (shared : BlockSector → Prop) (inode : BlockSector) (own after : Owners) (nodes nodesAfter : Nodes)
    (world next : World) : Prop where
  volume : Volume after shared nodesAfter next
  touches : Touches own shared inode world.disk next.disk
  kept : ∀ sector number part, own sector = some (number, part) → number ≠ inode → after sector = some (number, part)
  others : ∀ number, number ≠ inode → nodesAfter number = nodes number
  failures : world.mem.allocationFailures ≤ next.mem.allocationFailures
  /-- Sector 0 is only overwritten when an allocation fails. -/
  zero : next.mem.allocationFailures = world.mem.allocationFailures → next.disk 0 = world.disk 0

/-- The parts of the volume that a step on one inode must establish again. -/
theorem Volume.step (volume : Volume own shared nodes world) (sound : after.Sound next) (ready : Ready after shared next)
    (touches : Touches own shared inode world.disk next.disk)
    (kept : ∀ sector number part, own sector = some (number, part) → number ≠ inode →
      after sector = some (number, part))
    (nonzero : inode ≠ 0)
    (mem : next.mem = { world.mem with
      freeMap := next.mem.freeMap, allocationFailures := next.mem.allocationFailures, inodes := next.mem.inodes })
    (objects : ∀ pointer number data, Opened world number pointer data → number ≠ inode →
      next.mem.inodes pointer = some (.live number data))
    (here : ∀ pointer data, Opened world inode pointer data → ∃ dataAfter,
      next.mem.inodes pointer = some (.live inode dataAfter) ∧ nodesAfter inode = some dataAfter)
    (fresh : ∀ pointer, world.mem.nextPointer ≤ pointer → next.mem.inodes pointer = none)
    (others : ∀ number, number ≠ inode → nodesAfter number = nodes number)
    (node : ∀ data, nodesAfter inode = some data → Node after next.disk inode data)
    (stored : world.closed inode → ∀ data, nodesAfter inode = some data →
      InodeDisk.ofSector (next.disk inode) = data)
    (failures : world.mem.allocationFailures ≤ next.mem.allocationFailures)
    (zero : next.mem.allocationFailures = world.mem.allocationFailures → next.disk 0 = world.disk 0) :
    InodeStep shared inode own after nodes nodesAfter world next := by
  have openSame : next.mem.openInodes = world.mem.openInodes := by rw [mem]
  refine ⟨⟨sound, ?_, ?_, ?_⟩, touches, kept, others, failures, zero⟩
  · refine volume.freeMap.step ready (by rw [mem]) (fun _ _ => by rw [mem]) fun pointer data opened => ?_
    exact ⟨openSame ▸ opened.member, objects pointer 0 data opened nonzero.symm⟩
  · intro number data present
    by_cases same : number = inode
    · subst same
      exact node data present
    · rw [others number same] at present
      exact (volume.node number data present).other touches volume.sound volume.freeMap same kept
  · refine volume.table.step openSame objects here ?_ others ?_ stored
    · intro pointer above
      have above : world.mem.nextPointer ≤ pointer := by rwa [mem] at above
      obtain ⟨_, noFile, noDir⟩ := volume.table.fresh pointer above
      refine ⟨fresh pointer above, ?_, ?_⟩
      · rw [mem]
        exact noFile
      · rw [mem]
        exact noDir
    · intro number data different present closed
      exact touches.data_eq volume.sound volume.freeMap different (volume.ne_zero_of_closed closed)
        (volume.node number data present).self

namespace InodeStep

variable (step : InodeStep shared inode own after nodes nodesAfter world next)

include step

theorem fileBytes (volume : Volume own shared nodes world) {number : BlockSector} (different : number ≠ inode)
    (nonzero : number ≠ 0) (present : nodes number = some data) :
    fileBytes next.disk data = MockOS.Fs.fileBytes world.disk data :=
  (volume.node number data present).fileBytes_other step.touches volume.sound volume.freeMap different nonzero

theorem tailZero (volume : Volume own shared nodes world) {number : BlockSector} (different : number ≠ inode)
    (nonzero : number ≠ 0) (present : nodes number = some data) (tail : TailZero world.disk data) :
    TailZero next.disk data :=
  (volume.node number data present).tailZero_other step.touches volume.sound volume.freeMap different nonzero tail

end InodeStep

theorem Volume.own_zero (volume : Volume own shared nodes world) : own 0 = some (0, none) := by
  obtain ⟨pointer, data, opened⟩ := volume.zero_opened
  exact (volume.node 0 data (volume.table.node opened)).self

/-- Sector 0 holds no data of the free map file. -/
theorem Volume.not_shared_zero (volume : Volume own shared nodes world) : ¬ shared 0 := by
  intro inFile
  obtain ⟨block, _, owned⟩ := volume.freeMap.shared_owned inFile
  rw [volume.own_zero] at owned
  cases owned

/-- A free sector is taken for a new inode. -/
theorem Volume.freeMapAllocate (volume : Volume own shared nodes world) :
    (world.free = 0 ∧ run (freeMapAllocate 1) world = some (none, world.failed) ∧
      Volume own shared nodes world.failed) ∨
    ∃ sector disk, world.free ≠ 0 ∧ run (freeMapAllocate 1) world =
        some (some sector, ⟨(world.mark sector true).mem, disk⟩) ∧
      ¬ world.used sector ∧ own sector = none ∧ sector ≠ 0 ∧ sector.toNat < world.limit ∧
      (∀ other, disk other ≠ world.disk other → shared other) ∧
      InodeStep shared sector own (Function.update own sector (some (sector, none))) nodes nodes world
        ⟨(world.mark sector true).mem, disk⟩ := by
  by_cases full : world.free = 0
  · refine .inl ⟨full, freeMapAllocateBy_full full _, ?_⟩
    refine volume.memory rfl rfl rfl (fun _ _ => rfl) (fun _ _ opened => ⟨opened.member, opened.object⟩) volume.node ?_
    exact ⟨volume.table.opened, volume.table.nodup, volume.table.distinct, volume.table.closed, volume.table.fresh⟩
  · obtain ⟨sector, disk, ran, unused, inside, frame, ready⟩ :=
      freeMapAllocateBy_spec volume.sound volume.ready full 1
    have nonzero : sector ≠ 0 := by
      rintro rfl
      exact unused volume.sound.reserved
    have unowned : own sector = none := by
      by_contra owned
      exact unused (volume.sound.used sector owned).1
    have absent : nodes sector = none := by
      cases present : nodes sector with
      | none => rfl
      | some data =>
          have owned := (volume.node sector data present).self
          rw [unowned] at owned
          cases owned
    have extended : ∀ other owner, own other = some owner →
        Function.update own sector (some (sector, none)) other = some owner := by
      intro other owner owned
      rw [Function.update_of_ne _ _, owned]
      rintro rfl
      rw [unowned] at owned
      cases owned
    have sound : Owners.Sound (Function.update own sector (some (sector, none))) (world.mark sector true) := by
      have marked := volume.sound.mark_true sector
      constructor
      · intro other owned
        by_cases same : other = sector
        · subst same
          exact ⟨by rw [World.mark_used, if_pos rfl], inside⟩
        · rw [Function.update_of_ne same] at owned
          exact marked.used other owned
      · intro number place
        rw [Function.update_of_ne nonzero.symm]
        exact marked.zero number place
      · intro other number owned
        by_cases same : other = sector
        · subst same
          rw [Function.update_self, Option.some.injEq, Prod.mk.injEq] at owned
          exact owned.1.symm
        · rw [Function.update_of_ne same] at owned
          exact marked.self other number owned
      · exact marked.reserved
      · exact marked.small
    refine .inr ⟨sector, disk, full, ran, unused, unowned, nonzero, inside, frame, ?_⟩
    refine volume.step (sound.congr rfl fun _ _ used => used) (ready.extend extended) (fun other changed => .inl (frame other changed))
      (fun other number part owned _ => extended other _ owned) nonzero rfl (fun _ _ _ opened _ => opened.object) ?_
      (fun pointer above => (volume.table.fresh pointer above).1) (fun _ _ => rfl) ?_ ?_ (Nat.le_refl _)
      (fun _ => not_not.mp fun changed => volume.not_shared_zero (frame 0 changed))
    · intro pointer data opened
      have present := volume.table.node opened
      rw [absent] at present
      cases present
    · intro data present
      rw [absent] at present
      cases present
    · intro _ data present
      rw [absent] at present
      cases present

/-- The length fits in the blocks of an inode. -/
theorem blocks_fit {length : Int} (low : 0 ≤ length) (high : length < 2147483648) :
    bytesToSectors length ≤ maxBlocks ↔ length ≤ 512 * maxBlocks := by
  have maximum : maxBlocks = 16635 := rfl
  by_cases small : length ≤ 2147483136
  · rw [bytesToSectors_of_range low small]
    omega
  · have wrapped : wrap32 (length + 511) = length + 511 - 4294967296 := by
      unfold wrap32
      omega
    have negative : (length + 511 - 4294967296).tdiv 512 = -((4294967296 - 511 - length) / 512) := by
      rw [show length + 511 - 4294967296 = -(4294967296 - 511 - length) from by omega, Int.neg_tdiv,
        Int.tdiv_eq_ediv_of_nonneg (by omega)]
    rw [bytesToSectors, wrapped, negative]
    omega

theorem bytesToSectors_eq {length : Int} (low : 0 ≤ length) (fits : length ≤ 512 * maxBlocks) :
    bytesToSectors length = blocksOf length := by
  have maximum : maxBlocks = 16635 := rfl
  rw [bytesToSectors_of_range low (by omega), blocksOf]
  omega

/-- The inode that `inode_create` starts from. -/
def emptyInode (length : Int) (isDir : Bool) : InodeDisk := ⟨fun _ => 0, 0, 0, isDir, length, inodeMagic⟩

@[simp] theorem sectorAt_emptyInode (store : BlockSector → Sector) (length : Int) (isDir : Bool) (place : Place) :
    sectorAt store (emptyInode length isDir) place = 0 := by
  have entry : (emptyInode length isDir).entry place.1 = 0 := by
    unfold InodeDisk.entry
    split_ifs <;> rfl
  rw [sectorAt, entry]
  exact indexTree.follow_null store place.2

theorem emptyInode_owned (own : Owners) (store : BlockSector → Sector) (length : Int) (isDir : Bool) :
    InodeOwned own store inode (emptyInode length isDir) := by
  intro place _ present
  rw [sectorAt_emptyInode] at present
  exact absurd rfl present

/-- All blocks of a new inode are missing. -/
theorem length_inodeDemand_emptyInode (store : BlockSector → Sector) (length : Int) (isDir : Bool) (blocks : Nat) :
    (inodeDemand store (emptyInode length isDir) blocks).length = (inodePlaces blocks).length := by
  simp [inodeDemand]

/-- A data block of an extended inode is an old one or a cleared one. -/
theorem InodeGrown.block {needed : Place → Prop} {success : Bool} {store final : BlockSector → Sector}
    (grown : InodeGrown own inode needed success store final data dataAfter) (block : Nat)
    (present : sectorAt final dataAfter (blockPlace block) ≠ 0) :
    sectorAt store data (blockPlace block) ≠ 0 ∧
        sectorAt final dataAfter (blockPlace block) = sectorAt store data (blockPlace block) ∧
        final (sectorAt final dataAfter (blockPlace block)) = store (sectorAt store data (blockPlace block)) ∨
      sectorAt store data (blockPlace block) = 0 ∧ final (sectorAt final dataAfter (blockPlace block)) = zeros := by
  by_cases before : sectorAt store data (blockPlace block) = 0
  · exact .inr ⟨before, (grown.added (blockPlace_within block) before present).2 (blockPlace_isLeaf block)⟩
  · have same := grown.kept (blockPlace_within block) before
    refine .inl ⟨before, same, ?_⟩
    rw [same, grown.unchanged (blockPlace_isLeaf block) before]

/-- What an extension touches. -/
theorem Effect.touches {mine : Place → Prop} {demand : List Bool} {success : Bool}
    (effect : Effect shared inode mine own after demand world next success) (sound : own.Sound world) :
    Touches own shared inode world.disk next.disk := by
  intro sector changed
  rcases effect.frame sector changed with inFile | ⟨unused, _⟩ | ⟨place, owned, _⟩ | ⟨zero, _⟩
  · exact .inl inFile
  · refine .inr (.inl ?_)
    by_contra owned
    exact unused (sound.used sector owned).1
  · exact .inr (.inr (.inl ⟨some place, owned⟩))
  · exact .inr (.inr (.inr zero))

theorem Effect.failures_le {mine : Place → Prop} {demand : List Bool} {success : Bool}
    (effect : Effect shared inode mine own after demand world next success) :
    world.mem.allocationFailures ≤ next.mem.allocationFailures := by
  have failures := effect.failures
  cases success with
  | true => exact Nat.le_of_eq failures.symm
  | false => exact Nat.le_of_lt failures

/-- An extension without a failed allocation leaves sector 0. -/
theorem Effect.zero_kept {mine : Place → Prop} {demand : List Bool} {success : Bool}
    (effect : Effect shared inode mine own after demand world next success) (volume : Volume own shared nodes world)
    (same : next.mem.allocationFailures = world.mem.allocationFailures) : next.disk 0 = world.disk 0 := by
  have failures := effect.failures
  cases success with
  | false =>
      rw [same] at failures
      exact absurd failures (Nat.lt_irrefl _)
  | true =>
      by_contra changed
      have enough : demand.length ≤ world.free := of_decide_eq_true effect.outcome.symm
      rcases effect.frame 0 changed with inFile | ⟨unused, _⟩ | ⟨place, owned, _⟩ | ⟨_, flag⟩
      · exact volume.not_shared_zero inFile
      · exact unused volume.sound.reserved
      · exact volume.sound.zero inode place owned
      · rw [List.getElem?_eq_none enough] at flag
        cases flag

/-- A write to a sector of the inode is one more touch. -/
theorem Touches.write {store final : BlockSector → Sector} (touches : Touches own shared inode store final)
    {part : Option Place} (owned : own sector = some (inode, part)) (block : Sector) :
    Touches own shared inode store (Function.update final sector block) := by
  intro other changed
  by_cases same : other = sector
  · exact .inr (.inr (.inl ⟨part, same ▸ owned⟩))
  · rw [Function.update_of_ne same] at changed
    exact touches other changed

/-- The blocks that an inode owns are just those in its tree. -/
def Exact (own : Owners) (store : BlockSector → Sector) (inode : BlockSector) (data : InodeDisk) : Prop :=
  ∀ sector place, own sector = some (inode, some place) → place.within ∧ sectorAt store data place = sector

/-- A successful extension takes just the sectors that it puts in the tree. -/
theorem Effect.exact {blocks : Nat} {middle : World}
    (effect : Effect shared sector (fun _ => True) own after (inodeDemand world.disk data blocks) world middle true)
    (sound : own.Sound world)
    (grown : InodeGrown after sector (· ∈ inodePlaces blocks) true world.disk middle.disk data dataAfter)
    (exact : Exact own world.disk sector data) :
    Exact after middle.disk sector dataAfter ∧ ∀ other : BlockSector, other.toNat < world.limit → middle.used other →
      world.used other ∨ ∃ place ∈ inodePlaces blocks, other = sectorAt middle.disk dataAfter place := by
  obtain ⟨missing, missingEq⟩ : ∃ missing,
    missing = (inodePlaces blocks).filter fun place => sectorAt world.disk data place = 0 := ⟨_, rfl⟩
  have member_iff : ∀ place, place ∈ missing ↔ place ∈ inodePlaces blocks ∧ sectorAt world.disk data place = 0 := by
    intro place
    rw [missingEq, List.mem_filter, decide_eq_true_eq]
  have present : ∀ place ∈ missing, sectorAt middle.disk dataAfter place ≠ 0 ∧
      after (sectorAt middle.disk dataAfter place) = some (sector, some place) := by
    intro place member
    have needed := ((member_iff place).mp member).1
    have there := grown.full (within_of_mem_inodePlaces needed) needed
    exact ⟨there, grown.owned place (within_of_mem_inodePlaces needed) there⟩
  have fresh : ∀ place ∈ missing, ¬ world.used (sectorAt middle.disk dataAfter place) ∧
      middle.used (sectorAt middle.disk dataAfter place) ∧
      (sectorAt middle.disk dataAfter place).toNat < world.limit := by
    intro place member
    obtain ⟨there, owned⟩ := present place member
    cases before : own (sectorAt middle.disk dataAfter place) with
    | none => exact (effect.fresh _ _ owned before).2
    | some owner =>
        rw [effect.kept _ owner before, Option.some.injEq] at owned
        subst owned
        have same := (exact _ place before).2
        rw [((member_iff place).mp member).2] at same
        exact absurd same.symm there
  have distinct : (missing.map fun place => (sectorAt middle.disk dataAfter place).toNat).Nodup := by
    have nodup : missing.Nodup := by
      rw [missingEq]
      exact (inodePlaces_nodup blocks).filter _
    apply List.Nodup.map_on _ nodup
    intro first firstMember second secondMember same
    have one := (present first firstMember).2
    rw [UInt32.toNat_inj.mp same, (present second secondMember).2] at one
    simpa using one.symm
  have counted : middle.mem.freeMap.free +
      (missing.map fun place => (sectorAt middle.disk dataAfter place).toNat).length = world.mem.freeMap.free := by
    have enough : (inodeDemand world.disk data blocks).length ≤ world.free := of_decide_eq_true effect.outcome.symm
    have left := effect.free
    rw [inodeDemand, List.length_map, ← missingEq] at enough left
    rw [List.length_map]
    unfold World.free at enough left
    omega
  have taken : ∀ other : BlockSector, other.toNat < world.limit → middle.used other → world.used other ∨
      ∃ place ∈ missing, other = sectorAt middle.disk dataAfter place := by
    intro other inside used
    have small : ∀ index < world.mem.freeMap.bitCnt, (UInt32.ofNat index).toNat = index := by
      intro index inside
      have := sound.small
      rw [UInt32.toNat_ofNat', Nat.mod_eq_of_lt]
      exact Nat.lt_trans inside this
    rcases Bitmap.mem_taken effect.limit (fun index inside isSet => by
        have kept := effect.used (UInt32.ofNat index)
        unfold World.used at kept
        rw [small index inside] at kept
        exact kept isSet) distinct (fun index member => by
        obtain ⟨place, inMissing, rfl⟩ := List.mem_map.mp member
        obtain ⟨unused, isUsed, inLimit⟩ := fresh place inMissing
        exact ⟨inLimit, by simpa [World.used] using unused, isUsed⟩) counted inside used with before | member
    · exact .inl before
    · obtain ⟨place, inMissing, same⟩ := List.mem_map.mp member
      exact .inr ⟨place, inMissing, (UInt32.toNat_inj.mp same).symm⟩
  constructor
  · intro other place owned
    cases before : own other with
    | some owner =>
        rw [effect.kept other owner before, Option.some.injEq] at owned
        subst owned
        obtain ⟨within, there⟩ := exact other place before
        have nonzero : other ≠ 0 := by
          rintro rfl
          exact sound.zero sector place before
        exact ⟨within, by rw [grown.kept within (by rw [there]; exact nonzero), there]⟩
    | none =>
        obtain ⟨_, unused, used, inside⟩ := effect.fresh other _ owned before
        rcases taken other inside used with isUsed | ⟨place', inMissing, same⟩
        · exact absurd isUsed unused
        · have again := (present place' inMissing).2
          rw [← same, owned] at again
          obtain rfl : place = place' := by simpa using again
          exact ⟨within_of_mem_inodePlaces ((member_iff place).mp inMissing).1, same.symm⟩
  · intro other inside used
    rcases taken other inside used with before | ⟨place, inMissing, same⟩
    · exact .inl before
    · exact .inr ⟨place, ((member_iff place).mp inMissing).1, same⟩

theorem Exact.congr {store final : BlockSector → Sector} (exact : Exact own store inode data)
    (same : ∀ place : Place, place.within → sectorAt final data place = sectorAt store data place) :
    Exact own final inode data := by
  intro other place owned
  obtain ⟨within, there⟩ := exact other place owned
  exact ⟨within, (same place within).trans there⟩

/-- A negative length is refused at once. -/
theorem inodeCreate_negative {length : Int} (negative : length < 0) (isDir : Bool) :
    run (inodeCreate sector length isDir) world = some (false, world) := by
  simp [inodeCreate, inodeReserve, negative]

/-- `inode_create` allocates the blocks and then writes the inode. -/
theorem inodeCreate_run {length : Int} (nonnegative : 0 ≤ length) (isDir : Bool) (sound : own.Sound world)
    (ready : Ready own shared world) (mode : world.mem.freeMapFile = none ∨ sector ≠ 0) :
    ∃ success direct indirect doubly middle after,
      run (inodeCreate sector length isDir) world = some (if success && decide (bytesToSectors length ≤ maxBlocks) then
        (true, middle.write sector (InodeDisk.toSector ⟨direct, indirect, doubly, isDir, length, inodeMagic⟩))
        else (false, middle)) ∧
      Effect shared sector (fun _ => True) own after
        (inodeDemand world.disk (emptyInode length isDir) (bytesToSectors length)) world middle success ∧
      InodeGrown after sector (· ∈ inodePlaces (bytesToSectors length)) success world.disk middle.disk
        (emptyInode length isDir) ⟨direct, indirect, doubly, isDir, length, inodeMagic⟩ := by
  obtain ⟨success, dataAfter, middle, after, ran, effect, grown, direct, indirect, doubly, rfl⟩ :=
    inodeReserve_spec 1 nonnegative sound ready mode (emptyInode_owned own world.disk length isDir)
  refine ⟨success, direct, indirect, doubly, middle, after, ?_, effect, grown⟩
  change run (inodeReserve (freeMapAllocate 1) (emptyInode length isDir) length) world = _ at ran
  rw [inodeCreate, run_bind]
  change (run (inodeReserve (freeMapAllocate 1) (emptyInode length isDir) length) world).bind _ = _
  rw [ran, Option.bind_some]
  cases success && decide (bytesToSectors length ≤ maxBlocks) <;> rfl

theorem fileBytes_of_byteAt {store : BlockSector → Sector} {bytes : List UInt8}
    (length : data.length.toNat = bytes.length)
    (same : ∀ pos (inside : pos < bytes.length), byteAt store data pos = bytes[pos]) : fileBytes store data = bytes := by
  apply List.ext_getElem
  · rw [fileBytes, length_bytesAt, length]
  · intro pos _ inside
    simp only [fileBytes, bytesAt, List.getElem_map, List.getElem_range, Nat.zero_add]
    exact same pos inside

/-- What a successful `inode_create` does. -/
structure Creates (own after : Owners) (sector : BlockSector) (length : Int) (isDir : Bool) (data : InodeDisk)
    (world next : World) : Prop where
  nonnegative : 0 ≤ length
  fits : length ≤ 512 * maxBlocks
  enough : (inodePlaces (blocksOf length)).length ≤ world.free
  free : next.free = world.free - (inodePlaces (blocksOf length)).length
  length_eq : data.length = length
  isDir_eq : data.isDir = isDir
  failures : next.mem.allocationFailures = world.mem.allocationFailures
  limit : next.limit = world.limit
  used : ∀ other, world.used other → next.used other
  tail : TailZero next.disk data
  bytes : MockOS.Fs.fileBytes next.disk data = List.replicate length.toNat 0
  exact : (∀ other place, own other ≠ some (sector, some place)) → Exact after next.disk sector data ∧
    ∀ other : BlockSector, other.toNat < world.limit → next.used other →
      world.used other ∨ ∃ place ∈ inodePlaces (blocksOf length), other = sectorAt next.disk data place
  fresh : ∀ other owner, after other = some owner → own other = none → ¬ world.used other

/-- Why `inode_create` fails. -/
structure Refuses (length : Int) (world next : World) : Prop where
  cause : length < 0 ∨ 512 * maxBlocks < length ∨ (inodePlaces (blocksOf length)).length > world.free
  failures : length < 0 ∧ next = world ∨ 512 * maxBlocks < length ∨
    world.mem.allocationFailures < next.mem.allocationFailures
  free : 0 ≤ length → next.free = world.free - (inodePlaces (bytesToSectors length)).length
  limit : next.limit = world.limit
  used : ∀ other, world.used other → next.used other

section Create

variable (volume : Volume own shared nodes world) {length : Int} (isDir : Bool)
  (self : own sector = some (sector, none)) (absent : nodes sector = none) (nonzero : sector ≠ 0)
  {success : Bool} {middle : World}

include volume absent nonzero

theorem Volume.create_failed {blocks : Nat}
    (effect : Effect shared sector (fun _ => True) own after
      (inodeDemand world.disk (emptyInode length isDir) blocks) world middle success) :
    InodeStep shared sector own after nodes nodes world middle := by
  have impossible : ∀ data, nodes sector ≠ some data := by
    intro data present
    rw [absent] at present
    cases present
  refine volume.step (effect.sound volume.sound) effect.ready (effect.touches volume.sound)
    (fun other number part owned _ => effect.kept other _ owned) nonzero (by rw [effect.mem]) ?_ ?_ ?_ (fun _ _ => rfl)
    (fun data present => absurd present (impossible data)) (fun _ data present => absurd present (impossible data))
    effect.failures_le (effect.zero_kept volume)
  · intro pointer number data opened _
    rw [effect.mem]
    exact opened.object
  · intro pointer data opened
    exact absurd (volume.table.node opened) (impossible data)
  · intro pointer above
    rw [effect.mem]
    exact (volume.table.fresh pointer above).1

include self

/-- A new inode is complete, and its blocks are cleared. -/
theorem Volume.create_complete (nonnegative : 0 ≤ length) (high : length < 2147483648)
    (effect : Effect shared sector (fun _ => True) own after
      (inodeDemand world.disk (emptyInode length isDir) (bytesToSectors length)) world middle success)
    (done : success = true) (blocksFit : bytesToSectors length ≤ maxBlocks) {data : InodeDisk}
    {direct : Fin 123 → BlockSector} {indirect doubly : BlockSector}
    (dataEq : data = ⟨direct, indirect, doubly, isDir, length, inodeMagic⟩)
    (grown : InodeGrown after sector (· ∈ inodePlaces (bytesToSectors length)) success world.disk middle.disk
      (emptyInode length isDir) data) :
    InodeStep shared sector own after nodes (Function.update nodes sector (some data)) world
        (middle.write sector data.toSector) ∧
      Creates own after sector length isDir data world (middle.write sector data.toSector) := by
  subst done
  have fits : length ≤ 512 * maxBlocks := (blocks_fit nonnegative high).mp blocksFit
  have blocks := bytesToSectors_eq nonnegative fits
  have maximum : maxBlocks = 16635 := rfl
  have selfAfter := effect.kept _ _ self
  have lengthEq : data.length = length := by rw [dataEq]
  have sameTree : ∀ place : Place, place.within →
      sectorAt (middle.write sector data.toSector).disk data place = sectorAt middle.disk data place :=
    fun place within => grown.owned.sectorAt_write (fun inner _ same => by
      rw [selfAfter] at same
      cases same) _ within
  have complete : Complete middle.disk data (blocksOf data.length) := by
    intro place needed
    rw [lengthEq, ← blocks] at needed
    exact grown.full (within_of_mem_inodePlaces needed) needed
  have cleared : ∀ block, sectorAt (middle.write sector data.toSector).disk data (blockPlace block) ≠ 0 →
      (middle.write sector data.toSector).disk
        (sectorAt (middle.write sector data.toSector).disk data (blockPlace block)) = zeros := by
    intro block present
    rw [sameTree _ (blockPlace_within block)] at present ⊢
    have owned := grown.owned _ (blockPlace_within block) present
    rw [World.write_other]
    · rcases grown.block block present with ⟨before, _⟩ | ⟨_, zero⟩
      · rw [sectorAt_emptyInode] at before
        exact absurd rfl before
      · exact zero
    · intro same
      rw [same, selfAfter] at owned
      cases owned
  have stored : InodeDisk.ofSector ((middle.write sector data.toSector).disk sector) = data := by
    rw [World.write_same]
    exact InodeDisk.ofSector_toSector (by omega) (by omega)
  have demand : (inodeDemand world.disk (emptyInode length isDir) (bytesToSectors length)).length =
      (inodePlaces (blocksOf length)).length := by
    rw [length_inodeDemand_emptyInode, blocks]
  have enough : (inodePlaces (blocksOf length)).length ≤ world.free := by
    rw [← demand]
    exact of_decide_eq_true effect.outcome.symm
  have impossible : ∀ pointer data, ¬ Opened world sector pointer data := by
    intro pointer data opened
    have present := volume.table.node opened
    rw [absent] at present
    cases present
  constructor
  · refine volume.step ((effect.sound volume.sound).congr rfl fun _ _ used => used) (effect.ready.write (fun place same => ?_) _)
      ((effect.touches volume.sound).write self _) (fun other number part owned _ => effect.kept other _ owned) nonzero
      (by rw [World.write_mem, effect.mem]) ?_ (fun pointer data opened => absurd opened (impossible pointer data)) ?_
      (fun number different => Function.update_of_ne different _ _) ?_ ?_ effect.failures_le (fun same => ?_)
    · rw [selfAfter] at same
      cases same
    · intro pointer number data opened _
      rw [World.write_mem, effect.mem]
      exact opened.object
    · intro pointer above
      rw [World.write_mem, effect.mem]
      exact (volume.table.fresh pointer above).1
    · intro other present
      rw [Function.update_self, Option.some.injEq] at present
      subst present
      refine ⟨selfAfter, by omega, by omega, grown.owned.congr sameTree, complete.congr sameTree, fun _ => ?_⟩
      rw [stored]
      exact Stored.refl (complete.congr sameTree)
    · intro _ other present
      rw [Function.update_self, Option.some.injEq] at present
      rw [stored, present]
    · rw [World.write_other _ _ nonzero.symm]
      exact effect.zero_kept volume same
  · refine ⟨nonnegative, fits, enough, ?_, lengthEq, by rw [dataEq], effect.failures, effect.limit, effect.used, ?_, ?_,
      fun unowned => ?_, fun other owner owned absent => (effect.fresh other owner owned absent).2.1⟩
    · rw [← demand]
      exact effect.free
    · intro block small present byte _
      rw [cleared block present]
      rfl
    · apply fileBytes_of_byteAt
      · rw [lengthEq, List.length_replicate]
      · intro pos inside
        rw [List.length_replicate] at inside
        have small : pos / 512 < maxBlocks := by omega
        have present := (complete.congr sameTree).block (by
          unfold blocksOf
          omega : pos / 512 < blocksOf data.length) small
        rw [byteAt, cleared _ present, List.getElem_replicate]
        rfl
    · obtain ⟨exact, taken⟩ := effect.exact volume.sound grown fun other place owned => absurd owned (unowned other place)
      refine ⟨exact.congr sameTree, fun other inside used => (taken other inside used).imp id ?_⟩
      rintro ⟨place, member, same⟩
      refine ⟨place, blocks ▸ member, ?_⟩
      rw [sameTree place (within_of_mem_inodePlaces member)]
      exact same

/-- `inode_create` gives a new inode full of zeros, or fails and gives none. -/
theorem Volume.inodeCreate (high : length < 2147483648) :
    (∃ next after, run (inodeCreate sector length isDir) world = some (false, next) ∧
      next.mem = { world.mem with
        freeMap := next.mem.freeMap, allocationFailures := next.mem.allocationFailures } ∧
      InodeStep shared sector own after nodes nodes world next ∧ after sector = some (sector, none) ∧
      Refuses length world next) ∨
    ∃ data next after, run (inodeCreate sector length isDir) world = some (true, next) ∧
      next.mem = { world.mem with
        freeMap := next.mem.freeMap, allocationFailures := next.mem.allocationFailures } ∧
      InodeStep shared sector own after nodes (Function.update nodes sector (some data)) world next ∧
      Creates own after sector length isDir data world next := by
  by_cases negative : length < 0
  · refine .inl ⟨world, own, inodeCreate_negative negative isDir, rfl,
      ⟨volume, Touches.refl _ _ _ _, fun _ _ _ owned _ => owned, fun _ _ => rfl, Nat.le_refl _, fun _ => rfl⟩, self, .inl negative, .inl ⟨negative, rfl⟩, fun nonnegative => by omega, rfl, fun _ used => used⟩
  · have nonnegative : 0 ≤ length := by omega
    obtain ⟨success, direct, indirect, doubly, middle, after, ran, effect, grown⟩ :=
      inodeCreate_run nonnegative isDir volume.sound volume.ready (.inr nonzero)
    by_cases done : (success && decide (bytesToSectors length ≤ maxBlocks)) = true
    · rw [if_pos done] at ran
      obtain ⟨reserved, fits⟩ := Bool.and_eq_true_iff.mp done
      obtain ⟨step, creates⟩ := volume.create_complete isDir self absent nonzero nonnegative high effect reserved
        (of_decide_eq_true fits) rfl grown
      exact .inr ⟨_, _, after, ran, effect.mem, step, creates⟩
    · rw [if_neg done] at ran
      refine .inl ⟨middle, after, ran, effect.mem, volume.create_failed isDir absent nonzero effect,
        effect.kept sector _ self, ?_⟩
      have outcome := effect.outcome
      have free := effect.free
      rw [length_inodeDemand_emptyInode] at outcome free
      cases success with
      | false =>
          by_cases fits : length ≤ 512 * maxBlocks
          · refine ⟨.inr (.inr ?_), .inr (.inr effect.failures), fun _ => free, effect.limit, effect.used⟩
            rw [← bytesToSectors_eq nonnegative fits]
            have short := of_decide_eq_false outcome.symm
            omega
          · exact ⟨.inr (.inl (by omega)), .inr (.inl (by omega)), fun _ => free, effect.limit, effect.used⟩
      | true =>
          rw [Bool.true_and, decide_eq_true_eq, blocks_fit nonnegative high] at done
          exact ⟨.inr (.inl (by omega)), .inr (.inl (by omega)), fun _ => free, effect.limit, effect.used⟩

end Create

end MockOS.Fs
