import MockOS.Fs.InodeSpec

namespace MockOS.Fs

variable {shared : BlockSector → Prop} {own after : Owners} {world next : World} {nodes nodesAfter : Nodes}
  {sector inode : BlockSector} {pointer : Pointer} {data dataAfter : InodeDisk} {buffer : Nat → UInt8}

/-- Two steps on the same inode. -/
theorem InodeStep.trans {last : Owners} {middle : World} {nodesBetween : Nodes}
    (first : InodeStep shared inode own after nodes nodesBetween world middle)
    (second : InodeStep shared inode after last nodesBetween nodesAfter middle next) :
    InodeStep shared inode own last nodes nodesAfter world next where
  volume := second.volume
  touches := first.touches.trans second.touches first.kept
  kept _ _ _ owned different := second.kept _ _ _ (first.kept _ _ _ owned different) different
  others number different := (second.others number different).trans (first.others number different)
  failures := Nat.le_trans first.failures second.failures
  zero same := by
    have one := first.failures
    have two := second.failures
    rw [second.zero (by omega), first.zero (by omega)]

/-- Only data blocks of the inode and sectors without an owner were written. -/
def Overwritten (own : Owners) (inode : BlockSector) (store final : BlockSector → Sector) : Prop :=
  ∀ sector, final sector ≠ store sector →
    own sector = none ∨ ∃ place : Place, place.isLeaf ∧ own sector = some (inode, some place)

theorem Overwritten.touches {store final : BlockSector → Sector} (overwritten : Overwritten own inode store final) :
    Touches own shared inode store final := by
  intro sector changed
  rcases overwritten sector changed with unowned | ⟨place, _, owned⟩
  · exact .inr (.inl unowned)
  · exact .inr (.inr (.inl ⟨some place, owned⟩))

theorem Overwritten.sectorAt_eq {store final : BlockSector → Sector} {number : BlockSector}
    (overwritten : Overwritten own inode store final) (owned : InodeOwned own store number data) {place : Place}
    (within : place.within) : sectorAt final data place = sectorAt store data place := by
  apply sectorAt_congr _ within
  intro inner innerWithin isIndex present
  have innerOwned := owned inner innerWithin present
  by_contra changed
  rcases overwritten _ changed with unowned | ⟨leaf, isLeaf, leafOwned⟩
  · rw [innerOwned] at unowned
    cases unowned
  · rw [innerOwned, Option.some.injEq, Prod.mk.injEq, Option.some.injEq] at leafOwned
    exact isIndex (leafOwned.2 ▸ isLeaf)

theorem Written.overwritten {store final : BlockSector → Sector} {source : Nat → UInt8} {low high : Nat}
    (written : Written store final data source low high) (owned : InodeOwned own store inode data)
    (present : ∀ block, 512 * block < high → sectorAt store data (blockPlace block) ≠ 0) :
    Overwritten own inode store final := by
  intro sector changed
  obtain ⟨block, below, _, rfl⟩ := written.frame sector changed
  exact .inr ⟨blockPlace block, blockPlace_isLeaf block, owned _ (blockPlace_within block) (present block below)⟩

/-- The data of an open inode are overwritten. -/
theorem Volume.overwrite (volume : Volume own shared nodes world) (opened : Opened world sector pointer data)
    (nonzero : sector ≠ 0) {disk : BlockSector → Sector} (overwritten : Overwritten own sector world.disk disk) :
    InodeStep shared sector own own nodes nodes world ⟨world.mem, disk⟩ := by
  have present := volume.table.node opened
  have node := volume.node sector data present
  have unchanged : disk sector = world.disk sector := by
    by_contra changed
    rcases overwritten sector changed with unowned | ⟨leaf, _, leafOwned⟩
    · rw [node.self] at unowned
      cases unowned
    · rw [node.self] at leafOwned
      cases leafOwned
  have ready : Ready own shared ⟨world.mem, disk⟩ := by
    obtain ⟨filePointer, file, freeMapData, freeMap, copy, _⟩ := volume.freeMap
    have sameTree : ∀ place : Place, place.within →
        sectorAt disk freeMapData place = sectorAt world.disk freeMapData place := fun place within =>
      overwritten.sectorAt_eq freeMap.owned within
    refine .inr ⟨filePointer, file, _, freeMap.congr rfl rfl rfl rfl (fun _ _ same => same) sameTree, ?_⟩
    intro index inside
    have inFile : index / 8 < Bitmap.byteCnt world.limit := byteCnt_of_bit inside
    have fits := freeMap.small
    have length : freeMapData.length = Bitmap.byteCnt world.limit := freeMap.length
    have there := freeMap.complete.block (by
      change index / 8 / 512 < blocksOf freeMapData.length
      unfold blocksOf
      omega) (by omega : index / 8 / 512 < maxBlocks)
    have owned := freeMap.owned _ (blockPlace_within _) there
    have same : disk (sectorAt world.disk freeMapData (blockPlace (index / 8 / 512))) =
        world.disk (sectorAt world.disk freeMapData (blockPlace (index / 8 / 512))) := by
      by_contra changed
      change own (sectorAt world.disk freeMapData (blockPlace (index / 8 / 512))) = _ at owned
      rcases overwritten _ changed with unowned | ⟨leaf, _, leafOwned⟩
      · rw [owned] at unowned
        cases unowned
      · rw [owned, Option.some.injEq, Prod.mk.injEq] at leafOwned
        exact nonzero leafOwned.1.symm
    change (byteAt disk freeMapData (index / 8)).toNat.testBit (index % 8) = world.mem.freeMap.bits index
    rw [byteAt, sameTree _ (blockPlace_within _), same]
    exact copy index inside
  refine volume.step (volume.sound.congr rfl fun _ _ used => used) ready overwritten.touches
    (fun _ _ _ owned _ => owned) nonzero rfl (fun _ _ _ other _ => other.object) ?_
    (fun pointer above => (volume.table.fresh pointer above).1) (fun _ _ => rfl) ?_ ?_ (Nat.le_refl _) (fun _ => ?_)
  · intro other before again
    exact ⟨before, again.object, volume.table.node again⟩
  · intro other there
    rw [present, Option.some.injEq] at there
    subst there
    refine ⟨node.self, node.low, node.high, node.owned.congr fun _ => overwritten.sectorAt_eq node.owned,
      node.complete.congr fun _ => overwritten.sectorAt_eq node.owned, fun _ => ?_⟩
    have stored := node.stored nonzero
    change Stored disk (.ofSector (disk sector)) data
    rw [unchanged]
    refine ⟨stored.length, stored.isDir, stored.entry, stored.complete.congr fun _ => ?_⟩
    exact overwritten.sectorAt_eq (stored.owned node.owned)
  · intro closed
    exact absurd ⟨pointer, data, opened⟩ (fun open_ => not_closed.mpr open_ closed)
  · by_contra changed
    rcases overwritten 0 changed with unowned | ⟨leaf, _, leafOwned⟩
    · rw [volume.own_zero] at unowned
      cases unowned
    · rw [volume.own_zero] at leafOwned
      cases leafOwned

theorem bytesAt_slice (store : BlockSector → Sector) (data : InodeDisk) (offset size : Nat) :
    bytesAt store data offset (min size (data.length.toNat - offset)) =
      ((fileBytes store data).drop offset).take size := by
  apply List.ext_getElem
  · simp only [length_bytesAt, List.length_take, List.length_drop, fileBytes]
  · intro index _ _
    simp only [bytesAt, fileBytes, List.getElem_map, List.getElem_range, List.getElem_take, List.getElem_drop,
      Nat.zero_add]

/-- `inode_read_at` returns the bytes that are there. -/
theorem Volume.inodeReadAt (volume : Volume own shared nodes world) (opened : Opened world sector pointer data)
    (size : Int) {offset : Nat} (small : offset < 2147483648) :
    run (inodeReadAt pointer size offset) world =
      some (((fileBytes world.disk data).drop offset).take size.toNat, world) := by
  have node := volume.node sector data (volume.table.node opened)
  rw [MockOS.Fs.inodeReadAt, run_bind, run_getInode opened.object, Option.bind_some]
  change run (readLoop data size.toNat size offset) world = _
  by_cases positive : 0 < size
  · have same : size = (size.toNat : Int) := by omega
    rw [← bytesAt_slice]
    conv => lhs; rw [same, Int.toNat_natCast]
    exact readLoop_spec node.low node.high _ _ _ _ node.complete (Nat.le_refl _) small
  · rw [show size.toNat = 0 from by omega, List.take_zero]
    rfl

/-- The memory with another `data` in an open inode. -/
def World.setData (world : World) (pointer : Pointer) (sector : BlockSector) (data : InodeDisk) : World :=
  ⟨{ world.mem with inodes := Function.update world.mem.inodes pointer (some (.live sector data)) }, world.disk⟩

@[simp] theorem World.setData_disk (world : World) (pointer : Pointer) (sector : BlockSector) (data : InodeDisk) :
    (world.setData pointer sector data).disk = world.disk := rfl

theorem World.setData_same (object : world.mem.inodes pointer = some (.live sector data)) :
    world.setData pointer sector data = world := by
  have same : Function.update world.mem.inodes pointer (some (.live sector data)) = world.mem.inodes := by
    rw [← object]
    exact Function.update_eq_self _ _
  rw [World.setData, same]

theorem wrap32_bounds (value : Int) : -2147483648 ≤ wrap32 value ∧ wrap32 value < 2147483648 := by
  unfold wrap32
  omega

/-- A write that ends within the file finds the sector of its last byte. -/
theorem byteToSector_last (sound : own.Sound world) (owned : InodeOwned own world.disk inode data)
    (limit : data.length ≤ 512 * maxBlocks) (complete : Complete world.disk data (blocksOf data.length)) {last : Int}
    (low : 1 ≤ last) (inside : last ≤ data.length) :
    ∃ found, run (byteToSector data (wrap32 (last - 1))) world = some (found, world) ∧ found ≠ noSector := by
  have maximum : maxBlocks = 16635 := rfl
  have pos : wrap32 (last - 1) = ((last - 1).toNat : Int) := by
    rw [wrap32_of_range (by omega) (by omega)]
    omega
  have small : (last - 1).toNat / 512 < maxBlocks := by omega
  have present := complete.block (by unfold blocksOf; omega : (last - 1).toNat / 512 < blocksOf data.length) small
  refine ⟨_, by rw [pos, byteToSector_spec (by omega) small present], ?_⟩
  apply sound.ne_noSector
  rw [owned _ (blockPlace_within _) present]
  exact Option.some_ne_none _

theorem byteToSector_noLast (world : World) (limit : data.length ≤ 512 * maxBlocks) (low : 0 ≤ data.length) {last : Int}
    (range : -2147483648 ≤ last ∧ last < 2147483648) (beyond : last < 1 ∨ data.length < last) :
    run (byteToSector data (wrap32 (last - 1))) world = some (noSector, world) := by
  have maximum : maxBlocks = 16635 := rfl
  apply byteToSector_outside
  by_cases minimum : last = -2147483648
  · rw [minimum]
    exact .inr (by unfold wrap32; omega)
  · rw [wrap32_of_range (by omega) (by omega)]
    omega

/-- A write that ends within the file stores its bytes in place. -/
theorem inodeWriteAt_inPlace (buffer : Nat → UInt8) (sound : own.Sound world) (object : world.mem.inodes pointer = some (.live sector data))
    (owned : InodeOwned own world.disk sector data) (limit : data.length ≤ 512 * maxBlocks)
    (complete : Complete world.disk data (blocksOf data.length)) {size offset : Int}
    (low : 1 ≤ wrap32 (offset + size)) (inside : wrap32 (offset + size) ≤ data.length) :
    run (inodeWriteAt pointer buffer size offset) world = run (writeLoop data buffer size.toNat size offset 0) world := by
  obtain ⟨found, ran, present⟩ := byteToSector_last sound owned limit complete low inside
  rw [inodeWriteAt, inodeWriteAtWithin, run_bind, run_getInode object, Option.bind_some, if_neg (by simp [Inode.live]),
    run_bind]
  change (run (byteToSector data _) world).bind _ = _
  rw [ran, Option.bind_some, if_neg present]
  rfl

/-- A write to a negative length is refused. -/
theorem inodeWriteAt_refused (buffer : Nat → UInt8) (object : world.mem.inodes pointer = some (.live sector data))
    (limit : data.length ≤ 512 * maxBlocks) (low : 0 ≤ data.length) {size offset : Int}
    (negative : wrap32 (offset + size) < 0) : run (inodeWriteAt pointer buffer size offset) world = some (0, world) := by
  have ran := byteToSector_noLast world limit low (wrap32_bounds (offset + size)) (.inl (by omega))
  rw [inodeWriteAt, inodeWriteAtWithin, run_bind, run_getInode object, Option.bind_some, if_neg (by simp [Inode.live]),
    run_bind]
  change (run (byteToSector data _) world).bind _ = _
  rw [ran, Option.bind_some, if_pos rfl]
  simp only [inodeReserve, negative, if_true, run_bind, run_pure, Option.bind_some, Bool.false_eq_true, if_false,
    run_setInode]
  exact congrArg (fun next => some ((0 : Int), next)) (World.setData_same object)

/-- A write behind the end first allocates the missing blocks. -/
theorem inodeWriteAt_extend (buffer : Nat → UInt8) (sound : own.Sound world) (ready : Ready own shared world) (nonzero : sector ≠ 0)
    (object : world.mem.inodes pointer = some (.live sector data)) (owned : InodeOwned own world.disk sector data)
    (limit : data.length ≤ 512 * maxBlocks) (low : 0 ≤ data.length) {size offset : Int}
    (nonnegative : 0 ≤ wrap32 (offset + size))
    (beyond : wrap32 (offset + size) = 0 ∨ data.length < wrap32 (offset + size)) :
    ∃ success direct indirect doubly middle after,
      run (inodeWriteAt pointer buffer size offset) world =
        (if success && decide (bytesToSectors (wrap32 (offset + size)) ≤ maxBlocks) then
          run (writeLoop ⟨direct, indirect, doubly, data.isDir, wrap32 (offset + size), data.magic⟩ buffer size.toNat size
              offset 0)
            ((middle.setData pointer sector
                ⟨direct, indirect, doubly, data.isDir, wrap32 (offset + size), data.magic⟩).write sector
              (InodeDisk.toSector ⟨direct, indirect, doubly, data.isDir, wrap32 (offset + size), data.magic⟩))
        else some (0, middle.setData pointer sector ⟨direct, indirect, doubly, data.isDir, data.length, data.magic⟩)) ∧
      Effect shared sector (fun _ => True) own after
        (inodeDemand world.disk data (bytesToSectors (wrap32 (offset + size)))) world middle success ∧
      InodeGrown after sector (· ∈ inodePlaces (bytesToSectors (wrap32 (offset + size)))) success world.disk middle.disk
        data ⟨direct, indirect, doubly, data.isDir, data.length, data.magic⟩ := by
  have last := byteToSector_noLast world limit low (wrap32_bounds (offset + size))
    (beyond.imp (fun zero => by omega) id)
  obtain ⟨success, dataAfter, middle, after, ran, effect, grown, direct, indirect, doubly, rfl⟩ :=
    inodeReserve_spec 0 nonnegative sound ready (.inr nonzero) owned
  refine ⟨success, direct, indirect, doubly, middle, after, ?_, effect, grown⟩
  rw [inodeWriteAt, inodeWriteAtWithin, run_bind, run_getInode object, Option.bind_some, if_neg (by simp [Inode.live]),
    run_bind]
  change (run (byteToSector data _) world).bind _ = _
  rw [last, Option.bind_some, if_pos rfl, run_bind]
  change (run (inodeReserve _ data _) world).bind _ = _
  rw [ran, Option.bind_some]
  cases success && decide (bytesToSectors (wrap32 (offset + size)) ≤ maxBlocks) <;> rfl

theorem FreeMapOpen.write (freeMap : FreeMapOpen own shared world)
    (foreign : ∀ place, own sector ≠ some (0, some place)) (block : Sector) :
    FreeMapOpen own shared (world.write sector block) :=
  freeMap.step (freeMap.ready.write foreign block) rfl (fun _ _ => rfl) fun _ _ opened => ⟨opened.member, opened.object⟩

/-- The objects of other inodes stay. -/
theorem Opened.setData_other (opened : Opened world sector pointer data) {number : BlockSector} {other : Pointer}
    {before : InodeDisk} (different : number ≠ sector) (otherOpened : Opened world number other before)
    (dataAfter : InodeDisk) : Opened (world.setData pointer sector dataAfter) number other before := by
  have apart : other ≠ pointer := by
    rintro rfl
    have same := otherOpened.object
    rw [opened.object, Option.some.injEq, Inode.live_inj] at same
    exact different same.1.symm
  refine ⟨otherOpened.member, ?_⟩
  change Function.update world.mem.inodes pointer _ other = _
  rw [Function.update_of_ne apart, otherOpened.object]

theorem FreeMapOpen.setData (freeMap : FreeMapOpen own shared world) (opened : Opened world sector pointer data)
    (nonzero : sector ≠ 0) (dataAfter : InodeDisk) : FreeMapOpen own shared (world.setData pointer sector dataAfter) := by
  obtain ⟨filePointer, file, freeMapData, freeMapFile, copy, member⟩ := freeMap
  have object := opened.setData_other nonzero.symm ⟨member, freeMapFile.liveInode⟩ dataAfter
  exact ⟨filePointer, file, freeMapData, freeMapFile.congr rfl rfl (object.object.trans freeMapFile.liveInode.symm) rfl
    (fun _ _ same => same) fun _ _ => rfl, copy, member⟩

section Extend

variable {mine : Place → Prop} {demand : List Bool} {success : Bool} {middle : World}

theorem Effect.still_opened (effect : Effect shared inode mine own after demand world middle success)
    (opened : Opened world sector pointer data) : Opened middle sector pointer data := by
  refine ⟨?_, ?_⟩
  · rw [effect.mem]
    exact opened.member
  · rw [effect.mem]
    exact opened.object

theorem Effect.freeMapOpen (effect : Effect shared inode mine own after demand world middle success)
    (freeMap : FreeMapOpen own shared world) : FreeMapOpen after shared middle :=
  freeMap.step effect.ready effect.freeMapFile (fun _ _ => by rw [effect.mem]) fun _ _ zero => effect.still_opened zero

variable (volume : Volume own shared nodes world) (opened : Opened world sector pointer data) (nonzero : sector ≠ 0)
  (effect : Effect shared sector mine own after demand world middle success)

include volume opened effect nonzero

/-- After an extension only the inode itself must be checked. -/
theorem Volume.extend (mem : next.mem = (middle.setData pointer sector dataAfter).mem)
    (freeMap : FreeMapOpen after shared next) (touches : Touches own shared sector world.disk next.disk)
    (zero : next.disk 0 = middle.disk 0) (node : Node after next.disk sector dataAfter) :
    InodeStep shared sector own after nodes (Function.update nodes sector (some dataAfter)) world next := by
  have memMiddle := effect.mem
  have frame : next.mem = { world.mem with
      freeMap := next.mem.freeMap, allocationFailures := next.mem.allocationFailures
      inodes := Function.update world.mem.inodes pointer (some (.live sector dataAfter)) } := by
    rw [mem, World.setData, memMiddle]
  have inodes : next.mem.inodes = Function.update world.mem.inodes pointer (some (.live sector dataAfter)) := by
    rw [frame]
  have sound : after.Sound next := by
    apply (effect.sound volume.sound).congr
    · unfold World.limit
      rw [mem]
      rfl
    · intro other _ used
      unfold World.used at used ⊢
      rw [mem]
      exact used
  have failures : next.mem.allocationFailures = middle.mem.allocationFailures := by
    rw [mem]
    rfl
  refine volume.step sound freeMap.ready touches (fun other number part owned _ => effect.kept other _ owned) nonzero
    (by rw [frame]) ?_ ?_ ?_ (fun number different => Function.update_of_ne different _ _) ?_ ?_
    (failures ▸ effect.failures_le) (fun same => zero.trans (effect.zero_kept volume (failures ▸ same)))
  · intro other number before otherOpened different
    rw [inodes]
    exact (opened.setData_other different otherOpened dataAfter).object
  · intro other before again
    rw [volume.table.unique again opened, inodes]
    exact ⟨dataAfter, Function.update_self _ _ _, Function.update_self _ _ _⟩
  · intro other above
    rw [inodes, Function.update_of_ne]
    · exact (volume.table.fresh other above).1
    · rintro rfl
      have absent := (volume.table.fresh other above).1
      rw [opened.object] at absent
      cases absent
  · intro other present
    rw [Function.update_self, Option.some.injEq] at present
    exact present ▸ node
  · intro closed
    exact absurd ⟨pointer, data, opened⟩ (fun open_ => not_closed.mpr open_ closed)

end Extend

/-- The sector of the inode itself is not touched by the allocation of its blocks. -/
theorem Effect.self_unchanged {mine : Place → Prop} {demand : List Bool} {success : Bool} {middle : World}
    (effect : Effect shared sector mine own after demand world middle success) (sound : own.Sound world)
    (freeMap : FreeMapOpen own shared world) (nonzero : sector ≠ 0) (self : own sector = some (sector, none)) :
    middle.disk sector = world.disk sector := by
  by_contra changed
  rcases effect.frame sector changed with inFile | ⟨unused, _⟩ | ⟨place, owned, _⟩ | ⟨zero, _⟩
  · obtain ⟨block, _, owned⟩ := freeMap.shared_owned inFile
    rw [self] at owned
    cases owned
  · exact unused (sound.used sector (by simp [self])).1
  · rw [self] at owned
    cases owned
  · exact nonzero zero

/-- The data blocks of an extended inode are the old ones and cleared ones. -/
def Enlarged (store final : BlockSector → Sector) (data dataAfter : InodeDisk) : Prop :=
  ∀ block, sectorAt final dataAfter (blockPlace block) ≠ 0 →
    sectorAt store data (blockPlace block) ≠ 0 ∧
        final (sectorAt final dataAfter (blockPlace block)) = store (sectorAt store data (blockPlace block)) ∨
      sectorAt store data (blockPlace block) = 0 ∧ final (sectorAt final dataAfter (blockPlace block)) = zeros

/-- The bytes behind the old end are zero. -/
theorem Enlarged.byteAt {store final : BlockSector → Sector} (enlarged : Enlarged store final data dataAfter)
    (tail : TailZero store data) {pos : Nat} (small : pos / 512 < maxBlocks)
    (present : sectorAt final dataAfter (blockPlace (pos / 512)) ≠ 0)
    (before : (pos : Int) < data.length → sectorAt store data (blockPlace (pos / 512)) ≠ 0) :
    byteAt final dataAfter pos = if (pos : Int) < data.length then MockOS.Fs.byteAt store data pos else 0 := by
  have position : 512 * (pos / 512) + pos % 512 = pos := Nat.div_add_mod pos 512
  rcases enlarged (pos / 512) present with ⟨there, same⟩ | ⟨absent, zero⟩
  · rw [MockOS.Fs.byteAt, same]
    split
    · rfl
    · exact tail _ small there _ (by dsimp only; omega)
  · rw [MockOS.Fs.byteAt, zero, if_neg (fun inside => before inside absent)]
    rfl

theorem Enlarged.tailZero {store final : BlockSector → Sector} (enlarged : Enlarged store final data dataAfter)
    (tail : TailZero store data) (longer : data.length ≤ dataAfter.length) : TailZero final dataAfter := by
  intro block small present byte past
  rcases enlarged block present with ⟨there, same⟩ | ⟨absent, zero⟩
  · rw [same]
    exact tail block small there byte (by omega)
  · rw [zero]
    rfl

section Extension

variable {demand : List Bool} {success : Bool} {middle : World} {needed : Place → Prop}
  {direct : Fin 123 → BlockSector} {indirect doubly : BlockSector}
  (volume : Volume own shared nodes world) (opened : Opened world sector pointer data) (nonzero : sector ≠ 0)
  (effect : Effect shared sector (fun _ => True) own after demand world middle success)
  (grown : InodeGrown after sector needed success world.disk middle.disk data
    ⟨direct, indirect, doubly, data.isDir, data.length, data.magic⟩)

include volume opened nonzero effect grown

/-- After a failed extension the inode has the same length and may have more blocks in memory. -/
theorem Volume.extend_failed :
    InodeStep shared sector own after nodes
        (Function.update nodes sector (some ⟨direct, indirect, doubly, data.isDir, data.length, data.magic⟩)) world
        (middle.setData pointer sector ⟨direct, indirect, doubly, data.isDir, data.length, data.magic⟩) ∧
      Enlarged world.disk middle.disk data ⟨direct, indirect, doubly, data.isDir, data.length, data.magic⟩ := by
  have node := volume.node sector data (volume.table.node opened)
  have unchanged := effect.self_unchanged volume.sound volume.freeMap nonzero node.self
  refine ⟨?_, fun block present => ?_⟩
  · refine volume.extend opened nonzero effect rfl
      ((effect.freeMapOpen volume.freeMap).setData (effect.still_opened opened) nonzero _) (effect.touches volume.sound)
      rfl ?_
    have stored := node.stored nonzero
    refine ⟨effect.kept _ _ node.self, node.low, node.high, grown.owned, ?_, fun _ => ?_⟩
    · intro place member
      change sectorAt middle.disk _ place ≠ 0
      rw [grown.kept (within_of_mem_inodePlaces member) (node.complete place member)]
      exact node.complete place member
    · have entry : ∀ root, (InodeDisk.ofSector (world.disk sector)).entry root ≠ 0 →
          (InodeDisk.ofSector (world.disk sector)).entry root =
            (InodeDisk.mk direct indirect doubly data.isDir data.length data.magic).entry root := by
        intro root present
        rcases stored.entry root with absent | same
        · exact absurd absent present
        · rw [same] at present ⊢
          have within : Place.within (root, []) := Nat.zero_le _
          exact (grown.kept within present).symm
      change Stored middle.disk (.ofSector (middle.disk sector)) _
      rw [unchanged]
      refine ⟨stored.length, stored.isDir, fun root => or_iff_not_imp_left.mpr (entry root), fun place member => ?_⟩
      have present := stored.complete place member
      have within := within_of_mem_inodePlaces member
      have root : (InodeDisk.ofSector (world.disk sector)).entry place.1 ≠ 0 := indexTree.root_of_follow present
      rcases stored.sectorAt place with absent | same
      · exact absurd absent present
      · rw [same] at present
        have kept := grown.kept within present
        rw [MockOS.Fs.sectorAt, entry place.1 root, ← MockOS.Fs.sectorAt, kept]
        exact present
  · exact (grown.block block present).imp (fun old => ⟨old.1, old.2.2⟩) id

/-- After a successful extension the inode is written to its sector. -/
theorem Volume.extend_grown {length : Int} (low : 0 ≤ length) (high : length ≤ 512 * maxBlocks) (done : success = true)
    (enough : ∀ place ∈ inodePlaces (blocksOf length), needed place) :
    InodeStep shared sector own after nodes
        (Function.update nodes sector (some ⟨direct, indirect, doubly, data.isDir, length, data.magic⟩)) world
        ((middle.setData pointer sector ⟨direct, indirect, doubly, data.isDir, length, data.magic⟩).write sector
          (InodeDisk.toSector ⟨direct, indirect, doubly, data.isDir, length, data.magic⟩)) ∧
      Enlarged world.disk ((middle.setData pointer sector ⟨direct, indirect, doubly, data.isDir, length, data.magic⟩).write
          sector (InodeDisk.toSector ⟨direct, indirect, doubly, data.isDir, length, data.magic⟩)).disk data
        ⟨direct, indirect, doubly, data.isDir, length, data.magic⟩ := by
  have maximum : maxBlocks = 16635 := rfl
  have node := volume.node sector data (volume.table.node opened)
  have selfAfter := effect.kept _ _ node.self
  subst done
  obtain ⟨dataAfter, dataEq⟩ : ∃ dataAfter,
    dataAfter = InodeDisk.mk direct indirect doubly data.isDir length data.magic := ⟨_, rfl⟩
  have sameEntries : ∀ (store : BlockSector → Sector) place, sectorAt store dataAfter place =
      sectorAt store ⟨direct, indirect, doubly, data.isDir, data.length, data.magic⟩ place := by
    intro store place
    rw [dataEq]
    rfl
  have sameTree : ∀ place : Place, place.within →
      sectorAt (Function.update middle.disk sector dataAfter.toSector) dataAfter place =
        sectorAt middle.disk ⟨direct, indirect, doubly, data.isDir, data.length, data.magic⟩ place := by
    intro place within
    rw [sameEntries]
    refine grown.owned.sectorAt_write (fun inner _ same => ?_) _ within
    rw [selfAfter] at same
    cases same
  have owned : InodeOwned after (Function.update middle.disk sector dataAfter.toSector) sector dataAfter := by
    intro place within present
    rw [sameTree place within] at present ⊢
    exact grown.owned place within present
  have stored : InodeDisk.ofSector (Function.update middle.disk sector dataAfter.toSector sector) = dataAfter := by
    rw [Function.update_self, dataEq]
    apply InodeDisk.ofSector_toSector
    · dsimp only
      omega
    · dsimp only
      omega
  rw [← dataEq]
  refine ⟨?_, fun block present => ?_⟩
  · have complete : Complete (Function.update middle.disk sector dataAfter.toSector) dataAfter
        (blocksOf dataAfter.length) := by
      intro place member
      have within := within_of_mem_inodePlaces member
      rw [sameTree place within]
      refine grown.full within (enough place ?_)
      rwa [dataEq] at member
    refine volume.extend opened nonzero effect rfl ?_ ((effect.touches volume.sound).write node.self _)
      (Function.update_of_ne nonzero.symm _ _) ⟨selfAfter, by rw [dataEq]; exact low, by rw [dataEq]; exact high, owned, complete, fun _ => ?_⟩
    · apply ((effect.freeMapOpen volume.freeMap).setData (effect.still_opened opened) nonzero _).write
      intro place same
      rw [selfAfter] at same
      cases same
    · change Stored _ (.ofSector (Function.update middle.disk sector dataAfter.toSector sector)) dataAfter
      rw [stored]
      exact Stored.refl complete
  · change sectorAt (Function.update middle.disk sector dataAfter.toSector) dataAfter (blockPlace block) ≠ 0 at present
    change _ ∧ Function.update middle.disk sector dataAfter.toSector
        (sectorAt (Function.update middle.disk sector dataAfter.toSector) dataAfter (blockPlace block)) = _ ∨
      _ ∧ Function.update middle.disk sector dataAfter.toSector
        (sectorAt (Function.update middle.disk sector dataAfter.toSector) dataAfter (blockPlace block)) = _
    have different : sectorAt (Function.update middle.disk sector dataAfter.toSector) dataAfter (blockPlace block) ≠
        sector := by
      intro same
      have blockOwned := owned _ (blockPlace_within block) present
      rw [same, selfAfter] at blockOwned
      cases blockOwned
    rw [Function.update_of_ne different]
    rw [sameTree _ (blockPlace_within block)] at present ⊢
    exact (grown.block block present).imp (fun old => ⟨old.1, old.2.2⟩) id

end Extension

/-- A growable array of bytes after a write: a gap behind the old end is filled with zeros. -/
def overwrite (bytes : List UInt8) (offset size : Nat) (buffer : Nat → UInt8) : List UInt8 :=
  (List.range (max bytes.length (offset + size))).map fun pos =>
    if offset ≤ pos ∧ pos < offset + size then buffer (pos - offset) else bytes.getD pos 0

@[simp] theorem length_overwrite (bytes : List UInt8) (offset size : Nat) (buffer : Nat → UInt8) :
    (overwrite bytes offset size buffer).length = max bytes.length (offset + size) := by simp [overwrite]

theorem getD_fileBytes (store : BlockSector → Sector) (low : 0 ≤ data.length) (pos : Nat) :
    (fileBytes store data).getD pos 0 = if (pos : Int) < data.length then byteAt store data pos else 0 := by
  by_cases inside : (pos : Int) < data.length
  · rw [if_pos inside, List.getD_eq_getElem _ _ (by rw [fileBytes, length_bytesAt]; omega)]
    simp [fileBytes, bytesAt]
  · rw [if_neg inside, List.getD_eq_default _ _ (by rw [fileBytes, length_bytesAt]; omega)]

/-- The bytes of a file after a write, from the bytes at each position. -/
theorem fileBytes_overwrite {store final : BlockSector → Sector} {offset size : Nat} (low : 0 ≤ data.length)
    (length : dataAfter.length = max data.length (offset + size : Nat))
    (same : ∀ pos : Nat, (pos : Int) < dataAfter.length → byteAt final dataAfter pos =
      if offset ≤ pos ∧ pos < offset + size then buffer (pos - offset)
      else if (pos : Int) < data.length then byteAt store data pos else 0) :
    fileBytes final dataAfter = overwrite (fileBytes store data) offset size buffer := by
  apply fileBytes_of_byteAt
  · rw [length_overwrite, fileBytes, length_bytesAt]
    omega
  · intro pos inside
    rw [length_overwrite, fileBytes, length_bytesAt] at inside
    rw [same pos (by omega)]
    simp only [overwrite, List.getElem_map, List.getElem_range, getD_fileBytes store low]

theorem Written.tailZero {disk : BlockSector → Sector} {source : Nat → UInt8} {low high : Nat}
    (written : Written world.disk disk data source low high) (inside : (high : Int) ≤ data.length)
    (tail : TailZero world.disk data) : TailZero disk data := by
  intro block small present byte past
  have same := written.tree _ (blockPlace_within block)
  rw [same] at present ⊢
  rw [written.bytes block small present byte, if_neg (by omega)]
  exact tail block small present byte past

/-- The blocks that are missing for a length. -/
def demandFor (store : BlockSector → Sector) (data : InodeDisk) (length : Nat) : Nat :=
  (inodeDemand store data (bytesToSectors length)).length

theorem demandFor_of_complete {store : BlockSector → Sector} {length : Nat}
    (complete : Complete store data (blocksOf data.length)) (inside : length ≤ data.length)
    (high : data.length ≤ 512 * maxBlocks) : demandFor store data length = 0 := by
  have maximum : maxBlocks = 16635 := rfl
  have fewer : bytesToSectors length ≤ blocksOf data.length := by
    rw [bytesToSectors_eq (by omega) (by omega)]
    unfold blocksOf
    omega
  rw [demandFor, inodeDemand, List.length_map, List.length_eq_zero_iff, List.filter_eq_nil_iff]
  intro place needed
  rw [decide_eq_true_eq]
  exact complete place (inodePlaces_mono fewer needed)

/-- What a write that stores all its bytes does. -/
structure Stores (own after : Owners) (sector : BlockSector) (data dataAfter : InodeDisk) (buffer : Nat → UInt8)
    (size offset : Nat) (world next : World) : Prop where
  fits : offset + size ≤ 512 * maxBlocks
  enough : demandFor world.disk data (offset + size) ≤ world.free
  free : next.free = world.free - demandFor world.disk data (offset + size)
  length : dataAfter.length = max data.length (offset + size : Nat)
  failures : next.mem.allocationFailures = world.mem.allocationFailures
  limit : next.limit = world.limit
  used : ∀ other, world.used other → next.used other
  bytes : TailZero world.disk data → TailZero next.disk dataAfter ∧
    fileBytes next.disk dataAfter = overwrite (fileBytes world.disk data) offset size buffer
  exact : Exact own world.disk sector data → Exact after next.disk sector dataAfter ∧
    ∀ other : BlockSector, other.toNat < world.limit → next.used other →
      world.used other ∨ ∃ place ∈ inodePlaces (blocksOf dataAfter.length), other = sectorAt next.disk dataAfter place
  fresh : ∀ other owner, after other = some owner → own other = none → ¬ world.used other
  tree : ∀ place : Place, place.within → sectorAt world.disk data place ≠ 0 →
    sectorAt next.disk dataAfter place = sectorAt world.disk data place

/-- What a write that stores nothing does. -/
structure Keeps (data dataAfter : InodeDisk) (size offset : Nat) (world next : World) : Prop where
  beyond : data.length < (offset + size : Nat)
  cause : 512 * maxBlocks < offset + size ∨ world.mem.allocationFailures < next.mem.allocationFailures ∧
    world.free < demandFor world.disk data (offset + size)
  free : next.free = if offset + size < 2147483648 then world.free - demandFor world.disk data (offset + size)
    else world.free
  length : dataAfter.length = data.length
  bytes : TailZero world.disk data → TailZero next.disk dataAfter ∧
    fileBytes next.disk dataAfter = fileBytes world.disk data
  limit : next.limit = world.limit
  used : ∀ other, world.used other → next.used other

section Write

variable (volume : Volume own shared nodes world) (opened : Opened world sector pointer data) (nonzero : sector ≠ 0)

include volume opened nonzero

/-- A write within the file. -/
theorem Volume.write_inPlace (buffer : Nat → UInt8) {size offset : Nat} (positive : 0 < size)
    (inside : (offset + size : Nat) ≤ data.length) :
    ∃ disk, run (inodeWriteAt pointer buffer size offset) world = some ((size : Int), ⟨world.mem, disk⟩) ∧
      InodeStep shared sector own own nodes nodes world ⟨world.mem, disk⟩ ∧
      Written world.disk disk data (fun pos => buffer (pos - offset)) offset (offset + size) ∧
      Overwritten own sector world.disk disk := by
  have node := volume.node sector data (volume.table.node opened)
  have maximum : maxBlocks = 16635 := rfl
  have high := node.high
  obtain ⟨disk, ran, written⟩ := inodeWriteAt_inside volume.sound opened.object rfl node.owned node.high node.complete 1
    buffer size offset positive inside
  have overwritten := written.overwritten node.owned fun block below =>
    node.complete.block (by unfold blocksOf; omega) (by omega)
  exact ⟨disk, ran, volume.overwrite opened nonzero overwritten, written, overwritten⟩

/-- A write behind the end that finds enough free sectors. -/
theorem Volume.write_extended (buffer : Nat → UInt8) {size offset : Nat} (small : offset + size < 2147483648)
    (beyond : data.length < (offset + size : Nat)) {middle : World} {direct : Fin 123 → BlockSector}
    {indirect doubly : BlockSector} {success : Bool}
    (effect : Effect shared sector (fun _ => True) own after
      (inodeDemand world.disk data (bytesToSectors (offset + size : Nat))) world middle success)
    (grown : InodeGrown after sector (· ∈ inodePlaces (bytesToSectors (offset + size : Nat))) success world.disk
      middle.disk data ⟨direct, indirect, doubly, data.isDir, data.length, data.magic⟩) (done : success = true)
    (fits : bytesToSectors (offset + size : Nat) ≤ maxBlocks) {extended : World} {dataAfter : InodeDisk}
    (dataEq : dataAfter = ⟨direct, indirect, doubly, data.isDir, (offset + size : Nat), data.magic⟩)
    (extendedEq : extended = (middle.setData pointer sector dataAfter).write sector dataAfter.toSector) :
    ∃ disk, run (writeLoop dataAfter buffer size size offset 0) extended = some ((size : Int), ⟨extended.mem, disk⟩) ∧
      InodeStep shared sector own after nodes (Function.update nodes sector (some dataAfter)) world
        ⟨extended.mem, disk⟩ ∧
      Stores own after sector data dataAfter buffer size offset world ⟨extended.mem, disk⟩ ∧
      ∀ other, disk other ≠ extended.disk other → ∃ place, after other = some (sector, some place) := by
  have node := volume.node sector data (volume.table.node opened)
  have maximum : maxBlocks = 16635 := rfl
  subst done
  have inFile : ((offset + size : Nat) : Int) ≤ 512 * maxBlocks := (blocks_fit (by omega) (by omega)).mp fits
  have blocks : bytesToSectors (offset + size : Nat) = blocksOf (offset + size : Nat) :=
    bytesToSectors_eq (by omega) inFile
  obtain ⟨stepOne, enlarged⟩ := volume.extend_grown opened nonzero effect grown (by omega) inFile rfl
    (fun place member => by rwa [blocks])
  rw [← dataEq, ← extendedEq] at stepOne enlarged
  have lengthAfter : dataAfter.length = (offset + size : Nat) := by rw [dataEq]
  have openedAfter : Opened extended sector pointer dataAfter := by
    have still := effect.still_opened opened
    rw [extendedEq]
    exact ⟨still.member, Function.update_self _ _ _⟩
  have nodeAfter := stepOne.volume.node sector dataAfter (stepOne.volume.table.node openedAfter)
  obtain ⟨disk, ran, written⟩ := writeLoop_spec buffer nodeAfter.high size size offset 0 extended nodeAfter.owned
    nodeAfter.complete (Nat.le_refl _) (by rw [lengthAfter])
  rw [Nat.zero_add, show ((0 : Nat) : Int) = 0 from rfl] at ran
  simp only [Nat.zero_add] at written
  have overwritten := written.overwritten nodeAfter.owned fun block below =>
    nodeAfter.complete.block (by rw [lengthAfter]; unfold blocksOf; omega) (by omega)
  have stepTwo := stepOne.volume.overwrite openedAfter nonzero overwritten
  have selfAfter := effect.kept _ _ node.self
  have sameTree : ∀ place : Place, place.within → sectorAt disk dataAfter place =
      sectorAt middle.disk ⟨direct, indirect, doubly, data.isDir, data.length, data.magic⟩ place := by
    intro place within
    rw [written.tree place within, extendedEq, dataEq]
    refine grown.owned.sectorAt_write (fun inner _ same => ?_) _ within
    rw [selfAfter] at same
    cases same
  refine ⟨disk, ran, stepOne.trans stepTwo, ?_, fun other changed => ?_⟩
  rotate_left
  · obtain ⟨block, below, _, rfl⟩ := written.frame other changed
    exact ⟨_, nodeAfter.owned _ (blockPlace_within block)
      (nodeAfter.complete.block (by rw [lengthAfter]; unfold blocksOf; omega) (by omega))⟩
  constructor
  · omega
  · exact of_decide_eq_true effect.outcome.symm
  · have free : middle.free = _ := effect.free
    rw [demandFor, ← free, extendedEq]
    rfl
  · rw [lengthAfter]
    omega
  · have same : middle.mem.allocationFailures = world.mem.allocationFailures := effect.failures
    rw [← same, extendedEq]
    rfl
  · rw [← effect.limit, extendedEq]
    rfl
  · intro other used
    have usedAfter := effect.used other used
    rw [extendedEq]
    exact usedAfter
  · intro tail
    have tailAfter := enlarged.tailZero tail (by omega)
    refine ⟨written.tailZero (by omega) tailAfter, fileBytes_overwrite node.low (by omega) fun pos inside => ?_⟩
    obtain ⟨posSmall, present⟩ := nodeAfter.block_present inside
    rw [written.byteAt posSmall present]
    split
    · rfl
    · exact enlarged.byteAt tail posSmall present fun before => (node.block_present before).2
  · intro exact
    obtain ⟨exactMiddle, taken⟩ := effect.exact volume.sound grown exact
    constructor
    · intro other place owned
      obtain ⟨within, there⟩ := exactMiddle other place owned
      exact ⟨within, (sameTree place within).trans there⟩
    · intro other inside used
      have usedMiddle : middle.used other := by
        rw [extendedEq] at used
        exact used
      refine (taken other inside usedMiddle).imp id ?_
      rintro ⟨place, member, same⟩
      refine ⟨place, by rwa [lengthAfter, ← blocks], ?_⟩
      rw [sameTree place (within_of_mem_inodePlaces member)]
      exact same
  · intro other owner owned absent
    exact (effect.fresh other owner owned absent).2.1
  · intro place within present
    exact (sameTree place within).trans (grown.kept within present)

/-- `inode_write_at` stores all bytes or none. -/
theorem Volume.inodeWriteAt (buffer : Nat → UInt8) {size offset : Nat} (positive : 0 < size)
    (sizeSmall : size < 2147483648) (offsetSmall : offset < 2147483648) :
    ∃ dataAfter next after,
      InodeStep shared sector own after nodes (Function.update nodes sector (some dataAfter)) world next ∧
      next.mem = { world.mem with
        freeMap := next.mem.freeMap, allocationFailures := next.mem.allocationFailures
        inodes := Function.update world.mem.inodes pointer (some (.live sector dataAfter)) } ∧
      dataAfter.isDir = data.isDir ∧
      (run (inodeWriteAt pointer buffer size offset) world = some ((size : Int), next) ∧
          Stores own after sector data dataAfter buffer size offset world next ∨
        run (inodeWriteAt pointer buffer size offset) world = some (0, next) ∧
          Keeps data dataAfter size offset world next) := by
  have present := volume.table.node opened
  have node := volume.node sector data present
  have maximum : maxBlocks = 16635 := rfl
  have low := node.low
  have high := node.high
  have sameNodes : Function.update nodes sector (some data) = nodes := by
    rw [← present]
    exact Function.update_eq_self _ _
  have sameMem : Function.update world.mem.inodes pointer (some (.live sector data)) = world.mem.inodes := by
    rw [← opened.object]
    exact Function.update_eq_self _ _
  by_cases inside : ((offset + size : Nat) : Int) ≤ data.length
  · obtain ⟨disk, ran, step, written, overwritten⟩ := volume.write_inPlace opened nonzero buffer positive inside
    refine ⟨data, _, own, by rw [sameNodes]; exact step, by rw [sameMem], rfl, .inl ⟨ran, ?_⟩⟩
    have none := demandFor_of_complete node.complete inside high
    refine ⟨by omega, by omega, by rw [none]; rfl, by omega, rfl, rfl, fun _ used => used, fun tail => ⟨written.tailZero inside tail, ?_⟩,
      fun exact => ⟨exact.congr written.tree, fun _ _ used => .inl used⟩, fun other owner owned absent => absurd (owned.symm.trans absent) (by simp),
      fun place within _ => written.tree place within⟩
    refine fileBytes_overwrite node.low (by omega) fun pos inFile => ?_
    obtain ⟨posSmall, there⟩ := node.block_present inFile
    rw [written.byteAt posSmall there, if_pos inFile]
  · have sum : wrap32 ((offset : Int) + size) = wrap32 (offset + size : Nat) := by push_cast; rfl
    by_cases wraps : offset + size < 2147483648
    · have length : wrap32 ((offset : Int) + size) = (offset + size : Nat) := by
        rw [wrap32_of_range (by omega) (by omega)]
        push_cast
        rfl
      obtain ⟨success, direct, indirect, doubly, middle, after, ran, effect, grown⟩ :=
        inodeWriteAt_extend buffer volume.sound volume.ready nonzero opened.object node.owned node.high node.low
          (show 0 ≤ wrap32 ((offset : Int) + size) by omega) (.inr (by omega))
      rw [length] at ran effect grown
      by_cases done : (success && decide (bytesToSectors (offset + size : Nat) ≤ maxBlocks)) = true
      · obtain ⟨reserved, fits⟩ := Bool.and_eq_true_iff.mp done
        rw [if_pos done, Int.toNat_natCast] at ran
        obtain ⟨disk, wrote, step, stores, _⟩ := volume.write_extended opened nonzero buffer wraps (by omega) effect grown
          reserved (of_decide_eq_true fits) rfl rfl
        refine ⟨_, _, after, step, ?_, rfl, .inl ⟨ran.trans wrote, stores⟩⟩
        have mem := effect.mem
        change (middle.setData pointer sector _).mem = _
        rw [World.setData, mem]
        rfl
      · rw [if_neg done] at ran
        obtain ⟨step, enlarged⟩ := volume.extend_failed opened nonzero effect grown
        refine ⟨_, _, after, step, ?_, rfl, .inr ⟨ran, by omega, ?_, ?_, rfl, fun tail => ⟨enlarged.tailZero tail (Int.le_refl _), ?_⟩,
          effect.limit, effect.used⟩⟩
        · have mem := effect.mem
          rw [World.setData, mem]
        · cases success with
          | false => exact .inr ⟨effect.failures, Nat.not_le.mp (of_decide_eq_false effect.outcome.symm)⟩
          | true =>
              left
              rw [Bool.true_and, decide_eq_true_eq, blocks_fit (by omega) (by omega)] at done
              omega
        · rw [if_pos wraps]
          exact effect.free
        · apply fileBytes_of_byteAt
          · rw [fileBytes, length_bytesAt]
          · intro pos inFile
            rw [fileBytes, length_bytesAt] at inFile
            have before : (pos : Int) < data.length := by omega
            obtain ⟨posSmall, there⟩ := node.block_present before
            have nodeAfter := step.volume.node sector _ (Function.update_self _ _ _)
            have still := (nodeAfter.block_present before).2
            have same := enlarged.byteAt tail posSmall still fun _ => there
            rw [if_pos before] at same
            simp only [fileBytes, bytesAt, List.getElem_map, List.getElem_range, Nat.zero_add]
            exact same
    · have negative : wrap32 ((offset : Int) + size) < 0 := by
        unfold wrap32
        omega
      refine ⟨data, world, own, ?_, by rw [sameMem], rfl, .inr ⟨inodeWriteAt_refused buffer opened.object node.high node.low negative,
        by omega, .inl (by omega), by rw [if_neg wraps], rfl, fun tail => ⟨tail, rfl⟩, rfl, fun _ used => used⟩⟩
      rw [sameNodes]
      exact ⟨volume, Touches.refl _ _ _ _, fun _ _ _ owned _ => owned, fun _ _ => rfl, Nat.le_refl _, fun _ => rfl⟩

end Write

end MockOS.Fs
