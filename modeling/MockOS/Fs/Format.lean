import MockOS.Fs.DirectorySpec
import MockOS.Fs.Filesys
import MockOS.Fs.VolumeImage

namespace MockOS.Fs

variable {shared : BlockSector → Prop} {own after : Owners} {world next : World} {nodes nodesAfter : Nodes}
  {sector inode : BlockSector} {pointer : Pointer} {data dataAfter : InodeDisk}

/-- The memory when the program starts. -/
def Mem.boot (deviceSize : UInt32) (garbage : Nat → UInt8) : Mem where
  deviceSize := deviceSize
  freeMap := ⟨0, fun _ => false⟩
  freeMapFile := none
  openInodes := []
  cwd := none
  fileTable := []
  inodes := fun _ => none
  files := fun _ => none
  dirs := fun _ => none
  nextPointer := 0
  garbage := garbage
  panics := 0
  allocationFailures := 0

/-- The number of bits that `free_map_init` makes. -/
def mapBits (deviceSize : UInt32) : Nat := (deviceSize - 1).toNat

/-- The free map and the root directory have room on the device. -/
structure FormatFits (deviceSize : UInt32) : Prop where
  file : Bitmap.byteCnt (mapBits deviceSize) ≤ 512 * maxBlocks
  room : 2 + (inodePlaces (blocksOf (Bitmap.byteCnt (mapBits deviceSize)))).length +
    (inodePlaces (blocksOf 36000)).length ≤ mapBits deviceSize

/-- The free map in which only the first two sectors are in use. -/
def initialMap (bitCnt : Nat) : Bitmap := ((Bitmap.bitmapCreate bitCnt).mark 0 true).mark 1 true

theorem free_initialMap {bitCnt : Nat} (large : 2 ≤ bitCnt) : (initialMap bitCnt).free + 2 = bitCnt := by
  have empty : (Bitmap.bitmapCreate bitCnt).free = bitCnt := by
    simp [Bitmap.free_eq, Bitmap.bitmapCreate]
  have first : ((Bitmap.bitmapCreate bitCnt).mark 0 true).free + 1 = (Bitmap.bitmapCreate bitCnt).free :=
    Bitmap.free_mark_true (by change 0 < bitCnt; omega) rfl
  have second : (initialMap bitCnt).free + 1 = ((Bitmap.bitmapCreate bitCnt).mark 0 true).free :=
    Bitmap.free_mark_true (by change 1 < bitCnt; omega) rfl
  omega

theorem initialMap_bits (bitCnt index : Nat) : (initialMap bitCnt).bits index = decide (index < 2) := by
  rw [initialMap, Bitmap.mark_bits, Bitmap.mark_bits]
  obtain rfl | rfl | large : index = 0 ∨ index = 1 ∨ 2 ≤ index := by omega
  · rfl
  · rfl
  · rw [if_neg (by omega), if_neg (by omega)]
    exact (decide_eq_false (by omega)).symm

theorem run_freeMapInit (large : 0 < mapBits world.mem.deviceSize) :
    run freeMapInit world =
      some ((), ⟨{ world.mem with freeMap := initialMap (mapBits world.mem.deviceSize) }, world.disk⟩) := by
  have elements : 0 < Bitmap.elemCnt (mapBits world.mem.deviceSize) := by
    unfold Bitmap.elemCnt
    omega
  have first : (Bitmap.bitmapCreate (mapBits world.mem.deviceSize)).bitmapSet 0 true =
      some ((Bitmap.bitmapCreate (mapBits world.mem.deviceSize)).mark 0 true) := if_pos elements
  have second : ((Bitmap.bitmapCreate (mapBits world.mem.deviceSize)).mark 0 true).bitmapSet 1 true =
      some (initialMap (mapBits world.mem.deviceSize)) := if_pos elements
  rw [freeMapInit, run_bind, run_get, Option.bind_some]
  change run (setFreeMap (((Bitmap.bitmapCreate (mapBits world.mem.deviceSize)).bitmapSet 0 true).bind _)) world = _
  rw [first, Option.bind_some, second]
  rfl

/-- At the start the first two sectors belong to the inodes of the free map and of the root directory. -/
def initialOwners : Owners := fun sector => if sector = 0 then some (0, none) else if sector = 1 then some (1, none) else none

theorem initialOwners_sound (map : world.mem.freeMap = initialMap world.limit) (large : 2 ≤ world.limit)
    (small : world.limit < 4294967296) : initialOwners.Sound world := by
  have isUsed : ∀ sector : BlockSector, sector.toNat < 2 → world.used sector := by
    intro sector inside
    rw [World.used, map, initialMap_bits]
    exact decide_eq_true inside
  constructor
  · intro sector owned
    unfold initialOwners at owned
    split_ifs at owned with zero one
    · subst zero
      exact ⟨isUsed 0 (by decide), Nat.lt_of_lt_of_le (by decide) large⟩
    · subst one
      exact ⟨isUsed 1 (by decide), Nat.lt_of_lt_of_le (by decide) large⟩
    · exact absurd rfl owned
  · intro number place owned
    simp [initialOwners] at owned
  · intro sector number owned
    unfold initialOwners at owned
    split_ifs at owned with zero one
    · rw [zero]
      simpa using owned.symm
    · rw [one]
      simpa using owned.symm
  · exact isUsed 0 (by decide)
  · exact small

/-- `free_map_create` makes the free map file and opens it. -/
theorem freeMapCreate_spec (map : world.mem.freeMap = initialMap world.limit) (small : world.limit < 4294967296)
    (fits : Bitmap.byteCnt world.limit ≤ 512 * maxBlocks)
    (room : 2 + (inodePlaces (blocksOf (Bitmap.byteCnt world.limit))).length ≤ world.limit)
    (noFile : world.mem.freeMapFile = none) (rest : world.mem.AtRest) :
    ∃ next shared own data, run freeMapCreate world = some ((), next) ∧
      next.mem = { world.mem.openFreeMap data with freeMap := next.mem.freeMap } ∧
      Volume own shared (Function.update (fun _ => none) 0 (some data)) next ∧
      own 1 = some (1, none) ∧ InodeDisk.ofSector (next.disk 0) = data ∧ next.limit = world.limit ∧
      next.free = world.limit - 2 - (inodePlaces (blocksOf (Bitmap.byteCnt world.limit))).length ∧
      FirstFit world next := by
  have maximum : maxBlocks = 16635 := rfl
  have large : 2 ≤ world.limit := by omega
  have sound := initialOwners_sound map large small
  have length : ((Bitmap.byteCnt world.limit : Nat) : Int) < 2147483648 := by omega
  have blocks : bytesToSectors (Bitmap.byteCnt world.limit : Nat) = blocksOf (Bitmap.byteCnt world.limit : Nat) :=
    bytesToSectors_eq (by omega) (by omega)
  obtain ⟨success, direct, indirect, doubly, middle, after, ran, effect, grown⟩ :=
    @inodeCreate_run (fun _ => False) initialOwners world 0 _ (Int.natCast_nonneg (Bitmap.byteCnt world.limit)) false
      sound (.inl ⟨noFile, fun _ => id⟩) (.inl noFile)
  have freeBefore : world.free + 2 = world.limit := by
    rw [World.free, map]
    exact free_initialMap large
  have demand : (inodeDemand world.disk (emptyInode (Bitmap.byteCnt world.limit : Nat) false)
      (bytesToSectors (Bitmap.byteCnt world.limit : Nat))).length =
        (inodePlaces (blocksOf (Bitmap.byteCnt world.limit))).length := by
    rw [length_inodeDemand_emptyInode, blocks]
  obtain rfl : success = true := by
    rw [effect.outcome, decide_eq_true_eq, demand]
    omega
  have inFile : bytesToSectors (Bitmap.byteCnt world.limit : Nat) ≤ maxBlocks := (blocks_fit (by omega) length).mpr (by omega)
  rw [Bool.true_and, if_pos (decide_eq_true inFile)] at ran
  obtain ⟨data, dataEq⟩ : ∃ data : InodeDisk,
    data = ⟨direct, indirect, doubly, false, (Bitmap.byteCnt world.limit : Nat), inodeMagic⟩ := ⟨_, rfl⟩
  rw [← dataEq] at ran grown
  obtain ⟨created, createdEq⟩ : ∃ created, created = middle.write 0 data.toSector := ⟨_, rfl⟩
  rw [← createdEq] at ran
  have selfAfter : after 0 = some (0, none) := effect.kept 0 _ rfl
  have lengthEq : data.length = (Bitmap.byteCnt world.limit : Nat) := by rw [dataEq]
  have mem : created.mem = { world.mem with
      freeMap := created.mem.freeMap, allocationFailures := created.mem.allocationFailures } := by
    rw [createdEq, World.write_mem, effect.mem]
  have limit : created.limit = world.limit := by
    rw [createdEq]
    exact effect.limit
  have sameTree : ∀ place : Place, place.within → sectorAt created.disk data place = sectorAt middle.disk data place := by
    intro place within
    rw [createdEq]
    refine grown.owned.sectorAt_write (fun inner _ same => ?_) _ within
    rw [selfAfter] at same
    cases same
  have complete : Complete created.disk data (blocksOf data.length) := by
    intro place needed
    have within := within_of_mem_inodePlaces needed
    rw [sameTree place within]
    rw [lengthEq, ← blocks] at needed
    exact grown.full within needed
  have stored : InodeDisk.ofSector (created.disk 0) = data := by
    rw [createdEq, World.write_same]
    exact InodeDisk.ofSector_toSector (by omega) (by omega)
  have atRest : created.mem.AtRest := by
    rw [mem]
    exact ⟨rest.closed, rest.fresh⟩
  have opened := freeMapFile_openFreeMap (by rw [limit]; omega) (by rw [limit, lengthEq]) (by omega)
    (grown.owned.congr sameTree) complete
  have soundOpen : after.Sound ⟨created.mem.openFreeMap data, created.disk⟩ :=
    (effect.sound sound).congr (by rw [createdEq]; rfl) fun other _ used => by
      rw [createdEq]
      exact used
  obtain ⟨disk, wrote, frame, openedAfter, copy⟩ := bitmapWrite_spec soundOpen opened 1
  refine ⟨⟨created.mem.openFreeMap data, disk⟩, sharedSectors created.disk data, after, data, ?_, ?_, ⟨?_, ?_, ?_, ?_⟩,
    effect.kept 1 _ rfl, ?_, limit, ?_, ?_⟩
  · have opens := run_openFreeMapFile atRest.closed
    rw [stored] at opens
    rw [freeMapCreate, run_bind, run_get, Option.bind_some, run_bind]
    change (run (inodeCreate 0 (Bitmap.byteCnt world.limit : Nat) false) world).bind _ = _
    rw [ran, Option.bind_some]
    dsimp only
    rw [if_pos rfl, run_bind, opens, Option.bind_some, run_bind, inodeWriteAt, wrote]
    rfl
  · have failures : created.mem.allocationFailures = world.mem.allocationFailures := by
      rw [createdEq]
      exact effect.failures
    change created.mem.openFreeMap data =
      { world.mem.openFreeMap data with freeMap := created.mem.freeMap }
    rw [mem, failures]
    rfl
  · exact soundOpen.congr rfl fun _ _ used => used
  · exact ⟨_, _, data, openedAfter, copy, List.mem_cons_self⟩
  · intro other before present
    by_cases zero : other = 0
    · subst zero
      rw [Function.update_self, Option.some.injEq] at present
      subst present
      exact ⟨selfAfter, by omega, by omega, openedAfter.owned, openedAfter.complete, fun absurd_ => absurd rfl absurd_⟩
    · rw [Function.update_of_ne zero] at present
      cases present
  · refine Table.freeMapOnly rfl atRest (Function.update_self _ _ _) fun other before present nonzero => ?_
    rw [Function.update_of_ne nonzero] at present
    cases present
  · have unchanged : disk 0 = created.disk 0 := by
      by_contra changed
      obtain ⟨block, _, owned⟩ := opened.shared_owned (frame 0 changed)
      rw [selfAfter] at owned
      cases owned
    change InodeDisk.ofSector (disk 0) = data
    rw [unchanged, stored]
  · change created.free = _
    rw [createdEq, World.write_free, effect.free, demand]
    omega
  · have creates := firstFit_steps.create _ _ _ _ _ _ ran
    have opens : FirstFit created ⟨created.mem.openFreeMap data, created.disk⟩ := .of_freeMap rfl rfl
    exact trans_of FirstFit (trans_of FirstFit creates opens)
      (respects_bitmapWrite (firstFit_steps.writeAtWithin 2) _ _ _ wrote)

/-- The memory after `free_map_close`; the pointer to the file stays behind. -/
def Mem.closeFreeMap (mem : Mem) (file inode : Pointer) : Mem :=
  { mem.closeInode inode with files := Function.update mem.files file none }

theorem run_freeMapClose {file : Pointer} (opens : world.mem.freeMapFile = some file)
    (liveFile : world.mem.files file = some ⟨pointer, 0, false⟩)
    (liveInode : world.mem.inodes pointer = some (.live sector data)) :
    run freeMapClose world = some ((), ⟨world.mem.closeFreeMap file pointer, world.disk⟩) := by
  rw [freeMapClose, run_bind, run_get, Option.bind_some, opens, fileClose, run_bind, fileAllowWrite, run_bind,
    run_getFile liveFile, Option.bind_some, if_neg (by simp), run_pure, Option.bind_some, run_bind, run_getFile liveFile,
    Option.bind_some, run_bind, run_inodeClose liveInode]
  rfl

/-- The memory after a format or a start: only the free map file is open. -/
structure Mem.Started (mem : Mem) (pointer : Pointer) (data : InodeDisk) : Prop where
  freeMapFile : mem.freeMapFile = some (pointer + 1)
  openInodes : mem.openInodes = [pointer]
  inodes : mem.inodes = Function.update (fun _ => none) pointer (some (.live 0 data))
  files : mem.files = Function.update (fun _ => none) (pointer + 1) (some ⟨pointer, 0, false⟩)
  dirs : mem.dirs = fun _ => none
  cwd : mem.cwd = none
  fileTable : mem.fileTable = []
  nextPointer : mem.nextPointer = pointer + 2
  panics : mem.panics = 0
  allocationFailures : mem.allocationFailures = 0

/-- The state after a format: an empty root directory and nothing else. -/
structure Fresh (own : Owners) (shared : BlockSector → Prop) (nodes : Nodes) (deviceSize : UInt32) (world : World) :
    Prop where
  volume : Volume own shared nodes world
  limit : world.limit = mapBits deviceSize
  free : world.free + 2 + (inodePlaces (blocksOf (Bitmap.byteCnt (mapBits deviceSize)))).length +
    (inodePlaces (blocksOf 36000)).length = mapBits deviceSize
  deviceSize : world.mem.deviceSize = deviceSize
  nodes : ∃ pointer freeMap root, world.mem.Started pointer freeMap ∧
    nodes = Function.update (Function.update (fun _ => none) 0 (some freeMap)) 1 (some root) ∧
    InodeDisk.ofSector (world.disk 0) = freeMap ∧ HoldsEntries world.disk root (newEntries 1 1000) ∧ root.isDir = true

/-- `filesys_init` formats a device that is large enough, and the free sectors are those behind the root directory. -/
theorem filesysInit_freeFrom {deviceSize : UInt32} (garbage : Nat → UInt8) (disk : BlockSector → Sector)
    (fits : FormatFits deviceSize) :
    ∃ world own shared nodes, run (filesysInit true) ⟨.boot deviceSize garbage, disk⟩ = some ((), world) ∧
      Fresh own shared nodes deviceSize world ∧ ∃ m, world.FreeFrom m := by
  have maximum : maxBlocks = 16635 := rfl
  have room := fits.room
  obtain ⟨begun, begunEq⟩ : ∃ begun : World, begun =
    ⟨{ Mem.boot deviceSize garbage with freeMap := initialMap (mapBits deviceSize) }, disk⟩ := ⟨_, rfl⟩
  have limit : begun.limit = mapBits deviceSize := by rw [begunEq]; rfl
  have small : mapBits deviceSize < 4294967296 := (deviceSize - 1).toNat_lt
  have initialized : run freeMapInit ⟨.boot deviceSize garbage, disk⟩ = some ((), begun) := by
    rw [begunEq]
    exact run_freeMapInit (by
      change 0 < mapBits deviceSize
      omega)
  obtain ⟨made, shared₁, own₁, freeMap, ranMade, memMade, volumeMade, ownsRoot, storedMade, limitMade, freeMade,
    fitMade⟩ :=
    @freeMapCreate_spec begun (by rw [limit, begunEq]) (by omega) (by rw [limit]; exact fits.file) (by rw [limit]; omega)
      (by rw [begunEq]; rfl) (by rw [begunEq]; exact ⟨rfl, fun _ _ => ⟨rfl, rfl, rfl⟩⟩)
  obtain ⟨root, rooted, own₂, ranRooted, memRooted, stepRooted, holds, isDir, limitRooted, freeRooted,
    fitRooted⟩ :=
    volumeMade.dirCreate ownsRoot (by simp) (by decide) 1000 (by decide) (by omega) (by
      rw [freeMade, limit, show ((36 * 1000 : Nat) : Int) = 36000 from rfl]
      omega)
  rw [begunEq] at memMade
  have memRoot : rooted.mem = { Mem.boot deviceSize garbage with
      freeMap := rooted.mem.freeMap
      freeMapFile := some 1
      openInodes := [0]
      inodes := Function.update (fun _ => none) 0 (some (.live 0 freeMap))
      files := Function.update (fun _ => none) 1 (some ⟨0, 0, false⟩)
      nextPointer := 4 } := by
    rw [memRooted, memMade]
    rfl
  have ranClose : run freeMapClose rooted = some ((), ⟨rooted.mem.closeFreeMap 1 0, rooted.disk⟩) := by
    apply run_freeMapClose
    · rw [memRoot]
    · rw [memRoot]
      rfl
    · rw [memRoot]
      rfl
  have failures : rooted.mem.allocationFailures = made.mem.allocationFailures := by rw [memRooted]
  have present : Function.update (Function.update (fun _ => none) 0 (some freeMap)) 1 (some root) (0 : BlockSector) =
      some freeMap := rfl
  obtain ⟨freeMapData, image⟩ := stepRooted.volume.image (by
    intro sector data there
    by_cases zero : sector = 0
    · subst zero
      rw [present, Option.some.injEq] at there
      rw [stepRooted.zero failures, storedMade, there]
    · apply stepRooted.volume.table.closed sector data there
      intro pointer member before object
      rw [memRoot] at member object
      rw [List.mem_singleton.mp member] at object
      change some (Inode.live 0 freeMap) = some (Inode.live sector before) at object
      rw [Option.some.injEq, Inode.live_inj] at object
      exact zero object.1.symm)
  obtain rfl : freeMap = freeMapData := by
    have there := image.present
    rw [present, Option.some.injEq] at there
    exact there
  obtain ⟨closed, closedEq⟩ : ∃ closed : World, closed = ⟨rooted.mem.closeFreeMap 1 0, rooted.disk⟩ := ⟨_, rfl⟩
  have memClosed : closed.mem = { Mem.boot deviceSize garbage with
      freeMap := rooted.mem.freeMap, freeMapFile := some 1, nextPointer := 4 } := by
    rw [closedEq]
    change rooted.mem.closeFreeMap 1 0 = _
    rw [memRoot]
    simp only [Mem.closeFreeMap, Mem.closeInode, Function.update_idem, Function.update_eq_self, List.erase_cons_head]
    rfl
  have atRest : closed.mem.AtRest := by
    rw [memClosed]
    exact ⟨rfl, fun _ _ => ⟨rfl, rfl, rfl⟩⟩
  have closedDisk : closed.disk = rooted.disk := by rw [closedEq]
  have closedLimit : closed.limit = rooted.limit := by rw [closedEq]; rfl
  rw [← closedDisk, ← closedLimit] at image
  obtain ⟨mem, ranOpen, volume, memOpen, bitCnt, bits⟩ := image.freeMapOpen atRest
  obtain ⟨started, startedEq⟩ : ∃ started : World, started = ⟨{ mem with fileTable := [] }, closed.disk⟩ := ⟨_, rfl⟩
  have memStarted : started.mem = { Mem.boot deviceSize garbage with
      freeMap := mem.freeMap
      freeMapFile := some 5
      openInodes := [4]
      inodes := Function.update (fun _ => none) 4 (some (.live 0 freeMap))
      files := Function.update (fun _ => none) 5 (some ⟨4, 0, false⟩)
      nextPointer := 6 } := by
    rw [startedEq]
    change { mem with fileTable := [] } = _
    rw [memOpen, memClosed]
    rfl
  have limitAll : closed.limit = mapBits deviceSize := by
    rw [closedLimit, limitRooted, limitMade, limit]
  have sameBits : ∀ index < mapBits deviceSize, started.mem.freeMap.bits index = rooted.mem.freeMap.bits index := by
    intro index inside
    rw [startedEq, bits index (by rwa [limitAll])]
  refine ⟨started, own₂, _, _, ?_, ⟨volume.heap ?_ ?_ ?_ ?_ ?_, ?_, ?_, ?_, 4, freeMap, root, ?_, rfl, ?_, ?_, isDir⟩, ?_⟩
  · have formatted : run doFormat begun = some ((), closed) := by
      rw [doFormat, run_bind, ranMade, Option.bind_some, run_bind, ranRooted, Option.bind_some, closedEq]
      exact ranClose
    rw [filesysInit, run_bind, inodeInit, run_modify, Option.bind_some, run_bind]
    change (run freeMapInit ⟨.boot deviceSize garbage, disk⟩).bind _ = _
    rw [initialized, Option.bind_some, if_pos rfl, run_bind, formatted, Option.bind_some, run_bind, ranOpen,
      Option.bind_some, initFileTable, run_modify, startedEq]
  · rw [startedEq]
  · rw [startedEq]
  · intro _ _
    rw [startedEq]
  · rw [startedEq]
  · intro pointer above
    rw [startedEq] at above ⊢
    exact (volume.table.fresh pointer above).2
  · rw [startedEq]
    exact bitCnt.trans limitAll
  · have free : started.free = rooted.free := by
      rw [startedEq]
      apply Bitmap.free_congr (bitCnt.trans closedLimit)
      intro index inside
      rw [bits index (by rwa [closedLimit])]
    rw [free, freeRooted, freeMade, limit, show ((36 * 1000 : Nat) : Int) = 36000 from rfl]
    omega
  · rw [memStarted]
    rfl
  · rw [memStarted]
    constructor <;> rfl
  · rw [startedEq]
    exact image.stored 0 freeMap image.present
  · rw [startedEq, closedDisk]
    exact holds
  · have before : begun.FreeFrom 2 := fun sector _ => by
      rw [World.used, begunEq]
      simp [initialMap_bits]
    have failuresMade : made.mem.allocationFailures = begun.mem.allocationFailures := by
      rw [memMade, begunEq]
      rfl
    obtain ⟨m, freeFrom⟩ := (trans_of FirstFit fitMade fitRooted).freeFrom (failures.trans failuresMade) before
    refine ⟨m, fun sector inside => ?_⟩
    have small : sector.toNat < mapBits deviceSize := by
      rw [startedEq] at inside
      exact (bitCnt.trans limitAll) ▸ inside
    rw [World.used, sameBits _ small]
    exact freeFrom sector (by rwa [limitRooted, limitMade, limit])

/-- `filesys_init` formats a device that is large enough. -/
theorem filesysInit_format {deviceSize : UInt32} (garbage : Nat → UInt8) (disk : BlockSector → Sector)
    (fits : FormatFits deviceSize) :
    ∃ world own shared nodes, run (filesysInit true) ⟨.boot deviceSize garbage, disk⟩ = some ((), world) ∧
      Fresh own shared nodes deviceSize world := by
  obtain ⟨world, own, shared, nodes, ran, fresh, _⟩ := filesysInit_freeFrom garbage disk fits
  exact ⟨world, own, shared, nodes, ran, fresh⟩

end MockOS.Fs
