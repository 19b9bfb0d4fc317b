import MockOS.Fs.FreeMap
import MockOS.Fs.InodeRemoval

namespace MockOS.Fs

variable {shared : BlockSector → Prop} {own after : Owners} {world next : World} {nodes nodesAfter : Nodes}
  {sector inode : BlockSector} {pointer : Pointer} {data dataAfter : InodeDisk}

/-- A volume at rest on a disk, with the bits of its free map. -/
structure Image (own : Owners) (nodes : Nodes) (disk : BlockSector → Sector) (limit : Nat) (map : Nat → Bool)
    (freeMap : InodeDisk) : Prop where
  used : ∀ sector, own sector ≠ none → map sector.toNat = true ∧ sector.toNat < limit
  zero : ∀ inode place, own 0 ≠ some (inode, some place)
  self : ∀ sector inode, own sector = some (inode, none) → inode = sector
  reserved : map 0 = true
  positive : 0 < limit
  small : limit < 4294967296
  node : ∀ sector data, nodes sector = some data → Node own disk sector data
  stored : ∀ sector data, nodes sector = some data → InodeDisk.ofSector (disk sector) = data
  present : nodes 0 = some freeMap
  length : freeMap.length = Bitmap.byteCnt limit
  copy : ∀ index < limit, (byteAt disk freeMap (index / 8)).toNat.testBit (index % 8) = map index

/-- A volume whose inodes are all on the disk leaves an image. -/
theorem Volume.image (volume : Volume own shared nodes world)
    (stored : ∀ sector data, nodes sector = some data → InodeDisk.ofSector (world.disk sector) = data) :
    ∃ freeMap, Image own nodes world.disk world.limit world.mem.freeMap.bits freeMap := by
  obtain ⟨pointer, file, data, opened, copy, member⟩ := volume.freeMap
  refine ⟨data, volume.sound.used, volume.sound.zero, volume.sound.self, volume.sound.reserved, opened.positive,
    volume.sound.small, volume.node, stored, volume.table.node ⟨member, opened.liveInode⟩, opened.length, copy⟩

/-- The memory after the free map file was opened. -/
def Mem.openFreeMap (mem : Mem) (data : InodeDisk) : Mem :=
  { mem.openInode 0 data with
    nextPointer := mem.nextPointer + 1 + 1
    files := Function.update mem.files (mem.nextPointer + 1) (some ⟨mem.nextPointer, 0, false⟩)
    freeMapFile := some (mem.nextPointer + 1) }

theorem run_openFreeMapFile (opens : world.mem.openInodes = []) :
    run openFreeMapFile world =
      some ((), ⟨world.mem.openFreeMap (.ofSector (world.disk 0)), world.disk⟩) := by
  have opened : run (inodeOpen 0) world = some (world.mem.nextPointer,
      ⟨world.mem.openInode 0 (.ofSector (world.disk 0)), world.disk⟩) :=
    inodeOpen_closed (by simp [opens]) (by simp [World.closed, opens])
  rw [openFreeMapFile, run_bind, opened, Option.bind_some, run_bind, fileOpen, run_bind, newFile, run_bind, run_malloc,
    Option.bind_some, run_bind, run_setFile, Option.bind_some]
  rfl

/-- The sectors of the free map file. -/
def sharedSectors (disk : BlockSector → Sector) (data : InodeDisk) (sector : BlockSector) : Prop :=
  ∃ block < blocksOf data.length, sector = sectorAt disk data (blockPlace block)

theorem freeMapFile_openFreeMap (positive : 0 < world.limit) (length : data.length = Bitmap.byteCnt world.limit)
    (small : data.length ≤ 512 * maxBlocks) (owned : InodeOwned own world.disk 0 data)
    (complete : Complete world.disk data (blocksOf data.length)) :
    FreeMapFile own (sharedSectors world.disk data) ⟨world.mem.openFreeMap data, world.disk⟩
      (world.mem.nextPointer + 1) ⟨world.mem.nextPointer, 0, false⟩ (.live 0 data) where
  opened := rfl
  liveFile := Function.update_self _ _ _
  liveInode := Function.update_self _ _ _
  writable := rfl
  positive := positive
  length := length
  small := by
    have : data.length = Bitmap.byteCnt world.limit := length
    change Bitmap.byteCnt world.limit ≤ 512 * maxBlocks
    omega
  owned := owned
  complete := complete
  shared_iff _ := Iff.rfl

/-- `bitmap_read` loads the bits from the file. -/
theorem run_bitmapRead {file : File} {freeMapInode : Inode}
    (opened : FreeMapFile own shared world pointer file freeMapInode) :
    run bitmapRead world = some (true, ⟨{ world.mem with
      freeMap := world.mem.freeMap.load (fileBytes world.disk freeMapInode.data) }, world.disk⟩) := by
  have length := opened.length
  have fits := opened.small
  have maximum : maxBlocks = 16635 := rfl
  have read : run (readLoop freeMapInode.data (Bitmap.byteCnt world.limit) (Bitmap.byteCnt world.limit : Nat)
      ((0 : Nat) : Int)) world = some (fileBytes world.disk freeMapInode.data, world) := by
    rw [readLoop_spec (by omega) (by omega) _ _ _ _ opened.complete (Nat.le_refl _) (by decide), Nat.sub_zero,
      show min (Bitmap.byteCnt world.limit) freeMapInode.data.length.toNat = freeMapInode.data.length.toNat from by omega]
    rfl
  have positive : world.mem.freeMap.bitCnt > 0 := opened.positive
  rw [bitmapRead, run_bind, run_get, Option.bind_some, if_pos positive]
  simp only [run_bind, opened.opened, run_deref_some, Option.bind_some, fileReadAt, run_getFile opened.liveFile,
    inodeReadAt, run_getInode opened.liveInode, Int.toNat_natCast]
  change (run (readLoop freeMapInode.data (Bitmap.byteCnt world.limit) (Bitmap.byteCnt world.limit : Nat)
    ((0 : Nat) : Int)) world).bind _ = _
  rw [read, Option.bind_some]
  have full : ((fileBytes world.disk freeMapInode.data).length : Int) =
      (Bitmap.byteCnt world.mem.freeMap.bitCnt : Nat) := by
    rw [fileBytes, length_bytesAt]
    change ((freeMapInode.data.length.toNat : Nat) : Int) = (Bitmap.byteCnt world.limit : Nat)
    omega
  simp only [run_modify, Option.bind_some, run_pure, full, beq_self_eq_true, opened.opened]

/-- The bits after a load are those of the file. -/
theorem load_bits (bitmap : Bitmap) {store : BlockSector → Sector} {index : Nat} (inside : index < bitmap.bitCnt)
    (length : data.length = Bitmap.byteCnt bitmap.bitCnt) :
    (bitmap.load (fileBytes store data)).bits index = (byteAt store data (index / 8)).toNat.testBit (index % 8) := by
  have small := byteCnt_of_bit inside
  have found : (fileBytes store data)[index / 8]? = some (byteAt store data (index / 8)) := by
    rw [List.getElem?_eq_getElem (by rw [fileBytes, length_bytesAt]; omega)]
    simp [fileBytes, bytesAt]
  simp only [Bitmap.load, found, inside, decide_true, Bool.and_true, ite_self]

/-- No inode is open, and the addresses to come are unused. -/
structure Mem.AtRest (mem : Mem) : Prop where
  closed : mem.openInodes = []
  fresh : ∀ pointer, mem.nextPointer ≤ pointer →
    mem.inodes pointer = none ∧ mem.files pointer = none ∧ mem.dirs pointer = none

/-- The table when only the free map inode is open. -/
theorem Table.freeMapOnly {mem : Mem} {disk : BlockSector → Sector}
    (memSame : mem = { world.mem.openFreeMap data with freeMap := mem.freeMap }) (rest : world.mem.AtRest)
    (present : nodes 0 = some data)
    (stored : ∀ sector before, nodes sector = some before → sector ≠ 0 → InodeDisk.ofSector (disk sector) = before) :
    Table nodes ⟨mem, disk⟩ := by
  have opens : mem.openInodes = [world.mem.nextPointer] := by
    rw [memSame]
    exact congrArg _ rest.closed
  have object : mem.inodes world.mem.nextPointer = some (.live 0 data) := by
    rw [memSame]
    exact Function.update_self _ _ _
  constructor
  · intro pointer member
    change pointer ∈ mem.openInodes at member
    rw [opens, List.mem_singleton] at member
    exact ⟨0, data, member ▸ object, present⟩
  · change mem.openInodes.Nodup
    rw [opens]
    exact List.nodup_singleton _
  · intro first firstMember second secondMember _ _ _ _ _
    change first ∈ mem.openInodes at firstMember
    change second ∈ mem.openInodes at secondMember
    rw [opens, List.mem_singleton] at firstMember secondMember
    rw [firstMember, secondMember]
  · intro sector before there closed
    apply stored sector before there
    rintro rfl
    rw [present, Option.some.injEq] at there
    apply closed world.mem.nextPointer _ data object
    change world.mem.nextPointer ∈ mem.openInodes
    rw [opens]
    exact List.mem_singleton_self _
  · intro pointer above
    change mem.nextPointer ≤ pointer at above
    change mem.inodes pointer = none ∧ mem.files pointer = none ∧ mem.dirs pointer = none
    rw [memSame] at above ⊢
    have above : world.mem.nextPointer + 1 + 1 ≤ pointer := above
    have later : world.mem.nextPointer ≤ pointer :=
      Nat.le_of_succ_le (Nat.le_of_succ_le above)
    obtain ⟨noInode, noFile, noDir⟩ := rest.fresh pointer later
    refine ⟨?_, ?_, noDir⟩
    · change Function.update world.mem.inodes world.mem.nextPointer _ pointer = none
      rw [Function.update_of_ne (Nat.ne_of_gt (Nat.le_of_succ_le above)), noInode]
    · change Function.update world.mem.files (world.mem.nextPointer + 1) _ pointer = none
      rw [Function.update_of_ne (Nat.ne_of_gt above), noFile]

/-- `free_map_open` starts a volume from its image. -/
theorem Image.freeMapOpen {map : Nat → Bool} (image : Image own nodes world.disk world.limit map data)
    (rest : world.mem.AtRest) :
    ∃ mem, run freeMapOpen world = some ((), ⟨mem, world.disk⟩) ∧
      Volume own (sharedSectors world.disk data) nodes ⟨mem, world.disk⟩ ∧
      mem = { world.mem.openFreeMap data with freeMap := mem.freeMap } ∧ mem.freeMap.bitCnt = world.limit ∧
      ∀ index < world.limit, mem.freeMap.bits index = map index := by
  have node := image.node 0 data image.present
  have fileOpen := freeMapFile_openFreeMap image.positive image.length node.high node.owned node.complete
  obtain ⟨mem, memEq⟩ : ∃ mem : Mem, mem = { world.mem.openFreeMap data with
    freeMap := world.mem.freeMap.load (fileBytes world.disk data) } := ⟨_, rfl⟩
  have bitCnt : mem.freeMap.bitCnt = world.limit := by
    rw [memEq]
    rfl
  have bits : ∀ index < world.limit, mem.freeMap.bits index =
      (byteAt world.disk data (index / 8)).toNat.testBit (index % 8) := by
    intro index inside
    rw [memEq]
    exact load_bits world.mem.freeMap inside image.length
  have memSame : mem = { world.mem.openFreeMap data with freeMap := mem.freeMap } := by rw [memEq]
  have file : FreeMapFile own (sharedSectors world.disk data) ⟨mem, world.disk⟩ (world.mem.nextPointer + 1)
      ⟨world.mem.nextPointer, 0, false⟩ (.live 0 data) :=
    fileOpen.congr (by rw [memSame]) (by rw [memSame]) (by rw [memSame]) bitCnt (fun _ _ same => same) fun _ _ => rfl
  have opens : mem.openInodes = [world.mem.nextPointer] := by
    rw [memSame]
    exact congrArg _ rest.closed
  refine ⟨mem, ?_, ⟨⟨?_, image.zero, image.self, ?_, ?_⟩, ?_, image.node, ?_⟩, memSame, bitCnt, ?_⟩
  · rw [MockOS.Fs.freeMapOpen, run_bind, run_openFreeMapFile rest.closed, Option.bind_some, run_bind,
      image.stored 0 data image.present, run_bitmapRead fileOpen, Option.bind_some, if_pos rfl, run_pure, memEq]
    rfl
  · intro sector owned
    obtain ⟨isSet, inside⟩ := image.used sector owned
    constructor
    · change mem.freeMap.bits sector.toNat = true
      rw [bits _ inside, image.copy _ inside, isSet]
    · change sector.toNat < mem.freeMap.bitCnt
      rwa [bitCnt]
  · change mem.freeMap.bits 0 = true
    rw [bits 0 image.positive, image.copy 0 image.positive, image.reserved]
  · change mem.freeMap.bitCnt < 4294967296
    rw [bitCnt]
    exact image.small
  · refine ⟨_, _, data, file, fun index inside => ?_, ?_⟩
    · change index < mem.freeMap.bitCnt at inside
      rw [bitCnt] at inside
      exact (bits index inside).symm
    · change world.mem.nextPointer ∈ mem.openInodes
      rw [opens]
      exact List.mem_singleton_self _
  · exact Table.freeMapOnly memSame rest image.present fun sector before present _ => image.stored sector before present
  · intro index inside
    rw [bits index inside, image.copy index inside]

end MockOS.Fs
