import MockOS.Fs.ReadWrite

namespace MockOS.Fs

namespace World

def mark (world : World) (sector : BlockSector) (value : Bool) : World :=
  ⟨{ world.mem with freeMap := world.mem.freeMap.mark sector.toNat value }, world.disk⟩

/-- A failed allocation leaves a trace only in the count. -/
def failed (world : World) : World :=
  ⟨{ world.mem with allocationFailures := world.mem.allocationFailures + 1 }, world.disk⟩

@[simp] theorem mark_limit (world : World) (sector : BlockSector) (value : Bool) :
    (world.mark sector value).limit = world.limit := rfl

@[simp] theorem mark_disk (world : World) (sector : BlockSector) (value : Bool) :
    (world.mark sector value).disk = world.disk := rfl

@[simp] theorem write_limit (world : World) (sector : BlockSector) (block : Sector) :
    (world.write sector block).limit = world.limit := rfl

@[simp] theorem write_free (world : World) (sector : BlockSector) (block : Sector) :
    (world.write sector block).free = world.free := rfl

theorem mark_used (world : World) (sector other : BlockSector) (value : Bool) :
    (world.mark sector value).used other ↔ if other = sector then value = true else world.used other := by
  unfold used mark
  rw [Bitmap.mark_bits]
  by_cases same : other = sector
  · simp [same]
  · rw [if_neg (fun equal => same (UInt32.toNat_inj.mp equal)), if_neg same]

end World

@[simp] theorem run_setFreeMap (bitmap : Bitmap) (world : World) : run (setFreeMap (some bitmap)) world =
    some ((), ⟨{ world.mem with freeMap := bitmap }, world.disk⟩) := rfl

@[simp] theorem run_allocationFailed (world : World) :
    run allocationFailed world = some (none, world.failed) := rfl

theorem Owners.Sound.ne_noSector {own : Owners} {world : World} (sound : own.Sound world) {sector : BlockSector}
    (owned : own sector ≠ none) : sector ≠ noSector := by
  intro same
  have := (sound.used sector owned).2
  have := sound.small
  rw [same] at *
  have : noSector.toNat = 4294967295 := rfl
  omega

/-- A write within the file does not extend it. -/
theorem inodeWriteAt_inside {own : Owners} {world : World} (sound : own.Sound world) {pointer : Pointer}
    {inode : Inode} {number : BlockSector} (live : world.mem.inodes pointer = some inode)
    (writable : inode.denyWriteCnt = 0) (owned : InodeOwned own world.disk number inode.data)
    (limit : inode.data.length ≤ 512 * maxBlocks)
    (complete : Complete world.disk inode.data (blocksOf inode.data.length)) (depth : Nat) (buffer : Nat → UInt8)
    (size offset : Nat) (positive : 0 < size) (inside : (offset + size : Nat) ≤ inode.data.length) :
    ∃ disk, run (inodeWriteAtWithin (depth + 1) pointer buffer size offset) world =
        some ((size : Int), ⟨world.mem, disk⟩) ∧
      Written world.disk disk inode.data (fun pos => buffer (pos - offset)) offset (offset + size) := by
  have maximum : maxBlocks = 16635 := rfl
  have last : wrap32 (wrap32 ((offset : Int) + size) - 1) = (offset + size - 1 : Nat) := by
    have sum : wrap32 ((offset : Int) + size) = offset + size := wrap32_of_range (by omega) (by omega)
    rw [sum, wrap32_of_range (by omega) (by omega)]
    omega
  have small : (offset + size - 1) / 512 < maxBlocks := by omega
  have present := complete.block (by unfold blocksOf; omega :
    (offset + size - 1) / 512 < blocksOf inode.data.length) small
  have found : sectorAt world.disk inode.data (blockPlace ((offset + size - 1) / 512)) ≠ noSector := by
    apply sound.ne_noSector
    rw [owned _ (blockPlace_within _) present]
    exact Option.some_ne_none _
  obtain ⟨disk, ran, written⟩ := writeLoop_spec buffer limit size size offset 0 world owned complete (Nat.le_refl _)
    inside
  refine ⟨disk, ?_, ?_⟩
  · rw [inodeWriteAtWithin, run_bind, run_getInode live, Option.bind_some, if_neg (by simp [writable]), run_bind, last,
      byteToSector_spec (by omega) small present, Option.bind_some, if_neg found, Int.toNat_natCast]
    rw [show ((0 : Nat) : Int) = 0 from rfl] at ran
    rw [ran, Nat.zero_add]
  · simpa using written

/-- The sectors of the free map file have their owner. -/
theorem FreeMapFile.shared_owned {own : Owners} {shared : BlockSector → Prop} {world : World} {pointer : Pointer}
    {file : File} {inode : Inode} (opened : FreeMapFile own shared world pointer file inode) {sector : BlockSector}
    (inFile : shared sector) : ∃ block < maxBlocks, own sector = some (0, some (blockPlace block)) := by
  obtain ⟨block, wanted, rfl⟩ := (opened.shared_iff sector).mp inFile
  have small : block < maxBlocks := by
    have := opened.length
    have := opened.small
    unfold blocksOf at wanted
    omega
  exact ⟨block, small, opened.owned _ (blockPlace_within block) (opened.complete.block wanted small)⟩

/-- The file stays in place when only its own data sectors and the bits change. -/
theorem FreeMapFile.congr {own other : Owners} {shared : BlockSector → Prop} {world next : World}
    {pointer : Pointer} {file : File} {inode : Inode} (opened : FreeMapFile own shared world pointer file inode)
    (sameFile : next.mem.freeMapFile = world.mem.freeMapFile)
    (sameFiles : next.mem.files pointer = world.mem.files pointer)
    (sameInode : next.mem.inodes file.inode = world.mem.inodes file.inode) (sameLimit : next.limit = world.limit)
    (sameOwners : ∀ sector place, own sector = some (0, some place) → other sector = some (0, some place))
    (sameTree : ∀ place : Place, place.within →
      sectorAt next.disk inode.data place = sectorAt world.disk inode.data place) :
    FreeMapFile other shared next pointer file inode where
  opened := sameFile.trans opened.opened
  liveFile := by rw [sameFiles, opened.liveFile]
  liveInode := by rw [sameInode, opened.liveInode]
  writable := opened.writable
  positive := by rw [sameLimit]; exact opened.positive
  length := by rw [sameLimit, opened.length]
  small := by rw [sameLimit]; exact opened.small
  owned place within present := by
    rw [sameTree place within] at present ⊢
    exact sameOwners _ _ (opened.owned place within present)
  complete := opened.complete.congr sameTree
  shared_iff sector := by
    rw [opened.shared_iff]
    refine exists_congr fun block => and_congr_right fun _ => ?_
    rw [sameTree _ (blockPlace_within block)]

/-- Each bit is in a byte of the file. -/
theorem byteCnt_of_bit {index bitCnt : Nat} (inside : index < bitCnt) : index / 8 < Bitmap.byteCnt bitCnt := by
  unfold Bitmap.byteCnt Bitmap.elemCnt
  omega

/-- `bitmap_write` stores the bits and changes only the data sectors of the free map file. -/
theorem bitmapWrite_spec {own : Owners} {shared : BlockSector → Prop} {world : World} {pointer : Pointer}
    {file : File} {inode : Inode} (sound : own.Sound world) (opened : FreeMapFile own shared world pointer file inode)
    (depth : Nat) : ∃ disk, run (bitmapWrite (inodeWriteAtWithin (depth + 1))) world =
        some (true, ⟨world.mem, disk⟩) ∧ (∀ sector, disk sector ≠ world.disk sector → shared sector) ∧
      FreeMapFile own shared ⟨world.mem, disk⟩ pointer file inode ∧ FreeMapCopy ⟨world.mem, disk⟩ inode.data := by
  have length := opened.length
  have bytes : 0 < Bitmap.byteCnt world.limit := by
    have := opened.positive
    unfold Bitmap.byteCnt Bitmap.elemCnt
    omega
  have fits := opened.small
  obtain ⟨disk, ran, written⟩ := inodeWriteAt_inside sound opened.liveInode opened.writable opened.owned (by omega)
    opened.complete depth world.mem.freeMap.byte (Bitmap.byteCnt world.limit) 0 bytes (by omega)
  refine ⟨disk, ?_, ?_, ?_, ?_⟩
  · change run (inodeWriteAtWithin (depth + 1) file.inode world.mem.freeMap.byte
      (Bitmap.byteCnt world.mem.freeMap.bitCnt : Nat) ((0 : Nat) : Int)) world = _ at ran
    simp only [bitmapWrite, run_bind, run_get, Option.bind_some, opened.opened, run_deref_some,
      run_getFile opened.liveFile]
    rw [show ((0 : Nat) : Int) = 0 from rfl] at ran
    rw [ran]
    simp [World.limit]
  · intro sector changed
    obtain ⟨block, below, _, found⟩ := written.frame sector changed
    exact (opened.shared_iff sector).mpr ⟨block, by unfold blocksOf; omega, found⟩
  · exact opened.congr rfl rfl rfl rfl (fun _ _ same => same) written.tree
  · intro index inside
    have inFile : index / 8 < Bitmap.byteCnt world.limit := byteCnt_of_bit inside
    have small : index / 8 / 512 < maxBlocks := by omega
    rw [written.byteAt small (opened.complete.block (by unfold blocksOf; omega) small), if_pos ⟨by omega, by omega⟩]
    exact world.mem.freeMap.testBit_byte index

/-- Ownership depends on the bits only through the sectors in use. -/
theorem Owners.Sound.congr {own : Owners} {world next : World} (sound : own.Sound world)
    (sameLimit : next.limit = world.limit)
    (kept : ∀ sector, own sector ≠ none ∨ sector = 0 → world.used sector → next.used sector) : own.Sound next where
  used sector owned := by
    obtain ⟨used, inside⟩ := sound.used sector owned
    exact ⟨kept sector (.inl owned) used, sameLimit ▸ inside⟩
  zero := sound.zero
  self := sound.self
  reserved := kept 0 (.inr rfl) sound.reserved
  small := sameLimit ▸ sound.small

theorem Owners.Sound.mark_true {own : Owners} {world : World} (sound : own.Sound world) (sector : BlockSector) :
    own.Sound (world.mark sector true) := by
  refine sound.congr rfl fun other _ used => ?_
  rw [World.mark_used]
  split
  · rfl
  · exact used

theorem World.mark_true_free {world : World} {sector : BlockSector} (inside : sector.toNat < world.limit)
    (isFree : ¬ world.used sector) : (world.mark sector true).free + 1 = world.free :=
  Bitmap.free_mark_true inside (by simpa [World.used] using isFree)

/-- Where sectors were only taken, the number of the free ones tells that none was. -/
theorem World.bits_eq_of_free {world next : World} (small : world.limit < 4294967296) (limit : next.limit = world.limit)
    (used : ∀ other, world.used other → next.used other) (free : next.free = world.free) {index : Nat}
    (inside : index < world.limit) : next.mem.freeMap.bits index = world.mem.freeMap.bits index := by
  have kept : ∀ index < world.mem.freeMap.bitCnt, world.mem.freeMap.bits index = true →
      next.mem.freeMap.bits index = true := by
    intro index inside isSet
    have inside : index < world.limit := inside
    have number : (UInt32.ofNat index).toNat = index := by
      rw [UInt32.toNat_ofNat']
      omega
    have after := used (UInt32.ofNat index) (by rwa [World.used, number])
    rwa [World.used, number] at after
  cases before : world.mem.freeMap.bits index with
  | true => exact kept index inside before
  | false =>
      rw [Bool.eq_false_iff]
      intro isSet
      rcases Bitmap.mem_taken limit kept List.nodup_nil (by simp) (free : _ + 0 = _) inside isSet with wasSet | impossible
      · rw [before] at wasSet
        cases wasSet
      · cases impossible

/-- With all sectors in use the allocation fails. -/
theorem freeMapAllocateBy_full {world : World} (full : world.free = 0) (writeAt : WriteAt) :
    run (freeMapAllocateBy writeAt 1) world = some (none, world.failed) := by
  simp [freeMapAllocateBy, Bitmap.bitmapScan_none.mpr full]

/-- Otherwise it takes a free sector, and of the sectors only the free map file changes. -/
theorem freeMapAllocateBy_spec {own : Owners} {shared : BlockSector → Prop} {world : World}
    (sound : own.Sound world) (ready : Ready own shared world) (room : world.free ≠ 0) (depth : Nat) :
    ∃ sector disk, run (freeMapAllocateBy (inodeWriteAtWithin (depth + 1)) 1) world =
        some (some sector, ⟨(world.mark sector true).mem, disk⟩) ∧
      ¬ world.used sector ∧ sector.toNat < world.limit ∧
      (∀ other, disk other ≠ world.disk other → shared other) ∧
      Ready own shared ⟨(world.mark sector true).mem, disk⟩ := by
  cases found : world.mem.freeMap.bitmapScan 0 1 false with
  | none => exact absurd (Bitmap.bitmapScan_none.mp found) room
  | some index =>
      obtain ⟨inside, isFree⟩ := Bitmap.bitmapScan_some found
      have small := sound.small
      have index_eq : (UInt32.ofNat index).toNat = index := by
        rw [UInt32.toNat_ofNat', Nat.mod_eq_of_lt]
        exact Nat.lt_trans inside small
      have unused : ¬ world.used (UInt32.ofNat index) := by simp [World.used, index_eq, isFree]
      have marked : world.mem.freeMap.bitmapSetMultiple index 1 true =
          some (world.mark (UInt32.ofNat index) true).mem.freeMap := by
        rw [Bitmap.bitmapSetMultiple_one true inside, World.mark, index_eq]
      have taken : run (setFreeMap (world.mem.freeMap.bitmapSetMultiple index 1 true)) world =
          some ((), world.mark (UInt32.ofNat index) true) := by
        rw [marked]
        rfl
      rcases ready with ⟨closed, noShared⟩ | ⟨pointer, file, inode, opened, _⟩
      · refine ⟨UInt32.ofNat index, world.disk, ?_, unused, by rwa [index_eq], fun _ changed => absurd rfl changed,
          .inl ⟨closed, noShared⟩⟩
        simp only [freeMapAllocateBy, run_bind, run_get, Option.bind_some, found, taken, closed, Option.isNone_none,
          if_true, run_pure]
        rfl
      · have openedAfter : FreeMapFile own shared (world.mark (UInt32.ofNat index) true) pointer file inode :=
          opened.congr rfl rfl rfl rfl (fun _ _ same => same) fun _ _ => rfl
        obtain ⟨disk, ran, frame, stillOpened, copy⟩ :=
          bitmapWrite_spec (sound.mark_true (UInt32.ofNat index)) openedAfter depth
        refine ⟨UInt32.ofNat index, disk, ?_, unused, by rwa [index_eq], frame,
          .inr ⟨pointer, file, inode, stillOpened, copy⟩⟩
        simp only [freeMapAllocateBy, run_bind, run_get, Option.bind_some, found, taken, opened.opened,
          Option.isNone_some, Bool.false_eq_true, if_false, ran, if_true, run_pure]

/-- A release clears the bit, and of the sectors only the free map file changes. -/
theorem freeMapRelease_spec {own : Owners} {shared : BlockSector → Prop} {world : World}
    (sound : own.Sound world) {pointer : Pointer} {file : File} {inode : Inode}
    (opened : FreeMapFile own shared world pointer file inode) {sector : BlockSector}
    (inside : sector.toNat < world.limit) (nonzero : sector ≠ 0) (foreign : ∀ place, own sector ≠ some (0, some place)) :
    ∃ disk, run (freeMapRelease sector 1) world = some ((), ⟨(world.mark sector false).mem, disk⟩) ∧
      (∀ other, disk other ≠ world.disk other → shared other) ∧
      Owners.Sound (Function.update own sector none) ⟨(world.mark sector false).mem, disk⟩ ∧
      FreeMapFile (Function.update own sector none) shared ⟨(world.mark sector false).mem, disk⟩ pointer file inode ∧
      FreeMapCopy ⟨(world.mark sector false).mem, disk⟩ inode.data := by
  have released : Owners.Sound (Function.update own sector none) (world.mark sector false) := by
    constructor
    · intro other owned
      have different : other ≠ sector := by
        rintro rfl
        simp at owned
      rw [Function.update_of_ne different] at owned
      rw [World.mark_used, if_neg different]
      exact sound.used other owned
    · intro number place
      rw [Function.update_of_ne nonzero.symm]
      exact sound.zero number place
    · intro other number owned
      by_cases same : other = sector
      · rw [same, Function.update_self] at owned
        cases owned
      · rw [Function.update_of_ne same] at owned
        exact sound.self other number owned
    · rw [World.mark_used, if_neg nonzero.symm]
      exact sound.reserved
    · exact sound.small
  have openedAfter : FreeMapFile (Function.update own sector none) shared (world.mark sector false) pointer file
      inode := by
    refine opened.congr rfl rfl rfl rfl (fun other place owned => ?_) fun _ _ => rfl
    rw [Function.update_of_ne _ _, owned]
    rintro rfl
    exact foreign place owned
  have marked := Bitmap.bitmapSetMultiple_one false inside
  obtain ⟨disk, ran, frame, stillOpened, copy⟩ := bitmapWrite_spec released openedAfter 1
  refine ⟨disk, ?_, frame, released.congr rfl fun _ _ used => used, stillOpened, copy⟩
  have cleared : run (setFreeMap (world.mem.freeMap.bitmapSetMultiple sector.toNat 1 false)) world =
      some ((), world.mark sector false) := by
    rw [marked]
    rfl
  simp only [freeMapRelease, inodeWriteAt, run_bind, run_get, Option.bind_some, cleared, ran, run_pure]

end MockOS.Fs
