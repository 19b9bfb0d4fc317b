import MockOS.Fs.InodeTree

namespace MockOS.Fs

/-- A sector holds an inode, which is named by this sector, or a block of an inode. -/
abbrev Owner := BlockSector × Option Place

/-- The owner of each sector in use; a sector without an owner is free or was leaked. -/
abbrev Owners := BlockSector → Option Owner

namespace World

def used (world : World) (sector : BlockSector) : Prop := world.mem.freeMap.bits sector.toNat = true

def free (world : World) : Nat := world.mem.freeMap.free

/-- The sectors that the free map can hand out. -/
def limit (world : World) : Nat := world.mem.freeMap.bitCnt

def write (world : World) (sector : BlockSector) (block : Sector) : World :=
  ⟨world.mem, Function.update world.disk sector block⟩

@[simp] theorem write_mem (world : World) (sector : BlockSector) (block : Sector) :
    (world.write sector block).mem = world.mem := rfl

@[simp] theorem write_same (world : World) (sector : BlockSector) (block : Sector) :
    (world.write sector block).disk sector = block := by simp [write]

theorem write_other (world : World) {sector other : BlockSector} (block : Sector) (different : other ≠ sector) :
    (world.write sector block).disk other = world.disk other := by simp [write, different]

@[simp] theorem run_write (world : World) (sector : BlockSector) (block : Sector) :
    run (bufferCacheWrite sector block) world = some ((), world.write sector block) := rfl

end World

/-- Owned sectors are in use and in range; sector 0 holds no block and is never free. -/
structure Owners.Sound (own : Owners) (world : World) : Prop where
  used : ∀ sector, own sector ≠ none → world.used sector ∧ sector.toNat < world.limit
  zero : ∀ inode place, own 0 ≠ some (inode, some place)
  self : ∀ sector inode, own sector = some (inode, none) → inode = sector
  reserved : world.used 0
  small : world.limit < 4294967296

/-- Every block of the inode is its own. -/
def InodeOwned (own : Owners) (store : BlockSector → Sector) (inode : BlockSector) (data : InodeDisk) : Prop :=
  ∀ place : Place, place.within → sectorAt store data place ≠ 0 →
    own (sectorAt store data place) = some (inode, some place)

/-- The first blocks of the inode are there with their index blocks. -/
def Complete (store : BlockSector → Sector) (data : InodeDisk) (blocks : Nat) : Prop :=
  ∀ place ∈ inodePlaces blocks, sectorAt store data place ≠ 0

/-- The number of blocks for a length in bytes. -/
def blocksOf (length : Int) : Nat := (length.toNat + 511) / 512

/-- The byte at a position of the data of an inode. -/
def byteAt (store : BlockSector → Sector) (data : InodeDisk) (pos : Nat) : UInt8 :=
  store (sectorAt store data (blockPlace (pos / 512))) ⟨pos % 512, Nat.mod_lt _ (by decide)⟩

theorem Complete.block {store : BlockSector → Sector} {data : InodeDisk} {blocks block : Nat}
    (complete : Complete store data blocks) (wanted : block < blocks) (small : block < maxBlocks) :
    sectorAt store data (blockPlace block) ≠ 0 :=
  complete _ (blockPlace_mem_inodePlaces wanted small)

/-- The open file of the free map has room for the bits, in sectors that only it writes. -/
structure FreeMapFile (own : Owners) (shared : BlockSector → Prop) (world : World) (pointer : Pointer)
    (file : File) (inode : Inode) : Prop where
  opened : world.mem.freeMapFile = some pointer
  liveFile : world.mem.files pointer = some file
  liveInode : world.mem.inodes file.inode = some inode
  writable : inode.denyWriteCnt = 0
  positive : 0 < world.limit
  length : inode.data.length = Bitmap.byteCnt world.limit
  small : Bitmap.byteCnt world.limit ≤ 512 * maxBlocks
  owned : InodeOwned own world.disk 0 inode.data
  complete : Complete world.disk inode.data (blocksOf inode.data.length)
  shared_iff : ∀ sector, shared sector ↔ ∃ block < blocksOf inode.data.length,
    sector = sectorAt world.disk inode.data (blockPlace block)

/-- The data of the inode hold the bits of the free map. -/
def FreeMapCopy (world : World) (data : InodeDisk) : Prop :=
  ∀ index < world.limit,
    (byteAt world.disk data (index / 8)).toNat.testBit (index % 8) = world.mem.freeMap.bits index

/-- Sectors can be allocated: the free map file is not used yet, or it is open with a copy of the bits. -/
def Ready (own : Owners) (shared : BlockSector → Prop) (world : World) : Prop :=
  (world.mem.freeMapFile = none ∧ ∀ sector, ¬ shared sector) ∨
    ∃ pointer file inode, FreeMapFile own shared world pointer file inode ∧ FreeMapCopy world inode.data

/-- Stores that agree on the index blocks of an inode have the same sectors. -/
theorem sectorAt_congr {store other : BlockSector → Sector} {data : InodeDisk}
    (agree : ∀ place : Place, place.within → ¬ place.isLeaf → sectorAt store data place ≠ 0 →
      other (sectorAt store data place) = store (sectorAt store data place))
    {place : Place} (within : place.within) : sectorAt other data place = sectorAt store data place := by
  apply indexTree.follow_congr (rootLevel place.1)
  · intro path shorter present
    apply agree (place.1, path)
    · exact Nat.le_of_lt shorter
    · exact Nat.ne_of_lt shorter
    · exact present
  · exact within

theorem blockPlace_within (block : Nat) : (blockPlace block).within := Nat.le_of_eq (blockPlace_isLeaf block)

theorem InodeOwned.congr {own : Owners} {store other : BlockSector → Sector} {inode : BlockSector}
    {data : InodeDisk} (owned : InodeOwned own store inode data)
    (same : ∀ place : Place, place.within → sectorAt other data place = sectorAt store data place) :
    InodeOwned own other inode data := by
  intro place within present
  rw [same place within] at present ⊢
  exact owned place within present

theorem Complete.congr {store other : BlockSector → Sector} {data : InodeDisk} {blocks : Nat}
    (complete : Complete store data blocks)
    (same : ∀ place : Place, place.within → sectorAt other data place = sectorAt store data place) :
    Complete other data blocks := by
  intro place member
  rw [same place (within_of_mem_inodePlaces member)]
  exact complete place member

theorem Complete.mono {store : BlockSector → Sector} {data : InodeDisk} {blocks fewer : Nat}
    (complete : Complete store data blocks) (subset : ∀ place ∈ inodePlaces fewer, place ∈ inodePlaces blocks) :
    Complete store data fewer := fun place member => complete place (subset place member)

/-- Distinct blocks of one inode are in distinct sectors. -/
theorem InodeOwned.place_unique {own : Owners} {store : BlockSector → Sector} {inode : BlockSector}
    {data : InodeDisk} (owned : InodeOwned own store inode data) {first second : Place} (firstWithin : first.within)
    (secondWithin : second.within) (present : sectorAt store data first ≠ 0)
    (same : sectorAt store data first = sectorAt store data second) : first = second := by
  have one := owned first firstWithin present
  have two := owned second secondWithin (same ▸ present)
  rw [same, two] at one
  simpa using one.symm

/-- The number of the data block at a place. -/
def placeBlock (place : Place) : Nat :=
  match place.2 with
  | [] => place.1.val
  | [index] => 123 + index.val
  | first :: second :: _ => 251 + 128 * first.val + second.val

theorem placeBlock_blockPlace {block : Nat} (small : block < maxBlocks) : placeBlock (blockPlace block) = block := by
  by_cases direct : block < 123
  · rw [blockPlace_direct direct, placeBlock]
  · by_cases indirect : block < 251
    · rw [blockPlace_indirect (by omega) indirect, placeBlock]
      dsimp only
      omega
    · rw [blockPlace_doubly (by omega) small, placeBlock]
      dsimp only
      omega

theorem blockPlace_injective {first second : Nat} (firstSmall : first < maxBlocks) (secondSmall : second < maxBlocks)
    (same : blockPlace first = blockPlace second) : first = second := by
  rw [← placeBlock_blockPlace firstSmall, same, placeBlock_blockPlace secondSmall]

/-- Distinct data blocks are in distinct sectors. -/
theorem InodeOwned.block_unique {own : Owners} {store : BlockSector → Sector} {inode : BlockSector}
    {data : InodeDisk} (owned : InodeOwned own store inode data) {first second : Nat} (firstSmall : first < maxBlocks)
    (secondSmall : second < maxBlocks) (present : sectorAt store data (blockPlace first) ≠ 0)
    (same : sectorAt store data (blockPlace first) = sectorAt store data (blockPlace second)) : first = second :=
  blockPlace_injective firstSmall secondSmall
    (owned.place_unique (blockPlace_within first) (blockPlace_within second) present same)

/-- A write to another sector than its index blocks leaves the tree of an inode. -/
theorem InodeOwned.sectorAt_write {own : Owners} {store : BlockSector → Sector} {inode : BlockSector}
    {data : InodeDisk} (owned : InodeOwned own store inode data) {sector : BlockSector}
    (foreign : ∀ place : Place, ¬ place.isLeaf → own sector ≠ some (inode, some place)) (block : Sector) {place : Place}
    (within : place.within) :
    sectorAt (Function.update store sector block) data place = sectorAt store data place := by
  apply sectorAt_congr _ within
  intro inner innerWithin isIndex present
  apply Function.update_of_ne
  intro same
  exact foreign inner isIndex (same ▸ owned inner innerWithin present)

/-- A write to a data block leaves the tree of the inode that owns it. -/
theorem InodeOwned.sectorAt_update {own : Owners} {store : BlockSector → Sector} {inode owner : BlockSector}
    {data : InodeDisk} (owned : InodeOwned own store inode data) {sector : BlockSector} {leaf : Place}
    (leafOwned : own sector = some (owner, some leaf)) (isLeaf : leaf.isLeaf) (block : Sector) {place : Place}
    (within : place.within) :
    sectorAt (Function.update store sector block) data place = sectorAt store data place := by
  apply owned.sectorAt_write _ block within
  intro inner isIndex same
  rw [leafOwned, Option.some.injEq, Prod.mk.injEq, Option.some.injEq] at same
  exact isIndex (same.2 ▸ isLeaf)

end MockOS.Fs
