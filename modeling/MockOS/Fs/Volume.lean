import MockOS.Fs.Release

namespace MockOS.Fs

/-- The copy of an inode on the disk may lack blocks of the inode in memory, but none that its length needs. -/
structure Stored (store : BlockSector → Sector) (copy data : InodeDisk) : Prop where
  length : copy.length = data.length
  isDir : copy.isDir = data.isDir
  entry : ∀ root, copy.entry root = 0 ∨ copy.entry root = data.entry root
  complete : Complete store copy (blocksOf copy.length)

/-- A live inode with its blocks. -/
structure Node (own : Owners) (store : BlockSector → Sector) (sector : BlockSector) (data : InodeDisk) : Prop where
  self : own sector = some (sector, none)
  low : 0 ≤ data.length
  high : data.length ≤ 512 * maxBlocks
  owned : InodeOwned own store sector data
  complete : Complete store data (blocksOf data.length)
  stored : sector ≠ 0 → Stored store (.ofSector (store sector)) data

/-- The live inodes: the data in memory of an open one, the copy on the disk of a closed one. -/
abbrev Nodes := BlockSector → Option InodeDisk

/-- An inode object as `inode_open` makes it. -/
def Inode.live (sector : BlockSector) (data : InodeDisk) : Inode := ⟨sector, 1, false, 0, data⟩

/-- No inode object is open for the sector. -/
def World.closed (world : World) (sector : BlockSector) : Prop :=
  ∀ pointer ∈ world.mem.openInodes, ∀ data, world.mem.inodes pointer ≠ some (.live sector data)

/-- The open inode objects, one for each open sector. -/
structure Table (nodes : Nodes) (world : World) : Prop where
  opened : ∀ pointer ∈ world.mem.openInodes, ∃ sector data,
    world.mem.inodes pointer = some (.live sector data) ∧ nodes sector = some data
  nodup : world.mem.openInodes.Nodup
  distinct : ∀ first ∈ world.mem.openInodes, ∀ second ∈ world.mem.openInodes, ∀ sector one two,
    world.mem.inodes first = some (.live sector one) → world.mem.inodes second = some (.live sector two) →
      first = second
  closed : ∀ sector data, nodes sector = some data → world.closed sector →
    InodeDisk.ofSector (world.disk sector) = data
  fresh : ∀ pointer, world.mem.nextPointer ≤ pointer → world.mem.inodes pointer = none ∧
    world.mem.files pointer = none ∧ world.mem.dirs pointer = none

/-- The free map file is open and its object is in the list of open inodes. -/
def FreeMapOpen (own : Owners) (shared : BlockSector → Prop) (world : World) : Prop :=
  ∃ pointer file data, FreeMapFile own shared world pointer file (.live 0 data) ∧ FreeMapCopy world data ∧
    file.inode ∈ world.mem.openInodes

/-- The invariant of the inode layer: the sectors are divided among the live inodes, and memory and disk agree. -/
structure Volume (own : Owners) (shared : BlockSector → Prop) (nodes : Nodes) (world : World) : Prop where
  sound : own.Sound world
  freeMap : FreeMapOpen own shared world
  node : ∀ sector data, nodes sector = some data → Node own world.disk sector data
  table : Table nodes world

variable {shared : BlockSector → Prop} {own after : Owners} {world next : World} {nodes : Nodes}

theorem FreeMapOpen.ready (opened : FreeMapOpen own shared world) : Ready own shared world := by
  obtain ⟨pointer, file, data, opened, copy, _⟩ := opened
  exact .inr ⟨pointer, file, _, opened, copy⟩

theorem FreeMapOpen.shared_owned (opened : FreeMapOpen own shared world) {sector : BlockSector}
    (inFile : shared sector) : ∃ block < maxBlocks, own sector = some (0, some (blockPlace block)) := by
  obtain ⟨pointer, file, data, opened, _⟩ := opened
  exact opened.shared_owned inFile

theorem Volume.ready (volume : Volume own shared nodes world) : Ready own shared world := volume.freeMap.ready

/-- A step on one inode touches only its own sectors, free or leaked ones, the free map file, and sector 0. -/
def Touches (own : Owners) (shared : BlockSector → Prop) (inode : BlockSector) (store final : BlockSector → Sector) :
    Prop :=
  ∀ sector, final sector ≠ store sector →
    shared sector ∨ own sector = none ∨ (∃ part, own sector = some (inode, part)) ∨ sector = 0

namespace Touches

variable {inode : BlockSector} {store middle final : BlockSector → Sector}

theorem refl (own : Owners) (shared : BlockSector → Prop) (inode : BlockSector) (store : BlockSector → Sector) :
    Touches own shared inode store store := fun _ changed => absurd rfl changed

theorem trans (first : Touches own shared inode store middle) (second : Touches after shared inode middle final)
    (kept : ∀ sector number part, own sector = some (number, part) → number ≠ inode →
      after sector = some (number, part)) : Touches own shared inode store final := by
  intro sector changed
  by_cases same : middle sector = store sector
  · cases before : own sector with
    | none => exact .inr (.inl rfl)
    | some owner =>
        by_cases mine : owner.1 = inode
        · exact .inr (.inr (.inl ⟨owner.2, by rw [← mine]⟩))
        · have still := kept sector owner.1 owner.2 before mine
          rcases second sector (same ▸ changed) with inFile | unowned | ⟨part, owned⟩ | zero
          · exact .inl inFile
          · rw [still] at unowned
            cases unowned
          · rw [still] at owned
            exact absurd (Prod.mk.inj (Option.some.inj owned)).1 mine
          · exact .inr (.inr (.inr zero))
  · exact first sector same

/-- The tree of another inode does not change. -/
theorem sectorAt_eq (touches : Touches own shared inode world.disk final) (sound : own.Sound world)
    (freeMap : FreeMapOpen own shared world) {number : BlockSector} {data : InodeDisk} (different : number ≠ inode)
    (owned : InodeOwned own world.disk number data) {place : Place} (within : place.within) :
    sectorAt final data place = sectorAt world.disk data place := by
  apply sectorAt_congr _ within
  intro inner innerWithin isIndex present
  have innerOwned := owned inner innerWithin present
  by_contra changed
  rcases touches _ changed with inFile | unowned | ⟨part, mine⟩ | zero
  · obtain ⟨block, _, isLeaf⟩ := freeMap.shared_owned inFile
    rw [innerOwned] at isLeaf
    have equal := Option.some.inj (Prod.mk.inj (Option.some.inj isLeaf)).2
    exact isIndex (equal ▸ blockPlace_isLeaf block)
  · rw [innerOwned] at unowned
    cases unowned
  · rw [innerOwned] at mine
    exact different (Prod.mk.inj (Option.some.inj mine)).1
  · exact sound.zero number inner (zero ▸ innerOwned)

/-- The data of another inode does not change, the free map apart. -/
theorem data_eq (touches : Touches own shared inode world.disk final) (sound : own.Sound world)
    (freeMap : FreeMapOpen own shared world) {number sector : BlockSector} {part : Option Place}
    (different : number ≠ inode) (nonzero : number ≠ 0) (owned : own sector = some (number, part)) :
    final sector = world.disk sector := by
  by_contra changed
  rcases touches _ changed with inFile | unowned | ⟨part, mine⟩ | zero
  · obtain ⟨block, _, inFreeMap⟩ := freeMap.shared_owned inFile
    rw [owned] at inFreeMap
    exact nonzero (Prod.mk.inj (Option.some.inj inFreeMap)).1
  · rw [owned] at unowned
    cases unowned
  · rw [owned] at mine
    exact different (Prod.mk.inj (Option.some.inj mine)).1
  · subst zero
    cases part with
    | none => exact nonzero (sound.self 0 number owned)
    | some place => exact sound.zero number place owned

end Touches

section Stored

variable {store : BlockSector → Sector} {copy data : InodeDisk}

/-- The copy has a block of the inode or none. -/
theorem Stored.sectorAt (stored : Stored store copy data) (place : Place) :
    sectorAt store copy place = 0 ∨ sectorAt store copy place = sectorAt store data place := by
  rcases stored.entry place.1 with absent | same
  · left
    rw [MockOS.Fs.sectorAt, absent]
    exact indexTree.follow_null store place.2
  · right
    rw [MockOS.Fs.sectorAt, same, MockOS.Fs.sectorAt]

theorem Stored.needed (stored : Stored store copy data) {place : Place}
    (member : place ∈ inodePlaces (blocksOf data.length)) :
    MockOS.Fs.sectorAt store copy place = MockOS.Fs.sectorAt store data place := by
  rcases stored.sectorAt place with absent | same
  · rw [← stored.length] at member
    exact absurd absent (stored.complete place member)
  · exact same

theorem Stored.owned {number : BlockSector} (stored : Stored store copy data)
    (owned : InodeOwned own store number data) : InodeOwned own store number copy := by
  intro place within present
  rcases stored.sectorAt place with absent | same
  · exact absurd absent present
  · rw [same] at present ⊢
    exact owned place within present

theorem Stored.refl (complete : Complete store data (blocksOf data.length)) : Stored store data data :=
  ⟨rfl, rfl, fun _ => .inr rfl, complete⟩

end Stored

/-- The bytes of a file. -/
def fileBytes (store : BlockSector → Sector) (data : InodeDisk) : List UInt8 := bytesAt store data 0 data.length.toNat

/-- Behind the end of the file there are only zeros. -/
def TailZero (store : BlockSector → Sector) (data : InodeDisk) : Prop :=
  ∀ block < maxBlocks, sectorAt store data (blockPlace block) ≠ 0 → ∀ byte : Fin 512,
    data.length ≤ 512 * block + byte.val → store (sectorAt store data (blockPlace block)) byte = 0

namespace Node

variable {store final : BlockSector → Sector} {sector : BlockSector} {data : InodeDisk}

theorem block_present (node : Node own store sector data) {pos : Nat} (inside : (pos : Int) < data.length) :
    pos / 512 < maxBlocks ∧ sectorAt store data (blockPlace (pos / 512)) ≠ 0 := by
  have high := node.high
  have small : pos / 512 < maxBlocks := by omega
  exact ⟨small, node.complete.block (by unfold blocksOf; omega) small⟩

/-- Another inode stays as it is. -/
theorem other {inode : BlockSector} (node : Node own world.disk sector data)
    (touches : Touches own shared inode world.disk final) (sound : own.Sound world)
    (freeMap : FreeMapOpen own shared world) (different : sector ≠ inode)
    (kept : ∀ sector number part, own sector = some (number, part) → number ≠ inode →
      after sector = some (number, part)) : Node after final sector data where
  self := kept _ _ _ node.self different
  low := node.low
  high := node.high
  owned place within present := by
    have same := touches.sectorAt_eq sound freeMap different node.owned within
    rw [same] at present ⊢
    exact kept _ _ _ (node.owned place within present) different
  complete := node.complete.congr fun _ within => touches.sectorAt_eq sound freeMap different node.owned within
  stored nonzero := by
    have stored := node.stored nonzero
    rw [touches.data_eq sound freeMap different nonzero node.self]
    refine ⟨stored.length, stored.isDir, stored.entry, stored.complete.congr fun _ within => ?_⟩
    exact touches.sectorAt_eq sound freeMap different (stored.owned node.owned) within

theorem fileBytes_other {inode : BlockSector} (node : Node own world.disk sector data)
    (touches : Touches own shared inode world.disk final) (sound : own.Sound world)
    (freeMap : FreeMapOpen own shared world) (different : sector ≠ inode) (nonzero : sector ≠ 0) :
    fileBytes final data = fileBytes world.disk data := by
  apply List.map_congr_left
  intro index member
  have inside := List.mem_range.mp member
  have low := node.low
  obtain ⟨_, present⟩ := node.block_present (by omega : ((0 + index : Nat) : Int) < data.length)
  rw [byteAt, touches.sectorAt_eq sound freeMap different node.owned (blockPlace_within _),
    touches.data_eq sound freeMap different nonzero (node.owned _ (blockPlace_within _) present), byteAt]

theorem tailZero_other {inode : BlockSector} (node : Node own world.disk sector data)
    (touches : Touches own shared inode world.disk final) (sound : own.Sound world)
    (freeMap : FreeMapOpen own shared world) (different : sector ≠ inode) (nonzero : sector ≠ 0)
    (tail : TailZero world.disk data) : TailZero final data := by
  intro block small present byte past
  rw [touches.sectorAt_eq sound freeMap different node.owned (blockPlace_within _)] at present ⊢
  rw [touches.data_eq sound freeMap different nonzero (node.owned _ (blockPlace_within _) present)]
  exact tail block small present byte past

/-- The copy on the disk is as good as the inode in memory. -/
theorem reload (node : Node own store sector data) (nonzero : sector ≠ 0) :
    Node own store sector (.ofSector (store sector)) where
  self := node.self
  low := by rw [(node.stored nonzero).length]; exact node.low
  high := by rw [(node.stored nonzero).length]; exact node.high
  owned := (node.stored nonzero).owned node.owned
  complete := (node.stored nonzero).complete
  stored _ := Stored.refl (node.stored nonzero).complete

theorem fileBytes_reload (node : Node own store sector data) (nonzero : sector ≠ 0) :
    fileBytes store (.ofSector (store sector)) = fileBytes store data := by
  have stored := node.stored nonzero
  unfold fileBytes
  rw [stored.length]
  apply List.map_congr_left
  intro index member
  have inside := List.mem_range.mp member
  have low := node.low
  have high := node.high
  rw [byteAt, byteAt, stored.needed (blockPlace_mem_inodePlaces (by unfold blocksOf; omega) (by omega))]

theorem tailZero_reload (node : Node own store sector data) (nonzero : sector ≠ 0) (tail : TailZero store data) :
    TailZero store (.ofSector (store sector)) := by
  intro block small present byte past
  have stored := node.stored nonzero
  rw [stored.length] at past
  rcases stored.sectorAt (blockPlace block) with absent | same
  · exact absurd absent present
  · rw [same] at present ⊢
    exact tail block small present byte past

end Node

end MockOS.Fs
