import MockOS.Fs.InodeWrite

namespace MockOS.Fs

variable {shared : BlockSector → Prop} {own after : Owners} {world next : World} {nodes nodesAfter : Nodes}
  {sector inode : BlockSector} {pointer : Pointer} {data dataAfter : InodeDisk}

/-- The sectors that hold an inode and its blocks. -/
def inodeSectors (store : BlockSector → Sector) (sector : BlockSector) (data : InodeDisk) : List BlockSector :=
  sector :: (inodePlaces (blocksOf data.length)).map (sectorAt store data)

/-- The removal of the named inodes releases their sectors and leaves the inodes besides the root directory. -/
structure RemovesOnly (named : BlockSector → Prop) (nodes nodesAfter : Nodes) (world next : World) : Prop where
  limit : next.limit = world.limit
  others : ∀ number, number ≠ 1 → ¬ named number → nodesAfter number = nodes number
  used : ∀ sector data, named sector → nodes sector = some data → ∀ other : BlockSector, other.toNat < world.limit →
    (next.used other ↔ world.used other ∧ other ∉ inodeSectors world.disk sector data)

theorem Node.mem_inodeSectors {store : BlockSector → Sector} (node : Node own store sector data) {other : BlockSector}
    (member : other ∈ inodeSectors store sector data) : ∃ part, own other = some (sector, part) := by
  rcases List.mem_cons.mp member with rfl | member
  · exact ⟨none, node.self⟩
  · obtain ⟨place, inside, rfl⟩ := List.mem_map.mp member
    exact ⟨some place, node.owned place (within_of_mem_inodePlaces inside) (node.complete place inside)⟩

/-- The release of other sectors leaves the tree of an inode. -/
theorem Released.inodeOwned {pointer : Pointer} {file : File} {freeMapInode : Inode} {sectors : List BlockSector}
    (released : Released shared own world next pointer file freeMapInode sectors)
    (opened : FreeMapFile own shared world pointer file freeMapInode) (nonzero : inode ≠ 0)
    (owned : InodeOwned own world.disk inode data) (apart : ∀ sector ∈ sectors, ∀ place, own sector ≠ some (inode, some place)) :
    (∀ place : Place, place.within → sectorAt next.disk data place = sectorAt world.disk data place) ∧
      InodeOwned (own.without sectors) next.disk inode data := by
  have tree := fun root : Fin 125 => released.treeOwned opened nonzero (inodeOwned_iff.mp owned root)
    fun sector member path => apart sector member _
  exact ⟨fun place within => (tree place.1).1 place.2 within, inodeOwned_iff.mpr fun root => (tree root).2⟩

/-- The object of a removed inode while it is closed. -/
def removedInode (sector : BlockSector) (data : InodeDisk) : Inode := ⟨sector, 0, true, 0, data⟩

/-- The memory while the blocks of a removed inode are released. -/
def Mem.removing (mem : Mem) (pointer : Pointer) (sector : BlockSector) (data : InodeDisk) : Mem :=
  { mem with
    openInodes := mem.openInodes.erase pointer
    inodes := Function.update mem.inodes pointer (some (removedInode sector data)) }

/-- The last close of a removed inode releases its blocks and frees the object. -/
theorem inodeClose_removed (object : world.mem.inodes pointer = some (.live sector data)) :
    run (do inodeRemove pointer; inodeClose (some pointer)) world =
      run (do releaseRemoved (removedInode sector data); freeInode pointer)
        ⟨world.mem.removing pointer sector data, world.disk⟩ := by
  rw [run_bind, inodeRemove, run_bind, run_getInode object, Option.bind_some, run_setInode, Option.bind_some, inodeClose,
    run_bind, run_getInode (Function.update_self _ _ _), Option.bind_some, run_bind, run_setInode, Option.bind_some]
  simp only [Inode.live, sub_self, if_true, run_bind, run_modify, Option.bind_some, Function.update_idem, Mem.removing,
    removedInode]

section Remove

variable (volume : Volume own shared nodes world) (opened : Opened world sector pointer data) (nonzero : sector ≠ 0)

include volume opened nonzero

/-- The sector of a removed inode and its blocks are released. -/
theorem Volume.releaseRemoved : ∃ next sectors filePointer file freeMapData,
    run (releaseRemoved (removedInode sector data)) ⟨world.mem.removing pointer sector data, world.disk⟩ =
      some ((), next) ∧
    sectors.Perm (inodeSectors world.disk sector data) ∧
    file.inode ∈ world.mem.openInodes ∧ world.mem.inodes file.inode = some (.live 0 freeMapData) ∧
    Released shared own ⟨world.mem.removing pointer sector data, world.disk⟩ next filePointer file (.live 0 freeMapData)
      sectors := by
  have node := volume.node sector data (volume.table.node opened)
  have maximum : maxBlocks = 16635 := rfl
  have blocks := bytesToSectors_eq node.low node.high
  obtain ⟨filePointer, file, freeMapData, freeMap, _, member⟩ := volume.freeMap
  have apart : file.inode ≠ pointer := by
    intro same
    have object := freeMap.liveInode
    rw [same, opened.object, Option.some.injEq, Inode.live_inj] at object
    exact nonzero object.1
  have freeMapThere : FreeMapFile own shared ⟨world.mem.removing pointer sector data, world.disk⟩ filePointer file
      (.live 0 freeMapData) :=
    freeMap.congr rfl rfl (Function.update_of_ne apart _ _) rfl (fun _ _ same => same) fun _ _ => rfl
  have sound : own.Sound ⟨world.mem.removing pointer sector data, world.disk⟩ :=
    volume.sound.congr rfl fun _ _ used => used
  obtain ⟨middle, ranSelf, releasedSelf⟩ := Released.single sound freeMapThere node.self nonzero
    (fun place same => by cases same)
  obtain ⟨sameTree, ownedAfter⟩ := releasedSelf.inodeOwned freeMapThere nonzero node.owned (by
    intro other inSelf place same
    rw [List.mem_singleton.mp inSelf, node.self] at same
    cases same)
  obtain ⟨next, sectors, ran, perm, released⟩ := inodeDeallocate_spec nonzero node.low releasedSelf.sound
    releasedSelf.opened releasedSelf.copy ownedAfter (by
      rw [blocks]
      exact node.complete.congr sameTree)
  refine ⟨next, [sector] ++ sectors, filePointer, file, freeMapData, ?_, ?_, member, freeMap.liveInode,
    releasedSelf.trans released⟩
  · rw [MockOS.Fs.releaseRemoved, if_pos (show (removedInode sector data).removed = true from rfl), run_bind]
    change (run (freeMapRelease sector 1) _).bind _ = _
    rw [ranSelf, Option.bind_some, run_bind]
    change (run (inodeDeallocate data) middle).bind _ = _
    rw [ran.ran]
    rfl
  · refine (List.Perm.cons sector (perm.trans (List.Perm.of_eq ?_)))
    rw [blocks]
    exact List.map_congr_left fun place inside => sameTree place (within_of_mem_inodePlaces inside)

/-- `inode_remove` and `inode_close` release the inode with all its blocks. -/
theorem Volume.inodeRemove : ∃ next sectors,
    run (do MockOS.Fs.inodeRemove pointer; MockOS.Fs.inodeClose (some pointer)) world = some ((), next) ∧
    next.mem = { world.mem.closeInode pointer with freeMap := next.mem.freeMap } ∧
    InodeStep shared sector own (own.without sectors) nodes (Function.update nodes sector none) world next ∧
    sectors.Perm (inodeSectors world.disk sector data) ∧ next.limit = world.limit ∧
    (∀ other, next.used other ↔ world.used other ∧ other ∉ sectors) ∧ next.free = world.free + sectors.length := by
  obtain ⟨middle, sectors, filePointer, file, freeMapData, ran, perm, fileMember, fileObject, released⟩ :=
    volume.releaseRemoved opened nonzero
  have node := volume.node sector data (volume.table.node opened)
  obtain ⟨final, finalEq⟩ : ∃ final : World, final =
    ⟨{ middle.mem with inodes := Function.update middle.mem.inodes pointer none }, middle.disk⟩ := ⟨_, rfl⟩
  have mem : final.mem = { world.mem.closeInode pointer with freeMap := final.mem.freeMap } := by
    have sameMem := released.mem
    rw [finalEq, sameMem]
    simp only [Mem.removing, Mem.closeInode, Function.update_idem]
  have disk : final.disk = middle.disk := by rw [finalEq]
  have map : final.mem.freeMap = middle.mem.freeMap := by rw [finalEq]
  have kept : ∀ other number part, own other = some (number, part) → number ≠ sector →
      own.without sectors other = some (number, part) := by
    intro other number part owned different
    rw [Owners.without, if_neg, owned]
    intro member
    obtain ⟨_, mine⟩ := node.mem_inodeSectors (perm.mem_iff.mp member)
    rw [owned, Option.some.injEq, Prod.mk.injEq] at mine
    exact different mine.1
  have touches : Touches own shared sector world.disk final.disk := by
    intro other changed
    rw [disk] at changed
    exact .inl (released.frame other changed)
  have apart : file.inode ≠ pointer := by
    intro same
    rw [same, opened.object, Option.some.injEq, Inode.live_inj] at fileObject
    exact nonzero fileObject.1
  have objectAfter : final.mem.inodes file.inode = some (.live 0 freeMapData) := by
    rw [mem]
    change Function.update world.mem.inodes pointer none file.inode = _
    rw [Function.update_of_ne apart, fileObject]
  have stillOpen : file.inode ∈ final.mem.openInodes := by
    rw [mem]
    exact (volume.table.nodup.mem_erase_iff).mpr ⟨apart, fileMember⟩
  refine ⟨final, sectors, ?_, mem, ⟨⟨?_, ?_, ?_, ?_⟩, touches, kept, fun number different =>
    Function.update_of_ne different _ _, Nat.le_of_eq (by rw [mem]; rfl), fun _ => ?_⟩, perm, ?_, ?_, ?_⟩
  · rw [inodeClose_removed opened.object, run_bind, ran, Option.bind_some, finalEq]
    rfl
  · exact released.sound.congr (congrArg Bitmap.bitCnt map) fun other _ used => by
      unfold World.used at used ⊢
      rwa [map]
  · refine ⟨filePointer, file, freeMapData, released.opened.congr ?_ ?_ ?_ (congrArg Bitmap.bitCnt map)
      (fun _ _ same => same) (fun _ _ => by rw [disk]), ?_, stillOpen⟩
    · rw [finalEq]
    · rw [finalEq]
    · rw [objectAfter, released.opened.liveInode]
    · have copy := released.copy
      unfold FreeMapCopy World.limit at copy ⊢
      rw [disk, map]
      exact copy
  · intro number before present
    by_cases same : number = sector
    · subst same
      rw [Function.update_self] at present
      cases present
    · rw [Function.update_of_ne same] at present
      exact (volume.node number before present).other touches volume.sound volume.freeMap same kept
  · refine volume.table.erase opened (by rw [mem]; rfl) (by rw [mem]; rfl) (by rw [mem]; exact ⟨rfl, rfl, rfl⟩)
      (fun number different => Function.update_of_ne different _ _) ?_ ?_
    · intro number before different present closed
      exact touches.data_eq volume.sound volume.freeMap different (volume.ne_zero_of_closed closed)
        (volume.node number before present).self
    · intro before present
      rw [Function.update_self] at present
      cases present
  · rw [disk]
    exact not_not.mp fun changed => volume.not_shared_zero (released.frame 0 changed)
  · rw [World.limit, map]
    exact released.limit
  · intro other
    unfold World.used
    rw [map]
    exact released.used other
  · rw [World.free, map]
    exact released.free

end Remove

end MockOS.Fs
