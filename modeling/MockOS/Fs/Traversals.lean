import MockOS.Fs.BlockAccounting
import MockOS.Fs.RootScans

namespace MockOS.Fs

open Lib (places leafPath)

variable {shared : BlockSector → Prop} {own : Owners} {world : World} {nodes : Nodes} {sector : BlockSector}
  {pointer : Pointer} {data : InodeDisk} {block blocks : Nat}

/-- The places of an inode are those on the ways to its data blocks. -/
theorem mem_inodePlaces_iff {place : Place} (fits : blocks ≤ maxBlocks) :
    place ∈ inodePlaces blocks ↔
      ∃ block < blocks, place.1 = (blockPlace block).1 ∧ place.2 <+: (blockPlace block).2 := by
  obtain ⟨root, path⟩ := place
  have maximum : maxBlocks = 16635 := rfl
  have fan : 0 < 128 := by decide
  constructor
  · intro member
    rcases mem_inodePlaces.mp member with ⟨small, empty⟩ | ⟨more, same, inside⟩ | ⟨more, same, inside⟩
    · obtain ⟨below, direct⟩ := Nat.lt_min.mp small
      dsimp only at empty
      refine ⟨root.val, below, ?_, ?_⟩
      · rw [blockPlace_direct direct]
      · rw [empty]
        exact List.nil_prefix
    · obtain ⟨leaf, small, isPrefix⟩ := (Lib.mem_places_iff fan (by omega) (by omega)).mp inside
      refine ⟨123 + leaf, by omega, ?_, ?_⟩
      · rw [blockPlace, dif_neg (by omega), if_pos (by omega)]
        exact same
      · rw [blockPlace, dif_neg (by omega), if_pos (by omega), Nat.add_sub_cancel_left]
        exact isPrefix
    · obtain ⟨leaf, small, isPrefix⟩ := (Lib.mem_places_iff fan (by omega) (by omega)).mp inside
      refine ⟨251 + leaf, by omega, ?_, ?_⟩
      · rw [blockPlace, dif_neg (by omega), if_neg (by omega)]
        exact same
      · rw [blockPlace, dif_neg (by omega), if_neg (by omega), Nat.add_sub_cancel_left]
        exact isPrefix
  · rintro ⟨block, small, same, isPrefix⟩
    dsimp only at same isPrefix
    have leaf := blockPlace_mem_inodePlaces small (by omega)
    rcases mem_inodePlaces.mp leaf with ⟨direct, empty⟩ | ⟨more, there, inside⟩ | ⟨more, there, inside⟩
    · rw [empty, List.prefix_nil] at isPrefix
      exact mem_inodePlaces.mpr (.inl ⟨same ▸ direct, isPrefix⟩)
    · obtain ⟨rest, whole⟩ := isPrefix
      rw [← whole] at inside
      exact mem_inodePlaces.mpr (.inr (.inl ⟨more, same.trans there, Lib.places_prefix inside⟩))
    · obtain ⟨rest, whole⟩ := isPrefix
      rw [← whole] at inside
      exact mem_inodePlaces.mpr (.inr (.inr ⟨more, same.trans there, Lib.places_prefix inside⟩))

/-- What `index_to_sector` finds for a block. -/
def lookedUp (store : BlockSector → Sector) (data : InodeDisk) (block : Nat) : BlockSector :=
  if direct : block < 123 then data.directBlocks ⟨block, direct⟩
  else if indirect : block - 123 < 128 then (store data.indirectBlock).words ⟨block - 123, indirect⟩
  else if doubly : (block - 251) / 128 < 128 then
    (store ((store data.doublyIndirectBlock).words ⟨(block - 251) / 128, doubly⟩)).words
      ⟨(block - 251) % 128, doubly_lt block⟩
  else noSector

theorem run_indexToSector (data : InodeDisk) (block : Nat) (world : World) :
    run (indexToSector data block) world = some (lookedUp world.disk data block, world) := by
  unfold indexToSector lookedUp
  split_ifs <;> rfl

theorem lookedUp_eq (small : block < maxBlocks) (present : sectorAt world.disk data (blockPlace block) ≠ 0) :
    lookedUp world.disk data block = sectorAt world.disk data (blockPlace block) := by
  have ran := indexToSector_spec small present
  rw [run_indexToSector, Option.some.injEq, Prod.mk.injEq] at ran
  exact ran.1

/-- `index_to_sector` reads the index blocks above a block. -/
theorem mem_accessed_indexToSector (small : block < maxBlocks)
    (present : sectorAt world.disk data (blockPlace block) ≠ 0) :
    sector ∈ accessed (indexToSector data block) world ↔
      ∃ path, path <+: (blockPlace block).2 ∧ path ≠ (blockPlace block).2 ∧
        sector = sectorAt world.disk data ((blockPlace block).1, path) := by
  have maximum : maxBlocks = 16635 := rfl
  by_cases direct : block < 123
  · have none : accessed (indexToSector data block) world = [] := by
      rw [indexToSector, dif_pos direct]
      rfl
    rw [none, blockPlace_direct direct]
    constructor
    · intro member
      cases member
    · rintro ⟨path, isPrefix, different, _⟩
      exact absurd (List.prefix_nil.mp isPrefix) different
  · by_cases indirect : block < 251
    · have one : accessed (indexToSector data block) world = [data.indirectBlock] := by
        rw [indexToSector, dif_neg direct, dif_pos (by omega)]
        rfl
      rw [one, blockPlace_indirect (by omega) indirect, List.mem_singleton]
      constructor
      · rintro rfl
        exact ⟨[], List.nil_prefix, by simp, rfl⟩
      · rintro ⟨path, isPrefix, different, rfl⟩
        rcases List.prefix_cons_iff.mp isPrefix with rfl | ⟨rest, rfl, below⟩
        · rfl
        · rw [List.prefix_nil.mp below] at different
          exact absurd rfl different
    · have first : (block - 251) / 128 < 128 := by omega
      have two : accessed (indexToSector data block) world = [data.doublyIndirectBlock,
          (world.disk data.doublyIndirectBlock).words ⟨(block - 251) / 128, first⟩] := by
        rw [indexToSector, dif_neg direct, dif_neg (by omega), dif_pos first]
        rfl
      rw [blockPlace_doubly (by omega) small] at present ⊢
      have root : data.doublyIndirectBlock ≠ 0 := indexTree.root_of_follow present
      have child : sectorAt world.disk data (124, [⟨(block - 251) / 128, first⟩]) =
          (world.disk data.doublyIndirectBlock).words ⟨(block - 251) / 128, first⟩ :=
        indexTree.child_of_ne root _
      rw [two, List.mem_cons, List.mem_singleton]
      constructor
      · rintro (rfl | rfl)
        · exact ⟨[], List.nil_prefix, by simp, rfl⟩
        · exact ⟨[⟨(block - 251) / 128, first⟩], by simp, by simp, child.symm⟩
      · rintro ⟨path, isPrefix, different, rfl⟩
        rcases List.prefix_cons_iff.mp isPrefix with rfl | ⟨rest, rfl, below⟩
        · exact .inl rfl
        · rcases List.prefix_cons_iff.mp below with rfl | ⟨last, rfl, nothing⟩
          · exact .inr child
          · rw [List.prefix_nil.mp nothing] at different
            exact absurd rfl different

theorem run_blockSectors (entry : BlockSector) (l : Nat) (world : World) :
    run (blockSectors entry l) world = some (((List.finRange 128).take l).map (world.disk entry).words, world) := rfl

theorem lookedUp_direct {store : BlockSector → Sector} (direct : block < 123) :
    lookedUp store data block = data.directBlocks ⟨block, direct⟩ := dif_pos direct

theorem lookedUp_indirect {store : BlockSector → Sector} (index : Fin 128) :
    lookedUp store data (123 + index.val) = (store data.indirectBlock).words index := by
  have same : 123 + index.val - 123 = index.val := Nat.add_sub_cancel_left _ _
  rw [lookedUp, dif_neg (by omega), dif_pos (by omega)]
  exact congrArg _ (Fin.ext same)

theorem lookedUp_doubly {store : BlockSector → Sector} (first second : Fin 128) :
    lookedUp store data (251 + 128 * first.val + second.val) =
      (store ((store data.doublyIndirectBlock).words first)).words second := by
  have upper : (251 + 128 * first.val + second.val - 251) / 128 = first.val := by omega
  have lower : (251 + 128 * first.val + second.val - 251) % 128 = second.val := by omega
  rw [lookedUp, dif_neg (by omega), dif_neg (by omega), dif_pos (by omega)]
  simp only [upper, lower]

/-- The first entries of an index block are the sectors of consecutive blocks. -/
theorem map_take_finRange {count start l : Nat} (entries : Fin count → BlockSector) (found : Nat → BlockSector)
    (same : ∀ index, entries index = found (start + index.val)) (fits : l ≤ count) :
    ((List.finRange count).take l).map entries = (List.range' start l).map found := by
  apply List.ext_getElem
  · simp only [List.length_map, List.length_take, List.length_finRange, List.length_range']
    omega
  · intro index _ _
    simp only [List.getElem_map, List.getElem_take, List.getElem_finRange, List.getElem_range', same, Nat.one_mul,
      Fin.val_cast]

/-- A range in two parts, the first of them with at most `unit` numbers. -/
theorem range'_split (start count unit : Nat) :
    List.range' start count =
      List.range' start (min count unit) ++ List.range' (start + unit) (count - min count unit) := by
  rcases Nat.le_total count unit with small | large
  · rw [Nat.min_eq_left small, Nat.sub_self, List.range'_zero, List.append_nil]
  · rw [Nat.min_eq_right large, List.range'_append_1, Nat.add_sub_cancel' large]

/-- The loop over the doubly indirect block takes the blocks of one index block after the other. -/
theorem run_doublySectors (data : InodeDisk) (world : World) {indices : List (Fin 128)} {start numSectors : Nat}
    (consecutive : indices.map Fin.val = List.range' start indices.length)
    (enough : numSectors ≤ 128 * indices.length) :
    run (doublySectors (indices.map (world.disk data.doublyIndirectBlock).words) numSectors) world =
      some ((List.range' (251 + 128 * start) numSectors).map (lookedUp world.disk data), world) := by
  induction indices generalizing start numSectors with
  | nil =>
      obtain rfl : numSectors = 0 := by simpa using enough
      rfl
  | cons first rest ih =>
      rw [List.map_cons, List.length_cons, List.range'_succ, List.cons.injEq] at consecutive
      obtain ⟨rfl, later⟩ := consecutive
      rw [List.length_cons, Nat.mul_succ] at enough
      have here : ((List.finRange 128).take (min numSectors 128)).map
          (world.disk ((world.disk data.doublyIndirectBlock).words first)).words =
            (List.range' (251 + 128 * first.val) (min numSectors 128)).map (lookedUp world.disk data) :=
        map_take_finRange _ _ (fun second => (lookedUp_doubly first second).symm) (Nat.min_le_right _ _)
      rw [List.map_cons, doublySectors, run_bind, run_blockSectors, Option.bind_some, run_bind, ih later (by omega),
        Option.bind_some, run_pure, here, range'_split _ numSectors 128, List.map_append, Nat.mul_succ, Nat.add_assoc]

/-- `get_inode_data_sectors` looks up every block. -/
theorem run_getInodeDataSectors {inode : Inode} (object : world.mem.inodes pointer = some inode)
    (low : 0 ≤ inode.data.length) (high : inode.data.length ≤ 512 * maxBlocks) :
    run (getInodeDataSectors pointer) world =
      some ((List.range (blocksOf inode.data.length)).map (lookedUp world.disk inode.data), world) := by
  have maximum : maxBlocks = 16635 := rfl
  have limit : blocksOf inode.data.length ≤ 16635 := by
    unfold blocksOf
    omega
  rw [getInodeDataSectors, run_bind, run_getInode object, Option.bind_some]
  dsimp only
  rw [if_neg (by omega), bytesToSectors_eq low high]
  generalize blocksOf inode.data.length = blocks at limit
  have direct : ((List.finRange 123).take (min blocks 123)).map inode.data.directBlocks =
      (List.range' 0 (min blocks 123)).map (lookedUp world.disk inode.data) :=
    map_take_finRange _ _ (fun index => by rw [Nat.zero_add, lookedUp_direct index.isLt]) (Nat.min_le_right _ _)
  -- (2) a single indirect block
  have indirect : ∀ l ≤ 128, run (if l > 0 then blockSectors inode.data.indirectBlock l else pure []) world =
      some ((List.range' 123 l).map (lookedUp world.disk inode.data), world) := by
    intro l fits
    have sectors := map_take_finRange (world.disk inode.data.indirectBlock).words (lookedUp world.disk inode.data)
      (fun index => (lookedUp_indirect index).symm) fits
    split_ifs with some
    · rw [run_blockSectors, sectors]
    · rw [show l = 0 from by omega]
      rfl
  -- (3) a single doubly indirect block
  have doubly : ∀ l ≤ 128 * 128, run (if l > 0 then do
        let entries ← blockSectors inode.data.doublyIndirectBlock (divRoundUp l 128)
        doublySectors entries l
      else pure []) world = some ((List.range' 251 l).map (lookedUp world.disk inode.data), world) := by
    intro l fits
    split_ifs with some
    · rw [run_bind, run_blockSectors, Option.bind_some]
      refine run_doublySectors inode.data world (Lib.take_finRange_consecutive _) ?_
      rw [List.length_take, List.length_finRange, divRoundUp]
      omega
    · rw [show l = 0 from by omega]
      rfl
  have parts : List.range blocks = List.range' 0 (min blocks 123) ++ List.range' 123 (min (blocks - min blocks 123) 128) ++
      List.range' 251 (min (blocks - min blocks 123 - min (blocks - min blocks 123) 128) (128 * 128)) := by
    rw [List.range_eq_range', range'_split 0 blocks 123, range'_split (0 + 123) _ 128, List.append_assoc,
      Nat.min_eq_left (by omega : blocks - min blocks 123 - min (blocks - min blocks 123) 128 ≤ 128 * 128)]
  rw [run_bind, indirect _ (Nat.min_le_right _ _), Option.bind_some, run_bind, doubly _ (Nat.min_le_right _ _),
    Option.bind_some, run_pure, direct, parts, List.map_append, List.map_append]

/-- The lookup of a block, the list of all data blocks and the release of all blocks agree on an inode. -/
def World.TraversalsAgree (world : World) (pointer : Pointer) (sector : BlockSector) (data : InodeDisk) : Prop :=
  ∃ sectors, run (getInodeDataSectors pointer) world = some (sectors, world) ∧
    (sectors.length : Int) = (data.length + 511) / 512 ∧
    (∀ block (inside : block < sectors.length),
      run (indexToSector data block) world = some (sectors[block], world)) ∧
    (sector ≠ 0 → ∃ released next, Releases (inodeDeallocate data) true world released next ∧ released.Nodup ∧
      ∀ other, other ∈ released ↔
        other ∈ sectors ∨ ∃ block < sectors.length, other ∈ accessed (indexToSector data block) world)

/-- The sectors at the places of an inode are its data blocks and the index blocks above them. -/
theorem mem_map_inodePlaces {other : BlockSector} (complete : Complete world.disk data blocks) (fits : blocks ≤ maxBlocks) :
    other ∈ (inodePlaces blocks).map (sectorAt world.disk data) ↔
      other ∈ (List.range blocks).map (lookedUp world.disk data) ∨
        ∃ block < blocks, other ∈ accessed (indexToSector data block) world := by
  have leaf : ∀ {block}, block < blocks → block < maxBlocks ∧ sectorAt world.disk data (blockPlace block) ≠ 0 :=
    fun below => ⟨by omega, complete.block below (by omega)⟩
  constructor
  · intro member
    obtain ⟨⟨root, path⟩, needed, rfl⟩ := List.mem_map.mp member
    obtain ⟨block, below, same, isPrefix⟩ := (mem_inodePlaces_iff fits).mp needed
    obtain ⟨small, present⟩ := leaf below
    dsimp only at same isPrefix
    rw [same]
    by_cases whole : path = (blockPlace block).2
    · left
      rw [whole]
      exact List.mem_map.mpr ⟨block, List.mem_range.mpr below, lookedUp_eq small present⟩
    · exact .inr ⟨block, below, (mem_accessed_indexToSector small present).mpr ⟨path, isPrefix, whole, rfl⟩⟩
  · rintro (data_ | ⟨block, below, index⟩)
    · obtain ⟨block, inRange, rfl⟩ := List.mem_map.mp data_
      have below := List.mem_range.mp inRange
      obtain ⟨small, present⟩ := leaf below
      rw [lookedUp_eq small present]
      exact List.mem_map_of_mem (blockPlace_mem_inodePlaces below small)
    · obtain ⟨small, present⟩ := leaf below
      obtain ⟨path, isPrefix, _, rfl⟩ := (mem_accessed_indexToSector small present).mp index
      exact List.mem_map_of_mem ((mem_inodePlaces_iff fits).mpr ⟨block, below, rfl, isPrefix⟩)

/-- All traversals of the blocks of an open inode agree; the free map file is never released. -/
theorem traversalsAgree (volume : Volume own shared nodes world) (opened : Opened world sector pointer data) :
    world.TraversalsAgree pointer sector data := by
  have node := volume.node sector data (volume.table.node opened)
  have maximum : maxBlocks = 16635 := rfl
  have low := node.low
  have high := node.high
  have fits : blocksOf data.length ≤ maxBlocks := by
    unfold blocksOf
    omega
  refine ⟨_, run_getInodeDataSectors opened.object low high, ?_, fun block inside => ?_, fun nonzero => ?_⟩
  · simp only [List.length_map, List.length_range, Inode.live, blocksOf]
    omega
  · rw [run_indexToSector, List.getElem_map, List.getElem_range]
    rfl
  · obtain ⟨filePointer, file, freeMapData, freeMap, copy, _⟩ := volume.freeMap
    obtain ⟨next, released, releases, perm, _⟩ := inodeDeallocate_spec nonzero low volume.sound freeMap copy node.owned
      (by rw [bytesToSectors_eq low high]; exact node.complete)
    rw [bytesToSectors_eq low high] at perm
    refine ⟨released, next, releases, perm.nodup_iff.mpr ?_, fun other => ?_⟩
    · exact (List.nodup_cons.mp node.nodup_inodeSectors).2
    · rw [perm.mem_iff, mem_map_inodePlaces node.complete fits, List.length_map, List.length_range]
      rfl

theorem traversalsAgree_root : ∃ world root,
    run (filesysInit true) ⟨.boot 300 fun _ => 0, fun _ => zeros⟩ = some ((), world) ∧
      World.TraversalsAgree ⟨world.mem.openRoot root, world.disk⟩ world.mem.nextPointer 1 root := by
  obtain ⟨world, own, shared, nodes, root, formatted, _, volume, opened, _⟩ := rootOpen_small
  exact ⟨world, root, formatted, traversalsAgree volume opened⟩

end MockOS.Fs
