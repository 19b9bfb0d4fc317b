import MockOS.Fs.Inode
import MockOS.Lib.PointerTree

namespace MockOS.Fs

open Lib (places leafPath)

/-- An index block holds 128 sector numbers, and zero stands for a missing block. -/
def indexTree : Lib.PointerTree BlockSector Sector 128 := ⟨0, Sector.words⟩

@[simp] theorem indexTree_null : indexTree.null = 0 := rfl

@[simp] theorem indexTree_children (block : Sector) : indexTree.children block = block.words := rfl

/-- A block of an inode is reached from one of the 125 entries of `struct inode_disk` along a path. -/
abbrev Place := Fin 125 × List (Fin 128)

/-- The direct blocks, the indirect block and the doubly indirect block. -/
def InodeDisk.entry (data : InodeDisk) (root : Fin 125) : BlockSector :=
  if direct : root.val < 123 then data.directBlocks ⟨root.val, direct⟩
  else if root.val = 123 then data.indirectBlock
  else data.doublyIndirectBlock

/-- The number of index blocks on the way to a data block. -/
def rootLevel (root : Fin 125) : Nat := if root.val < 123 then 0 else if root.val = 123 then 1 else 2

/-- The sector at a place, zero when it is missing. -/
def sectorAt (store : BlockSector → Sector) (data : InodeDisk) (place : Place) : BlockSector :=
  indexTree.follow store (data.entry place.1) place.2

/-- The number of data blocks that an inode can have. -/
def maxBlocks : Nat := 123 + 128 + 128 * 128

/-- The place of a data block. -/
def blockPlace (block : Nat) : Place :=
  if direct : block < 123 then (⟨block, by omega⟩, [])
  else if block < 251 then (123, leafPath (by decide) 1 (block - 123))
  else (124, leafPath (by decide) 2 (block - 251))

theorem direct_lt (index : Fin 123) : index.val < 125 := by omega

/-- The places that `inode_reserve` fills and `inode_deallocate` releases for a number of data blocks. -/
def inodePlaces (blocks : Nat) : List Place :=
  ((List.finRange 123).take (min blocks 123)).map (fun index => (⟨index.val, direct_lt index⟩, [])) ++
    (if blocks > 123 then (places 128 1 (min (blocks - 123) 128)).map fun path => (123, path) else []) ++
    (if blocks > 251 then (places 128 2 (min (blocks - 251) (128 * 128))).map fun path => (124, path) else [])

/-- A place on the lowest level holds data, the others are index blocks. -/
def Place.isLeaf (place : Place) : Prop := place.2.length = rootLevel place.1

instance (place : Place) : Decidable place.isLeaf := inferInstanceAs (Decidable (_ = _))

theorem blockPlace_direct {block : Nat} (direct : block < 123) : blockPlace block = (⟨block, by omega⟩, []) :=
  dif_pos direct

theorem blockPlace_indirect {block : Nat} (low : 123 ≤ block) (high : block < 251) :
    blockPlace block = (123, [⟨block - 123, by omega⟩]) := by
  have digit : (block - 123) / 128 ^ 0 % 128 = block - 123 := by omega
  rw [blockPlace, dif_neg (by omega), if_pos high]
  simp only [leafPath, digit]

theorem blockPlace_doubly {block : Nat} (low : 251 ≤ block) (high : block < maxBlocks) :
    blockPlace block = (124, [⟨(block - 251) / 128, by unfold maxBlocks at high; omega⟩,
      ⟨(block - 251) % 128, Nat.mod_lt _ (by decide)⟩]) := by
  unfold maxBlocks at high
  have upper : (block - 251) / 128 ^ 1 % 128 = (block - 251) / 128 := by omega
  have lower : (block - 251) % 128 ^ 1 / 128 ^ 0 % 128 = (block - 251) % 128 := by omega
  rw [blockPlace, dif_neg (by omega), if_neg (by omega)]
  simp only [leafPath, upper, lower]

theorem blockPlace_isLeaf (block : Nat) : (blockPlace block).isLeaf := by
  unfold Place.isLeaf
  by_cases direct : block < 123
  · simp [blockPlace, direct, rootLevel]
  · by_cases indirect : block < 251
    · rw [blockPlace, dif_neg direct, if_pos indirect]
      exact Lib.length_leafPath _ _ _
    · rw [blockPlace, dif_neg direct, if_neg indirect]
      exact Lib.length_leafPath _ _ _

theorem blockPlace_mem_inodePlaces {block blocks : Nat} (wanted : block < blocks) (small : block < maxBlocks) :
    blockPlace block ∈ inodePlaces blocks := by
  unfold maxBlocks at small
  by_cases direct : block < 123
  · apply List.mem_append_left
    apply List.mem_append_left
    rw [blockPlace_direct direct]
    exact List.mem_map.mpr ⟨⟨block, direct⟩, (Lib.mem_take_finRange _).mpr (by dsimp only; omega), rfl⟩
  · by_cases indirect : block < 251
    · apply List.mem_append_left
      apply List.mem_append_right
      rw [blockPlace, dif_neg direct, if_pos indirect, if_pos (by omega)]
      exact List.mem_map_of_mem (Lib.leafPath_mem_places (by decide) (by omega) (by omega))
    · apply List.mem_append_right
      rw [blockPlace, dif_neg direct, if_neg indirect, if_pos (by omega)]
      exact List.mem_map_of_mem (Lib.leafPath_mem_places (by decide) (by omega) (by omega))

/-- A place within the levels of its root. -/
def Place.within (place : Place) : Prop := place.2.length ≤ rootLevel place.1

theorem within_of_mem_inodePlaces {place : Place} {blocks : Nat} (member : place ∈ inodePlaces blocks) :
    place.within := by
  rcases List.mem_append.mp member with member | member
  · rcases List.mem_append.mp member with member | member
    · obtain ⟨index, _, rfl⟩ := List.mem_map.mp member
      exact Nat.zero_le _
    · split at member
      · obtain ⟨path, inside, rfl⟩ := List.mem_map.mp member
        exact Lib.length_of_mem_places inside
      · cases member
  · split at member
    · obtain ⟨path, inside, rfl⟩ := List.mem_map.mp member
      exact Lib.length_of_mem_places inside
    · cases member

/-- A longer inode has the places of a shorter one. -/
theorem inodePlaces_mono {few many : Nat} (more : few ≤ many) {place : Place} (member : place ∈ inodePlaces few) :
    place ∈ inodePlaces many := by
  rcases List.mem_append.mp member with member | member
  · apply List.mem_append_left
    rcases List.mem_append.mp member with member | member
    · apply List.mem_append_left
      obtain ⟨index, taken, rfl⟩ := List.mem_map.mp member
      have small := (Lib.mem_take_finRange index).mp taken
      exact List.mem_map.mpr ⟨index, (Lib.mem_take_finRange index).mpr (by omega), rfl⟩
    · apply List.mem_append_right
      split at member
      · obtain ⟨path, inside, rfl⟩ := List.mem_map.mp member
        rw [if_pos (by omega)]
        exact List.mem_map_of_mem (Lib.places_mono (by decide) (by omega) inside)
      · cases member
  · apply List.mem_append_right
    split at member
    · obtain ⟨path, inside, rfl⟩ := List.mem_map.mp member
      rw [if_pos (by omega)]
      exact List.mem_map_of_mem (Lib.places_mono (by decide) (by omega) inside)
    · cases member

theorem inodePlaces_nodup (blocks : Nat) : (inodePlaces blocks).Nodup := by
  have distinct : ∀ (root : Fin 125) level leaves,
      ((places 128 level leaves).map fun path => (root, path)).Nodup := fun root level leaves =>
    (Lib.places_nodup level leaves).map fun first second same => (Prod.mk.inj same).2
  have roots : ∀ {root : Fin 125} {paths : List (List (Fin 128))} {place : Place},
      place ∈ paths.map (fun path => (root, path)) → place.1 = root := by
    intro root paths place member
    obtain ⟨path, _, rfl⟩ := List.mem_map.mp member
    rfl
  apply List.nodup_append'.mpr
  refine ⟨List.nodup_append'.mpr ⟨?_, ?_, ?_⟩, ?_, ?_⟩
  · apply ((List.nodup_finRange 123).sublist (List.take_sublist _ _)).map
    intro first second same
    apply Fin.ext
    simpa using (Prod.mk.inj same).1
  · split
    · exact distinct _ _ _
    · exact List.nodup_nil
  · intro place here there
    obtain ⟨index, _, rfl⟩ := List.mem_map.mp here
    split at there
    · have := congrArg Fin.val (roots there)
      simp at this
      omega
    · cases there
  · split
    · exact distinct _ _ _
    · exact List.nodup_nil
  · intro place here there
    split at there
    · have high := roots there
      rcases List.mem_append.mp here with here | here
      · obtain ⟨index, _, rfl⟩ := List.mem_map.mp here
        have := congrArg Fin.val high
        simp at this
        omega
      · split at here
        · rw [roots here] at high
          cases high
        · cases here
    · cases there

/-- `index_to_sector` finds the sector of a block that is there. -/
theorem indexToSector_spec {world : World} {data : InodeDisk} {block : Nat} (small : block < maxBlocks)
    (present : sectorAt world.disk data (blockPlace block) ≠ 0) :
    run (indexToSector data block) world = some (sectorAt world.disk data (blockPlace block), world) := by
  have limit : block < 16635 := small
  by_cases direct : block < 123
  · simp [indexToSector, direct, blockPlace_direct direct, sectorAt, InodeDisk.entry]
  · by_cases indirect : block < 251
    · rw [blockPlace_indirect (by omega) indirect] at present ⊢
      have root : data.indirectBlock ≠ 0 := indexTree.root_of_follow present
      have within : block - 123 < 128 := by omega
      simp [indexToSector, direct, within, sectorAt, InodeDisk.entry, Lib.PointerTree.child, root]
    · rw [blockPlace_doubly (by omega) small] at present ⊢
      have root : data.doublyIndirectBlock ≠ 0 := indexTree.root_of_follow present
      have beyond : ¬ block - 123 < 128 := by omega
      have within : (block - 251) / 128 < 128 := by omega
      have second : (world.disk data.doublyIndirectBlock).words ⟨(block - 251) / 128, within⟩ ≠ 0 := by
        rw [sectorAt, Lib.PointerTree.follow_cons] at present
        have := indexTree.root_of_follow present
        simpa [Lib.PointerTree.child, InodeDisk.entry, root] using this
      simp [indexToSector, direct, beyond, within, sectorAt, InodeDisk.entry, Lib.PointerTree.child, root, second]

end MockOS.Fs
