import MockOS.Fs.Ownership

namespace MockOS.Fs

theorem byteToSector_spec {world : World} {data : InodeDisk} {pos : Nat} (inside : (pos : Int) < data.length)
    (small : pos / 512 < maxBlocks) (present : sectorAt world.disk data (blockPlace (pos / 512)) ≠ 0) :
    run (byteToSector data pos) world = some (sectorAt world.disk data (blockPlace (pos / 512)), world) := by
  have index : ((pos : Int) / 512).toNat = pos / 512 := by omega
  rw [byteToSector, if_pos ⟨by omega, inside⟩, index, indexToSector_spec small present]

theorem byteToSector_outside {world : World} {data : InodeDisk} {pos : Int} (outside : pos < 0 ∨ data.length ≤ pos) :
    run (byteToSector data pos) world = some (noSector, world) := by
  rw [byteToSector, if_neg (by omega), run_pure]

theorem chunk_eq {length size : Int} {offset : Nat} (low : 0 ≤ length) (high : length < 2147483648)
    (small : offset < 2147483648) : chunk length size offset = (((offset % 512 : Nat) : Int), 512 - ((offset % 512 : Nat) : Int),
      min size (min (length - offset) (512 - ((offset % 512 : Nat) : Int)))) := by
  rw [chunk, wrap32_of_range (by omega) (by omega), Int.tmod_eq_emod_of_nonneg (by omega)]
  simp only [Prod.mk.injEq]
  refine ⟨by omega, by omega, ?_⟩
  split <;> split <;> omega

/-- The data from position `low` to `high` was replaced by `source`, and nothing else changed. -/
structure Written (store disk : BlockSector → Sector) (data : InodeDisk) (source : Nat → UInt8) (low high : Nat) :
    Prop where
  tree : ∀ place : Place, place.within → sectorAt disk data place = sectorAt store data place
  frame : ∀ sector, disk sector ≠ store sector → ∃ block, 512 * block < high ∧ low < 512 * (block + 1) ∧
    sector = sectorAt store data (blockPlace block)
  bytes : ∀ block < maxBlocks, sectorAt store data (blockPlace block) ≠ 0 → ∀ byte : Fin 512,
    disk (sectorAt store data (blockPlace block)) byte =
      if low ≤ 512 * block + byte.val ∧ 512 * block + byte.val < high then source (512 * block + byte.val)
      else store (sectorAt store data (blockPlace block)) byte

theorem Written.empty (store : BlockSector → Sector) (data : InodeDisk) (source : Nat → UInt8) (pos : Nat) :
    Written store store data source pos pos where
  tree _ _ := rfl
  frame _ changed := absurd rfl changed
  bytes block _ _ byte := by rw [if_neg (by omega)]

theorem Written.trans {store middle disk : BlockSector → Sector} {data : InodeDisk} {source : Nat → UInt8}
    {low mid high : Nat} (first : Written store middle data source low mid)
    (second : Written middle disk data source mid high) (lowMid : low ≤ mid) (midHigh : mid ≤ high) :
    Written store disk data source low high where
  tree place within := (second.tree place within).trans (first.tree place within)
  frame sector changed := by
    by_cases same : middle sector = store sector
    · obtain ⟨block, below, above, found⟩ := second.frame sector (same ▸ changed)
      exact ⟨block, below, by omega, by rw [found, first.tree _ (blockPlace_within block)]⟩
    · obtain ⟨block, below, above, found⟩ := first.frame sector same
      exact ⟨block, by omega, above, found⟩
  bytes block small present byte := by
    have leaf := first.tree _ (blockPlace_within block)
    have later := second.bytes block small (leaf ▸ present) byte
    rw [leaf] at later
    rw [later, first.bytes block small present byte]
    split_ifs <;> first | rfl | omega

/-- Only the bytes of the range matter. -/
theorem Written.source_congr {store disk : BlockSector → Sector} {data : InodeDisk} {source other : Nat → UInt8}
    {low high : Nat} (written : Written store disk data source low high)
    (same : ∀ pos, low ≤ pos → pos < high → source pos = other pos) :
    Written store disk data other low high where
  tree := written.tree
  frame := written.frame
  bytes block small present byte := by
    rw [written.bytes block small present byte]
    split
    · rename_i inside
      exact same _ inside.1 inside.2
    · rfl

/-- A byte of the data after a write. -/
theorem Written.byteAt {store disk : BlockSector → Sector} {data : InodeDisk} {source : Nat → UInt8}
    {low high : Nat} (written : Written store disk data source low high) {pos : Nat} (small : pos / 512 < maxBlocks)
    (present : sectorAt store data (blockPlace (pos / 512)) ≠ 0) :
    byteAt disk data pos = if low ≤ pos ∧ pos < high then source pos else byteAt store data pos := by
  have position : 512 * (pos / 512) + pos % 512 = pos := Nat.div_add_mod pos 512
  rw [MockOS.Fs.byteAt, written.tree _ (blockPlace_within _), written.bytes _ small present]
  dsimp only
  rw [position]
  rfl

/-- A round of the write loop replaces a part of its sector. -/
theorem writeChunk_spec (world : World) (sector : BlockSector) {offset size : Nat} (source : Nat → UInt8)
    (inside : offset % 512 + size ≤ 512) (positive : 0 < size) :
    run (writeChunk sector (offset % 512 : Nat) (512 - (offset % 512 : Nat)) size source) world =
      some ((), world.write sector fun byte =>
        if offset % 512 ≤ byte.val ∧ byte.val < offset % 512 + size then source (byte.val - offset % 512)
        else world.disk sector byte) := by
  rw [writeChunk]
  by_cases whole : offset % 512 = 0 ∧ size = 512
  · rw [if_pos (by omega), World.run_write]
    congr 4
    funext byte
    rw [whole.1, whole.2, if_pos (by omega), Nat.sub_zero]
  · rw [if_neg (by omega), if_pos (by omega), run_bind, run_bufferCacheRead, Option.bind_some, if_neg (by omega),
      World.run_write]
    rfl

/-- The change of one round, as a change of the data. -/
theorem Written.chunk {own : Owners} {inode : BlockSector} {data : InodeDisk} {world : World}
    (owned : InodeOwned own world.disk inode data) (offset size : Nat) (source : Nat → UInt8)
    (inside : offset % 512 + size ≤ 512) (positive : 0 < size) (small : offset / 512 < maxBlocks)
    (present : sectorAt world.disk data (blockPlace (offset / 512)) ≠ 0) :
    Written world.disk (world.write (sectorAt world.disk data (blockPlace (offset / 512))) fun byte =>
      if offset % 512 ≤ byte.val ∧ byte.val < offset % 512 + size then source (offset + (byte.val - offset % 512))
      else world.disk (sectorAt world.disk data (blockPlace (offset / 512))) byte).disk data source
      offset (offset + size) where
  tree place within := owned.sectorAt_update (owned _ (blockPlace_within _) present) (blockPlace_isLeaf _) _ within
  frame sector changed := by
    refine ⟨offset / 512, by omega, by omega, ?_⟩
    by_contra different
    exact changed (World.write_other _ _ different)
  bytes block blockSmall blockPresent byte := by
    by_cases here : block = offset / 512
    · subst here
      rw [World.write_same]
      split
      · rw [if_pos (by omega)]
        congr 1
        omega
      · rw [if_neg (by omega)]
    · have different : sectorAt world.disk data (blockPlace block) ≠
          sectorAt world.disk data (blockPlace (offset / 512)) := fun same =>
        here (owned.block_unique blockSmall small blockPresent same)
      rw [World.write_other _ _ different, if_neg]
      omega

/-- Within the file the write loop stores all bytes. -/
theorem writeLoop_spec {own : Owners} {inode : BlockSector} {data : InodeDisk} (buffer : Nat → UInt8)
    (limit : data.length ≤ 512 * maxBlocks) (rounds size offset written : Nat) (world : World)
    (owned : InodeOwned own world.disk inode data)
    (complete : Complete world.disk data (blocksOf data.length)) (enough : size ≤ rounds)
    (inside : (offset + size : Nat) ≤ data.length) :
    ∃ disk, run (writeLoop data buffer rounds size offset written) world =
        some (((written + size : Nat) : Int), ⟨world.mem, disk⟩) ∧
      Written world.disk disk data (fun pos => buffer (written + (pos - offset))) offset (offset + size) := by
  induction rounds generalizing size offset written world with
  | zero =>
      obtain rfl : size = 0 := by omega
      exact ⟨world.disk, rfl, Written.empty _ _ _ _⟩
  | succ rounds ih =>
      rw [writeLoop]
      by_cases done : size = 0
      · subst done
        exact ⟨world.disk, rfl, Written.empty _ _ _ _⟩
      · have maximum : maxBlocks = 16635 := rfl
        have small : offset / 512 < maxBlocks := by omega
        have present := complete.block (by unfold blocksOf; omega : offset / 512 < blocksOf data.length) small
        obtain ⟨step, stepEq⟩ : ∃ step, step = min size (512 - offset % 512) := ⟨_, rfl⟩
        have chunkSize : min (size : Int) (min (data.length - offset) (512 - ((offset % 512 : Nat) : Int))) =
            (step : Int) := by omega
        have next : wrap32 ((offset : Int) + step) = (offset + step : Nat) := by
          rw [wrap32_of_range (by omega) (by omega)]
          omega
        rw [if_neg (by omega), run_bind, byteToSector_spec (by omega) small present, Option.bind_some,
          chunk_eq (by omega) (by omega) (by omega), chunkSize]
        dsimp only
        rw [if_neg (by omega), run_bind, writeChunk_spec _ _ _ (by omega) (by omega), Option.bind_some, next]
        -- the bytes of this round, then those of the later ones
        have first := Written.chunk owned offset step (fun pos => buffer (written + (pos - offset))) (by omega)
          (by omega) small present
        simp only [Nat.add_sub_cancel_left] at first
        rw [Int.toNat_natCast]
        obtain ⟨disk, ran, second⟩ := ih (size - step) (offset + step) (written + step) _ (owned.congr first.tree)
          (complete.congr first.tree) (by omega) (by omega)
        refine ⟨disk, ?_, first.trans ?_ (by omega) (by omega)⟩
        · rw [show (size : Int) - step = (size - step : Nat) from by omega,
            show (written : Int) + step = (written + step : Nat) from by omega, ran,
            show written + step + (size - step) = written + size from by omega, World.write_mem]
        · rw [show offset + step + (size - step) = offset + size from by omega] at second
          exact second.source_congr fun pos low _ => congrArg buffer (by omega)

/-- A stretch of the data of an inode. -/
def bytesAt (store : BlockSector → Sector) (data : InodeDisk) (offset count : Nat) : List UInt8 :=
  (List.range count).map fun index => byteAt store data (offset + index)

@[simp] theorem length_bytesAt (store : BlockSector → Sector) (data : InodeDisk) (offset count : Nat) :
    (bytesAt store data offset count).length = count := by simp [bytesAt]

theorem bytesAt_append (store : BlockSector → Sector) (data : InodeDisk) (offset first second : Nat) :
    bytesAt store data offset first ++ bytesAt store data (offset + first) second =
      bytesAt store data offset (first + second) := by
  simp only [bytesAt, List.range_add, List.map_append, List.map_map, Nat.add_assoc]
  rfl

/-- The part of a sector that a round copies. -/
theorem bytesAt_chunk (store : BlockSector → Sector) (data : InodeDisk) {offset count : Nat}
    (inside : offset % 512 + count ≤ 512) :
    ((List.ofFn (store (sectorAt store data (blockPlace (offset / 512))))).drop (offset % 512)).take count =
      bytesAt store data offset count := by
  apply List.ext_getElem
  · simp only [List.length_take, List.length_drop, List.length_ofFn, length_bytesAt]
    omega
  · intro index small _
    simp only [List.length_take, List.length_drop, List.length_ofFn] at small
    have block : (offset + index) / 512 = offset / 512 := by omega
    have lane : (offset + index) % 512 = offset % 512 + index := by omega
    simp only [List.getElem_take, List.getElem_drop, List.getElem_ofFn, bytesAt, List.getElem_map,
      List.getElem_range, byteAt, block, lane]

/-- The read loop returns the bytes that are there. -/
theorem readLoop_spec {data : InodeDisk} (low : 0 ≤ data.length) (limit : data.length ≤ 512 * maxBlocks)
    (rounds size offset : Nat) (world : World) (complete : Complete world.disk data (blocksOf data.length))
    (enough : size ≤ rounds) (offsetSmall : offset < 2147483648) :
    run (readLoop data rounds size offset) world =
      some (bytesAt world.disk data offset (min size (data.length.toNat - offset)), world) := by
  induction rounds generalizing size offset with
  | zero =>
      obtain rfl : size = 0 := by omega
      rw [Nat.zero_min]
      rfl
  | succ rounds ih =>
      have maximum : maxBlocks = 16635 := rfl
      rw [readLoop]
      by_cases done : size = 0
      · subst done
        rw [Nat.zero_min]
        rfl
      · rw [if_neg (by omega), run_bind]
        by_cases beyond : data.length ≤ offset
        · rw [byteToSector_outside (.inr beyond), Option.bind_some, chunk_eq low (by omega) offsetSmall]
          dsimp only
          rw [if_pos (by omega), run_pure, show min size (data.length.toNat - offset) = 0 from by omega]
          rfl
        · have small : offset / 512 < maxBlocks := by omega
          have present := complete.block (by unfold blocksOf; omega : offset / 512 < blocksOf data.length) small
          obtain ⟨step, stepEq⟩ : ∃ step, step = min size (min (data.length.toNat - offset) (512 - offset % 512)) :=
            ⟨_, rfl⟩
          have chunkSize : min (size : Int) (min (data.length - offset) (512 - ((offset % 512 : Nat) : Int))) =
              (step : Int) := by omega
          have next : wrap32 ((offset : Int) + step) = (offset + step : Nat) := by
            rw [wrap32_of_range (by omega) (by omega)]
            omega
          rw [byteToSector_spec (by omega) small present, Option.bind_some, chunk_eq low (by omega) offsetSmall,
            chunkSize]
          dsimp only
          rw [if_neg (by omega), run_bind, run_bufferCacheRead, Option.bind_some, if_neg (by omega), run_bind, next,
            show (size : Int) - step = (size - step : Nat) from by omega,
            ih (size - step) (offset + step) (by omega) (by omega), Option.bind_some, run_pure, Int.toNat_natCast,
            Int.toNat_natCast, bytesAt_chunk _ _ (by omega), bytesAt_append]
          rw [show step + min (size - step) (data.length.toNat - (offset + step)) =
            min size (data.length.toNat - offset) from by omega]

end MockOS.Fs
