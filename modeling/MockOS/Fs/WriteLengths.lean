import MockOS.Fs.RootScans

namespace MockOS.Fs

variable {shared : BlockSector → Prop} {own : Owners} {world : World} {nodes : Nodes} {sector : BlockSector}
  {pointer : Pointer} {data : InodeDisk} {size offset : Nat}

/-- A write returns, the file is no shorter, and a write of no bytes changes nothing of it. -/
def World.WriteKeepsLength (world : World) (pointer : Pointer) (sector : BlockSector) (data : InodeDisk)
    (buffer : Nat → UInt8) (size offset : Nat) : Prop :=
  ∃ written next dataAfter, run (inodeWriteAt pointer buffer size offset) world = some (written, next) ∧
    next.mem.inodes pointer = some (.live sector dataAfter) ∧ data.length ≤ dataAfter.length ∧
    (size = 0 → dataAfter.length = data.length ∧ fileBytes next.disk dataAfter = fileBytes world.disk data)

/-- A write of no bytes at the start of a file cuts it off. -/
theorem inodeWriteAt_start (buffer : Nat → UInt8) (object : world.mem.inodes pointer = some (.live sector data))
    (limit : data.length ≤ 512 * maxBlocks) (low : 0 ≤ data.length) :
    run (inodeWriteAt pointer buffer (0 : Nat) (0 : Nat)) world =
      some (0, (world.setData pointer sector { data with length := 0 }).write sector
        (InodeDisk.toSector { data with length := 0 })) := by
  have ran := byteToSector_noLast world limit low (wrap32_bounds 0) (.inl (by decide))
  rw [inodeWriteAt, inodeWriteAtWithin, run_bind, run_getInode object, Option.bind_some, if_neg (by simp [Inode.live]),
    run_bind]
  change (run (byteToSector data (wrap32 (wrap32 0 - 1))) world).bind _ = _
  rw [ran, Option.bind_some, if_pos rfl]
  rfl

/-- The bytes of a file do not change while blocks are added behind them. -/
theorem Enlarged.byteAt_inside {store final : BlockSector → Sector} {dataAfter : InodeDisk}
    (enlarged : Enlarged store final data dataAfter) {pos : Nat}
    (present : sectorAt final dataAfter (blockPlace (pos / 512)) ≠ 0)
    (before : sectorAt store data (blockPlace (pos / 512)) ≠ 0) :
    MockOS.Fs.byteAt final dataAfter pos = MockOS.Fs.byteAt store data pos := by
  rcases enlarged (pos / 512) present with ⟨_, same⟩ | ⟨absent, _⟩
  · rw [MockOS.Fs.byteAt, same]
    rfl
  · exact absurd absent before

section Opened

variable (volume : Volume own shared nodes world) (opened : Opened world sector pointer data)

include volume opened

/-- A write that ends within the file. -/
theorem Volume.writeKeepsLength_inside (buffer : Nat → UInt8) (low : 0 < offset + size)
    (inside : (offset + size : Nat) ≤ data.length) :
    world.WriteKeepsLength pointer sector data buffer size offset := by
  have node := volume.node sector data (volume.table.node opened)
  have maximum : maxBlocks = 16635 := rfl
  have high := node.high
  have sum : wrap32 ((offset : Int) + size) = (offset + size : Nat) := by
    rw [wrap32_of_range (by omega) (by omega)]
    push_cast
    rfl
  have ran := inodeWriteAt_inPlace buffer volume.sound opened.object node.owned node.high node.complete
    (show 1 ≤ wrap32 ((offset : Int) + size) by omega) (by omega)
  obtain ⟨disk, wrote, written⟩ := writeLoop_spec buffer node.high size size offset 0 world node.owned
    node.complete (Nat.le_refl _) inside
  refine ⟨_, ⟨world.mem, disk⟩, data, ran.trans wrote, opened.object, Int.le_refl _, fun empty => ⟨rfl, ?_⟩⟩
  rw [empty, writeLoop, run_pure, Option.some.injEq, Prod.mk.injEq] at wrote
  rw [wrote.2]

/-- A write that does not find its blocks. -/
theorem Volume.fileBytes_extend_failed (nonzero : sector ≠ 0) {after : Owners} {middle : World} {demand : List Bool}
    {success : Bool} {needed : Place → Prop} {direct : Fin 123 → BlockSector} {indirect doubly : BlockSector}
    (effect : Effect shared sector (fun _ => True) own after demand world middle success)
    (grown : InodeGrown after sector needed success world.disk middle.disk data
      ⟨direct, indirect, doubly, data.isDir, data.length, data.magic⟩) :
    fileBytes middle.disk ⟨direct, indirect, doubly, data.isDir, data.length, data.magic⟩ =
      fileBytes world.disk data := by
  have node := volume.node sector data (volume.table.node opened)
  obtain ⟨step, enlarged⟩ := volume.extend_failed opened nonzero effect grown
  apply fileBytes_of_byteAt
  · rw [fileBytes, length_bytesAt]
  · intro pos inFile
    rw [fileBytes, length_bytesAt] at inFile
    have before : (pos : Int) < data.length := by omega
    have nodeAfter := step.volume.node sector _ (Function.update_self _ _ _)
    have same := enlarged.byteAt_inside (nodeAfter.block_present before).2 (node.block_present before).2
    simp only [fileBytes, bytesAt, List.getElem_map, List.getElem_range, Nat.zero_add]
    exact same

/-- A write of no bytes at the start of a file, of the free map file too. -/
theorem Volume.writeKeepsLength_start (buffer : Nat → UInt8) :
    world.WriteKeepsLength pointer sector data buffer 0 0 ↔ data.length = 0 := by
  have node := volume.node sector data (volume.table.node opened)
  have low := node.low
  have ran := inodeWriteAt_start buffer opened.object node.high low
  have object : ((world.setData pointer sector { data with length := 0 }).write sector
      (InodeDisk.toSector { data with length := 0 })).mem.inodes pointer =
        some (.live sector { data with length := 0 }) := Function.update_self _ _ _
  constructor
  · rintro ⟨written, next, dataAfter, ranAgain, objectAfter, longer, _⟩
    rw [ran, Option.some.injEq, Prod.mk.injEq] at ranAgain
    rw [← ranAgain.2, object, Option.some.injEq, Inode.live_inj] at objectAfter
    rw [← objectAfter.2] at longer
    exact Int.le_antisymm longer low
  · intro empty
    refine ⟨_, _, _, ran, object, Int.le_of_eq empty, fun _ => ⟨empty.symm, ?_⟩⟩
    rw [fileBytes, fileBytes, empty]
    rfl

/-- A write of no bytes behind the end of a file makes it longer exactly when it gets its blocks. -/
theorem Volume.writeKeepsLength_behind (nonzero : sector ≠ 0) (buffer : Nat → UInt8) (small : offset < 2147483648)
    (beyond : data.length < offset) :
    world.WriteKeepsLength pointer sector data buffer 0 offset ↔
      512 * maxBlocks < offset ∨ world.free < demandFor world.disk data offset := by
  have node := volume.node sector data (volume.table.node opened)
  have maximum : maxBlocks = 16635 := rfl
  have low := node.low
  have length : wrap32 ((offset : Int) + (0 : Nat)) = offset := by
    rw [wrap32_of_range (by omega) (by omega)]
    omega
  obtain ⟨success, direct, indirect, doubly, middle, after, ran, effect, grown⟩ :=
    inodeWriteAt_extend buffer volume.sound volume.ready nonzero opened.object node.owned node.high node.low
      (show 0 ≤ wrap32 ((offset : Int) + (0 : Nat)) by omega) (.inr (by omega))
  rw [length] at ran effect grown
  have outcome : (success = true ↔ demandFor world.disk data offset ≤ world.free) := by
    rw [effect.outcome, decide_eq_true_eq]
    rfl
  by_cases done : (success && decide (bytesToSectors offset ≤ maxBlocks)) = true
  · obtain ⟨reserved, fits⟩ := Bool.and_eq_true_iff.mp done
    have inFile := (blocks_fit (by omega) (by omega)).mp (of_decide_eq_true fits)
    have enough := outcome.mp reserved
    rw [if_pos done] at ran
    constructor
    · rintro ⟨written, next, dataAfter, ranAgain, objectAfter, _, same⟩
      rw [ran] at ranAgain
      change some _ = some _ at ranAgain
      rw [Option.some.injEq, Prod.mk.injEq] at ranAgain
      rw [← ranAgain.2] at objectAfter
      change Function.update _ _ _ _ = _ at objectAfter
      rw [Function.update_self, Option.some.injEq, Inode.live_inj] at objectAfter
      have still := (same rfl).1
      rw [← objectAfter.2] at still
      change (offset : Int) = _ at still
      omega
    · intro misses
      omega
  · rw [if_neg done] at ran
    refine iff_of_true ⟨0, _, _, ran, Function.update_self _ _ _, Int.le_refl _, fun _ => ⟨rfl, ?_⟩⟩ ?_
    · change fileBytes middle.disk _ = _
      exact volume.fileBytes_extend_failed opened nonzero effect grown
    · rw [Bool.and_eq_true, outcome, decide_eq_true_eq, blocks_fit (by omega) (by omega)] at done
      omega

/-- A write never makes a file shorter, and a write of no bytes changes nothing, except that an empty write at the start
empties the file and one behind the end extends it. The free map file is only written within its length. -/
theorem writeKeepsLength_iff (buffer : Nat → UInt8) (small : offset + size < 2147483648)
    (inFreeMap : sector = 0 → (offset + size : Nat) ≤ data.length) :
    world.WriteKeepsLength pointer sector data buffer size offset ↔
      (size = 0 → (offset = 0 → data.length = 0) ∧
        (data.length < offset → 512 * maxBlocks < offset ∨ world.free < demandFor world.disk data offset)) := by
  by_cases empty : size = 0
  · subst empty
    by_cases start : offset = 0
    · subst start
      rw [volume.writeKeepsLength_start opened]
      have low := (volume.node sector data (volume.table.node opened)).low
      exact ⟨fun zero _ => ⟨fun _ => zero, fun beyond => by omega⟩, fun keeps => (keeps rfl).1 rfl⟩
    · by_cases beyond : data.length < offset
      · rw [volume.writeKeepsLength_behind opened (fun zero => by have inside := inFreeMap zero; omega) buffer
          (by omega) beyond]
        exact ⟨fun fails _ => ⟨fun zero => absurd zero start, fun _ => fails⟩, fun keeps => (keeps rfl).2 beyond⟩
      · exact iff_of_true (volume.writeKeepsLength_inside opened buffer (by omega) (by omega))
          fun _ => ⟨fun zero => absurd zero start, fun behind => absurd behind beyond⟩
  · refine iff_of_true ?_ fun zero => absurd zero empty
    by_cases inside : ((offset + size : Nat) : Int) ≤ data.length
    · exact volume.writeKeepsLength_inside opened buffer (by omega) inside
    · have nonzero : sector ≠ 0 := fun zero => inside (inFreeMap zero)
      obtain ⟨dataAfter, next, after, step, mem, _, how⟩ :=
        volume.inodeWriteAt opened nonzero buffer (show 0 < size by omega) (by omega) (show offset < 2147483648 by omega)
      have object : next.mem.inodes pointer = some (.live sector dataAfter) := by
        rw [mem]
        exact Function.update_self _ _ _
      rcases how with ⟨ran, stores⟩ | ⟨ran, keeps⟩
      · exact ⟨_, next, dataAfter, ran, object, by rw [stores.length]; omega, fun zero => absurd zero empty⟩
      · exact ⟨_, next, dataAfter, ran, object, by rw [keeps.length], fun zero => absurd zero empty⟩

end Opened

theorem writeKeepsLength_iff_root : ∃ world root,
    run (filesysInit true) ⟨.boot 300 fun _ => 0, fun _ => zeros⟩ = some ((), world) ∧
      (World.WriteKeepsLength ⟨world.mem.openRoot root, world.disk⟩ world.mem.nextPointer 1 root (fun _ => 65) 40000 512 ↔
        (40000 = 0 → (512 = 0 → root.length = 0) ∧ (root.length < (512 : Nat) → 512 * maxBlocks < 512 ∨
          World.free ⟨world.mem.openRoot root, world.disk⟩ < demandFor world.disk root 512))) := by
  obtain ⟨world, own, shared, nodes, root, formatted, _, volume, opened, _⟩ := rootOpen_small
  exact ⟨world, root, formatted, writeKeepsLength_iff volume opened _ (by decide) fun zero => absurd zero (by decide)⟩

/-- A write of no bytes at the start of the root directory empties it. -/
theorem empty_write_cuts_root : ∃ world root,
    run (filesysInit true) ⟨.boot 300 fun _ => 0, fun _ => zeros⟩ = some ((), world) ∧
      run dirOpenRoot world = some (some (world.mem.nextPointer + 1), ⟨world.mem.openRoot root, world.disk⟩) ∧
      ¬ World.WriteKeepsLength ⟨world.mem.openRoot root, world.disk⟩ world.mem.nextPointer 1 root (fun _ => 0) 0 0 := by
  obtain ⟨world, own, shared, nodes, root, formatted, opens, volume, opened, length⟩ := rootOpen_small
  refine ⟨world, root, formatted, opens, fun keeps => ?_⟩
  rw [volume.writeKeepsLength_start opened, length] at keeps
  omega

end MockOS.Fs
