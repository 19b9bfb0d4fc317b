import MockOS.Fs.Atomicity

namespace MockOS.Fs

/-- A call that writes to an inode: `inode_create`, or `inode_write_at` on an open inode. -/
inductive InodeWriter where
  | create (sector : BlockSector) (length : Int) (isDir : Bool)
  | write (inode : Pointer) (buffer : Nat → UInt8) (size offset : Nat)

/-- The sector of a new inode is not that of another one, and the inode of a write is open and not that of the free map. -/
def World.AdmitsWriter (world : World) : InodeWriter → Prop
  | .create sector length _ => sector ≠ 0 ∧ sector ≠ 1 ∧ (∀ name, ¬ Named world.rootEntries name sector) ∧
      length < 2147483648
  | .write inode buffer size offset => world.Admits (.write inode buffer size offset)

/-- The sectors that a call on an inode may change: its own one, those in its tree, those of the free map file, and those
that are newly in use. -/
def World.MayChange (world next : World) (sector : BlockSector) (data : InodeDisk) (changed : BlockSector) : Prop :=
  changed = sector ∨ (changed ≠ 0 ∧ ∃ place : Place, place.within ∧ sectorAt world.disk data place = changed) ∨
    (∃ block < blocksOf (world.inodeData 0).length,
      changed = sectorAt world.disk (world.inodeData 0) (blockPlace block)) ∨
    (¬ world.used changed ∧ next.used changed)

/-- No other sector is changed. -/
def World.NoStray (world : World) : InodeWriter → Prop
  | .create sector length isDir => ∀ result next, run (inodeCreate sector length isDir) world = some (result, next) →
      ∀ changed, next.disk changed ≠ world.disk changed → world.MayChange next sector (emptyInode length isDir) changed
  | .write inode buffer size offset => ∀ sector data, world.mem.inodes inode = some (.live sector data) →
      ∀ result next, run (inodeWriteAt inode buffer size offset) world = some (result, next) →
        ∀ changed, next.disk changed ≠ world.disk changed → world.MayChange next sector data changed

/-- The free sectors run out where the next missing block of the inode is an index block. -/
def World.EndsAtIndex (world : World) (data : InodeDisk) (length : Int) : Prop :=
  (inodeDemand world.disk data (bytesToSectors length))[world.free]? = some true

/-- The call extends an inode until the free sectors run out where the next missing block is an index block. -/
def World.MeetsIndex (world : World) : InodeWriter → Prop
  | .create _ length isDir => 0 ≤ length ∧ world.EndsAtIndex (emptyInode length isDir) length
  | .write inode _ size offset => ∃ sector data, world.mem.inodes inode = some (.live sector data) ∧
      data.length < (offset + size : Nat) ∧ offset + size < 2147483648 ∧ world.EndsAtIndex data (offset + size : Nat)

variable {shared : BlockSector → Prop} {own after : Owners} {world middle next : World} {nodes nodesAfter : Nodes}
  {sector changed : BlockSector} {root data : InodeDisk} {entries : List DirEntry}

theorem AtPrompt.shared_sector (prompt : AtPrompt own shared nodes root entries world) (inFile : shared changed) :
    ∃ block < blocksOf (world.inodeData 0).length,
      changed = sectorAt world.disk (world.inodeData 0) (blockPlace block) := by
  obtain ⟨pointer, file, data, opened, copy, member⟩ := prompt.volume.freeMap
  have present := prompt.volume.table.node ⟨member, opened.liveInode⟩
  rw [prompt.toMounted.inodeData present]
  exact (opened.shared_iff changed).mp inFile

/-- Sector 0 is none of the sectors that may be changed. -/
theorem AtPrompt.zero_not_mayChange (prompt : AtPrompt own shared nodes root entries world) (nonzero : sector ≠ 0) :
    ¬ world.MayChange next sector data 0 := by
  rintro (same | ⟨impossible, _⟩ | ⟨block, inside, same⟩ | ⟨unused, _⟩)
  · exact nonzero same.symm
  · exact impossible rfl
  · obtain ⟨pointer, file, data, opened, copy, member⟩ := prompt.volume.freeMap
    have present := prompt.volume.table.node ⟨member, opened.liveInode⟩
    rw [prompt.toMounted.inodeData present] at inside same
    exact prompt.volume.not_shared_zero ((opened.shared_iff 0).mpr ⟨block, inside, same⟩)
  · exact unused prompt.volume.sound.reserved

/-- What the allocation of blocks changes. -/
theorem AtPrompt.effect_changes (prompt : AtPrompt own shared nodes root entries world) {demand : List Bool} {success : Bool}
    (effect : Effect shared sector (fun _ => True) own after demand world middle success)
    (here : nodes sector = none ∨ nodes sector = some data) (different : middle.disk changed ≠ world.disk changed) :
    world.MayChange middle sector data changed ∨ changed = 0 ∧ demand[world.free]? = some true := by
  rcases effect.frame changed different with inFile | newlyUsed | ⟨place, owned, _⟩ | zero
  · exact .inl (.inr (.inr (.inl (prompt.shared_sector inFile))))
  · exact .inl (.inr (.inr (.inr newlyUsed)))
  · obtain ⟨other, present, tree⟩ := prompt.live changed _ owned
    rcases here with absent | there
    · rw [absent] at present
      cases present
    · rw [there, Option.some.injEq] at present
      subst present
      refine .inl (.inr (.inl ⟨?_, place, tree place rfl⟩))
      rintro rfl
      exact prompt.volume.sound.zero _ _ owned
  · exact .inr zero

/-- An allocation stays within its sectors unless it clears sector 0. -/
theorem AtPrompt.effect_noStray_iff (prompt : AtPrompt own shared nodes root entries world) {demand : List Bool}
    {success : Bool} (effect : Effect shared sector (fun _ => True) own after demand world middle success)
    (here : nodes sector = none ∨ nodes sector = some data) (nonzero : sector ≠ 0) :
    (∀ changed, middle.disk changed ≠ world.disk changed → world.MayChange middle sector data changed) ↔
      ¬ (demand[world.free]? = some true ∧ world.disk 0 ≠ zeros) := by
  constructor
  · rintro within ⟨ends, dirty⟩
    have cleared := effect.cleared ends
    exact prompt.zero_not_mayChange nonzero (within 0 (by rw [cleared]; exact dirty.symm))
  · intro clean changed different
    rcases prompt.effect_changes effect here different with may | ⟨rfl, ends⟩
    · exact may
    · have dirty : world.disk 0 ≠ zeros := by
        rw [← effect.cleared ends]
        exact different.symm
      exact absurd ⟨ends, dirty⟩ clean

/-- An allocation that succeeds has enough sectors for all missing blocks. -/
theorem Effect.not_endsAtIndex {length : Int}
    (effect : Effect shared sector (fun _ => True) own after (inodeDemand world.disk data (bytesToSectors length)) world
      middle true) : ¬ world.EndsAtIndex data length := by
  have enough : (inodeDemand world.disk data (bytesToSectors length)).length ≤ world.free :=
    of_decide_eq_true effect.outcome.symm
  rw [World.EndsAtIndex, List.getElem?_eq_none enough]
  exact Option.some_ne_none _ |>.symm

/-- Where `inode_create` writes. -/
theorem AtPrompt.create_noStray_iff (prompt : AtPrompt own shared nodes root entries world) {length : Int} {isDir : Bool}
    (admits : world.AdmitsWriter (.create sector length isDir)) :
    world.NoStray (.create sector length isDir) ↔ ¬ (world.MeetsIndex (.create sector length isDir) ∧ world.disk 0 ≠ zeros) := by
  obtain ⟨nonzero, nonroot, unnamed, high⟩ := admits
  have absent : nodes sector = none := by
    by_contra there
    rcases prompt.named sector there with zero | one | ⟨name, named⟩
    · exact nonzero zero
    · exact nonroot one
    · exact unnamed name (prompt.toMounted.rootEntries ▸ named)
  by_cases negative : length < 0
  · refine iff_of_true (fun result next ran changed different => ?_) fun both => absurd both.1.1 (by omega)
    rw [inodeCreate_negative negative, Option.some.injEq, Prod.mk.injEq] at ran
    exact absurd (by rw [ran.2]) different
  obtain ⟨success, direct, indirect, doubly, middle, after, ran, effect, _⟩ :=
    inodeCreate_run (by omega : 0 ≤ length) isDir prompt.volume.sound prompt.volume.ready (.inr nonzero)
  by_cases done : (success && decide (bytesToSectors length ≤ maxBlocks)) = true
  · obtain ⟨rfl, _⟩ := Bool.and_eq_true_iff.mp done
    rw [if_pos done] at ran
    refine iff_of_true (fun result next again changed different => ?_) fun both => effect.not_endsAtIndex both.1.2
    rw [ran, Option.some.injEq, Prod.mk.injEq] at again
    obtain ⟨_, rfl⟩ := again
    by_cases self : changed = sector
    · exact .inl self
    · rw [World.write_other _ _ self] at different
      rcases prompt.effect_changes effect (.inl absent) different with may | ⟨_, ends⟩
      · exact may
      · exact absurd ends effect.not_endsAtIndex
  · rw [if_neg done] at ran
    have same : world.NoStray (.create sector length isDir) ↔ ∀ changed, middle.disk changed ≠ world.disk changed →
        world.MayChange middle sector (emptyInode length isDir) changed := by
      constructor
      · exact fun within => within _ _ ran
      · intro within result next again
        rw [ran, Option.some.injEq, Prod.mk.injEq] at again
        exact again.2 ▸ within
    rw [same, prompt.effect_noStray_iff effect (.inl absent) nonzero, World.MeetsIndex,
      and_iff_right (by omega : 0 ≤ length)]
    exact Iff.rfl

/-- Where `inode_write_at` writes. -/
theorem AtPrompt.write_noStray_iff (prompt : AtPrompt own shared nodes root entries world) {inode : Pointer}
    {buffer : Nat → UInt8} {size offset : Nat} (admits : world.AdmitsWriter (.write inode buffer size offset)) :
    world.NoStray (.write inode buffer size offset) ↔
      ¬ (world.MeetsIndex (.write inode buffer size offset) ∧ world.disk 0 ≠ zeros) := by
  obtain ⟨isOpen, notMap, positive, sizeSmall, offsetSmall⟩ := admits
  obtain ⟨sector, data, live, present⟩ := prompt.volume.table.opened inode isOpen
  have opened : Opened world sector inode data := ⟨isOpen, live⟩
  have nonzero : sector ≠ 0 := by
    rintro rfl
    exact notMap data live
  have node := prompt.volume.node sector data present
  have maximum : maxBlocks = 16635 := rfl
  have high := node.high
  have only : world.NoStray (.write inode buffer size offset) ↔ ∀ result next,
      run (inodeWriteAt inode buffer size offset) world = some (result, next) →
        ∀ changed, next.disk changed ≠ world.disk changed → world.MayChange next sector data changed := by
    constructor
    · exact fun all => all sector data live
    · intro here other before again
      rw [live, Option.some.injEq, Inode.live_inj] at again
      rw [← again.1, ← again.2]
      exact here
  have meets : world.MeetsIndex (.write inode buffer size offset) ↔ data.length < (offset + size : Nat) ∧
      offset + size < 2147483648 ∧ world.EndsAtIndex data (offset + size : Nat) := by
    constructor
    · rintro ⟨other, before, again, met⟩
      rw [live, Option.some.injEq, Inode.live_inj] at again
      rwa [again.2]
    · exact fun met => ⟨sector, data, live, met⟩
  rw [only, meets]
  by_cases inside : ((offset + size : Nat) : Int) ≤ data.length
  · obtain ⟨disk, ran, _, written, _⟩ := prompt.volume.write_inPlace opened nonzero buffer positive inside
    refine iff_of_true (fun result next again changed different => ?_) fun both => absurd both.1.1 (by omega)
    rw [ran, Option.some.injEq, Prod.mk.injEq] at again
    obtain ⟨_, rfl⟩ := again
    obtain ⟨block, below, _, rfl⟩ := written.frame changed different
    exact .inr (.inl ⟨node.complete.block (by unfold blocksOf; omega) (by omega), _, blockPlace_within block, rfl⟩)
  by_cases wraps : offset + size < 2147483648
  · have length : wrap32 ((offset : Int) + size) = (offset + size : Nat) := by
      rw [wrap32_of_range (by omega) (by omega)]
      push_cast
      rfl
    obtain ⟨success, direct, indirect, doubly, middle, after, ran, effect, grown⟩ :=
      inodeWriteAt_extend buffer prompt.volume.sound prompt.volume.ready nonzero live node.owned node.high node.low
        (show 0 ≤ wrap32 ((offset : Int) + size) by omega) (.inr (by omega))
    rw [length] at ran effect grown
    by_cases done : (success && decide (bytesToSectors (offset + size : Nat) ≤ maxBlocks)) = true
    · obtain ⟨reserved, fits⟩ := Bool.and_eq_true_iff.mp done
      rw [if_pos done, Int.toNat_natCast] at ran
      obtain ⟨disk, wrote, _, _, loop⟩ := prompt.volume.write_extended opened nonzero buffer wraps (by omega) effect grown
        reserved (of_decide_eq_true fits) rfl rfl
      subst reserved
      refine iff_of_true (fun result next again changed different => ?_) fun both => effect.not_endsAtIndex both.1.2.2
      rw [ran, wrote, Option.some.injEq, Prod.mk.injEq] at again
      obtain ⟨_, rfl⟩ := again
      by_cases self : changed = sector
      · exact .inl self
      by_cases before : middle.disk changed = world.disk changed
      · have loopChanged : ∃ place, after changed = some (sector, some place) := by
          refine loop changed fun same => different ?_
          change disk changed = world.disk changed
          rw [same, World.write_other _ _ self]
          exact before
        obtain ⟨place, owned⟩ := loopChanged
        cases wasOwned : own changed with
        | none =>
            obtain ⟨_, unused, used, _⟩ := effect.fresh changed _ owned wasOwned
            exact .inr (.inr (.inr ⟨unused, used⟩))
        | some owner =>
            rw [effect.kept changed owner wasOwned, Option.some.injEq] at owned
            subst owned
            obtain ⟨other, there, tree⟩ := prompt.live changed _ wasOwned
            rw [present, Option.some.injEq] at there
            subst there
            refine .inr (.inl ⟨?_, place, tree place rfl⟩)
            rintro rfl
            exact prompt.volume.sound.zero _ _ wasOwned
      · rcases prompt.effect_changes effect (.inr present) before with may | ⟨_, ends⟩
        · exact may
        · exact absurd ends effect.not_endsAtIndex
    · rw [if_neg done] at ran
      have same : (∀ result next, run (inodeWriteAt inode buffer size offset) world = some (result, next) →
          ∀ changed, next.disk changed ≠ world.disk changed → world.MayChange next sector data changed) ↔
          ∀ changed, middle.disk changed ≠ world.disk changed → world.MayChange middle sector data changed := by
        constructor
        · intro within
          have all := within _ _ ran
          exact all
        · intro within result next again
          rw [ran, Option.some.injEq, Prod.mk.injEq] at again
          obtain ⟨_, rfl⟩ := again
          exact within
      rw [same, prompt.effect_noStray_iff effect (.inr present) nonzero]
      exact ⟨fun clean both => clean ⟨both.1.2.2, both.2⟩,
        fun clean both => clean ⟨⟨Int.not_le.mp inside, wraps, both.1⟩, both.2⟩⟩
  · have negative : wrap32 ((offset : Int) + size) < 0 := by
      unfold wrap32
      omega
    refine iff_of_true (fun result next again changed different => ?_) fun both => absurd both.1.2.1 wraps
    rw [inodeWriteAt_refused buffer live node.high node.low negative, Option.some.injEq, Prod.mk.injEq] at again
    exact absurd (by rw [again.2]) different

section Format

variable {deviceSize : UInt32} {garbage : Nat → UInt8} {disk : BlockSector → Sector} {start : World}

/-- In every state of a safe run, a call on an inode changes no foreign sector unless it clears sector 0, which it does
when the free sectors run out at an index block. -/
theorem safeRun_noStray_iff (fits : FormatFits deviceSize)
    (formatted : run (filesysInit true) ⟨.boot deviceSize garbage, disk⟩ = some ((), start))
    (reached : start.SafeRun world) {writer : InodeWriter} (admits : world.AdmitsWriter writer) :
    world.NoStray writer ↔ ¬ (world.MeetsIndex writer ∧ world.disk 0 ≠ zeros) := by
  obtain ⟨shared, own, nodes, root, entries, prompt⟩ := safeRun_prompting fits formatted reached
  cases writer with
  | create sector length isDir => exact prompt.create_noStray_iff admits
  | write inode buffer size offset => exact prompt.write_noStray_iff admits

end Format

theorem safeRun_noStray_iff_small : ∃ world,
    run (filesysInit true) ⟨.boot 300 fun _ => 0, fun _ => zeros⟩ = some ((), world) ∧
      world.NoStray (.create 200 1000 false) := by
  obtain ⟨world, own, shared, nodes, root, formatted, free, _, prompt⟩ := format_small
  have admits : world.AdmitsWriter (.create 200 1000 false) :=
    ⟨by decide, by decide, fun name => by rw [prompt.toMounted.rootEntries]; exact not_named_newEntries _ _ _ _, by decide⟩
  refine ⟨world, formatted, (safeRun_noStray_iff formatFits_small formatted .start admits).mpr fun both => ?_⟩
  have few : (inodeDemand world.disk (emptyInode 1000 false) (bytesToSectors 1000)).length ≤ world.free := by
    rw [length_inodeDemand_emptyInode, free]
    decide
  have ends := both.1.2
  rw [World.EndsAtIndex, List.getElem?_eq_none few] at ends
  cases ends

/-- On a new device of 198 sectors 123 are free, and the creation of an inode with 124 data blocks clears the sector of
the free map inode. -/
theorem create_clears_sector_zero : ∃ world,
    run (filesysInit true) ⟨.boot 198 fun _ => 0, fun _ => zeros⟩ = some ((), world) ∧
      ¬ world.NoStray (.create 150 63488 false) := by
  have fits : FormatFits 198 := by constructor <;> decide
  obtain ⟨world, own, shared, nodes, formatted, fresh⟩ := filesysInit_format (fun _ => 0) (fun _ => zeros) fits
  obtain ⟨own', root, prompt⟩ := fresh.atPrompt
  obtain ⟨_, freeMap, _, _, nodesEq, onDisk, _⟩ := fresh.nodes
  have free := fresh.free
  have places : mapBits 198 = 197 ∧ (inodePlaces (blocksOf (Bitmap.byteCnt (mapBits 198)))).length = 1 ∧
    (inodePlaces (blocksOf 36000)).length = 71 := by decide
  have available : world.free = 123 := by omega
  have admits : world.AdmitsWriter (.create 150 63488 false) :=
    ⟨by decide, by decide, fun name => by rw [prompt.toMounted.rootEntries]; exact not_named_newEntries _ _ _ _, by decide⟩
  have blocks : bytesToSectors 63488 = 124 := by decide
  have ends : world.EndsAtIndex (emptyInode 63488 false) 63488 := by
    have flags : ((inodePlaces 124).map fun place => decide (place.2.length < rootLevel place.1))[123]? = some true := by
      decide +kernel
    rw [World.EndsAtIndex, available, blocks, inodeDemand]
    simpa using flags
  have dirty : world.disk 0 ≠ zeros := by
    intro cleared
    have present : nodes 0 = some freeMap := by
      rw [nodesEq, Function.update_of_ne (by decide), Function.update_self]
    obtain ⟨pointer, file, data, opened, _, member⟩ := fresh.volume.freeMap
    have same := fresh.volume.table.node ⟨member, opened.liveInode⟩
    rw [present, Option.some.injEq] at same
    have length : freeMap.length = Bitmap.byteCnt world.limit := same ▸ opened.length
    rw [← onDisk, cleared, fresh.limit] at length
    exact absurd length (by decide)
  exact ⟨world, formatted, fun clean => (prompt.create_noStray_iff admits).mp clean ⟨⟨by decide, ends⟩, dirty⟩⟩

end MockOS.Fs
