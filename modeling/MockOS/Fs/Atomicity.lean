import MockOS.Fs.CommandFrames
import MockOS.Fs.ReserveCost

namespace MockOS.Fs

/-- A call that allocates sectors: `filesys_create`, or `inode_write_at` on an open inode. -/
inductive Allocation where
  | create (path : CString) (size : Int)
  | write (inode : Pointer) (buffer : Nat → UInt8) (size offset : Nat)

/-- The arguments have their types, and the inode is open and not that of the free map. -/
def World.Admits (world : World) : Allocation → Prop
  | .create path size => 0 ∉ path ∧ size < 2147483648
  | .write inode _ size offset => inode ∈ world.mem.openInodes ∧ (∀ data, world.mem.inodes inode ≠ some (.live 0 data)) ∧
      0 < size ∧ size < 2147483648 ∧ offset < 2147483648

/-- All bits of the free map and the entries of the root directory are as before. -/
structure World.Restored (world next : World) : Prop where
  bits : ∀ index < world.limit, next.mem.freeMap.bits index = world.mem.freeMap.bits index
  free : next.free = world.free
  entries : next.rootEntries = world.rootEntries

/-- A call that fails leaves nothing behind. -/
def World.FailsCleanly (world : World) : Allocation → Prop
  | .create path size => ∀ next, run (filesysCreate path size false) world = some (false, next) → world.Restored next
  | .write inode buffer size offset => ∀ next, run (inodeWriteAt inode buffer size offset) world = some (0, next) →
      world.Restored next

/-- The sectors that the root directory lacks for one more entry. -/
def World.slotDemand (world : World) : Nat :=
  demandFor world.disk (world.inodeData 1) (36 * freeSlot world.rootEntries + 36)

/-- The root directory does not take the name. -/
def World.BadName (world : World) (name : CString) : Prop :=
  name = [] ∨ 30 < name.length ∨ ∃ sector, Named world.rootEntries name sector

/-- When a call has nothing to give back: it succeeds, or fails before it takes more than the sector of the inode, which is
released. -/
def World.TakesNothing (world : World) : Allocation → Prop
  | .create path size =>
      world.free ≤ 1 ∨ size < 0 ∨ size ≤ 512 * maxBlocks ∧ (inodePlaces (blocksOf size)).length < world.free ∧
        (world.BadName (fileName path) ∧ size = 0 ∨ ¬ world.BadName (fileName path) ∧ (size = 0 ∧ world.slotDemand = 0 ∨
          36 * freeSlot world.rootEntries + 36 ≤ 512 * maxBlocks ∧
            world.slotDemand + (inodePlaces (blocksOf size)).length < world.free))
  | .write inode _ size offset => ∀ sector data, world.mem.inodes inode = some (.live sector data) →
      world.free = 0 ∨ 2147483648 ≤ offset + size ∨ (offset + size : Nat) ≤ data.length ∨
        demandFor world.disk data (offset + size) = 0 ∨
        offset + size ≤ 512 * maxBlocks ∧ demandFor world.disk data (offset + size) ≤ world.free

variable {shared : BlockSector → Prop} {own : Owners} {world next : World} {nodes nodesAfter : Nodes} {sector : BlockSector}
  {root data : InodeDisk} {entries entriesAfter : List DirEntry} {name path : CString} {length : Int}

/-- Where only free sectors were taken, the number of the free ones tells whether any was. -/
theorem AtPrompt.restored_iff (prompt : AtPrompt own shared nodes root entries world) (limit : next.limit = world.limit)
    (used : ∀ other, world.used other → next.used other) (same : next.rootEntries = world.rootEntries) :
    world.Restored next ↔ next.free = world.free := by
  exact ⟨World.Restored.free, fun free =>
    ⟨fun _ => World.bits_eq_of_free prompt.volume.sound.small limit used free, free, same⟩⟩

theorem length_inodePlaces_pos {blocks : Nat} (positive : 0 < blocks) : 0 < (inodePlaces blocks).length :=
  List.length_pos_of_mem (blockPlace_mem_inodePlaces positive (by decide))

theorem bytesToSectors_pos {size : Int} (low : 0 < size) (high : size < 2147483648) : 0 < bytesToSectors size := by
  by_cases small : size ≤ 2147483136
  · rw [bytesToSectors_of_range low.le small]
    omega
  · have wraps : wrap32 (size + 511) = -(4294967296 - 511 - size) := by
      unfold wrap32
      omega
    rw [bytesToSectors, wraps, Int.neg_tdiv, Int.tdiv_eq_ediv_of_nonneg (by omega)]
    omega

/-- When `filesys_create` fails cleanly. -/
theorem AtPrompt.create_failsCleanly_iff (prompt : AtPrompt own shared nodes root entries world) (nulFree : 0 ∉ path)
    (high : length < 2147483648) :
    world.FailsCleanly (.create path length) ↔ world.TakesNothing (.create path length) := by
  have rootEntries := prompt.toMounted.rootEntries
  have maximum : maxBlocks = 16635 := rfl
  obtain ⟨result, next, own', nodes', root', entries', ran, prompt', _, created⟩ :=
    prompt.filesysCreate (nul_free_fileName nulFree) high
  have cost : 0 < length → 0 < (inodePlaces (blocksOf length)).length := fun positive =>
    length_inodePlaces_pos (by unfold blocksOf; omega)
  have slotDemand : world.slotDemand = demandFor world.disk root (36 * freeSlot entries + 36) := by
    rw [World.slotDemand, rootEntries, prompt.toMounted.inodeData prompt.present]
  have bad : world.BadName (fileName path) ↔
      fileName path = [] ∨ 30 < (fileName path).length ∨ ∃ sector, Named entries (fileName path) sector := by
    rw [World.BadName, rootEntries]
  rw [World.TakesNothing, slotDemand, rootEntries, bad]
  rcases created.outcome with ⟨rfl, rfl, _, _, failed⟩ | ⟨rfl, _, _, _, _, _, _, new⟩
  · have clean : world.FailsCleanly (.create path length) ↔ next.free = world.free := by
      rw [← prompt.restored_iff created.limit created.used (prompt'.toMounted.rootEntries.trans rootEntries.symm)]
      constructor
      · exact fun clean => clean next ran
      · intro restored other again
        rw [ran, Option.some.injEq, Prod.mk.injEq] at again
        exact again.2 ▸ restored
    rw [clean]
    cases failed with
    | noSector full free _ => omega
    | noInode available cause negative free _ =>
        by_cases low : length < 0
        · exact iff_of_true (negative low) (.inr (.inl low))
        have sectors : 0 < (inodePlaces (bytesToSectors length)).length := by
          refine length_inodePlaces_pos (bytesToSectors_pos ?_ high)
          by_contra empty
          have none : (inodePlaces (blocksOf length)).length = 0 := by
            rw [show blocksOf length = 0 by unfold blocksOf; omega]
            rfl
          omega
        rw [free (by omega)]
        constructor
        · omega
        · rintro (few | negative | ⟨_, _, _⟩) <;> omega
    | refused cause low fits enough free =>
        rw [free]
        constructor
        · intro same
          refine .inr (.inr ⟨fits, enough, .inl ⟨cause, ?_⟩⟩)
          by_contra notEmpty
          have positive := cost (by omega)
          omega
        · rintro (few | negative | ⟨_, _, ⟨_, empty⟩ | ⟨good, _⟩⟩)
          · omega
          · omega
          · have none : (inodePlaces (blocksOf length)).length = 0 := by
              rw [empty]
              rfl
            omega
          · exact absurd cause good
    | noSlot good full low fits enough cause free =>
        rw [full, free]
        constructor
        · intro same
          by_cases few : world.free ≤ 1
          · exact .inl few
          refine .inr (.inr ⟨fits, enough, .inr ⟨?_, .inl ⟨?_, by omega⟩⟩⟩)
          · rintro (empty | long | ⟨sector, named⟩)
            · exact good.1 empty
            · omega
            · exact good.2.2 sector named
          · by_contra notEmpty
            have positive := cost (by omega)
            omega
        · rintro (few | negative | ⟨_, _, ⟨bad, _⟩ | ⟨_, ⟨empty, none⟩ | ⟨inside, room⟩⟩⟩)
          · omega
          · omega
          · rcases bad with empty | long | ⟨sector, named⟩
            · exact absurd empty good.1
            · omega
            · exact absurd named (good.2.2 sector)
          · have noBlocks : (inodePlaces (blocksOf length)).length = 0 := by
              rw [empty]
              rfl
            omega
          · omega
  · constructor
    · intro _
      have enough := new.enough
      refine .inr (.inr ⟨new.fits, by omega, .inr ⟨?_, .inr ⟨new.slotFits, enough⟩⟩⟩)
      rintro (empty | long | ⟨sector, named⟩)
      · exact new.notEmpty empty
      · exact absurd new.short (by omega)
      · exact new.unnamed sector named
    · intro _ other again
      rw [ran, Option.some.injEq, Prod.mk.injEq] at again
      cases again.1

/-- When `inode_write_at` fails cleanly. -/
theorem AtPrompt.write_failsCleanly_iff (prompt : AtPrompt own shared nodes root entries world) {inode : Pointer}
    {buffer : Nat → UInt8} {size offset : Nat} (admits : world.Admits (.write inode buffer size offset)) :
    world.FailsCleanly (.write inode buffer size offset) ↔ world.TakesNothing (.write inode buffer size offset) := by
  obtain ⟨isOpen, notMap, positive, sizeSmall, offsetSmall⟩ := admits
  obtain ⟨sector, data, live, _⟩ := prompt.volume.table.opened inode isOpen
  have opened : Opened world sector inode data := ⟨isOpen, live⟩
  have nonzero : sector ≠ 0 := by
    rintro rfl
    exact notMap data live
  have present := prompt.volume.table.node opened
  have only : world.TakesNothing (.write inode buffer size offset) ↔
      world.free = 0 ∨ 2147483648 ≤ offset + size ∨ (offset + size : Nat) ≤ data.length ∨
        demandFor world.disk data (offset + size) = 0 ∨
        offset + size ≤ 512 * maxBlocks ∧ demandFor world.disk data (offset + size) ≤ world.free := by
    constructor
    · exact fun all => all sector data live
    · intro here other before again
      rw [live, Option.some.injEq, Inode.live_inj] at again
      rw [← again.2]
      exact here
  rw [only]
  obtain ⟨dataAfter, next, after, step, mem, _, ⟨ran, stores⟩ | ⟨ran, keeps⟩⟩ :=
    prompt.volume.inodeWriteAt opened nonzero buffer positive sizeSmall offsetSmall
  · refine iff_of_true (fun other again => ?_) (.inr (.inr (.inr (.inr ⟨stores.fits, stores.enough⟩))))
    rw [ran, Option.some.injEq, Prod.mk.injEq] at again
    omega
  · have entriesSame : next.rootEntries = world.rootEntries := by
      have there : ∃ rootAfter, Function.update nodes sector (some dataAfter) 1 = some rootAfter ∧
          fileBytes next.disk rootAfter = fileBytes world.disk root := by
        by_cases isRoot : 1 = sector
        · subst isRoot
          rw [prompt.present, Option.some.injEq] at present
          subst present
          exact ⟨dataAfter, Function.update_self _ _ _, (keeps.bytes prompt.holds.tail).2⟩
        · refine ⟨root, (Function.update_of_ne isRoot _ _).trans prompt.present, ?_⟩
          exact step.fileBytes prompt.volume isRoot (by decide) prompt.present
      obtain ⟨rootAfter, here, bytes⟩ := there
      rw [World.rootEntries, World.inodeBytes, step.volume.inodeData_eq here, bytes, World.rootEntries, World.inodeBytes,
        prompt.toMounted.inodeData prompt.present]
    have clean : world.FailsCleanly (.write inode buffer size offset) ↔ next.free = world.free := by
      rw [← prompt.restored_iff keeps.limit keeps.used entriesSame]
      constructor
      · exact fun clean => clean next ran
      · intro restored other again
        rw [ran, Option.some.injEq, Prod.mk.injEq] at again
        exact again.2 ▸ restored
    have beyond := keeps.beyond
    have cause := keeps.cause
    have free := keeps.free
    rw [clean, free]
    split_ifs <;> omega

section Format

variable {deviceSize : UInt32} {garbage : Nat → UInt8} {disk : BlockSector → Sector} {start : World}

/-- In every state of a safe run, an allocation fails cleanly exactly when it has taken nothing that it would have to give
back. -/
theorem safeRun_failsCleanly_iff (fits : FormatFits deviceSize)
    (formatted : run (filesysInit true) ⟨.boot deviceSize garbage, disk⟩ = some ((), start))
    (reached : start.SafeRun world) {allocation : Allocation} (admits : world.Admits allocation) :
    world.FailsCleanly allocation ↔ world.TakesNothing allocation := by
  obtain ⟨shared, own, nodes, root, entries, prompt⟩ := safeRun_prompting fits formatted reached
  cases allocation with
  | create path size => exact prompt.create_failsCleanly_iff admits.1 admits.2
  | write inode buffer size offset => exact prompt.write_failsCleanly_iff admits

end Format

/-- After commands of every kind, a second creation of a fails and leaves nothing behind. -/
theorem safeRun_failsCleanly_iff_small : ∃ start world first,
    run (filesysInit true) ⟨.boot 300 fun _ => 0, fun _ => zeros⟩ = some ((), start) ∧
      Lib.Runs World.RoomyStep start usedCommands world ∧ Named world.rootEntries [97] first ∧
      (∃ next, run (filesysCreate [97] 0 false) world = some (false, next)) ∧ world.FailsCleanly (.create [97] 0) := by
  obtain ⟨start, world, shared, first, _, _, formatted, runs, ⟨_, _, _, _, orderly⟩, names, _⟩ := used_small
  obtain ⟨_, rest⟩ := plainRun_atRest formatFits_small formatted .start
  have reached := ((roomyRun_of_runs runs).plainRun rest).safeRun rest
  have named : Named world.rootEntries [97] first := (names _ _).mpr (.inl ⟨rfl, rfl⟩)
  have admits : world.Admits (.create [97] 0) := ⟨by decide, by decide⟩
  have bad : world.BadName (fileName [97]) := by
    rw [plainName_a.fileName]
    exact .inr (.inr ⟨first, named⟩)
  have takesNothing : world.TakesNothing (.create [97] 0) := by
    have none : (inodePlaces (blocksOf 0)).length = 0 := by decide
    have maximum : maxBlocks = 16635 := rfl
    rcases Nat.lt_or_ge 1 world.free with room | few
    · refine .inr (.inr ⟨by omega, ?_, .inl ⟨bad, rfl⟩⟩)
      rw [none]
      omega
    · exact .inl few
  obtain ⟨result, next, _, _, _, _, ran, _, _, created⟩ :=
    orderly.toAtPrompt.filesysCreate (nul_free_fileName plainName_a.nulFree) (by decide : (0 : Int) < 2147483648)
  have refused : result = false := by
    rcases created.outcome with ⟨refused, _⟩ | ⟨_, _, _, _, _, _, _, new⟩
    · exact refused
    · rw [plainName_a.fileName] at new
      exact absurd (orderly.toMounted.rootEntries ▸ named) (new.unnamed first)
  rw [refused] at ran
  exact ⟨start, world, first, formatted, runs, named, ⟨next, ran⟩,
    (safeRun_failsCleanly_iff formatFits_small formatted reached admits).mpr takesNothing⟩

/-- A file that is too large for a new device takes its free sectors for good. -/
theorem create_leaks : ∃ world,
    run (filesysInit true) ⟨.boot 300 fun _ => 0, fun _ => zeros⟩ = some ((), world) ∧
      ¬ world.FailsCleanly (.create [97] 200000) := by
  obtain ⟨world, own, shared, nodes, root, formatted, free, _, prompt⟩ := format_small
  refine ⟨world, formatted, fun clean => ?_⟩
  have places : (inodePlaces (blocksOf 200000)).length = 395 := length_inodePlaces (by decide : 391 ≤ maxBlocks)
  rcases (prompt.create_failsCleanly_iff (by decide) (by decide)).mp clean with few | negative | ⟨_, enough, _⟩
  · omega
  · omega
  · omega

end MockOS.Fs
