import MockOS.Fs.DirectoryMap
import MockOS.Fs.Fsutil

namespace MockOS.Fs

variable {shared : BlockSector → Prop} {own after : Owners} {world next : World} {nodes nodesAfter : Nodes}
  {sector number : BlockSector} {pointer dir : Pointer} {data dataAfter : InodeDisk} {entries : List DirEntry}
  {entry : DirEntry} {name : CString}

section Add

variable (volume : Volume own shared nodes world) (dirOpened : DirOpened world dir sector pointer data entries)

include volume dirOpened

/-- `dir_add` refuses bad names and names that are there. -/
theorem Volume.dirAdd_refused (cause : name = [] ∨ 30 < name.length ∨ entries[nameSlot entries name]? ≠ none) :
    run (dirAdd dir name number false) world = some (false, world) := by
  rw [dirAdd]
  by_cases bad : name = [] ∨ name.length > 30
  · rw [if_pos bad, run_pure]
  · obtain ⟨entry, found⟩ : ∃ entry, entries[nameSlot entries name]? = some entry := by
      rcases cause with empty | long | present
      · exact absurd (.inl empty) bad
      · exact absurd (.inr long) bad
      · exact Option.ne_none_iff_exists'.mp present
    rw [if_neg bad, run_bind, volume.lookup dirOpened, found]
    rfl

/-- `dir_add` stores an entry in the free slot, unless the directory cannot grow. -/
theorem Volume.dirAdd (nonzero : sector ≠ 0) (notEmpty : name ≠ []) (short : name.length ≤ 30)
    (absent : entries[nameSlot entries name]? = none) (number : BlockSector) :
    ∃ dataAfter next after,
      InodeStep shared sector own after nodes (Function.update nodes sector (some dataAfter)) world next ∧
      next.mem = { world.mem with
        freeMap := next.mem.freeMap, allocationFailures := next.mem.allocationFailures
        inodes := Function.update world.mem.inodes pointer (some (.live sector dataAfter)) } ∧
      dataAfter.isDir = data.isDir ∧
      (run (dirAdd dir name number false) world = some (true, next) ∧
          HoldsEntries next.disk dataAfter (setSlot entries (freeSlot entries) ⟨number, strncpy name 31, true⟩) ∧
          next.mem.allocationFailures = world.mem.allocationFailures ∧
          Stores own after sector data dataAfter
            (fun index => (DirEntry.mk number (strncpy name 31) true).toBytes.getD index 0) 36 (36 * freeSlot entries)
            world next ∨
        run (dirAdd dir name number false) world = some (false, next) ∧ freeSlot entries = entries.length ∧
          HoldsEntries next.disk dataAfter entries ∧ Keeps data dataAfter 36 (36 * freeSlot entries) world next) := by
  have sized : DirEntry.Sized ⟨number, strncpy name 31, true⟩ := length_strncpy name 31
  obtain ⟨dataAfter, next, after, step, mem, isDir, outcome⟩ :=
    volume.writeEntry dirOpened.opened nonzero dirOpened.holds sized (freeSlot_le entries)
  have scan := volume.scanEntries dirOpened.opened dirOpened.holds (fun entry => !entry.inUse) (entries.length + 1) 0
    (Nat.zero_le _) (by omega)
  have ran : run (MockOS.Fs.dirAdd dir name number false) world =
      run (MockOS.Fs.writeEntry pointer ⟨number, strncpy name 31, true⟩ (36 * freeSlot entries : Nat)) world := by
    rw [MockOS.Fs.dirAdd, if_neg (by rintro (empty | long); exacts [notEmpty empty, by omega]), run_bind,
      volume.lookup dirOpened, absent]
    simp only [Option.map_none, Option.bind_some, Option.isSome_none, Bool.false_eq_true, if_false, run_bind, run_pure,
      Bool.not_true, dirOpened.run_dirGetInode, dirOpened.holds.run_entryRounds dirOpened.opened]
    change (run (MockOS.Fs.scanEntries pointer _ (entries.length + 1) ((36 * 0 : Nat) : Int)) world).bind _ = _
    rw [scan, Option.bind_some, List.drop_zero, Nat.zero_add]
    rfl
  exact ⟨dataAfter, next, after, step, mem, isDir, by rw [ran]; exact outcome⟩

end Add

section Remove

variable (volume : Volume own shared nodes world) (dirOpened : DirOpened world dir sector pointer data entries)

include volume dirOpened

/-- `dir_remove` fails for a name that is not there. -/
theorem Volume.dirRemove_absent (absent : entries[nameSlot entries name]? = none) :
    run (dirRemove dir name) world = some (false, world) := by
  rw [dirRemove, run_bind, volume.lookup dirOpened, absent]
  rfl

/-- What the removal of a name does to the memory. -/
def Mem.removed (mem after : Mem) : Mem :=
  { mem with
    freeMap := after.freeMap
    openInodes := after.openInodes
    inodes := after.inodes
    nextPointer := after.nextPointer }

/-- `dir_remove` clears the entry and releases the inode of a file. -/
theorem Volume.dirRemove (nonzero : sector ≠ 0) (found : entries[nameSlot entries name]? = some entry)
    {target : InodeDisk} (present : nodes entry.inodeSector = some target) (regular : target.isDir = false)
    (different : entry.inodeSector ≠ sector) (targetNonzero : entry.inodeSector ≠ 0) :
    ∃ dataAfter next after, run (dirRemove dir name) world = some (true, next) ∧
      Volume after shared (Function.update (Function.update nodes sector (some dataAfter)) entry.inodeSector none) next ∧
      Frame (fun number => number = sector ∨ number = entry.inodeSector) nodes
        (Function.update (Function.update nodes sector (some dataAfter)) entry.inodeSector none) world next ∧
      next.mem = world.mem.removed next.mem ∧ world.mem.nextPointer ≤ next.mem.nextPointer ∧
      dataAfter.isDir = data.isDir ∧ DirOpened next dir sector pointer dataAfter
        (setSlot entries (nameSlot entries name) { entry with inUse := false }) ∧
      next.limit = world.limit ∧ next.disk 0 = world.disk 0 ∧
      ∀ other : BlockSector, other.toNat < world.limit →
        (next.used other ↔ world.used other ∧ other ∉ inodeSectors world.disk entry.inodeSector target) := by
  obtain ⟨inside, _⟩ := List.getElem?_eq_some_iff.mp found
  obtain ⟨targetPointer, mem₁, ran₁, targetOpened, volume₁, how⟩ := volume.inodeOpen present
  obtain ⟨world₁, world₁Eq⟩ : ∃ world₁ : World, world₁ = ⟨mem₁, world.disk⟩ := ⟨_, rfl⟩
  rw [← world₁Eq] at ran₁ targetOpened volume₁
  have same₁ : OpenSame entry.inodeSector world world₁ := by
    rcases how with same | ⟨_, _, same⟩
    · rw [world₁Eq, same]
      exact .refl _ _
    · rw [world₁Eq, same]
      exact .openInode volume.table _ _
  have shape₁ : world₁.mem = world.mem.removed world₁.mem ∧ world.mem.nextPointer ≤ world₁.mem.nextPointer ∧
      world₁.mem.freeMap = world.mem.freeMap := by
    rcases how with same | ⟨_, _, same⟩
    · rw [world₁Eq, same]
      exact ⟨rfl, Nat.le_refl _, rfl⟩
    · rw [world₁Eq, same]
      exact ⟨rfl, Nat.le_succ _, rfl⟩
  have disk₁ : world₁.disk = world.disk := by rw [world₁Eq]
  have opened₁ : Opened world₁ sector pointer data :=
    (same₁ sector different.symm pointer data).mpr dirOpened.opened
  have holds₁ : HoldsEntries world₁.disk data entries := by
    rw [disk₁]
    exact dirOpened.holds
  have sized : DirEntry.Sized { entry with inUse := false } := by
    change entry.Sized
    exact dirOpened.holds.sized (List.mem_of_getElem? found)
  obtain ⟨dataAfter, world₂, own₂, step₂, mem₂, isDir₂, outcome⟩ :=
    volume₁.writeEntry opened₁ nonzero holds₁ sized (Nat.le_of_lt inside)
  rcases outcome with ⟨ran₂, holds₂, failures₂, stores₂⟩ | ⟨_, impossible, _⟩
  · obtain ⟨same₂, opened₂⟩ := opened₁.write mem₂
    have targetOpened₂ : Opened world₂ entry.inodeSector targetPointer target :=
      (same₂ _ different _ _).mpr targetOpened
    obtain ⟨next, sectors, ran₃, mem₃, step₃, perm, limit₃, used₃, _⟩ := step₂.volume.inodeRemove targetOpened₂ targetNonzero
    have same₃ : OpenSame entry.inodeSector world₂ next :=
      .closeInode step₂.volume.table targetOpened₂ (by rw [mem₃]; rfl) (by rw [mem₃]; rfl)
    obtain ⟨pos, openCnt, object⟩ := dirOpened.object
    have dirs₁ : world₁.mem.dirs dir = some ⟨pointer, pos, openCnt⟩ := by
      rw [shape₁.1]
      exact object
    rw [failures₂] at mem₂
    have frame₁ : Frame (· = entry.inodeSector) nodes nodes world world₁ := .of_memory disk₁ (fun _ _ => rfl) same₁
    have frame₂ := Frame.of_step step₂ volume₁ same₂
    have frame₃ := Frame.of_step step₃ step₂.volume same₃
    have isTarget : ∀ number, number = entry.inodeSector → number = sector ∨ number = entry.inodeSector := fun _ => .inr
    have isDir : ∀ number, number = sector → number = sector ∨ number = entry.inodeSector := fun _ => .inl
    refine ⟨dataAfter, next, _, ?_, step₃.volume, ((frame₁.mono isTarget).trans (frame₂.mono isDir)).trans
      (frame₃.mono isTarget), ?_, ?_, isDir₂, ⟨⟨pos, openCnt, ?_⟩, ?_, ?_, ?_⟩, ?_, ?_, fun other inLimit => ?_⟩
    · rw [MockOS.Fs.dirRemove, run_bind, volume.lookup dirOpened, found]
      simp only [Option.map_some, Option.bind_some, run_bind, ran₁, removable, inodeIsDirectory,
        run_getInode targetOpened.object, Inode.live, regular, run_pure, Bool.false_eq_true, if_false, if_true,
        dirGetInode, run_getDir dirs₁, ran₂]
      have removes := ran₃
      rw [run_bind] at removes
      obtain ⟨⟨_, middle⟩, marked, closed⟩ := Option.bind_eq_some_iff.mp removes
      rw [marked, Option.bind_some, closed, Option.bind_some]
    · have mem₁ := shape₁.1
      rw [mem₃]
      simp only [Mem.closeInode]
      rw [mem₂, mem₁]
      rfl
    · rw [mem₃]
      change world.mem.nextPointer ≤ world₂.mem.nextPointer
      rw [mem₂]
      exact shape₁.2.1
    · rw [mem₃]
      change world₂.mem.dirs dir = _
      rw [mem₂]
      exact dirs₁
    · exact (same₃ sector different.symm _ _).mpr opened₂
    · exact step₃.holdsEntries step₂.volume different.symm nonzero (Function.update_self _ _ _) holds₂
    · rw [length_setSlot (Nat.le_of_lt inside)]
      omega
    · rw [limit₃, stores₂.limit, World.limit, World.limit, shape₁.2.2]
    · rw [step₃.zero (by rw [mem₃]; rfl), step₂.zero failures₂, disk₁]
    · have limit₁ : world₁.limit = world.limit := by rw [World.limit, shape₁.2.2, World.limit]
      have used₁ : world₁.used other ↔ world.used other := by rw [World.used, shape₁.2.2, World.used]
      -- the entry is stored where the directory has a block
      have slotInside : 36 * nameSlot entries name + 36 ≤ data.length := by
        have length := dirOpened.holds.length
        omega
      have node := volume₁.node sector data (volume₁.table.node opened₁)
      have noDemand := demandFor_of_complete node.complete slotInside node.high
      have free₂ := stores₂.free
      rw [noDemand, Nat.sub_zero] at free₂
      have used₂ : world₂.used other ↔ world₁.used other := by
        rw [World.used, World.bits_eq_of_free volume₁.sound.small stores₂.limit stores₂.used free₂ (by rwa [limit₁]),
          World.used]
      have sectors₂ : inodeSectors world₂.disk entry.inodeSector target = inodeSectors world.disk entry.inodeSector target := by
        have targetNode := volume₁.node _ _ (volume₁.table.node targetOpened)
        have tree : (inodePlaces (blocksOf target.length)).map (sectorAt world₂.disk target) =
            (inodePlaces (blocksOf target.length)).map (sectorAt world₁.disk target) :=
          List.map_congr_left fun place member => step₂.touches.sectorAt_eq volume₁.sound volume₁.freeMap different
            targetNode.owned (within_of_mem_inodePlaces member)
        rw [inodeSectors, inodeSectors, tree, disk₁]
      rw [used₃, perm.mem_iff, sectors₂, used₂, used₁]
  · omega

end Remove

/-- The wanted elements are the first one and those behind it. -/
theorem filter_findIdx {A : Type} (wanted : A → Bool) (list : List A) :
    list.filter wanted = match list[list.findIdx wanted]? with
      | none => []
      | some found => found :: (list.drop (list.findIdx wanted + 1)).filter wanted := by
  induction list with
  | nil => rfl
  | cons first rest ih =>
      cases isWanted : wanted first with
      | true =>
          rw [List.filter_cons_of_pos isWanted, List.findIdx_cons, isWanted]
          rfl
      | false =>
          rw [List.filter_cons_of_neg (by simp [isWanted]), ih, List.findIdx_cons, isWanted]
          rfl

section Readdir

variable (volume : Volume own shared nodes world) (dirOpened : DirOpened world dir sector pointer data entries)

include volume dirOpened

/-- The world with a directory at the position of a slot. -/
def World.seekDir (world : World) (dir pointer : Pointer) (openCnt : Int) (slot : Nat) : World :=
  ⟨{ world.mem with dirs := Function.update world.mem.dirs dir (some ⟨pointer, (36 * slot : Nat), openCnt⟩) }, world.disk⟩

omit volume dirOpened in
@[simp] theorem World.seekDir_seekDir (world : World) (dir pointer : Pointer) (openCnt : Int) (slot other : Nat) :
    (world.seekDir dir pointer openCnt slot).seekDir dir pointer openCnt other = world.seekDir dir pointer openCnt other := by
  simp only [World.seekDir, Function.update_idem]

/-- The position does not matter to the volume. -/
theorem Volume.seekDir (openCnt : Int) (slot : Nat) :
    Volume own shared nodes (world.seekDir dir pointer openCnt slot) ∧
      DirOpened (world.seekDir dir pointer openCnt slot) dir sector pointer data entries := by
  constructor
  · refine volume.heap rfl rfl (fun _ _ => rfl) (Nat.le_refl _) fun other above => ?_
    obtain ⟨_, noFile, noDir⟩ := volume.table.fresh other above
    refine ⟨noFile, ?_⟩
    change Function.update world.mem.dirs dir _ other = none
    rw [Function.update_of_ne, noDir]
    rintro rfl
    obtain ⟨pos, openCnt, object⟩ := dirOpened.object
    rw [noDir] at object
    cases object
  · exact ⟨⟨_, _, Function.update_self _ _ _⟩, ⟨dirOpened.opened.member, dirOpened.opened.object⟩, dirOpened.holds,
      dirOpened.some_entry⟩

/-- The rounds of `dir_readdir` stop behind the next entry in use. -/
theorem Volume.readdirLoop (openCnt : Int) (rounds slot : Nat) (inside : slot ≤ entries.length)
    (enough : entries.length < slot + rounds) :
    run (readdirLoop dir rounds) (world.seekDir dir pointer openCnt slot) =
      some ((entries[slot + (entries.drop slot).findIdx (·.inUse)]?).map (·.fname),
        world.seekDir dir pointer openCnt (min entries.length (slot + (entries.drop slot).findIdx (·.inUse) + 1))) := by
  have small := volume.entries_small dirOpened.opened dirOpened.holds
  have maximum : maxBlocks = 16635 := rfl
  induction rounds generalizing slot with
  | zero => omega
  | succ rounds ih =>
      obtain ⟨volumeHere, openedHere⟩ := volume.seekDir dirOpened openCnt slot
      have object : (world.seekDir dir pointer openCnt slot).mem.dirs dir = some ⟨pointer, (36 * slot : Nat), openCnt⟩ :=
        Function.update_self _ _ _
      rw [MockOS.Fs.readdirLoop, run_bind, run_getDir object, Option.bind_some, run_bind,
        volumeHere.readEntry openedHere.opened openedHere.holds inside, Option.bind_some]
      by_cases last : slot = entries.length
      · subst last
        rw [List.getElem?_eq_none (Nat.le_refl _), List.drop_length, List.findIdx_nil, Nat.add_zero,
          List.getElem?_eq_none (Nat.le_refl _), Nat.min_eq_left (Nat.le_succ _)]
        rfl
      · have there : slot < entries.length := by omega
        have following : wrap32 (((36 * slot : Nat) : Int) + 36) = ((36 * (slot + 1) : Nat) : Int) := by
          rw [wrap32_of_range (by omega) (by omega)]
          push_cast
          omega
        have moved : (⟨{ (world.seekDir dir pointer openCnt slot).mem with
            dirs := Function.update (world.seekDir dir pointer openCnt slot).mem.dirs dir
              (some ⟨pointer, wrap32 (((36 * slot : Nat) : Int) + 36), openCnt⟩) }, world.disk⟩ : World) =
            world.seekDir dir pointer openCnt (slot + 1) := by
          simp only [World.seekDir, Function.update_idem, following]
        rw [List.getElem?_eq_getElem there, List.drop_eq_getElem_cons there, List.findIdx_cons]
        dsimp only
        rw [run_bind, run_setDir, Option.bind_some]
        change run _ (⟨{ (world.seekDir dir pointer openCnt slot).mem with
            dirs := Function.update (world.seekDir dir pointer openCnt slot).mem.dirs dir
              (some ⟨pointer, wrap32 (((36 * slot : Nat) : Int) + 36), openCnt⟩) }, world.disk⟩ : World) = _
        rw [moved]
        cases isUsed : entries[slot].inUse with
        | true =>
            rw [if_pos rfl, run_pure]
            simp only [cond_true, Nat.add_zero, List.getElem?_eq_getElem there, Option.map_some]
            rw [Nat.min_eq_right (by omega)]
        | false =>
            rw [if_neg (by simp), ih (slot + 1) (by omega) (by omega)]
            simp only [cond_false]
            rw [show slot + 1 + (entries.drop (slot + 1)).findIdx (·.inUse) =
              slot + ((entries.drop (slot + 1)).findIdx (·.inUse) + 1) from by omega]

/-- A directory that is read to its end gives the names of its entries in use. -/
theorem Volume.readNames (openCnt : Int) (rounds slot : Nat) (inside : slot ≤ entries.length)
    (enough : entries.length < slot + rounds) :
    run (readNames dir rounds) (world.seekDir dir pointer openCnt slot) =
      some (((entries.drop slot).filter (·.inUse)).map (·.fname), world.seekDir dir pointer openCnt entries.length) := by
  induction rounds generalizing slot with
  | zero => omega
  | succ rounds ih =>
      obtain ⟨volumeHere, openedHere⟩ := volume.seekDir dirOpened openCnt slot
      have ranRead : run (dirReaddir dir) (world.seekDir dir pointer openCnt slot) =
          some ((entries[slot + (entries.drop slot).findIdx (·.inUse)]?).map (·.fname),
            world.seekDir dir pointer openCnt (min entries.length (slot + (entries.drop slot).findIdx (·.inUse) + 1))) := by
        rw [dirReaddir, run_bind, openedHere.run_dirGetInode, Option.bind_some, run_bind,
          openedHere.holds.run_entryRounds openedHere.opened, Option.bind_some]
        exact volume.readdirLoop dirOpened openCnt (entries.length + 1) slot inside (by omega)
      have names := filter_findIdx (·.inUse) (entries.drop slot)
      rw [List.getElem?_drop] at names
      rw [MockOS.Fs.readNames, run_bind, ranRead, Option.bind_some]
      cases found : entries[slot + (entries.drop slot).findIdx (·.inUse)]? with
      | none =>
          rw [found] at names
          have beyond := List.getElem?_eq_none_iff.mp found
          rw [names, Nat.min_eq_left (by omega)]
          rfl
      | some entry =>
          rw [found] at names
          obtain ⟨small, _⟩ := List.getElem?_eq_some_iff.mp found
          rw [names, List.drop_drop, Nat.min_eq_right (by omega)]
          simp only [Option.map_some, run_bind, List.map_cons]
          rw [ih _ (by omega) (by omega), show slot + ((entries.drop slot).findIdx (·.inUse) + 1) =
            slot + (entries.drop slot).findIdx (·.inUse) + 1 from by omega]
          rfl

end Readdir

end MockOS.Fs
