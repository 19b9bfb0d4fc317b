import MockOS.Fs.DirectorySlots
import MockOS.Fs.FirstFit

namespace MockOS.Fs

variable {shared : BlockSector → Prop} {own after : Owners} {world next : World} {nodes nodesAfter : Nodes}
  {sector : BlockSector} {pointer dir : Pointer} {data dataAfter : InodeDisk} {entries : List DirEntry}

/-- The data of an inode are the entries of a directory. -/
structure HoldsEntries (store : BlockSector → Sector) (data : InodeDisk) (entries : List DirEntry) : Prop where
  length : data.length = (36 * entries.length : Nat)
  entries_eq : entriesOf (fileBytes store data) = entries
  tail : TailZero store data

theorem HoldsEntries.length_bytes {store : BlockSector → Sector} (holds : HoldsEntries store data entries) :
    (fileBytes store data).length = 36 * entries.length := by
  rw [fileBytes, length_bytesAt, holds.length, Int.toNat_natCast]

theorem HoldsEntries.sized {store : BlockSector → Sector} (holds : HoldsEntries store data entries) {entry : DirEntry}
    (member : entry ∈ entries) : entry.Sized := by
  rw [← holds.entries_eq] at member
  exact sized_of_mem_entriesOf member

/-- Other inodes keep their entries. -/
theorem InodeStep.holdsEntries {inode : BlockSector} (step : InodeStep shared inode own after nodes nodesAfter world next)
    (volume : Volume own shared nodes world) (different : sector ≠ inode) (nonzero : sector ≠ 0)
    (present : nodes sector = some data) (holds : HoldsEntries world.disk data entries) :
    HoldsEntries next.disk data entries := by
  refine ⟨holds.length, ?_, step.tailZero volume different nonzero present holds.tail⟩
  rw [step.fileBytes volume different nonzero present]
  exact holds.entries_eq

theorem HoldsEntries.run_entryRounds (holds : HoldsEntries world.disk data entries)
    (opened : Opened world sector pointer data) :
    run (entryRounds pointer) world = some (entries.length + 1, world) := by
  rw [entryRounds, run_bind, inodeLength, run_bind, run_getInode opened.object, Option.bind_some, run_pure,
    Option.bind_some, run_pure]
  change some ((data.length.toNat / 36 + 1, world) : Nat × World) = _
  rw [holds.length, Int.toNat_natCast, Nat.mul_div_cancel_left _ (by decide)]

section Read

variable (volume : Volume own shared nodes world) (opened : Opened world sector pointer data)
  (holds : HoldsEntries world.disk data entries)

include volume opened holds

theorem Volume.entries_small : 36 * entries.length ≤ 512 * maxBlocks := by
  have node := volume.node sector data (volume.table.node opened)
  have high := node.high
  rw [holds.length] at high
  omega

/-- A read at a slot gives its entry, and none at the end. -/
theorem Volume.readEntry {slot : Nat} (inside : slot ≤ entries.length) :
    run (readEntry pointer (36 * slot : Nat)) world = some (entries[slot]?, world) := by
  have small := volume.entries_small opened holds
  have maximum : maxBlocks = 16635 := rfl
  have bytes := holds.length_bytes
  rw [MockOS.Fs.readEntry, run_bind, volume.inodeReadAt opened 36 (by omega), Option.bind_some, run_pure]
  congr 2
  change (if (((fileBytes world.disk data).drop (36 * slot)).take 36).length = 36 then _ else none) = _
  rw [List.length_take, List.length_drop, bytes]
  by_cases last : slot = entries.length
  · rw [if_neg (by omega), List.getElem?_eq_none (by omega)]
  · have found : slot < (entriesOf (fileBytes world.disk data)).length := by
      rw [holds.entries_eq]
      omega
    rw [if_pos (by omega), ← holds.entries_eq, List.getElem?_eq_getElem found, getElem_entriesOf]
    rfl

/-- The scan stops at the first wanted entry or at the end. -/
theorem Volume.scanEntries (wanted : DirEntry → Bool) (rounds start : Nat) (inside : start ≤ entries.length)
    (enough : entries.length < start + rounds) :
    run (scanEntries pointer wanted rounds (36 * start : Nat)) world =
      some ((entries[start + (entries.drop start).findIdx wanted]?,
        ((36 * (start + (entries.drop start).findIdx wanted) : Nat) : Int)), world) := by
  induction rounds generalizing start with
  | zero => omega
  | succ rounds ih =>
      rw [MockOS.Fs.scanEntries, run_bind, volume.readEntry opened holds inside, Option.bind_some]
      by_cases last : start = entries.length
      · subst last
        rw [List.getElem?_eq_none (Nat.le_refl _), List.drop_length, List.findIdx_nil, Nat.add_zero,
          List.getElem?_eq_none (Nat.le_refl _)]
        rfl
      · have there : start < entries.length := by omega
        rw [List.getElem?_eq_getElem there, List.drop_eq_getElem_cons there, List.findIdx_cons]
        dsimp only
        cases isWanted : wanted entries[start] with
        | true =>
            rw [if_pos rfl, run_pure]
            simp only [cond_true, Nat.add_zero, List.getElem?_eq_getElem there]
        | false =>
            have following : ((36 * start : Nat) : Int) + 36 = ((36 * (start + 1) : Nat) : Int) := by
              push_cast
              omega
            rw [if_neg (by simp), following, ih (start + 1) (by omega) (by omega)]
            simp only [cond_false]
            rw [show start + 1 + (entries.drop (start + 1)).findIdx wanted =
              start + ((entries.drop (start + 1)).findIdx wanted + 1) from by omega]

end Read

/-- The slot of a name, or the number of slots. -/
def nameSlot (entries : List DirEntry) (name : CString) : Nat :=
  1 + (entries.drop 1).findIdx fun entry => entry.inUse && entry.fname == name

/-- The first slot that is not in use, or the number of slots. -/
def freeSlot (entries : List DirEntry) : Nat := entries.findIdx fun entry => !entry.inUse

theorem freeSlot_le (entries : List DirEntry) : freeSlot entries ≤ entries.length := List.findIdx_le_length

/-- An open directory. -/
structure DirOpened (world : World) (dir : Pointer) (sector : BlockSector) (pointer : Pointer) (data : InodeDisk)
    (entries : List DirEntry) : Prop where
  object : ∃ pos openCnt, world.mem.dirs dir = some ⟨pointer, pos, openCnt⟩
  opened : Opened world sector pointer data
  holds : HoldsEntries world.disk data entries
  some_entry : 1 ≤ entries.length

theorem DirOpened.run_dirGetInode (dirOpened : DirOpened world dir sector pointer data entries) :
    run (dirGetInode dir) world = some (pointer, world) := by
  obtain ⟨pos, openCnt, object⟩ := dirOpened.object
  rw [dirGetInode, run_bind, run_getDir object]
  rfl

/-- `lookup` finds the slot of the name. -/
theorem Volume.lookup (volume : Volume own shared nodes world)
    (dirOpened : DirOpened world dir sector pointer data entries) (name : CString) :
    run (lookup dir name) world = some ((entries[nameSlot entries name]?).map fun entry =>
      (entry, ((36 * nameSlot entries name : Nat) : Int)), world) := by
  have scan := volume.scanEntries dirOpened.opened dirOpened.holds
    (fun entry => entry.inUse && entry.fname == name) (entries.length + 1) 1 dirOpened.some_entry (by omega)
  rw [MockOS.Fs.lookup, run_bind, dirOpened.run_dirGetInode, Option.bind_some, run_bind,
    dirOpened.holds.run_entryRounds dirOpened.opened, Option.bind_some, run_bind]
  change (run (MockOS.Fs.scanEntries pointer _ (entries.length + 1) ((36 * 1 : Nat) : Int)) world).bind _ = _
  rw [scan]
  rfl

/-- The bytes of an entry are stored in its slot, or at the end of the directory when there is room. -/
theorem Volume.writeEntry (volume : Volume own shared nodes world) (opened : Opened world sector pointer data)
    (nonzero : sector ≠ 0) (holds : HoldsEntries world.disk data entries) {entry : DirEntry} (sized : entry.Sized)
    {slot : Nat} (inside : slot ≤ entries.length) :
    ∃ dataAfter next after,
      InodeStep shared sector own after nodes (Function.update nodes sector (some dataAfter)) world next ∧
      next.mem = { world.mem with
        freeMap := next.mem.freeMap, allocationFailures := next.mem.allocationFailures
        inodes := Function.update world.mem.inodes pointer (some (.live sector dataAfter)) } ∧
      dataAfter.isDir = data.isDir ∧
      (run (writeEntry pointer entry (36 * slot : Nat)) world = some (true, next) ∧
          HoldsEntries next.disk dataAfter (setSlot entries slot entry) ∧
          next.mem.allocationFailures = world.mem.allocationFailures ∧
          Stores own after sector data dataAfter (fun index => entry.toBytes.getD index 0) 36 (36 * slot) world next ∨
        run (writeEntry pointer entry (36 * slot : Nat)) world = some (false, next) ∧ slot = entries.length ∧
          HoldsEntries next.disk dataAfter entries ∧
          Keeps data dataAfter 36 (36 * slot) world next) := by
  have small := volume.entries_small opened holds
  have maximum : maxBlocks = 16635 := rfl
  obtain ⟨dataAfter, next, after, step, mem, isDir, outcome⟩ := volume.inodeWriteAt opened nonzero
    (fun index => entry.toBytes.getD index 0) (by decide : 0 < 36) (by decide : 36 < 2147483648)
    (by omega : 36 * slot < 2147483648)
  refine ⟨dataAfter, next, after, step, mem, isDir, ?_⟩
  have bytes := holds.length_bytes
  have length := holds.length
  rcases outcome with ⟨ran, stores⟩ | ⟨ran, keeps⟩
  · obtain ⟨tail, same⟩ := stores.bytes holds.tail
    refine .inl ⟨?_, ⟨?_, ?_, tail⟩, stores.failures, stores⟩
    · rw [MockOS.Fs.writeEntry, run_bind]
      change (run (MockOS.Fs.inodeWriteAt pointer _ ((36 : Nat) : Int) _) world).bind _ = _
      rw [ran]
      rfl
    · rw [stores.length, length_setSlot inside, length]
      push_cast
      omega
    · rw [same, entriesOf_overwrite bytes inside sized, holds.entries_eq]
  · obtain ⟨tail, same⟩ := keeps.bytes holds.tail
    have beyond := keeps.beyond
    refine .inr ⟨?_, by omega, ⟨keeps.length.trans length, by rw [same, holds.entries_eq], tail⟩, keeps⟩
    rw [MockOS.Fs.writeEntry, run_bind]
    change (run (MockOS.Fs.inodeWriteAt pointer _ ((36 : Nat) : Int) _) world).bind _ = _
    rw [ran]
    rfl

/-- The memory after `dir_open`. -/
def Mem.openDir (mem : Mem) (pointer : Pointer) : Mem :=
  { mem with
    nextPointer := mem.nextPointer + 1
    dirs := Function.update mem.dirs mem.nextPointer (some ⟨pointer, 36, 1⟩) }

theorem run_dirOpen : run (dirOpen (some pointer)) world =
    some (some world.mem.nextPointer, ⟨world.mem.openDir pointer, world.disk⟩) := rfl

theorem Volume.openDir (volume : Volume own shared nodes world) (pointer : Pointer) :
    Volume own shared nodes ⟨world.mem.openDir pointer, world.disk⟩ := by
  refine volume.heap rfl rfl (fun _ _ => rfl) (Nat.le_succ _) fun other above => ?_
  have above : world.mem.nextPointer + 1 ≤ other := above
  obtain ⟨_, noFile, noDir⟩ := volume.table.fresh other (Nat.le_of_succ_le above)
  refine ⟨noFile, ?_⟩
  change Function.update world.mem.dirs world.mem.nextPointer _ other = none
  rw [Function.update_of_ne (Nat.ne_of_gt above), noDir]

/-- The memory after the last `dir_close` of a directory. -/
def Mem.closeDir (mem : Mem) (dir pointer : Pointer) : Mem :=
  { mem.closeInode pointer with dirs := Function.update mem.dirs dir none, cwd := none }

/-- The last `dir_close` closes the inode and resets the current directory. -/
theorem run_dirClose {pos : Int} (object : world.mem.dirs dir = some ⟨pointer, pos, 1⟩)
    (opened : Opened world sector pointer data) :
    run (dirClose (some dir)) world = some ((), ⟨world.mem.closeDir dir pointer, world.disk⟩) := by
  rw [dirClose, run_bind, run_getDir object, Option.bind_some, run_bind, run_setDir, Option.bind_some,
    if_pos (by rfl), run_bind, run_inodeClose (by exact opened.object), Option.bind_some]
  simp only [freeDir, setCwd, run_bind, run_modify, Option.bind_some, Mem.closeDir, Mem.closeInode, Function.update_idem]

theorem Volume.closeDir (volume : Volume own shared nodes world) (opened : Opened world sector pointer data)
    (nonzero : sector ≠ 0) (dir : Pointer) :
    Volume own shared (Function.update nodes sector (some (.ofSector (world.disk sector))))
      ⟨world.mem.closeDir dir pointer, world.disk⟩ := by
  have closed := (volume.inodeClose opened nonzero).2
  refine closed.heap rfl rfl (fun _ _ => rfl) (Nat.le_refl _) fun other above => ?_
  obtain ⟨_, noFile, noDir⟩ := closed.table.fresh other above
  refine ⟨noFile, ?_⟩
  change Function.update world.mem.dirs dir none other = none
  rw [Function.update_apply]
  split
  · rfl
  · exact noDir

/-- The copy on the disk has the same entries. -/
theorem Node.holdsEntries_reload {store : BlockSector → Sector} (node : Node own store sector data) (nonzero : sector ≠ 0)
    (holds : HoldsEntries store data entries) : HoldsEntries store (.ofSector (store sector)) entries := by
  refine ⟨?_, ?_, node.tailZero_reload nonzero holds.tail⟩
  · rw [(node.stored nonzero).length, holds.length]
  · rw [node.fileBytes_reload nonzero, holds.entries_eq]

/-- A step in memory is a step on any inode whose data it leaves or reloads. -/
theorem InodeStep.memory (volume : Volume own shared nodesAfter next) (sameDisk : next.disk = world.disk)
    (failures : next.mem.allocationFailures = world.mem.allocationFailures)
    (others : ∀ number, number ≠ sector → nodesAfter number = nodes number) :
    InodeStep shared sector own own nodes nodesAfter world next :=
  ⟨volume, sameDisk ▸ Touches.refl _ _ _ _, fun _ _ _ owned _ => owned, others, Nat.le_of_eq failures.symm,
    fun _ => by rw [sameDisk]⟩

/-- The entry of a cleared slot. -/
def emptyEntry : DirEntry := ⟨0, List.replicate 31 0, false⟩

/-- The entries of a new directory: the first one is for the parent. -/
def newEntries (sector : BlockSector) (entryCnt : Nat) : List DirEntry :=
  ⟨sector, List.replicate 31 0, true⟩ :: List.replicate (entryCnt - 1) emptyEntry

theorem entriesOf_replicate (entryCnt : Nat) :
    entriesOf (List.replicate (36 * entryCnt) 0) = List.replicate entryCnt emptyEntry := by
  apply List.ext_getElem
  · simp
  · intro slot inside _
    have small : slot < entryCnt := by
      rw [length_entriesOf, List.length_replicate] at inside
      omega
    rw [getElem_entriesOf, List.getElem_replicate, List.drop_replicate, List.take_replicate,
      show min 36 (36 * entryCnt - 36 * slot) = 36 from by omega]
    rfl

/-- `dir_create` makes a directory with its first entry, when the free sectors suffice. -/
theorem Volume.dirCreate (volume : Volume own shared nodes world) (self : own sector = some (sector, none))
    (absent : nodes sector = none) (nonzero : sector ≠ 0) (entryCnt : Nat) (positive : 1 ≤ entryCnt)
    (fits : 36 * entryCnt ≤ 512 * maxBlocks)
    (room : (inodePlaces (blocksOf (36 * entryCnt : Nat))).length ≤ world.free) :
    ∃ data next after, run (dirCreate sector entryCnt) world = some (true, next) ∧
      next.mem = { world.mem with
        freeMap := next.mem.freeMap, nextPointer := world.mem.nextPointer + 1 + 1, cwd := none } ∧
      InodeStep shared sector own after nodes (Function.update nodes sector (some data)) world next ∧
      HoldsEntries next.disk data (newEntries sector entryCnt) ∧ data.isDir = true ∧ next.limit = world.limit ∧
      next.free = world.free - (inodePlaces (blocksOf (36 * entryCnt : Nat))).length ∧ FirstFit world next := by
  have maximum : maxBlocks = 16635 := rfl
  rcases volume.inodeCreate true self absent nonzero (by omega : ((36 * entryCnt : Nat) : Int) < 2147483648) with
    ⟨_, _, _, _, _, _, refuses⟩ | ⟨data₁, world₁, after, ran₁, mem₁, step₁, creates⟩
  · rcases refuses.cause with negative | large | full
    · omega
    · omega
    · omega
  · rw [creates.failures] at mem₁
    have present₁ : Function.update nodes sector (some data₁) sector = some data₁ := Function.update_self _ _ _
    have holds₁ : HoldsEntries world₁.disk data₁ (List.replicate entryCnt emptyEntry) := by
      refine ⟨by rw [creates.length_eq, List.length_replicate], ?_, creates.tail⟩
      rw [creates.bytes, Int.toNat_natCast, entriesOf_replicate]
    have closed₁ : world₁.closed sector := by
      intro pointer member data object
      have old : Opened world sector pointer data := by
        rw [mem₁] at member object
        exact ⟨member, object⟩
      have there := volume.table.node old
      rw [absent] at there
      cases there
    obtain ⟨ran₂, opened₂, volume₂⟩ := step₁.volume.inodeOpen_closed present₁ closed₁
    have volume₃ : Volume after shared (Function.update nodes sector (some data₁))
        ⟨(world₁.mem.openInode sector data₁).openDir world₁.mem.nextPointer, world₁.disk⟩ := volume₂.openDir _
    have opened₃ : Opened ⟨(world₁.mem.openInode sector data₁).openDir world₁.mem.nextPointer, world₁.disk⟩ sector
        world₁.mem.nextPointer data₁ := ⟨opened₂.member, opened₂.object⟩
    have sized : DirEntry.Sized ⟨sector, List.replicate 31 0, true⟩ := List.length_replicate
    obtain ⟨data₄, world₄, own₄, step₄, mem₄, isDir₄, outcome⟩ := volume₃.writeEntry opened₃ nonzero holds₁ sized
      (Nat.zero_le (List.replicate entryCnt emptyEntry).length)
    rcases outcome with ⟨ran₄, holds₄, failures₄, stores⟩ | ⟨_, impossible, _⟩
    · rw [failures₄] at mem₄
      have opened₄ : Opened world₄ sector world₁.mem.nextPointer data₄ := by
        refine ⟨?_, ?_⟩
        · rw [mem₄]
          exact opened₃.member
        · rw [mem₄]
          exact Function.update_self _ _ _
      have object₄ : world₄.mem.dirs (world₁.mem.nextPointer + 1) = some ⟨world₁.mem.nextPointer, 36, 1⟩ := by
        rw [mem₄]
        exact Function.update_self _ _ _
      have node₄ := step₄.volume.node sector data₄ (Function.update_self _ _ _)
      have volume₅ := step₄.volume.closeDir opened₄ nonzero (world₁.mem.nextPointer + 1)
      rw [Function.update_idem] at volume₅
      refine ⟨.ofSector (world₄.disk sector), ⟨world₄.mem.closeDir (world₁.mem.nextPointer + 1) world₁.mem.nextPointer,
        world₄.disk⟩, own₄, ?_, ?_, ?_, ?_, ?_, ?_, ?_, ?_⟩
      · have created : run (MockOS.Fs.inodeCreate sector ((entryCnt : Int) * 36) true) world = some (true, world₁) := by
          rw [show (entryCnt : Int) * 36 = ((36 * entryCnt : Nat) : Int) from by push_cast; omega, ran₁]
        rw [MockOS.Fs.dirCreate, run_bind, created, Option.bind_some]
        dsimp only
        rw [if_pos rfl, run_bind, ran₂, Option.bind_some, run_bind, run_dirOpen, Option.bind_some, run_bind,
          run_deref_some, Option.bind_some, run_bind, dirGetInode, run_bind, run_getDir (Function.update_self _ _ _),
          Option.bind_some, run_pure, Option.bind_some, run_bind]
        change (run (MockOS.Fs.writeEntry world₁.mem.nextPointer _ ((36 * 0 : Nat) : Int)) _).bind _ = _
        rw [ran₄, Option.bind_some, run_bind]
        change (run (dirClose (some (world₁.mem.nextPointer + 1))) world₄).bind _ = _
        rw [run_dirClose object₄ opened₄]
        rfl
      · have noInode : world.mem.inodes world.mem.nextPointer = none := volume.table.fresh_inode
        have noDir : world.mem.dirs (world.mem.nextPointer + 1) = none := (volume.table.fresh _ (Nat.le_succ _)).2.2
        have inodes : Function.update world.mem.inodes world.mem.nextPointer none = world.mem.inodes := by
          rw [← noInode]
          exact Function.update_eq_self _ _
        have dirs : Function.update world.mem.dirs (world.mem.nextPointer + 1) none = world.mem.dirs := by
          rw [← noDir]
          exact Function.update_eq_self _ _
        simp only [Mem.closeDir, Mem.closeInode]
        rw [mem₄]
        simp only [Mem.openDir, Mem.openInode]
        rw [mem₁]
        simp only [Function.update_idem, List.erase_cons_head, inodes, dirs]
      · have opens : InodeStep shared sector after after (Function.update nodes sector (some data₁))
            (Function.update nodes sector (some data₁)) world₁
            ⟨(world₁.mem.openInode sector data₁).openDir world₁.mem.nextPointer, world₁.disk⟩ :=
          InodeStep.memory volume₃ rfl rfl fun _ _ => rfl
        rw [Function.update_idem] at step₄
        have closes : InodeStep shared sector own₄ own₄ (Function.update nodes sector (some data₄))
            (Function.update nodes sector (some (.ofSector (world₄.disk sector)))) world₄
            ⟨world₄.mem.closeDir (world₁.mem.nextPointer + 1) world₁.mem.nextPointer, world₄.disk⟩ := by
          rw [Function.update_idem] at volume₅
          refine InodeStep.memory volume₅ rfl rfl fun number different => ?_
          rw [Function.update_of_ne different, Function.update_of_ne different]
        exact ((step₁.trans opens).trans step₄).trans closes
      · have same : setSlot (List.replicate entryCnt emptyEntry) 0
            ⟨sector, List.replicate 31 0, true⟩ = newEntries sector entryCnt := by
          simp [setSlot, newEntries]
        rw [← same]
        exact node₄.holdsEntries_reload nonzero holds₄
      · rw [(node₄.stored nonzero).isDir, isDir₄, creates.isDir_eq]
      · change world₄.limit = world.limit
        rw [stores.limit]
        exact creates.limit
      · have none : demandFor world₁.disk data₁ (36 * 0 + 36) = 0 :=
          demandFor_of_complete (step₁.volume.node sector data₁ present₁).complete (by rw [creates.length_eq]; omega) (by
            rw [creates.length_eq]
            omega)
        change world₄.free = _
        rw [stores.free, none]
        exact creates.free
      · have created := firstFit_steps.create _ _ _ _ _ _ ran₁
        have opens : FirstFit world₁ ⟨(world₁.mem.openInode sector data₁).openDir world₁.mem.nextPointer, world₁.disk⟩ :=
          .of_freeMap rfl rfl
        have writes := firstFit_steps.writeEntry _ _ _ _ _ _ ran₄
        have closes : FirstFit world₄
            ⟨world₄.mem.closeDir (world₁.mem.nextPointer + 1) world₁.mem.nextPointer, world₄.disk⟩ := .of_freeMap rfl rfl
        exact trans_of FirstFit (trans_of FirstFit (trans_of FirstFit created opens) writes) closes
    · rw [List.length_replicate] at impossible
      omega

end MockOS.Fs
