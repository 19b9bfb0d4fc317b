import Mathlib.Order.Defs.Unbundled
import MockOS.Fs.Fsutil

namespace MockOS.Fs

variable {A B : Type} {related : World → World → Prop} {world middle next : World} {pointer : Pointer}

/-- Every run of the action that has a result leads to a related world. -/
def Respects (related : World → World → Prop) (action : Action A) : Prop :=
  ∀ world value next, run action world = some (value, next) → related world next

theorem run_bind_some {action : Action A} {rest : A → Action B} {value : B} :
    run (action >>= rest) world = some (value, next) ↔
      ∃ first middle, run action world = some (first, middle) ∧ run (rest first) middle = some (value, next) := by
  rw [run_bind, Option.bind_eq_some_iff]
  exact ⟨fun ⟨⟨first, middle⟩, ran, rest⟩ => ⟨first, middle, ran, rest⟩, fun ⟨first, middle, ran, rest⟩ =>
    ⟨(first, middle), ran, rest⟩⟩

theorem run_deref_eq {object : Option A} {value : A} (ran : run (deref object) world = some (value, next)) :
    object = some value ∧ next = world := by
  cases object with
  | none => cases ran
  | some found =>
      rw [run_deref_some, Option.some.injEq, Prod.mk.injEq] at ran
      exact ⟨congrArg some ran.1, ran.2.symm⟩

theorem run_getInode_eq {inode : Inode} (ran : run (getInode pointer) world = some (inode, next)) :
    world.mem.inodes pointer = some inode ∧ next = world := run_deref_eq ran

theorem respects_undefined : Respects related (undefined : Action A) := fun _ _ _ ran => nomatch ran

/-- What is read from the memory is not changed. -/
theorem respects_get {rest : Mem → Action A} (respects : ∀ mem, Respects related (rest mem)) :
    Respects related (do rest (← get)) := fun world value next ran => respects world.mem world value next ran

section Preorder

variable [IsPreorder World related]

theorem respects_pure (value : A) : Respects related (pure value : Action A) := by
  intro world result next ran
  obtain ⟨-, rfl⟩ := Prod.mk.inj (Option.some.inj ran)
  exact refl_of related world

theorem respects_bind {action : Action A} {rest : A → Action B} (first : Respects related action)
    (second : ∀ value, Respects related (rest value)) : Respects related (action >>= rest) := by
  intro world value next ran
  obtain ⟨result, middle, ranFirst, ranRest⟩ := run_bind_some.mp ran
  exact trans_of related (first world result middle ranFirst) (second result middle value next ranRest)

theorem respects_deref (object : Option A) : Respects related (deref object) := by
  cases object with
  | none => exact respects_undefined
  | some value => exact respects_pure value

theorem respects_getInode (pointer : Pointer) : Respects related (getInode pointer) :=
  respects_get fun mem => respects_deref (mem.inodes pointer)

theorem respects_getFile (pointer : Pointer) : Respects related (getFile pointer) :=
  respects_get fun mem => respects_deref (mem.files pointer)

theorem respects_getDir (pointer : Pointer) : Respects related (getDir pointer) :=
  respects_get fun mem => respects_deref (mem.dirs pointer)

theorem respects_read (sector : BlockSector) : Respects related (bufferCacheRead sector) := by
  intro world block next ran
  obtain ⟨-, rfl⟩ := Prod.mk.inj (Option.some.inj ran)
  exact refl_of related world

theorem respects_indexToSector (disk : InodeDisk) (index : Nat) : Respects related (indexToSector disk index) := by
  unfold indexToSector
  split_ifs
  · exact respects_pure _
  · exact respects_bind (respects_read _) fun _ => respects_pure _
  · exact respects_bind (respects_read _) fun _ => respects_bind (respects_read _) fun _ => respects_pure _
  · exact respects_pure _

theorem respects_byteToSector (disk : InodeDisk) (pos : Int) : Respects related (byteToSector disk pos) := by
  unfold byteToSector
  split_ifs
  · exact respects_indexToSector _ _
  · exact respects_pure _

/-- The reads change nothing. -/
theorem respects_readLoop (disk : InodeDisk) (rounds : Nat) (size offset : Int) :
    Respects related (readLoop disk rounds size offset) := by
  induction rounds generalizing size offset with
  | zero => exact respects_pure _
  | succ rounds ih =>
      unfold readLoop
      split_ifs
      · exact respects_pure _
      · refine respects_bind (respects_byteToSector _ _) fun sectorIdx => ?_
        dsimp only
        split_ifs
        · exact respects_pure _
        · refine respects_bind (respects_read _) fun sector => ?_
          exact respects_undefined
        · exact respects_bind (respects_read _) fun sector => respects_bind (ih _ _) fun rest => respects_pure _

theorem respects_inodeReadAt (inode : Pointer) (size offset : Int) : Respects related (inodeReadAt inode size offset) :=
  respects_bind (respects_getInode _) fun _ => respects_readLoop _ _ _ _

theorem respects_readEntry (inode : Pointer) (ofs : Int) : Respects related (readEntry inode ofs) :=
  respects_bind (respects_inodeReadAt _ _ _) fun _ => respects_pure _

theorem respects_inodeLength (inode : Pointer) : Respects related (inodeLength inode) :=
  respects_bind (respects_getInode _) fun _ => respects_pure _

theorem respects_entryRounds (inode : Pointer) : Respects related (entryRounds inode) :=
  respects_bind (respects_inodeLength _) fun _ => respects_pure _

theorem respects_scanEntries (inode : Pointer) (wanted : DirEntry → Bool) (rounds : Nat) (ofs : Int) :
    Respects related (scanEntries inode wanted rounds ofs) := by
  induction rounds generalizing ofs with
  | zero => exact respects_undefined
  | succ rounds ih =>
      refine respects_bind (respects_readEntry _ _) fun found => ?_
      cases found with
      | none => exact respects_pure _
      | some entry =>
          dsimp only
          split_ifs
          · exact respects_pure _
          · exact ih _

theorem respects_dirGetInode (dir : Pointer) : Respects related (dirGetInode dir) :=
  respects_bind (respects_getDir _) fun _ => respects_pure _

theorem respects_lookup (dir : Pointer) (name : CString) : Respects related (lookup dir name) :=
  respects_bind (respects_dirGetInode _) fun _ => respects_bind (respects_entryRounds _) fun _ =>
    respects_bind (respects_scanEntries _ _ _ _) fun _ => respects_pure _

theorem respects_fileLength (file : Pointer) : Respects related (fileLength file) :=
  respects_bind (respects_getFile _) fun _ => respects_inodeLength _

theorem respects_bitmapWrite {writeAt : WriteAt}
    (writes : ∀ pointer buffer size offset, Respects related (writeAt pointer buffer size offset)) :
    Respects related (bitmapWrite writeAt) :=
  respects_get fun _ => respects_bind (respects_deref _) fun _ => respects_bind (respects_getFile _) fun _ =>
    respects_bind (writes _ _ _ _) fun _ => respects_pure _

end Preorder

/-- The relation holds across the steps that `inode_write_at` consists of. -/
structure WriteSteps (related : World → World → Prop) : Prop where
  write : ∀ sector block, Respects related (bufferCacheWrite sector block)
  setInode : ∀ {before world next : World} {pointer : Pointer} {inode : Inode} {data : InodeDisk},
    before.mem.inodes pointer = some inode → related before world →
      run (setInode pointer { inode with data := data }) world = some ((), next) → related before next
  allocate : ∀ {writeAt : WriteAt}, (∀ pointer buffer size offset, Respects related (writeAt pointer buffer size offset)) →
    Respects related (freeMapAllocateBy writeAt 1)

namespace WriteSteps

variable [IsPreorder World related] (steps : WriteSteps related)

include steps

theorem writeLoop (disk : InodeDisk) (buffer : Nat → UInt8) (rounds : Nat) (size offset written : Int) :
    Respects related (MockOS.Fs.writeLoop disk buffer rounds size offset written) := by
  induction rounds generalizing size offset written with
  | zero => exact respects_pure _
  | succ rounds ih =>
      unfold MockOS.Fs.writeLoop
      split_ifs
      · exact respects_pure _
      · refine respects_bind (respects_byteToSector _ _) fun sectorIdx => ?_
        dsimp only
        split_ifs
        · exact respects_pure _
        · refine respects_bind ?_ fun _ => ih _ _ _
          unfold writeChunk
          split_ifs
          · exact steps.write _ _
          · exact respects_bind (respects_read _) fun _ => respects_undefined
          · exact respects_bind (respects_read _) fun _ => steps.write _ _
          · exact respects_bind (respects_pure _) fun _ => respects_undefined
          · exact respects_bind (respects_pure _) fun _ => steps.write _ _

section Reserve

variable {allocate : Action (Option BlockSector)} (allocates : Respects related allocate)

include allocates

theorem reserveBlock (entry : BlockSector) : Respects related (MockOS.Fs.reserveBlock allocate entry) := by
  unfold MockOS.Fs.reserveBlock
  split_ifs
  · refine respects_bind allocates fun sector => ?_
    cases sector with
    | none => exact respects_pure _
    | some sector => exact respects_bind (steps.write _ _) fun _ => respects_pure _
  · exact respects_pure _

theorem reserveIndexBlock (entry : BlockSector) : Respects related (MockOS.Fs.reserveIndexBlock allocate entry) := by
  unfold MockOS.Fs.reserveIndexBlock
  split_ifs
  · exact respects_bind allocates fun _ => respects_bind (steps.write _ _) fun _ => respects_pure _
  · exact respects_pure _

omit steps allocates in
theorem reserveEntries {count : Nat} {reserve : BlockSector → Nat → Action (Bool × BlockSector)}
    (reserves : ∀ entry size, Respects related (reserve entry size)) (unit : Nat) (indices : List (Fin count))
    (entries : Fin count → BlockSector) (numSectors : Nat) :
    Respects related (MockOS.Fs.reserveEntries reserve unit indices entries numSectors) := by
  induction indices generalizing entries numSectors with
  | nil => exact respects_pure _
  | cons index rest ih =>
      refine respects_bind (reserves _ _) fun result => ?_
      dsimp only
      split_ifs
      · exact ih _ _
      · exact respects_pure _

theorem reserveIndirect (level : Nat) (entry : BlockSector) (numSectors : Nat) :
    Respects related (inodeReserveIndirect allocate level entry numSectors) := by
  induction level generalizing entry numSectors with
  | zero => exact steps.reserveBlock allocates entry
  | succ level ih =>
      refine respects_bind (steps.reserveIndexBlock allocates entry) fun entry => ?_
      refine respects_bind (respects_read _) fun block =>
        respects_bind (reserveEntries (fun entry size => ih entry size) _ _ _ _) fun result => ?_
      dsimp only
      split_ifs
      · exact respects_bind (steps.write _ _) fun _ => respects_pure _
      · exact respects_pure _

theorem reserve (disk : InodeDisk) (length : Int) : Respects related (inodeReserve allocate disk length) := by
  unfold inodeReserve
  split
  · exact respects_pure _
  · refine respects_bind (reserveEntries (fun entry _ => steps.reserveBlock allocates entry) _ _ _ _) fun direct => ?_
    dsimp only
    split
    · exact respects_pure _
    · split
      · exact respects_pure _
      · refine respects_bind (steps.reserveIndirect allocates _ _ _) fun indirect => ?_
        split
        · exact respects_pure _
        · split
          · exact respects_pure _
          · refine respects_bind (steps.reserveIndirect allocates _ _ _) fun doubly => ?_
            split
            · exact respects_pure _
            · split <;> exact respects_pure _

end Reserve

theorem writeAtWithin (depth : Nat) (pointer : Pointer) (buffer : Nat → UInt8) (size offset : Int) :
    Respects related (inodeWriteAtWithin depth pointer buffer size offset) := by
  induction depth generalizing pointer buffer size offset with
  | zero => exact respects_undefined
  | succ depth ih =>
      intro world value next ran
      obtain ⟨inode, _, ranInode, rest⟩ := run_bind_some.mp ran
      obtain ⟨object, rfl⟩ := run_getInode_eq ranInode
      split at rest
      · exact respects_pure _ _ _ _ rest
      · obtain ⟨last, looked, ranLast, rest⟩ := run_bind_some.mp rest
        have lookedSame : related _ looked := respects_byteToSector _ _ _ _ _ ranLast
        split at rest
        · obtain ⟨⟨success, data⟩, reserved, ranReserve, rest⟩ := run_bind_some.mp rest
          have same := trans_of related lookedSame (steps.reserve (steps.allocate ih) _ _ _ _ _ ranReserve)
          dsimp only at rest
          split at rest
          · obtain ⟨_, stored, ranStore, rest⟩ := run_bind_some.mp rest
            exact trans_of related (steps.setInode object same ranStore) (respects_bind (steps.write _ _)
              (fun _ => steps.writeLoop _ _ _ _ _ _) _ _ _ rest)
          · obtain ⟨_, stored, ranStore, rest⟩ := run_bind_some.mp rest
            exact trans_of related (steps.setInode object same ranStore) (respects_pure _ _ _ _ rest)
        · exact trans_of related lookedSame (steps.writeLoop _ _ _ _ _ _ _ _ _ rest)

theorem writeAt (pointer : Pointer) (buffer : Nat → UInt8) (size offset : Int) :
    Respects related (inodeWriteAt pointer buffer size offset) := steps.writeAtWithin 2 _ _ _ _

theorem freeMapAllocate : Respects related (MockOS.Fs.freeMapAllocate 1) := steps.allocate steps.writeAt

theorem create (sector : BlockSector) (length : Int) (isDir : Bool) :
    Respects related (inodeCreate sector length isDir) := by
  refine respects_bind (steps.reserve steps.freeMapAllocate _ _) fun result => ?_
  dsimp only
  split_ifs
  · exact respects_bind (steps.write _ _) fun _ => respects_pure _
  · exact respects_pure _

theorem writeEntry (inode : Pointer) (entry : DirEntry) (ofs : Int) :
    Respects related (MockOS.Fs.writeEntry inode entry ofs) :=
  respects_bind (steps.writeAt _ _ _ _) fun _ => respects_pure _

/-- An entry for a file is added without opening its inode. -/
theorem dirAdd (dir : Pointer) (name : CString) (sector : BlockSector) :
    Respects related (MockOS.Fs.dirAdd dir name sector false) := by
  unfold MockOS.Fs.dirAdd
  split
  · exact respects_pure _
  · refine respects_bind (respects_lookup _ _) fun found => ?_
    split
    · exact respects_pure _
    · refine respects_bind (respects_pure true) fun linked => ?_
      split
      · exact respects_pure _
      · exact respects_bind (respects_dirGetInode _) fun _ => respects_bind (respects_entryRounds _) fun _ =>
          respects_bind (respects_scanEntries _ _ _ _) fun _ => steps.writeEntry _ _ _

theorem createIn (dir : Pointer) (name : CString) (length : Int) :
    Respects related (MockOS.Fs.createIn dir name length false) := by
  refine respects_bind steps.freeMapAllocate fun allocated => ?_
  cases allocated with
  | none => exact respects_pure _
  | some sector =>
      refine respects_bind (steps.create _ _ _) fun created => ?_
      split
      · exact respects_bind (steps.dirAdd _ _ _) fun _ => respects_pure _
      · exact respects_pure _

end WriteSteps

end MockOS.Fs
