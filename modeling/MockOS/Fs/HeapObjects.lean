import MockOS.Fs.Respects

namespace MockOS.Fs

variable {A B : Type} {world middle next : World} {pointer : Pointer}

/-- An inode without the copy of its sector. -/
def Inode.header (inode : Inode) : BlockSector × Int × Bool × Int :=
  (inode.sector, inode.openCnt, inode.removed, inode.denyWriteCnt)

/-- The two worlds have the same objects; only what the open inodes store may differ. -/
structure SameObjects (world next : World) : Prop where
  openInodes : next.mem.openInodes = world.mem.openInodes
  headers : ∀ pointer, (next.mem.inodes pointer).map Inode.header = (world.mem.inodes pointer).map Inode.header
  files : next.mem.files = world.mem.files
  dirs : next.mem.dirs = world.mem.dirs
  fileTable : next.mem.fileTable = world.mem.fileTable
  cwd : next.mem.cwd = world.mem.cwd
  freeMapFile : next.mem.freeMapFile = world.mem.freeMapFile
  nextPointer : next.mem.nextPointer = world.mem.nextPointer

instance : IsPreorder World SameObjects where
  refl _ := ⟨rfl, fun _ => rfl, rfl, rfl, rfl, rfl, rfl, rfl⟩
  trans _ _ _ first second := ⟨second.openInodes.trans first.openInodes,
    fun pointer => (second.headers pointer).trans (first.headers pointer), second.files.trans first.files,
    second.dirs.trans first.dirs, second.fileTable.trans first.fileTable, second.cwd.trans first.cwd,
    second.freeMapFile.trans first.freeMapFile, second.nextPointer.trans first.nextPointer⟩

theorem sameObjects_write (sector : BlockSector) (block : Sector) :
    Respects SameObjects (bufferCacheWrite sector block) := by
  intro world value next ran
  obtain ⟨-, rfl⟩ := Prod.mk.inj (Option.some.inj ran)
  exact ⟨rfl, fun _ => rfl, rfl, rfl, rfl, rfl, rfl, rfl⟩

/-- An inode is stored again with other data. -/
theorem sameObjects_setInode {inode before : Inode} (object : world.mem.inodes pointer = some before)
    (header : inode.header = before.header) (ran : run (setInode pointer inode) world = some ((), next)) :
    SameObjects world next := by
  obtain ⟨-, rfl⟩ := Prod.mk.inj (Option.some.inj ran)
  refine ⟨rfl, fun other => ?_, rfl, rfl, rfl, rfl, rfl, rfl⟩
  change (Function.update world.mem.inodes pointer (some inode) other).map _ = _
  by_cases same : other = pointer
  · rw [same, Function.update_self, object, Option.map_some, Option.map_some, header]
  · rw [Function.update_of_ne same]

theorem sameObjects_modify {change : Mem → Mem} (same : ∀ mem : Mem, change mem = { mem with
    freeMap := (change mem).freeMap, allocationFailures := (change mem).allocationFailures }) :
    Respects SameObjects (modify change : Action Unit) := by
  intro world value next ran
  obtain ⟨-, rfl⟩ := Prod.mk.inj (Option.some.inj ran)
  have here := same world.mem
  refine ⟨?_, fun pointer => ?_, ?_, ?_, ?_, ?_, ?_, ?_⟩ <;> · dsimp only; rw [here]

theorem sameObjects_setFreeMap (bitmap : Option Bitmap) : Respects SameObjects (setFreeMap bitmap) :=
  respects_bind (respects_deref _) fun _ => sameObjects_modify fun _ => rfl

section WriteAt

variable {writeAt : WriteAt} (writes : ∀ pointer buffer size offset, Respects SameObjects (writeAt pointer buffer size offset))

include writes

theorem sameObjects_allocate (cnt : Nat) : Respects SameObjects (freeMapAllocateBy writeAt cnt) := by
  have failed : Respects SameObjects allocationFailed :=
    respects_bind (sameObjects_modify fun _ => rfl) fun _ => respects_pure _
  refine respects_get fun mem => ?_
  cases mem.freeMap.bitmapScan 0 cnt false with
  | none => exact failed
  | some sector =>
      refine respects_bind (sameObjects_setFreeMap _) fun _ => ?_
      split_ifs
      · exact respects_pure _
      · refine respects_bind (respects_bitmapWrite writes) fun _ => ?_
        split_ifs
        · exact respects_pure _
        · exact respects_get fun _ => respects_bind (sameObjects_setFreeMap _) fun _ => failed

end WriteAt

/-- An inode that was read is stored again with other data. -/
theorem SameObjects.setInode {before : World} {inode : Inode} {data : InodeDisk} (object : before.mem.inodes pointer = some inode)
    (same : SameObjects before world) (ran : run (setInode pointer { inode with data := data }) world = some ((), next)) :
    SameObjects before next := by
  have header := same.headers pointer
  rw [object] at header
  obtain ⟨now, there, sameHeader⟩ := Option.map_eq_some_iff.mp header
  have stored : Inode.header { inode with data := data } = now.header := sameHeader.symm
  exact trans_of SameObjects same (sameObjects_setInode there stored ran)

theorem sameObjects_steps : WriteSteps SameObjects :=
  ⟨sameObjects_write, fun object same ran => same.setInode object ran, fun writes => sameObjects_allocate writes 1⟩

theorem sameObjects_freeMapRelease (sector : BlockSector) (cnt : Nat) :
    Respects SameObjects (freeMapRelease sector cnt) :=
  respects_get fun _ => respects_bind (sameObjects_setFreeMap _) fun _ =>
    respects_bind (respects_bitmapWrite sameObjects_steps.writeAt) fun _ => respects_pure _

theorem sameObjects_deallocateEntries {count : Nat} {deallocate : BlockSector → Nat → Action Unit}
    (deallocates : ∀ entry size, Respects SameObjects (deallocate entry size)) (unit : Nat) (indices : List (Fin count))
    (entries : Fin count → BlockSector) (numSectors : Nat) :
    Respects SameObjects (deallocateEntries deallocate unit indices entries numSectors) := by
  induction indices generalizing numSectors with
  | nil => exact respects_pure _
  | cons index rest ih => exact respects_bind (deallocates _ _) fun _ => ih _

theorem sameObjects_deallocateIndirect (level : Nat) (entry : BlockSector) (numSectors : Nat) :
    Respects SameObjects (inodeDeallocateIndirect level entry numSectors) := by
  induction level generalizing entry numSectors with
  | zero => exact sameObjects_freeMapRelease _ _
  | succ level ih =>
      exact respects_bind (respects_read _) fun block =>
        respects_bind (sameObjects_deallocateEntries (fun entry size => ih entry size) _ _ _ _) fun _ =>
          sameObjects_freeMapRelease _ _

theorem sameObjects_deallocatePart (level : Nat) (entry : BlockSector) (l : Nat) :
    Respects SameObjects (deallocatePart level entry l) := by
  unfold deallocatePart
  split_ifs
  · exact sameObjects_deallocateIndirect _ _ _
  · exact respects_pure _

theorem sameObjects_deallocate (disk : InodeDisk) : Respects SameObjects (inodeDeallocate disk) := by
  unfold inodeDeallocate
  split_ifs
  · exact respects_pure _
  · exact respects_bind (sameObjects_deallocateEntries (fun entry _ => sameObjects_freeMapRelease entry 1) _ _ _ _)
      fun _ => respects_bind (sameObjects_deallocatePart _ _ _) fun _ =>
        respects_bind (sameObjects_deallocatePart _ _ _) fun _ => respects_pure _

end MockOS.Fs
