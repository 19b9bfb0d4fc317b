import Mathlib.Data.Finset.Card
import Mathlib.Data.Finset.Range
import MockOS.Fs.HeapObjects
import MockOS.Fs.RootScans
import MockOS.Fs.ShellRuns

namespace MockOS.Fs

variable {A B : Type} {shared : BlockSector → Prop} {own after : Owners} {world middle next : World}
  {nodes nodesAfter : Nodes} {sector number : BlockSector} {pointer dir file inode : Pointer}
  {root data dataAfter : InodeDisk} {entries : List DirEntry} {name path : CString}

/-- A file without its position. -/
def File.header (file : File) : Pointer × Bool := (file.inode, file.denyWrite)

/-- Two worlds have the same open inodes, files and directories; the positions of the files may differ. -/
structure SameHandles (world next : World) : Prop where
  openInodes : next.mem.openInodes = world.mem.openInodes
  headers : ∀ inode ∈ world.mem.openInodes,
    (next.mem.inodes inode).map Inode.header = (world.mem.inodes inode).map Inode.header
  files : ∀ file, (next.mem.files file).map File.header = (world.mem.files file).map File.header
  dirs : next.mem.dirs = world.mem.dirs
  fileTable : next.mem.fileTable = world.mem.fileTable
  freeMapFile : next.mem.freeMapFile = world.mem.freeMapFile

instance : IsPreorder World SameHandles where
  refl _ := ⟨rfl, fun _ _ => rfl, fun _ => rfl, rfl, rfl, rfl⟩
  trans _ _ _ first second := ⟨second.openInodes.trans first.openInodes,
    fun inode member => (second.headers inode (first.openInodes ▸ member)).trans (first.headers inode member),
    fun file => (second.files file).trans (first.files file), second.dirs.trans first.dirs,
    second.fileTable.trans first.fileTable, second.freeMapFile.trans first.freeMapFile⟩

theorem SameObjects.sameHandles (same : SameObjects world next) : SameHandles world next :=
  ⟨same.openInodes, fun inode _ => same.headers inode, fun _ => by rw [same.files], same.dirs, same.fileTable,
    same.freeMapFile⟩

theorem Respects.sameHandles {action : Action A} (respects : Respects SameObjects action) : Respects SameHandles action :=
  fun world value next ran => (respects world value next ran).sameHandles

/-- A file is moved to another position. -/
theorem SameHandles.setFile {before : File} {pos : Int} (object : world.mem.files file = some before) :
    SameHandles world ⟨{ world.mem with
      files := Function.update world.mem.files file (some { before with pos := pos }) }, world.disk⟩ := by
  refine ⟨rfl, fun _ _ => rfl, fun other => ?_, rfl, rfl, rfl⟩
  change (Function.update world.mem.files file _ other).map _ = _
  by_cases same : other = file
  · rw [same, Function.update_self, object]
    rfl
  · rw [Function.update_of_ne same]

/-- Between two commands every struct file is that of the free map or listed in the table, and each open inode is held
by one struct file. -/
structure World.Tracked (world : World) : Prop where
  dirs : ∀ dir, world.mem.dirs dir = none
  nodup : world.mem.openInodes.Nodup
  single : ∀ inode ∈ world.mem.openInodes, ∃ sector data, world.mem.inodes inode = some (.live sector data)
  live : ∀ file object, world.mem.files file = some object → object.inode ∈ world.mem.openInodes ∧ object.denyWrite = false
  held : ∀ inode ∈ world.mem.openInodes, ∃ file object, world.mem.files file = some object ∧ object.inode = inode
  apart : ∀ file other one two, world.mem.files file = some one → world.mem.files other = some two →
    one.inode = two.inode → file = other
  listed : ∀ handle ∈ world.mem.fileTable, world.mem.files handle.2 ≠ none
  owned : ∀ file, world.mem.files file ≠ none →
    world.mem.freeMapFile = some file ∨ ∃ name, (name, file) ∈ world.mem.fileTable
  distinct : (world.mem.fileTable.map Prod.snd).Nodup
  flat : ∀ handle ∈ world.mem.fileTable, 47 ∉ handle.1

theorem header_live {object : Option Inode} (same : object.map Inode.header = (some (.live sector data)).map Inode.header) :
    ∃ dataAfter, object = some (.live sector dataAfter) := by
  obtain ⟨found, rfl, header⟩ := Option.map_eq_some_iff.mp same
  obtain ⟨foundSector, openCnt, removed, denyWriteCnt, dataAfter⟩ := found
  rw [Inode.header, Inode.header, Inode.live] at header
  simp only [Prod.mk.injEq] at header
  obtain ⟨rfl, rfl, rfl, rfl⟩ := header
  exact ⟨dataAfter, rfl⟩

namespace World.Tracked

/-- The positions of the files do not matter. -/
theorem sameHandles (tracked : world.Tracked) (same : SameHandles world next) : next.Tracked := by
  have back : ∀ {file object}, next.mem.files file = some object →
      ∃ before, world.mem.files file = some before ∧ before.header = object.header := by
    intro file object here
    have header := same.files file
    rw [here] at header
    exact Option.map_eq_some_iff.mp header.symm
  have none_iff : ∀ file, next.mem.files file = none ↔ world.mem.files file = none := by
    intro file
    rw [← Option.map_eq_none_iff (f := File.header), same.files, Option.map_eq_none_iff]
  constructor
  · rw [same.dirs]
    exact tracked.dirs
  · rw [same.openInodes]
    exact tracked.nodup
  · intro inode member
    rw [same.openInodes] at member
    obtain ⟨sector, data, object⟩ := tracked.single inode member
    have header := same.headers inode member
    rw [object] at header
    exact ⟨sector, header_live header⟩
  · intro file object here
    obtain ⟨before, there, header⟩ := back here
    obtain ⟨isOpen, allowed⟩ := tracked.live file before there
    rw [File.header, File.header, Prod.mk.injEq] at header
    rw [same.openInodes, ← header.1, ← header.2]
    exact ⟨isOpen, allowed⟩
  · intro inode member
    rw [same.openInodes] at member
    obtain ⟨file, object, here, holds⟩ := tracked.held inode member
    have header := same.files file
    rw [here] at header
    obtain ⟨found, there, sameHeader⟩ := Option.map_eq_some_iff.mp header
    rw [File.header, File.header, Prod.mk.injEq] at sameHeader
    exact ⟨file, found, there, sameHeader.1.trans holds⟩
  · intro file other one two here there holds
    obtain ⟨oneBefore, oneThere, oneHeader⟩ := back here
    obtain ⟨twoBefore, twoThere, twoHeader⟩ := back there
    rw [File.header, File.header, Prod.mk.injEq] at oneHeader twoHeader
    exact tracked.apart file other _ _ oneThere twoThere (oneHeader.1.trans (holds.trans twoHeader.1.symm))
  · rw [same.fileTable]
    intro handle member
    rw [Ne, none_iff]
    exact tracked.listed handle member
  · intro file isFile
    rw [Ne, none_iff] at isFile
    rw [same.freeMapFile, same.fileTable]
    exact tracked.owned file isFile
  · rw [same.fileTable]
    exact tracked.distinct
  · rw [same.fileTable]
    exact tracked.flat

/-- A file of the table is closed, and its entry taken out. -/
theorem removeFromFileTable {removed : Bool} (tracked : world.Tracked)
    (ran : run (removeFromFileTable path) world = some (removed, next)) : next.Tracked := by
  rw [MockOS.Fs.removeFromFileTable, run_bind, run_get, Option.bind_some] at ran
  cases found : world.mem.fileTable.find? fun entry => entry.1 == path with
  | none =>
      rw [found] at ran
      exact tracked.sameHandles (respects_pure _ _ _ _ ran)
  | some entry =>
      obtain ⟨name, file⟩ := entry
      have member := List.mem_of_find?_eq_some found
      obtain ⟨⟨inode, pos, denyWrite⟩, object⟩ := Option.ne_none_iff_exists'.mp (tracked.listed _ member)
      obtain ⟨isOpen, rfl⟩ := tracked.live _ _ object
      obtain ⟨sector, data, live⟩ := tracked.single _ isOpen
      rw [found] at ran
      dsimp only at ran object isOpen live
      rw [run_bind, run_fileClose object live, Option.bind_some, run_bind, run_modify, Option.bind_some, run_pure,
        Option.some.injEq, Prod.mk.injEq] at ran
      obtain ⟨-, rfl⟩ := ran
      have other : ∀ {pointer : Pointer}, pointer ≠ file →
          Function.update world.mem.files file none pointer = world.mem.files pointer :=
        fun different => Function.update_of_ne different _ _
      have there : ∀ {pointer : Pointer} {found : File}, Function.update world.mem.files file none pointer = some found →
          pointer ≠ file ∧ world.mem.files pointer = some found := by
        intro pointer found here
        have different : pointer ≠ file := by
          rintro rfl
          rw [Function.update_self] at here
          cases here
        exact ⟨different, (other different).symm.trans here⟩
      constructor
      · exact tracked.dirs
      · exact tracked.nodup.erase _
      · intro pointer inRest
        obtain ⟨different, listed⟩ := (tracked.nodup.mem_erase_iff).mp inRest
        obtain ⟨sector, data, same⟩ := tracked.single pointer listed
        exact ⟨sector, data, (Function.update_of_ne different _ _).trans same⟩
      · intro pointer found here
        obtain ⟨different, before⟩ := there here
        obtain ⟨listed, allowed⟩ := tracked.live pointer found before
        refine ⟨(tracked.nodup.mem_erase_iff).mpr ⟨fun same => different ?_, listed⟩, allowed⟩
        exact tracked.apart _ _ _ _ before object same
      · intro pointer inRest
        obtain ⟨different, listed⟩ := (tracked.nodup.mem_erase_iff).mp inRest
        obtain ⟨holder, found, here, holds⟩ := tracked.held pointer listed
        refine ⟨holder, found, (other ?_).trans here, holds⟩
        rintro rfl
        rw [object, Option.some.injEq] at here
        rw [← here] at holds
        exact different holds.symm
      · intro one two first second here second_ same
        exact tracked.apart one two first second (there here).2 (there second_).2 same
      · intro handle inRest
        have listed := List.mem_of_mem_erase inRest
        have different : handle.2 ≠ file := by
          intro same
          have equal := List.inj_on_of_nodup_map tracked.distinct listed member same
          rw [equal] at inRest
          exact tracked.distinct.of_map.not_mem_erase inRest
        exact (other different).trans_ne (tracked.listed handle listed)
      · intro pointer isFile
        have different : pointer ≠ file := by
          rintro rfl
          exact isFile (Function.update_self _ _ _)
        refine (tracked.owned pointer fun none => isFile ((other different).trans none)).imp id ?_
        rintro ⟨name', inTable⟩
        refine ⟨name', (List.mem_erase_of_ne fun same => different ?_).mpr inTable⟩
        exact congrArg Prod.snd same
      · exact tracked.distinct.sublist ((List.erase_sublist).map _)
      · exact fun handle inRest => tracked.flat handle (List.mem_of_mem_erase inRest)

/-- A new file on a new inode is listed in the table. -/
theorem newHandle (tracked : world.Tracked) (noInode : inode ∉ world.mem.openInodes) (noFile : world.mem.files file = none)
    (noSlash : 47 ∉ path) (mem : next.mem = { world.mem with
      nextPointer := next.mem.nextPointer
      openInodes := inode :: world.mem.openInodes
      inodes := Function.update world.mem.inodes inode (some (.live sector data))
      files := Function.update world.mem.files file (some ⟨inode, 0, false⟩)
      fileTable := world.mem.fileTable ++ [(path, file)] }) : next.Tracked := by
  have other : ∀ {pointer : Pointer}, world.mem.files pointer ≠ none → next.mem.files pointer = world.mem.files pointer := by
    intro pointer isFile
    rw [mem]
    refine Function.update_of_ne ?_ _ _
    rintro rfl
    exact isFile noFile
  have here : next.mem.files file = some ⟨inode, 0, false⟩ := by
    rw [mem]
    exact Function.update_self _ _ _
  have there : ∀ {pointer : Pointer} {found : File}, next.mem.files pointer = some found →
      pointer = file ∧ found = ⟨inode, 0, false⟩ ∨ world.mem.files pointer = some found := by
    intro pointer found object
    by_cases same : pointer = file
    · subst same
      rw [here, Option.some.injEq] at object
      exact .inl ⟨rfl, object.symm⟩
    · rw [mem] at object
      exact .inr ((Function.update_of_ne same _ _).symm.trans object)
  constructor
  · rw [mem]
    exact tracked.dirs
  · rw [mem]
    exact List.nodup_cons.mpr ⟨noInode, tracked.nodup⟩
  · rw [mem]
    intro pointer member
    rcases List.mem_cons.mp member with rfl | listed
    · exact ⟨sector, data, Function.update_self _ _ _⟩
    · obtain ⟨sector, data, object⟩ := tracked.single pointer listed
      exact ⟨sector, data, (Function.update_of_ne (ne_of_mem_of_not_mem listed noInode) _ _).trans object⟩
  · intro pointer found object
    rw [show next.mem.openInodes = inode :: world.mem.openInodes by rw [mem]]
    rcases there object with ⟨_, rfl⟩ | before
    · exact ⟨List.mem_cons_self, rfl⟩
    · exact ⟨List.mem_cons_of_mem _ (tracked.live pointer found before).1, (tracked.live pointer found before).2⟩
  · intro pointer member
    rw [mem] at member
    rcases List.mem_cons.mp member with rfl | member
    · exact ⟨file, _, here, rfl⟩
    · obtain ⟨holder, found, object, holds⟩ := tracked.held pointer member
      exact ⟨holder, found, (other (by rw [object]; simp)).trans object, holds⟩
  · intro one two first second oneObject twoObject same
    rcases there oneObject with ⟨rfl, rfl⟩ | oneBefore
    · rcases there twoObject with ⟨rfl, _⟩ | twoBefore
      · rfl
      · exact absurd (tracked.live two second twoBefore).1 (by rwa [← same])
    · rcases there twoObject with ⟨rfl, rfl⟩ | twoBefore
      · exact absurd (tracked.live one first oneBefore).1 (by rwa [same])
      · exact tracked.apart one two first second oneBefore twoBefore same
  · intro handle member
    rw [mem] at member
    rcases List.mem_append.mp member with member | member
    · rw [other (tracked.listed handle member)]
      exact tracked.listed handle member
    · rw [List.mem_singleton.mp member, here]
      simp
  · intro pointer isFile
    rw [show next.mem.freeMapFile = world.mem.freeMapFile by rw [mem],
      show next.mem.fileTable = world.mem.fileTable ++ [(path, file)] by rw [mem]]
    obtain ⟨found, object⟩ := Option.ne_none_iff_exists'.mp isFile
    rcases there object with ⟨rfl, _⟩ | before
    · exact .inr ⟨path, List.mem_append_right _ List.mem_cons_self⟩
    · refine (tracked.owned pointer (by rw [before]; simp)).imp id fun ⟨name, member⟩ => ⟨name, ?_⟩
      exact List.mem_append_left _ member
  · rw [mem, List.map_append, List.nodup_append']
    refine ⟨tracked.distinct, List.nodup_singleton _, fun pointer member inLast => ?_⟩
    rw [List.mem_singleton.mp inLast] at member
    obtain ⟨handle, listed, rfl⟩ := List.mem_map.mp member
    exact tracked.listed handle listed noFile
  · intro handle member
    rw [mem] at member
    rcases List.mem_append.mp member with member | member
    · exact tracked.flat handle member
    · rw [List.mem_singleton.mp member]
      exact noSlash

end World.Tracked

end MockOS.Fs
