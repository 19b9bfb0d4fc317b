import MockOS.Fs.InodeRemoval

namespace MockOS.Fs

variable {shared : BlockSector → Prop} {own after : Owners} {world middle next : World}
  {nodes nodesBetween nodesAfter : Nodes} {sector inode : BlockSector} {pointer : Pointer} {data dataAfter : InodeDisk}

/-- The objects of other inodes stay as they are. -/
def OpenSame (sector : BlockSector) (world next : World) : Prop :=
  ∀ number, number ≠ sector → ∀ pointer data, Opened next number pointer data ↔ Opened world number pointer data

theorem OpenSame.refl (sector : BlockSector) (world : World) : OpenSame sector world world := fun _ _ _ _ => Iff.rfl

theorem OpenSame.closed (same : OpenSame sector world next) {number : BlockSector} (different : number ≠ sector) :
    next.closed number ↔ world.closed number := by
  rw [← not_iff_not, not_closed, not_closed]
  simp only [same number different]

theorem OpenSame.of_mem (openInodes : next.mem.openInodes = world.mem.openInodes)
    (inodes : next.mem.inodes = world.mem.inodes) : OpenSame sector world next := by
  intro number _ pointer data
  constructor
  · rintro ⟨member, object⟩
    exact ⟨by rwa [← openInodes], by rwa [← inodes]⟩
  · rintro ⟨member, object⟩
    exact ⟨by rwa [openInodes], by rwa [inodes]⟩

/-- The object of one inode is new or gets other data. -/
theorem OpenSame.update {value : InodeDisk} (members : ∀ other, other ≠ pointer →
      (other ∈ next.mem.openInodes ↔ other ∈ world.mem.openInodes))
    (inodes : next.mem.inodes = Function.update world.mem.inodes pointer (some (.live sector value)))
    (before : ∀ number data, Opened world number pointer data → number = sector) : OpenSame sector world next := by
  intro number different other data
  by_cases same : other = pointer
  · subst same
    constructor
    · rintro ⟨_, object⟩
      rw [inodes, Function.update_self, Option.some.injEq, Inode.live_inj] at object
      exact absurd object.1.symm different
    · intro opened
      exact absurd (before number data opened) different
  · constructor
    · rintro ⟨member, object⟩
      rw [inodes, Function.update_of_ne same] at object
      exact ⟨(members other same).mp member, object⟩
    · rintro ⟨member, object⟩
      refine ⟨(members other same).mpr member, ?_⟩
      rwa [inodes, Function.update_of_ne same]

theorem OpenSame.openInode (table : Table nodes world) (sector : BlockSector) (data : InodeDisk) :
    OpenSame sector world ⟨world.mem.openInode sector data, world.disk⟩ := by
  refine .update (fun other different => ?_) rfl fun number before opened => ?_
  · change other ∈ world.mem.nextPointer :: world.mem.openInodes ↔ _
    simp [different]
  · exact absurd opened.member table.fresh_not_open

theorem OpenSame.closeInode (table : Table nodes world) (opened : Opened world sector pointer data)
    (openInodes : next.mem.openInodes = world.mem.openInodes.erase pointer)
    (inodes : next.mem.inodes = Function.update world.mem.inodes pointer none) : OpenSame sector world next := by
  intro number different other before
  have erased : other ∈ next.mem.openInodes ↔ other ≠ pointer ∧ other ∈ world.mem.openInodes := by
    rw [openInodes, table.nodup.mem_erase_iff]
  constructor
  · rintro ⟨member, object⟩
    obtain ⟨apart, member⟩ := erased.mp member
    rw [inodes, Function.update_of_ne apart] at object
    exact ⟨member, object⟩
  · rintro ⟨member, object⟩
    have apart : other ≠ pointer := by
      rintro rfl
      rw [opened.object, Option.some.injEq, Inode.live_inj] at object
      exact different object.1.symm
    refine ⟨erased.mpr ⟨apart, member⟩, ?_⟩
    rwa [inodes, Function.update_of_ne apart]

/-- A closed inode has no object any more. -/
theorem closed_closeInode (table : Table nodes world) (opened : Opened world sector pointer data)
    (openInodes : next.mem.openInodes = world.mem.openInodes.erase pointer)
    (inodes : next.mem.inodes = Function.update world.mem.inodes pointer none) : next.closed sector := by
  intro other member before object
  rw [openInodes, table.nodup.mem_erase_iff] at member
  rw [inodes, Function.update_of_ne member.1] at object
  exact member.1 (table.unique ⟨member.2, object⟩ opened)

/-- A write changes the object of its inode. -/
theorem Opened.write (opened : Opened world sector pointer data)
    (mem : next.mem = { world.mem with
      freeMap := next.mem.freeMap, allocationFailures := next.mem.allocationFailures
      inodes := Function.update world.mem.inodes pointer (some (.live sector dataAfter)) }) :
    OpenSame sector world next ∧ Opened next sector pointer dataAfter := by
  have inodes : next.mem.inodes = Function.update world.mem.inodes pointer (some (.live sector dataAfter)) := by rw [mem]
  have openInodes : next.mem.openInodes = world.mem.openInodes := by rw [mem]
  constructor
  · refine .update (fun _ _ => by rw [openInodes]) inodes fun number before other => ?_
    have object := other.object
    rw [opened.object, Option.some.injEq, Inode.live_inj] at object
    exact object.1.symm
  · exact ⟨openInodes ▸ opened.member, by rw [inodes, Function.update_self]⟩

/-- What a step leaves: the inodes other than those that it changes, with their bytes and their objects. -/
structure Frame (changed : BlockSector → Prop) (nodes nodesAfter : Nodes) (world next : World) : Prop where
  sameNodes : ∀ number, ¬ changed number → nodesAfter number = nodes number
  sameBytes : ∀ number data, ¬ changed number → number ≠ 0 → nodes number = some data →
    fileBytes next.disk data = fileBytes world.disk data ∧ (TailZero world.disk data → TailZero next.disk data)
  sameOpen : ∀ number, ¬ changed number → ∀ pointer data, Opened next number pointer data ↔ Opened world number pointer data

namespace Frame

variable {changed wider : BlockSector → Prop}

theorem refl (changed : BlockSector → Prop) (nodes : Nodes) (world : World) : Frame changed nodes nodes world world :=
  ⟨fun _ _ => rfl, fun _ _ _ _ _ => ⟨rfl, id⟩, fun _ _ _ _ => Iff.rfl⟩

theorem mono (frame : Frame changed nodes nodesAfter world next) (subset : ∀ number, changed number → wider number) :
    Frame wider nodes nodesAfter world next where
  sameNodes number outside := frame.sameNodes number fun inside => outside (subset number inside)
  sameBytes number data outside := frame.sameBytes number data fun inside => outside (subset number inside)
  sameOpen number outside := frame.sameOpen number fun inside => outside (subset number inside)

theorem trans (first : Frame changed nodes nodesBetween world middle)
    (second : Frame changed nodesBetween nodesAfter middle next) : Frame changed nodes nodesAfter world next where
  sameNodes number outside := (second.sameNodes number outside).trans (first.sameNodes number outside)
  sameBytes number data outside nonzero present := by
    obtain ⟨sameFirst, tailFirst⟩ := first.sameBytes number data outside nonzero present
    obtain ⟨sameSecond, tailSecond⟩ :=
      second.sameBytes number data outside nonzero ((first.sameNodes number outside).trans present)
    exact ⟨sameSecond.trans sameFirst, fun tail => tailSecond (tailFirst tail)⟩
  sameOpen number outside pointer data :=
    (second.sameOpen number outside pointer data).trans (first.sameOpen number outside pointer data)

theorem of_step (step : InodeStep shared sector own after nodes nodesAfter world next) (volume : Volume own shared nodes world)
    (same : OpenSame sector world next) : Frame (· = sector) nodes nodesAfter world next where
  sameNodes number different := step.others number different
  sameBytes _ _ different nonzero present :=
    ⟨step.fileBytes volume different nonzero present, step.tailZero volume different nonzero present⟩
  sameOpen number different := same number different

/-- A step in memory. -/
theorem of_memory (sameDisk : next.disk = world.disk) (kept : ∀ number, number ≠ sector → nodesAfter number = nodesBetween number)
    (same : OpenSame sector world next) : Frame (· = sector) nodesBetween nodesAfter world next where
  sameNodes := kept
  sameBytes _ _ _ _ _ := by
    rw [sameDisk]
    exact ⟨rfl, id⟩
  sameOpen number different := same number different

theorem closed (frame : Frame changed nodes nodesAfter world next) {number : BlockSector} (outside : ¬ changed number) :
    next.closed number ↔ world.closed number := by
  rw [← not_iff_not, not_closed, not_closed]
  simp only [frame.sameOpen number outside]

end Frame

end MockOS.Fs
