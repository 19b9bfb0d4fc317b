import MockOS.Fs.Volume

namespace MockOS.Fs

variable {shared : BlockSector → Prop} {own after : Owners} {world next : World} {nodes nodesAfter : Nodes}
  {sector inode : BlockSector} {pointer : Pointer} {data : InodeDisk}

@[simp] theorem Inode.live_inj {number : BlockSector} {other : InodeDisk} :
    Inode.live sector data = Inode.live number other ↔ sector = number ∧ data = other := by simp [live]

/-- The object of an open inode. -/
structure Opened (world : World) (sector : BlockSector) (pointer : Pointer) (data : InodeDisk) : Prop where
  member : pointer ∈ world.mem.openInodes
  object : world.mem.inodes pointer = some (.live sector data)

theorem not_closed : ¬ world.closed sector ↔ ∃ pointer data, Opened world sector pointer data := by
  unfold World.closed
  push Not
  constructor
  · rintro ⟨pointer, member, data, object⟩
    exact ⟨pointer, data, member, object⟩
  · rintro ⟨pointer, data, opened⟩
    exact ⟨pointer, opened.member, data, opened.object⟩

namespace Table

theorem node (table : Table nodes world) (opened : Opened world sector pointer data) : nodes sector = some data := by
  obtain ⟨number, other, object, present⟩ := table.opened pointer opened.member
  rw [opened.object, Option.some.injEq, Inode.live_inj] at object
  rw [object.1, object.2, present]

theorem unique (table : Table nodes world) {second : Pointer} {other : InodeDisk}
    (first : Opened world sector pointer data) (again : Opened world sector second other) : pointer = second :=
  table.distinct _ first.member _ again.member _ _ _ first.object again.object

theorem fresh_inode (table : Table nodes world) : world.mem.inodes world.mem.nextPointer = none :=
  (table.fresh _ (Nat.le_refl _)).1

theorem fresh_not_open (table : Table nodes world) : world.mem.nextPointer ∉ world.mem.openInodes := by
  intro member
  obtain ⟨number, other, object, _⟩ := table.opened _ member
  rw [table.fresh_inode] at object
  cases object

/-- A step on one inode, open or closed, keeps the table. -/
theorem step (table : Table nodes world) (sameOpen : next.mem.openInodes = world.mem.openInodes)
    (others : ∀ pointer number data, Opened world number pointer data → number ≠ inode →
      next.mem.inodes pointer = some (.live number data))
    (here : ∀ pointer data, Opened world inode pointer data → ∃ dataAfter,
      next.mem.inodes pointer = some (.live inode dataAfter) ∧ nodesAfter inode = some dataAfter)
    (fresh : ∀ pointer, next.mem.nextPointer ≤ pointer → next.mem.inodes pointer = none ∧
      next.mem.files pointer = none ∧ next.mem.dirs pointer = none)
    (sameNodes : ∀ number, number ≠ inode → nodesAfter number = nodes number)
    (sameDisk : ∀ number data, number ≠ inode → nodes number = some data → world.closed number →
      next.disk number = world.disk number)
    (stored : world.closed inode → ∀ data, nodesAfter inode = some data →
      InodeDisk.ofSector (next.disk inode) = data) : Table nodesAfter next := by
  have objects : ∀ pointer ∈ world.mem.openInodes, ∃ number before data, Opened world number pointer before ∧
      next.mem.inodes pointer = some (.live number data) ∧ nodesAfter number = some data := by
    intro pointer member
    obtain ⟨number, before, object, present⟩ := table.opened pointer member
    by_cases same : number = inode
    · subst same
      obtain ⟨data, objectAfter, presentAfter⟩ := here pointer before ⟨member, object⟩
      exact ⟨number, before, data, ⟨member, object⟩, objectAfter, presentAfter⟩
    · exact ⟨number, before, before, ⟨member, object⟩, others pointer number before ⟨member, object⟩ same,
        (sameNodes number same).trans present⟩
  have closedBefore : ∀ {number}, next.closed number → world.closed number := by
    intro number closed pointer member data object
    obtain ⟨number', before, dataAfter, opened, objectAfter, _⟩ := objects pointer member
    rw [opened.object, Option.some.injEq, Inode.live_inj] at object
    rw [object.1] at objectAfter
    exact closed pointer (sameOpen ▸ member) dataAfter objectAfter
  constructor
  · intro pointer member
    rw [sameOpen] at member
    obtain ⟨number, _, data, _, object, present⟩ := objects pointer member
    exact ⟨number, data, object, present⟩
  · rw [sameOpen]
    exact table.nodup
  · intro first firstMember second secondMember number one two firstObject secondObject
    rw [sameOpen] at firstMember secondMember
    obtain ⟨firstNumber, _, _, firstOpened, firstAfter, _⟩ := objects first firstMember
    obtain ⟨secondNumber, _, _, secondOpened, secondAfter, _⟩ := objects second secondMember
    rw [firstObject, Option.some.injEq, Inode.live_inj] at firstAfter
    rw [secondObject, Option.some.injEq, Inode.live_inj] at secondAfter
    obtain ⟨rfl, _⟩ := firstAfter
    obtain ⟨rfl, _⟩ := secondAfter
    exact table.unique firstOpened secondOpened
  · intro number data present closed
    by_cases same : number = inode
    · subst same
      exact stored (closedBefore closed) data present
    · rw [sameNodes number same] at present
      rw [sameDisk number data same present (closedBefore closed)]
      exact table.closed number data present (closedBefore closed)
  · exact fresh

/-- One object is closed and freed. -/
theorem erase (table : Table nodes world) (opened : Opened world inode pointer data)
    (open_eq : next.mem.openInodes = world.mem.openInodes.erase pointer)
    (inodes_eq : next.mem.inodes = Function.update world.mem.inodes pointer none)
    (fresh : next.mem.nextPointer = world.mem.nextPointer ∧ next.mem.files = world.mem.files ∧
      next.mem.dirs = world.mem.dirs)
    (sameNodes : ∀ number, number ≠ inode → nodesAfter number = nodes number)
    (sameDisk : ∀ number data, number ≠ inode → nodes number = some data → world.closed number →
      next.disk number = world.disk number)
    (stored : ∀ data, nodesAfter inode = some data → InodeDisk.ofSector (next.disk inode) = data) :
    Table nodesAfter next := by
  have member_iff : ∀ other, other ∈ next.mem.openInodes ↔ other ≠ pointer ∧ other ∈ world.mem.openInodes := by
    intro other
    rw [open_eq]
    exact table.nodup.mem_erase_iff
  have sameObject : ∀ other, other ≠ pointer → next.mem.inodes other = world.mem.inodes other := by
    intro other different
    rw [inodes_eq, Function.update_of_ne different]
  constructor
  · intro other member
    obtain ⟨different, member⟩ := (member_iff other).mp member
    obtain ⟨number, before, object, present⟩ := table.opened other member
    refine ⟨number, before, (sameObject other different).trans object, (sameNodes number ?_).trans present⟩
    rintro rfl
    exact different (table.unique ⟨member, object⟩ opened)
  · rw [open_eq]
    exact table.nodup.erase pointer
  · intro first firstMember second secondMember number one two firstObject secondObject
    obtain ⟨firstDifferent, firstMember⟩ := (member_iff first).mp firstMember
    obtain ⟨secondDifferent, secondMember⟩ := (member_iff second).mp secondMember
    rw [sameObject first firstDifferent] at firstObject
    rw [sameObject second secondDifferent] at secondObject
    exact table.distinct first firstMember second secondMember number one two firstObject secondObject
  · intro number before present closed
    by_cases same : number = inode
    · subst same
      exact stored before present
    · have closedBefore : world.closed number := by
        intro other member data' object
        have different : other ≠ pointer := by
          rintro rfl
          rw [opened.object, Option.some.injEq, Inode.live_inj] at object
          exact same object.1.symm
        exact closed other ((member_iff other).mpr ⟨different, member⟩) data' ((sameObject other different).trans object)
      rw [sameNodes number same] at present
      rw [sameDisk number before same present closedBefore]
      exact table.closed number before present closedBefore
  · intro other above
    rw [fresh.1] at above
    obtain ⟨noInode, noFile, noDir⟩ := table.fresh other above
    rw [fresh.2.1, fresh.2.2, inodes_eq, Function.update_apply]
    refine ⟨?_, noFile, noDir⟩
    split
    · rfl
    · exact noInode

end Table

/-- The search goes through the list to the first object of the sector. -/
theorem findOpen_spec (sector : BlockSector) (pointers : List Pointer)
    (live : ∀ pointer ∈ pointers, ∃ number data, world.mem.inodes pointer = some (.live number data)) :
    (∃ pointer ∈ pointers, ∃ data, world.mem.inodes pointer = some (.live sector data) ∧
      run (findOpen sector pointers) world = some (some pointer, world)) ∨
    ((∀ pointer ∈ pointers, ∀ data, world.mem.inodes pointer ≠ some (.live sector data)) ∧
      run (findOpen sector pointers) world = some (none, world)) := by
  induction pointers with
  | nil => exact .inr ⟨fun _ member => (by cases member), rfl⟩
  | cons first rest ih =>
      obtain ⟨number, before, object⟩ := live first List.mem_cons_self
      rw [findOpen, run_bind, run_getInode object, Option.bind_some]
      by_cases same : number = sector
      · subst same
        exact .inl ⟨first, List.mem_cons_self, before, object, by rw [if_pos (by rfl), run_pure]⟩
      · rw [if_neg (by exact same)]
        rcases ih fun pointer member => live pointer (List.mem_cons_of_mem _ member) with
          ⟨pointer, member, data, found, ran⟩ | ⟨absent, ran⟩
        · exact .inl ⟨pointer, List.mem_cons_of_mem _ member, data, found, ran⟩
        · refine .inr ⟨?_, ran⟩
          intro pointer member data found
          rcases List.mem_cons.mp member with rfl | member
          · rw [object, Option.some.injEq, Inode.live_inj] at found
            exact same found.1
          · exact absent pointer member data found

/-- The memory after `inode_open` of a sector that was closed. -/
def Mem.openInode (mem : Mem) (sector : BlockSector) (data : InodeDisk) : Mem :=
  { mem with
    nextPointer := mem.nextPointer + 1
    openInodes := mem.nextPointer :: mem.openInodes
    inodes := Function.update mem.inodes mem.nextPointer (some (.live sector data)) }

/-- An open inode is found. -/
theorem inodeOpen_opened (table : Table nodes world) (opened : Opened world sector pointer data) :
    run (inodeOpen sector) world = some (pointer, world) := by
  rw [inodeOpen, run_bind, run_get, Option.bind_some, run_bind]
  have live : ∀ pointer ∈ world.mem.openInodes, ∃ number data, world.mem.inodes pointer = some (.live number data) := by
    intro other member
    obtain ⟨number, before, object, _⟩ := table.opened other member
    exact ⟨number, before, object⟩
  rcases findOpen_spec sector world.mem.openInodes live with ⟨other, member, before, object, ran⟩ | ⟨absent, _⟩
  · rw [ran, Option.bind_some, table.unique opened ⟨member, object⟩]
    rfl
  · exact absurd opened.object (absent pointer opened.member data)

/-- A closed inode is read from its sector. -/
theorem inodeOpen_closed
    (live : ∀ pointer ∈ world.mem.openInodes, ∃ number data, world.mem.inodes pointer = some (.live number data))
    (closed : world.closed sector) :
    run (inodeOpen sector) world = some (world.mem.nextPointer,
      ⟨world.mem.openInode sector (.ofSector (world.disk sector)), world.disk⟩) := by
  rw [inodeOpen, run_bind, run_get, Option.bind_some, run_bind]
  rcases findOpen_spec sector world.mem.openInodes live with ⟨other, member, before, object, _⟩ | ⟨_, ran⟩
  · exact absurd object (closed other member before)
  · rw [ran, Option.bind_some]
    rfl

theorem Table.live (table : Table nodes world) :
    ∀ pointer ∈ world.mem.openInodes, ∃ number data, world.mem.inodes pointer = some (.live number data) := by
  intro pointer member
  obtain ⟨number, before, object, _⟩ := table.opened pointer member
  exact ⟨number, before, object⟩

/-- The table with one more object. -/
theorem Table.openInode (table : Table nodes world) (present : nodes sector = some data) (closed : world.closed sector) :
    Table nodes ⟨world.mem.openInode sector data, world.disk⟩ := by
  have unlisted := table.fresh_not_open
  have old : ∀ pointer ∈ world.mem.openInodes,
      (world.mem.openInode sector data).inodes pointer = world.mem.inodes pointer := by
    intro pointer member
    apply Function.update_of_ne
    rintro rfl
    exact unlisted member
  have new : (world.mem.openInode sector data).inodes world.mem.nextPointer = some (.live sector data) :=
    Function.update_self _ _ _
  constructor
  · intro pointer member
    rcases List.mem_cons.mp member with rfl | member
    · exact ⟨sector, data, new, present⟩
    · obtain ⟨number, before, object, there⟩ := table.opened pointer member
      exact ⟨number, before, (old pointer member).trans object, there⟩
  · exact List.nodup_cons.mpr ⟨unlisted, table.nodup⟩
  · intro first firstMember second secondMember number one two firstObject secondObject
    rcases List.mem_cons.mp firstMember with rfl | firstMember
    · rcases List.mem_cons.mp secondMember with rfl | secondMember
      · rfl
      · rw [new, Option.some.injEq, Inode.live_inj] at firstObject
        rw [old second secondMember, ← firstObject.1] at secondObject
        exact absurd secondObject (closed second secondMember two)
    · rcases List.mem_cons.mp secondMember with rfl | secondMember
      · rw [new, Option.some.injEq, Inode.live_inj] at secondObject
        rw [old first firstMember, ← secondObject.1] at firstObject
        exact absurd firstObject (closed first firstMember one)
      · rw [old first firstMember] at firstObject
        rw [old second secondMember] at secondObject
        exact table.distinct first firstMember second secondMember number one two firstObject secondObject
  · intro number before there closedAfter
    apply table.closed number before there
    intro pointer member data' object
    exact closedAfter pointer (List.mem_cons_of_mem _ member) data' ((old pointer member).trans object)
  · intro pointer above
    have above : world.mem.nextPointer + 1 ≤ pointer := above
    obtain ⟨noInode, noFile, noDir⟩ := table.fresh pointer (Nat.le_of_succ_le above)
    refine ⟨?_, noFile, noDir⟩
    change Function.update world.mem.inodes world.mem.nextPointer _ pointer = none
    rw [Function.update_of_ne (Nat.ne_of_gt above), noInode]

/-- The free map file stays open through steps that keep it ready. -/
theorem FreeMapOpen.step (freeMap : FreeMapOpen own shared world) (ready : Ready after shared next)
    (sameFile : next.mem.freeMapFile = world.mem.freeMapFile)
    (sameFiles : ∀ pointer, world.mem.freeMapFile = some pointer →
      next.mem.files pointer = world.mem.files pointer)
    (still : ∀ pointer data, Opened world 0 pointer data → Opened next 0 pointer data) :
    FreeMapOpen after shared next := by
  obtain ⟨pointer, file, data, opened, _, member⟩ := freeMap
  have object := still file.inode data ⟨member, opened.liveInode⟩
  rcases ready with ⟨closed, _⟩ | ⟨pointerAfter, fileAfter, inodeAfter, openedAfter, copy⟩
  · rw [sameFile, opened.opened] at closed
    cases closed
  · have samePointer : pointerAfter = pointer := by
      have present := openedAfter.opened
      rw [sameFile, opened.opened] at present
      exact (Option.some.inj present).symm
    subst samePointer
    have liveFile := openedAfter.liveFile
    rw [sameFiles _ opened.opened, opened.liveFile] at liveFile
    obtain rfl := Option.some.inj liveFile
    have liveInode := openedAfter.liveInode
    rw [object.object] at liveInode
    obtain rfl := Option.some.inj liveInode
    exact ⟨_, _, data, openedAfter, copy, object.member⟩

theorem Volume.zero_opened (volume : Volume own shared nodes world) : ∃ pointer data, Opened world 0 pointer data := by
  obtain ⟨pointer, file, data, opened, _, member⟩ := volume.freeMap
  exact ⟨file.inode, data, member, opened.liveInode⟩

/-- A closed inode is not that of the free map. -/
theorem Volume.ne_zero_of_closed (volume : Volume own shared nodes world) (closed : world.closed sector) :
    sector ≠ 0 := by
  rintro rfl
  exact not_closed.mpr volume.zero_opened closed

/-- A step in memory outside the free map and its file. -/
theorem Volume.memory (volume : Volume own shared nodes world) (sameDisk : next.disk = world.disk)
    (sameMap : next.mem.freeMap = world.mem.freeMap) (sameFile : next.mem.freeMapFile = world.mem.freeMapFile)
    (sameFiles : ∀ pointer, world.mem.freeMapFile = some pointer →
      next.mem.files pointer = world.mem.files pointer)
    (still : ∀ pointer data, Opened world 0 pointer data → Opened next 0 pointer data)
    (node : ∀ sector data, nodesAfter sector = some data → Node own world.disk sector data)
    (table : Table nodesAfter next) : Volume own shared nodesAfter next where
  sound := volume.sound.congr (congrArg Bitmap.bitCnt sameMap) fun sector _ used => by
    unfold World.used at used ⊢
    rwa [sameMap]
  freeMap := by
    have limit : next.limit = world.limit := congrArg Bitmap.bitCnt sameMap
    obtain ⟨pointer, file, data, opened, copy, member⟩ := volume.freeMap
    have object := still file.inode data ⟨member, opened.liveInode⟩
    refine ⟨pointer, file, data, opened.congr sameFile (sameFiles pointer opened.opened)
      (object.object.trans opened.liveInode.symm) limit (fun _ _ same => same) (fun _ _ => by rw [sameDisk]), ?_,
      object.member⟩
    unfold FreeMapCopy
    rw [limit, sameDisk, sameMap]
    exact copy
  node sector data present := by
    rw [sameDisk]
    exact node sector data present
  table := table

/-- A step on the files, the directories and the tables of the shell. -/
theorem Volume.heap (volume : Volume own shared nodes world) (sameDisk : next.disk = world.disk)
    (mem : next.mem = { world.mem with
      files := next.mem.files, dirs := next.mem.dirs, cwd := next.mem.cwd, fileTable := next.mem.fileTable
      nextPointer := next.mem.nextPointer, panics := next.mem.panics })
    (sameFiles : ∀ pointer, world.mem.freeMapFile = some pointer →
      next.mem.files pointer = world.mem.files pointer)
    (later : world.mem.nextPointer ≤ next.mem.nextPointer)
    (fresh : ∀ pointer, next.mem.nextPointer ≤ pointer →
      next.mem.files pointer = none ∧ next.mem.dirs pointer = none) : Volume own shared nodes next := by
  have openSame : next.mem.openInodes = world.mem.openInodes := by rw [mem]
  have inodesSame : next.mem.inodes = world.mem.inodes := by rw [mem]
  have still : ∀ {number pointer data}, Opened world number pointer data → Opened next number pointer data :=
    fun opened => ⟨openSame ▸ opened.member, inodesSame ▸ opened.object⟩
  refine volume.memory sameDisk (by rw [mem]) (by rw [mem]) sameFiles (fun _ _ => still) volume.node ?_
  constructor
  · intro pointer member
    rw [inodesSame]
    exact volume.table.opened pointer (openSame ▸ member)
  · rw [openSame]
    exact volume.table.nodup
  · rw [openSame, inodesSame]
    exact volume.table.distinct
  · intro number before present closed
    rw [sameDisk]
    apply volume.table.closed number before present
    intro pointer member data object
    exact closed pointer (openSame ▸ member) data (inodesSame ▸ object)
  · intro pointer above
    rw [inodesSame]
    exact ⟨(volume.table.fresh pointer (Nat.le_trans later above)).1, fresh pointer above⟩

/-- `inode_open` of a closed inode makes a new object. -/
theorem Volume.inodeOpen_closed (volume : Volume own shared nodes world) (present : nodes sector = some data)
    (closed : world.closed sector) :
    run (inodeOpen sector) world = some (world.mem.nextPointer, ⟨world.mem.openInode sector data, world.disk⟩) ∧
      Opened ⟨world.mem.openInode sector data, world.disk⟩ sector world.mem.nextPointer data ∧
      Volume own shared nodes ⟨world.mem.openInode sector data, world.disk⟩ := by
  have stored := volume.table.closed sector data present closed
  refine ⟨?_, ⟨List.mem_cons_self, ?_⟩, ?_⟩
  · rw [MockOS.Fs.inodeOpen_closed volume.table.live closed, stored]
  · exact Function.update_self _ _ _
  · refine volume.memory rfl rfl rfl (fun _ _ => rfl) (fun pointer before opened => ?_) volume.node
      (volume.table.openInode present closed)
    refine ⟨List.mem_cons_of_mem _ opened.member, ?_⟩
    change Function.update world.mem.inodes world.mem.nextPointer _ pointer = _
    rw [Function.update_of_ne, opened.object]
    rintro rfl
    exact volume.table.fresh_not_open opened.member

/-- `inode_open` gives the object of the inode, and the volume stays as it is. -/
theorem Volume.inodeOpen (volume : Volume own shared nodes world) (present : nodes sector = some data) :
    ∃ pointer mem, run (inodeOpen sector) world = some (pointer, ⟨mem, world.disk⟩) ∧
      Opened ⟨mem, world.disk⟩ sector pointer data ∧ Volume own shared nodes ⟨mem, world.disk⟩ ∧
      (mem = world.mem ∨ world.closed sector ∧ pointer = world.mem.nextPointer ∧
        mem = world.mem.openInode sector data) := by
  by_cases closed : world.closed sector
  · obtain ⟨ran, opened, volumeAfter⟩ := volume.inodeOpen_closed present closed
    exact ⟨world.mem.nextPointer, _, ran, opened, volumeAfter, .inr ⟨closed, rfl, rfl⟩⟩
  · obtain ⟨pointer, before, opened⟩ := not_closed.mp closed
    have same := volume.table.node opened
    rw [present, Option.some.injEq] at same
    subst same
    exact ⟨pointer, world.mem, inodeOpen_opened volume.table opened, opened, volume, .inl rfl⟩

/-- The memory after the last reference to an inode is closed. -/
def Mem.closeInode (mem : Mem) (pointer : Pointer) : Mem :=
  { mem with openInodes := mem.openInodes.erase pointer, inodes := Function.update mem.inodes pointer none }

/-- The free map inode is another object. -/
theorem Opened.closeInode_other (table : Table nodes world) (opened : Opened world sector pointer data) {number : BlockSector}
    {other : Pointer} {before : InodeDisk} (different : number ≠ sector) (otherOpened : Opened world number other before)
    (disk : BlockSector → Sector) : Opened ⟨world.mem.closeInode pointer, disk⟩ number other before := by
  have apart : other ≠ pointer := by
    rintro rfl
    have same := otherOpened.object
    rw [opened.object, Option.some.injEq, Inode.live_inj] at same
    exact different same.1.symm
  refine ⟨(table.nodup.mem_erase_iff).mpr ⟨apart, otherOpened.member⟩, ?_⟩
  change Function.update world.mem.inodes pointer none other = _
  rw [Function.update_of_ne apart, otherOpened.object]

theorem run_inodeClose (object : world.mem.inodes pointer = some (.live sector data)) :
    run (inodeClose (some pointer)) world = some ((), ⟨world.mem.closeInode pointer, world.disk⟩) := by
  rw [inodeClose, run_bind, run_getInode object, Option.bind_some, run_bind, run_setInode, Option.bind_some]
  simp only [Inode.live, sub_self, if_true, run_bind, run_modify, Option.bind_some, releaseRemoved, Bool.false_eq_true,
    if_false, run_pure, freeInode, Function.update_idem, Mem.closeInode]

/-- `inode_close` forgets what was not written to the disk. -/
theorem Volume.inodeClose (volume : Volume own shared nodes world) (opened : Opened world sector pointer data)
    (nonzero : sector ≠ 0) :
    run (inodeClose (some pointer)) world = some ((), ⟨world.mem.closeInode pointer, world.disk⟩) ∧
      Volume own shared (Function.update nodes sector (some (.ofSector (world.disk sector))))
        ⟨world.mem.closeInode pointer, world.disk⟩ := by
  constructor
  · exact run_inodeClose opened.object
  · refine volume.memory rfl rfl rfl (fun _ _ => rfl)
      (fun other before zero => opened.closeInode_other volume.table nonzero.symm zero _) ?_
      (volume.table.erase opened rfl rfl ⟨rfl, rfl, rfl⟩ (fun number different => Function.update_of_ne different _ _)
        (fun _ _ _ _ _ => rfl) fun before same => ?_)
    · intro number before present
      by_cases same : number = sector
      · subst same
        rw [Function.update_self, Option.some.injEq] at present
        subst present
        exact (volume.node number data (volume.table.node opened)).reload nonzero
      · rw [Function.update_of_ne same] at present
        exact volume.node number before present
    · rw [Function.update_self, Option.some.injEq] at same
      exact same

end MockOS.Fs
