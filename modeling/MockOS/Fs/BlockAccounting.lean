import MockOS.Fs.ByteFiles

namespace MockOS.Fs

variable {shared : BlockSector → Prop} {own after : Owners} {world next : World} {nodes nodesAfter : Nodes}
  {sector inode : BlockSector} {pointer : Pointer} {data dataAfter : InodeDisk} {session : Session} {files : ByteFiles}
  {root : InodeDisk} {rootBytes : List UInt8}

/-- The index and data sectors that an inode uses for the blocks of its length. -/
def World.inodeBlocks (world : World) (sector : BlockSector) : List BlockSector :=
  (inodePlaces (blocksOf (world.inodeData sector).length)).map (sectorAt world.disk (world.inodeData sector))

/-- Every sector of a live inode is in use, in range and used once. -/
structure World.BlocksOwned (world : World) (live : BlockSector → Prop) : Prop where
  nonzero : ∀ sector, live sector → ∀ block ∈ world.inodeBlocks sector, block ≠ 0
  inUse : ∀ sector, live sector → ∀ block ∈ sector :: world.inodeBlocks sector,
    block.toNat < world.limit ∧ world.used block
  once : ∀ sector, live sector → (sector :: world.inodeBlocks sector).Nodup
  apart : ∀ first second, live first → live second → first ≠ second →
    (first :: world.inodeBlocks first).Disjoint (second :: world.inodeBlocks second)

theorem Volume.inodeSectors_eq (volume : Volume own shared nodes world) (present : nodes sector = some data) :
    sector :: world.inodeBlocks sector = inodeSectors world.disk sector data := by
  rw [World.inodeBlocks, volume.inodeData_eq present, inodeSectors]

theorem Node.nodup_inodeSectors {store : BlockSector → Sector} (node : Node own store sector data) :
    (inodeSectors store sector data).Nodup := by
  have owned : ∀ place ∈ inodePlaces (blocksOf data.length),
      own (sectorAt store data place) = some (sector, some place) := fun place member =>
    node.owned place (within_of_mem_inodePlaces member) (node.complete place member)
  refine List.nodup_cons.mpr ⟨fun member => ?_, (inodePlaces_nodup _).map_on fun first inFirst second inSecond same => ?_⟩
  · obtain ⟨place, needed, same⟩ := List.mem_map.mp member
    have mine := owned place needed
    rw [same, node.self] at mine
    cases mine
  · have mine := owned first inFirst
    rw [same, owned second inSecond] at mine
    simpa using mine.symm

/-- The volume divides the sectors among the live inodes. -/
theorem Volume.blocksOwned (volume : Volume own shared nodes world) {live : BlockSector → Prop}
    (present : ∀ sector, live sector → nodes sector ≠ none) : world.BlocksOwned live := by
  have node : ∀ sector, live sector → ∃ data, nodes sector = some data ∧ Node own world.disk sector data := by
    intro sector isLive
    obtain ⟨data, here⟩ := Option.ne_none_iff_exists'.mp (present sector isLive)
    exact ⟨data, here, volume.node sector data here⟩
  constructor
  · intro sector isLive block member
    obtain ⟨data, here, node⟩ := node sector isLive
    rw [World.inodeBlocks, volume.inodeData_eq here] at member
    obtain ⟨place, needed, rfl⟩ := List.mem_map.mp member
    exact node.complete place needed
  · intro sector isLive block member
    obtain ⟨data, here, node⟩ := node sector isLive
    rw [volume.inodeSectors_eq here] at member
    obtain ⟨part, owned⟩ := node.mem_inodeSectors member
    have inUse := volume.sound.used block (by rw [owned]; exact Option.some_ne_none _)
    exact ⟨inUse.2, inUse.1⟩
  · intro sector isLive
    obtain ⟨data, here, node⟩ := node sector isLive
    rw [volume.inodeSectors_eq here]
    exact node.nodup_inodeSectors
  · intro first second firstLive secondLive different block inFirst inSecond
    obtain ⟨data, here, nodeFirst⟩ := node first firstLive
    obtain ⟨other, there, nodeSecond⟩ := node second secondLive
    rw [volume.inodeSectors_eq here] at inFirst
    rw [volume.inodeSectors_eq there] at inSecond
    obtain ⟨_, mine⟩ := nodeFirst.mem_inodeSectors inFirst
    obtain ⟨_, yours⟩ := nodeSecond.mem_inodeSectors inSecond
    rw [mine, Option.some.injEq, Prod.mk.injEq] at yours
    exact different yours.1

/-- The free map file, the root directory and the inodes of the client. -/
def Session.live (session : Session) (sector : BlockSector) : Prop :=
  sector = 0 ∨ sector = 1 ∨ session.handles sector ≠ none

theorem Session.Represents.present (represents : session.Represents files root rootBytes own shared nodes)
    (live : session.live sector) : nodes sector ≠ none := by
  intro absent
  obtain ⟨notZero, notRoot⟩ := represents.ne_of_absent absent
  rcases live with zero | one | held
  · exact notZero zero
  · exact notRoot one
  · exact held (represents.of_absent absent).2

/-- The sectors in use are those of before and those of one inode. -/
structure Accounted (before : BlockSector → Prop) (limit : Nat) (sector : BlockSector) (world : World) : Prop where
  sameLimit : world.limit = limit
  kept : ∀ other, before other → world.used other
  taken : ∀ other : BlockSector, other.toNat < limit → world.used other →
    before other ∨ other ∈ sector :: world.inodeBlocks sector
  self : ¬ before sector
  blocks : ∀ place : Place, place.within → sectorAt world.disk (world.inodeData sector) place ≠ 0 →
    ¬ before (sectorAt world.disk (world.inodeData sector) place)

/-- A new inode accounts for the sectors that were taken. -/
theorem Created.accounted {length : Int} (created : Created own after sector length data world next)
    (live : own.Live nodes world.disk) (absent : nodes sector = none)
    (step : InodeStep shared sector own after nodes (Function.update nodes sector (some data)) world next) :
    Accounted world.used world.limit sector next := by
  have here := step.volume.inodeData_eq (Function.update_self sector (some data) nodes)
  have node := step.volume.node sector data (Function.update_self _ _ _)
  refine ⟨created.limit, created.used, fun other inside used => ?_, created.unused, fun place within there => ?_⟩
  · rw [step.volume.inodeSectors_eq (Function.update_self _ _ _)]
    exact created.taken other inside used
  · rw [here] at there ⊢
    have owned := node.owned place within there
    cases wasOwned : own (sectorAt next.disk data place) with
    | none => exact created.fresh _ _ owned wasOwned
    | some owner =>
        obtain ⟨other, present, _⟩ := live _ _ wasOwned
        have different : owner.1 ≠ sector := by
          intro same
          rw [same, absent] at present
          cases present
        rw [step.kept _ owner.1 owner.2 wasOwned different, Option.some.injEq, Prod.mk.injEq] at owned
        exact absurd owned.1 different

/-- What a call does to an inode during which its blocks are counted: it writes in full, or leaves the free map. -/
inductive Session.Meanwhile (sector : BlockSector) : Session → Session → Prop
  | refl (start : Session) : Meanwhile sector start start
  | write {start middle last : Session} {buffer : Nat → UInt8} {size offset : Int} :
      start.perform (.writeAt sector buffer size offset) = some (.wrote size, middle) →
      Meanwhile sector middle last → Meanwhile sector start last
  | other {start middle last : Session} {call : InodeCall} {reply : InodeReply} :
      start.perform call = some (reply, middle) →
      (call.named = some sector → call = .openInode sector ∨ call = .close sector ∨
        ∃ size offset, call = .readAt sector size offset) →
      middle.world.mem.freeMap = start.world.mem.freeMap →
      Meanwhile sector middle last → Meanwhile sector start last

namespace Accounted

variable {before : BlockSector → Prop} {limit : Nat}

/-- A step that leaves the free map and the tree of the inode. -/
theorem congr (accounted : Accounted before limit sector world) (map : next.mem.freeMap = world.mem.freeMap)
    (blocks : next.inodeBlocks sector = world.inodeBlocks sector)
    (tree : ∀ place : Place, place.within → sectorAt next.disk (next.inodeData sector) place = 0 ∨
      sectorAt next.disk (next.inodeData sector) place = sectorAt world.disk (world.inodeData sector) place) :
    Accounted before limit sector next := by
  have used : ∀ other, next.used other ↔ world.used other := by
    intro other
    rw [World.used, map, World.used]
  refine ⟨?_, fun other isBefore => (used other).mpr (accounted.kept other isBefore), ?_, accounted.self, ?_⟩
  · rw [World.limit, map]
    exact accounted.sameLimit
  · intro other inside isUsed
    rw [blocks]
    exact accounted.taken other inside ((used other).mp isUsed)
  · intro place within present
    rcases tree place within with absent | same
    · exact absurd absent present
    · rw [same] at present ⊢
      exact accounted.blocks place within present

/-- A step on another inode that leaves the free map. -/
theorem other (accounted : Accounted before limit sector world) (volume : Volume own shared nodes world)
    (step : InodeStep shared inode own after nodes nodesAfter world next) (present : nodes sector = some data)
    (different : sector ≠ inode) (map : next.mem.freeMap = world.mem.freeMap) : Accounted before limit sector next := by
  have node := volume.node sector data present
  have same : next.inodeData sector = world.inodeData sector := by
    rw [volume.inodeData_eq present, step.volume.inodeData_eq ((step.others sector different).trans present)]
  have tree : ∀ place : Place, place.within →
      sectorAt next.disk (world.inodeData sector) place = sectorAt world.disk (world.inodeData sector) place := by
    intro place within
    rw [volume.inodeData_eq present]
    exact step.touches.sectorAt_eq volume.sound volume.freeMap different node.owned within
  refine accounted.congr map ?_ fun place within => .inr (by rw [same, tree place within])
  rw [World.inodeBlocks, same]
  exact List.map_congr_left fun place member => tree place (within_of_mem_inodePlaces member)

/-- A write that stores all its bytes. -/
theorem write (accounted : Accounted before limit sector world) (volume : Volume own shared nodes world)
    (live : own.Live nodes world.disk) (present : nodes sector = some data)
    (step : InodeStep shared sector own after nodes (Function.update nodes sector (some dataAfter)) world next)
    {buffer : Nat → UInt8} {size offset : Nat} (stores : Stores own after sector data dataAfter buffer size offset world next) :
    Accounted before limit sector next := by
  have node := volume.node sector data present
  have presentAfter : Function.update nodes sector (some dataAfter) sector = some dataAfter := Function.update_self _ _ _
  have nodeAfter := step.volume.node sector dataAfter presentAfter
  have exact := live.exact present
  have dataEq := volume.inodeData_eq present
  have dataAfterEq := step.volume.inodeData_eq presentAfter
  refine ⟨stores.limit.trans accounted.sameLimit, fun other isBefore => stores.used other (accounted.kept other isBefore), ?_,
    accounted.self, ?_⟩
  · intro other inside used
    rcases (stores.exact exact).2 other (by rw [accounted.sameLimit]; exact inside) used with wasUsed | ⟨place, member, same⟩
    · refine (accounted.taken other inside wasUsed).imp id fun member => ?_
      rw [World.inodeBlocks, dataEq] at member
      rw [World.inodeBlocks, dataAfterEq]
      rcases List.mem_cons.mp member with rfl | member
      · exact List.mem_cons_self
      · obtain ⟨place, needed, rfl⟩ := List.mem_map.mp member
        have grows : blocksOf data.length ≤ blocksOf dataAfter.length := by
          have length := stores.length
          unfold blocksOf
          omega
        exact List.mem_cons_of_mem _ (List.mem_map.mpr ⟨place, inodePlaces_mono grows needed,
          stores.tree place (within_of_mem_inodePlaces needed) (node.complete place needed)⟩)
    · rw [World.inodeBlocks, dataAfterEq]
      exact .inr (List.mem_cons_of_mem _ (List.mem_map.mpr ⟨place, member, same.symm⟩))
  · intro place within there
    rw [dataAfterEq] at there ⊢
    have owned := nodeAfter.owned place within there
    cases wasOwned : own (sectorAt next.disk dataAfter place) with
    | none => exact fun isBefore => stores.fresh _ _ owned wasOwned (accounted.kept _ isBefore)
    | some owner =>
        obtain ⟨number, part⟩ := owner
        obtain rfl : number = sector := by
          by_contra different
          rw [step.kept _ _ _ wasOwned different, Option.some.injEq, Prod.mk.injEq] at owned
          exact different owned.1
        cases part with
        | none =>
            rw [volume.sound.self _ _ wasOwned] at accounted
            exact accounted.self
        | some part =>
            obtain ⟨inTree, same⟩ := exact _ part wasOwned
            have nonzero : sectorAt world.disk data part ≠ 0 := by
              rw [same]
              exact there
            rw [← same, ← dataEq]
            exact accounted.blocks part inTree (by rwa [dataEq])

/-- The removal of the inode gives back what was taken. -/
theorem removed (accounted : Accounted before limit sector world) (volume : Volume own shared nodes world)
    (present : nodes sector = some data) {sectors : List BlockSector}
    (perm : sectors.Perm (inodeSectors world.disk sector data)) (used : ∀ other, next.used other ↔
      world.used other ∧ other ∉ sectors) {other : BlockSector} (inside : other.toNat < limit) :
    next.used other ↔ before other := by
  have node := volume.node sector data present
  rw [used, perm.mem_iff, ← volume.inodeSectors_eq present]
  constructor
  · rintro ⟨isUsed, absent⟩
    exact (accounted.taken other inside isUsed).resolve_right absent
  · intro isBefore
    refine ⟨accounted.kept other isBefore, fun member => ?_⟩
    rcases List.mem_cons.mp member with rfl | member
    · exact accounted.self isBefore
    · obtain ⟨place, needed, rfl⟩ := List.mem_map.mp member
      rw [volume.inodeData_eq present] at needed
      refine accounted.blocks place (within_of_mem_inodePlaces needed) ?_ isBefore
      rw [volume.inodeData_eq present]
      exact node.complete place needed

end Accounted

section Handles

variable {middle : Session} {call : InodeCall} {reply : InodeReply}

theorem Session.setHandle_held (held : session.handles sector ≠ none) (number : BlockSector) (handle : Option Pointer)
    (world : World) : (session.setHandle number (some handle) world).handles sector ≠ none := by
  rw [setHandle_handles, Function.update_apply]
  split
  · exact Option.some_ne_none _
  · exact held

theorem Session.onHandle_held (held : session.handles sector ≠ none) {number : BlockSector} {valid : Bool}
    {use : Pointer → Option (InodeReply × Session)} (performed : session.onHandle number valid use = some (reply, middle))
    (used : ∀ pointer, use pointer = some (reply, middle) → middle.handles sector ≠ none) :
    middle.handles sector ≠ none := by
  unfold onHandle at performed
  split at performed
  · split_ifs at performed
    · exact used _ performed
    · rw [Option.some.injEq, Prod.mk.injEq] at performed
      rwa [← performed.2]
  · rw [Option.some.injEq, Prod.mk.injEq] at performed
    rwa [← performed.2]

/-- The client keeps an inode that it does not remove. -/
theorem Session.perform_held (held : session.handles sector ≠ none)
    (performed : session.perform call = some (reply, middle)) (kept : call ≠ .remove sector) :
    middle.handles sector ≠ none := by
  cases call with
  | create length =>
      rw [perform] at performed
      split_ifs at performed
      · obtain ⟨⟨created, next⟩, _, same⟩ := Option.map_eq_some_iff.mp performed
        cases created with
        | none =>
            rw [← (Prod.mk.inj same).2]
            exact held
        | some number =>
            rw [← (Prod.mk.inj same).2]
            exact setHandle_held held _ _ _
      · rw [Option.some.injEq, Prod.mk.injEq] at performed
        rwa [← performed.2]
  | openInode number =>
      rw [perform] at performed
      split_ifs at performed
      · obtain ⟨result, _, same⟩ := Option.map_eq_some_iff.mp performed
        rw [← (Prod.mk.inj same).2]
        exact setHandle_held held _ _ _
      · rw [Option.some.injEq, Prod.mk.injEq] at performed
        rwa [← performed.2]
  | readAt number size offset =>
      refine onHandle_held held performed fun pointer ran => ?_
      obtain ⟨result, _, same⟩ := Option.map_eq_some_iff.mp ran
      rw [← (Prod.mk.inj same).2]
      exact held
  | writeAt number buffer size offset =>
      refine onHandle_held held performed fun pointer ran => ?_
      obtain ⟨result, _, same⟩ := Option.map_eq_some_iff.mp ran
      rw [← (Prod.mk.inj same).2]
      exact held
  | close number =>
      refine onHandle_held held performed fun pointer ran => ?_
      obtain ⟨result, _, same⟩ := Option.map_eq_some_iff.mp ran
      rw [← (Prod.mk.inj same).2]
      exact setHandle_held held _ _ _
  | remove number =>
      refine onHandle_held held performed fun pointer ran => ?_
      obtain ⟨result, _, same⟩ := Option.map_eq_some_iff.mp ran
      have different : sector ≠ number := fun equal => kept (by rw [equal])
      rw [← (Prod.mk.inj same).2, setHandle_handles, Function.update_of_ne different]
      exact held

end Handles

namespace Session.Represents

variable {before : BlockSector → Prop} {limit : Nat} {middle last : Session} {reply : InodeReply}

theorem accounted_openInode (represents : session.Represents files root rootBytes own shared nodes)
    (performed : session.perform (.openInode sector) = some (reply, middle))
    (accounted : Accounted before limit sector session.world) : Accounted before limit sector middle.world := by
  by_cases valid : session.handles sector = some none
  · obtain ⟨_, _, data, here, _, _, _, closed⟩ := represents.of_handle valid
    obtain ⟨ran, _, volume⟩ := represents.volume.inodeOpen_closed here closed
    simp only [Session.perform, if_pos valid, ran, Option.map_some, Option.some.injEq, Prod.mk.injEq] at performed
    rw [← performed.2]
    have same := (volume.inodeData_eq here).trans (represents.volume.inodeData_eq here).symm
    refine accounted.congr rfl ?_ fun _ _ => .inr (congrArg (sectorAt session.world.disk · _) same)
    exact congrArg (fun data => (inodePlaces (blocksOf data.length)).map (sectorAt session.world.disk data)) same
  · simp only [Session.perform, if_neg valid, Option.some.injEq, Prod.mk.injEq] at performed
    rwa [← performed.2]

theorem accounted_close (represents : session.Represents files root rootBytes own shared nodes)
    (performed : session.perform (.close sector) = some (reply, middle))
    (accounted : Accounted before limit sector session.world) : Accounted before limit sector middle.world := by
  rcases represents.refused (.close sector) sector true (fun allowed => ⟨allowed, rfl⟩) with
    ⟨pointer, held, _, ran⟩ | ⟨_, ran⟩
  · obtain ⟨notZero, _⟩ := represents.ne_of_handle held
    obtain ⟨data, _, _, here, _, _, opened⟩ := represents.of_open held
    obtain ⟨closes, volume⟩ := represents.volume.inodeClose opened notZero
    rw [Session.perform, ran, closes, Option.map_some, Option.some.injEq, Prod.mk.injEq] at performed
    rw [← performed.2]
    have node := represents.volume.node sector data here
    have stored := node.stored notZero
    have same := represents.volume.inodeData_eq here
    have reloaded := volume.inodeData_eq (Function.update_self sector _ nodes)
    refine accounted.congr rfl ?_ fun place _ => ?_
    · rw [World.inodeBlocks, World.inodeBlocks, same]
      rw [setHandle, reloaded, stored.length]
      exact List.map_congr_left fun place needed => stored.needed needed
    · rw [same]
      change sectorAt session.world.disk ((_ : World).inodeData sector) place = 0 ∨
        sectorAt session.world.disk ((_ : World).inodeData sector) place = _
      rw [setHandle, reloaded]
      exact stored.sectorAt place
  · rw [Session.perform, ran, Option.some.injEq, Prod.mk.injEq] at performed
    rwa [← performed.2]

theorem accounted_readAt (represents : session.Represents files root rootBytes own shared nodes) {size offset : Int}
    (performed : session.perform (.readAt sector size offset) = some (reply, middle))
    (accounted : Accounted before limit sector session.world) : Accounted before limit sector middle.world := by
  rcases represents.refused (.readAt sector size offset) sector
    (isOffset size && isOffset offset && 0 ≤ offset) (fun allowed => ⟨allowed.1, by
    simp [allowed.2.1, allowed.2.2.1, allowed.2.2.2]⟩) with ⟨pointer, held, valid, ran⟩ | ⟨_, ran⟩
  · obtain ⟨data, _, _, _, _, _, opened⟩ := represents.of_open held
    simp only [isOffset, Bool.and_eq_true, decide_eq_true_eq] at valid
    have read := represents.volume.inodeReadAt opened size (by omega : offset.toNat < 2147483648)
    rw [show ((offset.toNat : Nat) : Int) = offset from by omega] at read
    rw [Session.perform, ran, read, Option.map_some, Option.some.injEq, Prod.mk.injEq] at performed
    rwa [← performed.2]
  · rw [Session.perform, ran, Option.some.injEq, Prod.mk.injEq] at performed
    rwa [← performed.2]

theorem accounted_writeAt (represents : session.Represents files root rootBytes own shared nodes)
    {buffer : Nat → UInt8} {size offset : Int}
    (performed : session.perform (.writeAt sector buffer size offset) = some (.wrote size, middle))
    (accounted : Accounted before limit sector session.world) : Accounted before limit sector middle.world := by
  cases held : session.handles sector with
  | none =>
      rw [Session.perform, onHandle, held] at performed
      cases performed
  | some handle =>
      cases handle with
      | none =>
          rw [Session.perform, onHandle, held] at performed
          cases performed
      | some pointer =>
          rw [Session.perform, onHandle, held] at performed
          dsimp only at performed
          split_ifs at performed with valid
          · obtain ⟨notZero, _⟩ := represents.ne_of_handle held
            obtain ⟨data, dataAfter, next, after, opened, _, _, step, result⟩ :=
              represents.writeAt_run held notZero buffer valid
            simp only [isOffset, Bool.and_eq_true, decide_eq_true_eq] at valid
            rcases result with ⟨wrote, stores⟩ | ⟨wrote, _⟩
            · rw [wrote, Option.map_some, Option.some.injEq, Prod.mk.injEq] at performed
              rw [← performed.2]
              exact accounted.write represents.volume represents.live (represents.volume.table.node opened) step stores
            · rw [wrote, Option.map_some, Option.some.injEq, Prod.mk.injEq, InodeReply.wrote.injEq] at performed
              omega
          · cases performed

/-- A call that leaves the free map. -/
theorem accounted_other (represents : session.Represents files root rootBytes own shared nodes) {call : InodeCall}
    (performed : session.perform call = some (reply, middle))
    (harmless : call.named = some sector → call = .openInode sector ∨ call = .close sector ∨
      ∃ size offset, call = .readAt sector size offset)
    (map : middle.world.mem.freeMap = session.world.mem.freeMap) (present : nodes sector ≠ none)
    (accounted : Accounted before limit sector session.world) : Accounted before limit sector middle.world := by
  by_cases named : call.named = some sector
  · rcases harmless named with rfl | rfl | ⟨size, offset, rfl⟩
    · exact represents.accounted_openInode performed accounted
    · exact represents.accounted_close performed accounted
    · exact represents.accounted_readAt performed accounted
  · obtain ⟨data, here⟩ := Option.ne_none_iff_exists'.mp present
    obtain ⟨_, _, _, _, _, number, _, ran, _, _, step, which⟩ := represents.perform call
    rw [performed, Option.some.injEq, Prod.mk.injEq] at ran
    obtain ⟨_, rfl⟩ := ran
    refine accounted.other represents.volume step here ?_ map
    rintro rfl
    exact which.elim present named

/-- The sectors of an inode are counted while it is written. -/
theorem accounted_meanwhile (meanwhile : Session.Meanwhile sector session last) :
    ∀ {files own nodes}, session.Represents files root rootBytes own shared nodes → session.handles sector ≠ none →
      Accounted before limit sector session.world → ∃ files' own' nodes',
        last.Represents files' root rootBytes own' shared nodes' ∧ Accounted before limit sector last.world := by
  induction meanwhile with
  | refl start =>
      intro files own nodes represents _ accounted
      exact ⟨files, own, nodes, represents, accounted⟩
  | write performed _ ih =>
      intro files own nodes represents held accounted
      obtain ⟨_, _, _, _, _, _, _, ran, _, represents', _⟩ := represents.perform (.writeAt sector _ _ _)
      rw [performed, Option.some.injEq, Prod.mk.injEq] at ran
      obtain ⟨_, rfl⟩ := ran
      exact ih represents' (Session.perform_held held performed (by simp)) (represents.accounted_writeAt performed accounted)
  | @other start middle last call reply performed harmless map _ ih =>
      intro files own nodes represents held accounted
      have kept : call ≠ .remove sector := by
        rintro rfl
        rcases harmless rfl with impossible | impossible | ⟨_, _, impossible⟩ <;> cases impossible
      obtain ⟨_, _, _, _, _, _, _, ran, _, represents', _⟩ := represents.perform call
      rw [performed, Option.some.injEq, Prod.mk.injEq] at ran
      obtain ⟨_, rfl⟩ := ran
      have present : nodes sector ≠ none := represents.present (.inr (.inr held))
      exact ih represents' (Session.perform_held held performed kept)
        (represents.accounted_other performed harmless map present accounted)

/-- A new inode accounts for the sectors that were taken. -/
theorem accounted_create (represents : session.Represents files root rootBytes own shared nodes) {length : Int}
    (performed : session.perform (.create length) = some (.created (some sector), middle)) :
    Accounted session.world.used session.world.limit sector middle.world ∧ middle.handles sector ≠ none := by
  rw [Session.perform] at performed
  split_ifs at performed with valid
  · have high : length < 2147483648 := by
      simp [isOffset] at valid
      exact valid.2
    rcases represents.volume.createInode represents.live high with
      ⟨_, next, _, ran, _⟩ | ⟨number, data, next, after, ran, absent, _, step, created⟩
    · rw [ran, Option.map_some, Option.some.injEq, Prod.mk.injEq] at performed
      cases performed.1
    · simp only [ran, Option.map_some, Option.some.injEq, Prod.mk.injEq, InodeReply.created.injEq] at performed
      obtain ⟨rfl, rfl⟩ := performed
      refine ⟨created.accounted represents.live absent step, ?_⟩
      rw [Session.setHandle_handles, Function.update_self]
      exact Option.some_ne_none _
  · cases performed

end Session.Represents

section Format

variable {deviceSize : UInt32} {garbage : Nat → UInt8} {disk : BlockSector → Sector}

/-- What holds after the calls of a client on a freshly formatted device. -/
theorem performAll_represents (fits : FormatFits deviceSize)
    (formatted : run (filesysInit true) ⟨.boot deviceSize garbage, disk⟩ = some ((), world)) {calls : List InodeCall}
    {replies : List InodeReply} (performed : (Session.start world).performAll calls = some (replies, session)) :
    ∃ files root rootBytes own shared nodes, session.Represents files root rootBytes own shared nodes := by
  obtain ⟨start, own, shared, nodes, ran, fresh⟩ := filesysInit_format garbage disk fits
  rw [formatted, Option.some.injEq, Prod.mk.injEq] at ran
  obtain rfl := ran.2
  obtain ⟨root, represents⟩ := fresh.represents
  obtain ⟨_, last, files, own', nodes', again, _, final⟩ := Session.Represents.performAll calls represents
  rw [performed, Option.some.injEq, Prod.mk.injEq] at again
  obtain rfl := again.2
  exact ⟨files, root, _, own', shared, nodes', final⟩

/-- In every state that calls of the inode layer reach from a format, whether they succeed or not, the sectors of the
live inodes are in use, in range, and none is used twice. -/
theorem inodeCalls_blocksOwned (fits : FormatFits deviceSize)
    (formatted : run (filesysInit true) ⟨.boot deviceSize garbage, disk⟩ = some ((), world)) {calls : List InodeCall}
    {replies : List InodeReply} (performed : (Session.start world).performAll calls = some (replies, session)) :
    session.world.BlocksOwned session.live := by
  obtain ⟨files, root, rootBytes, own, shared, nodes, represents⟩ := performAll_represents fits formatted performed
  exact represents.volume.blocksOwned fun _ live => represents.present live

theorem inodeCalls_blocksOwned_small : ∃ world replies session,
    run (filesysInit true) ⟨.boot 300 fun _ => 0, fun _ => zeros⟩ = some ((), world) ∧
      (Session.start world).performAll [.create 600, .create 600000] = some (replies, session) ∧
      session.world.BlocksOwned session.live := by
  obtain ⟨world, own, shared, nodes, formatted, fresh⟩ :=
    filesysInit_format (fun _ => 0) (fun _ => zeros) formatFits_small
  obtain ⟨root, represents⟩ := fresh.represents
  obtain ⟨replies, session, _, _, _, performed, _⟩ := represents.performAll [.create 600, .create 600000]
  exact ⟨world, replies, session, formatted, performed, inodeCalls_blocksOwned formatFits_small formatted performed⟩

/-- After any calls of the inode layer on a freshly formatted device: the removal of an inode, with the close of its
object, makes the free map as it was before the inode was created, whatever was written to it in between. -/
theorem remove_restores_freeMap (fits : FormatFits deviceSize)
    (formatted : run (filesysInit true) ⟨.boot deviceSize garbage, disk⟩ = some ((), world)) {calls : List InodeCall}
    {replies : List InodeReply} (performed : (Session.start world).performAll calls = some (replies, session))
    {length : Int} {created last : Session}
    (creates : session.perform (.create length) = some (.created (some sector), created))
    (meanwhile : Session.Meanwhile sector created last) (opened : last.handles sector = some (some pointer)) :
    ∃ final, last.perform (.remove sector) = some (.removed, final) ∧ final.world.limit = session.world.limit ∧
      ∀ index < session.world.limit, final.world.mem.freeMap.bits index = session.world.mem.freeMap.bits index := by
  obtain ⟨files, root, rootBytes, own, shared, nodes, represents⟩ := performAll_represents fits formatted performed
  obtain ⟨accounted, held⟩ := represents.accounted_create creates
  obtain ⟨_, _, _, _, _, _, _, ran, _, representsCreated, _⟩ := represents.perform (.create length)
  rw [creates, Option.some.injEq, Prod.mk.injEq] at ran
  obtain ⟨_, rfl⟩ := ran
  obtain ⟨_, _, nodesLast, representsLast, accountedLast⟩ :=
    Session.Represents.accounted_meanwhile meanwhile representsCreated held accounted
  obtain ⟨notZero, _⟩ := representsLast.ne_of_handle opened
  obtain ⟨data, _, _, here, _, _, object⟩ := representsLast.of_open opened
  obtain ⟨next, sectors, removes, _, _, perm, limit, used, _⟩ := representsLast.volume.inodeRemove object notZero
  refine ⟨last.setHandle sector none next, ?_, limit.trans accountedLast.sameLimit, fun index inside => ?_⟩
  · rw [Session.perform, Session.onHandle, opened]
    dsimp only
    rw [if_pos rfl, removes]
    rfl
  · have small := represents.volume.sound.small
    have back : (UInt32.ofNat index).toNat = index := by
      rw [UInt32.toNat_ofNat', Nat.mod_eq_of_lt]
      exact Nat.lt_trans inside small
    have same := accountedLast.removed representsLast.volume here perm used (by rwa [back])
    rw [World.used, World.used, back] at same
    exact Bool.eq_iff_iff.mpr same

theorem remove_restores_freeMap_small : ∃ world sector created opened written final,
    run (filesysInit true) ⟨.boot 300 fun _ => 0, fun _ => zeros⟩ = some ((), world) ∧
      (Session.start world).perform (.create 600) = some (.created (some sector), created) ∧
      created.perform (.openInode sector) = some (.opened, opened) ∧
      opened.perform (.writeAt sector (fun _ => 7) 3 100) = some (.wrote 3, written) ∧
      written.perform (.remove sector) = some (.removed, final) ∧ final.world.limit = world.limit ∧
      ∀ index < world.limit, final.world.mem.freeMap.bits index = world.mem.freeMap.bits index := by
  obtain ⟨world, _, _, _, _, _, _, sector, created, opened, written, formatted, creates, opens, map, writes, represents,
    present⟩ := write_small
  have noCalls : (Session.start world).performAll [] = some ([], Session.start world) := rfl
  have meanwhile : Session.Meanwhile sector created written :=
    .other opens (fun _ => .inl rfl) map (.write writes (.refl written))
  obtain ⟨pointer, held⟩ := represents.open_iff.mp ⟨_, present⟩
  obtain ⟨final, removes, limit, bits⟩ :=
    remove_restores_freeMap formatFits_small formatted noCalls creates meanwhile held
  exact ⟨world, sector, created, opened, written, final, formatted, creates, opens, writes, removes, limit, bits⟩

end Format

end MockOS.Fs
