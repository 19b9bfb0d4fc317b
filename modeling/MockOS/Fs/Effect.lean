import MockOS.Fs.Allocation

namespace MockOS.Fs

/-- The places at and under a node. -/
def Below (node place : Place) : Prop := place.1 = node.1 ∧ node.2 <+: place.2

/-- What an extension of an inode does to the state. The list holds one flag for each missing block in the order of
the allocations, set for an index block. -/
structure Effect (shared : BlockSector → Prop) (inode : BlockSector) (mine : Place → Prop) (own after : Owners)
    (demand : List Bool) (world next : World) (success : Bool) : Prop where
  outcome : success = decide (demand.length ≤ world.free)
  free : next.free = world.free - demand.length
  limit : next.limit = world.limit
  mem : next.mem = { world.mem with
    freeMap := next.mem.freeMap, allocationFailures := next.mem.allocationFailures }
  failures : if success then next.mem.allocationFailures = world.mem.allocationFailures
    else world.mem.allocationFailures < next.mem.allocationFailures
  used : ∀ sector, world.used sector → next.used sector
  kept : ∀ sector owner, own sector = some owner → after sector = some owner
  fresh : ∀ sector owner, after sector = some owner → own sector = none →
    (∃ place, mine place ∧ owner = (inode, some place)) ∧ ¬ world.used sector ∧ next.used sector ∧
      sector.toNat < world.limit
  frame : ∀ sector, next.disk sector ≠ world.disk sector → shared sector ∨
    (¬ world.used sector ∧ next.used sector) ∨
    (∃ place, own sector = some (inode, some place) ∧ mine place ∧ ¬ place.isLeaf) ∨
    (sector = 0 ∧ demand[world.free]? = some true)
  cleared : demand[world.free]? = some true → next.disk 0 = zeros
  ready : Ready after shared next

variable {shared : BlockSector → Prop} {inode : BlockSector} {mine : Place → Prop} {own after : Owners}
  {world next : World} {demand : List Bool} {success : Bool}

theorem Ready.apart (ready : Ready own shared world) (mode : world.mem.freeMapFile = none ∨ inode ≠ 0)
    {sector : BlockSector} (inFile : shared sector) (place : Place) : own sector ≠ some (inode, some place) := by
  rcases ready with ⟨_, noShared⟩ | ⟨pointer, file, freeMapInode, opened, _⟩
  · exact absurd inFile (noShared sector)
  · obtain ⟨block, _, owned⟩ := opened.shared_owned inFile
    rw [owned]
    rcases mode with closed | other
    · rw [opened.opened] at closed
      cases closed
    · simp [other.symm]

/-- The free map file does not see a write to another sector. -/
theorem Ready.write (ready : Ready own shared world) {sector : BlockSector}
    (foreign : ∀ place, own sector ≠ some (0, some place)) (block : Sector) :
    Ready own shared (world.write sector block) := by
  rcases ready with closed | ⟨pointer, file, freeMapInode, opened, copy⟩
  · exact .inl closed
  · have other : ∀ place : Place, place.within → sectorAt world.disk freeMapInode.data place ≠ 0 →
        (world.write sector block).disk (sectorAt world.disk freeMapInode.data place) =
          world.disk (sectorAt world.disk freeMapInode.data place) := by
      intro place within present
      apply World.write_other
      intro same
      exact foreign place (same ▸ opened.owned place within present)
    have sameTree : ∀ place : Place, place.within →
        sectorAt (world.write sector block).disk freeMapInode.data place =
          sectorAt world.disk freeMapInode.data place := fun place within =>
      sectorAt_congr (fun inner innerWithin _ present => other inner innerWithin present) within
    refine .inr ⟨pointer, file, freeMapInode, opened.congr rfl rfl rfl rfl (fun _ _ same => same) sameTree, ?_⟩
    intro index inside
    have inFile : index / 8 < Bitmap.byteCnt world.limit := byteCnt_of_bit inside
    have fits := opened.small
    have length := opened.length
    have present := opened.complete.block (by unfold blocksOf; omega :
      index / 8 / 512 < blocksOf freeMapInode.data.length) (by omega)
    rw [byteAt, sameTree _ (blockPlace_within _), other _ (blockPlace_within _) present]
    exact copy index inside

theorem Ready.failed (ready : Ready own shared world) : Ready own shared world.failed := by
  rcases ready with closed | ⟨pointer, file, freeMapInode, opened, copy⟩
  · exact .inl closed
  · exact .inr ⟨pointer, file, freeMapInode, opened.congr rfl rfl rfl rfl (fun _ _ same => same) fun _ _ => rfl, copy⟩

theorem Ready.extend (ready : Ready own shared world)
    (kept : ∀ sector owner, own sector = some owner → after sector = some owner) : Ready after shared world := by
  rcases ready with closed | ⟨pointer, file, freeMapInode, opened, copy⟩
  · exact .inl closed
  · exact .inr ⟨pointer, file, freeMapInode, opened.congr rfl rfl rfl rfl (fun _ _ => kept _ _) fun _ _ => rfl, copy⟩

namespace Effect

theorem refl (ready : Ready own shared world) : Effect shared inode mine own own [] world world true where
  outcome := by simp
  free := rfl
  limit := rfl
  mem := rfl
  failures := rfl
  used _ used := used
  kept _ _ same := same
  fresh sector owner present absent := by
    rw [present] at absent
    cases absent
  frame _ changed := absurd rfl changed
  cleared none := by simp at none
  ready := ready

theorem mono {wider : Place → Prop} (effect : Effect shared inode mine own after demand world next success)
    (subset : ∀ place, mine place → wider place) : Effect shared inode wider own after demand world next success where
  outcome := effect.outcome
  free := effect.free
  limit := effect.limit
  mem := effect.mem
  failures := effect.failures
  used := effect.used
  kept := effect.kept
  fresh sector owner present absent := by
    obtain ⟨⟨place, isMine, named⟩, rest⟩ := effect.fresh sector owner present absent
    exact ⟨⟨place, subset place isMine, named⟩, rest⟩
  frame sector changed := by
    rcases effect.frame sector changed with inFile | newlyUsed | ⟨place, owned, isMine, isIndex⟩ | zero
    · exact .inl inFile
    · exact .inr (.inl newlyUsed)
    · exact .inr (.inr (.inl ⟨place, owned, subset place isMine, isIndex⟩))
    · exact .inr (.inr (.inr zero))
  cleared := effect.cleared
  ready := effect.ready

theorem sound (effect : Effect shared inode mine own after demand world next success) (sound : own.Sound world) :
    after.Sound next where
  used sector owned := by
    rw [effect.limit]
    cases before : own sector with
    | some owner =>
        obtain ⟨used, inside⟩ := sound.used sector (by simp [before])
        exact ⟨effect.used sector used, inside⟩
    | none =>
        obtain ⟨owner, present⟩ := Option.ne_none_iff_exists'.mp owned
        obtain ⟨_, _, used, inside⟩ := effect.fresh sector owner present before
        exact ⟨used, inside⟩
  zero number place present := by
    cases before : own 0 with
    | some owner =>
        rw [effect.kept 0 owner before] at present
        exact sound.zero number place (before.trans present)
    | none => exact (effect.fresh 0 _ present before).2.1 sound.reserved
  self sector number present := by
    cases before : own sector with
    | some owner =>
        rw [effect.kept sector owner before] at present
        exact sound.self sector number (before.trans present)
    | none =>
        obtain ⟨⟨place, _, impossible⟩, _⟩ := effect.fresh sector _ present before
        cases impossible
  reserved := effect.used 0 sound.reserved
  small := effect.limit ▸ sound.small

theorem freeMapFile (effect : Effect shared inode mine own after demand world next success) :
    next.mem.freeMapFile = world.mem.freeMapFile := by rw [effect.mem]

/-- A block that the extension may not rewrite keeps its contents. -/
theorem unchanged (effect : Effect shared inode mine own after demand world next success) (sound : own.Sound world)
    {sector number : BlockSector} {place : Place} (owned : own sector = some (number, some place))
    (notShared : ¬ shared sector) (notIndex : number = inode → ¬ (mine place ∧ ¬ place.isLeaf)) :
    next.disk sector = world.disk sector := by
  by_contra changed
  rcases effect.frame sector changed with inFile | newlyUsed | ⟨other, same, isMine, isIndex⟩ | ⟨zero, _⟩
  · exact notShared inFile
  · exact newlyUsed.1 (sound.used sector (by simp [owned])).1
  · rw [owned] at same
    obtain ⟨rfl, rfl⟩ : number = inode ∧ place = other := by simpa using same
    exact notIndex rfl ⟨isMine, isIndex⟩
  · exact sound.zero number place (zero ▸ owned)

/-- Two steps in a row. -/
theorem trans {middle final : World} {between last : Owners} {second : List Bool}
    (first : Effect shared inode mine own between demand world middle true)
    (later : Effect shared inode mine between last second middle final success) :
    Effect shared inode mine own last (demand ++ second) world final success where
  outcome := by
    have enough : demand.length ≤ world.free := of_decide_eq_true first.outcome.symm
    rw [later.outcome, first.free, List.length_append]
    apply decide_eq_decide.mpr
    omega
  free := by rw [later.free, first.free, List.length_append, Nat.sub_sub]
  limit := later.limit.trans first.limit
  mem := by
    rw [later.mem, first.mem]
  failures := by
    have same : middle.mem.allocationFailures = world.mem.allocationFailures := first.failures
    rw [← same]
    exact later.failures
  used sector used := later.used sector (first.used sector used)
  kept sector owner same := later.kept sector owner (first.kept sector owner same)
  fresh sector owner present absent := by
    cases between_eq : between sector with
    | some other =>
        have same := later.kept sector other between_eq
        rw [present] at same
        obtain ⟨named, unused, used, inside⟩ := first.fresh sector owner (between_eq.trans same.symm) absent
        exact ⟨named, unused, later.used sector used, inside⟩
    | none =>
        obtain ⟨named, unused, used, inside⟩ := later.fresh sector owner present between_eq
        exact ⟨named, fun before => unused (first.used sector before), used, first.limit ▸ inside⟩
  frame sector changed := by
    have enough : demand.length ≤ world.free := of_decide_eq_true first.outcome.symm
    by_cases same : middle.disk sector = world.disk sector
    · rcases later.frame sector (same ▸ changed) with inFile | newlyUsed | ⟨place, owned, isMine, isIndex⟩ | zero
      · exact .inl inFile
      · exact .inr (.inl ⟨fun before => newlyUsed.1 (first.used sector before), newlyUsed.2⟩)
      · cases before : own sector with
        | some owner =>
            rw [first.kept sector owner before] at owned
            exact .inr (.inr (.inl ⟨place, owned, isMine, isIndex⟩))
        | none =>
            obtain ⟨_, unused, used, _⟩ := first.fresh sector _ owned before
            exact .inr (.inl ⟨unused, later.used sector used⟩)
      · refine .inr (.inr (.inr ⟨zero.1, ?_⟩))
        rw [List.getElem?_append_right enough, ← first.free]
        exact zero.2
    · rcases first.frame sector same with inFile | newlyUsed | owned | ⟨_, zero⟩
      · exact .inl inFile
      · exact .inr (.inl ⟨newlyUsed.1, later.used sector newlyUsed.2⟩)
      · exact .inr (.inr (.inl owned))
      · rw [List.getElem?_eq_none enough] at zero
        cases zero
  cleared index := by
    have enough : demand.length ≤ world.free := of_decide_eq_true first.outcome.symm
    rw [List.getElem?_append_right enough, ← first.free] at index
    exact later.cleared index
  ready := later.ready

/-- After a failure the rest is not tried. -/
theorem stop {rest : List Bool} (effect : Effect shared inode mine own after demand world next false) :
    Effect shared inode mine own after (demand ++ rest) world next false where
  outcome := by
    have short := of_decide_eq_false effect.outcome.symm
    rw [List.length_append]
    exact (decide_eq_false (by omega)).symm
  free := by
    have short := of_decide_eq_false effect.outcome.symm
    rw [effect.free, List.length_append]
    omega
  limit := effect.limit
  mem := effect.mem
  failures := effect.failures
  used := effect.used
  kept := effect.kept
  fresh := effect.fresh
  frame sector changed := by
    have short := of_decide_eq_false effect.outcome.symm
    rw [List.getElem?_append_left (by omega)]
    exact effect.frame sector changed
  cleared index := by
    have short := of_decide_eq_false effect.outcome.symm
    rw [List.getElem?_append_left (by omega)] at index
    exact effect.cleared index
  ready := effect.ready

/-- An index block of the inode is rewritten. -/
theorem rewrite (ready : Ready own shared world) (mode : world.mem.freeMapFile = none ∨ inode ≠ 0)
    {sector : BlockSector} {place : Place} (owned : own sector = some (inode, some place)) (isMine : mine place)
    (isIndex : ¬ place.isLeaf) (block : Sector) :
    Effect shared inode mine own own [] world (world.write sector block) true where
  outcome := by simp
  free := rfl
  limit := rfl
  mem := rfl
  failures := rfl
  used _ used := used
  kept _ _ same := same
  fresh other owner present absent := by
    rw [present] at absent
    cases absent
  frame other changed := by
    by_cases same : other = sector
    · exact .inr (.inr (.inl ⟨place, same ▸ owned, isMine, isIndex⟩))
    · exact absurd (World.write_other _ _ same) changed
  cleared none := by simp at none
  ready := by
    rcases ready with ⟨closed, noShared⟩ | opened
    · exact .inl ⟨closed, noShared⟩
    · apply Ready.write (.inr opened)
      intro other foreign
      obtain ⟨pointer, file, freeMapInode, opened, _⟩ := opened
      rw [owned] at foreign
      rcases mode with closed | nonzero
      · rw [opened.opened] at closed
        cases closed
      · exact nonzero (by simpa using congrArg (Option.map Prod.fst) foreign)

/-- A missing block is allocated and cleared. -/
theorem take (inode : BlockSector) (depth : Nat) (sound : own.Sound world) (ready : Ready own shared world) (room : world.free ≠ 0)
    {place : Place} (isMine : mine place) (index : Bool) :
    ∃ sector middle, run (freeMapAllocateBy (inodeWriteAtWithin (depth + 1)) 1) world =
        some (some sector, middle) ∧ sector ≠ 0 ∧
      Effect shared inode mine own (Function.update own sector (some (inode, some place))) [index] world
        (middle.write sector zeros) true := by
  obtain ⟨sector, disk, ran, unused, inside, frame, readyAfter⟩ := freeMapAllocateBy_spec sound ready room depth
  have nonzero : sector ≠ 0 := by
    rintro rfl
    exact unused sound.reserved
  have unowned : own sector = none := by
    by_contra owned
    exact unused (sound.used sector owned).1
  have usedAfter : (world.mark sector true).used sector := by
    rw [World.mark_used, if_pos rfl]
  have kept : ∀ other owner, own other = some owner →
      Function.update own sector (some (inode, some place)) other = some owner := by
    intro other owner owned
    rw [Function.update_of_ne _ _, owned]
    rintro rfl
    rw [unowned] at owned
    cases owned
  have counted := World.mark_true_free inside unused
  refine ⟨sector, _, ran, nonzero, ?_, ?_, rfl, rfl, rfl, ?_, kept, ?_, ?_, ?_, ?_⟩
  · exact (decide_eq_true (Nat.pos_of_ne_zero room)).symm
  · change (world.mark sector true).free = world.free - 1
    omega
  · intro other used
    change (world.mark sector true).used other
    rw [World.mark_used]
    split
    · rfl
    · exact used
  · intro other owner present absent
    by_cases same : other = sector
    · rw [same, Function.update_self] at present
      rw [same]
      exact ⟨⟨place, isMine, by simpa using present.symm⟩, unused, usedAfter, inside⟩
    · rw [Function.update_of_ne same, absent] at present
      cases present
  · intro other changed
    by_cases same : other = sector
    · rw [same]
      exact .inr (.inl ⟨unused, usedAfter⟩)
    · rw [World.write_other _ _ same] at changed
      exact .inl (frame other changed)
  · intro flag
    rw [List.getElem?_eq_none (Nat.pos_of_ne_zero room)] at flag
    cases flag
  · apply Ready.extend _ kept
    apply readyAfter.write
    rw [unowned]
    intro other impossible
    cases impossible

/-- No sector is free for a data block. -/
theorem full (ready : Ready own shared world) (noRoom : world.free = 0) :
    Effect shared inode mine own own [false] world world.failed false where
  outcome := by simp [noRoom]
  free := by
    change world.free = _
    simp [noRoom]
  limit := rfl
  mem := rfl
  failures := Nat.lt_succ_self _
  used _ used := used
  kept _ _ same := same
  fresh sector owner present absent := by
    rw [present] at absent
    cases absent
  frame _ changed := absurd rfl changed
  cleared flag := by simp [noRoom] at flag
  ready := ready.failed

/-- No sector is free for an index block: sector 0 is cleared in its place, and the next allocation fails too. -/
theorem stuck (sound : own.Sound world) (ready : Ready own shared world) (noRoom : world.free = 0)
    (later : Effect shared inode mine own after demand (world.failed.write 0 zeros) next false) :
    Effect shared inode mine own after (true :: demand) world next false where
  outcome := by simp [noRoom]
  free := by
    rw [later.free]
    change world.free - demand.length = world.free - (demand.length + 1)
    omega
  limit := later.limit
  mem := later.mem
  failures := Nat.lt_trans (Nat.lt_succ_self _) later.failures
  used := later.used
  kept := later.kept
  fresh := later.fresh
  frame sector changed := by
    by_cases zero : sector = 0
    · exact .inr (.inr (.inr ⟨zero, by simp [noRoom]⟩))
    · have before : (world.failed.write 0 zeros).disk sector = world.disk sector :=
        World.write_other _ _ zero
      rcases later.frame sector (before ▸ changed) with inFile | newlyUsed | owned | ⟨impossible, _⟩
      · exact .inl inFile
      · exact .inr (.inl newlyUsed)
      · exact .inr (.inr (.inl owned))
      · exact absurd impossible zero
  cleared _ := by
    by_contra different
    have changed : next.disk 0 ≠ (world.failed.write 0 zeros).disk 0 := by
      rwa [World.write_same]
    rcases later.frame 0 changed with inFile | newlyUsed | ⟨place, owned, _⟩ | ⟨_, flag⟩
    · rcases ready with ⟨_, noShared⟩ | ⟨pointer, file, freeMapInode, opened, _⟩
      · exact noShared 0 inFile
      · obtain ⟨block, _, owned⟩ := opened.shared_owned inFile
        exact sound.zero 0 _ owned
    · exact newlyUsed.1 sound.reserved
    · exact sound.zero inode place owned
    · exact different (later.cleared flag)
  ready := later.ready

end Effect

end MockOS.Fs
