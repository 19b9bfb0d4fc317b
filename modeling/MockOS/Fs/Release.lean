import MockOS.Fs.Extension

namespace MockOS.Fs

open Lib (places entryPlaces)

/-- The owners after some sectors were released. -/
def Owners.without (own : Owners) (sectors : List BlockSector) : Owners := fun sector =>
  if sector ∈ sectors then none else own sector

theorem Owners.without_append (own : Owners) (first second : List BlockSector) :
    (own.without first).without second = own.without (first ++ second) := by
  funext sector
  by_cases one : sector ∈ first <;> by_cases two : sector ∈ second <;> simp [without, one, two]

theorem Owners.without_singleton (own : Owners) (sector : BlockSector) :
    own.without [sector] = Function.update own sector none := by
  funext other
  by_cases same : other = sector <;> simp [without, same]

theorem Owners.without_nil (own : Owners) : own.without [] = own := by
  funext sector
  simp [without]

/-- The sectors were released one after the other; of the sectors only the free map file changed. -/
structure Released (shared : BlockSector → Prop) (own : Owners) (world next : World) (pointer : Pointer) (file : File)
    (freeMapInode : Inode) (sectors : List BlockSector) : Prop where
  mem : next.mem = { world.mem with freeMap := next.mem.freeMap }
  limit : next.limit = world.limit
  used : ∀ sector, next.used sector ↔ world.used sector ∧ sector ∉ sectors
  free : next.free = world.free + sectors.length
  frame : ∀ sector, next.disk sector ≠ world.disk sector → shared sector
  sound : (own.without sectors).Sound next
  opened : FreeMapFile (own.without sectors) shared next pointer file freeMapInode
  copy : FreeMapCopy next freeMapInode.data

variable {shared : BlockSector → Prop} {inode : BlockSector} {own : Owners} {world next : World} {pointer : Pointer}
  {file : File} {freeMapInode : Inode} {data : InodeDisk}

namespace Released

theorem trans {final : World} {first second : List BlockSector}
    (one : Released shared own world next pointer file freeMapInode first)
    (two : Released shared (own.without first) next final pointer file freeMapInode second) :
    Released shared own world final pointer file freeMapInode (first ++ second) where
  mem := by rw [two.mem, one.mem]
  limit := two.limit.trans one.limit
  used sector := by
    rw [two.used, one.used, List.mem_append, not_or, and_assoc]
  free := by rw [two.free, one.free, List.length_append, Nat.add_assoc]
  frame sector changed := by
    by_cases same : next.disk sector = world.disk sector
    · exact two.frame sector (same ▸ changed)
    · exact one.frame sector same
  sound := own.without_append first second ▸ two.sound
  opened := own.without_append first second ▸ two.opened
  copy := two.copy

theorem empty (sound : own.Sound world) (opened : FreeMapFile own shared world pointer file freeMapInode)
    (copy : FreeMapCopy world freeMapInode.data) :
    Released shared own world world pointer file freeMapInode [] where
  mem := rfl
  limit := rfl
  used sector := by simp
  free := rfl
  frame _ changed := absurd rfl changed
  sound := own.without_nil.symm ▸ sound
  opened := own.without_nil.symm ▸ opened
  copy := copy

theorem single (sound : own.Sound world) (opened : FreeMapFile own shared world pointer file freeMapInode)
    {sector : BlockSector} {owner : Owner} (owned : own sector = some owner) (nonzero : sector ≠ 0)
    (foreign : ∀ place, owner ≠ (0, some place)) :
    ∃ next, run (freeMapRelease sector 1) world = some ((), next) ∧
      Released shared own world next pointer file freeMapInode [sector] := by
  obtain ⟨used, inside⟩ := sound.used sector (by simp [owned])
  obtain ⟨disk, ran, frame, soundAfter, openedAfter, copyAfter⟩ := freeMapRelease_spec sound opened inside nonzero
    (fun place same => foreign place (Option.some.inj (owned.symm.trans same)))
  refine ⟨_, ran, rfl, rfl, fun other => ?_, ?_, frame, ?_, ?_, copyAfter⟩
  · change (world.mark sector false).used other ↔ _
    rw [World.mark_used]
    by_cases same : other = sector <;> simp [same]
  · exact Bitmap.free_mark_false inside used
  · exact own.without_singleton sector ▸ soundAfter
  · exact own.without_singleton sector ▸ openedAfter

/-- The subtrees of other inodes, and other subtrees of the same one, stay owned. -/
theorem treeOwned {sectors : List BlockSector} (released : Released shared own world next pointer file freeMapInode sectors)
    (opened : FreeMapFile own shared world pointer file freeMapInode) {number : BlockSector} (nonzero : number ≠ 0)
    {node : Place} {level : Nat} {entry : BlockSector} (owned : TreeOwned own number node level world.disk entry)
    (apart : ∀ sector ∈ sectors, ∀ path, own sector ≠ some (number, some (node.1, node.2 ++ path))) :
    (∀ path : List (Fin 128), path.length ≤ level →
      indexTree.follow next.disk entry path = indexTree.follow world.disk entry path) ∧
    TreeOwned (own.without sectors) number node level next.disk entry := by
  have same : ∀ path : List (Fin 128), path.length ≤ level →
      indexTree.follow next.disk entry path = indexTree.follow world.disk entry path := by
    intro path within
    apply indexTree.follow_congr level _ within
    intro inner shorter present
    by_contra changed
    obtain ⟨block, _, inFile⟩ := opened.shared_owned (released.frame _ changed)
    have innerOwned := owned inner (Nat.le_of_lt shorter) present
    rw [inFile] at innerOwned
    exact nonzero (by simpa using (congrArg (Option.map Prod.fst) innerOwned).symm)
  refine ⟨same, fun path within present => ?_⟩
  rw [same path within] at present ⊢
  have pathOwned := owned path within present
  rw [Owners.without, if_neg, pathOwned]
  intro member
  exact apart _ member path pathOwned

end Released

/-- The sectors are released one after the other. -/
def releaseAll : List BlockSector → Action Unit
  | [] => pure ()
  | sector :: rest => do
      freeMapRelease sector 1
      releaseAll rest

/-- The action does and writes what the release of the sectors one after the other does and writes. -/
structure Releases {A : Type} (action : Action A) (value : A) (world : World) (sectors : List BlockSector)
    (next : World) : Prop where
  ran : run action world = some (value, next)
  inTurn : run (releaseAll sectors) world = some ((), next)
  sameWrites : written action world = written (releaseAll sectors) world

theorem run_releaseAll_append (first second : List BlockSector) (world : World) :
    run (releaseAll (first ++ second)) world =
      (run (releaseAll first) world).bind fun result => run (releaseAll second) result.2 := by
  induction first generalizing world with
  | nil => rfl
  | cons sector rest ih =>
      rw [List.cons_append, releaseAll, releaseAll, run_bind, run_bind, Option.bind_assoc]
      exact congrArg _ (funext fun result => ih _)

theorem written_releaseAll_append (first second : List BlockSector) (world : World) :
    written (releaseAll (first ++ second)) world = written (releaseAll first) world ++
      (run (releaseAll first) world).elim [] fun result => written (releaseAll second) result.2 := by
  induction first generalizing world with
  | nil => rfl
  | cons sector rest ih =>
      rw [List.cons_append, releaseAll, releaseAll, written_bind, written_bind, run_bind]
      cases run (freeMapRelease sector 1) world with
      | none => simp only [Option.elim_none, Option.bind_none, List.append_nil]
      | some result =>
          simp only [Option.elim_some, Option.bind_some, ih, List.append_assoc]

namespace Releases

variable {A B : Type} {action : Action A} {value : A} {middle : World}

theorem pure (value : A) (world : World) : Releases (Pure.pure value) value world [] world := ⟨rfl, rfl, rfl⟩

theorem single {sector : BlockSector} (ran : run (freeMapRelease sector 1) world = some ((), next)) :
    Releases (freeMapRelease sector 1) () world [sector] next := by
  refine ⟨ran, ?_, ?_⟩
  · rw [releaseAll, run_bind, ran]
    rfl
  · rw [releaseAll, written_bind, ran]
    exact (List.append_nil _).symm

theorem bind {later : A → Action B} {result : B} {first second : List BlockSector}
    (one : Releases action value world first middle) (two : Releases (later value) result middle second next) :
    Releases (action >>= later) result world (first ++ second) next where
  ran := by rw [run_bind, one.ran, Option.bind_some, two.ran]
  inTurn := by rw [run_releaseAll_append, one.inTurn, Option.bind_some, two.inTurn]
  sameWrites := by
    rw [written_bind, one.ran, Option.elim_some, written_releaseAll_append, one.inTurn, Option.elim_some, one.sameWrites,
      two.sameWrites]

/-- The read of an index block releases nothing. -/
theorem read {sector : BlockSector} {later : Sector → Action B} {result : B} {sectors : List BlockSector}
    (rest : Releases (later (world.disk sector)) result world sectors next) :
    Releases (bufferCacheRead sector >>= later) result world sectors next := by
  have none : Releases (bufferCacheRead sector) (world.disk sector) world [] world := ⟨rfl, rfl, rfl⟩
  exact none.bind rest

end Releases

/-- What `inode_deallocate_indirect` does for the subtree at a node. -/
def Deallocates (shared : BlockSector → Prop) (inode : BlockSector) (pointer : Pointer) (file : File)
    (freeMapInode : Inode) (node : Place) (level : Nat) (deallocate : BlockSector → Nat → Action Unit) : Prop :=
  ∀ (own : Owners) (world : World) (entry : BlockSector) (count : Nat), own.Sound world →
    FreeMapFile own shared world pointer file freeMapInode → FreeMapCopy world freeMapInode.data →
    TreeOwned own inode node level world.disk entry → 0 < count →
    (∀ path ∈ places 128 level count, indexTree.follow world.disk entry path ≠ 0) →
      ∃ next sectors, Releases (deallocate entry count) () world sectors next ∧
        sectors.Perm ((places 128 level count).map (indexTree.follow world.disk entry)) ∧
        Released shared own world next pointer file freeMapInode sectors

theorem freeMapRelease_deallocates (nonzero : inode ≠ 0) (node : Place) :
    Deallocates shared inode pointer file freeMapInode node 0 fun entry _ => freeMapRelease entry 1 := by
  intro own world entry count sound opened copy owned _ complete
  have present : entry ≠ 0 := complete [] (List.mem_singleton_self _)
  have nodeOwned := owned [] (Nat.le_refl _) present
  obtain ⟨next, ran, released⟩ := Released.single sound opened nodeOwned present
    (fun place same => nonzero (congrArg Prod.fst same))
  exact ⟨next, [entry], .single ran, List.Perm.refl _, released⟩

/-- The loops over the entries release the subtrees one after the other. -/
theorem deallocateEntries_spec {count level unit : Nat} {nodes : Fin count → Place} (separate : Separate nodes)
    (nonzero : inode ≠ 0) (unitPositive : 0 < unit) {deallocate : BlockSector → Nat → Action Unit}
    (deallocates : ∀ index, Deallocates shared inode pointer file freeMapInode (nodes index) level deallocate)
    (indices : List (Fin count)) (distinct : indices.Nodup) (numSectors : Nat) (own : Owners) (world : World)
    (entries : Fin count → BlockSector) (sound : own.Sound world)
    (opened : FreeMapFile own shared world pointer file freeMapInode) (copy : FreeMapCopy world freeMapInode.data)
    (owned : ∀ index ∈ indices, TreeOwned own inode (nodes index) level world.disk (entries index))
    (enough : unit * indices.length < numSectors + unit)
    (complete : ∀ node ∈ entryPlaces (places 128 level) unit indices numSectors,
      indexTree.follow world.disk (entries node.1) node.2 ≠ 0) :
    ∃ next sectors, Releases (deallocateEntries deallocate unit indices entries numSectors) () world sectors next ∧
      sectors.Perm ((entryPlaces (places 128 level) unit indices numSectors).map fun node =>
        indexTree.follow world.disk (entries node.1) node.2) ∧
      Released shared own world next pointer file freeMapInode sectors := by
  induction indices generalizing numSectors own world with
  | nil => exact ⟨world, [], .pure () world, List.Perm.refl _, Released.empty sound opened copy⟩
  | cons index rest ih =>
      obtain ⟨absent, restDistinct⟩ := List.nodup_cons.mp distinct
      rw [List.length_cons, Nat.mul_succ] at enough
      obtain ⟨middle, first, ran, perm, released⟩ := deallocates index own world (entries index)
        (min numSectors unit) sound opened copy (owned index List.mem_cons_self) (by omega)
        (fun path inside => complete (index, path) (List.mem_append_left _ (List.mem_map_of_mem inside)))
      have later : ∀ other ∈ rest, (∀ path : List (Fin 128), path.length ≤ level →
            indexTree.follow middle.disk (entries other) path = indexTree.follow world.disk (entries other) path) ∧
          TreeOwned (own.without first) inode (nodes other) level middle.disk (entries other) := by
        intro other member
        apply released.treeOwned opened nonzero (owned other (List.mem_cons_of_mem _ member))
        intro sector taken path same
        obtain ⟨inner, inside, rfl⟩ := List.mem_map.mp (perm.mem_iff.mp taken)
        have innerOwned := owned index List.mem_cons_self inner (Lib.length_of_mem_places inside)
          (complete (index, inner) (List.mem_append_left _ (List.mem_map_of_mem inside)))
        rw [same] at innerOwned
        have equal := (Prod.mk.inj (Option.some.inj innerOwned)).2
        apply separate other index (fun equal => absent (equal ▸ member)) (nodes other |>.1, (nodes other).2 ++ path)
          ⟨rfl, List.prefix_append _ _⟩
        rw [Option.some.inj equal]
        exact ⟨rfl, List.prefix_append _ _⟩
      have sameLater : ∀ node ∈ entryPlaces (places 128 level) unit rest (numSectors - min numSectors unit),
          indexTree.follow middle.disk (entries node.1) node.2 =
            indexTree.follow world.disk (entries node.1) node.2 := by
        intro node member
        obtain ⟨found, leaves, inside⟩ := Lib.entryPlaces_index member
        exact (later node.1 found).1 node.2 (Lib.length_of_mem_places inside)
      obtain ⟨next, second, ranRest, permRest, releasedRest⟩ := ih restDistinct (numSectors - min numSectors unit)
        (own.without first) middle released.sound released.opened released.copy (fun other member => (later other member).2)
        (by
          rcases Nat.le_total unit numSectors with large | small
          · rw [Nat.min_eq_right large]
            omega
          · rw [Nat.min_eq_left small]
            omega)
        (fun node member => by
          rw [sameLater node member]
          exact complete node (List.mem_append_right _ member))
      refine ⟨next, first ++ second, ran.bind ranRest, ?_, released.trans releasedRest⟩
      · rw [entryPlaces, List.map_append, List.map_map]
        apply perm.append
        rwa [List.map_congr_left sameLater] at permRest

/-- `inode_deallocate_indirect` releases a subtree with its index blocks. -/
theorem inodeDeallocateIndirect_deallocates (nonzero : inode ≠ 0) (level : Nat) (small : level ≤ 2) (node : Place) :
    Deallocates shared inode pointer file freeMapInode node level (inodeDeallocateIndirect level) := by
  induction level generalizing node with
  | zero => exact freeMapRelease_deallocates nonzero node
  | succ level ih =>
      intro own world entry count sound opened copy owned positive complete
      have unit : (if level + 1 = 1 then 1 else 128) = 128 ^ level := by
        obtain rfl | rfl : level = 0 ∨ level = 1 := by omega
        · rfl
        · rfl
      have present : entry ≠ 0 := complete [] (Lib.root_mem_places _ _)
      have nodeOwned : own entry = some (inode, some node) := by
        have := owned [] (Nat.zero_le _) present
        rwa [Lib.PointerTree.follow_nil, List.append_nil] at this
      obtain ⟨middle, sectors, ran, perm, released⟩ := deallocateEntries_spec (childNode_separate node) nonzero
        (Nat.pow_pos (by decide)) (fun index => ih (by omega) (childNode node index)) _
        (nodup_blockEntries (divRoundUp count (128 ^ level))) count own world (world.disk entry).words sound opened copy
        (fun index _ => owned.child present index) (blockPlaces_enough level count) (fun place member => by
          rw [← follow_child present]
          apply complete
          rw [places_succ]
          exact List.mem_cons_of_mem _ (List.mem_map.mpr ⟨place, member, rfl⟩))
      have entryKept : entry ∉ sectors := by
        intro member
        obtain ⟨⟨index, path⟩, inside, same⟩ := List.mem_map.mp (perm.mem_iff.mp member)
        have within := Lib.length_of_mem_places (Lib.entryPlaces_index inside).2.choose_spec
        have pathOwned := owned.child present index path within (by
          dsimp only at same
          rw [same]
          exact present)
        dsimp only at same
        rw [same, nodeOwned, childNode_append] at pathOwned
        have := congrArg (fun place : Place => place.2.length) (Option.some.inj (Prod.mk.inj (Option.some.inj pathOwned)).2)
        simp at this
      obtain ⟨next, ranLast, releasedLast⟩ := Released.single released.sound released.opened
        (show own.without sectors entry = some (inode, some node) by rw [Owners.without, if_neg entryKept, nodeOwned])
        present (fun place same => nonzero (congrArg Prod.fst same))
      refine ⟨next, sectors ++ [entry], ?_, ?_, released.trans releasedLast⟩
      · simp only [inodeDeallocateIndirect, unit]
        exact .read (ran.bind (.single ranLast))
      · rw [places_succ, List.map_cons, List.map_map]
        apply (List.perm_append_comm.trans (List.Perm.cons entry perm)).trans
        apply List.Perm.of_eq
        simp only [Lib.PointerTree.follow_nil, List.cons.injEq, true_and]
        apply List.map_congr_left
        intro place _
        exact (follow_child present place.1 place.2).symm

/-- The part of an inode under its indirect or doubly indirect block, when there is one. -/
theorem deallocatePart_spec (nonzero : inode ≠ 0) (root : Fin 125) (count : Nat) (sound : own.Sound world)
    (opened : FreeMapFile own shared world pointer file freeMapInode) (copy : FreeMapCopy world freeMapInode.data)
    (owned : TreeOwned own inode (root, []) (rootLevel root) world.disk (data.entry root))
    (complete : 0 < count → ∀ path ∈ places 128 (rootLevel root) count, sectorAt world.disk data (root, path) ≠ 0) :
    ∃ next sectors, Releases (deallocatePart (rootLevel root) (data.entry root) count) () world sectors next ∧
      sectors.Perm ((if 0 < count then (places 128 (rootLevel root) count).map fun path => (root, path) else []).map
        (sectorAt world.disk data)) ∧
      Released shared own world next pointer file freeMapInode sectors := by
  rw [deallocatePart]
  by_cases positive : 0 < count
  · have small : rootLevel root ≤ 2 := by
      unfold rootLevel
      split_ifs <;> omega
    obtain ⟨next, sectors, ran, perm, released⟩ := inodeDeallocateIndirect_deallocates nonzero (rootLevel root) small
      (root, []) own world (data.entry root) count sound opened copy owned positive (complete positive)
    refine ⟨next, sectors, by rwa [if_pos positive], ?_, released⟩
    rw [if_pos positive, List.map_map]
    exact perm
  · rw [if_neg positive, if_neg positive]
    exact ⟨world, [], .pure () world, List.Perm.refl _, Released.empty sound opened copy⟩

/-- The release of some blocks of an inode leaves the subtrees at other roots. -/
theorem Released.tree {sectors : List BlockSector} {released_ : List Place}
    (released : Released shared own world next pointer file freeMapInode sectors)
    (opened : FreeMapFile own shared world pointer file freeMapInode) (nonzero : inode ≠ 0)
    (owned : InodeOwned own world.disk inode data)
    (perm : sectors.Perm (released_.map (sectorAt world.disk data)))
    (present : ∀ place ∈ released_, place.within ∧ sectorAt world.disk data place ≠ 0) {root : Fin 125}
    (other : ∀ place ∈ released_, place.1 ≠ root) :
    (∀ path : List (Fin 128), path.length ≤ rootLevel root →
      sectorAt next.disk data (root, path) = sectorAt world.disk data (root, path)) ∧
    TreeOwned (own.without sectors) inode (root, []) (rootLevel root) next.disk (data.entry root) := by
  apply released.treeOwned opened nonzero (inodeOwned_iff.mp owned root)
  intro sector member path same
  obtain ⟨place, inside, rfl⟩ := List.mem_map.mp (perm.mem_iff.mp member)
  rw [owned place (present place inside).1 (present place inside).2] at same
  have equal := Option.some.inj (Prod.mk.inj (Option.some.inj same)).2
  exact other place inside (congrArg Prod.fst equal)

theorem directNode_mem {blocks : Nat} {index : Fin 123}
    (taken : index ∈ (List.finRange 123).take (min blocks 123)) : directNode index ∈ inodePlaces blocks :=
  mem_inodePlaces.mpr (.inl ⟨(Lib.mem_take_finRange index).mp taken, rfl⟩)

/-- The direct blocks of an inode. -/
theorem deallocateDirect_spec (nonzero : inode ≠ 0) (blocks : Nat) (sound : own.Sound world)
    (opened : FreeMapFile own shared world pointer file freeMapInode) (copy : FreeMapCopy world freeMapInode.data)
    (owned : InodeOwned own world.disk inode data) (complete : Complete world.disk data blocks) :
    ∃ next sectors, Releases (deallocateEntries (fun entry _ => freeMapRelease entry 1) 1
        ((List.finRange 123).take (min blocks 123)) data.directBlocks (min blocks 123)) () world sectors next ∧
      sectors.Perm ((((List.finRange 123).take (min blocks 123)).map directNode).map (sectorAt world.disk data)) ∧
      Released shared own world next pointer file freeMapInode sectors := by
  have small : ((List.finRange 123).take (min blocks 123)).length ≤ min blocks 123 := List.length_take_le _ _
  obtain ⟨next, sectors, ran, perm, released⟩ := deallocateEntries_spec directNode_separate nonzero
    (by decide : 0 < 1) (fun index => freeMapRelease_deallocates nonzero (directNode index))
    ((List.finRange 123).take (min blocks 123)) ((List.nodup_finRange 123).sublist (List.take_sublist _ _))
    (min blocks 123) own world data.directBlocks sound opened copy (fun index _ => by
      have tree := inodeOwned_iff.mp owned ⟨index.val, by omega⟩
      rwa [entry_direct, show rootLevel ⟨index.val, _⟩ = 0 from if_pos index.isLt] at tree)
    (by omega) (fun node member => by
      rw [entryPlaces_leaves] at member
      obtain ⟨index, taken, rfl⟩ := List.mem_map.mp member
      have present := complete _ (directNode_mem taken)
      rwa [sectorAt, directNode, entry_direct] at present)
  refine ⟨next, sectors, ran, perm.trans (List.Perm.of_eq ?_), released⟩
  rw [entryPlaces_leaves, List.map_map, List.map_map]
  apply List.map_congr_left
  intro index _
  simp only [Function.comp_apply, sectorAt, directNode, entry_direct]

/-- `inode_deallocate` releases the blocks for the length of the inode. -/
theorem inodeDeallocate_spec (nonzero : inode ≠ 0) (nonnegative : 0 ≤ data.length) (sound : own.Sound world)
    (opened : FreeMapFile own shared world pointer file freeMapInode) (copy : FreeMapCopy world freeMapInode.data)
    (owned : InodeOwned own world.disk inode data)
    (complete : Complete world.disk data (bytesToSectors data.length)) :
    ∃ next sectors, Releases (inodeDeallocate data) true world sectors next ∧
      sectors.Perm ((inodePlaces (bytesToSectors data.length)).map (sectorAt world.disk data)) ∧
      Released shared own world next pointer file freeMapInode sectors := by
  rw [inodeDeallocate, if_neg (by omega)]
  generalize bytesToSectors data.length = blocks at complete
  have present : ∀ place ∈ inodePlaces blocks, place.within ∧ sectorAt world.disk data place ≠ 0 :=
    fun place member => ⟨within_of_mem_inodePlaces member, complete place member⟩
  obtain ⟨world₁, direct, ran₁, perm₁, released₁⟩ :=
    deallocateDirect_spec nonzero blocks sound opened copy owned complete
  have presentDirect : ∀ place ∈ ((List.finRange 123).take (min blocks 123)).map directNode,
      place.within ∧ sectorAt world.disk data place ≠ 0 ∧ place.1.val < 123 := by
    intro place member
    obtain ⟨index, taken, rfl⟩ := List.mem_map.mp member
    obtain ⟨within, there⟩ := present _ (directNode_mem taken)
    exact ⟨within, there, index.isLt⟩
  have later : ∀ root : Fin 125, 123 ≤ root.val → _ := fun root high =>
    released₁.tree opened nonzero owned perm₁ (fun place member =>
      ⟨(presentDirect place member).1, (presentDirect place member).2.1⟩) fun place member (same : place.1 = root) => by
        have := (presentDirect place member).2.2
        rw [same] at this
        omega
  obtain ⟨same₂, owned₂⟩ := later 123 (Nat.le_refl 123)
  obtain ⟨same₃, owned₃⟩ := later 124 (Nat.le_succ 123)
  obtain ⟨world₂, indirect, ran₂, perm₂, released₂⟩ := deallocatePart_spec nonzero 123
    (min (blocks - min blocks 123) 128) released₁.sound released₁.opened released₁.copy owned₂ (by
      intro positive path inside
      rw [same₂ path (Lib.length_of_mem_places inside)]
      apply complete
      exact mem_inodePlaces.mpr (.inr (.inl ⟨by omega, rfl, by
        rwa [show min (blocks - 123) 128 = min (blocks - min blocks 123) 128 from by omega]⟩)))
  have apart₂ : ∀ sector ∈ indirect, ∀ path,
      own.without direct sector ≠ some (inode, some ((124 : Fin 125), [] ++ path)) := by
    intro sector member path same
    obtain ⟨place, inside, rfl⟩ := List.mem_map.mp (perm₂.mem_iff.mp member)
    split at inside
    · obtain ⟨inner, inPlaces, rfl⟩ := List.mem_map.mp inside
      have innerPresent : sectorAt world₁.disk data (123, inner) ≠ 0 := by
        rw [same₂ inner (Lib.length_of_mem_places inPlaces)]
        apply complete
        exact mem_inodePlaces.mpr (.inr (.inl ⟨by omega, rfl, by
          rwa [show min (blocks - 123) 128 = min (blocks - min blocks 123) 128 from by omega]⟩))
      rw [show own.without direct (sectorAt world₁.disk data (123, inner)) = some (inode, some (123, [] ++ inner)) from
        owned₂ inner (Lib.length_of_mem_places inPlaces) innerPresent] at same
      have roots := congrArg Prod.fst (Option.some.inj (Prod.mk.inj (Option.some.inj same)).2)
      exact absurd roots (show ¬ (123 : Fin 125) = 124 from by decide)
    · cases inside
  obtain ⟨same₄, owned₄⟩ := released₂.treeOwned released₁.opened nonzero owned₃ apart₂
  have doublyPresent : ∀ path ∈ places 128 2 (min (blocks - 251) (128 * 128)), 251 < blocks →
      (124, path) ∈ inodePlaces blocks := fun path inside more => mem_inodePlaces.mpr (.inr (.inr ⟨more, rfl, inside⟩))
  obtain ⟨world₃, doubly, ran₃, perm₃, released₃⟩ := deallocatePart_spec nonzero 124
    (min (blocks - min blocks 123 - min (blocks - min blocks 123) 128) (128 * 128)) released₂.sound released₂.opened
    released₂.copy owned₄ (by
      intro positive path inside
      have within := Lib.length_of_mem_places inside
      rw [show sectorAt world₂.disk data (124, path) = sectorAt world₁.disk data (124, path) from same₄ path within,
        same₃ path within]
      apply complete
      apply doublyPresent path _ (by omega)
      rwa [show min (blocks - 251) (128 * 128) =
        min (blocks - min blocks 123 - min (blocks - min blocks 123) 128) (128 * 128) from by omega])
  refine ⟨world₃, direct ++ indirect ++ doubly, ?_, ?_, (released₁.trans released₂).trans ?_⟩
  · change Releases (deallocatePart 1 data.indirectBlock _) () world₁ indirect world₂ at ran₂
    change Releases (deallocatePart 2 data.doublyIndirectBlock _) () world₂ doubly world₃ at ran₃
    have last := Releases.pure true world₃
    rw [List.append_assoc, ← List.append_nil doubly]
    exact ran₁.bind (ran₂.bind (ran₃.bind last))
  · rw [inodePlaces, List.map_append, List.map_append]
    apply (perm₁.append (perm₂.trans (List.Perm.of_eq _))).append (perm₃.trans (List.Perm.of_eq _))
    · by_cases more : blocks > 123
      · rw [if_pos more, if_pos (by omega), show blocks - min blocks 123 = blocks - 123 from by omega, List.map_map,
          List.map_map]
        exact List.map_congr_left fun path inside => same₂ path (Lib.length_of_mem_places inside)
      · rw [if_neg more, if_neg (by omega)]
        rfl
    · by_cases more : blocks > 251
      · rw [if_pos more, if_pos (by omega),
          show blocks - min blocks 123 - min (blocks - min blocks 123) 128 = blocks - 251 from by omega, List.map_map,
          List.map_map]
        apply List.map_congr_left
        intro path inside
        have within := Lib.length_of_mem_places inside
        exact (same₄ path within).trans (same₃ path within)
      · rw [if_neg more, if_neg (by omega)]
        rfl
  · rwa [← Owners.without_append]

end MockOS.Fs
