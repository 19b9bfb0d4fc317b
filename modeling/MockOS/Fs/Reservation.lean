import MockOS.Fs.Effect

namespace MockOS.Fs

open Lib (places entryPlaces)

/-- Every node of a subtree belongs to the inode. -/
def TreeOwned (own : Owners) (inode : BlockSector) (node : Place) (level : Nat) (store : BlockSector → Sector)
    (entry : BlockSector) : Prop :=
  ∀ path : List (Fin 128), path.length ≤ level → indexTree.follow store entry path ≠ 0 →
    own (indexTree.follow store entry path) = some (inode, some (node.1, node.2 ++ path))

/-- A subtree keeps its nodes with their data and gets new ones, all of them when the extension succeeds. -/
structure Grown (own : Owners) (inode : BlockSector) (node : Place) (level : Nat) (needed : List (Fin 128) → Prop)
    (success : Bool) (store after : BlockSector → Sector) (entry entryAfter : BlockSector) : Prop where
  owned : TreeOwned own inode node level after entryAfter
  kept : ∀ path : List (Fin 128), path.length ≤ level → indexTree.follow store entry path ≠ 0 →
    indexTree.follow after entryAfter path = indexTree.follow store entry path
  data : ∀ path : List (Fin 128), path.length = level → indexTree.follow store entry path ≠ 0 →
    after (indexTree.follow store entry path) = store (indexTree.follow store entry path)
  added : ∀ path : List (Fin 128), path.length ≤ level → indexTree.follow store entry path = 0 →
    indexTree.follow after entryAfter path ≠ 0 →
      needed path ∧ (path.length = level → after (indexTree.follow after entryAfter path) = zeros)
  full : success → ∀ path, needed path → path.length ≤ level → indexTree.follow after entryAfter path ≠ 0

/-- The missing nodes among some places, each with a flag for index blocks. -/
def demand (store : BlockSector → Sector) (entry : BlockSector) (level : Nat) (paths : List (List (Fin 128))) :
    List Bool :=
  (paths.filter fun path => indexTree.follow store entry path = 0).map fun path => decide (path.length < level)

/-- The missing nodes of several subtrees. -/
def entriesDemand {count : Nat} (store : BlockSector → Sector) (entries : Fin count → BlockSector) (level : Nat)
    (nodes : List (Fin count × List (Fin 128))) : List Bool :=
  (nodes.filter fun node => indexTree.follow store (entries node.1) node.2 = 0).map fun node =>
    decide (node.2.length < level)

variable {shared : BlockSector → Prop} {inode : BlockSector} {own after : Owners} {world next : World}

namespace Grown

variable {node : Place} {level : Nat} {store middle final : BlockSector → Sector} {entry between last : BlockSector}
  {needed wanted : List (Fin 128) → Prop} {success second : Bool}

theorem trans (first : Grown own inode node level needed success store middle entry between)
    (later : Grown after inode node level wanted second middle final between last) :
    Grown after inode node level (fun path => needed path ∨ wanted path) (success && second) store final entry
      last where
  owned := later.owned
  kept path within present := by
    have same := first.kept path within present
    rw [← same] at present
    rw [later.kept path within present, same]
  data path isLeaf present := by
    have same := first.kept path (Nat.le_of_eq isLeaf) present
    have still := later.data path isLeaf (same ▸ present)
    rw [same] at still
    rw [still, first.data path isLeaf present]
  added path within absent present := by
    by_cases before : indexTree.follow middle between path = 0
    · obtain ⟨isWanted, zero⟩ := later.added path within before present
      exact ⟨.inr isWanted, zero⟩
    · obtain ⟨isNeeded, zero⟩ := first.added path within absent before
      refine ⟨.inl isNeeded, fun isLeaf => ?_⟩
      rw [later.kept path within before, later.data path isLeaf before, zero isLeaf]
  full done path isNeeded within := by
    obtain ⟨one, two⟩ := Bool.and_eq_true_iff.mp done
    rcases isNeeded with isNeeded | isWanted
    · have before := first.full one path isNeeded within
      rw [later.kept path within before]
      exact before
    · exact later.full two path isWanted within

theorem weaken (grown : Grown own inode node level needed success store final entry last)
    (subset : ∀ path, needed path → wanted path)
    (same : second → success ∧ ∀ path, wanted path → needed path) :
    Grown own inode node level wanted second store final entry last where
  owned := grown.owned
  kept := grown.kept
  data := grown.data
  added path within absent present := by
    obtain ⟨isNeeded, zero⟩ := grown.added path within absent present
    exact ⟨subset path isNeeded, zero⟩
  full done path isWanted within := by
    obtain ⟨one, back⟩ := same done
    exact grown.full one path (back path isWanted) within

end Grown

/-- The extension of other subtrees leaves this one. -/
theorem Effect.follow_eq {mine : Place → Prop} {demands : List Bool} {success : Bool}
    (effect : Effect shared inode mine own after demands world next success) (sound : own.Sound world)
    (ready : Ready own shared world) (mode : world.mem.freeMapFile = none ∨ inode ≠ 0) {node : Place} {level : Nat}
    {entry : BlockSector} (owned : TreeOwned own inode node level world.disk entry)
    (separate : ∀ path : List (Fin 128), path.length < level → ¬ mine (node.1, node.2 ++ path))
    {path : List (Fin 128)} (within : path.length ≤ level) :
    indexTree.follow next.disk entry path = indexTree.follow world.disk entry path := by
  apply indexTree.follow_congr level _ within
  intro inner shorter present
  have innerOwned := owned inner (Nat.le_of_lt shorter) present
  apply effect.unchanged sound innerOwned
  · intro inFile
    exact ready.apart mode inFile _ innerOwned
  · intro _ isMine
    exact separate inner shorter isMine.1

theorem Effect.grown_other {mine : Place → Prop} {demands : List Bool} {success : Bool}
    (effect : Effect shared inode mine own after demands world next success) (sound : own.Sound world)
    (ready : Ready own shared world) (mode : world.mem.freeMapFile = none ∨ inode ≠ 0) {node : Place} {level : Nat}
    {entry : BlockSector} (owned : TreeOwned own inode node level world.disk entry)
    (separate : ∀ path : List (Fin 128), path.length ≤ level → ¬ mine (node.1, node.2 ++ path)) :
    Grown after inode node level (fun _ => False) true world.disk next.disk entry entry := by
  have same : ∀ path : List (Fin 128), path.length ≤ level →
      indexTree.follow next.disk entry path = indexTree.follow world.disk entry path := fun path within =>
    effect.follow_eq sound ready mode owned (fun inner shorter => separate inner (Nat.le_of_lt shorter)) within
  constructor
  · intro path within present
    rw [same path within] at present ⊢
    exact effect.kept _ _ (owned path within present)
  · intro path within _
    exact same path within
  · intro path isLeaf present
    have pathOwned := owned path (Nat.le_of_eq isLeaf) present
    apply effect.unchanged sound pathOwned
    · intro inFile
      exact ready.apart mode inFile _ pathOwned
    · intro _ isMine
      exact separate path (Nat.le_of_eq isLeaf) isMine.1
  · intro path within absent present
    rw [same path within] at present
    exact absurd absent present
  · intro _ path impossible
    exact impossible.elim

/-- What `inode_reserve_indirect` does for the subtree at a node. -/
def Reserves (shared : BlockSector → Prop) (inode : BlockSector) (node : Place) (level : Nat)
    (reserve : BlockSector → Nat → Action (Bool × BlockSector)) : Prop :=
  ∀ (own : Owners) (world : World) (entry : BlockSector) (count : Nat), own.Sound world → Ready own shared world →
    (world.mem.freeMapFile = none ∨ inode ≠ 0) → TreeOwned own inode node level world.disk entry → 0 < count →
      ∃ success entryAfter next after, run (reserve entry count) world = some ((success, entryAfter), next) ∧
        Effect shared inode (Below node) own after (demand world.disk entry level (places 128 level count)) world next
          success ∧
        Grown after inode node level (· ∈ places 128 level count) success world.disk next.disk entry entryAfter

theorem treeOwned_null (own : Owners) (inode : BlockSector) (node : Place) (level : Nat)
    (store : BlockSector → Sector) : TreeOwned own inode node level store 0 := by
  intro path _ present
  exact absurd (indexTree.follow_null store path) present

/-- Nothing grows from nothing. -/
theorem grown_null (own : Owners) (inode : BlockSector) (node : Place) (level : Nat) (needed : List (Fin 128) → Prop)
    (store final : BlockSector → Sector) : Grown own inode node level needed false store final 0 0 where
  owned := treeOwned_null own inode node level final
  kept path _ present := absurd (indexTree.follow_null store path) present
  data path _ present := absurd (indexTree.follow_null store path) present
  added path _ _ present := absurd (indexTree.follow_null final path) present
  full impossible := by cases impossible

/-- A data block. -/
theorem reserveBlock_reserves (node : Place) (depth : Nat) : Reserves shared inode node 0
    fun entry _ => reserveBlock (freeMapAllocateBy (inodeWriteAtWithin (depth + 1)) 1) entry := by
  intro own world entry count sound ready mode owned _
  have all : ∀ path : List (Fin 128), path.length ≤ 0 → path = [] := fun path within =>
    List.eq_nil_of_length_eq_zero (Nat.le_zero.mp within)
  have needs : places 128 0 count = [[]] := rfl
  rw [needs]
  by_cases missing : entry = 0
  · subst missing
    have demands : demand world.disk 0 0 [[]] = [false] := by simp [demand]
    rw [demands]
    by_cases room : world.free = 0
    · refine ⟨false, 0, world.failed, own, ?_, Effect.full ready room, grown_null own inode node 0 _ _ _⟩
      simp [reserveBlock, freeMapAllocateBy_full room]
    · have isMine : Below node node := ⟨rfl, List.prefix_refl _⟩
      obtain ⟨sector, middle, ran, nonzero, effect⟩ := Effect.take inode depth sound ready room isMine false
      refine ⟨true, sector, middle.write sector zeros, _, ?_, effect, ?_⟩
      · simp only [reserveBlock, if_true, run_bind, ran, Option.bind_some, World.run_write, run_pure]
      · constructor
        · intro path within _
          rw [all path within, Lib.PointerTree.follow_nil, Function.update_self, List.append_nil]
        · intro path _ present
          exact absurd (indexTree.follow_null _ path) present
        · intro path _ present
          exact absurd (indexTree.follow_null _ path) present
        · intro path within _ _
          rw [all path within]
          exact ⟨List.mem_singleton_self _, fun _ => World.write_same _ _ _⟩
        · intro _ path _ within
          rw [all path within]
          exact nonzero
  · have demands : demand world.disk entry 0 [[]] = [] := by simp [demand, missing]
    rw [demands]
    refine ⟨true, entry, world, own, by simp [reserveBlock, missing], Effect.refl ready, ?_⟩
    constructor
    · exact owned
    · exact fun _ _ _ => rfl
    · exact fun _ _ _ => rfl
    · exact fun _ _ absent present => absurd absent present
    · intro _ path _ within
      rw [all path within]
      exact missing

/-- The subtrees of different entries do not meet. -/
def Separate {count : Nat} (nodes : Fin count → Place) : Prop :=
  ∀ first second, first ≠ second → ∀ place, Below (nodes first) place → ¬ Below (nodes second) place

theorem entriesDemand_congr {count level : Nat} {store other : BlockSector → Sector}
    {entries others : Fin count → BlockSector} {nodes : List (Fin count × List (Fin 128))}
    (same : ∀ node ∈ nodes, indexTree.follow other (others node.1) node.2 =
      indexTree.follow store (entries node.1) node.2) :
    entriesDemand other others level nodes = entriesDemand store entries level nodes := by
  unfold entriesDemand
  congr 1
  apply List.filter_congr
  intro node member
  rw [same node member]

/-- The loops over the entries reserve the subtrees one after the other. -/
theorem reserveEntries_spec {count level unit : Nat} {nodes : Fin count → Place} (separate : Separate nodes)
    (unitPositive : 0 < unit) {reserve : BlockSector → Nat → Action (Bool × BlockSector)}
    (reserves : ∀ index, Reserves shared inode (nodes index) level reserve) (indices : List (Fin count))
    (distinct : indices.Nodup) (numSectors : Nat) (own : Owners) (world : World) (entries : Fin count → BlockSector)
    (sound : own.Sound world) (ready : Ready own shared world)
    (mode : world.mem.freeMapFile = none ∨ inode ≠ 0)
    (owned : ∀ index, TreeOwned own inode (nodes index) level world.disk (entries index))
    (enough : unit * indices.length < numSectors + unit) :
    ∃ success entriesAfter next after,
      run (reserveEntries reserve unit indices entries numSectors) world = some ((success, entriesAfter), next) ∧
      Effect shared inode (fun place => ∃ index, Below (nodes index) place) own after
        (entriesDemand world.disk entries level (entryPlaces (places 128 level) unit indices numSectors)) world next
        success ∧
      ∀ index, Grown after inode (nodes index) level
        (fun path => (index, path) ∈ entryPlaces (places 128 level) unit indices numSectors) success world.disk
        next.disk (entries index) (entriesAfter index) := by
  induction indices generalizing numSectors own world entries with
  | nil =>
      refine ⟨true, entries, world, own, rfl, Effect.refl ready, fun index => ?_⟩
      constructor
      · exact owned index
      · exact fun _ _ _ => rfl
      · exact fun _ _ _ => rfl
      · exact fun _ _ absent present => absurd absent present
      · intro _ path impossible
        cases impossible
  | cons index rest ih =>
      obtain ⟨absent, restDistinct⟩ := List.nodup_cons.mp distinct
      rw [List.length_cons, Nat.mul_succ] at enough
      have positive : 0 < min numSectors unit := by omega
      obtain ⟨one, entry, middle, between, ran, effect, grown⟩ :=
        reserves index own world (entries index) (min numSectors unit) sound ready mode (owned index) positive
      have middleSound := effect.sound sound
      have middleMode : middle.mem.freeMapFile = none ∨ inode ≠ 0 := by rwa [effect.freeMapFile]
      have others : ∀ other, other ≠ index → Grown between inode (nodes other) level (fun _ => False) true world.disk
          middle.disk (entries other) (entries other) := by
        intro other different
        apply effect.grown_other sound ready mode (owned other)
        intro path _
        exact separate other index different _ ⟨rfl, List.prefix_append _ _⟩
      -- the first subtree has grown, the others have not
      have step : ∀ other, Grown between inode (nodes other) level
          (fun path => other = index ∧ path ∈ places 128 level (min numSectors unit)) one world.disk middle.disk
          (entries other) (Function.update entries index entry other) := by
        intro other
        by_cases same : other = index
        · subst same
          rw [Function.update_self]
          exact grown.weaken (fun path inside => ⟨rfl, inside⟩) fun done => ⟨done, fun path inside => inside.2⟩
        · rw [Function.update_of_ne same]
          exact (others other same).weaken (fun path impossible => impossible.elim)
            fun _ => ⟨rfl, fun path inside => same inside.1⟩
      have demands : entriesDemand world.disk entries level
          (entryPlaces (places 128 level) unit (index :: rest) numSectors) =
          demand world.disk (entries index) level (places 128 level (min numSectors unit)) ++
            entriesDemand world.disk entries level
              (entryPlaces (places 128 level) unit rest (numSectors - min numSectors unit)) := by
        simp only [entriesDemand, demand, entryPlaces, List.filter_append, List.map_append, List.filter_map,
          List.map_map]
        rfl
      rw [demands]
      have wider : ∀ place, Below (nodes index) place → ∃ index, Below (nodes index) place :=
        fun place below => ⟨index, below⟩
      cases one with
      | false =>
          refine ⟨false, Function.update entries index entry, middle, between, ?_, (effect.mono wider).stop, ?_⟩
          · simp only [reserveEntries, run_bind, ran, Option.bind_some, Bool.false_eq_true, if_false, run_pure]
          · intro other
            apply (step other).weaken
            · rintro path ⟨rfl, inside⟩
              exact List.mem_append_left _ (List.mem_map_of_mem inside)
            · intro impossible
              cases impossible
      | true =>
          obtain ⟨success, entriesAfter, next, after, ranRest, effectRest, grownRest⟩ :=
            ih restDistinct (numSectors - min numSectors unit) between middle (Function.update entries index entry)
              middleSound effect.ready middleMode (fun other => (step other).owned) (by
                rcases Nat.le_total unit numSectors with large | small
                · rw [Nat.min_eq_right large]
                  omega
                · rw [Nat.min_eq_left small]
                  omega)
          have sameDemand : entriesDemand middle.disk (Function.update entries index entry) level
              (entryPlaces (places 128 level) unit rest (numSectors - min numSectors unit)) =
              entriesDemand world.disk entries level
                (entryPlaces (places 128 level) unit rest (numSectors - min numSectors unit)) := by
            apply entriesDemand_congr
            rintro ⟨other, path⟩ member
            obtain ⟨found, leaves, inside⟩ := Lib.entryPlaces_index member
            have different : other ≠ index := by
              rintro rfl
              exact absent found
            rw [Function.update_of_ne different]
            apply effect.follow_eq sound ready mode (owned other) _ (Lib.length_of_mem_places inside)
            intro path _
            exact separate other index different _ ⟨rfl, List.prefix_append _ _⟩
          rw [sameDemand] at effectRest
          refine ⟨success, entriesAfter, next, after, ?_, (effect.mono wider).trans effectRest, ?_⟩
          · simp only [reserveEntries, run_bind, ran, Option.bind_some, if_true, ranRest]
          · intro other
            apply ((step other).trans (grownRest other)).weaken
            · rintro path (⟨rfl, inside⟩ | later)
              · exact List.mem_append_left _ (List.mem_map_of_mem inside)
              · exact List.mem_append_right _ later
            · intro done
              refine ⟨by simpa using done, fun path member => ?_⟩
              rcases List.mem_append.mp member with here | later
              · obtain ⟨_, inside, same⟩ := List.mem_map.mp here
                obtain ⟨rfl, rfl⟩ := Prod.mk.inj same
                exact .inl ⟨rfl, inside⟩
              · exact .inr later

/-- The nodes at the entries of an index block. -/
def childNode (node : Place) (index : Fin 128) : Place := (node.1, node.2 ++ [index])

theorem childNode_separate (node : Place) : Separate (childNode node) := by
  rintro first second different place ⟨_, one⟩ ⟨_, two⟩
  apply different
  have same := List.prefix_of_prefix_length_le one two (by simp [childNode])
  have equal := same.eq_of_length (by simp [childNode])
  simpa [childNode] using equal

theorem below_of_childNode {node place : Place} {index : Fin 128} (below : Below (childNode node index) place) :
    Below node place :=
  ⟨below.1, (List.prefix_append _ _).trans below.2⟩

theorem childNode_append (node : Place) (index : Fin 128) (path : List (Fin 128)) :
    (childNode node index).2 ++ path = node.2 ++ index :: path := by simp [childNode]

theorem follow_child {store : BlockSector → Sector} {entry : BlockSector} (present : entry ≠ 0) (index : Fin 128)
    (path : List (Fin 128)) : indexTree.follow store entry (index :: path) =
      indexTree.follow store ((store entry).words index) path := by
  rw [Lib.PointerTree.follow_cons, indexTree.child_of_ne present, indexTree_children]

theorem TreeOwned.child {node : Place} {level : Nat} {store : BlockSector → Sector} {entry : BlockSector}
    (owned : TreeOwned own inode node (level + 1) store entry) (present : entry ≠ 0) (index : Fin 128) :
    TreeOwned own inode (childNode node index) level store ((store entry).words index) := by
  intro path within pathPresent
  rw [← follow_child present] at pathPresent ⊢
  rw [childNode_append]
  exact owned (index :: path) (by simpa using within) pathPresent

/-- The entries of an index block that its loop visits. -/
def blockPlaces (level count : Nat) : List (Fin 128 × List (Fin 128)) :=
  entryPlaces (places 128 level) (128 ^ level)
    ((List.finRange 128).take (divRoundUp count (128 ^ level))) count

theorem places_succ (level count : Nat) : places 128 (level + 1) count =
    [] :: (blockPlaces level count).map fun place => place.1 :: place.2 := rfl

theorem demand_present {store : BlockSector → Sector} {entry : BlockSector} (present : entry ≠ 0) (level count : Nat) :
    demand store entry (level + 1) (places 128 (level + 1) count) =
      entriesDemand store (store entry).words level (blockPlaces level count) := by
  rw [places_succ, demand, List.filter_cons_of_neg (by simp [present]), List.filter_map, List.map_map,
    entriesDemand]
  simp only [Function.comp_def, follow_child present, List.length_cons, Nat.add_lt_add_iff_right]

theorem demand_missing (store : BlockSector → Sector) (level count : Nat) :
    demand store 0 (level + 1) (places 128 (level + 1) count) =
      true :: entriesDemand store (fun _ => 0) level (blockPlaces level count) := by
  have null : ∀ path, indexTree.follow store 0 path = 0 := indexTree.follow_null store
  rw [places_succ, demand, List.filter_cons_of_pos (by simp [null]), List.map_cons, List.filter_map, List.map_map,
    entriesDemand]
  simp only [Function.comp_def, null, List.length_cons, List.length_nil, Nat.zero_lt_succ, decide_true,
    Nat.add_lt_add_iff_right]

/-- Entries that are not written back keep what hangs below them. -/
theorem Grown.discard {node : Place} {level : Nat} {needed : List (Fin 128) → Prop} {success : Bool}
    {store final : BlockSector → Sector} {entry last : BlockSector}
    (grown : Grown own inode node level needed success store final entry last) :
    Grown own inode node level needed false store final entry entry := by
  by_cases missing : entry = 0
  · rw [missing]
    exact grown_null own inode node level needed store final
  · have same : last = entry := grown.kept [] (Nat.zero_le _) missing
    rw [same] at grown
    exact grown.weaken (fun _ isNeeded => isNeeded) fun impossible => by cases impossible

/-- An index block grows with its entries. -/
theorem grown_index {node : Place} {level count : Nat} {success : Bool} {store middle final : BlockSector → Sector}
    {entry : BlockSector} {value : Fin 128 → BlockSector} (present : entry ≠ 0)
    (owned : own entry = some (inode, some node))
    (children : ∀ index, Grown own inode (childNode node index) level (fun path => (index, path) ∈ blockPlaces level count)
      success store middle ((store entry).words index) (value index))
    (stored : (final entry).words = value) (others : ∀ sector, sector ≠ entry → final sector = middle sector) :
    Grown own inode node (level + 1) (· ∈ places 128 (level + 1) count) success store final entry entry := by
  have apart : ∀ index (path : List (Fin 128)), path.length ≤ level →
      indexTree.follow middle (value index) path ≠ 0 → indexTree.follow middle (value index) path ≠ entry := by
    intro index path within pathPresent same
    have pathOwned := (children index).owned path within pathPresent
    rw [same, owned, childNode_append] at pathOwned
    simp only [Option.some.injEq, Prod.mk.injEq, true_and] at pathOwned
    have := congrArg (fun place : Place => place.2.length) pathOwned
    simp at this
  have below : ∀ index (path : List (Fin 128)), path.length ≤ level →
      indexTree.follow final entry (index :: path) = indexTree.follow middle (value index) path := by
    intro index path within
    rw [follow_child present, stored]
    apply indexTree.follow_congr level _ within
    intro inner shorter innerPresent
    exact others _ (apart index inner (Nat.le_of_lt shorter) innerPresent)
  constructor
  · intro path within pathPresent
    cases path with
    | nil => simpa using owned
    | cons index path =>
        have within : path.length ≤ level := by simpa using within
        rw [below index path within] at pathPresent ⊢
        rw [← childNode_append]
        exact (children index).owned path within pathPresent
  · intro path within pathPresent
    cases path with
    | nil => rfl
    | cons index path =>
        have within : path.length ≤ level := by simpa using within
        rw [below index path within, follow_child present]
        rw [follow_child present] at pathPresent
        exact (children index).kept path within pathPresent
  · intro path isLeaf pathPresent
    cases path with
    | nil => cases isLeaf
    | cons index path =>
        have isLeaf : path.length = level := by simpa using isLeaf
        have within := Nat.le_of_eq isLeaf
        rw [follow_child present] at pathPresent ⊢
        have same := (children index).kept path within pathPresent
        rw [others _ (same ▸ apart index path within (same ▸ pathPresent))]
        exact (children index).data path isLeaf pathPresent
  · intro path within absent pathPresent
    cases path with
    | nil => exact absurd absent present
    | cons index path =>
        have within : path.length ≤ level := by simpa using within
        rw [follow_child present] at absent
        rw [below index path within] at pathPresent
        obtain ⟨inPlaces, zero⟩ := (children index).added path within absent pathPresent
        rw [below index path within, others _ (apart index path within pathPresent)]
        refine ⟨?_, fun isLeaf => zero (by simpa using isLeaf)⟩
        rw [places_succ]
        exact List.mem_cons_of_mem _ (List.mem_map.mpr ⟨_, inPlaces, rfl⟩)
  · intro done path inPlaces within
    rw [places_succ] at inPlaces
    rcases List.mem_cons.mp inPlaces with rfl | later
    · exact present
    · obtain ⟨⟨index, path⟩, inside, rfl⟩ := List.mem_map.mp later
      have within : path.length ≤ level := by simpa using within
      rw [below index path within]
      exact (children index).full done path inside within

/-- The loop visits no more entries than there are leaves to reserve. -/
theorem blockPlaces_enough (level count : Nat) :
    128 ^ level * ((List.finRange 128).take (divRoundUp count (128 ^ level))).length < count + 128 ^ level := by
  have unitPositive : 0 < 128 ^ level := Nat.pow_pos (by decide)
  have short : ((List.finRange 128).take (divRoundUp count (128 ^ level))).length ≤
      divRoundUp count (128 ^ level) := List.length_take_le _ _
  have product := Nat.mul_le_mul_left (128 ^ level) short
  have quotient := Nat.mul_div_le (count + 128 ^ level - 1) (128 ^ level)
  unfold divRoundUp at product ⊢
  omega

theorem nodup_blockEntries (l : Nat) : ((List.finRange 128).take l).Nodup :=
  (List.nodup_finRange 128).sublist (List.take_sublist _ _)

/-- Something is always missing below an empty index block. -/
theorem entriesDemand_null (store : BlockSector → Sector) (level : Nat) {count : Nat} (positive : 0 < count) :
    entriesDemand store (fun _ : Fin 128 => 0) level (blockPlaces level count) ≠ [] := by
  have unitPositive : 0 < 128 ^ level := Nat.pow_pos (by decide)
  have visited : ((0 : Fin 128), ([] : List (Fin 128))) ∈ blockPlaces level count := by
    apply (Lib.mem_entryPlaces (Lib.take_finRange_consecutive _) _ _).mpr
    refine ⟨(Lib.mem_take_finRange _).mpr ?_, Lib.root_mem_places _ _⟩
    exact Nat.div_pos (by omega) unitPositive
  intro empty
  rw [entriesDemand, List.map_eq_nil_iff, List.filter_eq_nil_iff] at empty
  exact empty _ visited (by simp)

/-- The loop over an index block that is there. -/
theorem reserveBelow_spec {node : Place} {level : Nat} (isIndex : ¬ node.isLeaf)
    {reserve : BlockSector → Nat → Action (Bool × BlockSector)}
    (reserves : ∀ index, Reserves shared inode (childNode node index) level reserve) {entry : BlockSector}
    (present : entry ≠ 0) (count : Nat) (sound : own.Sound world)
    (ready : Ready own shared world) (mode : world.mem.freeMapFile = none ∨ inode ≠ 0)
    (owned : TreeOwned own inode node (level + 1) world.disk entry) :
    ∃ success next after, run (reserveBelow reserve (128 ^ level) entry count) world =
        some ((success, entry), next) ∧
      Effect shared inode (Below node) own after
        (entriesDemand world.disk (world.disk entry).words level (blockPlaces level count)) world next success ∧
      Grown after inode node (level + 1) (· ∈ places 128 (level + 1) count) success world.disk next.disk entry
        entry := by
  have unitPositive : 0 < 128 ^ level := Nat.pow_pos (by decide)
  obtain ⟨success, blocks, middle, after, ran, effect, grown⟩ := reserveEntries_spec (childNode_separate node)
    unitPositive reserves _ (nodup_blockEntries _) count own world (world.disk entry).words sound ready mode
    (owned.child present) (blockPlaces_enough level count)
  have nodeOwned : own entry = some (inode, some node) := by
    have := owned [] (Nat.zero_le _) present
    rwa [Lib.PointerTree.follow_nil, List.append_nil] at this
  have entryKept : middle.disk entry = world.disk entry := by
    apply effect.unchanged sound nodeOwned
    · intro inFile
      exact ready.apart mode inFile _ nodeOwned
    · rintro _ ⟨⟨index, _, longer⟩, _⟩
      have short := longer.length_le
      simp only [childNode, List.length_append, List.length_singleton] at short
      omega
  have wide := effect.mono fun place ⟨index, below⟩ => (below_of_childNode below : Below node place)
  have nodeAfter := effect.kept _ _ nodeOwned
  have prefixRun : run (reserveBelow reserve (128 ^ level) entry count) world =
      run (if success then do
        bufferCacheWrite entry (Sector.ofWords blocks)
        pure (true, entry)
      else pure (false, entry)) middle := by
    simp only [reserveBelow, run_bind, run_bufferCacheRead, Option.bind_some, ran]
  cases success with
  | true =>
      have rewritten := Effect.rewrite effect.ready (by rwa [effect.freeMapFile]) nodeAfter
        (show Below node node from ⟨rfl, List.prefix_refl _⟩) isIndex (Sector.ofWords blocks)
      refine ⟨true, middle.write entry (Sector.ofWords blocks), after, ?_, ?_, ?_⟩
      · rw [prefixRun]
        simp only [if_true, run_bind, World.run_write, Option.bind_some, run_pure]
      · have both := wide.trans rewritten
        rwa [List.append_nil] at both
      · apply grown_index present nodeAfter grown
        · rw [World.write_same, Sector.words_ofWords]
        · exact fun sector different => World.write_other _ _ different
  | false =>
      refine ⟨false, middle, after, ?_, wide, ?_⟩
      · rw [prefixRun]
        simp only [Bool.false_eq_true, if_false, run_pure]
      · apply grown_index present nodeAfter (fun index => (grown index).discard)
        · rw [entryKept]
        · exact fun _ _ => rfl

/-- A new index block is an empty subtree. -/
theorem grown_new {node : Place} {level : Nat} {entry : BlockSector} (after store : BlockSector → Sector)
    (owned : own entry = some (inode, some node)) (cleared : after entry = zeros) (present : entry ≠ 0) :
    Grown own inode node (level + 1) (fun path => path = []) true store after 0 entry := by
  have below : ∀ index path, indexTree.follow after entry (index :: path) = 0 := by
    intro index path
    rw [follow_child present, cleared, Sector.words_zeros]
    exact indexTree.follow_null after path
  constructor
  · intro path _ pathPresent
    cases path with
    | nil => simpa using owned
    | cons index path => exact absurd (below index path) pathPresent
  · intro path _ pathPresent
    exact absurd (indexTree.follow_null store path) pathPresent
  · intro path _ pathPresent
    exact absurd (indexTree.follow_null store path) pathPresent
  · intro path _ _ pathPresent
    cases path with
    | nil => exact ⟨rfl, fun impossible => by cases impossible⟩
    | cons index path => exact absurd (below index path) pathPresent
  · rintro _ path rfl _
    exact present

theorem entriesDemand_zeros (store other : BlockSector → Sector) (level : Nat)
    (nodes : List (Fin 128 × List (Fin 128))) :
    entriesDemand store (Sector.words zeros) level nodes = entriesDemand other (fun _ => 0) level nodes := by
  apply entriesDemand_congr
  intro node _
  rw [Sector.words_zeros]
  exact (indexTree.follow_null store _).trans (indexTree.follow_null other _).symm

/-- Without a free sector for the index block the loop reads zeros from sector 0 and fails too. -/
theorem reserveBelow_stuck {node : Place} (level : Nat) {reserve : BlockSector → Nat → Action (Bool × BlockSector)}
    (reserves : ∀ index, Reserves shared inode (childNode node index) level reserve) {count : Nat}
    (positive : 0 < count) (sound : own.Sound world) (ready : Ready own shared world) (room : world.free = 0)
    (mode : world.mem.freeMapFile = none ∨ inode ≠ 0) :
    ∃ next after, run (reserveBelow reserve (128 ^ level) 0 count) (world.failed.write 0 zeros) =
        some ((false, 0), next) ∧
      Effect shared inode (Below node) own after (entriesDemand world.disk (fun _ => 0) level (blockPlaces level count))
        (world.failed.write 0 zeros) next false := by
  have clearedReady := ready.failed.write (sound.zero 0) zeros
  have clearedSound : own.Sound (world.failed.write 0 zeros) := sound.congr rfl fun _ _ used => used
  obtain ⟨success, blocks, next, after, ran, effect, _⟩ := reserveEntries_spec (childNode_separate node)
    (Nat.pow_pos (by decide)) reserves _ (nodup_blockEntries _) count own _ (Sector.words zeros) clearedSound
    clearedReady mode (fun index => by rw [Sector.words_zeros]; exact treeOwned_null _ _ _ _ _)
    (blockPlaces_enough level count)
  have demands : entriesDemand (world.failed.write 0 zeros).disk (Sector.words zeros) level
      (blockPlaces level count) = entriesDemand world.disk (fun _ => 0) level (blockPlaces level count) :=
    entriesDemand_zeros _ _ _ _
  rw [show entryPlaces (places 128 level) (128 ^ level) ((List.finRange 128).take (divRoundUp count (128 ^ level)))
    count = blockPlaces level count from rfl, demands] at effect
  have failing : success = false := by
    rw [effect.outcome]
    apply decide_eq_false
    have some_missing := List.length_pos_iff.mpr (entriesDemand_null world.disk level positive)
    change ¬ _ ≤ world.free
    omega
  subst failing
  refine ⟨next, after, ?_, effect.mono fun place ⟨index, below⟩ => below_of_childNode below⟩
  simp only [reserveBelow, run_bind, run_bufferCacheRead, Option.bind_some, World.write_same, ran, Bool.false_eq_true,
    if_false, run_pure]

/-- `inode_reserve_indirect` extends a subtree, up to the level of the doubly indirect block. -/
theorem inodeReserveIndirect_reserves (depth level : Nat) (small : level ≤ 2) (node : Place)
    (depthOfNode : node.2.length + level = rootLevel node.1) : Reserves shared inode node level
      (inodeReserveIndirect (freeMapAllocateBy (inodeWriteAtWithin (depth + 1)) 1) level) := by
  induction level generalizing node with
  | zero => exact reserveBlock_reserves node depth
  | succ level ih =>
      have isIndex : ¬ node.isLeaf := by
        unfold Place.isLeaf
        omega
      have unit : (if level + 1 = 1 then 1 else 128) = 128 ^ level := by
        obtain rfl | rfl : level = 0 ∨ level = 1 := by omega
        · rfl
        · rfl
      have reserves : ∀ index, Reserves shared inode (childNode node index) level
          (inodeReserveIndirect (freeMapAllocateBy (inodeWriteAtWithin (depth + 1)) 1) level) := by
        intro index
        apply ih (by omega)
        simp only [childNode, List.length_append, List.length_singleton]
        omega
      intro own world entry count sound ready mode owned positive
      by_cases missing : entry = 0
      · subst missing
        rw [demand_missing]
        by_cases room : world.free = 0
        · obtain ⟨next, after, ran, effect⟩ := reserveBelow_stuck level reserves positive sound ready room mode
          refine ⟨false, 0, next, after, ?_, Effect.stuck sound ready room effect, grown_null _ _ _ _ _ _ _⟩
          simp only [inodeReserveIndirect, reserveIndexBlock, if_true, run_bind, freeMapAllocateBy_full room,
            Option.bind_some, Option.getD_none, World.run_write, run_pure, unit, ran]
        · have isMine : Below node node := ⟨rfl, List.prefix_refl _⟩
          obtain ⟨sector, middle, ran, nonzero, effect⟩ := Effect.take inode depth sound ready room isMine true
          have started : Grown (Function.update own sector (some (inode, some node))) inode node (level + 1)
              (fun path => path = []) true world.disk (middle.write sector zeros).disk 0 sector :=
            grown_new _ _ (Function.update_self _ _ _) (World.write_same _ _ _) nonzero
          obtain ⟨success, next, after, ranBelow, effectBelow, grown⟩ := reserveBelow_spec isIndex reserves nonzero
            count (effect.sound sound) effect.ready (by rwa [effect.freeMapFile]) started.owned
          refine ⟨success, sector, next, after, ?_, ?_, ?_⟩
          · simp only [inodeReserveIndirect, reserveIndexBlock, if_true, run_bind, ran, Option.bind_some,
              Option.getD_some, World.run_write, run_pure, unit, ranBelow]
          · rw [World.write_same, entriesDemand_zeros _ world.disk] at effectBelow
            exact effect.trans effectBelow
          · apply (started.trans grown).weaken
            · rintro path (rfl | inPlaces)
              · exact Lib.root_mem_places _ _
              · exact inPlaces
            · intro done
              exact ⟨by simpa using done, fun path inPlaces => .inr inPlaces⟩
      · rw [demand_present missing]
        obtain ⟨success, next, after, ran, effect, grown⟩ :=
          reserveBelow_spec isIndex reserves missing count sound ready mode owned
        refine ⟨success, entry, next, after, ?_, effect, grown⟩
        simp only [inodeReserveIndirect, reserveIndexBlock, missing, if_false, run_bind, run_pure, Option.bind_some,
          unit, ran]

end MockOS.Fs
