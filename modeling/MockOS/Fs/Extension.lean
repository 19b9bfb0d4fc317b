import MockOS.Fs.Reservation

namespace MockOS.Fs

open Lib (places entryPlaces)

/-- The missing blocks of an inode in the order of their allocation, each with a flag for index blocks. -/
def inodeDemand (store : BlockSector → Sector) (data : InodeDisk) (blocks : Nat) : List Bool :=
  ((inodePlaces blocks).filter fun place => sectorAt store data place = 0).map fun place =>
    decide (place.2.length < rootLevel place.1)

/-- All subtrees of an inode grow. -/
def InodeGrown (own : Owners) (inode : BlockSector) (needed : Place → Prop) (success : Bool)
    (store after : BlockSector → Sector) (data dataAfter : InodeDisk) : Prop :=
  ∀ root, Grown own inode (root, []) (rootLevel root) (fun path => needed (root, path)) success store after
    (data.entry root) (dataAfter.entry root)

variable {shared : BlockSector → Prop} {inode : BlockSector} {own after : Owners} {world next : World}
  {data dataAfter : InodeDisk}

theorem inodeOwned_iff {store : BlockSector → Sector} : InodeOwned own store inode data ↔
    ∀ root, TreeOwned own inode (root, []) (rootLevel root) store (data.entry root) := by
  constructor
  · intro owned root path within present
    exact owned (root, path) within present
  · intro owned place within present
    exact owned place.1 place.2 within present

namespace InodeGrown

variable {needed wanted : Place → Prop} {success second : Bool} {store middle final : BlockSector → Sector}
  {between last : InodeDisk}

theorem owned (grown : InodeGrown own inode needed success store final data last) : InodeOwned own final inode last :=
  inodeOwned_iff.mpr fun root => (grown root).owned

theorem kept (grown : InodeGrown own inode needed success store final data last) {place : Place}
    (within : place.within) (present : sectorAt store data place ≠ 0) :
    sectorAt final last place = sectorAt store data place := (grown place.1).kept place.2 within present

theorem unchanged (grown : InodeGrown own inode needed success store final data last) {place : Place}
    (isLeaf : place.isLeaf) (present : sectorAt store data place ≠ 0) :
    final (sectorAt store data place) = store (sectorAt store data place) :=
  (grown place.1).data place.2 isLeaf present

theorem added (grown : InodeGrown own inode needed success store final data last) {place : Place}
    (within : place.within) (absent : sectorAt store data place = 0) (present : sectorAt final last place ≠ 0) :
    needed place ∧ (place.isLeaf → final (sectorAt final last place) = zeros) :=
  (grown place.1).added place.2 within absent present

theorem full (grown : InodeGrown own inode needed true store final data last) {place : Place}
    (within : place.within) (isNeeded : needed place) : sectorAt final last place ≠ 0 :=
  (grown place.1).full rfl place.2 isNeeded within

theorem trans (first : InodeGrown own inode needed success store middle data between)
    (later : InodeGrown after inode wanted second middle final between last) :
    InodeGrown after inode (fun place => needed place ∨ wanted place) (success && second) store final data last :=
  fun root => (first root).trans (later root)

theorem weaken (grown : InodeGrown own inode needed success store final data last)
    (subset : ∀ place, needed place → wanted place)
    (same : second → success ∧ ∀ place, wanted place → needed place) :
    InodeGrown own inode wanted second store final data last := fun root =>
  (grown root).weaken (fun _ => subset _) fun done => ⟨(same done).1, fun _ => (same done).2 _⟩

end InodeGrown

/-- The extension of one subtree of an inode. -/
theorem inodeGrown_root {root : Fin 125} {demands : List Bool} {success : Bool} {needed : List (Fin 128) → Prop}
    (effect : Effect shared inode (Below (root, [])) own after demands world next success) (sound : own.Sound world)
    (ready : Ready own shared world) (mode : world.mem.freeMapFile = none ∨ inode ≠ 0)
    (owned : InodeOwned own world.disk inode data)
    (grown : Grown after inode (root, []) (rootLevel root) needed success world.disk next.disk (data.entry root)
      (dataAfter.entry root))
    (others : ∀ other, other ≠ root → dataAfter.entry other = data.entry other) :
    InodeGrown after inode (fun place => place.1 = root ∧ needed place.2) success world.disk next.disk data
      dataAfter := by
  intro other
  by_cases same : other = root
  · subst same
    exact grown.weaken (fun path isNeeded => ⟨rfl, isNeeded⟩) fun done => ⟨done, fun path inside => inside.2⟩
  · rw [others other same]
    have unmoved := effect.grown_other sound ready mode (inodeOwned_iff.mp owned other) fun path _ below =>
      same below.1
    exact unmoved.weaken (fun path impossible => impossible.elim) fun _ => ⟨rfl, fun path inside => same inside.1⟩

theorem Effect.sectorAt_eq {mine : Place → Prop} {demands : List Bool} {success : Bool}
    (effect : Effect shared inode mine own after demands world next success) (sound : own.Sound world)
    (ready : Ready own shared world) (mode : world.mem.freeMapFile = none ∨ inode ≠ 0)
    (owned : InodeOwned own world.disk inode data) {place : Place} (within : place.within)
    (separate : ∀ path, ¬ mine (place.1, path)) : sectorAt next.disk data place = sectorAt world.disk data place :=
  effect.follow_eq sound ready mode (inodeOwned_iff.mp owned place.1) (fun _ _ => separate _) within

/-- The nodes at the direct blocks. -/
def directNode (index : Fin 123) : Place := (⟨index.val, direct_lt index⟩, [])

theorem directNode_separate : Separate directNode := by
  rintro first second different place ⟨one, _⟩ ⟨two, _⟩
  apply different
  apply Fin.ext
  simpa [directNode] using one.symm.trans two

@[simp] theorem entry_direct (data : InodeDisk) (index : Fin 123) :
    data.entry ⟨index.val, direct_lt index⟩ = data.directBlocks index := by simp [InodeDisk.entry]

theorem entryPlaces_leaves {count : Nat} (indices : List (Fin count)) (unit leaves : Nat) :
    entryPlaces (places 128 0) unit indices leaves = indices.map fun index => (index, []) := by
  induction indices generalizing leaves with
  | nil => rfl
  | cons index rest ih =>
      rw [entryPlaces, ih]
      rfl

/-- The direct blocks of an inode. -/
theorem reserveDirect_spec (depth : Nat) (l : Nat) (sound : own.Sound world) (ready : Ready own shared world)
    (mode : world.mem.freeMapFile = none ∨ inode ≠ 0) (owned : InodeOwned own world.disk inode data) (small : l ≤ 123) :
    ∃ success direct next after,
      run (reserveEntries (fun entry _ => reserveBlock (freeMapAllocateBy (inodeWriteAtWithin (depth + 1)) 1) entry) 1
        ((List.finRange 123).take l) data.directBlocks l) world = some ((success, direct), next) ∧
      Effect shared inode (fun place => place.1.val < 123) own after
        (entriesDemand world.disk data.directBlocks 0 (((List.finRange 123).take l).map fun index => (index, [])))
        world next success ∧
      InodeGrown after inode (fun place => place.1.val < l ∧ place.2 = []) success world.disk next.disk data
        { data with directBlocks := direct } := by
  obtain ⟨success, direct, next, after, ran, effect, grown⟩ := reserveEntries_spec directNode_separate
    (by decide : 0 < 1) (fun index => reserveBlock_reserves (directNode index) depth)
    ((List.finRange 123).take l) ((List.nodup_finRange 123).sublist (List.take_sublist _ _)) l own world
    data.directBlocks sound ready mode (fun index => by
      have := inodeOwned_iff.mp owned ⟨index.val, by omega⟩
      rwa [entry_direct, show rootLevel ⟨index.val, _⟩ = 0 from if_pos index.isLt] at this)
    (by rw [List.length_take, List.length_finRange]; omega)
  rw [entryPlaces_leaves] at effect
  simp only [entryPlaces_leaves] at grown
  refine ⟨success, direct, next, after, ran, effect.mono ?_, ?_⟩
  · rintro place ⟨index, same, _⟩
    rw [same]
    exact index.isLt
  · intro root
    by_cases isDirect : root.val < 123
    · have here := grown ⟨root.val, isDirect⟩
      have level : rootLevel root = 0 := if_pos isDirect
      have before : data.entry root = data.directBlocks ⟨root.val, isDirect⟩ := dif_pos isDirect
      have behind : ({ data with directBlocks := direct } : InodeDisk).entry root = direct ⟨root.val, isDirect⟩ :=
        dif_pos isDirect
      rw [level, before, behind]
      apply here.weaken
      · intro path member
        obtain ⟨index, taken, same⟩ := List.mem_map.mp member
        obtain ⟨rfl, rfl⟩ := Prod.mk.inj same
        exact ⟨(Lib.mem_take_finRange (⟨root.val, isDirect⟩ : Fin 123)).mp taken, rfl⟩
      · rintro done
        refine ⟨done, ?_⟩
        rintro path ⟨taken, rfl⟩
        exact List.mem_map.mpr ⟨_, (Lib.mem_take_finRange _).mpr taken, rfl⟩
    · have same : ({ data with directBlocks := direct } : InodeDisk).entry root = data.entry root := by
        simp [InodeDisk.entry, isDirect]
      rw [same]
      have unmoved := effect.grown_other sound ready mode (inodeOwned_iff.mp owned root) (by
        rintro path _ ⟨index, equal, _⟩
        have : root.val = index.val := congrArg Fin.val equal
        omega)
      exact unmoved.weaken (fun path impossible => impossible.elim) fun _ =>
        ⟨rfl, fun path inside => isDirect (Nat.lt_of_lt_of_le inside.1 small)⟩

/-- The blocks under the indirect or the doubly indirect block of an inode. -/
theorem reserveRoot_spec (depth : Nat) (root : Fin 125) {count : Nat} (positive : 0 < count)
    (sound : own.Sound world) (ready : Ready own shared world) (mode : world.mem.freeMapFile = none ∨ inode ≠ 0)
    (owned : InodeOwned own world.disk inode data) (withEntry : BlockSector → InodeDisk)
    (entryAfter : ∀ entry, (withEntry entry).entry root = entry)
    (others : ∀ entry other, other ≠ root → (withEntry entry).entry other = data.entry other) :
    ∃ success entry next after,
      run (inodeReserveIndirect (freeMapAllocateBy (inodeWriteAtWithin (depth + 1)) 1) (rootLevel root)
        (data.entry root) count) world = some ((success, entry), next) ∧
      Effect shared inode (fun place => place.1 = root) own after
        (demand world.disk (data.entry root) (rootLevel root) (places 128 (rootLevel root) count)) world next
        success ∧
      InodeGrown after inode (fun place => place.1 = root ∧ place.2 ∈ places 128 (rootLevel root) count) success
        world.disk next.disk data (withEntry entry) := by
  have small : rootLevel root ≤ 2 := by
    unfold rootLevel
    split_ifs <;> omega
  obtain ⟨success, entry, next, after, ran, effect, grown⟩ := inodeReserveIndirect_reserves depth (rootLevel root)
    small (root, []) (Nat.zero_add _) own world (data.entry root) count sound ready mode (inodeOwned_iff.mp owned root)
    positive
  refine ⟨success, entry, next, after, ran, effect.mono fun place below => below.1, ?_⟩
  apply inodeGrown_root effect sound ready mode owned _ (others entry)
  rw [entryAfter entry]
  exact grown

theorem mem_inodePlaces {place : Place} {blocks : Nat} : place ∈ inodePlaces blocks ↔
    (place.1.val < min blocks 123 ∧ place.2 = []) ∨
      (123 < blocks ∧ place.1 = 123 ∧ place.2 ∈ places 128 1 (min (blocks - 123) 128)) ∨
      (251 < blocks ∧ place.1 = 124 ∧ place.2 ∈ places 128 2 (min (blocks - 251) (128 * 128))) := by
  obtain ⟨root, path⟩ := place
  rw [inodePlaces, List.mem_append, List.mem_append, or_assoc]
  apply or_congr
  · constructor
    · intro member
      obtain ⟨index, taken, same⟩ := List.mem_map.mp member
      obtain ⟨rfl, rfl⟩ := Prod.mk.inj same
      exact ⟨(Lib.mem_take_finRange index).mp taken, rfl⟩
    · rintro ⟨small, rfl⟩
      have small : root.val < min blocks 123 := small
      exact List.mem_map.mpr ⟨⟨root.val, by omega⟩, (Lib.mem_take_finRange _).mpr small, rfl⟩
  · apply or_congr
    · by_cases more : blocks > 123
      · simp [more, eq_comm, and_comm]
      · simp [more]
    · by_cases more : blocks > 251
      · simp [more, eq_comm, and_comm]
      · simp [more]

theorem inodeDemand_eq (store : BlockSector → Sector) (data : InodeDisk) (blocks : Nat) :
    inodeDemand store data blocks =
      entriesDemand store data.directBlocks 0 (((List.finRange 123).take (min blocks 123)).map fun index => (index, [])) ++
        (if blocks > 123 then demand store data.indirectBlock 1 (places 128 1 (min (blocks - 123) 128)) else []) ++
        (if blocks > 251 then demand store data.doublyIndirectBlock 2 (places 128 2 (min (blocks - 251) (128 * 128)))
          else []) := by
  have root : ∀ (root : Fin 125) paths, ((paths.map fun path => (root, path)).filter fun place : Place =>
        sectorAt store data place = 0).map (fun place => decide (place.2.length < rootLevel place.1)) =
      demand store (data.entry root) (rootLevel root) paths := by
    intro root paths
    rw [List.filter_map, List.map_map]
    rfl
  have direct : ∀ indices : List (Fin 123),
      ((indices.map fun index => ((⟨index.val, direct_lt index⟩, []) : Place)).filter fun place : Place =>
        sectorAt store data place = 0).map (fun place => decide (place.2.length < rootLevel place.1)) =
      entriesDemand store data.directBlocks 0 (indices.map fun index => (index, [])) := by
    intro indices
    rw [entriesDemand, List.filter_map, List.filter_map, List.map_map, List.map_map]
    simp only [Function.comp_def, sectorAt, Lib.PointerTree.follow_nil, entry_direct, List.length_nil]
    apply List.map_congr_left
    intro index _
    simp [rootLevel]
  rw [inodeDemand, inodePlaces, List.filter_append, List.filter_append, List.map_append, List.map_append, direct]
  congr 1
  · congr 1
    split
    · exact root 123 _
    · rfl
  · split
    · exact root 124 _
    · rfl

/-- The demand of one subtree is not changed by the extension of others. -/
theorem Effect.demand_eq {mine : Place → Prop} {demands : List Bool} {success : Bool}
    (effect : Effect shared inode mine own after demands world next success) (sound : own.Sound world)
    (ready : Ready own shared world) (mode : world.mem.freeMapFile = none ∨ inode ≠ 0)
    (owned : InodeOwned own world.disk inode data) (root : Fin 125) (separate : ∀ path, ¬ mine (root, path))
    (count : Nat) : demand next.disk (data.entry root) (rootLevel root) (places 128 (rootLevel root) count) =
      demand world.disk (data.entry root) (rootLevel root) (places 128 (rootLevel root) count) := by
  unfold demand
  congr 1
  apply List.filter_congr
  intro path member
  rw [effect.follow_eq sound ready mode (inodeOwned_iff.mp owned root) (fun _ _ => separate _)
    (Lib.length_of_mem_places member)]

/-- `inode_reserve` succeeds when the free sectors suffice and the length is possible; in any case it goes through all
missing blocks until one cannot be allocated. -/
theorem inodeReserve_spec (depth : Nat) {length : Int} (nonnegative : 0 ≤ length) (sound : own.Sound world)
    (ready : Ready own shared world) (mode : world.mem.freeMapFile = none ∨ inode ≠ 0)
    (owned : InodeOwned own world.disk inode data) :
    ∃ success dataAfter next after,
      run (inodeReserve (freeMapAllocateBy (inodeWriteAtWithin (depth + 1)) 1) data length) world =
        some ((success && decide (bytesToSectors length ≤ maxBlocks), dataAfter), next) ∧
      Effect shared inode (fun _ => True) own after (inodeDemand world.disk data (bytesToSectors length)) world next
        success ∧
      InodeGrown after inode (· ∈ inodePlaces (bytesToSectors length)) success world.disk next.disk data dataAfter ∧
      ∃ direct indirect doubly, dataAfter =
        { data with directBlocks := direct, indirectBlock := indirect, doublyIndirectBlock := doubly } := by
  have maximum : maxBlocks = 16635 := rfl
  rw [inodeReserve, if_neg (by omega), inodeDemand_eq]
  simp only [mem_inodePlaces]
  generalize bytesToSectors length = blocks
  -- (1) direct blocks
  obtain ⟨one, direct, world₁, own₁, ran₁, effect₁, grown₁⟩ :=
    reserveDirect_spec depth (min blocks 123) sound ready mode owned (Nat.min_le_right _ _)
  have wide₁ := effect₁.mono fun _ _ => trivial
  simp only [run_bind, ran₁, Option.bind_some]
  cases one with
  | false =>
      refine ⟨false, _, world₁, own₁, rfl, ?_, grown₁.weaken (fun _ => .inl) (by simp), _, _, _, rfl⟩
      rw [List.append_assoc]
      exact wide₁.stop
  | true =>
      by_cases few : blocks ≤ 123
      · rw [if_neg (by simp), if_pos (by omega), if_neg (by omega), if_neg (by omega), List.append_nil, List.append_nil,
          run_pure]
        refine ⟨true, _, world₁, own₁, by simp; omega, wide₁, grown₁.weaken (fun _ => .inl) ?_, _, _, _, rfl⟩
        rintro -
        refine ⟨rfl, ?_⟩
        rintro place (inside | ⟨impossible, _⟩ | ⟨impossible, _⟩)
        · exact inside
        · omega
        · omega
      · -- (2) a single indirect block
        have sound₁ := effect₁.sound sound
        have mode₁ : world₁.mem.freeMapFile = none ∨ inode ≠ 0 := by rwa [effect₁.freeMapFile]
        have demand₂ := effect₁.demand_eq sound ready mode owned 123 (fun _ => Nat.lt_irrefl 123)
          (min (blocks - 123) 128)
        have demand₃ := effect₁.demand_eq sound ready mode owned 124 (fun _ => Nat.not_lt.mpr (Nat.le_succ 123))
          (min (blocks - 251) (128 * 128))
        obtain ⟨two, indirect, world₂, own₂, ran₂, effect₂, grown₂⟩ := reserveRoot_spec depth 123
          (by omega : 0 < min (blocks - 123) 128) sound₁ effect₁.ready mode₁ grown₁.owned
          (fun entry => { data with directBlocks := direct, indirectBlock := entry }) (fun _ => rfl)
          (fun entry other different => by
            unfold InodeDisk.entry
            split_ifs with h k
            · rfl
            · exact absurd (Fin.ext k) different
            · rfl)
        have wide₂ := effect₂.mono fun _ _ => trivial
        change Effect shared inode (fun _ => True) own₁ own₂ (demand world₁.disk (data.entry 123) (rootLevel 123)
          (places 128 (rootLevel 123) (min (blocks - 123) 128))) world₁ world₂ two at wide₂
        rw [demand₂] at wide₂
        have both := wide₁.trans wide₂
        have grownBoth := grown₁.trans grown₂
        rw [if_neg (by simp), if_neg (by omega), if_pos (by omega),
          show blocks - min blocks 123 = blocks - 123 from by omega]
        change run (inodeReserveIndirect _ 1 data.indirectBlock (min (blocks - 123) 128)) world₁ = _ at ran₂
        simp only [run_bind, ran₂, Option.bind_some]
        cases two with
        | false =>
            refine ⟨false, _, world₂, own₂, rfl, both.stop, grownBoth.weaken ?_ (by simp), _, _, _, rfl⟩
            rintro place (inside | inside)
            · exact .inl inside
            · exact .inr (.inl ⟨by omega, inside⟩)
        | true =>
            by_cases some_ : blocks ≤ 251
            · rw [if_neg (by simp), if_pos (by omega), if_neg (by omega), List.append_nil, run_pure]
              refine ⟨true, _, world₂, own₂, by simp; omega, both, grownBoth.weaken ?_ ?_, _, _, _, rfl⟩
              · rintro place (inside | inside)
                · exact .inl inside
                · exact .inr (.inl ⟨by omega, inside⟩)
              · rintro -
                refine ⟨rfl, ?_⟩
                rintro place (inside | ⟨_, inside⟩ | ⟨impossible, _⟩)
                · exact .inl inside
                · exact .inr inside
                · omega
            · -- (3) a single doubly indirect block
              have mode₂ : world₂.mem.freeMapFile = none ∨ inode ≠ 0 := by rwa [effect₂.freeMapFile]
              have demand₄ := effect₂.demand_eq sound₁ effect₁.ready mode₁ grown₁.owned 124
                (fun _ => show ¬ (124 : Fin 125) = 123 from by decide) (min (blocks - 251) (128 * 128))
              obtain ⟨three, doubly, world₃, own₃, ran₃, effect₃, grown₃⟩ := reserveRoot_spec depth 124
                (by omega : 0 < min (blocks - 251) (128 * 128)) (effect₂.sound sound₁) effect₂.ready mode₂ grown₂.owned
                (fun entry => { data with
                  directBlocks := direct, indirectBlock := indirect, doublyIndirectBlock := entry }) (fun _ => rfl)
                (fun entry other different => by
                  unfold InodeDisk.entry
                  split_ifs with h k
                  · rfl
                  · rfl
                  · exact absurd (Fin.ext (by omega)) different)
              have wide₃ := effect₃.mono fun _ _ => trivial
              change Effect shared inode (fun _ => True) own₂ own₃ (demand world₂.disk (data.entry 124) (rootLevel 124)
                (places 128 (rootLevel 124) (min (blocks - 251) (128 * 128)))) world₂ world₃ three at wide₃
              change demand world₂.disk (data.entry 124) _ _ = demand world₁.disk (data.entry 124) _ _ at demand₄
              rw [demand₄, demand₃] at wide₃
              have grownAll := grownBoth.trans grown₃
              rw [if_neg (by simp), if_neg (by omega), if_pos (by omega),
                show blocks - 123 - min (blocks - 123) 128 = blocks - 251 from by omega]
              change run (inodeReserveIndirect _ 2 data.doublyIndirectBlock (min (blocks - 251) (128 * 128))) world₂ = _
                at ran₃
              simp only [run_bind, ran₃, Option.bind_some]
              refine ⟨three, _, world₃, own₃, ?_, both.trans wide₃, grownAll.weaken ?_ ?_, _, _, _, rfl⟩
              · cases three with
                | false => rfl
                | true =>
                    by_cases fits : blocks ≤ 16635
                    · rw [if_neg (by simp), if_pos (by omega), run_pure]
                      simp [maximum, fits]
                    · rw [if_neg (by simp), if_neg (by omega), run_pure]
                      simp [maximum, fits]
              · rintro place ((inside | inside) | inside)
                · exact .inl inside
                · exact .inr (.inl ⟨by omega, inside⟩)
                · exact .inr (.inr ⟨by omega, inside⟩)
              · intro done
                refine ⟨by simpa using done, ?_⟩
                rintro place (inside | ⟨_, inside⟩ | ⟨_, inside⟩)
                · exact .inl (.inl inside)
                · exact .inl (.inr inside)
                · exact .inr inside

end MockOS.Fs
