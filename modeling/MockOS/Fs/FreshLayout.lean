import MockOS.Fs.FirstFit
import MockOS.Fs.InodeSpec

namespace MockOS.Fs

open Lib (places entryPlaces)

/-- The free sectors are those from `m` on, and the free map can be stored. -/
structure Stacked (own : Owners) (shared : BlockSector → Prop) (m : Nat) (world : World) : Prop where
  sound : own.Sound world
  ready : Ready own shared world
  freeFrom : world.FreeFrom m

/-- Only the free map file and sectors from `m` on were written. -/
structure Above (shared : BlockSector → Prop) (m : Nat) (world next : World) : Prop where
  limit : next.limit = world.limit
  disk : ∀ sector, next.disk sector ≠ world.disk sector → shared sector ∨ m ≤ sector.toNat

/-- The sectors of the places are those from `m` on, in their order. -/
def Laid {A : Type} (sectorOf : A → BlockSector) (m : Nat) (nodes : List A) : Prop :=
  nodes.map (fun node => (sectorOf node).toNat) = List.range' m nodes.length

section Laid

variable {A B : Type} {sectorOf : A → BlockSector} {m : Nat} {nodes first second : List A}

theorem Laid.nil : Laid sectorOf m [] := rfl

theorem Laid.append (low : Laid sectorOf m first) (high : Laid sectorOf (m + first.length) second) :
    Laid sectorOf m (first ++ second) := by
  unfold Laid at low high ⊢
  rw [List.map_append, low, high, List.length_append, ← List.range'_append_1]

theorem Laid.cons {node : A} (here : (sectorOf node).toNat = m) (rest : Laid sectorOf (m + 1) nodes) :
    Laid sectorOf m (node :: nodes) := by
  unfold Laid at rest ⊢
  rw [List.map_cons, rest, here, List.length_cons, List.range'_succ]

theorem Laid.congr {other : A → BlockSector} (laid : Laid sectorOf m nodes)
    (same : ∀ node ∈ nodes, other node = sectorOf node) : Laid other m nodes := by
  rw [Laid, ← laid]
  exact List.map_congr_left fun node member => by rw [same node member]

theorem laid_map {embed : B → A} {nodes : List B} :
    Laid sectorOf m (nodes.map embed) ↔ Laid (fun node => sectorOf (embed node)) m nodes := by
  rw [Laid, Laid, List.map_map, List.length_map]
  rfl

theorem Laid.bounds (laid : Laid sectorOf m nodes) {node : A} (member : node ∈ nodes) :
    m ≤ (sectorOf node).toNat ∧ (sectorOf node).toNat < m + nodes.length := by
  have inside : (sectorOf node).toNat ∈ nodes.map fun node => (sectorOf node).toNat := List.mem_map_of_mem member
  rw [laid, List.mem_range'_1] at inside
  exact inside

theorem Laid.getElem? (laid : Laid sectorOf m nodes) {index : Nat} {node : A} (found : nodes[index]? = some node) :
    (sectorOf node).toNat = m + index := by
  have here : (nodes.map fun node => (sectorOf node).toNat)[index]? = some (sectorOf node).toNat := by
    rw [List.getElem?_map, found, Option.map_some]
  obtain ⟨inside, -⟩ := List.getElem?_eq_some_iff.mp found
  rw [laid, List.getElem?_range' inside, Nat.one_mul, Option.some.injEq] at here
  exact here.symm

end Laid

variable {own : Owners} {shared : BlockSector → Prop} {world middle next : World} {sector : BlockSector} {m : Nat}

namespace Above

theorem refl (shared : BlockSector → Prop) (m : Nat) (world : World) : Above shared m world world :=
  ⟨rfl, fun _ changed => absurd rfl changed⟩

theorem trans {higher : Nat} (first : Above shared m world middle) (second : Above shared higher middle next)
    (ordered : m ≤ higher) : Above shared m world next := by
  refine ⟨second.limit.trans first.limit, fun sector changed => ?_⟩
  by_cases kept : middle.disk sector = world.disk sector
  · exact (second.disk sector (by rwa [kept])).imp id ordered.trans
  · exact first.disk sector kept

theorem write (sector : BlockSector) (block : Sector) : Above shared sector.toNat world (world.write sector block) := by
  refine ⟨rfl, fun other changed => .inr ?_⟩
  by_cases same : other = sector
  · rw [same]
  · exact absurd (World.write_other _ _ same) changed

end Above

namespace Stacked

theorem unowned (stacked : Stacked own shared m world) (above : m ≤ sector.toNat) : own sector = none := by
  by_contra owned
  obtain ⟨used, inside⟩ := stacked.sound.used sector owned
  have below := (stacked.freeFrom sector inside).mp used
  omega

theorem not_shared (stacked : Stacked own shared m world) (above : m ≤ sector.toNat) : ¬ shared sector := by
  intro inFile
  have none := stacked.unowned above
  rcases stacked.ready with ⟨_, noShared⟩ | ⟨pointer, file, inode, opened, _⟩
  · exact noShared sector inFile
  · obtain ⟨block, _, owned⟩ := opened.shared_owned inFile
    rw [none] at owned
    cases owned

/-- What was laid out below stays. -/
theorem keeps {higher : Nat} (stacked : Stacked own shared m world) (above : Above shared higher middle next)
    (low : m ≤ sector.toNat) (high : sector.toNat < higher) : next.disk sector = middle.disk sector := by
  by_contra changed
  rcases above.disk sector changed with inFile | beyond
  · exact stacked.not_shared low inFile
  · omega

theorem write (stacked : Stacked own shared m world) (fresh : own sector = none) (block : Sector) :
    Stacked own shared m (world.write sector block) :=
  ⟨stacked.sound.congr rfl fun _ _ used => used,
    stacked.ready.write (fun place owned => by rw [fresh] at owned; cases owned) block, stacked.freeFrom⟩

/-- The next allocation takes the sector `m`. -/
theorem allocate (stacked : Stacked own shared m world) (room : m < world.limit) (depth : Nat) :
    ∃ sector next, run (freeMapAllocateBy (inodeWriteAtWithin (depth + 1)) 1) world = some (some sector, next) ∧
      sector.toNat = m ∧ sector ≠ 0 ∧ Stacked own shared (m + 1) next ∧ Above shared m world next := by
  have small := stacked.sound.small
  have lowest : (UInt32.ofNat m).toNat = m := by
    rw [UInt32.toNat_ofNat', Nat.mod_eq_of_lt (by omega)]
  have lowestFree : ¬ world.used (UInt32.ofNat m) := by
    rw [stacked.freeFrom _ (by omega)]
    omega
  have available : world.free ≠ 0 := by
    intro full
    apply lowestFree
    have all := Bitmap.free_zero.mp full m room
    rwa [World.used, lowest]
  obtain ⟨sector, disk, ran, unused, inside, frame, ready⟩ :=
    freeMapAllocateBy_spec stacked.sound stacked.ready available depth
  have fit := firstFit_steps.allocate (firstFit_steps.writeAtWithin (depth + 1)) _ _ _ ran
  have taken : World.used ⟨(world.mark sector true).mem, disk⟩ sector := by
    change (world.mark sector true).used sector
    rw [World.mark_used, if_pos rfl]
  have here : sector.toNat = m := by
    have high : m ≤ sector.toNat := by
      by_contra below
      exact unused ((stacked.freeFrom sector inside).mpr (by omega))
    by_contra different
    have other : UInt32.ofNat m ≠ sector := by
      rintro rfl
      exact different lowest
    have stillFree : ¬ World.used ⟨(world.mark sector true).mem, disk⟩ (UInt32.ofNat m) := by
      change ¬ (world.mark sector true).used (UInt32.ofNat m)
      rwa [World.mark_used, if_neg other]
    have below := fit.first rfl sector _ taken unused (by omega) stillFree
    omega
  refine ⟨sector, _, ran, here, ?_, ⟨?_, ready, fun other inLimit => ?_⟩, ⟨rfl, fun other changed => .inl (frame other changed)⟩⟩
  · rintro rfl
    exact unused stacked.sound.reserved
  · exact (stacked.sound.mark_true sector).congr rfl fun _ _ used => used
  · change (world.mark sector true).used other ↔ _
    have before := stacked.freeFrom other inLimit
    rw [World.mark_used]
    by_cases same : other = sector
    · rw [if_pos same, same]
      exact ⟨fun _ => by omega, fun _ => rfl⟩
    · have apart : other.toNat ≠ sector.toNat := fun equal => same (UInt32.toNat_inj.mp equal)
      rw [if_neg same, before]
      omega

end Stacked

section Kept

variable {store other : BlockSector → Sector} {entry : BlockSector} {level count : Nat}

/-- A subtree does not see changes elsewhere. -/
theorem Laid.places_congr (laid : Laid (indexTree.follow store entry) m (places 128 level count))
    (kept : ∀ sector : BlockSector, m ≤ sector.toNat → sector.toNat < m + (places 128 level count).length →
      other sector = store sector) : Laid (indexTree.follow other entry) m (places 128 level count) := by
  apply laid.congr
  intro path member
  apply Lib.PointerTree.follow_congr_path
  intro first second split _
  obtain ⟨low, high⟩ := laid.bounds (Lib.places_prefix (split ▸ member))
  exact kept _ low high

theorem Laid.entries_congr {fan leaves start : Nat} {entries : Fin fan → BlockSector} {indices : List (Fin fan)}
    (consecutive : indices.map Fin.val = List.range' start indices.length)
    (laid : Laid (fun node => indexTree.follow store (entries node.1) node.2) m
      (entryPlaces (places 128 level) (128 ^ level) indices leaves))
    (kept : ∀ sector : BlockSector, m ≤ sector.toNat →
      sector.toNat < m + (entryPlaces (places 128 level) (128 ^ level) indices leaves).length →
        other sector = store sector) :
    Laid (fun node => indexTree.follow other (entries node.1) node.2) m
      (entryPlaces (places 128 level) (128 ^ level) indices leaves) := by
  apply laid.congr
  rintro ⟨index, path⟩ member
  apply Lib.PointerTree.follow_congr_path
  intro first second split _
  obtain ⟨visited, inside⟩ := (Lib.mem_entryPlaces consecutive _ _).mp member
  dsimp only at split
  subst split
  have above : (index, first) ∈ entryPlaces (places 128 level) (128 ^ level) indices leaves :=
    (Lib.mem_entryPlaces consecutive index first).mpr ⟨visited, Lib.places_prefix inside⟩
  obtain ⟨low, high⟩ := laid.bounds above
  exact kept _ low high

end Kept

/-- A new subtree is laid out from the lowest free sector on. -/
def LaysOut (own : Owners) (shared : BlockSector → Prop) (level : Nat)
    (reserve : BlockSector → Nat → Action (Bool × BlockSector)) : Prop :=
  ∀ m world count, Stacked own shared m world → m + (places 128 level count).length ≤ world.limit →
    ∃ entry next, run (reserve 0 count) world = some ((true, entry), next) ∧
      Stacked own shared (m + (places 128 level count).length) next ∧ Above shared m world next ∧
      Laid (indexTree.follow next.disk entry) m (places 128 level count)

theorem reserveBlock_laysOut (depth : Nat) : LaysOut own shared 0
    fun entry _ => reserveBlock (freeMapAllocateBy (inodeWriteAtWithin (depth + 1)) 1) entry := by
  intro m world count stacked room
  obtain ⟨sector, next, ran, here, _, stackedAfter, above⟩ :=
    stacked.allocate (Nat.lt_of_lt_of_le (Nat.lt_succ_self m) room) depth
  refine ⟨sector, next.write sector zeros, ?_, stackedAfter.write (stacked.unowned here.ge) zeros,
    above.trans (.write sector zeros) here.ge, .cons here .nil⟩
  simp only [reserveBlock, if_true, run_bind, ran, Option.bind_some, World.run_write, run_pure]

/-- The loop over missing entries lays their subtrees out one after another. -/
theorem reserveEntries_laysOut {fan level : Nat} {reserve : BlockSector → Nat → Action (Bool × BlockSector)}
    (lays : LaysOut own shared level reserve) {indices : List (Fin fan)} (distinct : indices.Nodup)
    {entries : Fin fan → BlockSector} (missing : ∀ index ∈ indices, entries index = 0) (leaves : Nat)
    (stacked : Stacked own shared m world)
    (room : m + (entryPlaces (places 128 level) (128 ^ level) indices leaves).length ≤ world.limit) :
    ∃ blocks next, run (reserveEntries reserve (128 ^ level) indices entries leaves) world =
        some ((true, blocks), next) ∧
      Stacked own shared (m + (entryPlaces (places 128 level) (128 ^ level) indices leaves).length) next ∧
      Above shared m world next ∧ (∀ index ∉ indices, blocks index = entries index) ∧
      Laid (fun node => indexTree.follow next.disk (blocks node.1) node.2) m
        (entryPlaces (places 128 level) (128 ^ level) indices leaves) := by
  induction indices generalizing entries leaves m world with
  | nil => exact ⟨entries, world, rfl, stacked, .refl _ _ _, fun _ _ => rfl, .nil⟩
  | cons index rest ih =>
      obtain ⟨absent, restDistinct⟩ := List.nodup_cons.mp distinct
      obtain ⟨below, belowEq⟩ : ∃ below, below = places 128 level (min leaves (128 ^ level)) := ⟨_, rfl⟩
      rw [entryPlaces, ← belowEq, List.length_append, List.length_map] at room
      obtain ⟨entry, middle, ran, stackedMiddle, above, laid⟩ := lays m world (min leaves (128 ^ level)) stacked
        (by rw [← belowEq]; omega)
      rw [← belowEq] at stackedMiddle laid
      have zero := missing index List.mem_cons_self
      have later : ∀ other ∈ rest, Function.update entries index entry other = 0 := by
        intro other member
        have different : other ≠ index := fun same => absent (same ▸ member)
        rw [Function.update_of_ne different]
        exact missing other (List.mem_cons_of_mem _ member)
      obtain ⟨blocks, next, ranRest, stackedNext, aboveRest, others, laidRest⟩ :=
        ih restDistinct later (leaves - min leaves (128 ^ level)) stackedMiddle (by rw [above.limit]; omega)
      have here : blocks index = entry := by rw [others index absent, Function.update_self]
      refine ⟨blocks, next, ?_, ?_, above.trans aboveRest (Nat.le_add_right _ _), fun other outside => ?_, ?_⟩
      · rw [reserveEntries, zero, run_bind, ran, Option.bind_some]
        exact ranRest
      · rw [entryPlaces, ← belowEq, List.length_append, List.length_map, ← Nat.add_assoc]
        exact stackedNext
      · obtain ⟨different, notRest⟩ := not_or.mp (List.mem_cons.not.mp outside)
        rw [others other notRest, Function.update_of_ne different]
      · rw [entryPlaces, ← belowEq]
        apply Laid.append
        · rw [laid_map]
          simp only [here]
          rw [belowEq] at laid aboveRest ⊢
          exact laid.places_congr fun sector low high => stacked.keeps aboveRest low high
        · rwa [List.length_map]

/-- `inode_reserve_indirect` takes an index block before the blocks below it. -/
theorem inodeReserveIndirect_laysOut (depth level : Nat) (small : level ≤ 2) : LaysOut own shared level
    (inodeReserveIndirect (freeMapAllocateBy (inodeWriteAtWithin (depth + 1)) 1) level) := by
  induction level with
  | zero => exact reserveBlock_laysOut depth
  | succ level ih =>
      intro m world count stacked room
      have unit : (if level + 1 = 1 then 1 else 128) = 128 ^ level := by
        obtain rfl | rfl : level = 0 ∨ level = 1 := by omega
        · rfl
        · rfl
      obtain ⟨indices, indicesEq⟩ : ∃ indices, indices = (List.finRange 128).take (divRoundUp count (128 ^ level)) :=
        ⟨_, rfl⟩
      have unfolded : places 128 (level + 1) count = [] ::
          (entryPlaces (places 128 level) (128 ^ level) indices count).map fun node => node.1 :: node.2 := by
        rw [indicesEq]
        rfl
      have length : (places 128 (level + 1) count).length =
          (entryPlaces (places 128 level) (128 ^ level) indices count).length + 1 := by
        rw [unfolded, List.length_cons, List.length_map]
      rw [length] at room
      obtain ⟨sector, taken, ran, here, nonzero, stackedTaken, above⟩ := stacked.allocate (by omega) depth
      have fresh := stacked.unowned here.ge
      have missing : ∀ index ∈ indices, Sector.words zeros index = 0 := fun index _ => by rw [Sector.words_zeros]
      obtain ⟨blocks, middle, ranBelow, stackedMiddle, aboveBelow, _, laid⟩ := reserveEntries_laysOut (ih (by omega))
        (indicesEq ▸ nodup_blockEntries _) missing count
        (stackedTaken.write fresh zeros) (by rw [World.write_limit, above.limit]; omega)
      have children : ∀ node : Fin 128 × List (Fin 128),
          indexTree.follow (middle.write sector (Sector.ofWords blocks)).disk sector (node.1 :: node.2) =
            indexTree.follow (middle.write sector (Sector.ofWords blocks)).disk (blocks node.1) node.2 := by
        intro node
        rw [follow_child nonzero, World.write_same, Sector.words_ofWords]
      refine ⟨sector, middle.write sector (Sector.ofWords blocks), ?_, ?_, ?_, ?_⟩
      · simp only [inodeReserveIndirect, reserveIndexBlock, if_true, run_bind, ran, Option.bind_some, Option.getD_some,
          World.run_write, run_pure, unit, reserveBelow, run_bufferCacheRead, World.write_same, ← indicesEq, ranBelow]
      · rw [length, Nat.add_comm _ 1, ← Nat.add_assoc]
        exact stackedMiddle.write fresh _
      · exact ((above.trans (.write sector zeros) here.ge).trans aboveBelow (Nat.le_succ m)).trans
          (.write sector _) here.ge
      · rw [unfolded]
        apply Laid.cons here
        rw [laid_map]
        simp only [children]
        rw [indicesEq] at laid ⊢
        refine laid.entries_congr (Lib.take_finRange_consecutive _) fun other low _ => World.write_other _ _ ?_
        rintro rfl
        omega

theorem inodePlaces_direct {blocks : Nat} (few : blocks ≤ 123) : inodePlaces blocks =
    ((List.finRange 123).take blocks).map fun index => (⟨index.val, by omega⟩, []) := by
  rw [inodePlaces, if_neg (by omega), if_neg (by omega), Nat.min_eq_left few, List.append_nil, List.append_nil]

theorem length_inodePlaces_direct {blocks : Nat} (few : blocks ≤ 123) : (inodePlaces blocks).length = blocks := by
  rw [inodePlaces_direct few, List.length_map, List.length_take, List.length_finRange, Nat.min_eq_left few]

theorem inodePlaces_indirect {blocks : Nat} (some : 123 < blocks) (few : blocks ≤ 251) : inodePlaces blocks =
    inodePlaces 123 ++ (places 128 1 (blocks - 123)).map fun path => (123, path) := by
  rw [inodePlaces_direct (Nat.le_refl 123), inodePlaces, if_pos some, if_neg (by omega), Nat.min_eq_right some.le,
    Nat.min_eq_left (by omega), List.append_nil]

theorem inodePlaces_doubly {blocks : Nat} (some : 251 < blocks) (few : blocks ≤ maxBlocks) : inodePlaces blocks =
    inodePlaces 251 ++ (places 128 2 (blocks - 251)).map fun path => (124, path) := by
  unfold maxBlocks at few
  rw [inodePlaces_indirect (by decide) (Nat.le_refl 251), inodePlaces_direct (Nat.le_refl 123), inodePlaces,
    if_pos (by omega), if_pos some, Nat.min_eq_right (by omega), Nat.min_eq_right (by omega), Nat.min_eq_left (by omega)]

/-- With a place of an inode the places above it are needed. -/
theorem inodePlaces_begin {blocks : Nat} {root : Fin 125} {first second : List (Fin 128)}
    (member : (root, first ++ second) ∈ inodePlaces blocks) : (root, first) ∈ inodePlaces blocks := by
  rw [mem_inodePlaces] at member ⊢
  rcases member with ⟨small, empty⟩ | ⟨more, here, inside⟩ | ⟨more, here, inside⟩
  · exact .inl ⟨small, (List.append_eq_nil_iff.mp empty).1⟩
  · exact .inr (.inl ⟨more, here, Lib.places_prefix inside⟩)
  · exact .inr (.inr ⟨more, here, Lib.places_prefix inside⟩)

/-- The first blocks of a new inode are its direct blocks. -/
theorem reserveDirect_laysOut (depth : Nat) (stacked : Stacked own shared m world) {l : Nat} (few : l ≤ 123)
    (room : m + l ≤ world.limit) : ∃ direct next,
    run (reserveEntries (fun entry _ => reserveBlock (freeMapAllocateBy (inodeWriteAtWithin (depth + 1)) 1) entry) 1
        ((List.finRange 123).take l) (fun _ => 0) l) world = some ((true, direct), next) ∧
      Stacked own shared (m + l) next ∧ Above shared m world next ∧
      ∀ store data, data.directBlocks = direct → Laid (sectorAt store data) m (inodePlaces l) := by
  have length : (entryPlaces (places 128 0) (128 ^ 0) ((List.finRange 123).take l) l).length = l := by
    rw [Lib.entryPlaces_leaves, List.length_map, List.length_take, List.length_finRange, Nat.min_eq_left few]
  obtain ⟨entries, entriesEq⟩ : ∃ entries : Fin 123 → BlockSector, entries = fun _ => 0 := ⟨_, rfl⟩
  have missing : ∀ index ∈ (List.finRange 123).take l, entries index = 0 := fun index _ => by rw [entriesEq]
  obtain ⟨direct, next, ran, stackedNext, above, _, laid⟩ := reserveEntries_laysOut (reserveBlock_laysOut depth)
    ((List.nodup_finRange 123).sublist (List.take_sublist l _)) missing l stacked (by rwa [length])
  rw [entriesEq] at ran
  rw [length] at stackedNext
  refine ⟨direct, next, ran, stackedNext, above, fun store data same => ?_⟩
  rw [Lib.entryPlaces_leaves, laid_map] at laid
  rw [inodePlaces_direct few, laid_map]
  apply laid.congr
  intro index _
  simp [sectorAt, InodeDisk.entry, same]

/-- The tree below the next entry of a new inode is laid out behind its other blocks. -/
theorem reserveRoot_laysOut (depth level : Nat) (small : level ≤ 2) {few many count : Nat} {root : Fin 125}
    (split : inodePlaces many = inodePlaces few ++ (places 128 level count).map fun path => (root, path))
    (others : ∀ place ∈ inodePlaces few, place.1 ≠ root) (start : Stacked own shared m world)
    (stacked : Stacked own shared (m + (inodePlaces few).length) middle)
    (room : m + (inodePlaces many).length ≤ middle.limit) {data : InodeDisk}
    (laid : Laid (sectorAt middle.disk data) m (inodePlaces few)) : ∃ entry next,
    run (inodeReserveIndirect (freeMapAllocateBy (inodeWriteAtWithin (depth + 1)) 1) level 0 count) middle =
        some ((true, entry), next) ∧
      Stacked own shared (m + (inodePlaces many).length) next ∧
      Above shared (m + (inodePlaces few).length) middle next ∧
      ∀ after : InodeDisk, after.entry root = entry → (∀ other, other ≠ root → after.entry other = data.entry other) →
        Laid (sectorAt next.disk after) m (inodePlaces many) := by
  rw [split, List.length_append, List.length_map, ← Nat.add_assoc] at room ⊢
  obtain ⟨entry, next, ran, stackedNext, above, below⟩ :=
    inodeReserveIndirect_laysOut depth level small _ _ count stacked room
  refine ⟨entry, next, ran, stackedNext, above, fun after here same => ?_⟩
  apply Laid.append
  · apply laid.congr
    rintro ⟨other, path⟩ member
    rw [sectorAt, sectorAt, same _ (others _ member)]
    apply Lib.PointerTree.follow_congr_path
    intro first second parts _
    obtain ⟨low, high⟩ := laid.bounds (inodePlaces_begin (show (other, first ++ second) ∈ _ from parts ▸ member))
    exact start.keeps above low high
  · rw [laid_map]
    apply below.congr
    intro path _
    rw [sectorAt, here]

/-- The blocks of an empty inode are laid out by `inode_reserve`. -/
theorem inodeReserve_laysOut (depth : Nat) (stacked : Stacked own shared m world) (isDir : Bool) {length : Int}
    (nonnegative : 0 ≤ length) (fits : bytesToSectors length ≤ maxBlocks)
    (room : m + (inodePlaces (bytesToSectors length)).length ≤ world.limit) : ∃ direct indirect doubly next,
    run (inodeReserve (freeMapAllocateBy (inodeWriteAtWithin (depth + 1)) 1) (emptyInode length isDir) length) world =
        some ((true, ⟨direct, indirect, doubly, isDir, length, inodeMagic⟩), next) ∧
      Stacked own shared (m + (inodePlaces (bytesToSectors length)).length) next ∧ Above shared m world next ∧
      Laid (sectorAt next.disk ⟨direct, indirect, doubly, isDir, length, inodeMagic⟩) m
        (inodePlaces (bytesToSectors length)) := by
  have maximum : maxBlocks = 16635 := rfl
  have entries : ∀ data : InodeDisk, data.entry 123 = data.indirectBlock ∧ data.entry 124 = data.doublyIndirectBlock :=
    fun _ => ⟨rfl, rfl⟩
  rw [inodeReserve, if_neg (by omega)]
  generalize bytesToSectors length = blocks at fits room ⊢
  have monotone : ∀ {few many}, few ≤ many → (inodePlaces few).length ≤ (inodePlaces many).length := fun more =>
    (List.subperm_of_subset (inodePlaces_nodup _) fun _ member => inodePlaces_mono more member).length_le
  have roomDirect := monotone (Nat.min_le_left blocks 123)
  rw [length_inodePlaces_direct (Nat.min_le_right _ _)] at roomDirect
  -- (1) direct blocks
  obtain ⟨direct, world₁, ran₁, stacked₁, above₁, laid₁⟩ :=
    reserveDirect_laysOut depth stacked (Nat.min_le_right blocks 123) (by omega)
  rw [← length_inodePlaces_direct (Nat.min_le_right _ _)] at stacked₁
  change run (reserveEntries _ 1 _ (emptyInode length isDir).directBlocks _) world = _ at ran₁
  simp only [run_bind, ran₁, Option.bind_some]
  by_cases few : blocks ≤ 123
  · rw [Nat.min_eq_left few] at stacked₁ laid₁ ⊢
    rw [if_neg (by simp), if_pos (Nat.sub_self _), run_pure]
    exact ⟨direct, 0, 0, world₁, rfl, stacked₁, above₁, laid₁ _ _ rfl⟩
  · -- (2) a single indirect block
    rw [Nat.min_eq_right (by omega)] at stacked₁ laid₁ ⊢
    rw [if_neg (by simp), if_neg (by omega)]
    have parts : inodePlaces (123 + min (blocks - 123) 128) =
        inodePlaces 123 ++ (places 128 1 (min (blocks - 123) 128)).map fun path => ((123 : Fin 125), path) := by
      rw [inodePlaces_indirect (by omega) (by omega), Nat.add_sub_cancel_left]
    obtain ⟨indirect, world₂, ran₂, stacked₂, above₂, laid₂⟩ := reserveRoot_laysOut depth 1 (by decide) parts
      (fun place member same => by
        rcases mem_inodePlaces.mp member with ⟨small, _⟩ | ⟨impossible, _⟩ | ⟨impossible, _⟩
        · rw [same] at small
          exact absurd small (by decide)
        · omega
        · omega)
      stacked stacked₁ (by
        have := monotone (by omega : 123 + min (blocks - 123) 128 ≤ blocks)
        rw [above₁.limit]
        omega)
      (laid₁ world₁.disk ⟨direct, 0, 0, isDir, length, inodeMagic⟩ rfl)
    change run (inodeReserveIndirect _ 1 (emptyInode length isDir).indirectBlock _) world₁ = _ at ran₂
    simp only [run_bind, ran₂, Option.bind_some]
    have laidHere := laid₂ ⟨direct, indirect, 0, isDir, length, inodeMagic⟩ rfl fun other different => by
      unfold InodeDisk.entry
      split_ifs with one two
      · rfl
      · exact absurd (Fin.ext two) different
      · rfl
    have both := above₁.trans above₂ (Nat.le_add_right _ _)
    by_cases some : blocks ≤ 251
    · rw [show 123 + min (blocks - 123) 128 = blocks from by omega] at stacked₂ laidHere
      rw [if_neg (by simp), if_pos (by omega), run_pure]
      exact ⟨direct, indirect, 0, world₂, rfl, stacked₂, both, laidHere⟩
    · -- (3) a single doubly indirect block
      rw [show 123 + min (blocks - 123) 128 = 251 from by omega] at stacked₂ laidHere
      rw [if_neg (by simp), if_neg (by omega), show blocks - 123 - min (blocks - 123) 128 = blocks - 251 from by omega,
        Nat.min_eq_left (by omega)]
      obtain ⟨doubly, world₃, ran₃, stacked₃, above₃, laid₃⟩ := reserveRoot_laysOut depth 2 (by decide)
        (inodePlaces_doubly (by omega) fits)
        (fun place member same => by
          rcases mem_inodePlaces.mp member with ⟨small, _⟩ | ⟨_, here, _⟩ | ⟨impossible, _⟩
          · rw [same] at small
            exact absurd small (by decide)
          · rw [same] at here
            exact absurd here (by decide)
          · omega)
        stacked stacked₂ (by rwa [above₂.limit, above₁.limit]) laidHere
      change run (inodeReserveIndirect _ 2 (emptyInode length isDir).doublyIndirectBlock _) world₂ = _ at ran₃
      simp only [run_bind, ran₃, Option.bind_some]
      rw [if_neg (by simp), if_pos (Nat.sub_self _), run_pure]
      refine ⟨direct, indirect, doubly, world₃, rfl, stacked₃, both.trans above₃ (Nat.le_add_right _ _), laid₃ _ rfl ?_⟩
      intro other different
      unfold InodeDisk.entry
      split_ifs with one two
      · rfl
      · rfl
      · exact absurd (Fin.ext (by omega)) different

end MockOS.Fs
