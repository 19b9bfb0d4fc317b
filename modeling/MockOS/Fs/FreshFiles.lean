import MockOS.Fs.FreshLayout
import MockOS.Fs.RootNames
import MockOS.Fs.Traversals

namespace MockOS.Fs

variable {own : Owners} {shared : BlockSector → Prop} {world middle next : World} {nodes : Nodes} {sector : BlockSector}
  {pointer dir : Pointer} {root data : InodeDisk} {entries : List DirEntry} {name path : CString} {m : Nat}

/-- The sectors below `m` are in use. -/
theorem World.FreeFrom.free (freeFrom : world.FreeFrom m) (small : world.limit < 4294967296) :
    world.free = world.limit - m := by
  have counted : ∀ count, (List.range count).countP (fun i => !decide (i < m)) = count - m := by
    intro count
    induction count with
    | zero => simp
    | succ count ih =>
        rw [List.range_succ, List.countP_append, ih, List.countP_singleton]
        by_cases below : count < m
        · simp [below]
          omega
        · simp [below]
          omega
  rw [World.free, Bitmap.free_eq, World.limit, ← counted]
  apply List.countP_congr
  intro index member
  have inside : index < world.limit := List.mem_range.mp member
  have index_eq : (UInt32.ofNat index).toNat = index := by
    rw [UInt32.toNat_ofNat', Nat.mod_eq_of_lt (by omega)]
  have here := freeFrom (UInt32.ofNat index) (by rwa [index_eq])
  rw [World.used, index_eq] at here
  simp [here, ← Bool.not_eq_true]

/-- `inode_create` lays the blocks of the inode out from the lowest free sector on. -/
theorem inodeCreate_laysOut (stacked : Stacked own shared m world) (below : sector.toNat < m)
    (isDir : Bool) {length : Int} (nonnegative : 0 ≤ length) (high : length < 2147483648)
    (fits : bytesToSectors length ≤ maxBlocks)
    (room : m + (inodePlaces (bytesToSectors length)).length ≤ world.limit) : ∃ data next,
    run (inodeCreate sector length isDir) world = some (true, next) ∧ InodeDisk.ofSector (next.disk sector) = data ∧
      Laid (sectorAt next.disk data) m (inodePlaces (bytesToSectors length)) := by
  obtain ⟨direct, indirect, doubly, middle, ran, stackedMiddle, above, laid⟩ :=
    inodeReserve_laysOut 1 stacked isDir nonnegative fits room
  refine ⟨⟨direct, indirect, doubly, isDir, length, inodeMagic⟩, middle.write sector
    (InodeDisk.toSector ⟨direct, indirect, doubly, isDir, length, inodeMagic⟩), ?_, ?_, ?_⟩
  · change run (inodeReserve (freeMapAllocate 1) (emptyInode length isDir) length) world = _ at ran
    rw [inodeCreate, run_bind]
    change (run (inodeReserve (freeMapAllocate 1) (emptyInode length isDir) length) world).bind _ = _
    rw [ran]
    rfl
  · rw [World.write_same]
    exact InodeDisk.ofSector_toSector (show -2147483648 ≤ length by omega) high
  · apply laid.congr
    rintro ⟨root, path⟩ member
    apply Lib.PointerTree.follow_congr_path
    intro first second parts _
    obtain ⟨low, _⟩ := laid.bounds (inodePlaces_begin (show (root, first ++ second) ∈ _ from parts ▸ member))
    apply World.write_other
    intro same
    rw [sectorAt, same] at low
    exact absurd below (Nat.not_lt.mpr low)

/-- The steps of a creation that succeeds. -/
theorem run_createOrRelease_true {length : Int}
    (ran : run (MockOS.Fs.createOrRelease dir name length) world = some (true, next)) : ∃ sector world₁ world₂,
    run (freeMapAllocate 1) world = some (some sector, world₁) ∧
      run (inodeCreate sector length false) world₁ = some (true, world₂) ∧
      run (dirAdd dir name sector false) world₂ = some (true, next) ∧
      run (createIn dir name length false) world = some ((some sector, true), next) := by
  obtain ⟨⟨made, success⟩, last, ranCreate, rest⟩ := run_bind_some.mp ran
  have ended : success = true ∧ last = next := by
    cases made with
    | none =>
        obtain ⟨same, ended⟩ := Prod.mk.inj (Option.some.inj rest)
        exact ⟨same, ended⟩
    | some sector =>
        dsimp only at rest
        split_ifs at rest with failed
        · obtain ⟨_, freed, _, ranPure⟩ := run_bind_some.mp rest
          obtain ⟨same, -⟩ := Prod.mk.inj (Option.some.inj ranPure)
          rw [failed.1] at same
          cases same
        · obtain ⟨same, ended⟩ := Prod.mk.inj (Option.some.inj rest)
          exact ⟨same, ended⟩
  obtain ⟨rfl, rfl⟩ := ended
  have ranIn := ranCreate
  obtain ⟨allocated, world₁, ran₁, rest₁⟩ := run_bind_some.mp ranCreate
  cases allocated with
  | none =>
      obtain ⟨impossible, -⟩ := Prod.mk.inj (Option.some.inj rest₁)
      cases impossible
  | some sector =>
      obtain ⟨created, world₂, ran₂, rest₂⟩ := run_bind_some.mp rest₁
      cases created with
      | false =>
          obtain ⟨impossible, -⟩ := Prod.mk.inj (Option.some.inj rest₂)
          cases impossible
      | true =>
          obtain ⟨added, world₃, ran₃, rest₃⟩ := run_bind_some.mp rest₂
          obtain ⟨same, rfl⟩ := Prod.mk.inj (Option.some.inj rest₃)
          obtain ⟨rfl, rfl⟩ := Prod.mk.inj same
          exact ⟨sector, world₁, world₂, ran₁, ran₂, ran₃, ranIn⟩

/-- A successful creation in contiguous free space. -/
theorem RootOpen.create_laysOut (open_ : RootOpen own shared nodes root entries world dir pointer)
    (freeFrom : world.FreeFrom m) {length : Int} (high : length < 2147483648)
    (ran : run (MockOS.Fs.createOrRelease dir name length) world = some (true, next)) : ∃ sector,
    sector.toNat = m ∧ next.rootEntries = setSlot entries (freeSlot entries) ⟨sector, strncpy name 31, true⟩ ∧
      (next.inodeData sector).length = length ∧
      Laid (sectorAt next.disk (next.inodeData sector)) (m + 1) (inodePlaces (blocksOf length)) ∧
      (∀ number data, number ≠ 1 → nodes number = some data → number ≠ sector ∧ next.inodeData number = data ∧
        ∀ place : Place, place.within → sectorAt next.disk data place = sectorAt world.disk data place) ∧
      ∃ m', next.FreeFrom m' := by
  obtain ⟨sector, world₁, world₂, ran₁, ran₂, ran₃, ranIn⟩ := run_createOrRelease_true ran
  rcases open_.volume.newInode open_.live high with ⟨_, ran', _⟩ |
    ⟨sector', world₁', world₂', after, ran₁', _, absent, nonzero, unused, mem₂, rest⟩
  · rw [ran₁] at ran'
    cases ran'
  rw [ran₁, Option.some.injEq, Prod.mk.injEq, Option.some.injEq] at ran₁'
  obtain ⟨rfl, rfl⟩ := ran₁'
  rcases rest with ⟨ran', _⟩ | ⟨data, ran₂', step₂, created⟩
  · rw [ran₂] at ran'
    cases ran'
  rw [ran₂, Option.some.injEq, Prod.mk.injEq] at ran₂'
  obtain ⟨-, rfl⟩ := ran₂'
  obtain ⟨nonroot, closed₂, same₂, dirOpened₂, present₂⟩ := open_.afterInode absent mem₂ step₂
  have here : Function.update nodes sector (some data) sector = some data := Function.update_self _ _ _
  have node₂ := step₂.volume.node sector data here
  have good : name ≠ [] ∧ name.length ≤ 30 ∧ entries[nameSlot entries name]? = none := by
    by_contra bad
    have refused : run (dirAdd dir name sector false) world₂ = some (false, world₂) := by
      apply step₂.volume.dirAdd_refused dirOpened₂
      by_contra neither
      push Not at neither
      exact bad ⟨neither.1, neither.2.1, neither.2.2⟩
    rw [refused] at ran₃
    cases ran₃
  obtain ⟨notEmpty, short, noName⟩ := good
  obtain ⟨rootAfter, world₃, own₃, step₃, mem₃, _, outcome⟩ :=
    step₂.volume.dirAdd dirOpened₂ (by decide) notEmpty short noName sector
  rcases outcome with ⟨ran₃', holds₃, failures₃, stores⟩ | ⟨ran₃', _⟩
  swap
  · rw [ran₃] at ran₃'
    cases ran₃'
  rw [ran₃, Option.some.injEq, Prod.mk.injEq] at ran₃'
  obtain ⟨-, rfl⟩ := ran₃'
  have stacked : Stacked own shared m world := ⟨open_.volume.sound, open_.volume.ready, freeFrom⟩
  have free := freeFrom.free open_.volume.sound.small
  have enough := created.enough
  have blocks := bytesToSectors_eq created.nonnegative created.fits
  obtain ⟨lowest, taken, ran₁', lowestEq, _, stackedTaken, above⟩ := stacked.allocate (by omega) 1
  change run (freeMapAllocate 1) world = _ at ran₁'
  rw [ran₁, Option.some.injEq, Prod.mk.injEq, Option.some.injEq] at ran₁'
  obtain ⟨rfl, rfl⟩ := ran₁'
  obtain ⟨data', world₂', ran₂', stored, laid⟩ := inodeCreate_laysOut stackedTaken
    (lowestEq.trans_lt (Nat.lt_succ_self m)) false created.nonnegative high ((blocks_fit created.nonnegative high).mpr created.fits)
    (by rw [above.limit, blocks]; omega)
  rw [ran₂, Option.some.injEq, Prod.mk.injEq] at ran₂'
  obtain ⟨-, rfl⟩ := ran₂'
  have sameData : data' = data := by
    rw [← stored, step₂.volume.table.closed sector data here closed₂]
  subst sameData
  have after₃ : ∀ number, number ≠ 1 →
      Function.update (Function.update nodes sector (some data')) 1 (some rootAfter) number =
        Function.update nodes sector (some data') number := fun number different => Function.update_of_ne different _ _
  have inodeData := step₃.volume.inodeData_eq ((after₃ sector nonroot.symm).trans here)
  refine ⟨sector, lowestEq, ?_, by rw [inodeData, created.length_eq], ?_, ?_, ?_⟩
  · rw [World.rootEntries, World.inodeBytes, step₃.volume.inodeData_eq (Function.update_self _ _ _), holds₃.entries_eq]
  · rw [inodeData, ← blocks]
    apply laid.congr
    intro place member
    exact step₃.touches.sectorAt_eq step₂.volume.sound step₂.volume.freeMap nonroot.symm node₂.owned
      (within_of_mem_inodePlaces member)
  · intro number before notRoot present
    have different : number ≠ sector := by
      rintro rfl
      rw [absent] at present
      cases present
    have there := (Function.update_of_ne different (some data') nodes).trans present
    refine ⟨different, step₃.volume.inodeData_eq ((after₃ number notRoot).trans there), fun place within => ?_⟩
    rw [step₃.touches.sectorAt_eq step₂.volume.sound step₂.volume.freeMap notRoot (step₂.volume.node _ _ there).owned within,
      step₂.touches.sectorAt_eq open_.volume.sound open_.volume.freeMap different (open_.volume.node _ _ present).owned
        within]
  · exact (firstFit_steps.createIn _ _ _ _ _ _ ranIn).freeFrom (failures₃.trans created.failures) freeFrom

/-- The number of places in front of that of a data block. -/
def blockRank (block : Nat) : Nat :=
  if block < 123 then block else if block < 251 then block + 1 else block + 3 + (block - 251) / 128

theorem getElem?_blockRank {block blocks : Nat} (wanted : block < blocks) (fits : blocks ≤ maxBlocks) :
    (inodePlaces blocks)[blockRank block]? = some (blockPlace block) := by
  have maximum : maxBlocks = 16635 := rfl
  have lengthDirect : (inodePlaces 123).length = 123 := length_inodePlaces_direct (Nat.le_refl 123)
  have lengthIndirect : (inodePlaces 251).length = 252 := by
    rw [inodePlaces_indirect (by decide) (Nat.le_refl 251), List.length_append, lengthDirect, List.length_map,
      Lib.length_places_one (by decide)]
  have direct : ∀ {blocks}, block < 123 → block < blocks → blocks ≤ 123 →
      (inodePlaces blocks)[blockRank block]? = some (blockPlace block) := by
    intro blocks low wanted few
    rw [inodePlaces_direct few, blockRank, if_pos low, blockPlace_direct low, List.getElem?_map,
      List.getElem?_take_of_lt wanted, List.getElem?_eq_getElem (by rwa [List.length_finRange]), List.getElem_finRange]
    rfl
  have indirect : ∀ {blocks}, block < 251 → block < blocks → blocks ≤ 251 →
      (inodePlaces blocks)[blockRank block]? = some (blockPlace block) := by
    intro blocks low wanted few
    by_cases small : blocks ≤ 123
    · exact direct (by omega) wanted small
    rw [inodePlaces_indirect (by omega) few]
    by_cases before : block < 123
    · have rank : blockRank block = block := if_pos before
      rw [List.getElem?_append_left (by omega)]
      exact direct before before (Nat.le_refl 123)
    · have rank : blockRank block - 123 = 1 + (block - 123) := by
        rw [blockRank, if_neg before, if_pos low]
        omega
      rw [List.getElem?_append_right (by rw [blockRank, if_neg before, if_pos low]; omega), lengthDirect, rank,
        List.getElem?_map, Lib.getElem?_places_one (by omega) (by omega), blockPlace_indirect (by omega) low]
      rfl
  by_cases small : blocks ≤ 251
  · exact indirect (by omega) wanted small
  rw [inodePlaces_doubly (by omega) fits]
  by_cases before : block < 251
  · have rank : blockRank block < 252 := by
      unfold blockRank
      split_ifs <;> omega
    rw [List.getElem?_append_left (by omega)]
    exact indirect before before (Nat.le_refl 251)
  · have above : blockRank block = block + 3 + (block - 251) / 128 := by
      rw [blockRank, if_neg (by omega), if_neg before]
    have rank : blockRank block - 252 = 1 + ((block - 251) / 128 * (128 + 1) + (1 + (block - 251) % 128)) := by
      omega
    rw [List.getElem?_append_right (by omega), lengthIndirect, rank, List.getElem?_map,
      Lib.getElem?_places_two (by omega) (by omega) (by decide), blockPlace_doubly (by omega) (by omega)]
    rfl

/-- At most two index blocks are between two data blocks. -/
theorem blockRank_succ (block : Nat) :
    blockRank block + 1 ≤ blockRank (block + 1) ∧ blockRank (block + 1) ≤ blockRank block + 3 := by
  unfold blockRank
  split_ifs <;> omega

/-- The sectors of the data blocks of an inode. -/
def World.dataSectors (world : World) (sector : BlockSector) : List BlockSector :=
  (List.range (blocksOf (world.inodeData sector).length)).map fun block =>
    sectorAt world.disk (world.inodeData sector) (blockPlace block)

/-- Each sector is one, two or three behind the one before it. -/
def CloseTogether (sectors : List BlockSector) : Prop :=
  sectors.IsChain fun first second => first.toNat + 1 ≤ second.toNat ∧ second.toNat ≤ first.toNat + 3

/-- A file that was laid out in one piece is close together. -/
theorem Laid.closeTogether {blocks : Nat} {store : BlockSector → Sector}
    (laid : Laid (sectorAt store data) m (inodePlaces blocks)) (fits : blocks ≤ maxBlocks) :
    CloseTogether ((List.range blocks).map fun block => sectorAt store data (blockPlace block)) := by
  rw [CloseTogether, List.isChain_iff_getElem]
  intro block inside
  rw [List.length_map, List.length_range] at inside
  simp only [List.getElem_map, List.getElem_range]
  rw [laid.getElem? (getElem?_blockRank (Nat.lt_of_succ_lt inside) fits), laid.getElem? (getElem?_blockRank inside fits)]
  have ranks := blockRank_succ block
  omega

theorem CloseTogether.not_fragmented {sectors : List BlockSector} (close : CloseTogether sectors) :
    isFragmented sectors = false := by
  induction sectors with
  | nil => rfl
  | cons first rest ih =>
      cases rest with
      | nil => rfl
      | cons second rest =>
          obtain ⟨⟨low, high⟩, later⟩ := List.isChain_cons_cons.mp close
          have near : ¬ second - first > 3 := by
            rw [gt_iff_lt, UInt32.lt_iff_toNat_lt, UInt32.toNat_sub_of_le _ _ (UInt32.le_iff_toNat_le.mpr (by omega))]
            change ¬ 3 < _
            omega
          rw [isFragmented, decide_eq_false near, Bool.false_or]
          exact ih later

/-- The root directory has a file of this name and size whose data sectors are close together, so that
`fragmentation_degree` does not count it. -/
def World.HasClose (world : World) (path : CString) (size : Int) : Prop :=
  ∃ sector, Named world.rootEntries (fileName path) sector ∧ (world.inodeData sector).length = size ∧
    CloseTogether (world.dataSectors sector) ∧ isFragmented (world.dataSectors sector) = false

/-- Calls of `filesys_create` that all succeed in turn. -/
inductive World.CreatesInTurn : World → List (CString × Int) → World → Prop
  | nil (world : World) : CreatesInTurn world [] world
  | cons {world middle next : World} {path : CString} {size : Int} {calls : List (CString × Int)} :
      run (filesysCreate path size false) world = some (true, middle) → CreatesInTurn middle calls next →
        CreatesInTurn world ((path, size) :: calls) next

/-- A creation in contiguous free space lays the file out from its first sector on, and leaves the other files. -/
theorem AtPrompt.create_laysOut (prompt : AtPrompt own shared nodes root entries world) (freeFrom : world.FreeFrom m)
    (nulFree : 0 ∉ path) {size : Int} (high : size < 2147483648)
    (ran : run (MockOS.Fs.filesysCreate path size false) world = some (true, next)) : next.Prompting shared ∧
      (∃ m', next.FreeFrom m') ∧ ∃ sector, sector.toNat = m ∧ Named next.rootEntries (fileName path) sector ∧
        (next.inodeData sector).length = size ∧ blocksOf size ≤ maxBlocks ∧
        Laid (sectorAt next.disk (next.inodeData sector)) (m + 1) (inodePlaces (blocksOf size)) ∧
        ∀ other number, Named world.rootEntries other number → Named next.rootEntries other number ∧
          next.inodeData number = world.inodeData number ∧ next.dataSectors number = world.dataSectors number := by
  obtain ⟨dir, pointer, own₁, world₁, ran₁, open₁, _, _, inMemory₁, _⟩ := prompt.dirOpenRoot
  obtain ⟨result, world₂, own₂, nodes₂, root₂, entries₂, ran₂, open₂, _, created⟩ :=
    open₁.createOrRelease (nul_free_fileName nulFree) high
  obtain ⟨own₃, world₃, ran₃, prompt₃, _, inMemory₃, _⟩ := open₂.dirClose
  rw [run_filesysCreate ran₁, ran₂, Option.bind_some, run_bind, ran₃, Option.bind_some, run_pure, Option.some.injEq,
    Prod.mk.injEq] at ran
  obtain ⟨rfl, rfl⟩ := ran
  have freeFrom₁ : world₁.FreeFrom m := fun sector inside => by
    rw [inMemory₁.used]
    exact freeFrom sector (inMemory₁.limit ▸ inside)
  obtain ⟨sector, first, stored, length, laid, others, m', freeFrom₂⟩ := open₁.create_laysOut freeFrom₁ high ran₂
  rcases created.outcome with ⟨impossible, _⟩ | ⟨_, _, number, data, rfl, there, sameNodes, new⟩
  · cases impossible
  have entries_eq := open₂.toMounted.rootEntries
  have after_eq := prompt₃.toMounted.rootEntries
  have named := new.named open₁.tidy (nul_free_fileName nulFree)
  obtain rfl : sector = number := by
    rw [entries_eq] at stored
    have here := congrArg (·[freeSlot entries]?) stored
    simpa [getElem?_setSlot (freeSlot_le entries)] using here.symm
  -- closing the root directory leaves the inodes of the files
  have inodes : ∀ other number, Named (setSlot entries (freeSlot entries) ⟨sector, strncpy (fileName path) 31, true⟩) other
      number → world₃.inodeData number = world₂.inodeData number := by
    intro other number isNamed
    obtain ⟨_, _, nonroot, data, present, _⟩ := open₂.regular other number isNamed
    rw [open₂.toMounted.inodeData present]
    exact prompt₃.toMounted.inodeData ((Function.update_of_ne nonroot _ _).trans present)
  have isNamed := (named (fileName path) sector).mpr (.inr ⟨rfl, rfl⟩)
  have fits : blocksOf size ≤ maxBlocks := by
    have := new.fits
    unfold blocksOf
    omega
  refine ⟨⟨_, _, _, _, prompt₃⟩, ⟨m', fun other inside => ?_⟩, sector, first, after_eq ▸ isNamed, ?_, fits, ?_, ?_⟩
  · rw [inMemory₃.used]
    exact freeFrom₂ other (inMemory₃.limit ▸ inside)
  · rw [inodes _ _ isNamed, length]
  · rw [inodes _ _ isNamed, inMemory₃.disk]
    exact laid
  · intro other number before
    rw [prompt.toMounted.rootEntries] at before
    obtain ⟨_, _, nonroot, data, present, _⟩ := prompt.regular _ number before
    obtain ⟨_, dataAfter, tree⟩ := others number data nonroot present
    have still := (named other number).mpr (.inl before)
    have same : world₃.inodeData number = world.inodeData number := by
      rw [inodes _ _ still, dataAfter, prompt.toMounted.inodeData present]
    refine ⟨after_eq ▸ still, same, ?_⟩
    rw [World.dataSectors, World.dataSectors, same, prompt.toMounted.inodeData present]
    apply List.map_congr_left
    intro block _
    rw [inMemory₃.disk, tree _ (blockPlace_within block), inMemory₁.disk]

/-- A creation that finds room and an unused entry takes the first free sectors. -/
theorem AtPrompt.create_room (prompt : AtPrompt own shared nodes root entries world) (freeFrom : world.FreeFrom m)
    (nulFree : 0 ∉ path) (notEmpty : fileName path ≠ []) (short : (fileName path).length ≤ 30)
    (unnamed : ∀ sector, ¬ Named entries (fileName path) sector) (slot : freeSlot entries < entries.length) {size : Int}
    (low : 0 ≤ size) (fits : size ≤ 512 * maxBlocks) (room : m + 1 + (inodePlaces (blocksOf size)).length ≤ world.limit) :
    ∃ next own' nodes' root' sector, run (MockOS.Fs.filesysCreate path size false) world = some (true, next) ∧
      AtPrompt own' shared nodes' root' (setSlot entries (freeSlot entries) ⟨sector, strncpy (fileName path) 31, true⟩)
        next ∧ Quiet world next ∧ next.limit = world.limit ∧
      next.FreeFrom (m + 1 + (inodePlaces (blocksOf size)).length) ∧ sector.toNat = m ∧
      (next.inodeData sector).length = size ∧ Filled next.disk (next.inodeData sector) (blocksOf size) ∧
      Laid (sectorAt next.disk (next.inodeData sector)) (m + 1) (inodePlaces (blocksOf size)) ∧
      ∀ other number, Named entries other number → next.inodeData number = world.inodeData number := by
  have maximum : maxBlocks = 16635 := rfl
  have high : size < 2147483648 := by omega
  have free := freeFrom.free prompt.volume.sound.small
  obtain ⟨result, next, own', nodes', root', entries', ran, prompt', quiet, created⟩ :=
    prompt.filesysCreate (nul_free_fileName nulFree) high
  obtain rfl : result = true := created.succeeds notEmpty short unnamed low fits (by omega) slot
  obtain ⟨_, ⟨m', freeFrom'⟩, sector, first, named, length, _, laid, others⟩ := prompt.create_laysOut freeFrom nulFree high ran
  rcases created.outcome with ⟨impossible, _⟩ | ⟨_, _, number, data, rfl, there, _, new⟩
  · cases impossible
  rw [prompt'.toMounted.rootEntries, new.named prompt.tidy (nul_free_fileName nulFree)] at named
  obtain rfl : number = sector := (named.resolve_left (unnamed sector)).2
  have demand := prompt.demandFor_slot slot
  have cost := new.free
  have freeAfter := freeFrom'.free prompt'.volume.sound.small
  have contiguous : next.FreeFrom (m + 1 + (inodePlaces (blocksOf size)).length) := by
    intro other inside
    rw [freeFrom' other inside]
    rw [created.limit] at inside freeAfter
    omega
  refine ⟨next, own', nodes', root', number, ran, prompt', quiet, created.limit, contiguous, first, length, ?_, laid,
    fun other before isNamed => ?_⟩
  · rw [prompt'.toMounted.inodeData there]
    exact new.filled
  · rw [← prompt.toMounted.rootEntries] at isNamed
    exact (others other before isNamed).2.1

/-- A creation in contiguous free space leaves contiguous free space and does not scatter the files. -/
theorem AtPrompt.create_close (prompt : AtPrompt own shared nodes root entries world) (freeFrom : world.FreeFrom m)
    (nulFree : 0 ∉ path) {size : Int} (high : size < 2147483648)
    (ran : run (MockOS.Fs.filesysCreate path size false) world = some (true, next)) : next.Prompting shared ∧
      (∃ m', next.FreeFrom m') ∧ next.HasClose path size ∧
      ∀ other length, world.HasClose other length → next.HasClose other length := by
  obtain ⟨prompts, contiguous, sector, _, named, length, fits, laid, others⟩ :=
    prompt.create_laysOut freeFrom nulFree high ran
  have close : CloseTogether (next.dataSectors sector) := by
    rw [World.dataSectors, length]
    exact laid.closeTogether fits
  refine ⟨prompts, contiguous, ⟨sector, named, length, close, close.not_fragmented⟩, ?_⟩
  rintro other otherLength ⟨number, before, sameLength, closeBefore, notFragmented⟩
  obtain ⟨still, inode, sectors⟩ := others _ number before
  exact ⟨number, still, by rw [inode, sameLength], by rwa [sectors], by rwa [sectors]⟩

/-- The calls between two states of a run, and what they leave to those after them. -/
theorem World.CreatesInTurn.close {done rest : List (CString × Int)} (creates : world.CreatesInTurn (done ++ rest) next)
    (prompts : world.Prompting shared) (freeFrom : world.FreeFrom m)
    (valid : ∀ call ∈ done, 0 ∉ call.1 ∧ call.2 < 2147483648) : ∃ middle, World.CreatesInTurn world done middle ∧
      World.CreatesInTurn middle rest next ∧ (∃ m', middle.FreeFrom m') ∧
      (∀ call ∈ done, middle.HasClose call.1 call.2) ∧
      ∀ path size, world.HasClose path size → middle.HasClose path size := by
  induction done generalizing world m with
  | nil => exact ⟨world, .nil world, creates, ⟨m, freeFrom⟩, fun _ member => (List.not_mem_nil member).elim, fun _ _ => id⟩
  | cons call done ih =>
      cases creates with
      | cons ran later =>
          obtain ⟨own, nodes, root, entries, prompt⟩ := prompts
          obtain ⟨nulFree, high⟩ := valid _ List.mem_cons_self
          obtain ⟨prompts, ⟨m', freeFrom⟩, created, kept⟩ := prompt.create_close freeFrom nulFree high ran
          obtain ⟨middle, first, second, contiguous, close, keeps⟩ :=
            ih later prompts freeFrom fun call member => valid call (List.mem_cons_of_mem _ member)
          refine ⟨middle, .cons ran first, second, contiguous, fun call member => ?_,
            fun path size before => keeps path size (kept path size before)⟩
          rcases List.mem_cons.mp member with rfl | member
          · exact keeps _ _ created
          · exact close call member

/-- Files that are created one after another in contiguous free space have their data sectors one, two or three apart,
and after each call the free space is contiguous again. -/
theorem createsInTurn_close (prompts : world.Prompting shared) (freeFrom : world.FreeFrom m)
    {calls : List (CString × Int)} (valid : ∀ call ∈ calls, 0 ∉ call.1 ∧ call.2 < 2147483648)
    (creates : world.CreatesInTurn calls next) : ∀ done rest, calls = done ++ rest → ∃ middle,
      World.CreatesInTurn world done middle ∧ World.CreatesInTurn middle rest next ∧ (∃ m', middle.FreeFrom m') ∧
        ∀ call ∈ done, middle.HasClose call.1 call.2 := by
  rintro done rest rfl
  obtain ⟨middle, first, second, contiguous, close, _⟩ :=
    creates.close prompts freeFrom fun call member => valid call (List.mem_append_left _ member)
  exact ⟨middle, first, second, contiguous, close⟩

/-- After a format of 300 sectors the first 74 are in use. -/
theorem format_small_freeFrom : ∃ world own shared nodes root,
    run (filesysInit true) ⟨.boot 300 fun _ => 0, fun _ => zeros⟩ = some ((), world) ∧ world.limit = 299 ∧
      world.FreeFrom 74 ∧ world.mem.fileTable = [] ∧ AtPrompt own shared nodes root (newEntries 1 1000) world := by
  obtain ⟨world, own, shared, nodes, formatted, fresh, m, freeFrom⟩ :=
    filesysInit_freeFrom (fun _ => 0) (fun _ => zeros) formatFits_small
  obtain ⟨own', root, prompt⟩ := fresh.atPrompt
  obtain ⟨_, _, _, started, _⟩ := fresh.nodes
  have places : mapBits 300 = 299 ∧ (inodePlaces (blocksOf (Bitmap.byteCnt (mapBits 300)))).length = 1 ∧
    (inodePlaces (blocksOf 36000)).length = 71 := by decide
  have free := freeFrom.free prompt.volume.sound.small
  have limit := fresh.limit
  have counted := fresh.free
  obtain rfl : m = 74 := by omega
  exact ⟨world, own', shared, nodes, root, formatted, by omega, freeFrom, started.fileTable, prompt⟩

/-- Behind the first file of a new root directory there is room for a second one. -/
theorem freeSlot_second (tidy : Tidy (newEntries 1 1000)) (sector : BlockSector) (nulFree : 0 ∉ name) {second : CString}
    (different : name ≠ second) (short : name.length ≤ 30) :
    (∀ number, ¬ Named (setSlot (newEntries 1 1000) (freeSlot (newEntries 1 1000)) ⟨sector, strncpy name 31, true⟩) second
      number) ∧
      freeSlot (setSlot (newEntries 1 1000) (freeSlot (newEntries 1 1000)) ⟨sector, strncpy name 31, true⟩) <
        (setSlot (newEntries 1 1000) (freeSlot (newEntries 1 1000)) ⟨sector, strncpy name 31, true⟩).length := by
  have first : freeSlot (newEntries 1 1000) = 1 := by decide +kernel
  have rest : (newEntries 1 1000)[2]? = some emptyEntry := by decide +kernel
  refine ⟨fun number isNamed => ?_, List.findIdx_lt_length_of_exists ⟨emptyEntry, List.mem_of_getElem? (i := 2) ?_, rfl⟩⟩
  · rcases (tidy.named_new nulFree short sector second number).mp isNamed with before | ⟨same, _⟩
    · exact not_named_newEntries _ _ _ _ before
    · exact different same
  · rw [getElem?_setSlot (freeSlot_le _), first, if_neg (by decide), rest]

/-- The second of two files has an indirect block. -/
theorem createsInTurn_close_small : ∃ world next,
    run (filesysInit true) ⟨.boot 300 fun _ => 0, fun _ => zeros⟩ = some ((), world) ∧
      World.CreatesInTurn world [([97], 600), ([98], 70000)] next ∧ next.HasClose [97] 600 ∧
      next.HasClose [98] 70000 := by
  obtain ⟨world, own, shared, nodes, root, formatted, limit, freeFrom, _, prompt⟩ := format_small_freeFrom
  have two : (inodePlaces (blocksOf 600)).length = 2 := by decide
  have many : (inodePlaces (blocksOf 70000)).length = 138 := by
    rw [inodePlaces_indirect (by decide) (by decide), List.length_append, length_inodePlaces_direct (Nat.le_refl 123),
      List.length_map, Lib.length_places_one (by decide)]
    decide
  obtain ⟨middle, own₁, nodes₁, root₁, sector, ran₁, prompt₁, _, limit₁, freeFrom₁, _⟩ :=
    prompt.create_room freeFrom (by decide : (0 : UInt8) ∉ [97]) (by decide) (by decide)
      (not_named_newEntries _ _ _) freeSlot_newEntries (by decide : (0 : Int) ≤ 600) (by decide) (by omega)
  obtain ⟨unnamed, slot⟩ := freeSlot_second prompt.tidy sector (by decide : (0 : UInt8) ∉ fileName [97])
    (by decide : fileName [97] ≠ fileName [98]) (by decide)
  obtain ⟨next, _, _, _, _, ran₂, _⟩ := prompt₁.create_room freeFrom₁ (by decide : (0 : UInt8) ∉ [98]) (by decide)
    (by decide) unnamed slot (by decide : (0 : Int) ≤ 70000) (by decide) (by omega)
  have creates : World.CreatesInTurn world [([97], 600), ([98], 70000)] next := .cons ran₁ (.cons ran₂ (.nil next))
  obtain ⟨last, _, ended, _, close⟩ := createsInTurn_close ⟨_, _, _, _, prompt⟩ freeFrom (by decide) creates
    [([97], 600), ([98], 70000)] [] rfl
  cases ended
  exact ⟨world, next, formatted, creates, close _ List.mem_cons_self,
    close _ (List.mem_cons_of_mem _ List.mem_cons_self)⟩

end MockOS.Fs
