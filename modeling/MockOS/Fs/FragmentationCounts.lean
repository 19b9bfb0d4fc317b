import MockOS.Fs.FileVisits
import MockOS.Fs.RoomyRuns

namespace MockOS.Fs

/-- Two consecutive sectors are more than 3 away from each other. -/
def isScattered : List BlockSector → Bool
  | first :: second :: rest =>
      decide (3 < ((second.toNat : Int) - first.toNat).natAbs) || isScattered (second :: rest)
  | _ => false

/-- A sector lies before the one that it follows. -/
def stepsBack : List BlockSector → Bool
  | first :: second :: rest => decide (second < first) || stepsBack (second :: rest)
  | _ => false

/-- In unsigned arithmetic every step back is a long one. -/
theorem isFragmented_eq {sectors : List BlockSector} (low : ∀ sector ∈ sectors, 2 ≤ sector.toNat)
    (high : ∀ sector ∈ sectors, sector ≠ noSector) : isFragmented sectors = (isScattered sectors || stepsBack sectors) := by
  induction sectors with
  | nil => rfl
  | cons first rest ih =>
      cases rest with
      | nil => rfl
      | cons second rest =>
          have two := low second (List.mem_cons_of_mem _ List.mem_cons_self)
          have notLast : first.toNat ≠ 4294967295 := fun same => high first List.mem_cons_self (UInt32.toNat_inj.mp same)
          have below := first.toNat_lt
          have here : decide (second - first > 3) =
              (decide (3 < ((second.toNat : Int) - first.toNat).natAbs) || decide (second < first)) := by
            have distance : (second - first).toNat = (4294967296 - first.toNat + second.toNat) % 4294967296 :=
              UInt32.toNat_sub _ _
            rw [← Bool.decide_or, decide_eq_decide, gt_iff_lt, UInt32.lt_iff_toNat_lt, UInt32.lt_iff_toNat_lt, distance]
            change 3 < _ ↔ _
            rcases Nat.lt_or_ge second.toNat first.toNat with back | forth
            · rw [Nat.mod_eq_of_lt (by omega)]
              exact iff_of_true (by omega) (.inr back)
            · rw [show 4294967296 - first.toNat + second.toNat = 4294967296 + (second.toNat - first.toNat) from by omega,
                Nat.add_mod_left, Nat.mod_eq_of_lt (by have := second.toNat_lt; omega)]
              omega
          rw [isFragmented, isScattered, stepsBack, here, ih (fun sector member => low sector (List.mem_cons_of_mem _ member))
            fun sector member => high sector (List.mem_cons_of_mem _ member)]
          simp only [Bool.or_assoc, Bool.or_left_comm]

namespace World

/-- The file has more than one direct block. -/
def isLong (world : World) (entry : DirEntry) : Bool := decide ((world.inodeData entry.inodeSector).length > 512)

/-- `fragmentation_degree` counts the long files and those of them that are scattered. -/
def CountsByDistance (world : World) : Prop :=
  ∃ next, run fragmentationDegree world =
    some ((world.files.countP fun entry => world.isLong entry && isScattered (world.dataSectors entry.inodeSector),
      world.files.countP world.isLong), next)

end World

variable {own : Owners} {shared : BlockSector → Prop} {world next : World} {nodes nodesAfter : Nodes}
  {sector : BlockSector} {pointer dir file inode : Pointer} {root data dataAfter : InodeDisk} {entries : List DirEntry}
  {name : CString}

/-- The data sectors that `get_inode_data_sectors` gives for an inode. -/
theorem Node.lookedUp_eq (node : Node own world.disk sector data) :
    (List.range (blocksOf data.length)).map (lookedUp world.disk data) =
      (List.range (blocksOf data.length)).map fun block => sectorAt world.disk data (blockPlace block) := by
  apply List.map_congr_left
  intro block member
  have wanted := List.mem_range.mp member
  have low := node.low
  have high := node.high
  have small : block < maxBlocks := by
    unfold blocksOf at wanted
    omega
  exact MockOS.Fs.lookedUp_eq small (node.complete.block wanted small)

/-- The data sectors of a file are sectors of the device behind the two fixed ones. -/
theorem Volume.dataSectors_bounds (volume : Volume own shared nodes world) (self : own 1 = some (1, none))
    (present : nodes sector = some data) {block : BlockSector} (member : block ∈ world.dataSectors sector) :
    2 ≤ block.toNat ∧ block ≠ noSector := by
  have node := volume.node sector data present
  rw [World.dataSectors, volume.inodeData_eq present] at member
  obtain ⟨index, inRange, rfl⟩ := List.mem_map.mp member
  have wanted := List.mem_range.mp inRange
  have low := node.low
  have high := node.high
  have small : index < maxBlocks := by
    unfold blocksOf at wanted
    omega
  have nonzero := node.complete.block wanted small
  have owned := node.owned _ (blockPlace_within index) nonzero
  refine ⟨?_, volume.sound.ne_noSector (by rw [owned]; exact Option.some_ne_none _)⟩
  by_contra below
  have notOne : sectorAt world.disk data (blockPlace index) ≠ 1 := by
    intro same
    rw [same, self] at owned
    cases owned
  have notZero : (sectorAt world.disk data (blockPlace index)).toNat ≠ 0 := fun same => nonzero (UInt32.toNat_inj.mp same)
  have notOne : (sectorAt world.disk data (blockPlace index)).toNat ≠ 1 := fun same => notOne (UInt32.toNat_inj.mp same)
  omega

/-- What `fragmentation_degree` finds out about a file. -/
def World.measured (world : World) (sector : BlockSector) : Bool × Bool :=
  (decide ((world.inodeData sector).length > 512),
    decide ((world.inodeData sector).length > 512) && isFragmented (world.dataSectors sector))

theorem DirScan.measureFile {mem : Mem} {disk : BlockSector → Sector} {slot : Nat} {pos : Int}
    (scan : DirScan own shared nodes root entries ⟨mem, disk⟩ dir pointer slot) (opened : Opened ⟨mem, disk⟩ sector inode data)
    (present : nodes sector = some data) (object : mem.files file = some ⟨inode, pos, false⟩) (name : CString) :
    run (measureFile name file) ⟨mem, disk⟩ = some (World.measured ⟨mem, disk⟩ sector, ⟨mem, disk⟩) := by
  have node := scan.volume.node sector data present
  have length : run (fileLength file) ⟨mem, disk⟩ = some (data.length, ⟨mem, disk⟩) := by
    rw [fileLength, run_bind, run_getFile object, Option.bind_some, inodeLength, run_bind, run_getInode opened.object]
    rfl
  have sectors := run_getInodeDataSectors opened.object node.low node.high
  change run (getInodeDataSectors inode) ⟨mem, disk⟩ =
    some ((List.range (blocksOf data.length)).map (lookedUp disk data), ⟨mem, disk⟩) at sectors
  rw [World.measured, World.dataSectors, scan.volume.inodeData_eq present, MockOS.Fs.measureFile, run_bind, length,
    Option.bind_some]
  split_ifs with long
  · rw [run_bind, run_getFile object, Option.bind_some, run_bind, sectors, Option.bind_some, run_pure, node.lookedUp_eq]
    simp [long]
  · rw [run_pure]
    simp [long]

theorem respects_getInodeDataSectors {related : World → World → Prop} [IsPreorder World related] (inode : Pointer) :
    Respects related (getInodeDataSectors inode) := by
  have blocks : ∀ entry l, Respects related (blockSectors entry l) := fun _ _ =>
    respects_bind (respects_read _) fun _ => respects_pure _
  have doubly : ∀ entries numSectors, Respects related (doublySectors entries numSectors) := by
    intro entries
    induction entries with
    | nil => exact fun _ => respects_pure _
    | cons entry rest ih => exact fun _ => respects_bind (blocks _ _) fun _ => respects_bind (ih _) fun _ => respects_pure _
  refine respects_bind (respects_getInode _) fun found => ?_
  dsimp only
  split
  · exact respects_pure _
  · refine respects_bind ?_ fun _ => respects_bind ?_ fun _ => respects_pure _
    · split
      · exact blocks _ _
      · exact respects_pure _
    · split
      · exact respects_bind (blocks _ _) fun _ => doubly _ _
      · exact respects_pure _

theorem respects_measureFile {related : World → World → Prop} [IsPreorder World related] (name : CString) (file : Pointer) :
    Respects related (MockOS.Fs.measureFile name file) := by
  refine respects_bind (respects_fileLength _) fun size => ?_
  split_ifs
  · exact respects_bind (respects_getFile _) fun _ => respects_bind (respects_getInodeDataSectors _) fun _ => respects_pure _
  · exact respects_pure _

/-- The blocks of a file stay where they are when its inode is read again. -/
theorem SameBlocks.dataSectors (same : SameBlocks world.disk nodes nodesAfter)
    (volume : Volume own shared nodes world) {after : Owners} (volumeAfter : Volume after shared nodesAfter next)
    (disk : next.disk = world.disk) (present : nodes sector = some data) :
    (next.inodeData sector).length = (world.inodeData sector).length ∧ next.dataSectors sector = world.dataSectors sector := by
  obtain ⟨dataAfter, there, length, places⟩ := same sector data present
  rw [World.dataSectors, World.dataSectors, volumeAfter.inodeData_eq there, volume.inodeData_eq present, length, disk]
  refine ⟨rfl, List.map_congr_left fun block member => ?_⟩
  have wanted := List.mem_range.mp member
  have low := (volume.node sector data present).low
  have high := (volume.node sector data present).high
  exact places _ (blockPlace_mem_inodePlaces wanted (by unfold blocksOf at wanted; omega))

theorem SameBlocks.measured (same : SameBlocks world.disk nodes nodesAfter)
    (volume : Volume own shared nodes world) {after : Owners} (volumeAfter : Volume after shared nodesAfter next)
    (disk : next.disk = world.disk) (present : nodes sector = some data) : next.measured sector = world.measured sector := by
  obtain ⟨length, sectors⟩ := same.dataSectors volume volumeAfter disk present
  rw [World.measured, World.measured, length, sectors]

/-- `fragmentation_degree` measures every file, unless it meets a name of the root directory itself. -/
theorem Rooted.fragmentationDegree (rooted : Rooted own shared nodes root entries world) :
    (∀ entry ∈ world.files, NoDots entry.fname) ∧ (∃ next, run fragmentationDegree world =
        some ((world.files.countP fun entry => (world.measured entry.inodeSector).2,
          world.files.countP fun entry => (world.measured entry.inodeSector).1), next)) ∨
      ¬ (∀ entry ∈ world.files, NoDots entry.fname) ∧ run fragmentationDegree world = none := by
  have all := rooted.overFiles respects_measureFile (fun _ sector => world.measured sector)
    (fun _ _ => True) (fun {_ _ _ _ _ _ _ _ _ _ _} scan kept named opened there object => by
      obtain ⟨_, _, _, data, present⟩ := rooted.live _ _ named
      refine ⟨fun _ => ?_, fun impossible => absurd trivial impossible⟩
      rw [scan.measureFile opened there object, kept.2.measured rooted.volume scan.volume kept.1 present])
    fun measured => (measured.countP (·.2), measured.countP (·.1))
  simp only [and_true, List.countP_map] at all
  exact all

/-- A count that a weaker condition does not raise is about the same elements. -/
theorem countP_eq_iff {A : Type} {p q : A → Bool} {elements : List A} (weaker : ∀ element ∈ elements, p element = true → q element = true) :
    elements.countP q = elements.countP p ↔ ∀ element ∈ elements, q element = true → p element = true := by
  induction elements with
  | nil => simp
  | cons first rest ih =>
      have later := ih fun element member => weaker element (List.mem_cons_of_mem _ member)
      have here := weaker first List.mem_cons_self
      have monotone := List.countP_mono_left fun element member => weaker element (List.mem_cons_of_mem first member)
      rw [List.forall_mem_cons, ← later, List.countP_cons, List.countP_cons]
      cases one : p first <;> cases two : q first <;> simp [one, two] at here ⊢
      omega

/-- The counts of `fragmentation_degree` go by the distance exactly when no name is that of the root directory itself, and
every long file in which a sector lies before the one that it follows is scattered. -/
theorem Rooted.countsByDistance_iff (rooted : Rooted own shared nodes root entries world) :
    world.CountsByDistance ↔ ∀ entry ∈ world.files, NoDots entry.fname ∧
      (world.isLong entry = true → stepsBack (world.dataSectors entry.inodeSector) = true →
        isScattered (world.dataSectors entry.inodeSector) = true) := by
  have measured : ∀ entry ∈ world.files, (world.measured entry.inodeSector).2 =
      (world.isLong entry && (isScattered (world.dataSectors entry.inodeSector) ||
        stepsBack (world.dataSectors entry.inodeSector))) := by
    intro entry there
    obtain ⟨_, _, _, data, present⟩ := rooted.live _ _ (named_of_mem_files rooted.rootEntries there)
    have bounds : ∀ block ∈ world.dataSectors entry.inodeSector, 2 ≤ block.toNat ∧ block ≠ noSector := fun _ member =>
      rooted.volume.dataSectors_bounds (rooted.volume.node 1 root rooted.present).self present member
    rw [← isFragmented_eq (fun block member => (bounds block member).1) fun block member => (bounds block member).2]
    rfl
  rcases rooted.fragmentationDegree with ⟨noDots, next, ran⟩ | ⟨dots, ran⟩
  · have counts : world.CountsByDistance ↔
        (world.files.countP fun entry => (world.measured entry.inodeSector).2) =
          world.files.countP fun entry => world.isLong entry && isScattered (world.dataSectors entry.inodeSector) := by
      rw [World.CountsByDistance, ran]
      constructor
      · rintro ⟨_, same⟩
        exact congrArg (fun result => result.1.1) (Option.some.inj same)
      · intro same
        rw [same]
        exact ⟨next, rfl⟩
    rw [counts, countP_eq_iff]
    · refine forall₂_congr fun entry there => ?_
      rw [measured entry there, and_iff_right (noDots entry there)]
      cases world.isLong entry <;> cases isScattered (world.dataSectors entry.inodeSector) <;>
        cases stepsBack (world.dataSectors entry.inodeSector) <;> decide
    · intro entry there scattered
      rw [measured entry there]
      simp only [Bool.and_eq_true, Bool.or_eq_true] at scattered ⊢
      exact ⟨scattered.1, .inl scattered.2⟩
  · refine iff_of_false ?_ fun all => dots fun entry there => (all entry there).1
    rintro ⟨next, counted⟩
    rw [ran] at counted
    cases counted

/-- In every state of a safe run, `fragmentation_degree` counts by distance exactly when no listed name is that of the
root directory itself and every long file in which a sector lies before the one that it follows is scattered. -/
theorem safeRun_countsByDistance_iff {deviceSize : UInt32} {garbage : Nat → UInt8} {disk : BlockSector → Sector}
    {start : World} (fits : FormatFits deviceSize)
    (formatted : run (filesysInit true) ⟨.boot deviceSize garbage, disk⟩ = some ((), start))
    (reached : start.SafeRun world) : world.CountsByDistance ↔ ∀ entry ∈ world.files, NoDots entry.fname ∧
      (world.isLong entry = true → stepsBack (world.dataSectors entry.inodeSector) = true →
        isScattered (world.dataSectors entry.inodeSector) = true) := by
  obtain ⟨own, shared, nodes, root, entries, prompt, names⟩ := safeRun_rootNames fits formatted reached
  exact (prompt.rooted names).countsByDistance_iff

/-- After the commands that leave a file of one sector and two of several ones, the distances are counted. -/
theorem safeRun_countsByDistance_iff_small : ∃ start world first second third,
    run (filesysInit true) ⟨.boot 300 fun _ => 0, fun _ => zeros⟩ = some ((), start) ∧
      Lib.Runs World.RoomyStep start busyCommands world ∧
      (∀ name sector, Named world.rootEntries name sector ↔
        name = [97] ∧ sector = first ∨ name = [98] ∧ sector = second ∨ name = [100] ∧ sector = third) ∧
      (world.inodeData first).length = 512 ∧ (world.inodeData second).length = 1400 ∧ (world.inodeData third).length = 600 ∧
      world.CountsByDistance := by
  obtain ⟨start, world, shared, first, second, third, formatted, runs, ⟨_, _, root, _, orderly⟩, names, firstLength, secondLength,
    thirdLength, secondClose, thirdClose, _⟩ := busy_small
  obtain ⟨_, rest⟩ := plainRun_atRest formatFits_small formatted .start
  have reached := ((roomyRun_of_runs runs).plainRun rest).safeRun rest
  refine ⟨start, world, first, second, third, formatted, runs, names, firstLength, secondLength, thirdLength,
    (safeRun_countsByDistance_iff formatFits_small formatted reached).mpr fun entry listed => ?_⟩
  have rootEntries := orderly.toMounted.rootEntries
  have isEntry := named_of_mem_files rfl listed
  -- the sectors of a new file are not fragmented, so that none lies before the one that it follows
  have forwards : ∀ {name : CString} {size : Int}, PlainName name → world.HasClose name size → entry.fname = name →
      stepsBack (world.dataSectors entry.inodeSector) = false := by
    intro name size plain close isName
    obtain ⟨number, isNumber, _, _, whole⟩ := close
    rw [plain.fileName, ← isName] at isNumber
    rw [rootEntries] at isNumber isEntry
    obtain rfl := orderly.tidy.sector_unique isEntry isNumber
    obtain ⟨_, _, _, data, present, _⟩ := orderly.regular _ _ isEntry
    have bounds : ∀ block ∈ world.dataSectors entry.inodeSector, 2 ≤ block.toNat ∧ block ≠ noSector := fun _ member =>
      orderly.volume.dataSectors_bounds (orderly.volume.node 1 root orderly.present).self present member
    rw [isFragmented_eq (fun block member => (bounds block member).1) fun block member => (bounds block member).2,
      Bool.or_eq_false_iff] at whole
    exact whole.2
  rcases (names _ _).mp isEntry with ⟨isName, sector⟩ | ⟨isName, sector⟩ | ⟨isName, sector⟩
  · rw [isName, World.isLong, sector, firstLength]
    exact ⟨by decide, fun long => absurd long (by decide)⟩
  · rw [forwards plainName_b secondClose isName, isName]
    exact ⟨by decide, fun _ back => absurd back Bool.false_ne_true⟩
  · rw [forwards plainName_d thirdClose isName, isName]
    exact ⟨by decide, fun _ back => absurd back Bool.false_ne_true⟩

/-- A write takes the lowest free sectors. -/
theorem AtPrompt.fsutilWrite_firstFit (prompt : AtPrompt own shared nodes root entries world) (usable : world.Usable path)
    {buffer : Nat → UInt8} {size value : Int} (ran : run (MockOS.Fs.fsutilWrite path buffer size) world = some (value, next)) :
    FirstFit world next := by
  have setFile : ∀ pointer file, Respects FirstFit (setFile pointer file) := by
    intro pointer file before _ after ran
    obtain ⟨-, rfl⟩ := Prod.mk.inj (Option.some.inj ran)
    exact .of_freeMap rfl rfl
  have writes : ∀ file, Respects FirstFit (MockOS.Fs.fileWrite file buffer (wrap32 size)) := by
    intro file
    unfold MockOS.Fs.fileWrite
    split
    · exact respects_undefined
    · exact respects_bind (respects_getFile _) fun _ => respects_bind (firstFit_steps.writeAt _ _ _ _) fun _ =>
        respects_bind (respects_getFile _) fun _ => respects_bind (setFile _ _) fun _ => respects_pure _
  obtain ⟨own', nodes', root', middle, _, inMemory, _, _, outcome⟩ := prompt.commandFile usable
  have opens : FirstFit world middle := .of_freeMap inMemory.freeMap inMemory.failures
  rcases outcome with ⟨_, ranOpen, _⟩ | ⟨file, _, _, _, ranOpen, _⟩
  · rw [MockOS.Fs.fsutilWrite, run_bind, ranOpen, Option.bind_some, run_pure, Option.some.injEq, Prod.mk.injEq] at ran
    exact ran.2 ▸ opens
  · rw [MockOS.Fs.fsutilWrite, run_bind, ranOpen, Option.bind_some] at ran
    exact trans_of FirstFit opens (writes file _ _ _ ran)

/-- When sectors are taken, the lowest free one is. -/
theorem FirstFit.takes (fit : FirstFit world next) (small : world.limit < 4294967296)
    (failures : next.mem.allocationFailures = world.mem.allocationFailures) {lowest : BlockSector}
    (inside : lowest.toNat < world.limit)
    (below : ∀ other : BlockSector, other.toNat < lowest.toNat → world.used other) (fewer : next.free < world.free) :
    next.used lowest := by
  by_contra still
  have same : ∀ other : BlockSector, next.used other ↔ world.used other := by
    intro other
    refine ⟨fun isUsed => ?_, fit.used failures other⟩
    by_contra unused
    exact unused (below other (fit.first failures other lowest isUsed unused inside still))
  apply Nat.ne_of_lt fewer
  rw [World.free, World.free, Bitmap.free_eq, Bitmap.free_eq,
    show next.mem.freeMap.bitCnt = world.mem.freeMap.bitCnt from fit.limit]
  apply List.countP_congr
  intro index member
  have inLimit : index < world.limit := List.mem_range.mp member
  have here := same (UInt32.ofNat index)
  rw [World.used, World.used, UInt32.toNat_ofNat', Nat.mod_eq_of_lt (by omega)] at here
  simp only [Bool.not_eq_true']
  rw [Bool.eq_false_iff, Bool.eq_false_iff, ne_eq, ne_eq, here]

/-- After `create a 0` and `create b 512` the first file has sector 74 and the second one the sectors 75 and 76. -/
theorem twoFiles_small : ∃ start world own shared nodes root entries first second,
    run (filesysInit true) ⟨.boot 300 fun _ => 0, fun _ => zeros⟩ = some ((), start) ∧ start.SafeRun world ∧
      AtPrompt own shared nodes root entries world ∧ world.mem.fileTable = [] ∧ world.limit = 299 ∧ world.FreeFrom 77 ∧
      Named entries [97] 74 ∧ nodes 74 = some first ∧ first.length = 0 ∧
      Named entries [98] 75 ∧ nodes 75 = some second ∧ second.length = 512 ∧ second.entry 0 = 76 ∧ second.entry 1 = 0 := by
  obtain ⟨start, own, shared, nodes, root, formatted, limit, freeFrom, noFiles, prompt⟩ := format_small_freeFrom
  have none : (inodePlaces (blocksOf 0)).length = 0 := by decide
  have one : inodePlaces (blocksOf 512) = [(0, [])] := by decide
  obtain ⟨world₁, own₁, nodes₁, root₁, sector, ran₁, prompt₁, quiet₁, limit₁, freeFrom₁, firstEq, length₁, _⟩ :=
    prompt.create_room freeFrom (by decide : (0 : UInt8) ∉ [97]) (by decide) (by decide)
      (not_named_newEntries _ _ _) freeSlot_newEntries (by decide : (0 : Int) ≤ 0) (by decide) (by omega)
  obtain ⟨unnamed, slot⟩ := freeSlot_second prompt.tidy sector (by decide : (0 : UInt8) ∉ fileName [97])
    (by decide : fileName [97] ≠ fileName [98]) (by decide)
  obtain ⟨world₂, own₂, nodes₂, root₂, other, ran₂, prompt₂, quiet₂, limit₂, freeFrom₂, secondEq, length₂, filled₂,
    laid₂, others₂⟩ :=
    prompt₁.create_room freeFrom₁ (by decide : (0 : UInt8) ∉ [98]) (by decide) (by decide) unnamed slot
      (by decide : (0 : Int) ≤ 512) (by decide) (by rw [one]; simp; omega)
  rw [none] at freeFrom₁ secondEq
  obtain rfl : sector = 74 := UInt32.toNat_inj.mp firstEq
  obtain rfl : other = 75 := UInt32.toNat_inj.mp secondEq
  have names := prompt.tidy.named_new (by decide : (0 : UInt8) ∉ fileName [97]) (by decide) 74
  have namesBoth := prompt₁.tidy.named_new (by decide : (0 : UInt8) ∉ fileName [98]) (by decide) 75
  have namedFirst := (namesBoth (fileName [97]) 74).mpr (.inl ((names _ _).mpr (.inr ⟨rfl, rfl⟩)))
  have namedSecond := (namesBoth (fileName [98]) 75).mpr (.inr ⟨rfl, rfl⟩)
  obtain ⟨_, _, _, first, presentFirst, _⟩ := prompt₂.regular _ _ namedFirst
  obtain ⟨_, _, _, second, presentSecond, _⟩ := prompt₂.regular _ _ namedSecond
  rw [prompt₂.toMounted.inodeData presentSecond] at length₂ filled₂ laid₂
  rw [one] at laid₂
  have valid₁ : ShellCommand.Valid (.create [97] 0) := show (0 : UInt8) ∉ ([97] : CString) by decide
  have valid₂ : ShellCommand.Valid (.create [98] 512) := show (0 : UInt8) ∉ ([98] : CString) by decide
  have creates₁ : start.command (.create [97] 0) = some world₁ := World.command_create (by decide) (by decide) ran₁
  have creates₂ : world₁.command (.create [98] 512) = some world₂ := World.command_create (by decide) (by decide) ran₂
  have reached₂ : start.SafeRun world₂ := .step (.step .start valid₁ trivial creates₁) valid₂ trivial creates₂
  refine ⟨start, world₂, own₂, shared, nodes₂, root₂, _, first, second, formatted, reached₂, prompt₂, ?_,
    limit₂.trans (limit₁.trans limit), freeFrom₂, namedFirst, presentFirst, ?_, namedSecond, presentSecond, length₂, ?_, ?_⟩
  · rw [quiet₂.fileTable, quiet₁.fileTable, noFiles]
  · rw [← prompt₂.toMounted.inodeData presentFirst, others₂ _ _ ((names _ _).mpr (.inr ⟨rfl, rfl⟩)), length₁]
  · exact UInt32.toNat_inj.mp (laid₂.getElem? (rfl : [((0 : Fin 125), [])][0]? = some (0, [])))
  · by_contra there
    have within : Place.within (1, []) :=
      within_of_mem_inodePlaces (by decide : ((1, []) : Place) ∈ inodePlaces (blocksOf 514))
    have listed := (filled₂ (1, []) within).mp there
    rw [one] at listed
    exact absurd listed (by decide)

/-- After `rm a` the sector 74 is the only free one below 77. -/
theorem hole_small : ∃ start world own shared nodes root entries data,
    run (filesysInit true) ⟨.boot 300 fun _ => 0, fun _ => zeros⟩ = some ((), start) ∧ start.SafeRun world ∧
      AtPrompt own shared nodes root entries world ∧ world.mem.fileTable = [] ∧ world.limit = 299 ∧
      (∀ other : BlockSector, other.toNat < 299 → (world.used other ↔ other.toNat < 77 ∧ other ≠ 74)) ∧
      Named entries [98] 75 ∧ nodes 75 = some data ∧ data.length = 512 ∧ data.entry 0 = 76 ∧ data.entry 1 = 0 := by
  obtain ⟨start, world, own, shared, nodes, root, entries, first, second, formatted, reached, prompt, noFiles, limit, freeFrom,
    namedFirst, presentFirst, empty, namedSecond, presentSecond, facts⟩ := twoFiles_small
  have noPath : (pathTokens [97]).dropLast = [] := by decide
  have ends : ∀ entries, RemoveEnds entries [97] := fun entries => by rw [RemoveEnds, noPath]; trivial
  obtain ⟨removed, next, own', nodes', root', entries', ran, prompt', quiet, _, erased, _, _, _, _, removes⟩ :=
    prompt.filesysRemove (ends entries)
  have noHandle : world.handle [97] = none := by
    rw [World.handle, noFiles]
    rfl
  have removesFile : world.command (.rm [97]) = some next := by
    unfold World.handle at noHandle
    rw [World.command, MockOS.Fs.fsutilRm, run_bind, MockOS.Fs.removeFromFileTable, run_bind, run_get, Option.bind_some,
      noHandle]
    dsimp only
    rw [run_pure, Option.bind_some, run_bind, ran]
    rfl
  have closable : world.Closable [97] := fun entry found => by
    rw [noHandle] at found
    cases found
  have valid : ShellCommand.Valid (.rm [97]) := show (0 : UInt8) ∉ ([97] : CString) by decide
  have safe : world.Safe (.rm [97]) := ⟨closable, ends _⟩
  refine ⟨start, next, own', shared, nodes', root', entries', second, formatted,
    .step reached valid safe removesFile, prompt',
    quiet.fileTable.trans noFiles, removes.limit.trans limit, fun other inside => ?_, (erased _ _).mpr ⟨namedSecond, by decide⟩,
    ?_, facts⟩
  · have none : inodePlaces (blocksOf 0) = [] := by decide
    rw [removes.used 74 first ⟨noPath, namedFirst⟩ presentFirst other (by omega), freeFrom other (by omega), inodeSectors,
      empty, none]
    simp
  · rw [removes.others 75 (by decide), presentSecond]
    rintro ⟨_, named⟩
    exact absurd (prompt.tidy.sector_unique named namedFirst) (by decide)

/-- A file of one block that grows by one takes the lowest free sector. -/
theorem AtPrompt.write_hole (prompt : AtPrompt own shared nodes root entries world) (usable : world.Usable path)
    (start : world.position path = 0) (named : Named entries (fileName path) sector) (present : nodes sector = some data)
    (length : data.length = 512) (there : data.entry 0 ≠ 0) (missing : data.entry 1 = 0) {lowest : BlockSector}
    (inside : lowest.toNat < world.limit) (unused : ¬ world.used lowest)
    (below : ∀ other : BlockSector, other.toNat < lowest.toNat → world.used other) (isUsed : world.used (data.entry 0)) :
    ∃ next own' nodes' root' dataAfter, world.command (.write path (fun _ => 65) 514) = some next ∧
      AtPrompt own' shared nodes' root' entries next ∧ nodes' sector = some dataAfter ∧ dataAfter.length = 514 ∧
      dataAfter.entry 0 = data.entry 0 ∧ dataAfter.entry 1 = lowest := by
  have places : inodePlaces (blocksOf 514) = [(0, []), (1, [])] := by decide
  obtain ⟨_, _, nonroot, _⟩ := prompt.regular _ _ named
  obtain ⟨own₁, nodes₁, root₁, opened, prompt₁, inMemory, _, others, outcome⟩ := prompt.commandFile usable
  rcases outcome with ⟨absent, _⟩ | ⟨file, inode, number, found, ranOpen, handle, present₁⟩
  · exact absurd named (absent sector)
  obtain rfl := prompt.tidy.sector_unique named handle.named
  obtain rfl : data = found := Option.some.inj (present.symm.trans ((others sector nonroot).symm.trans present₁))
  rw [start] at handle
  obtain ⟨written, dataAfter, middle, after, own₂, ranWrite, _, _, prompt₂, _, outcome⟩ :=
    prompt₁.fileWrite handle (Int.le_refl 0) (fun _ => 65) (by decide : (1 : Int) ≤ 514) (by decide)
  have demand : demandFor opened.disk data 514 = 1 := by
    have same : inodePlaces (bytesToSectors (514 : Nat)) = [(0, []), (1, [])] := by decide
    rw [demandFor, inodeDemand, same, List.length_map, List.filter_cons_of_neg, List.filter_cons_of_pos]
    · rfl
    · exact decide_eq_true missing
    · rw [decide_eq_true_eq]
      exact there
  have unusedOpened : ¬ opened.used lowest := by rwa [inMemory.used]
  have free : opened.free ≠ 0 := fun full =>
    unusedOpened (Bitmap.free_zero.mp full lowest.toNat (show lowest.toNat < opened.limit by rwa [inMemory.limit]))
  rcases outcome with ⟨rfl, stores⟩ | ⟨_, keeps⟩
  swap
  · have cause := keeps.cause
    change _ ∨ _ ∧ opened.free < demandFor opened.disk data 514 at cause
    have maximum : maxBlocks = 16635 := rfl
    omega
  obtain ⟨next, nextEq⟩ : ∃ next, next = middle.seekFile file inode (0 + (514 - 2)) := ⟨_, rfl⟩
  rw [← nextEq] at ranWrite prompt₂
  have moved : InMemory middle next := nextEq ▸ middle.inMemory_seekFile _ _ _
  have ran : run (MockOS.Fs.fsutilWrite path (fun _ => 65) 514) world = some (514, next) := by
    rw [MockOS.Fs.fsutilWrite, run_bind, ranOpen, Option.bind_some]
    exact ranWrite
  have taken : middle.used lowest := by
    rw [← moved.used]
    have fewer := stores.free
    change middle.free = opened.free - demandFor opened.disk data 514 at fewer
    refine (prompt.fsutilWrite_firstFit usable ran).takes prompt.volume.sound.small ?_ inside below ?_
    · rw [moved.failures, stores.failures, inMemory.failures]
    · rw [moved.free, ← inMemory.free]
      omega
  have grown : dataAfter.length = 514 := by
    rw [stores.length, length]
    rfl
  have within : Place.within (0, []) := within_of_mem_inodePlaces (by rw [places]; exact List.mem_cons_self)
  have kept : dataAfter.entry 0 = data.entry 0 := stores.tree (0, []) within there
  refine ⟨next, own₂, _, root₁, dataAfter, by rw [World.command, ran]; rfl, prompt₂, Function.update_self _ _ _, grown, kept, ?_⟩
  rcases (stores.exact (prompt₁.live.exact present₁)).2 lowest (by rwa [inMemory.limit]) taken with
    before | ⟨place, listed, here⟩
  · exact absurd before unusedOpened
  · rw [grown, places, List.mem_pair] at listed
    rcases listed with rfl | rfl
    · rw [show lowest = dataAfter.entry 0 from here, kept] at unused
      exact absurd isUsed unused
    · exact here.symm

/-- A file that grows into the place of a removed one before it counts as fragmented at distance 2. -/
theorem countsByDistance_fails : ∃ start world,
    run (filesysInit true) ⟨.boot 300 fun _ => 0, fun _ => zeros⟩ = some ((), start) ∧ start.SafeRun world ∧
      (∃ entry ∈ world.files, world.dataSectors entry.inodeSector = [76, 74]) ∧ ¬ world.CountsByDistance := by
  obtain ⟨start, world, own, shared, nodes, root, entries, data, formatted, reached, prompt, noFiles, limit, used, named,
    present, length, first, missing⟩ := hole_small
  have noHandle : world.handle [98] = none := by
    rw [World.handle, noFiles]
    rfl
  have usable : world.Usable [98] := by
    rw [World.Usable, noHandle]
    exact .inr (by decide)
  have position : world.position [98] = 0 := by
    rw [World.position, noHandle]
    rfl
  obtain ⟨next, own', nodes', root', dataAfter, writes, prompt', present', grown, one, two⟩ :=
    prompt.write_hole usable position named present length (by rw [first]; decide) missing
      (show (74 : BlockSector).toNat < world.limit by rw [limit]; decide) (by rw [used 74 (by decide)]; simp)
      (fun other below => by
        have small : other.toNat < 74 := below
        refine (used other (by omega)).mpr ⟨by omega, ?_⟩
        rintro rfl
        exact absurd small (by decide))
      (by rw [first, used 76 (by decide)]; decide)
  have sectors : next.dataSectors 75 = [76, 74] := by
    have count : blocksOf 514 = 2 := by decide
    rw [World.dataSectors, prompt'.toMounted.inodeData present', grown, count]
    change [dataAfter.entry 0, dataAfter.entry 1] = _
    rw [one, two, first]
  have valid : ShellCommand.Valid (.write [98] (fun _ => 65) 514) := show (0 : UInt8) ∉ ([98] : CString) by decide
  have safe : world.Safe (.write [98] (fun _ => 65) 514) := ⟨usable, position.ge, by decide, by decide⟩
  have reachedNext : start.SafeRun next := .step reached valid safe writes
  obtain ⟨entry, listed, _, isSecond⟩ := mem_files_of_named prompt'.toMounted.rootEntries named
  refine ⟨start, next, formatted, reachedNext, ⟨entry, listed, by rw [isSecond, sectors]⟩, fun counts => ?_⟩
  obtain ⟨_, _, _, _, _, promptLast, names⟩ := safeRun_rootNames formatFits_small formatted reachedNext
  have scattered := ((promptLast.rooted names).countsByDistance_iff.mp counts entry listed).2
  rw [isSecond, sectors] at scattered
  have long : next.isLong entry = true := by
    rw [World.isLong, isSecond, prompt'.toMounted.inodeData present', grown]
    rfl
  exact absurd (scattered long (by decide)) (by decide)

end MockOS.Fs
