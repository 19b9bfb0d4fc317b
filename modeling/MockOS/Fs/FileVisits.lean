import MockOS.Fs.RootNames
import MockOS.Fs.RootScans

namespace MockOS.Fs

/-- The files of the root directory. -/
def World.files (world : World) : List DirEntry := (world.rootEntries.drop 1).filter (·.inUse)

/-- The names that do not lead back to the root directory. -/
def NoDots (name : CString) : Prop := name ≠ [46] ∧ name ≠ [46, 46]

instance (name : CString) : Decidable (NoDots name) := inferInstanceAs (Decidable (_ ∧ _))

/-- The inode that the root directory gives for a name. -/
def sectorOf (entries : List DirEntry) (name : CString) : BlockSector :=
  ((entries[nameSlot entries name]?).map (·.inodeSector)).getD 0

variable {A B : Type} {own after : Owners} {shared : BlockSector → Prop} {world next : World} {nodes nodesAfter : Nodes}
  {sector : BlockSector} {pointer dir file inode : Pointer} {root data : InodeDisk} {entries : List DirEntry}
  {name : CString} {slot : Nat}

theorem Tidy.sectorOf_eq (tidy : Tidy entries) (named : Named entries name sector) : sectorOf entries name = sector := by
  rw [sectorOf, tidy.named_iff.mp named]
  rfl

theorem named_of_mem_files (stored : world.rootEntries = entries) {entry : DirEntry} (listed : entry ∈ world.files) :
    Named entries entry.fname entry.inodeSector := by
  rw [World.files, stored] at listed
  obtain ⟨there, inUse⟩ := List.mem_filter.mp listed
  obtain ⟨index, found⟩ := List.mem_iff_getElem?.mp there
  rw [List.getElem?_drop] at found
  exact ⟨1 + index, entry, Nat.le_add_right _ _, found, inUse, rfl, rfl⟩

/-- A name in the root directory belongs to a listed file. -/
theorem mem_files_of_named (stored : world.rootEntries = entries) (named : Named entries name sector) :
    ∃ entry ∈ world.files, entry.fname = name ∧ entry.inodeSector = sector := by
  obtain ⟨slot, entry, low, found, inUse, sameName, same⟩ := named
  have later : (entries.drop 1)[slot - 1]? = some entry := by
    rw [List.getElem?_drop, Nat.add_sub_cancel' low]
    exact found
  refine ⟨entry, ?_, sameName, same⟩
  rw [World.files, stored]
  exact List.mem_filter.mpr ⟨List.mem_of_getElem? later, inUse⟩

/-- The root directory is closed and lists inodes, whatever their sectors hold. -/
structure Rooted (own : Owners) (shared : BlockSector → Prop) (nodes : Nodes) (root : InodeDisk)
    (entries : List DirEntry) (world : World) : Prop where
  volume : Volume own shared nodes world
  present : nodes 1 = some root
  holds : HoldsEntries world.disk root entries
  tidy : Tidy entries
  live : ∀ name sector, Named entries name sector → name ≠ [] ∧ sector ≠ 0 ∧ sector ≠ 1 ∧ ∃ data, nodes sector = some data
  names : RootNames entries
  cwd : world.mem.cwd = none
  rootClosed : world.closed 1

theorem AtPrompt.rooted (prompt : AtPrompt own shared nodes root entries world) (names : RootNames entries) :
    Rooted own shared nodes root entries world := by
  refine ⟨prompt.volume, prompt.present, prompt.holds, prompt.tidy, fun name sector named => ?_, names, prompt.cwd,
    prompt.rootClosed⟩
  obtain ⟨notEmpty, nonzero, nonroot, data, present, _⟩ := prompt.regular name sector named
  exact ⟨notEmpty, nonzero, nonroot, data, present⟩

/-- Since a state the inodes were only read again. -/
def BlocksKept (nodes : Nodes) (world : World) (nodesAfter : Nodes) (next : World) : Prop :=
  next.disk = world.disk ∧ SameBlocks world.disk nodes nodesAfter

/-- A command that uses each file of the root directory. -/
def overFiles (use : CString → Pointer → Action A) (finish : List A → B) : Action B := do
  let dir ← deref (← dirOpenRoot)
  let found ← visitFiles dir use (← entryRounds (← dirGetInode dir))
  dirClose (some dir)
  pure (finish found)

namespace Rooted

theorem rootEntries (rooted : Rooted own shared nodes root entries world) : world.rootEntries = entries := by
  rw [World.rootEntries, World.inodeBytes, rooted.volume.inodeData_eq rooted.present, rooted.holds.entries_eq]

theorem names_eq (rooted : Rooted own shared nodes root entries world) :
    laterNames entries 1 = world.files.map (·.fname) := by
  rw [World.files, rooted.rootEntries]
  rfl

theorem dirScan (rooted : Rooted own shared nodes root entries world) :
    DirScan own shared nodes root entries ⟨world.mem.openRoot root, world.disk⟩ (world.mem.nextPointer + 1)
      world.mem.nextPointer 1 := by
  obtain ⟨_, opened, volume⟩ := rooted.volume.inodeOpen_closed rooted.present rooted.rootClosed
  have opensDir := volume.openDir world.mem.nextPointer
  have first : 1 ≤ entries.length := by
    obtain ⟨entry, there, _⟩ := Option.map_eq_some_iff.mp rooted.names.parent
    exact (List.getElem?_eq_some_iff.mp there).1
  refine ⟨opensDir.heap rfl rfl (fun _ _ => rfl) (Nat.le_refl _) fun above late => (opensDir.table.fresh above late).2,
    ⟨⟨_, _, Function.update_self _ _ _⟩, ⟨opened.member, opened.object⟩, rooted.holds, first⟩, rooted.tidy, rooted.live, rfl,
    Function.update_self _ _ _, first⟩

/-- The command goes over all files when each can be used; it does not end at a name of the root directory itself. -/
theorem overFiles (rooted : Rooted own shared nodes root entries world) {use : CString → Pointer → Action A}
    (reads : ∀ name file, Respects (· = ·) (use name file)) (value : CString → BlockSector → A)
    (fine : CString → BlockSector → Prop) (uses : ∀ {own' nodes' mem dir pointer slot inode data file name sector},
      DirScan own' shared nodes' root entries ⟨mem, world.disk⟩ dir pointer slot →
      BlocksKept nodes world nodes' ⟨mem, world.disk⟩ → Named entries name sector →
      Opened ⟨mem, world.disk⟩ sector inode data → nodes' sector = some data → mem.files file = some ⟨inode, 0, false⟩ →
        (fine name sector → run (use name file) ⟨mem, world.disk⟩ = some (value name sector, ⟨mem, world.disk⟩)) ∧
        (¬ fine name sector → run (use name file) ⟨mem, world.disk⟩ = none)) (finish : List A → B) :
    (∀ entry ∈ world.files, NoDots entry.fname ∧ fine entry.fname entry.inodeSector) ∧
        (∃ next, run (MockOS.Fs.overFiles use finish) world =
          some (finish (world.files.map fun entry => value entry.fname entry.inodeSector), next)) ∨
      ¬ (∀ entry ∈ world.files, NoDots entry.fname ∧ fine entry.fname entry.inodeSector) ∧
        run (MockOS.Fs.overFiles use finish) world = none := by
  have scan := rooted.dirScan
  obtain ⟨started, startedEq⟩ : ∃ started : World, started = ⟨world.mem.openRoot root, world.disk⟩ := ⟨_, rfl⟩
  have opens := rooted.volume.run_dirOpenRoot rooted.present rooted.rootClosed rooted.cwd
  rw [← startedEq] at scan opens
  have rounds : run (entryRounds world.mem.nextPointer) started = some (entries.length + 1, started) :=
    scan.dirOpened.holds.run_entryRounds scan.dirOpened.opened
  have begins : run (MockOS.Fs.overFiles use finish) world =
      (run (visitFiles (world.mem.nextPointer + 1) use (entries.length + 1)) started).bind fun result =>
        run (do
          dirClose (some (world.mem.nextPointer + 1))
          pure (finish result.1)) result.2 := by
    rw [MockOS.Fs.overFiles, run_bind, opens, Option.bind_some, run_bind, run_deref_some, Option.bind_some,
      run_bind, scan.dirOpened.run_dirGetInode, Option.bind_some, run_bind, rounds, Option.bind_some, run_bind]
  obtain ⟨good, goodEq⟩ : ∃ good : CString → Prop, good = fun name => NoDots name ∧ fine name (sectorOf entries name) :=
    ⟨_, rfl⟩
  have seeks : ∀ {nodes' world' slot}, BlocksKept nodes world nodes' world' →
      BlocksKept nodes world nodes' (World.seekDir world' (world.mem.nextPointer + 1) world.mem.nextPointer 1 slot) := id
  have visits : ∀ {nodes' world' slot name sector},
      DirScan own shared nodes' root entries world' (world.mem.nextPointer + 1) world.mem.nextPointer slot →
      BlocksKept nodes world nodes' world' → Named entries name sector → good name → ∃ nodes'' next,
        run (visit use name) world' = some ([value name (sectorOf entries name)], next) ∧
          DirScan own shared nodes'' root entries next (world.mem.nextPointer + 1) world.mem.nextPointer slot ∧
          BlocksKept nodes world nodes'' next := by
    intro nodes' world' slot name sector scan kept named isGood
    rw [goodEq] at isGood
    obtain ⟨⟨notDot, notDots⟩, isFine⟩ := isGood
    rw [rooted.tidy.sectorOf_eq named] at isFine ⊢
    obtain ⟨mem, store⟩ := world'
    obtain ⟨sameDisk, sameBlocks⟩ := kept
    dsimp only at sameDisk
    subst sameDisk
    obtain ⟨nodesLast, last, ran, scanned, blocks, disk, _⟩ :
        ∃ nodesLast last, run (visit use name) ⟨mem, world.disk⟩ = some ([value name sector], last) ∧
          DirScan own shared nodesLast root entries last (world.mem.nextPointer + 1) world.mem.nextPointer slot ∧
          SameBlocks world.disk nodes' nodesLast ∧ last.disk = world.disk ∧ _ :=
      scan.visit notDot notDots (rooted.names.flat _ _ named) named fun scan opened there object =>
        (uses scan ⟨rfl, sameBlocks⟩ named opened there object).1 isFine
    exact ⟨nodesLast, last, ran, scanned, disk, sameBlocks.trans blocks⟩
  have start : BlocksKept nodes world nodes started := ⟨by rw [startedEq], .refl _ _⟩
  have isGood : ∀ entry ∈ world.files, good entry.fname ↔ NoDots entry.fname ∧ fine entry.fname entry.inodeSector := by
    intro entry there
    rw [goodEq, ← rooted.tidy.sectorOf_eq (named_of_mem_files rooted.rootEntries there)]
  by_cases allGood : ∀ entry ∈ world.files, NoDots entry.fname ∧ fine entry.fname entry.inodeSector
  · refine .inl ⟨allGood, ?_⟩
    have listed : ∀ name ∈ laterNames entries 1, good name := by
      intro name member
      rw [rooted.names_eq] at member
      obtain ⟨entry, there, rfl⟩ := List.mem_map.mp member
      exact (isGood entry there).mpr (allGood entry there)
    obtain ⟨nodes', last, ran, scanned, _⟩ := scan.visitFiles @seeks @visits (Nat.le_refl 1) start listed
      (show entries.length < 1 + (entries.length + 1) by omega)
    have closes := run_dirClose scanned.cursor scanned.dirOpened.opened
    have values : (laterNames entries 1).map (fun name => value name (sectorOf entries name)) =
        world.files.map fun entry => value entry.fname entry.inodeSector := by
      rw [rooted.names_eq, List.map_map]
      apply List.map_congr_left
      intro entry there
      rw [Function.comp_apply, rooted.tidy.sectorOf_eq (named_of_mem_files rooted.rootEntries there)]
    rw [begins, ran, Option.bind_some, run_bind, closes, Option.bind_some, run_pure, values]
    exact ⟨_, rfl⟩
  · refine .inr ⟨allGood, ?_⟩
    push Not at allGood
    obtain ⟨bad, there, isBad⟩ := allGood
    have listed : bad.fname ∈ laterNames entries 1 := by
      rw [rooted.names_eq]
      exact List.mem_map_of_mem there
    have broken : ¬ good bad.fname := fun both => isBad ((isGood bad there).mp both).1 ((isGood bad there).mp both).2
    rw [begins, scan.visitFiles_undefined @seeks @visits (Nat.le_refl 1) start
      (fun {nodes' world' slot name sector _ _} scan kept named notGood ran rounds => ?_) ⟨bad.fname, listed, broken⟩]
    · rfl
    · by_cases dots : name = [46] ∨ name = [46, 46]
      · obtain ⟨freed, cursor⟩ := scan.visit_dots rooted.names.parent dots (fun file => reads _ file) ran
        exact DirScan.visitFiles_freed freed cursor use rounds
      · obtain ⟨notDot, notDots⟩ := not_or.mp dots
        have notFine : ¬ fine name sector := fun isFine => notGood (by
          rw [← rooted.tidy.sectorOf_eq named] at isFine
          rw [goodEq]
          exact ⟨⟨notDot, notDots⟩, isFine⟩)
        obtain ⟨mem, store⟩ := world'
        obtain ⟨sameDisk, sameBlocks⟩ := kept
        dsimp only at sameDisk
        subst sameDisk
        rw [scan.visit_undefined notDot notDots (rooted.names.flat _ _ named) named fun scan opened there object =>
          (uses scan ⟨rfl, sameBlocks⟩ named opened there object).2 notFine] at ran
        cases ran

end Rooted

end MockOS.Fs
