import MockOS.Fs.ShellRuns

namespace MockOS.Fs

/-- What `filesys_create` creates on a path is opened and removed again by the path. -/
def World.PathsAgree (world : World) (path : CString) (length : Int) : Prop :=
  ∀ created, run (filesysCreate path length false) world = some (true, created) →
    ∃ file inode sector data opened, run (filesysOpen path) created = some (some file, opened) ∧
      opened.mem.files file = some ⟨inode, 0, false⟩ ∧ opened.mem.inodes inode = some (.live sector data) ∧
      data.length = length ∧ Named created.rootEntries (fileName path) sector ∧
      (∀ name, ¬ Named world.rootEntries name sector) ∧
      ∃ removed, run (filesysRemove path) opened = some (true, removed) ∧
        ∀ name number, Named removed.rootEntries name number ↔ Named world.rootEntries name number

variable {shared : BlockSector → Prop} {own : Owners} {world next : World} {nodes nodesAfter : Nodes}
  {sector : BlockSector} {root data : InodeDisk} {entries entriesAfter : List DirEntry} {name path token : CString}
  {length : Int}

/-- A path with one component names it. -/
theorem fileName_of_tokens (single : pathTokens path = [token]) : fileName path = token ∧ (pathTokens path).dropLast = [] := by
  rw [fileName, splitPathFilename, single]
  exact ⟨rfl, rfl⟩

/-- A creation succeeds when nothing is wrong with its arguments and enough sectors are free. -/
theorem CreateResult.succeeds {result : Bool}
    (created : CreateResult nodes nodesAfter root entries entriesAfter name length result world next) (notEmpty : name ≠ [])
    (short : name.length ≤ 30) (unnamed : ∀ sector, ¬ Named entries name sector) (low : 0 ≤ length)
    (fits : length ≤ 512 * maxBlocks) (enough : (inodePlaces (blocksOf length)).length < world.free)
    (slot : freeSlot entries < entries.length) : result = true := by
  rcases created.outcome with ⟨_, _, _, _, failed⟩ | ⟨done, _⟩
  · cases failed with
    | noSector full _ _ => omega
    | noInode _ cause _ _ _ => omega
    | refused cause _ _ _ _ =>
        rcases cause with empty | long | ⟨sector, named⟩
        · exact absurd empty notEmpty
        · omega
        · exact absurd named (unnamed sector)
    | noSlot _ full _ _ _ _ _ => omega
  · exact done

/-- A creation succeeds also where the directory grows, if that takes no sector. -/
theorem CreateResult.succeeds_of_noDemand {result : Bool}
    (created : CreateResult nodes nodesAfter root entries entriesAfter name length result world next) (notEmpty : name ≠ [])
    (short : name.length ≤ 30) (unnamed : ∀ sector, ¬ Named entries name sector) (low : 0 ≤ length)
    (fits : length ≤ 512 * maxBlocks) (enough : (inodePlaces (blocksOf length)).length < world.free)
    (inside : 36 * freeSlot entries + 36 ≤ 512 * maxBlocks)
    (noDemand : demandFor world.disk root (36 * freeSlot entries + 36) = 0) : result = true := by
  rcases Nat.lt_or_ge (freeSlot entries) entries.length with slot | grows
  · exact created.succeeds notEmpty short unnamed low fits enough slot
  have full := Nat.le_antisymm (freeSlot_le entries) grows
  rcases created.outcome with ⟨_, _, _, _, failed⟩ | ⟨done, _⟩
  · cases failed with
    | noSector full _ _ => omega
    | noInode _ cause _ _ _ => omega
    | refused cause _ _ _ _ =>
        rcases cause with empty | long | ⟨sector, named⟩
        · exact absurd empty notEmpty
        · omega
        · exact absurd named (unnamed sector)
    | noSlot _ _ _ _ _ cause _ =>
        rw [full] at inside noDemand
        omega
  · exact done

/-- The root directory has the sectors of its free slots. -/
theorem AtPrompt.demandFor_slot (prompt : AtPrompt own shared nodes root entries world)
    (slot : freeSlot entries < entries.length) : demandFor world.disk root (36 * freeSlot entries + 36) = 0 := by
  have node := prompt.volume.node 1 root prompt.present
  have length := prompt.holds.length
  exact demandFor_of_complete node.complete (by omega) node.high

/-- The names after a new entry. -/
theorem Tidy.named_new (tidy : Tidy entries) (nulFree : 0 ∉ name) (short : name.length ≤ 30) (sector : BlockSector)
    (other : CString) (number : BlockSector) :
    Named (MockOS.Fs.setSlot entries (freeSlot entries) ⟨sector, strncpy name 31, true⟩) other number ↔
      Named entries other number ∨ name = other ∧ sector = number := by
  have named := named_setSlot tidy.one_le_freeSlot (freeSlot_le entries) (fun before found => freeSlot_unused found)
    (rfl : (DirEntry.mk sector (strncpy name 31) true).inUse = true) other number
  rwa [fname_new nulFree short] at named

/-- The names after a creation. -/
theorem NewFile.named (new : NewFile nodes root entries name length sector data world next) (tidy : Tidy entries)
    (nulFree : 0 ∉ name) (other : CString) (number : BlockSector) :
    Named (setSlot entries (freeSlot entries) ⟨sector, strncpy name 31, true⟩) other number ↔
      Named entries other number ∨ name = other ∧ sector = number :=
  tidy.named_new nulFree new.short sector other number

/-- Paths with one component other than the dots agree. -/
theorem AtPrompt.pathsAgree (prompt : AtPrompt own shared nodes root entries world) (nulFree : 0 ∉ path)
    (single : pathTokens path = [token]) (notDot : token ≠ [46]) (notDots : token ≠ [46, 46])
    (high : length < 2147483648) : world.PathsAgree path length := by
  intro created ran
  obtain ⟨sameName, noDirectory⟩ := fileName_of_tokens single
  obtain ⟨result, next, own₁, nodes₁, root₁, entries₁, ran₁, prompt₁, _, result₁⟩ :=
    prompt.filesysCreate (nul_free_fileName nulFree) high
  rw [ran, Option.some.injEq, Prod.mk.injEq] at ran₁
  obtain ⟨rfl, rfl⟩ := ran₁
  rcases result₁.outcome with ⟨impossible, _⟩ | ⟨_, _, sector, data, rfl, there, _, new⟩
  · cases impossible
  have names := new.named prompt.tidy (nul_free_fileName nulFree)
  have newNamed : Named (setSlot entries (freeSlot entries) ⟨sector, strncpy (fileName path) 31, true⟩) (fileName path)
      sector := (names _ _).mpr (.inr ⟨rfl, rfl⟩)
  obtain ⟨own₂, nodes₂, root₂, opened, prompt₂, _, _, _, _, outcome⟩ :=
    prompt₁.filesysOpen new.notEmpty (by rwa [sameName]) (by rwa [sameName])
  rcases outcome with ⟨unnamed, _⟩ | ⟨number, inode, before, file, named, ran₂, present, live, object, _⟩
  · exact absurd newNamed (unnamed sector)
  obtain rfl := prompt₁.tidy.sector_unique named newNamed
  rw [there, Option.some.injEq] at present
  subst present
  have ends : RemoveEnds (setSlot entries (freeSlot entries) ⟨number, strncpy (fileName path) 31, true⟩) path := by
    rw [RemoveEnds, noDirectory]
    exact trivial
  obtain ⟨removes, removed, own₃, nodes₃, root₃, entries₃, ran₃, prompt₃, _, _, erased, _, _, _, there₃, _⟩ :=
    prompt₂.filesysRemove ends
  obtain rfl : removes = true := there₃.mpr ⟨noDirectory, number, named⟩
  refine ⟨file, inode, number, data, opened, ran₂, object, live.object, new.length_eq, ?_, fun name before => ?_, removed,
    ran₃, fun name other => ?_⟩
  · rw [prompt₁.toMounted.rootEntries]
    exact named
  · rw [prompt.toMounted.rootEntries] at before
    obtain ⟨_, _, _, data, present, _⟩ := prompt.regular name number before
    rw [new.absent] at present
    cases present
  · rw [prompt₃.toMounted.rootEntries, prompt.toMounted.rootEntries, erased, names]
    constructor
    · rintro ⟨before | ⟨rfl, _⟩, kept⟩
      · exact before
      · exact absurd ⟨rfl, noDirectory⟩ kept
    · intro before
      refine ⟨.inl before, ?_⟩
      rintro ⟨rfl, _⟩
      exact new.unnamed other before

section Format

variable {deviceSize : UInt32} {garbage : Nat → UInt8} {disk : BlockSector → Sector} {start : World}

/-- In every state of a safe run, what is created on a path with one component other than the dots is opened and removed
by the same path. -/
theorem safeRun_pathsAgree (fits : FormatFits deviceSize)
    (formatted : run (filesysInit true) ⟨.boot deviceSize garbage, disk⟩ = some ((), start))
    (reached : start.SafeRun world) (nulFree : 0 ∉ path) (single : pathTokens path = [token])
    (notDot : token ≠ [46]) (notDots : token ≠ [46, 46]) (valid : isOffset length = true) :
    world.PathsAgree path length := by
  obtain ⟨shared, own, nodes, root, entries, prompt⟩ := safeRun_prompting fits formatted reached
  simp only [isOffset, Bool.and_eq_true, decide_eq_true_eq] at valid
  exact prompt.pathsAgree nulFree single notDot notDots valid.2

end Format

/-- A new device of zeros after a format. -/
theorem format_prompt {deviceSize : UInt32} (fits : FormatFits deviceSize) : ∃ world own shared nodes root,
    run (filesysInit true) ⟨.boot deviceSize fun _ => 0, fun _ => zeros⟩ = some ((), world) ∧
      world.free + 2 + (inodePlaces (blocksOf (Bitmap.byteCnt (mapBits deviceSize)))).length +
        (inodePlaces (blocksOf 36000)).length = mapBits deviceSize ∧
      world.mem.fileTable = [] ∧ AtPrompt own shared nodes root (newEntries 1 1000) world := by
  obtain ⟨world, own, shared, nodes, formatted, fresh⟩ := filesysInit_format (fun _ => 0) (fun _ => zeros) fits
  obtain ⟨own', root, prompt⟩ := fresh.atPrompt
  obtain ⟨_, _, _, started, _⟩ := fresh.nodes
  exact ⟨world, own', shared, nodes, root, formatted, fresh.free, started.fileTable, prompt⟩

/-- A device of 300 sectors has 225 free ones after a format. -/
theorem format_small : ∃ world own shared nodes root,
    run (filesysInit true) ⟨.boot 300 fun _ => 0, fun _ => zeros⟩ = some ((), world) ∧ world.free = 225 ∧
      world.mem.fileTable = [] ∧ AtPrompt own shared nodes root (newEntries 1 1000) world := by
  obtain ⟨world, own, shared, nodes, root, formatted, free, empty, prompt⟩ := format_prompt formatFits_small
  have places : mapBits 300 = 299 ∧ (inodePlaces (blocksOf (Bitmap.byteCnt (mapBits 300)))).length = 1 ∧
    (inodePlaces (blocksOf 36000)).length = 71 := by decide
  exact ⟨world, own, shared, nodes, root, formatted, by omega, empty, prompt⟩

theorem freeSlot_newEntries : freeSlot (newEntries 1 1000) < (newEntries 1 1000).length :=
  List.findIdx_lt_length_of_exists
    ⟨emptyEntry, List.mem_cons_of_mem _ (List.mem_replicate.mpr ⟨by decide, rfl⟩), rfl⟩

theorem safeRun_pathsAgree_small : ∃ world,
    run (filesysInit true) ⟨.boot 300 fun _ => 0, fun _ => zeros⟩ = some ((), world) ∧
      world.PathsAgree [47, 97] 600 := by
  obtain ⟨world, _, _, _, _, formatted, _⟩ := format_small
  exact ⟨world, formatted, safeRun_pathsAgree formatFits_small formatted .start (by decide)
    (show pathTokens [47, 97] = [[97]] by decide) (by decide) (by decide) (by decide)⟩

/-- A file that was created through a directory that does not exist cannot be removed. -/
theorem create_without_directory : ∃ world,
    run (filesysInit true) ⟨.boot 300 fun _ => 0, fun _ => zeros⟩ = some ((), world) ∧
      ¬ world.PathsAgree [97, 47, 98] 0 := by
  obtain ⟨world, own, shared, nodes, root, formatted, free, _, prompt⟩ := format_small
  refine ⟨world, formatted, fun agree => ?_⟩
  have nulFree : (0 : UInt8) ∉ fileName [97, 47, 98] := by decide
  obtain ⟨result, created, own₁, nodes₁, root₁, entries₁, ran₁, prompt₁, _, result₁⟩ :=
    prompt.filesysCreate nulFree (by decide : (0 : Int) < 2147483648)
  obtain rfl : result = true := result₁.succeeds (by decide) (by decide) (fun _ => not_named_newEntries _ _ _ _)
    (by decide) (by decide) (by rw [free]; decide) freeSlot_newEntries
  obtain ⟨file, inode, sector, data, opened, ran₂, _, _, _, _, _, removed, ran₃, _⟩ := agree created ran₁
  obtain ⟨own₂, nodes₂, root₂, next, prompt₂, _, _, _, _, outcome⟩ :=
    prompt₁.filesysOpen (by decide : fileName [97, 47, 98] ≠ []) (by decide) (by decide)
  have same : next = opened := by
    rcases outcome with ⟨_, ran⟩ | ⟨_, _, _, _, _, ran, _⟩
    · rw [ran, Option.some.injEq, Prod.mk.injEq] at ran₂
      exact ran₂.2
    · rw [ran, Option.some.injEq, Prod.mk.injEq] at ran₂
      exact ran₂.2
  subst same
  rcases result₁.outcome with ⟨impossible, _⟩ | ⟨_, _, number, _, rfl, _, _, new⟩
  · cases impossible
  have ends : RemoveEnds (setSlot (newEntries 1 1000) (freeSlot (newEntries 1 1000))
      ⟨number, strncpy (fileName [97, 47, 98]) 31, true⟩) [97, 47, 98] := by
    refine ⟨by decide, by decide, fun other named => ?_⟩
    rcases (new.named prompt.tidy nulFree _ _).mp named with before | ⟨impossible, _⟩
    · exact not_named_newEntries _ _ _ _ before
    · exact absurd impossible (by decide)
  obtain ⟨removes, _, _, _, _, _, ran, _, _, _, _, _, _, _, there, _⟩ := prompt₂.filesysRemove ends
  rw [ran₃, Option.some.injEq, Prod.mk.injEq] at ran
  exact absurd (there.mp ran.1.symm).1 (by decide)

end MockOS.Fs
