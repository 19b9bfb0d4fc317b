import MockOS.Fs.PlainRuns

namespace MockOS.Fs

variable {shared : BlockSector → Prop} {own after own' : Owners} {world middle next : World}
  {nodes nodesBetween nodesAfter : Nodes} {sector : BlockSector} {dir pointer : Pointer} {root rootAfter : InodeDisk}
  {entries entriesAfter : List DirEntry} {name path : CString} {length : Int}

/-- Sector 0 stays as it is unless an allocation fails. -/
structure KeepsZero (world next : World) : Prop where
  failures : world.mem.allocationFailures ≤ next.mem.allocationFailures
  zero : next.mem.allocationFailures = world.mem.allocationFailures → next.disk 0 = world.disk 0

instance : IsPreorder World KeepsZero where
  refl _ := ⟨Nat.le_refl _, fun _ => rfl⟩
  trans before between after one two := by
    have ordered := one.failures
    have later := two.failures
    refine ⟨Nat.le_trans ordered later, fun same => ?_⟩
    rw [two.zero (by omega), one.zero (by omega)]

theorem InodeStep.keepsZero (step : InodeStep shared sector own after nodes nodesAfter world next) : KeepsZero world next :=
  ⟨step.failures, step.zero⟩

theorem InMemory.keepsZero (same : InMemory world next) : KeepsZero world next :=
  ⟨same.failures.ge, fun _ => congrFun same.disk 0⟩

/-- The release of a sector that was taken in vain. -/
theorem Volume.keepsZero_release (volume : Volume after shared nodesBetween middle)
    (self : after sector = some (sector, none)) (nonzero : sector ≠ 0) (closed : middle.closed sector)
    (before : KeepsZero world middle) (creates : run (createIn dir name length false) world = some ((some sector, false), middle))
    {result : Bool} (ran : run (createOrRelease dir name length) world = some (result, next)) : KeepsZero world next := by
  obtain ⟨last, releases, _, step, _⟩ := volume.releaseSector self nonzero closed
  rw [createOrRelease, run_bind, creates, Option.bind_some] at ran
  dsimp only at ran
  rw [if_pos ⟨rfl, nonzero⟩, run_bind, releases, Option.bind_some, run_pure, Option.some.injEq, Prod.mk.injEq] at ran
  exact ran.2 ▸ trans_of KeepsZero before step.keepsZero

/-- The creation of a file in the open root directory. -/
theorem RootOpen.keepsZero_createOrRelease (open_ : RootOpen own shared nodes root entries world dir pointer)
    (high : length < 2147483648) {result : Bool} (ran : run (MockOS.Fs.createOrRelease dir name length) world = some (result, next)) :
    KeepsZero world next := by
  rcases open_.volume.newInode open_.live high with ⟨full, ran₁, volume⟩ |
    ⟨sector, world₁, world₂, after, ran₁, available, absent, nonzero, unused, mem₂,
      ⟨ran₂, step, self, failed⟩ | ⟨data, ran₂, step, created⟩⟩
  · have refuses : run (MockOS.Fs.createOrRelease dir name length) world = some (false, world.failed) := by
      rw [MockOS.Fs.createOrRelease, run_bind, createIn, run_bind, ran₁]
      rfl
    rw [refuses, Option.some.injEq, Prod.mk.injEq] at ran
    rw [← ran.2]
    exact ⟨Nat.le_succ _, fun same => absurd same (Nat.succ_ne_self _)⟩
  · have creates : run (createIn dir name length false) world = some ((some sector, false), world₂) := by
      rw [createIn, run_bind, ran₁, Option.bind_some]
      dsimp only
      rw [run_bind, ran₂]
      rfl
    exact step.volume.keepsZero_release self nonzero
      ((open_.volume.closed_of_absent absent).of_mem (by rw [mem₂]) (by rw [mem₂])) step.keepsZero creates ran
  · obtain ⟨nonroot, closed, same, dirOpened, present⟩ := open_.afterInode absent mem₂ step
    have self := (step.volume.node sector data (Function.update_self _ _ _)).self
    by_cases bad : name = [] ∨ 30 < name.length ∨ entries[nameSlot entries name]? ≠ none
    · have refused : run (dirAdd dir name sector false) world₂ = some (false, world₂) :=
        step.volume.dirAdd_refused dirOpened bad
      exact step.volume.keepsZero_release self nonzero closed step.keepsZero (run_createIn_inode ran₁ ran₂ refused) ran
    push Not at bad
    obtain ⟨notEmpty, short, unnamed⟩ := bad
    obtain ⟨rootAfter, world₃, own₃, step₃, mem₃, _, outcome⟩ := step.volume.dirAdd dirOpened (by decide) notEmpty short
      unnamed sector
    have both : KeepsZero world world₃ := trans_of KeepsZero step.keepsZero step₃.keepsZero
    rcases outcome with ⟨ran₃, _⟩ | ⟨ran₃, _⟩
    · have creates := run_createIn_inode ran₁ ran₂ ran₃
      rw [MockOS.Fs.createOrRelease, run_bind, creates, Option.bind_some] at ran
      dsimp only at ran
      rw [if_neg (by simp), run_pure, Option.some.injEq, Prod.mk.injEq] at ran
      exact ran.2 ▸ both
    · exact step₃.volume.keepsZero_release (step₃.kept sector sector none self nonroot.symm) nonzero
        (((dirOpened.opened.write mem₃).1.closed nonroot.symm).mpr closed) both (run_createIn_inode ran₁ ran₂ ran₃) ran

/-- The removal of a file from the open root directory. -/
theorem RootOpen.keepsZero_dirRemove (open_ : RootOpen own shared nodes root entries world dir pointer) {result : Bool}
    (ran : run (MockOS.Fs.dirRemove dir name) world = some (result, next)) : next.disk 0 = world.disk 0 := by
  cases found : entries[nameSlot entries name]? with
  | none =>
      rw [open_.volume.dirRemove_absent open_.dirOpened found, Option.some.injEq, Prod.mk.injEq] at ran
      rw [← ran.2]
  | some entry =>
      have named : Named entries name entry.inodeSector := by
        rw [open_.tidy.named_iff, found]
        rfl
      obtain ⟨_, nonzero, nonroot, data, present, isFile, _⟩ := open_.regular _ _ named
      obtain ⟨_, last, _, again, _, _, _, _, _, _, _, zero, _⟩ :=
        open_.volume.dirRemove open_.dirOpened (by decide) found present isFile nonroot nonzero
      rw [again, Option.some.injEq, Prod.mk.injEq] at ran
      exact ran.2 ▸ zero

/-- Sector 0 and the inode of the free map stay, and so does the number of bits. -/
structure KeepsMap (world next : World) : Prop extends KeepsZero world next where
  limit : next.limit = world.limit
  inode : next.inodeData 0 = world.inodeData 0

instance : IsPreorder World KeepsMap where
  refl world := ⟨refl_of KeepsZero world, rfl, rfl⟩
  trans _ _ _ one two :=
    ⟨trans_of KeepsZero one.toKeepsZero two.toKeepsZero, two.limit.trans one.limit, two.inode.trans one.inode⟩

/-- The inode of the free map is that of the node of sector 0. -/
theorem Mounted.keepsMap (mounted : Mounted own shared nodes root entries world)
    (again : Mounted after shared nodesAfter rootAfter entriesAfter next) (node : nodesAfter 0 = nodes 0)
    (zero : KeepsZero world next) (limit : next.limit = world.limit) : KeepsMap world next := by
  refine ⟨zero, limit, ?_⟩
  obtain ⟨pointer, data, opened⟩ := mounted.volume.zero_opened
  have present := mounted.volume.table.node opened
  rw [mounted.inodeData present, again.inodeData (node.trans present)]

theorem Settled.keepsMap (settled : Settled shared nodes entries world next)
    (mounted : Mounted own shared nodes root entries world) : KeepsMap world next := by
  obtain ⟨_, _, _, prompt, inMemory, _, node⟩ := settled
  exact mounted.keepsMap prompt.toMounted node inMemory.keepsZero inMemory.limit

namespace AtPrompt

theorem keepsZero_filesysCreate (prompt : AtPrompt own shared nodes root entries world) (nulFree : 0 ∉ fileName path)
    (high : length < 2147483648) {result : Bool} (ran : run (MockOS.Fs.filesysCreate path length false) world = some (result, next)) :
    KeepsZero world next := by
  obtain ⟨dir, pointer, own₁, world₁, ran₁, open₁, _, _, inMemory₁, _⟩ := prompt.dirOpenRoot
  obtain ⟨created, world₂, own₂, nodes₂, root₂, entries₂, ran₂, open₂, _⟩ := open₁.createOrRelease nulFree high
  obtain ⟨own₃, world₃, ran₃, _, _, inMemory₃, _⟩ := open₂.dirClose
  rw [run_filesysCreate ran₁, ran₂, Option.bind_some, run_bind, ran₃, Option.bind_some, run_pure, Option.some.injEq,
    Prod.mk.injEq] at ran
  exact ran.2 ▸ trans_of KeepsZero (trans_of KeepsZero inMemory₁.keepsZero (open₁.keepsZero_createOrRelease high ran₂))
    inMemory₃.keepsZero

theorem keepsMap_fsutilCreate (prompt : AtPrompt own shared nodes root entries world) (nulFree : 0 ∉ path) {size : Int}
    {value : Int} (ran : run (MockOS.Fs.fsutilCreate path size) world = some (value, next)) : KeepsMap world next := by
  obtain ⟨result, last, _, nodes', _, _, again, prompt', _, outcome⟩ := prompt.fsutilCreate nulFree size
  have same := again
  rw [ran, Option.some.injEq, Prod.mk.injEq] at same
  obtain ⟨-, rfl⟩ := same
  rcases outcome with ⟨_, _, rfl, _⟩ | ⟨notEmpty, notLong, created⟩
  · exact refl_of KeepsMap _
  have zero : KeepsZero world next := by
    rw [MockOS.Fs.fsutilCreate, if_neg (by omega)] at ran
    obtain ⟨result, last, creates, rest⟩ := run_bind_some.mp ran
    rw [run_pure, Option.some.injEq, Prod.mk.injEq] at rest
    exact rest.2 ▸ prompt.keepsZero_filesysCreate (nul_free_fileName nulFree) (wrap32_bounds size).2 creates
  refine prompt.toMounted.keepsMap prompt'.toMounted ?_ zero created.limit
  rcases created.outcome with ⟨_, _, _, others, _⟩ | ⟨_, _, sector, data, _, there, others, new⟩
  · exact others 0 (by decide)
  · refine others 0 (by decide) fun same => ?_
    obtain ⟨pointer, data, opened⟩ := prompt.volume.zero_opened
    have absent := new.absent
    rw [← same, prompt.volume.table.node opened] at absent
    cases absent

theorem keepsZero_filesysRemove (prompt : AtPrompt own shared nodes root entries world)
    (flat : (pathTokens path).dropLast = []) {result : Bool}
    (ran : run (MockOS.Fs.filesysRemove path) world = some (result, next)) : next.disk 0 = world.disk 0 := by
  obtain ⟨dir, pointer, own₁, world₁, ran₁, open₁, _, _, inMemory₁, _⟩ := prompt.dirOpenRoot
  obtain ⟨removed, world₂, own₂, nodes₂, root₂, entries₂, ran₂, open₂, _⟩ := open₁.dirRemove (fileName path)
  obtain ⟨own₃, world₃, ran₃, _, _, inMemory₃, _⟩ := open₂.dirClose
  rw [run_filesysRemove_some (open₁.run_dirOpenPath ((prompt.run_startDir _).trans ran₁) flat) ran₂ ran₃, Option.some.injEq,
    Prod.mk.injEq] at ran
  rw [← ran.2, inMemory₃.disk, open₁.keepsZero_dirRemove ran₂, inMemory₁.disk]

theorem keepsMap_fsutilRm (prompt : AtPrompt own shared nodes root entries world) (closable : world.Closable path)
    (flat : (pathTokens path).dropLast = []) {value : Int}
    (ran : run (MockOS.Fs.fsutilRm path) world = some (value, next)) : KeepsMap world next := by
  obtain ⟨removed, middle, ran₁, settled, _⟩ := prompt.closePath closable
  have first := settled.keepsMap prompt.toMounted
  obtain ⟨own₁, nodes₁, root₁, prompt₁, _, _, _⟩ := settled
  have ends : RemoveEnds entries path := by
    rw [RemoveEnds, flat]
    trivial
  obtain ⟨result, last, own₂, nodes₂, root₂, entries₂, ran₂, prompt₂, _, failures₂, _, _, node₂, _, _, removes⟩ :=
    prompt₁.filesysRemove ends
  rw [MockOS.Fs.fsutilRm, run_bind, ran₁, Option.bind_some, run_bind, ran₂, Option.bind_some, run_pure, Option.some.injEq,
    Prod.mk.injEq] at ran
  rw [← ran.2]
  exact trans_of KeepsMap first (prompt₁.toMounted.keepsMap prompt₂.toMounted node₂
    ⟨failures₂.ge, fun _ => prompt₁.keepsZero_filesysRemove flat ran₂⟩ removes.limit)

theorem keepsMap_fsutilWrite (prompt : AtPrompt own shared nodes root entries world) (usable : world.Usable path)
    (nonnegative : 0 ≤ world.position path) {buffer : Nat → UInt8} {size : Int} (low : 1 ≤ size) (high : size < 2147483648)
    {value : Int} (ran : run (MockOS.Fs.fsutilWrite path buffer size) world = some (value, next)) : KeepsMap world next := by
  obtain ⟨written, last, again, keeps⟩ : ∃ written last,
      run (MockOS.Fs.fsutilWrite path buffer size) world = some (written, last) ∧ KeepsMap world last := by
    apply prompt.withFile usable
    · exact fun next _ _ settled => settled.keepsMap prompt.toMounted
    intro own' nodes' root' middle file inode sector data prompt' inMemory _ node _ handle
    obtain ⟨written, dataAfter, last, after, own'', ran, step, _, prompt'', _, outcome⟩ :=
      prompt'.fileWrite handle nonnegative buffer low high
    have nonzero := (prompt'.sector_regular handle).1
    have moved := last.inMemory_seekFile file inode (world.position path + (written - 2))
    have limit : last.limit = middle.limit := outcome.elim (fun both => both.2.limit) fun both => both.2.limit
    refine ⟨written, _, ?_, prompt.toMounted.keepsMap prompt''.toMounted ((Function.update_of_ne nonzero.symm _ _).trans node)
      (trans_of KeepsZero (trans_of KeepsZero inMemory.keepsZero step.keepsZero) moved.keepsZero)
      (moved.limit.trans (limit.trans inMemory.limit))⟩
    rw [wrap32_of_range (by omega) high]
    exact ran
  rw [ran, Option.some.injEq, Prod.mk.injEq] at again
  exact again.2 ▸ keeps

end AtPrompt

/-- No command on a plain name touches the inode of the free map. -/
theorem World.AtRest.keepsMap (rest : world.AtRest shared) {command : ShellCommand} (plain : command.Plain)
    (ran : world.command command = some next) : KeepsMap world next := by
  obtain ⟨own, nodes, root, entries, orderly⟩ := rest
  have prompt := orderly.toAtPrompt
  cases command with
  | create name size =>
      obtain ⟨⟨value, last⟩, again, rfl⟩ := Option.map_eq_some_iff.mp ran
      exact prompt.keepsMap_fsutilCreate plain.nulFree again
  | write name buffer size =>
      obtain ⟨⟨value, last⟩, again, rfl⟩ := Option.map_eq_some_iff.mp ran
      obtain ⟨plainName, low, high⟩ := plain
      exact prompt.keepsMap_fsutilWrite (orderly.usable plainName) (orderly.positions name) (by omega) high again
  | read name size =>
      obtain ⟨value, last, again, settled, _⟩ := prompt.fsutilRead (orderly.usable plain) (orderly.positions name) size
      rw [World.command, again, Option.map_some, Option.some.injEq] at ran
      exact ran ▸ settled.keepsMap prompt.toMounted
  | seek name offset =>
      obtain ⟨value, last, again, settled, _⟩ := prompt.fsutilSeek (orderly.usable plain.1) plain.2.2
      rw [World.command, again, Option.map_some, Option.some.injEq] at ran
      exact ran ▸ settled.keepsMap prompt.toMounted
  | size name =>
      obtain ⟨value, last, again, settled, _⟩ := prompt.fsutilSize (orderly.usable plain)
      rw [World.command, again, Option.map_some, Option.some.injEq] at ran
      exact ran ▸ settled.keepsMap prompt.toMounted
  | cat name =>
      obtain ⟨value, last, again, settled⟩ := prompt.fsutilCat (orderly.usable plain)
      rw [World.command, again, Option.map_some, Option.some.injEq] at ran
      exact ran ▸ settled.keepsMap prompt.toMounted
  | rm name =>
      obtain ⟨⟨value, last⟩, again, rfl⟩ := Option.map_eq_some_iff.mp ran
      exact prompt.keepsMap_fsutilRm (orderly.tracked.closable name) plain.flat again
  | ls =>
      obtain ⟨last, again, settled⟩ := prompt.fsutilLs
      rw [World.command, again, Option.map_some, Option.some.injEq] at ran
      exact ran ▸ settled.keepsMap prompt.toMounted

theorem World.PlainRun.keepsMap {start : World} (reached : start.PlainRun world) (rest : start.AtRest shared) :
    KeepsMap start world := by
  induction reached with
  | start => exact refl_of KeepsMap _
  | step before plain _ ran ih => exact trans_of KeepsMap ih ((before.atRest rest).keepsMap plain ran)

end MockOS.Fs
