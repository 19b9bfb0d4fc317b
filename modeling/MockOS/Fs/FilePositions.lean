import MockOS.Fs.PlainRuns

namespace MockOS.Fs

variable {shared : BlockSector → Prop} {own : Owners} {world next : World} {nodes : Nodes} {sector : BlockSector}
  {root data : InodeDisk} {entries : List DirEntry} {name : CString} {buffer : Nat → UInt8} {size : Int}

/-- No open file has a negative position. -/
def World.PositionsValid (world : World) : Prop :=
  ∀ handle ∈ world.mem.fileTable, ∀ file, world.mem.files handle.2 = some file → 0 ≤ file.pos

/-- A write returns, and leaves the position of the file when it stores nothing. -/
def World.WriteKeepsPosition (world : World) (name : CString) (buffer : Nat → UInt8) (size : Int) : Prop :=
  ∃ value next, run (fsutilWrite name buffer size) world = some (value, next) ∧
    (value ≤ 0 → next.position name = world.position name)

/-- A write to a file of the root directory does not go behind the largest file and finds the sectors that it needs. -/
def World.HasRoom (world : World) (name : CString) (size : Int) : Prop :=
  ∀ sector, Named world.rootEntries name sector → world.position name + size ≤ 512 * maxBlocks ∧
    demandFor world.disk (world.inodeData sector) (world.position name + size).toNat ≤ world.free

def World.RoomFor (world : World) : ShellCommand → Prop
  | .write name _ size => world.HasRoom name size
  | _ => True

/-- The states between the commands of a run on plain names in which every write has room. -/
inductive World.RoomyRun (start : World) : World → Prop
  | start : RoomyRun start start
  | step {world next : World} {command : ShellCommand} : RoomyRun start world → command.Plain → world.RoomFor command →
      world.command command = some next → RoomyRun start next

theorem Orderly.positionsValid (orderly : Orderly own shared nodes root entries world) : world.PositionsValid := by
  intro handle member file object
  have low := orderly.positions handle.1
  have found : world.handle handle.1 = some handle := by
    cases listed : world.handle handle.1 with
    | none => exact absurd (List.mem_map_of_mem member) (handle_none listed)
    | some other =>
        obtain ⟨inTable, sameName⟩ := handle_some listed
        rw [List.inj_on_of_nodup_map orderly.handles.names inTable member sameName]
  rw [World.position, found, Option.bind_some, object] at low
  exact low

/-- A write fails exactly when it has no room, and then the position is moved back by two. -/
theorem Orderly.write_outcome (orderly : Orderly own shared nodes root entries world)
    (plain : (ShellCommand.write name buffer size).Plain) :
    ∃ value next, run (MockOS.Fs.fsutilWrite name buffer size) world = some (value, next) ∧
      (value = 0 ↔ ¬ world.HasRoom name size) ∧
      (value = -1 ∧ next.position name = world.position name ∨ value = size ∨
        value = 0 ∧ next.position name = world.position name - 2) := by
  obtain ⟨plainName, low, high⟩ := plain
  have position := orderly.positions name
  obtain ⟨_, _, _, middle, _, _, _, _, samePosition, found⟩ := orderly.commandFile plainName
  obtain ⟨value, next, ran, outcome⟩ :=
    orderly.toAtPrompt.fsutilWrite (orderly.usable plainName) position buffer (by omega : 1 ≤ size) high
  have sameEntries := orderly.toMounted.rootEntries
  refine ⟨value, next, ran, ?_⟩
  rcases outcome with ⟨absent, rfl, _⟩ | ⟨_, _, _, _, _, number, before, _, _, _, _, _, _, present, _, handle, outcome⟩
  · rw [plainName.fileName] at absent
    refine ⟨iff_of_false (by decide) (not_not.mpr fun sector named => ?_), .inl ⟨rfl, ?_⟩⟩
    · rw [sameEntries] at named
      exact absurd named (absent sector)
    · rcases found with ⟨_, opens⟩ | ⟨_, _, sector, _, _, handle, _⟩
      · rw [MockOS.Fs.fsutilWrite, run_bind, opens, Option.bind_some, run_pure, Option.some.injEq, Prod.mk.injEq] at ran
        rw [← ran.2, samePosition]
      · have named := handle.named
        rw [plainName.fileName] at named
        exact absurd named (absent sector)
  · have named := handle.named
    rw [plainName.fileName] at named
    have sum : (world.position name).toNat + size.toNat = (world.position name + size).toNat := by omega
    have room : world.HasRoom name size ↔ world.position name + size ≤ 512 * maxBlocks ∧
        demandFor world.disk before (world.position name + size).toNat ≤ world.free := by
      constructor
      · intro has
        have here := has number (by rwa [sameEntries])
        rwa [orderly.toMounted.inodeData present] at here
      · intro has other isNamed
        rw [sameEntries] at isNamed
        obtain rfl := orderly.tidy.sector_unique named isNamed
        rwa [orderly.toMounted.inodeData present]
    rw [room]
    rcases outcome with ⟨rfl, stores⟩ | ⟨rfl, keeps⟩
    · have fits := stores.fits
      have enough := stores.enough
      rw [sum] at enough
      exact ⟨iff_of_false (by omega) (not_not.mpr ⟨by omega, enough⟩), .inr (.inl rfl)⟩
    · have cause := keeps.cause
      rw [sum] at cause
      refine ⟨iff_of_true rfl fun has => ?_, .inr (.inr ⟨rfl, ?_⟩)⟩
      · omega
      · rw [handle.position]
        omega

theorem Orderly.writeKeepsPosition_iff (orderly : Orderly own shared nodes root entries world)
    (plain : (ShellCommand.write name buffer size).Plain) :
    world.WriteKeepsPosition name buffer size ↔ world.HasRoom name size := by
  obtain ⟨value, next, ran, fails, outcome⟩ := orderly.write_outcome plain
  have low := plain.2.1
  constructor
  · rintro ⟨_, _, again, keeps⟩
    rw [ran, Option.some.injEq, Prod.mk.injEq] at again
    obtain ⟨rfl, rfl⟩ := again
    by_contra noRoom
    have zero := fails.mpr noRoom
    have same := keeps (Int.le_of_eq zero)
    omega
  · intro room
    have stored : value ≠ 0 := fun zero => fails.mp zero room
    exact ⟨value, next, ran, fun nothing => by omega⟩

theorem Orderly.roomFor_succeeds (orderly : Orderly own shared nodes root entries world) {command : ShellCommand}
    (plain : command.Plain) (room : world.RoomFor command) : world.Succeeds command := by
  cases command with
  | write name buffer size =>
      obtain ⟨value, next, ran, fails, _⟩ := orderly.write_outcome plain
      intro zero
      rw [World.writeResult, ran, Option.map_some, Option.some.injEq] at zero
      exact fails.mp zero room
  | _ => trivial

theorem World.RoomyRun.plainRun {start : World} (reached : start.RoomyRun world) (rest : start.AtRest shared) :
    start.PlainRun world := by
  induction reached with
  | start => exact .start
  | step _ plain room ran ih =>
      obtain ⟨_, _, _, _, orderly⟩ := ih.atRest rest
      exact .step ih plain (orderly.roomFor_succeeds plain room) ran

end MockOS.Fs
