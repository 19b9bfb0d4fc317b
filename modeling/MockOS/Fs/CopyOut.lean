import MockOS.Fs.CommandFrames
import MockOS.Fs.HostFiles

namespace MockOS.Fs

/-- `copy_out` gives the host the bytes of a file of the root directory, and nothing of a file that is not there. -/
def World.CopiesOut (world : World) (host : Host) (name : CString) : Prop :=
  (∀ sector, Named world.rootEntries name sector → ∃ next, run (copyOut host name) world =
    some ((.noError, host.store name (world.inodeBytes sector)), next)) ∧
  ((∀ sector, ¬ Named world.rootEntries name sector) → ∃ error next, error ≠ Error.noError ∧
    run (copyOut host name) world = some ((error, host), next))

variable {shared : BlockSector → Prop} {own : Owners} {world next : World} {nodes : Nodes} {sector : BlockSector}
  {root : InodeDisk} {entries : List DirEntry} {name path : CString} {host : Host}

/-- The characters up to the terminator of a buffer that holds these bytes. -/
theorem strdup_append_zero (bytes : List UInt8) : strdup (bytes ++ [0]) = bytes ↔ 0 ∉ bytes := by
  constructor
  · intro same member
    rw [← same] at member
    have nonzero := List.mem_takeWhile_imp member
    simp at nonzero
  · intro nulFree
    rw [strdup, List.takeWhile_append_of_pos]
    · simp
    · intro byte member
      simpa using ne_of_mem_of_not_mem member nulFree

/-- The bytes of the file of a name stay when the file is opened. -/
theorem Settled.inodeBytes (settled : Settled shared nodes entries world next)
    (prompt : AtPrompt own shared nodes root entries world) (named : Named entries name sector) :
    next.inodeBytes sector = world.inodeBytes sector := by
  obtain ⟨own', nodes', root', prompt', _, same, _⟩ := settled
  obtain ⟨_, nonzero, _, data, present, _⟩ := prompt.regular name sector named
  exact prompt.inodeBytes_eq prompt' same (fun impossible => impossible) nonzero present

theorem AtPrompt.position_missing (prompt : AtPrompt own shared nodes root entries world) (usable : world.Usable path)
    (unnamed : ∀ sector, ¬ Named entries (fileName path) sector) : world.position path = 0 := by
  cases found : world.handle path with
  | none =>
      rw [World.position, found]
      rfl
  | some entry =>
      obtain ⟨_, _, sector, _, handle⟩ := prompt.handleOpen found usable
      exact absurd handle.named (unnamed sector)

/-- `copy_out` of a name that is not there reads a buffer of no bytes. -/
theorem AtPrompt.copyOut_missing (prompt : AtPrompt own shared nodes root entries world) (usable : world.Usable path)
    (creates : host.creates path) (unnamed : ∀ sector, ¬ Named entries (fileName path) sector) :
    run (copyOut host path) world = none := by
  obtain ⟨size, world₁, ran₁, ⟨own₁, nodes₁, root₁, prompt₁, _⟩, outcome₁⟩ := prompt.fsutilSize usable
  rcases outcome₁ with ⟨_, usable₁, rfl⟩ | ⟨sector, _, _, _, _, _, handle⟩
  · obtain ⟨sought, world₂, ran₂, ⟨own₂, nodes₂, root₂, prompt₂, _⟩, outcome₂⟩ :=
      prompt₁.fsutilSeek usable₁ (by decide : (0 : Int) < 2147483648)
    rcases outcome₂ with ⟨_, usable₂, rfl⟩ | ⟨sector, _, _, _, _, _, handle⟩
    · obtain ⟨read, world₃, ran₃, _, outcome₃⟩ := prompt₂.fsutilRead usable₂ (prompt₂.position_missing usable₂ unnamed).ge (-1)
      rcases outcome₃ with ⟨_, _, rfl⟩ | ⟨sector, _, _, _, _, _, _, _, handle⟩
      · rw [copyOut, run_bind, ran₁, Option.bind_some, run_bind, ran₂, Option.bind_some, run_bind, ran₃, Option.bind_some]
        dsimp only
        rw [if_neg (by decide), if_pos creates, run_bind, fputs, if_neg (by decide)]
        rfl
      · exact absurd handle.named (unnamed sector)
    · exact absurd handle.named (unnamed sector)
  · exact absurd handle.named (unnamed sector)

/-- `copy_out` of a file: nothing when it has no bytes, and its bytes up to the first zero otherwise. -/
theorem AtPrompt.copyOut_file (prompt : AtPrompt own shared nodes root entries world) (usable : world.Usable path)
    (creates : host.creates path) (named : Named entries (fileName path) sector) :
    ∃ next, run (copyOut host path) world = some (if world.inodeBytes sector = [] then (.fileReadError, host) else
      (.noError, host.store path (strdup (world.inodeBytes sector ++ [0]))), next) := by
  obtain ⟨size, world₁, ran₁, settled₁, outcome₁⟩ := prompt.fsutilSize usable
  have bytes₁ := settled₁.inodeBytes prompt named
  obtain ⟨own₁, nodes₁, root₁, prompt₁, _⟩ := settled₁
  rcases outcome₁ with ⟨unnamed, _⟩ | ⟨_, data, _, _, present, rfl, handle₁⟩
  · exact absurd named (unnamed sector)
  obtain rfl := prompt.tidy.sector_unique named handle₁.named
  have length : data.length = (world.inodeBytes sector).length := by
    have low := (prompt.volume.node sector data present).low
    rw [World.inodeBytes, prompt.toMounted.inodeData present, fileBytes, length_bytesAt]
    omega
  obtain ⟨sought, world₂, ran₂, settled₂, outcome₂⟩ :=
    prompt₁.fsutilSeek handle₁.usable (by decide : (0 : Int) < 2147483648)
  have bytes₂ := settled₂.inodeBytes prompt₁ named
  obtain ⟨own₂, nodes₂, root₂, prompt₂, _⟩ := settled₂
  rcases outcome₂ with ⟨unnamed, _⟩ | ⟨_, _, _, _, _, _, handle₂⟩
  · exact absurd named (unnamed sector)
  obtain ⟨read, world₃, ran₃, _, outcome₃⟩ := prompt₂.fsutilRead handle₂.usable (handle₂.position.ge) data.length
  rcases outcome₃ with ⟨unnamed, _⟩ | ⟨_, data₃, _, _, bytes, present₃, taken, rfl, handle₃⟩
  · exact absurd named (unnamed sector)
  obtain rfl := prompt.tidy.sector_unique named handle₃.named
  have whole : bytes = world.inodeBytes sector := by
    have small : data.length < 2147483648 := by
      have high := (prompt.volume.node sector data present).high
      have maximum : maxBlocks = 16635 := rfl
      omega
    rw [handle₂.position, wrap32_of_range (by omega) small] at taken
    rw [taken, ← prompt₂.toMounted.inodeData present₃]
    change ((world₂.inodeBytes sector).drop 0).take _ = _
    rw [bytes₂, bytes₁, length]
    simp
  rw [copyOut, run_bind, ran₁, Option.bind_some, run_bind, ran₂, Option.bind_some, run_bind, ran₃, Option.bind_some]
  dsimp only
  by_cases empty : world.inodeBytes sector = []
  · refine ⟨world₃, ?_⟩
    rw [whole, empty, if_pos (by rfl), if_pos rfl]
    rfl
  · have positive : 0 < (world.inodeBytes sector).length := List.length_pos_iff.mpr empty
    have one : ((data.length + 1).toNat - (world.inodeBytes sector).length) = 1 := by omega
    refine ⟨world₃, ?_⟩
    rw [whole, if_neg (by omega), if_pos creates, one, run_bind, fputs, if_pos (by simp), if_neg empty]
    rfl

/-- The file of a name after a command: as before, new and full of zeros, or written with a zero at the end. -/
inductive FileAfter (world next : World) (name : CString) (sector : BlockSector) : Prop
  | kept (named : Named world.rootEntries name sector) (bytes : next.inodeBytes sector = world.inodeBytes sector)
  | created (plain : 47 ∉ name) (length : Nat) (bytes : next.inodeBytes sector = List.replicate length 0)
  | written (named : Named world.rootEntries name sector) (offset size : Nat) (buffer : Nat → UInt8) (low : 1 ≤ size)
      (terminated : buffer (size - 1) = 0)
      (bytes : next.inodeBytes sector = overwrite (world.inodeBytes sector) offset size buffer)

theorem Settled.fileAfter (settled : Settled shared nodes entries world next)
    (prompt : AtPrompt own shared nodes root entries world) (named : Named next.rootEntries name sector) :
    FileAfter world next name sector := by
  obtain ⟨own', nodes', root', prompt', _⟩ := id settled
  rw [prompt'.toMounted.rootEntries] at named
  exact .kept (prompt.toMounted.rootEntries.symm ▸ named) (settled.inodeBytes prompt named)

/-- A creation stores a file of zeros, and leaves the others. -/
theorem CreateResult.fileAfter {own' : Owners} {nodes' : Nodes} {root' : InodeDisk} {entries' : List DirEntry}
    {length : Int} {result : Bool} (created : CreateResult nodes nodes' root entries entries' (fileName path) length result world next)
    (prompt : AtPrompt own shared nodes root entries world) (prompt' : AtPrompt own' shared nodes' root' entries' next)
    (nulFree : 0 ∉ path) (named : Named entries' name sector) : FileAfter world next name sector := by
  have before := prompt.toMounted.rootEntries
  have kept : ∀ {changed : BlockSector → Prop}, SameBytes changed nodes nodes' world next → (∀ sector, changed sector → sector = 1) →
      Named entries name sector → FileAfter world next name sector := by
    intro changed same onlyRoot named
    obtain ⟨_, nonzero, nonroot, data, present, _⟩ := prompt.regular name sector named
    exact .kept (before.symm ▸ named)
      (prompt.inodeBytes_eq prompt' same (fun isChanged => nonroot (onlyRoot _ isChanged)) nonzero present)
  rcases created.outcome with ⟨_, rfl, same, _⟩ | ⟨_, same, number, data, rfl, present, _, new⟩
  · exact kept same (fun _ => False.elim) named
  · rcases (new.named prompt.tidy (nul_free_fileName nulFree) name sector).mp named with named | ⟨rfl, rfl⟩
    · exact kept same (fun _ here => here) named
    · refine .created ?_ length.toNat ?_
      · exact slash_free_fileName path
      · rw [World.inodeBytes, prompt'.toMounted.inodeData present]
        exact new.bytes

/-- What a safe command makes of the files of the root directory. -/
theorem AtPrompt.fileAfter (prompt : AtPrompt own shared nodes root entries world) {command : ShellCommand}
    (valid : command.Valid) (safe : world.Safe command) (ran : world.command command = some next)
    (named : Named next.rootEntries name sector) : FileAfter world next name sector := by
  have before := prompt.toMounted.rootEntries
  cases command with
  | create path size =>
      obtain ⟨result, last, own', nodes', root', entries', creates, prompt', _, outcome⟩ := prompt.fsutilCreate valid size
      rw [World.command, creates, Option.map_some, Option.some.injEq] at ran
      obtain rfl := ran
      rcases outcome with ⟨_, _, rfl, _, _⟩ | ⟨_, _, created⟩
      · exact .kept named rfl
      · rw [prompt'.toMounted.rootEntries] at named
        exact created.fileAfter prompt prompt' valid named
  | write path buffer size =>
      obtain ⟨usable, nonnegative, low, high⟩ := safe
      obtain ⟨value, last, writes, outcome⟩ := prompt.fsutilWrite usable nonnegative buffer low high
      rw [World.command, writes, Option.map_some, Option.some.injEq] at ran
      obtain rfl := ran
      rcases outcome with ⟨_, _, settled⟩ |
        ⟨own', nodes', root', file, inode, number, data, dataAfter, before, after, prompt', same, _, present, there, _, written⟩
      · exact settled.fileAfter prompt named
      · rw [prompt'.toMounted.rootEntries] at named
        obtain ⟨_, nonzero, _, _, here, _, tail⟩ := prompt.regular name sector named
        have namedBefore : Named world.rootEntries name sector := prompt.toMounted.rootEntries.symm ▸ named
        by_cases other : sector = number
        · subst other
          rw [here, Option.some.injEq] at present
          subst present
          have old := prompt.toMounted.inodeData here
          have new := prompt'.toMounted.inodeData there
          rcases written with ⟨_, stores⟩ | ⟨_, keeps⟩
          · refine .written namedBefore (world.position path).toNat size.toNat (terminated buffer size) (by omega) ?_ ?_
            · rw [terminated, show size.toNat - 1 = (size - 1).toNat by omega, Function.update_self]
            · rw [World.inodeBytes, World.inodeBytes, old, new]
              exact (stores.bytes tail).2
          · refine .kept namedBefore ?_
            rw [World.inodeBytes, World.inodeBytes, old, new]
            exact (keeps.bytes tail).2
        · exact .kept namedBefore (prompt.inodeBytes_eq prompt' same other nonzero here)
  | read path size =>
      obtain ⟨value, last, reads, settled, _⟩ := prompt.fsutilRead safe.1 safe.2 size
      rw [World.command, reads, Option.map_some, Option.some.injEq] at ran
      obtain rfl := ran
      exact settled.fileAfter prompt named
  | seek path offset =>
      have inRange : offset < 2147483648 := by
        have := valid.2
        simp [isOffset] at this
        exact this.2
      obtain ⟨value, last, seeks, settled, _⟩ := prompt.fsutilSeek safe inRange
      rw [World.command, seeks, Option.map_some, Option.some.injEq] at ran
      obtain rfl := ran
      exact settled.fileAfter prompt named
  | size path =>
      obtain ⟨value, last, sizes, settled, _⟩ := prompt.fsutilSize safe
      rw [World.command, sizes, Option.map_some, Option.some.injEq] at ran
      obtain rfl := ran
      exact settled.fileAfter prompt named
  | cat path =>
      obtain ⟨value, last, cats, settled⟩ := prompt.fsutilCat safe
      rw [World.command, cats, Option.map_some, Option.some.injEq] at ran
      obtain rfl := ran
      exact settled.fileAfter prompt named
  | rm path =>
      obtain ⟨closable, ends⟩ := safe
      rw [before] at ends
      obtain ⟨value, last, own', nodes', root', entries', removes, prompt', _, erased, same, _⟩ :=
        prompt.fsutilRm closable ends
      rw [World.command, removes, Option.map_some, Option.some.injEq] at ran
      obtain rfl := ran
      rw [prompt'.toMounted.rootEntries, erased] at named
      obtain ⟨named, remains⟩ := named
      obtain ⟨_, nonzero, nonroot, _, present, _⟩ := prompt.regular name sector named
      refine .kept (before.symm ▸ named) (prompt.inodeBytes_eq prompt' same ?_ nonzero present)
      rintro (isRoot | ⟨noDirectory, removed⟩)
      · exact nonroot isRoot
      · exact remains ⟨prompt.tidy.name_unique named removed, noDirectory⟩
  | ls =>
      obtain ⟨last, lists, settled⟩ := prompt.fsutilLs
      rw [World.command, lists, Option.map_some, Option.some.injEq] at ran
      obtain rfl := ran
      exact settled.fileAfter prompt named

/-- The names of the root directory have no separator, and files end with the terminator of the last write. -/
def World.ZeroEnded (world : World) : Prop :=
  ∀ name sector, Named world.rootEntries name sector →
    47 ∉ name ∧ (world.inodeBytes sector).getD ((world.inodeBytes sector).length - 1) 0 = 0

theorem FileAfter.zeroEnded (after : FileAfter world next name sector) (zeroEnded : world.ZeroEnded) :
    47 ∉ name ∧ (next.inodeBytes sector).getD ((next.inodeBytes sector).length - 1) 0 = 0 := by
  cases after with
  | kept named bytes =>
      rw [bytes]
      exact zeroEnded name sector named
  | created plain length bytes =>
      refine ⟨plain, ?_⟩
      rw [bytes]
      simp
  | written named offset size buffer low ended bytes =>
      obtain ⟨plain, last⟩ := zeroEnded name sector named
      refine ⟨plain, ?_⟩
      have inside : max (world.inodeBytes sector).length (offset + size) - 1 <
        max (world.inodeBytes sector).length (offset + size) := by omega
      rw [bytes, length_overwrite, overwrite, List.getD_eq_getElem?_getD, List.getElem?_map, List.getElem?_range inside,
        Option.map_some, Option.getD_some]
      split
      · have here : max (world.inodeBytes sector).length (offset + size) - 1 - offset = size - 1 := by omega
        rw [here, ended]
      · have here : max (world.inodeBytes sector).length (offset + size) = (world.inodeBytes sector).length := by omega
        rw [here, last]

theorem World.SafeRun.zeroEnded {start : World} (reached : start.SafeRun world) (prompts : start.Prompting shared)
    (zeroEnded : start.ZeroEnded) : world.ZeroEnded := by
  induction reached with
  | start => exact zeroEnded
  | step before valid safe ran ih =>
      obtain ⟨own, nodes, root, entries, prompt⟩ := before.prompting prompts
      exact fun name sector named => (prompt.fileAfter valid safe ran named).zeroEnded ih

/-- `copy_out` is faithful only for a path with a separator to a file without bytes, which counts as missing. -/
theorem AtPrompt.copiesOut_iff (prompt : AtPrompt own shared nodes root entries world) (zeroEnded : world.ZeroEnded)
    (usable : world.Usable path) (creates : host.creates path) :
    world.CopiesOut host path ↔ 47 ∈ path ∧ ∃ sector, Named world.rootEntries (fileName path) sector ∧
      world.inodeBytes sector = [] := by
  have rootEntries := prompt.toMounted.rootEntries
  constructor
  · rintro ⟨faithful, missing⟩
    by_cases there : ∃ sector, Named entries (fileName path) sector
    · obtain ⟨sector, named⟩ := there
      obtain ⟨_, copies⟩ := prompt.copyOut_file usable creates named
      by_cases plain : 47 ∉ path
      · obtain ⟨next, ran⟩ := faithful sector (by rwa [rootEntries, ← fileName_eq plain])
        rw [ran, Option.some.injEq, Prod.mk.injEq] at copies
        by_cases empty : world.inodeBytes sector = []
        · rw [if_pos empty] at copies
          cases copies.1
        · rw [if_neg empty, Prod.mk.injEq] at copies
          have stored := congrArg (fun after => Host.files after path) copies.1.2
          simp only [Host.store, Function.update_self, Option.some.injEq] at stored
          have last := (zeroEnded path sector (by rwa [rootEntries, ← fileName_eq plain])).2
          have inside : (world.inodeBytes sector).length - 1 < (world.inodeBytes sector).length := by
            have := List.length_pos_iff.mpr empty
            omega
          rw [List.getD_eq_getElem _ _ inside] at last
          exact absurd (last ▸ List.getElem_mem inside) ((strdup_append_zero _).mp stored.symm)
      · refine ⟨not_not.mp plain, sector, rootEntries.symm ▸ named, ?_⟩
        obtain ⟨error, next, isError, ran⟩ := missing fun other isNamed => plain (zeroEnded path other isNamed).1
        rw [ran, Option.some.injEq, Prod.mk.injEq] at copies
        by_contra notEmpty
        rw [if_neg notEmpty, Prod.mk.injEq] at copies
        exact isError copies.1.1
    · have unnamed : ∀ sector, ¬ Named entries (fileName path) sector := fun sector named => there ⟨sector, named⟩
      have absent := prompt.copyOut_missing usable creates unnamed
      obtain ⟨error, next, _, ran⟩ := missing fun sector named => unnamed sector (by
        have same : fileName path = path := fileName_eq (zeroEnded path sector named).1
        rwa [same, ← rootEntries])
      rw [absent] at ran
      cases ran
  · rintro ⟨slash, sector, named, empty⟩
    rw [rootEntries] at named
    obtain ⟨next, copies⟩ := prompt.copyOut_file usable creates named
    rw [if_pos empty] at copies
    exact ⟨fun other isNamed => absurd slash (zeroEnded path other isNamed).1,
      fun _ => ⟨.fileReadError, next, by decide, copies⟩⟩

section Format

variable {deviceSize : UInt32} {garbage : Nat → UInt8} {disk : BlockSector → Sector} {start : World}

/-- In every state of a safe run, `copy_out` is faithful exactly for the paths with a separator to a file without bytes. -/
theorem safeRun_copiesOut_iff (fits : FormatFits deviceSize)
    (formatted : run (filesysInit true) ⟨.boot deviceSize garbage, disk⟩ = some ((), start))
    (reached : start.SafeRun world) (usable : world.Usable path) (creates : host.creates path) :
    world.CopiesOut host path ↔ 47 ∈ path ∧ ∃ sector, Named world.rootEntries (fileName path) sector ∧
      world.inodeBytes sector = [] := by
  obtain ⟨fresh, own, shared, nodes, ran, isFresh⟩ := filesysInit_format garbage disk fits
  rw [formatted, Option.some.injEq, Prod.mk.injEq] at ran
  obtain rfl := ran.2
  obtain ⟨own', root, started⟩ := isFresh.atPrompt
  have prompts : start.Prompting shared := ⟨own', nodes, root, _, started⟩
  have zeroEnded := reached.zeroEnded prompts fun name sector named =>
    absurd (started.toMounted.rootEntries ▸ named) (not_named_newEntries _ _ _ _)
  obtain ⟨_, _, _, _, prompt⟩ := reached.prompting prompts
  exact prompt.copiesOut_iff zeroEnded usable creates

end Format

/-- After the creation of an empty file on a new device. -/
theorem createEmpty_small : ∃ start world sector,
    run (filesysInit true) ⟨.boot 300 fun _ => 0, fun _ => zeros⟩ = some ((), start) ∧
      start.SafeRun world ∧ world.mem.fileTable = [] ∧ Named world.rootEntries [97] sector ∧ world.inodeBytes sector = [] := by
  obtain ⟨start, own, shared, nodes, root, formatted, free, empty, prompt⟩ := format_small
  have nulFree : (0 : UInt8) ∉ fileName [97] := by decide
  obtain ⟨result, world, own₁, nodes₁, root₁, entries₁, ran, prompt₁, quiet, outcome⟩ :=
    prompt.fsutilCreate (by decide : (0 : UInt8) ∉ [97]) 0
  rcases outcome with ⟨bad, _⟩ | ⟨_, _, made⟩
  · exact absurd bad (by decide)
  obtain rfl : result = true := made.succeeds (by decide) (by decide) (fun _ => not_named_newEntries _ _ _ _)
    (by decide) (by decide) (by rw [free]; decide) freeSlot_newEntries
  rcases made.outcome with ⟨impossible, _⟩ | ⟨_, _, sector, _, rfl, present, _, new⟩
  · cases impossible
  have valid : (ShellCommand.create [97] 0).Valid := show (0 : UInt8) ∉ [97] by decide
  have creates : start.command (.create [97] 0) = some world := by
    rw [World.command, ran]
    rfl
  refine ⟨start, world, sector, formatted, .step .start valid trivial creates, quiet.fileTable.trans empty, ?_, ?_⟩
  · rw [prompt₁.toMounted.rootEntries]
    exact (new.named prompt.tidy nulFree [97] sector).mpr (.inr ⟨rfl, rfl⟩)
  · rw [World.inodeBytes, prompt₁.toMounted.inodeData present, new.bytes]
    rfl

theorem usable_closed (empty : world.mem.fileTable = []) (notEmpty : fileName path ≠ []) (notDot : fileName path ≠ [46])
    (notDots : fileName path ≠ [46, 46]) : world.Usable path := by
  have unlisted : world.handle path = none := by
    rw [World.handle, empty]
    rfl
  rw [World.Usable, unlisted]
  exact .inr ⟨notEmpty, notDot, notDots⟩

theorem safeRun_copiesOut_iff_small : ∃ start world,
    run (filesysInit true) ⟨.boot 300 fun _ => 0, fun _ => zeros⟩ = some ((), start) ∧ start.SafeRun world ∧
      world.CopiesOut ⟨fun _ => none, fun _ => true⟩ [47, 97] := by
  obtain ⟨start, world, sector, formatted, reached, closed, named, empty⟩ := createEmpty_small
  have usable : world.Usable [47, 97] := usable_closed closed (by decide) (by decide) (by decide)
  exact ⟨start, world, formatted, reached,
    (safeRun_copiesOut_iff formatFits_small formatted reached usable rfl).mpr ⟨by decide, sector, named, empty⟩⟩

/-- An empty file is not copied. -/
theorem copyOut_empty : ∃ start world,
    run (filesysInit true) ⟨.boot 300 fun _ => 0, fun _ => zeros⟩ = some ((), start) ∧ start.SafeRun world ∧
      ¬ world.CopiesOut ⟨fun _ => none, fun _ => true⟩ [97] := by
  obtain ⟨start, world, sector, formatted, reached, closed, named, empty⟩ := createEmpty_small
  obtain ⟨shared, own, nodes, root, entries, prompt⟩ := safeRun_prompting formatFits_small formatted reached
  refine ⟨start, world, formatted, reached, fun ⟨faithful, _⟩ => ?_⟩
  obtain ⟨next, ran⟩ := faithful sector named
  have usable : world.Usable [97] := usable_closed closed (by decide) (by decide) (by decide)
  have creates : (Host.mk (fun _ => none) fun _ => true).creates [97] = true := rfl
  obtain ⟨_, copies⟩ := prompt.copyOut_file usable creates (prompt.toMounted.rootEntries ▸ named)
  rw [ran, if_pos empty, Option.some.injEq, Prod.mk.injEq] at copies
  cases copies.1

end MockOS.Fs
