import MockOS.Fs.PathAgreement

namespace MockOS.Fs

variable {shared : BlockSector → Prop} {own : Owners} {world next : World} {nodes nodesAfter : Nodes}
  {root rootAfter : InodeDisk} {entries entriesAfter : List DirEntry} {name : CString} {length : Int}

/-- The root directory is its own parent, and no name in it has a slash. -/
structure RootNames (entries : List DirEntry) : Prop where
  parent : entries[0]?.map (·.inodeSector) = some 1
  flat : ∀ name sector, Named entries name sector → 47 ∉ name

theorem rootNames_newEntries (entryCnt : Nat) : RootNames (newEntries 1 entryCnt) :=
  ⟨rfl, fun name sector named => absurd named (not_named_newEntries 1 entryCnt name sector)⟩

theorem RootNames.create {result : Bool} (names : RootNames entries) (tidy : Tidy entries) (nulFree : 0 ∉ name)
    (noSlash : 47 ∉ name)
    (created : CreateResult nodes nodesAfter root entries entriesAfter name length result world next) :
    RootNames entriesAfter := by
  rcases created.outcome with ⟨_, same, _⟩ | ⟨_, _, sector, data, same, _, _, new⟩
  · rwa [same]
  · subst same
    have low := tidy.one_le_freeSlot
    refine ⟨?_, fun other number named => ?_⟩
    · rw [getElem?_setSlot (freeSlot_le entries), if_neg (Nat.ne_of_lt low)]
      exact names.parent
    · rcases (new.named tidy nulFree other number).mp named with before | ⟨rfl, _⟩
      · exact names.flat other number before
      · exact noSlash

/-- The rules for the names hold between the commands. -/
theorem AtPrompt.rootNames (prompt : AtPrompt own shared nodes root entries world) (names : RootNames entries)
    {command : ShellCommand} (valid : command.Valid) (safe : world.Safe command)
    (ran : world.command command = some next) : RootNames next.rootEntries := by
  have ofSettled : ∀ {next}, Settled shared nodes entries world next → RootNames next.rootEntries := by
    rintro next ⟨own', nodes', root', prompt', _⟩
    rwa [prompt'.toMounted.rootEntries]
  cases command with
  | create path size =>
      obtain ⟨result, last, own', nodes', root', entries', creates, prompt', _, outcome⟩ := prompt.fsutilCreate valid size
      rw [World.command, creates, Option.map_some, Option.some.injEq] at ran
      subst ran
      rw [prompt'.toMounted.rootEntries]
      rcases outcome with ⟨_, _, _, _, same⟩ | ⟨_, _, created⟩
      · rwa [same]
      · exact names.create prompt.tidy (nul_free_fileName valid) (slash_free_fileName path) created
  | write path buffer size =>
      obtain ⟨usable, nonnegative, low, high⟩ := safe
      obtain ⟨value, last, writes, outcome⟩ := prompt.fsutilWrite usable nonnegative buffer low high
      rw [World.command, writes, Option.map_some, Option.some.injEq] at ran
      subst ran
      rcases outcome with ⟨_, _, settled⟩ | ⟨own', nodes', root', _, _, _, _, _, _, _, prompt', _⟩
      · exact ofSettled settled
      · rwa [prompt'.toMounted.rootEntries]
  | read path size =>
      obtain ⟨value, last, reads, settled, _⟩ := prompt.fsutilRead safe.1 safe.2 size
      rw [World.command, reads, Option.map_some, Option.some.injEq] at ran
      exact ran ▸ ofSettled settled
  | seek path offset =>
      have inRange : offset < 2147483648 := by
        have := valid.2
        simp [isOffset] at this
        exact this.2
      obtain ⟨value, last, seeks, settled, _⟩ := prompt.fsutilSeek safe inRange
      rw [World.command, seeks, Option.map_some, Option.some.injEq] at ran
      exact ran ▸ ofSettled settled
  | size path =>
      obtain ⟨value, last, sizes, settled, _⟩ := prompt.fsutilSize safe
      rw [World.command, sizes, Option.map_some, Option.some.injEq] at ran
      exact ran ▸ ofSettled settled
  | cat path =>
      obtain ⟨value, last, cats, settled⟩ := prompt.fsutilCat safe
      rw [World.command, cats, Option.map_some, Option.some.injEq] at ran
      exact ran ▸ ofSettled settled
  | rm path =>
      obtain ⟨closable, ends⟩ := safe
      rw [prompt.toMounted.rootEntries] at ends
      obtain ⟨value, last, own', nodes', root', entries', removes, prompt', _, erased, _, _, first⟩ :=
        prompt.fsutilRm closable ends
      rw [World.command, removes, Option.map_some, Option.some.injEq] at ran
      subst ran
      rw [prompt'.toMounted.rootEntries]
      exact ⟨by rw [first]; exact names.parent, fun other number named => names.flat other number ((erased _ _).mp named).1⟩
  | ls =>
      obtain ⟨last, lists, settled⟩ := prompt.fsutilLs
      rw [World.command, lists, Option.map_some, Option.some.injEq] at ran
      exact ran ▸ ofSettled settled

/-- A state between the commands of a safe run from a format on, with the rules for the names. -/
theorem safeRun_rootNames {deviceSize : UInt32} {garbage : Nat → UInt8} {disk : BlockSector → Sector} {start : World}
    (fits : FormatFits deviceSize) (formatted : run (filesysInit true) ⟨.boot deviceSize garbage, disk⟩ = some ((), start))
    (reached : start.SafeRun world) :
    ∃ own shared nodes root entries, AtPrompt own shared nodes root entries world ∧ RootNames entries := by
  induction reached with
  | start =>
      obtain ⟨fresh, own, shared, nodes, ran, isFresh⟩ := filesysInit_format garbage disk fits
      rw [formatted, Option.some.injEq, Prod.mk.injEq] at ran
      obtain rfl := ran.2
      obtain ⟨own', root, prompt⟩ := isFresh.atPrompt
      exact ⟨own', shared, nodes, root, _, prompt, rootNames_newEntries 1000⟩
  | step _ valid safe ran ih =>
      obtain ⟨own, shared, nodes, root, entries, prompt, names⟩ := ih
      obtain ⟨last, ranLast, own', nodes', root', entries', prompt'⟩ := prompt.command valid safe
      rw [ran, Option.some.injEq] at ranLast
      subst ranLast
      have after := prompt.rootNames names valid safe ran
      rw [prompt'.toMounted.rootEntries] at after
      exact ⟨own', shared, nodes', root', entries', prompt', after⟩

end MockOS.Fs
