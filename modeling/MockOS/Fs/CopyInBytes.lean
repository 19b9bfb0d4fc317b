import MockOS.Fs.Atomicity
import MockOS.Fs.CopyIn

namespace MockOS.Fs

variable {shared : BlockSector → Prop} {own : Owners} {world next : World} {nodes : Nodes} {sector : BlockSector}
  {root : InodeDisk} {entries : List DirEntry} {name path : CString} {host : Host} {file buffer : List UInt8}

theorem getD_append_drop (chunk buffer : List UInt8) (index : Nat) :
    (chunk ++ buffer.drop chunk.length).getD index 0 =
      if index < chunk.length then chunk.getD index 0 else buffer.getD index 0 := by
  split_ifs with inside
  · rw [List.getD_append _ _ _ _ inside]
  · rw [List.getD_append_right _ _ _ _ (by omega), List.getD_eq_getElem?_getD, List.getElem?_drop,
      List.getD_eq_getElem?_getD, show chunk.length + (index - chunk.length) = index by omega]

theorem getD_take_drop (file : List UInt8) (index : Nat) :
    (file.take 64).getD index 0 = (if index < 64 then file.getD index 0 else 0) ∧
      (file.drop 64).getD index 0 = file.getD (64 + index) 0 := by
  constructor
  · rw [List.getD_eq_getElem?_getD, List.getElem?_take]
    split_ifs <;> simp
  · rw [List.getD_eq_getElem?_getD, List.getElem?_drop, List.getD_eq_getElem?_getD]

/-- The reads succeed when the last one gets at least 8 bytes; what is left in the buffer are the last bytes of the file
over those of the read before. -/
theorem run_readChunks (rounds : Nat) (world : World) (enough : file.length < 64 * rounds) (room : file.length ≤ buffer.length) :
    (file.length % 64 < 8 → run (readChunks rounds file buffer) world = some (none, world)) ∧
      (8 ≤ file.length % 64 → ∃ filled, run (readChunks rounds file buffer) world = some (some filled, world) ∧
        ∀ index, filled.getD index 0 = if index < file.length % 64 then file.getD (file.length / 64 * 64 + index) 0
          else if index < 64 ∧ 1 ≤ file.length / 64 then file.getD ((file.length / 64 - 1) * 64 + index) 0
          else buffer.getD index 0) := by
  induction rounds generalizing file buffer with
  | zero => omega
  | succ rounds ih =>
      have taken : (file.take 64).length = min 64 file.length := List.length_take
      by_cases last : file.length < 64
      · have whole : file.take 64 = file := List.take_of_length_le (by omega)
        have rest : file.length % 64 = file.length := Nat.mod_eq_of_lt last
        rw [readChunks, whole, rest]
        rw [if_neg (by omega)]
        constructor
        · intro short
          rw [if_pos short]
          rfl
        · intro long
          refine ⟨file ++ buffer.drop file.length, by rw [if_neg (by omega), if_pos last]; rfl, fun index => ?_⟩
          rw [getD_append_drop, show file.length / 64 = 0 by omega]
          simp
      · have length : (file.take 64).length = 64 := by omega
        have dropped : (file.drop 64).length = file.length - 64 := List.length_drop
        have quotient : (file.length - 64) / 64 = file.length / 64 - 1 := by omega
        have remainder : (file.length - 64) % 64 = file.length % 64 := by omega
        have step : readChunks (rounds + 1) file buffer =
            readChunks rounds (file.drop 64) (file.take 64 ++ buffer.drop (file.take 64).length) := by
          rw [readChunks]
          rw [if_neg (by omega), if_neg (by omega), if_neg (by omega)]
        have roomNext : (file.drop 64).length ≤ (file.take 64 ++ buffer.drop (file.take 64).length).length := by
          simp only [List.length_append, List.length_drop, length]
          omega
        obtain ⟨short, long⟩ := ih (by omega) roomNext
        rw [dropped, remainder] at short long
        rw [step]
        refine ⟨short, fun isLong => ?_⟩
        obtain ⟨filled, ran, bytes⟩ := long isLong
        refine ⟨filled, ran, fun index => ?_⟩
        rw [bytes, quotient, (getD_take_drop file _).2, (getD_take_drop file _).2, getD_append_drop, length,
          (getD_take_drop file _).1]
        by_cases first : index < file.length % 64
        · rw [if_pos first, if_pos first]
          congr 1
          omega
        rw [if_neg first, if_neg first]
        by_cases low : index < 64
        · rw [if_pos low, if_pos low, if_pos (⟨low, by omega⟩ : index < 64 ∧ 1 ≤ file.length / 64)]
          split_ifs with more
          · congr 1
            omega
          · congr 1
            omega
        · rw [if_neg low, if_neg (fun both => low both.1), if_neg (fun both => low both.1)]

/-- The bytes of the file for which the reads leave the file in the buffer. -/
def KeptByReads (file : List UInt8) : Prop :=
  8 ≤ file.length % 64 ∧ (file.length < 64 ∨
    ∀ index < file.length, 128 ≤ file.length ∨ index < file.length % 64 ∨ 64 ≤ index → file.getD index 0 = 0)

/-- A buffer of zeros holds the file after the reads exactly for these files. -/
theorem filled_iff {filled : List UInt8} (long : 8 ≤ file.length % 64)
    (bytes : ∀ index, filled.getD index 0 = if index < file.length % 64 then file.getD (file.length / 64 * 64 + index) 0
      else if index < 64 ∧ 1 ≤ file.length / 64 then file.getD ((file.length / 64 - 1) * 64 + index) 0 else 0) :
    (∀ index < file.length, filled.getD index 0 = file.getD index 0) ↔ KeptByReads file := by
  rw [KeptByReads, and_iff_right long]
  constructor
  · intro same
    by_cases short : file.length < 64
    · exact .inl short
    -- the bytes behind the buffer of the reads stay zero
    have behind : ∀ index < file.length, 64 ≤ index → file.getD index 0 = 0 := by
      intro index inside low
      rw [← same index inside, bytes, if_neg (by omega), if_neg (by omega)]
    refine .inr fun index inside cause => ?_
    by_cases low : 64 ≤ index
    · exact behind index inside low
    rw [← same index inside, bytes]
    by_cases first : index < file.length % 64
    · rw [if_pos first]
      exact behind _ (by omega) (by omega)
    · rw [if_neg first, if_pos (by omega)]
      exact behind _ (by omega) (by omega)
  · rintro (short | zero) index inside
    · rw [bytes, if_pos (by omega), show file.length / 64 * 64 + index = index by omega]
    · rw [bytes]
      split_ifs with first low
      · rw [zero index inside (by omega), zero _ (by omega) (by omega)]
      · by_cases two : 128 ≤ file.length
        · rw [zero index inside (.inl two), zero _ (by omega) (by omega)]
        · rw [show (file.length / 64 - 1) * 64 + index = index by omega]
      · by_cases short : file.length < 64
        · omega
        · rw [zero index inside (by omega)]

/-- `copy_in` succeeds, and the file of the shell starts with the bytes of the file of the host. -/
def World.CopiesIn (world : World) (host : Host) (name : CString) (file : List UInt8) : Prop :=
  ∃ copied, run (copyIn host name) world = some (.noError, copied) ∧
    ∃ next, run (fsutilRead name file.length) copied = some (((file.length : Int), file), next)

/-- The root directory has a slot for one more entry and the sectors that it lacks for that are free besides those of a
new file. -/
def World.HasSlot (world : World) (blocks : Nat) : Prop :=
  36 * freeSlot world.rootEntries + 36 ≤ 512 * maxBlocks ∧ world.slotDemand + 1 + need blocks ≤ world.free

theorem map_range_eq_iff (file : List UInt8) (source : Nat → UInt8) :
    (List.range file.length).map source = file ↔ ∀ index < file.length, source index = file.getD index 0 := by
  constructor
  · intro same index inside
    rw [List.getD_eq_getElem?_getD, ← same, List.getElem?_map, List.getElem?_range inside]
    rfl
  · intro same
    apply List.ext_getElem
    · simp
    · intro index _ inside
      rw [List.getElem_map, List.getElem_range, same index inside, List.getD_eq_getElem _ _ inside]

/-- The terminator of a write stands behind the bytes of the file. -/
theorem take_terminated (bytes : List UInt8) (size : Nat) (source : Nat → UInt8) :
    (overwrite bytes 0 (size + 1) (terminated source (size + 1 : Nat))).take size = (List.range size).map source := by
  apply List.ext_getElem
  · simp
  · intro index _ inside
    have low : index < size := by simpa using inside
    have different : index ≠ ((size + 1 : Nat) - 1 : Int).toNat := by omega
    simp only [overwrite, List.getElem_take, List.getElem_map, List.getElem_range, terminated]
    rw [if_pos (by omega), Nat.sub_zero, Function.update_of_ne different]

/-- The reads and the write after the creation. -/
theorem AtPrompt.readAndWrite_iff {own₁ : Owners} {nodes₁ : Nodes} {root₁ data : InodeDisk} {entries₁ : List DirEntry}
    {created : World} (prompt : AtPrompt own₁ shared nodes₁ root₁ entries₁ created) (plain : 47 ∉ name)
    (usable : created.Usable name) (start : created.position name = 0) (named : Named entries₁ name sector)
    (present : nodes₁ sector = some data) (new : NewFile nodes root entries name file.length sector data world created)
    (someBytes : 1 ≤ file.length) (inFile : file.length + 1 ≤ 512 * maxBlocks) :
    (∃ copied, run (readAndWrite name file (file.length + 1) (file.length + 1)) created = some (.noError, copied) ∧
        ∃ next, run (MockOS.Fs.fsutilRead name file.length) copied = some (((file.length : Int), file), next)) ↔
      KeptByReads file ∧ need (blocksOf (file.length + 1)) - need (blocksOf file.length) ≤ created.free := by
  have maximum : maxBlocks = 16635 := rfl
  have sameName : fileName name = name := fileName_eq plain
  have enough : file.length < 64 * (file.length + 1) := by omega
  have room : file.length ≤ (List.replicate (file.length + 1) (0 : UInt8)).length := by
    rw [List.length_replicate]
    omega
  obtain ⟨fails, succeeds⟩ := run_readChunks (file.length + 1) created enough room
  by_cases few : file.length % 64 < 8
  · refine iff_of_false ?_ fun both => absurd both.1.1 (by omega)
    rintro ⟨copied, done, _⟩
    rw [readAndWrite, run_bind, fails few] at done
    cases done
  obtain ⟨filled, reads, bytes⟩ := succeeds (by omega)
  have zeroRest : ∀ index, (List.replicate (file.length + 1) (0 : UInt8)).getD index 0 = 0 := fun index => by simp
  simp only [zeroRest] at bytes
  rw [← filled_iff (by omega) bytes]
  obtain ⟨value, written, writes, outcome⟩ := prompt.write_new plain usable start named present new
    (fun index => filled.getD index 0) (by omega : 1 ≤ file.length + 1) (by omega) (by omega)
  have ran : run (readAndWrite name file (file.length + 1) (file.length + 1)) created =
      run (if value = 0 then pure .fileWriteError else do
        let _ ← MockOS.Fs.fsutilSeek name 0
        pure .noError) written := by
    rw [readAndWrite, run_bind, reads, Option.bind_some]
    dsimp only
    rw [run_bind, writes, Option.bind_some]
  rw [ran]
  rcases outcome with ⟨rfl, _, available, ⟨own₂, nodes₂, root₂, prompt₂⟩, usable₂, stored⟩ | ⟨rfl, cause⟩
  · rw [if_neg (by omega)]
    obtain ⟨sought, world₃, seeks, settled, outcome⟩ :=
      prompt₂.fsutilSeek usable₂ (by decide : (0 : Int) < 2147483648)
    have sameBytes := settled.inodeBytes prompt₂ named
    obtain ⟨own₃, nodes₃, root₃, prompt₃, _⟩ := settled
    rcases outcome with ⟨absent, _⟩ | ⟨_, _, _, _, _, _, handle⟩
    · exact absurd (sameName.symm ▸ named) (absent sector)
    obtain ⟨read, world₄, readsBack, _, outcome⟩ := prompt₃.fsutilRead handle.usable handle.position.ge file.length
    rcases outcome with ⟨absent, _⟩ | ⟨number, data₃, _, _, bytesRead, there, taken, rfl, handle₄⟩
    · exact absurd (sameName.symm ▸ named) (absent sector)
    obtain rfl := prompt₃.tidy.sector_unique named (sameName ▸ handle₄.named)
    have content : bytesRead = (List.range file.length).map fun index => filled.getD index 0 := by
      rw [taken, ← prompt₃.toMounted.inodeData there, wrap32_of_range (by omega) (by omega), handle.position]
      change ((world₃.inodeBytes sector).drop 0).take _ = _
      rw [sameBytes, stored]
      exact take_terminated _ _ _
    have seekRan : run (do
        let _ ← MockOS.Fs.fsutilSeek name 0
        pure Error.noError) written = some (.noError, world₃) := by
      rw [run_bind, seeks]
      rfl
    push_cast at available
    rw [seekRan, ← map_range_eq_iff, ← content, and_iff_left available]
    constructor
    · rintro ⟨copied, done, next, same⟩
      simp only [Option.some.injEq, Prod.mk.injEq, true_and] at done
      subst done
      rw [readsBack] at same
      simp only [Option.some.injEq, Prod.mk.injEq] at same
      exact same.1.2
    · rintro rfl
      exact ⟨world₃, rfl, world₄, readsBack⟩
  · refine iff_of_false ?_ fun both => ?_
    · rintro ⟨copied, done, _⟩
      cases done
    · have available := both.2
      push_cast at cause
      omega

section CopyIn

variable (prompt : AtPrompt own shared nodes root entries world) (nulFree : 0 ∉ name) (plain : 47 ∉ name)
  (notEmpty : name ≠ []) (short : name.length ≤ 30) (usable : world.Usable name)
  (unnamed : ∀ sector, ¬ Named entries name sector)

include prompt nulFree plain notEmpty short usable unnamed

omit usable in
/-- A creation with a good name succeeds exactly when there is room for the file and its entry. -/
theorem AtPrompt.create_good {length : Nat} (fits : length ≤ 512 * maxBlocks) :
    ∃ result created own₁ nodes₁ root₁ entries₁,
      run (MockOS.Fs.fsutilCreate name length) world = some (if result then 1 else 0, created) ∧
      AtPrompt own₁ shared nodes₁ root₁ entries₁ created ∧ Quiet world created ∧
      (result = false ∧ ¬ world.HasSlot (blocksOf length) ∨
        result = true ∧ (world.HasSlot (blocksOf length)) ∧ created.free + world.slotDemand + 1 + need (blocksOf length) = world.free ∧
          ∃ sector data, Named entries₁ name sector ∧ nodes₁ sector = some data ∧
            NewFile nodes root entries name length sector data world created) := by
  have maximum : maxBlocks = 16635 := rfl
  have sameName : fileName name = name := fileName_eq plain
  have small : blocksOf length ≤ maxBlocks := by
    unfold blocksOf
    omega
  have places := length_inodePlaces small
  have rootEntries := prompt.toMounted.rootEntries
  have slotDemand : world.slotDemand = demandFor world.disk root (36 * freeSlot entries + 36) := by
    rw [World.slotDemand, rootEntries, prompt.toMounted.inodeData prompt.present]
  obtain ⟨result, created, own₁, nodes₁, root₁, entries₁, ran, prompt₁, quiet, outcome⟩ := prompt.fsutilCreate nulFree length
  refine ⟨result, created, own₁, nodes₁, root₁, entries₁, ran, prompt₁, quiet, ?_⟩
  have lengths : name.length ≠ 0 := by simpa using notEmpty
  rw [sameName, wrap32_of_range (by omega) (by omega)] at outcome
  rcases outcome with ⟨bad, _⟩ | ⟨_, _, made⟩
  · omega
  rw [World.HasSlot, slotDemand, rootEntries]
  rcases made.outcome with ⟨isFalse, _, _, _, failed⟩ | ⟨isTrue, _, sector, data, rfl, present, _, new⟩
  · refine .inl ⟨isFalse, ?_⟩
    rintro ⟨inside, room⟩
    cases failed with
    | noSector full _ _ => omega
    | noInode _ cause _ _ _ => omega
    | refused cause _ _ _ _ =>
        rcases cause with empty | long | ⟨sector, named⟩
        · exact notEmpty empty
        · omega
        · exact unnamed sector named
    | noSlot _ full _ _ _ cause _ =>
        rw [full] at inside room
        omega
  · have enough := new.enough
    have free := new.free
    have named := (new.named prompt.tidy nulFree name sector).mpr (.inr ⟨rfl, rfl⟩)
    exact .inr ⟨isTrue, ⟨new.slotFits, by omega⟩, by omega, sector, data, named, present, new⟩

/-- `copy_in` of a file that fits when its entry needs no further sector. -/
theorem AtPrompt.copiesIn_iff (found : host.files name = some file) (someBytes : 1 ≤ file.length)
    (fits : FitsNewFile world.free (blocksOf (file.length + 1))) :
    world.CopiesIn host name file ↔ KeptByReads file ∧ world.HasSlot (blocksOf (file.length + 1)) := by
  have maximum : maxBlocks = 16635 := rfl
  have sameName : fileName name = name := fileName_eq plain
  obtain ⟨small, enough⟩ := fits
  have inFile : file.length + 1 ≤ 512 * maxBlocks := by
    unfold blocksOf at small
    omega
  have more : need (blocksOf file.length) ≤ need (blocksOf (file.length + 1)) := need_mono (by
    unfold blocksOf
    omega)
  have normal : ¬ fileSectors (file.length % 2 ^ 32) > world.free := by
    have sectors : blocksOf (file.length + 1) ≤ need (blocksOf (file.length + 1)) := by
      rw [need, Nat.add_assoc]
      exact Nat.le_add_right _ _
    have rounded : fileSectors (file.length % 2 ^ 32) ≤ blocksOf (file.length + 1) := by
      unfold fileSectors blocksOf
      split_ifs <;> omega
    omega
  have ran : run (copyIn host name) world =
      run (createAndWrite name file file.length (file.length + 1) (file.length + 1)) world := by
    have counted : run numFreeSectors world = some (world.free, world) := rfl
    have size : file.length % 2 ^ 32 = file.length := Nat.mod_eq_of_lt (by omega)
    have next : (file.length + 1) % 2 ^ 32 = file.length + 1 := Nat.mod_eq_of_lt (by omega)
    rw [size] at normal
    rw [copyIn, found]
    dsimp only
    rw [run_bind, counted, Option.bind_some, size, if_neg normal, next]
  obtain ⟨result, created, own₁, nodes₁, root₁, entries₁, ran₁, prompt₁, quiet, outcome⟩ :=
    prompt.create_good nulFree plain notEmpty short unnamed (by omega : file.length ≤ 512 * maxBlocks)
  rw [World.CopiesIn, ran, createAndWrite, run_bind, ran₁, Option.bind_some]
  rcases outcome with ⟨rfl, full⟩ | ⟨rfl, room, free, sector, data, named, present, new⟩
  · refine iff_of_false ?_ fun both => full ⟨both.2.1, ?_⟩
    · rintro ⟨copied, done, _⟩
      cases done
    · have enough := both.2.2
      omega
  dsimp only
  rw [if_neg (by decide)]
  obtain ⟨usable₁, start⟩ := prompt.usable_new plain usable unnamed quiet
  rw [prompt₁.readAndWrite_iff plain usable₁ start named present new someBytes inFile, World.HasSlot, and_iff_right room.1]
  exact and_congr_right fun _ => by omega

end CopyIn

section Format

variable {deviceSize : UInt32} {garbage : Nat → UInt8} {disk : BlockSector → Sector} {start : World}

/-- In every state of a safe run, `copy_in` of a file that fits under a new name is faithful exactly for these files, if
the entry of the name finds room as well. -/
theorem safeRun_copiesIn_iff (fits : FormatFits deviceSize)
    (formatted : run (filesysInit true) ⟨.boot deviceSize garbage, disk⟩ = some ((), start))
    (reached : start.SafeRun world) (nulFree : 0 ∉ name) (plain : 47 ∉ name) (notEmpty : name ≠ [])
    (short : name.length ≤ 30) (usable : world.Usable name) (unnamed : ∀ sector, ¬ Named world.rootEntries name sector)
    (found : host.files name = some file) (someBytes : 1 ≤ file.length)
    (room : FitsNewFile world.free (blocksOf (file.length + 1))) :
    world.CopiesIn host name file ↔ KeptByReads file ∧ world.HasSlot (blocksOf (file.length + 1)) := by
  obtain ⟨shared, own, nodes, root, entries, prompt⟩ := safeRun_prompting fits formatted reached
  rw [prompt.toMounted.rootEntries] at unnamed
  exact prompt.copiesIn_iff nulFree plain notEmpty short usable unnamed found someBytes room

end Format

/-- A new device of 300 sectors takes a file of 10 bytes. -/
theorem safeRun_copiesIn_iff_small : ∃ world,
    run (filesysInit true) ⟨.boot 300 fun _ => 0, fun _ => zeros⟩ = some ((), world) ∧
      world.CopiesIn ⟨fun _ => some (List.replicate 10 65), fun _ => true⟩ [97] (List.replicate 10 65) := by
  obtain ⟨world, own, shared, nodes, root, formatted, free, empty, prompt⟩ := format_small
  have unnamed : ∀ sector, ¬ Named world.rootEntries [97] sector := fun sector => by
    rw [prompt.toMounted.rootEntries]
    exact not_named_newEntries _ _ _ _
  have fits : FitsNewFile world.free (blocksOf ((List.replicate 10 (65 : UInt8)).length + 1)) := by
    rw [free]
    decide
  refine ⟨world, formatted, (safeRun_copiesIn_iff formatFits_small formatted .start (by decide) (by decide) (by decide)
    (by decide) (usable_closed empty (by decide) (by decide) (by decide)) unnamed rfl (by decide) fits).mpr
    ⟨⟨by decide, .inl (by decide)⟩, ?_⟩⟩
  have demand : world.slotDemand = 0 := by
    rw [World.slotDemand, prompt.toMounted.rootEntries, prompt.toMounted.inodeData prompt.present]
    exact prompt.demandFor_slot freeSlot_newEntries
  have slot : 36 * freeSlot world.rootEntries + 36 ≤ 512 * maxBlocks := by
    have inside := freeSlot_newEntries
    have length : (newEntries 1 1000).length = 1000 := by
      rw [newEntries, List.length_cons, List.length_replicate]
    have maximum : maxBlocks = 16635 := rfl
    rw [prompt.toMounted.rootEntries]
    omega
  exact ⟨slot, by rw [demand, free]; decide⟩

/-- `copy_in` of a file of 64 bytes ends with a read error. -/
theorem copyIn_whole_chunk : ∃ world,
    run (filesysInit true) ⟨.boot 300 fun _ => 0, fun _ => zeros⟩ = some ((), world) ∧
      FitsNewFile world.free (blocksOf 65) ∧
      ¬ world.CopiesIn ⟨fun _ => some (List.replicate 64 65), fun _ => true⟩ [97] (List.replicate 64 65) := by
  obtain ⟨world, own, shared, nodes, root, formatted, free, empty, prompt⟩ := format_small
  have fits : FitsNewFile world.free (blocksOf ((List.replicate 64 (65 : UInt8)).length + 1)) := by
    rw [free]
    decide
  refine ⟨world, formatted, fits, fun copies => ?_⟩
  have kept := (prompt.copiesIn_iff (by decide) (by decide) (by decide) (by decide)
    (usable_closed empty (by decide) (by decide) (by decide)) (fun _ => not_named_newEntries _ _ _ _) rfl (by decide)
    fits).mp copies
  exact absurd kept.1.1 (by decide)

end MockOS.Fs
