import MockOS.Fs.Atomicity
import MockOS.Fs.CopyOut
import MockOS.Fs.ReserveCost

namespace MockOS.Fs

/-- A new file with these data blocks fits into the free sectors, with its inode and its index blocks. -/
def FitsNewFile (free blocks : Nat) : Prop := blocks ≤ 123 + 128 + 128 * 128 ∧ 1 + need blocks ≤ free

instance (free blocks : Nat) : Decidable (FitsNewFile free blocks) := inferInstanceAs (Decidable (_ ∧ _))

/-- What `copy_in` writes of a file that is too large fits into a new file and no block more does; the write succeeds. -/
def World.TruncatesWell (world : World) (name : CString) (length : Nat) : Prop :=
  FitsNewFile world.free (copyInWrite length world.free / 512) ∧
    ¬ FitsNewFile world.free ((copyInWrite length world.free + 512) / 512) ∧
    ∃ created, run (fsutilCreate name 1) world = some (1, created) ∧ ∀ buffer, ∃ next,
      run (fsutilWrite name buffer (copyInWrite length world.free)) created = some ((copyInWrite length world.free : Int), next)

/-- The numbers of free sectors for which the formula of `copy_in` is right. From 260 on it takes one index block for each
128 sectors that are free, and the blocks need them for each 128 data blocks. -/
def RightFormula (free : Nat) : Prop :=
  125 ≤ free ∧ free ≤ 251 ∨ free = 254 ∨ 260 ≤ free ∧ (free - 132) % 128 ≤ (free - 132) / 128 + 122 ∧
    (free - 132) / 128 ≤ (free - 132) % 128 + 6 ∧ 127 * ((free - 132) / 128) + (free - 132) % 128 ≤ 16506

instance (free : Nat) : Decidable (RightFormula free) := inferInstanceAs (Decidable (_ ∨ _))

variable {shared : BlockSector → Prop} {own : Owners} {world next : World} {nodes : Nodes} {sector : BlockSector}
  {root : InodeDisk} {entries : List DirEntry} {name path : CString} {free length : Nat}

theorem fileSectors_le (size : Nat) (low : size < 2 ^ 32) : fileSectors size ≤ 2 ^ 23 := by
  unfold fileSectors
  split_ifs <;> omega

/-- The formula gives whole sectors. -/
theorem truncatedSize_whole (free : Nat) : ∃ blocks, truncatedSize free = 512 * blocks := by
  obtain ⟨count, formula⟩ : ∃ count, truncatedSize free = count * 512 % 2 ^ 32 := by
    rw [truncatedSize]
    split_ifs <;> exact ⟨_, rfl⟩
  exact ⟨truncatedSize free / 512, by omega⟩

theorem need_double {blocks : Nat} (double : 251 < blocks) : need blocks = blocks + 2 + (blocks - 124) / 128 := by
  rw [need, if_pos (by omega), if_pos double, show blocks - 251 + 127 = blocks - 124 by omega]
  omega

/-- With more than 251 free sectors the formula inverts the cost of a new file exactly for these numbers. -/
theorem double_maximal_iff {a r : Nat} (rest : r < 128) (large : 251 < 128 * a + r + 132) :
    FitsNewFile (128 * a + r + 132) (127 * a + r + 129) ∧ ¬ FitsNewFile (128 * a + r + 132) (127 * a + r + 130) ↔
      RightFormula (128 * a + r + 132) := by
  have quotient : (128 * a + r + 132 - 132) / 128 = a := by omega
  have remainder : (128 * a + r + 132 - 132) % 128 = r := by omega
  rw [RightFormula, quotient, remainder, FitsNewFile, FitsNewFile]
  by_cases first : a = 0
  · subst first
    unfold need
    split_ifs <;> omega
  · rw [need_double (by omega), need_double (by omega)]
    omega

/-- The formula inverts the cost of a new file exactly for these numbers of free sectors. -/
theorem truncatedSize_maximal_iff (small : free < 2 ^ 23) :
    FitsNewFile free (truncatedSize free / 512) ∧ ¬ FitsNewFile free ((truncatedSize free + 512) / 512) ↔
      RightFormula free := by
  have blocks : ∀ count, count < 2 ^ 23 → count * 512 % 2 ^ 32 / 512 = count ∧
      (count * 512 % 2 ^ 32 + 512) / 512 = count + 1 := by
    intro count low
    omega
  rw [truncatedSize]
  split_ifs with direct single
  · rw [(blocks free small).1, (blocks free small).2]
    unfold FitsNewFile RightFormula need
    split_ifs <;> omega
  · rw [(blocks (free - 2) (by omega)).1, (blocks (free - 2) (by omega)).2]
    unfold FitsNewFile RightFormula need
    split_ifs <;> omega
  · obtain ⟨a, r, rfl, rest⟩ : ∃ a r, free = 128 * a + r + 132 ∧ r < 128 :=
      ⟨(free - 132) / 128, (free - 132) % 128, by omega, by omega⟩
    have formula : 128 * a + r + 132 - ((128 * a + r + 132 - 3 - 1 - 128) / 128 + 3) = 127 * a + r + 129 := by omega
    dsimp only
    rw [formula, (blocks _ (by omega)).1, (blocks _ (by omega)).2]
    exact double_maximal_iff rest (by omega)

section NewFile

variable {created : World} {own₁ : Owners} {nodes₁ : Nodes} {root₁ data : InodeDisk} {entries₁ : List DirEntry}
  {initial : Int}

/-- A file that was just created is not open. -/
theorem AtPrompt.usable_new (prompt : AtPrompt own shared nodes root entries world) (plain : 47 ∉ name)
    (usable : world.Usable name) (unnamed : ∀ sector, ¬ Named entries name sector) (quiet : Quiet world created) :
    created.Usable name ∧ created.position name = 0 := by
  have unlisted : world.handle name = none := by
    cases found : world.handle name with
    | none => rfl
    | some entry =>
        obtain ⟨_, _, number, _, handle⟩ := prompt.handleOpen found usable
        have sameName : fileName name = name := fileName_eq plain
        exact absurd (sameName ▸ handle.named) (unnamed number)
  have unlistedAfter : created.handle name = none := by
    rw [World.handle, quiet.fileTable]
    exact unlisted
  constructor
  · rw [World.Usable, unlisted] at usable
    rwa [World.Usable, unlistedAfter]
  · rw [World.position, unlistedAfter]
    rfl

/-- A first write to a new file stores its bytes when the blocks behind the first length are free, and nothing else. -/
theorem AtPrompt.write_new (prompt : AtPrompt own₁ shared nodes₁ root₁ entries₁ created) (plain : 47 ∉ name)
    (usable : created.Usable name) (start : created.position name = 0) (named : Named entries₁ name sector)
    (present : nodes₁ sector = some data) (new : NewFile nodes root entries name initial sector data world created)
    (buffer : Nat → UInt8) {size : Nat} (low : 1 ≤ size) (high : size < 2147483648) (longer : initial ≤ size) :
    ∃ value next, run (MockOS.Fs.fsutilWrite name buffer size) created = some (value, next) ∧
      (value = size ∧ size ≤ 512 * maxBlocks ∧ need (blocksOf size) - need (blocksOf initial) ≤ created.free ∧
          (∃ own₂ nodes₂ root₂, AtPrompt own₂ shared nodes₂ root₂ entries₁ next) ∧ next.Usable name ∧
          next.inodeBytes sector = overwrite (List.replicate initial.toNat 0) 0 size (terminated buffer size) ∨
        value = 0 ∧ (512 * maxBlocks < size ∨ created.free < need (blocksOf size) - need (blocksOf initial))) := by
  have maximum : maxBlocks = 16635 := rfl
  have sameName : fileName name = name := fileName_eq plain
  have demand : ∀ length : Nat, length = size → size ≤ 512 * maxBlocks →
      demandFor created.disk data length = need (blocksOf size) - need (blocksOf initial) := by
    intro length same inside
    rw [same, demandFor, bytesToSectors_eq (by omega) (by omega)]
    refine new.filled.length_inodeDemand ?_ ?_
    · unfold blocksOf
      omega
    · unfold blocksOf
      omega
  obtain ⟨value, next, writes, result⟩ := prompt.fsutilWrite usable start.ge buffer (by omega : 1 ≤ (size : Int)) (by omega)
  refine ⟨value, next, writes, ?_⟩
  rcases result with ⟨absent, _⟩ |
    ⟨own₂, nodes₂, root₂, _, _, number, before, after, _, _, after_, _, _, there, thereAfter, handle, written⟩
  · exact absurd (sameName.symm ▸ named) (absent sector)
  obtain rfl := prompt.tidy.sector_unique named (sameName ▸ handle.named)
  rw [present, Option.some.injEq] at there
  subst there
  obtain ⟨_, _, _, _, here, _, tail⟩ := prompt.regular name sector named
  rw [present, Option.some.injEq] at here
  subst here
  simp only [AllOrNone, start, Int.toNat_natCast, Int.toNat_zero] at written
  rcases written with ⟨rfl, stores⟩ | ⟨rfl, keeps⟩
  · have fits := stores.fits
    have enough := stores.enough
    rw [demand _ (Nat.zero_add size) (by omega)] at enough
    refine .inl ⟨rfl, by omega, enough, ⟨own₂, nodes₂, root₂, after_⟩, handle.usable, ?_⟩
    rw [World.inodeBytes, after_.toMounted.inodeData thereAfter, (stores.bytes tail).2, new.bytes]
  · refine .inr ⟨rfl, ?_⟩
    by_cases inside : size ≤ 512 * maxBlocks
    · have cause := keeps.cause
      rw [demand _ (Nat.zero_add size) inside] at cause
      omega
    · exact .inl (by omega)

end NewFile

/-- A new file takes the bytes of a whole number of blocks that fit, in one write. -/
theorem AtPrompt.newFile_write (prompt : AtPrompt own shared nodes root entries world) (nulFree : 0 ∉ name) (plain : 47 ∉ name)
    (notEmpty : name ≠ []) (short : name.length ≤ 30) (usable : world.Usable name)
    (unnamed : ∀ sector, ¬ Named entries name sector) (inside : 36 * freeSlot entries + 36 ≤ 512 * maxBlocks)
    (noDemand : demandFor world.disk root (36 * freeSlot entries + 36) = 0) {blocks : Nat} (positive : 1 ≤ blocks)
    (fits : FitsNewFile world.free blocks) :
    ∃ created, run (MockOS.Fs.fsutilCreate name 1) world = some (1, created) ∧ ∀ buffer, ∃ next,
      run (MockOS.Fs.fsutilWrite name buffer ((512 * blocks : Nat) : Int)) created = some (((512 * blocks : Nat) : Int), next) := by
  have maximum : maxBlocks = 16635 := rfl
  have sameName : fileName name = name := fileName_eq plain
  have one : need 1 = 1 := rfl
  have first : (inodePlaces (blocksOf 1)).length = 1 := length_inodePlaces (by decide : 1 ≤ maxBlocks)
  obtain ⟨small, enough⟩ := fits
  have atLeast := need_mono positive
  obtain ⟨result, created, own₁, nodes₁, root₁, entries₁, ran, prompt₁, quiet, outcome⟩ := prompt.fsutilCreate nulFree 1
  rw [sameName] at outcome
  have lengths : name.length ≠ 0 := by simpa using notEmpty
  rcases outcome with ⟨bad, _⟩ | ⟨_, _, made⟩
  · omega
  rw [show wrap32 1 = 1 from rfl] at made
  obtain rfl : result = true := made.succeeds_of_noDemand notEmpty short unnamed (by decide) (by omega) (by omega) inside noDemand
  rcases made.outcome with ⟨impossible, _⟩ | ⟨_, _, sector, data, rfl, present, _, new⟩
  · cases impossible
  have free := new.free
  rw [first, noDemand] at free
  obtain ⟨usable₁, start⟩ := prompt.usable_new plain usable unnamed quiet
  have named := (new.named prompt.tidy nulFree name sector).mpr (.inr ⟨rfl, rfl⟩)
  refine ⟨created, ran, fun buffer => ?_⟩
  obtain ⟨value, next, writes, ⟨rfl, _⟩ | ⟨rfl, cause⟩⟩ := prompt₁.write_new plain usable₁ start named present new buffer
    (by omega : 1 ≤ 512 * blocks) (by omega) (by omega)
  · exact ⟨next, writes⟩
  · have blocksEq : blocksOf ((512 * blocks : Nat) : Int) = blocks := by
      unfold blocksOf
      omega
    rw [blocksEq, show need (blocksOf 1) = 1 from rfl] at cause
    omega

/-- `copy_in` truncates well exactly for these numbers of free sectors, and when the size of the file has 32 bits enough. -/
theorem AtPrompt.truncatesWell_iff (prompt : AtPrompt own shared nodes root entries world) (nulFree : 0 ∉ name)
    (plain : 47 ∉ name) (notEmpty : name ≠ []) (short : name.length ≤ 30) (usable : world.Usable name)
    (unnamed : ∀ sector, ¬ Named world.rootEntries name sector)
    (inside : 36 * freeSlot world.rootEntries + 36 ≤ 512 * maxBlocks) (noDemand : world.slotDemand = 0)
    (two : 2 ≤ world.free) :
    world.TruncatesWell name length ↔ world.free < fileSectors (length % 2 ^ 32) ∧ RightFormula world.free := by
  rw [World.slotDemand, prompt.toMounted.rootEntries, prompt.toMounted.inodeData prompt.present] at noDemand
  rw [prompt.toMounted.rootEntries] at unnamed inside
  rw [World.TruncatesWell, copyInWrite]
  by_cases large : world.free < fileSectors (length % 2 ^ 32)
  · have small := Nat.lt_of_lt_of_le large (fileSectors_le _ (Nat.mod_lt _ (by decide)))
    rw [if_pos large, and_iff_right large, ← and_assoc, truncatedSize_maximal_iff small, and_iff_left_iff_imp]
    intro right
    obtain ⟨fits, maximal⟩ := (truncatedSize_maximal_iff small).mpr right
    obtain ⟨blocks, whole⟩ := truncatedSize_whole world.free
    rw [whole] at fits maximal ⊢
    rw [Nat.mul_div_cancel_left _ (by decide)] at fits
    refine prompt.newFile_write nulFree plain notEmpty short usable unnamed inside noDemand ?_ fits
    by_contra none
    obtain rfl : blocks = 0 := by omega
    exact maximal ⟨by decide, two⟩
  · rw [if_neg large]
    constructor
    · rintro ⟨_, maximal, _⟩
      exact absurd ⟨by decide, two⟩ maximal
    · rintro ⟨wanted, _⟩
      exact absurd wanted large

section Format

variable {deviceSize : UInt32} {garbage : Nat → UInt8} {disk : BlockSector → Sector} {start : World}

/-- In every state of a safe run with at least two free sectors, where the root directory takes one more entry without a
new sector, the truncation of a file of the host under a new name is right exactly under these conditions. -/
theorem safeRun_truncatesWell_iff (fits : FormatFits deviceSize)
    (formatted : run (filesysInit true) ⟨.boot deviceSize garbage, disk⟩ = some ((), start))
    (reached : start.SafeRun world) (nulFree : 0 ∉ name) (plain : 47 ∉ name) (notEmpty : name ≠ [])
    (short : name.length ≤ 30) (usable : world.Usable name) (unnamed : ∀ sector, ¬ Named world.rootEntries name sector)
    (inside : 36 * freeSlot world.rootEntries + 36 ≤ 512 * maxBlocks) (noDemand : world.slotDemand = 0)
    (two : 2 ≤ world.free) :
    world.TruncatesWell name length ↔ world.free < fileSectors (length % 2 ^ 32) ∧ RightFormula world.free := by
  obtain ⟨shared, own, nodes, root, entries, prompt⟩ := safeRun_prompting fits formatted reached
  exact prompt.truncatesWell_iff nulFree plain notEmpty short usable unnamed inside noDemand two

end Format

/-- On a new device of 300 sectors a file of 200010 bytes is truncated well. -/
theorem safeRun_truncatesWell_iff_small : ∃ world,
    run (filesysInit true) ⟨.boot 300 fun _ => 0, fun _ => zeros⟩ = some ((), world) ∧
      world.TruncatesWell [97] 200010 := by
  obtain ⟨world, own, shared, nodes, root, formatted, free, empty, prompt⟩ := format_small
  have unnamed : ∀ sector, ¬ Named world.rootEntries [97] sector := fun sector => by
    rw [prompt.toMounted.rootEntries]
    exact not_named_newEntries _ _ _ _
  have inside : 36 * freeSlot world.rootEntries + 36 ≤ 512 * maxBlocks := by
    rw [prompt.toMounted.rootEntries]
    decide +kernel
  have noDemand : world.slotDemand = 0 := by
    rw [World.slotDemand, prompt.toMounted.rootEntries, prompt.toMounted.inodeData prompt.present]
    exact prompt.demandFor_slot freeSlot_newEntries
  refine ⟨world, formatted, (safeRun_truncatesWell_iff formatFits_small formatted .start (by decide) (by decide) (by decide)
    (by decide) (usable_closed empty (by decide) (by decide) (by decide)) unnamed inside noDemand (by omega)).mpr ?_⟩
  rw [free]
  decide

/-- A new device of 100 sectors has 25 free ones, and `copy_in` tries to write 25 of data. -/
theorem truncates_too_little : ∃ world,
    run (filesysInit true) ⟨.boot 100 fun _ => 0, fun _ => zeros⟩ = some ((), world) ∧ 2 ≤ world.free ∧
      world.free < fileSectors 200010 ∧ ¬ world.TruncatesWell [97] 200010 := by
  have fits : FormatFits 100 := by constructor <;> decide
  obtain ⟨world, own, shared, nodes, root, formatted, free, empty, prompt⟩ := format_prompt fits
  have places : mapBits 100 = 99 ∧ (inodePlaces (blocksOf (Bitmap.byteCnt (mapBits 100)))).length = 1 ∧
    (inodePlaces (blocksOf 36000)).length = 71 := by decide
  have available : world.free = 25 := by omega
  refine ⟨world, formatted, by omega, ?_, fun ⟨fitting, _⟩ => ?_⟩
  · rw [available]
    decide
  · rw [available] at fitting
    exact absurd fitting (by decide)

end MockOS.Fs
