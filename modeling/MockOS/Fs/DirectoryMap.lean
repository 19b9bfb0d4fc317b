import MockOS.Fs.DirectorySpec

namespace MockOS.Fs

variable {entries : List DirEntry} {entry : DirEntry} {name : CString} {sector : BlockSector} {slot : Nat}

/-- An entry behind the first one is in use for a name and an inode. -/
def Named (entries : List DirEntry) (name : CString) (sector : BlockSector) : Prop :=
  ∃ slot entry, 1 ≤ slot ∧ entries[slot]? = some entry ∧ entry.inUse = true ∧ entry.fname = name ∧
    entry.inodeSector = sector

/-- The first entry is for the parent, and no other two in use have a name or an inode in common. -/
structure Tidy (entries : List DirEntry) : Prop where
  first : ∃ entry, entries[0]? = some entry ∧ entry.inUse = true
  distinct : ∀ i j one two, 1 ≤ i → 1 ≤ j → entries[i]? = some one → entries[j]? = some two → one.inUse = true →
    two.inUse = true → one.fname = two.fname ∨ one.inodeSector = two.inodeSector → i = j

theorem one_le_nameSlot (entries : List DirEntry) (name : CString) : 1 ≤ nameSlot entries name := Nat.le_add_right _ _

theorem nameSlot_some (found : entries[nameSlot entries name]? = some entry) :
    entry.inUse = true ∧ entry.fname = name := by
  obtain ⟨inside, same⟩ := List.getElem?_eq_some_iff.mp found
  unfold nameSlot at inside same
  have index : (entries.drop 1).findIdx (fun entry => entry.inUse && entry.fname == name) < (entries.drop 1).length := by
    rw [List.length_drop]
    omega
  have wanted := List.findIdx_getElem (w := index)
  rw [List.getElem_drop, same, Bool.and_eq_true, beq_iff_eq] at wanted
  exact wanted

theorem nameSlot_none (absent : entries[nameSlot entries name]? = none) : ∀ sector, ¬ Named entries name sector := by
  rintro sector ⟨slot, entry, low, there, inUse, same, _⟩
  obtain ⟨inside, here⟩ := List.getElem?_eq_some_iff.mp there
  have beyond := List.getElem?_eq_none_iff.mp absent
  have exists_ : ∃ entry ∈ entries.drop 1, (entry.inUse && entry.fname == name) = true := by
    refine ⟨entry, List.mem_drop_iff_getElem.mpr ⟨slot - 1, by omega, ?_⟩, by simp [inUse, same]⟩
    simp only [show 1 + (slot - 1) = slot from by omega]
    exact here
  have found := List.findIdx_lt_length_of_exists exists_
  rw [List.length_drop] at found
  unfold nameSlot at beyond
  omega

/-- A name is found exactly when an entry has it. -/
theorem Tidy.named_iff (tidy : Tidy entries) :
    Named entries name sector ↔ (entries[nameSlot entries name]?).map (·.inodeSector) = some sector := by
  constructor
  · intro named
    cases found : entries[nameSlot entries name]? with
    | none => exact absurd named (nameSlot_none found sector)
    | some other =>
        obtain ⟨slot, entry, low, there, inUse, sameName, sameSector⟩ := named
        obtain ⟨otherInUse, otherName⟩ := nameSlot_some found
        have same := tidy.distinct _ _ _ _ low (one_le_nameSlot _ _) there found inUse otherInUse
          (.inl (by rw [sameName, otherName]))
        rw [← same, there] at found
        rw [Option.map_some, ← Option.some.inj found, sameSector]
  · intro found
    obtain ⟨entry, there, same⟩ := Option.map_eq_some_iff.mp found
    obtain ⟨inUse, sameName⟩ := nameSlot_some there
    exact ⟨_, entry, one_le_nameSlot _ _, there, inUse, sameName, same⟩

theorem Tidy.sector_unique {other : BlockSector} (tidy : Tidy entries) (first : Named entries name sector)
    (second : Named entries name other) : sector = other := by
  rw [tidy.named_iff] at first second
  rw [first, Option.some.injEq] at second
  exact second

theorem Tidy.name_unique {other : CString} (tidy : Tidy entries) (first : Named entries name sector)
    (second : Named entries other sector) : name = other := by
  obtain ⟨i, one, iLow, here, oneInUse, rfl, oneSector⟩ := first
  obtain ⟨j, two, jLow, there, twoInUse, rfl, twoSector⟩ := second
  obtain rfl := tidy.distinct i j one two iLow jLow here there oneInUse twoInUse (.inr (oneSector.trans twoSector.symm))
  rw [here, Option.some.injEq] at there
  rw [there]

theorem freeSlot_unused (found : entries[freeSlot entries]? = some entry) : entry.inUse = false := by
  have unused := List.findIdx_of_getElem?_eq_some found
  simpa using unused

/-- The free slot is never the first one. -/
theorem Tidy.one_le_freeSlot (tidy : Tidy entries) : 1 ≤ freeSlot entries := by
  obtain ⟨entry, there, inUse⟩ := tidy.first
  rcases Nat.eq_zero_or_pos (freeSlot entries) with zero | positive
  · rw [← zero] at there
    rw [freeSlot_unused there] at inUse
    cases inUse
  · exact positive

/-- The entry of a new file. -/
theorem fname_new (nulFree : 0 ∉ name) (short : name.length ≤ 30) (sector : BlockSector) (inUse : Bool) :
    (DirEntry.mk sector (strncpy name 31) inUse).fname = name := strdup_strncpy nulFree (by omega)

section SetSlot

variable (low : 1 ≤ slot) (inside : slot ≤ entries.length)

include low inside

/-- A new name goes to a slot that is not in use. -/
theorem named_setSlot (free : ∀ before, entries[slot]? = some before → before.inUse = false)
    (inUse : entry.inUse = true) (other : CString) (number : BlockSector) :
    Named (setSlot entries slot entry) other number ↔
      Named entries other number ∨ entry.fname = other ∧ entry.inodeSector = number := by
  constructor
  · rintro ⟨index, found, indexLow, there, foundInUse, sameName, sameSector⟩
    rw [getElem?_setSlot inside] at there
    split_ifs at there with same
    · rw [Option.some.inj there]
      exact .inr ⟨sameName, sameSector⟩
    · exact .inl ⟨index, found, indexLow, there, foundInUse, sameName, sameSector⟩
  · rintro (⟨index, found, indexLow, there, foundInUse, sameName, sameSector⟩ | ⟨sameName, sameSector⟩)
    · refine ⟨index, found, indexLow, ?_, foundInUse, sameName, sameSector⟩
      rw [getElem?_setSlot inside, if_neg, there]
      rintro rfl
      rw [free found there] at foundInUse
      cases foundInUse
    · refine ⟨slot, entry, low, ?_, inUse, sameName, sameSector⟩
      rw [getElem?_setSlot inside, if_pos rfl]

theorem Tidy.setSlot (tidy : Tidy entries)
    (newName : ∀ number, ¬ Named entries entry.fname number)
    (newSector : ∀ other, ¬ Named entries other entry.inodeSector) : Tidy (setSlot entries slot entry) := by
  have fresh : ∀ index found, 1 ≤ index → entries[index]? = some found → found.inUse = true →
      ¬ (found.fname = entry.fname ∨ found.inodeSector = entry.inodeSector) := by
    intro index found indexLow there foundInUse same
    rcases same with same | same
    · exact newName _ ⟨index, found, indexLow, there, foundInUse, same, rfl⟩
    · exact newSector _ ⟨index, found, indexLow, there, foundInUse, rfl, same⟩
  constructor
  · obtain ⟨first, there, firstInUse⟩ := tidy.first
    refine ⟨first, ?_, firstInUse⟩
    rw [getElem?_setSlot inside, if_neg (by omega), there]
  · intro i j one two iLow jLow here there oneInUse twoInUse same
    rw [getElem?_setSlot inside] at here there
    split_ifs at here there with isSlot alsoSlot alsoSlot
    · rw [isSlot, alsoSlot]
    · rw [← Option.some.inj here] at same
      exact absurd (same.imp Eq.symm Eq.symm) (fresh j two jLow there twoInUse)
    · rw [← Option.some.inj there] at same
      exact absurd same (fresh i one iLow here oneInUse)
    · exact tidy.distinct i j one two iLow jLow here there oneInUse twoInUse same

end SetSlot

section Erase

variable (tidy : Tidy entries) (found : entries[nameSlot entries name]? = some entry)

include tidy found

/-- A removed name is not found any more, and the others stay. -/
theorem Tidy.named_erase (other : CString) (number : BlockSector) :
    Named (MockOS.Fs.setSlot entries (nameSlot entries name) { entry with inUse := false }) other number ↔
      Named entries other number ∧ other ≠ name := by
  obtain ⟨inside, _⟩ := List.getElem?_eq_some_iff.mp found
  obtain ⟨inUse, sameName⟩ := nameSlot_some found
  constructor
  · rintro ⟨index, other, low, there, otherInUse, rfl, sameSector⟩
    rw [getElem?_setSlot (Nat.le_of_lt inside)] at there
    split_ifs at there with same
    · rw [← Option.some.inj there] at otherInUse
      cases otherInUse
    · refine ⟨⟨index, other, low, there, otherInUse, rfl, sameSector⟩, fun equal => same ?_⟩
      exact tidy.distinct _ _ _ _ low (one_le_nameSlot _ _) there found otherInUse inUse (.inl (by rw [equal, sameName]))
  · rintro ⟨⟨index, other, low, there, otherInUse, rfl, sameSector⟩, different⟩
    refine ⟨index, other, low, ?_, otherInUse, rfl, sameSector⟩
    rw [getElem?_setSlot (Nat.le_of_lt inside), if_neg, there]
    rintro rfl
    rw [found, Option.some.injEq] at there
    exact different (there ▸ sameName)

theorem Tidy.erase : Tidy (MockOS.Fs.setSlot entries (nameSlot entries name) { entry with inUse := false }) := by
  obtain ⟨inside, _⟩ := List.getElem?_eq_some_iff.mp found
  have low := one_le_nameSlot entries name
  constructor
  · obtain ⟨first, there, firstInUse⟩ := tidy.first
    refine ⟨first, ?_, firstInUse⟩
    rw [getElem?_setSlot (Nat.le_of_lt inside), if_neg (by omega), there]
  · intro i j one two iLow jLow here there oneInUse twoInUse same
    rw [getElem?_setSlot (Nat.le_of_lt inside)] at here there
    split_ifs at here there
    · rw [← Option.some.inj here] at oneInUse
      cases oneInUse
    · rw [← Option.some.inj here] at oneInUse
      cases oneInUse
    · rw [← Option.some.inj there] at twoInUse
      cases twoInUse
    · exact tidy.distinct i j one two iLow jLow here there oneInUse twoInUse same

end Erase

/-- The names of a directory. -/
def namesOf (entries : List DirEntry) : List CString := ((entries.drop 1).filter (·.inUse)).map (·.fname)

theorem mem_namesOf : name ∈ namesOf entries ↔ ∃ sector, Named entries name sector := by
  simp only [namesOf, List.mem_map, List.mem_filter, List.mem_drop_iff_getElem]
  constructor
  · rintro ⟨entry, ⟨⟨index, inside, rfl⟩, inUse⟩, rfl⟩
    exact ⟨_, 1 + index, _, by omega, List.getElem?_eq_getElem _, inUse, rfl, rfl⟩
  · rintro ⟨sector, slot, entry, low, there, inUse, rfl, _⟩
    obtain ⟨inside, rfl⟩ := List.getElem?_eq_some_iff.mp there
    refine ⟨_, ⟨⟨slot - 1, by omega, ?_⟩, inUse⟩, rfl⟩
    simp only [show 1 + (slot - 1) = slot from by omega]

theorem nodup_usedNames (entries : List DirEntry)
    (distinct : ∀ (i j : Nat) (one two : DirEntry), entries[i]? = some one → entries[j]? = some two → one.inUse = true → two.inUse = true →
      one.fname = two.fname → i = j) : ((entries.filter (·.inUse)).map (·.fname)).Nodup := by
  induction entries with
  | nil => exact List.nodup_nil
  | cons entry rest ih =>
      have restDistinct := ih fun i j one two here there oneInUse twoInUse same =>
        Nat.succ.inj (distinct (i + 1) (j + 1) one two (by simpa using here) (by simpa using there) oneInUse twoInUse same)
      by_cases inUse : entry.inUse = true
      · rw [List.filter_cons_of_pos inUse, List.map_cons, List.nodup_cons]
        refine ⟨fun member => ?_, restDistinct⟩
        obtain ⟨other, inRest, same⟩ := List.mem_map.mp member
        obtain ⟨inRest, otherInUse⟩ := List.mem_filter.mp inRest
        obtain ⟨index, there⟩ := List.mem_iff_getElem?.mp inRest
        exact absurd (distinct (index + 1) 0 other entry (by simpa using there) rfl otherInUse inUse same) (Nat.succ_ne_zero _)
      · rw [List.filter_cons_of_neg inUse]
        exact restDistinct

theorem Tidy.nodup_namesOf (tidy : Tidy entries) : (namesOf entries).Nodup := by
  apply nodup_usedNames
  intro i j one two here there oneInUse twoInUse same
  rw [List.getElem?_drop] at here there
  have := tidy.distinct _ _ _ _ (Nat.le_add_right 1 i) (Nat.le_add_right 1 j) here there oneInUse twoInUse (.inl same)
  omega

/-- A new directory has no names. -/
theorem tidy_newEntries (sector : BlockSector) (entryCnt : Nat) : Tidy (newEntries sector entryCnt) := by
  have unused : ∀ i one, 1 ≤ i → (newEntries sector entryCnt)[i]? = some one → one.inUse = false := by
    intro i one low there
    obtain ⟨index, rfl⟩ : ∃ index, i = index + 1 := ⟨i - 1, by omega⟩
    rw [newEntries, List.getElem?_cons_succ, List.getElem?_replicate] at there
    split_ifs at there
    rw [← Option.some.inj there]
    rfl
  refine ⟨⟨_, rfl, rfl⟩, fun i j one two iLow jLow here there oneInUse twoInUse same => ?_⟩
  rw [unused i one iLow here] at oneInUse
  cases oneInUse

theorem not_named_newEntries (sector : BlockSector) (entryCnt : Nat) (name : CString) (number : BlockSector) :
    ¬ Named (newEntries sector entryCnt) name number := by
  rintro ⟨slot, entry, low, there, inUse, _⟩
  obtain ⟨index, rfl⟩ : ∃ index, slot = index + 1 := ⟨slot - 1, by omega⟩
  rw [newEntries, List.getElem?_cons_succ, List.getElem?_replicate] at there
  split_ifs at there
  rw [← Option.some.inj there] at inUse
  cases inUse

end MockOS.Fs
