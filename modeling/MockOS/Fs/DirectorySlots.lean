import MockOS.Fs.Directory
import MockOS.Fs.Frame

namespace MockOS.Fs

/-- An entry has room for 31 characters of its name. -/
def DirEntry.Sized (entry : DirEntry) : Prop := entry.name.length = 31

theorem DirEntry.length_toBytes {entry : DirEntry} (sized : entry.Sized) : entry.toBytes.length = 36 := by
  simp only [toBytes, List.length_append, List.length_map, List.length_range, List.length_singleton]
  rw [sized]

/-- The bytes of an entry give back the entry. -/
theorem DirEntry.ofBytes_toBytes {entry : DirEntry} (sized : entry.Sized) : ofBytes entry.toBytes = entry := by
  obtain ⟨sector, name, inUse⟩ := entry
  have nameLength : name.length = 31 := sized
  have small : sector.toNat < 4294967296 := sector.toNat_lt
  have digits : UInt32.ofNat (sector.toNat % 256 + 256 * (sector.toNat / 256 % 256) +
      65536 * (sector.toNat / 65536 % 256) + 16777216 * (sector.toNat / 16777216 % 256)) = sector := by
    rw [show sector.toNat % 256 + 256 * (sector.toNat / 256 % 256) + 65536 * (sector.toNat / 65536 % 256) +
      16777216 * (sector.toNat / 16777216 % 256) = sector.toNat from by omega, UInt32.ofNat_toNat]
  simp only [ofBytes, toBytes, mk.injEq]
  refine ⟨?_, ?_, ?_⟩
  · simpa [List.range_succ] using digits
  · simp [List.range_succ, nameLength]
  · have last : (List.range 4).length + name.length = 35 := by
      rw [nameLength]
      rfl
    rw [List.getD_eq_getElem?_getD, List.getElem?_append_right (by simp [nameLength])]
    cases inUse <;> simp [nameLength]

/-- The entries of a directory, from its bytes. -/
def entriesOf (bytes : List UInt8) : List DirEntry :=
  (List.range (bytes.length / 36)).map fun slot => .ofBytes ((bytes.drop (36 * slot)).take 36)

@[simp] theorem length_entriesOf (bytes : List UInt8) : (entriesOf bytes).length = bytes.length / 36 := by
  simp [entriesOf]

theorem getElem_entriesOf (bytes : List UInt8) {slot : Nat} (inside : slot < (entriesOf bytes).length) :
    (entriesOf bytes)[slot] = .ofBytes ((bytes.drop (36 * slot)).take 36) := by
  simp [entriesOf]

theorem sized_ofBytes {bytes : List UInt8} (length : bytes.length = 36) : (DirEntry.ofBytes bytes).Sized := by
  simp [DirEntry.Sized, DirEntry.ofBytes, length]

theorem sized_of_mem_entriesOf {bytes : List UInt8} {entry : DirEntry} (member : entry ∈ entriesOf bytes) :
    entry.Sized := by
  obtain ⟨slot, inside, rfl⟩ := List.mem_map.mp member
  have inside := List.mem_range.mp inside
  apply sized_ofBytes
  rw [List.length_take, List.length_drop]
  omega

/-- The entries after one of them is stored; behind the last slot the directory grows. -/
def setSlot (entries : List DirEntry) (slot : Nat) (entry : DirEntry) : List DirEntry :=
  entries.take slot ++ entry :: entries.drop (slot + 1)

theorem length_setSlot {entries : List DirEntry} {slot : Nat} (inside : slot ≤ entries.length) (entry : DirEntry) :
    (setSlot entries slot entry).length = max entries.length (slot + 1) := by
  simp only [setSlot, List.length_append, List.length_take, List.length_cons, List.length_drop]
  omega

theorem getElem?_setSlot {entries : List DirEntry} {slot : Nat} (inside : slot ≤ entries.length) (entry : DirEntry)
    (index : Nat) : (setSlot entries slot entry)[index]? = if index = slot then some entry else entries[index]? := by
  have length : (entries.take slot).length = slot := by
    rw [List.length_take]
    omega
  rw [setSlot]
  by_cases before : index < slot
  · rw [List.getElem?_append_left (by omega), if_neg (by omega), List.getElem?_take_of_lt before]
  · rw [List.getElem?_append_right (by omega), length]
    by_cases same : index = slot
    · rw [if_pos same, same, Nat.sub_self, List.getElem?_cons_zero]
    · rw [if_neg same, show index - slot = (index - slot - 1) + 1 from by omega, List.getElem?_cons_succ,
        List.getElem?_drop]
      congr 1
      omega

/-- A stretch of the bytes after a write. -/
theorem overwrite_stretch {bytes : List UInt8} {offset size start count : Nat} (buffer : Nat → UInt8)
    (inside : start + count ≤ max bytes.length (offset + size)) :
    ((overwrite bytes offset size buffer).drop start).take count = (List.range count).map fun index =>
      if offset ≤ start + index ∧ start + index < offset + size then buffer (start + index - offset)
      else bytes.getD (start + index) 0 := by
  apply List.ext_getElem
  · simp only [List.length_take, List.length_drop, length_overwrite, List.length_map, List.length_range]
    omega
  · intro index small _
    simp [overwrite]

theorem stretch_eq {bytes : List UInt8} {start count : Nat} (inside : start + count ≤ bytes.length) :
    (bytes.drop start).take count = (List.range count).map fun index => bytes.getD (start + index) 0 := by
  apply List.ext_getElem
  · simp only [List.length_take, List.length_drop, List.length_map, List.length_range]
    omega
  · intro index small smaller
    simp only [List.length_map, List.length_range] at smaller
    simp only [List.getElem_take, List.getElem_drop, List.getElem_map, List.getElem_range]
    rw [List.getD_eq_getElem _ _ (by omega)]

/-- A write of an entry changes one slot. -/
theorem entriesOf_overwrite {bytes : List UInt8} {count slot : Nat} (whole : bytes.length = 36 * count)
    (inside : slot ≤ count) {entry : DirEntry} (sized : entry.Sized) :
    entriesOf (overwrite bytes (36 * slot) 36 fun index => entry.toBytes.getD index 0) =
      setSlot (entriesOf bytes) slot entry := by
  have length : (entriesOf bytes).length = count := by
    rw [length_entriesOf]
    omega
  have lengthAfter : (entriesOf (overwrite bytes (36 * slot) 36 fun index => entry.toBytes.getD index 0)).length =
      max count (slot + 1) := by
    rw [length_entriesOf, length_overwrite]
    omega
  apply List.ext_getElem?
  intro index
  rw [getElem?_setSlot (by omega)]
  by_cases small : index < max count (slot + 1)
  · rw [List.getElem?_eq_getElem (by omega), getElem_entriesOf, overwrite_stretch _ (by omega)]
    by_cases same : index = slot
    · subst same
      rw [if_pos rfl, Option.some.injEq]
      have stretch : ((List.range 36).map fun lane =>
          if 36 * index ≤ 36 * index + lane ∧ 36 * index + lane < 36 * index + 36 then
            entry.toBytes.getD (36 * index + lane - 36 * index) 0
          else bytes.getD (36 * index + lane) 0) = entry.toBytes := by
        apply List.ext_getElem
        · rw [List.length_map, List.length_range, DirEntry.length_toBytes sized]
        · intro lane laneSmall laneInside
          simp only [List.length_map, List.length_range] at laneSmall
          simp only [List.getElem_map, List.getElem_range]
          rw [if_pos ⟨by omega, by omega⟩, Nat.add_sub_cancel_left, List.getD_eq_getElem _ _ laneInside]
      rw [stretch, DirEntry.ofBytes_toBytes sized]
    · rw [if_neg same, List.getElem?_eq_getElem (by omega), getElem_entriesOf, stretch_eq (by omega)]
      congr 2
      apply List.map_congr_left
      intro lane member
      have small := List.mem_range.mp member
      rw [if_neg (by omega)]
  · rw [List.getElem?_eq_none (by omega), if_neg (by omega), List.getElem?_eq_none (by omega)]

end MockOS.Fs
