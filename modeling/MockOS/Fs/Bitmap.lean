import MockOS.Fs.State
import Mathlib.Data.Nat.Bitwise
import Mathlib.Data.List.Perm.Subperm
import Mathlib.Data.List.Range

namespace MockOS.Fs.Bitmap

/-- An element holds `ELEM_BITS` bits. -/
def elemCnt (bitCnt : Nat) : Nat := (bitCnt + 63) / 64

def byteCnt (bitCnt : Nat) : Nat := 8 * elemCnt bitCnt

def bitmapCreate (bitCnt : Nat) : Bitmap := ⟨bitCnt, fun _ => false⟩

/-- A bit outside the elements cannot be set. -/
def bitmapSet (bitmap : Bitmap) (index : Nat) (value : Bool) : Option Bitmap :=
  if index / 64 < elemCnt bitmap.bitCnt then
    some { bitmap with bits := Function.update bitmap.bits index value }
  else none

def bitmapSetMultiple (bitmap : Bitmap) (start cnt : Nat) (value : Bool) : Option Bitmap :=
  (List.range cnt).foldlM (fun bitmap i => bitmap.bitmapSet (start + i) value) bitmap

def bitmapCount (bitmap : Bitmap) (start cnt : Nat) (value : Bool) : Nat :=
  (List.range cnt).countP fun i => bitmap.bits (start + i) == value

def bitmapContains (bitmap : Bitmap) (start cnt : Nat) (value : Bool) : Bool :=
  (List.range cnt).any fun i => bitmap.bits (start + i) == value

/-- The result `none` stands for `BITMAP_ERROR`. -/
def bitmapScan (bitmap : Bitmap) (start cnt : Nat) (value : Bool) : Option Nat :=
  if cnt ≤ bitmap.bitCnt then
    (List.range' start (bitmap.bitCnt - cnt + 1 - start)).find? fun i => !bitmap.bitmapContains i cnt (!value)
  else none

/-- A byte of the elements, which the machine stores with the least significant byte first. -/
def byte (bitmap : Bitmap) (index : Nat) : UInt8 :=
  UInt8.ofNat (Nat.ofBits fun lane : Fin 8 => bitmap.bits (8 * index + lane.val))

/-- The bits after the first bytes of the elements were overwritten and the unused bits cleared. -/
def load (bitmap : Bitmap) (bytes : List UInt8) : Bitmap :=
  { bitmap with bits := fun index =>
      let bit := match bytes[index / 8]? with
        | some byte => byte.toNat.testBit (index % 8)
        | none => bitmap.bits index
      if 64 * (elemCnt bitmap.bitCnt - 1) ≤ index ∧ index < 64 * elemCnt bitmap.bitCnt then
        bit && decide (index < bitmap.bitCnt)
      else bit }

/-- The bits that `num_free_sectors` counts. -/
def free (bitmap : Bitmap) : Nat := bitmap.bitmapCount 0 bitmap.bitCnt false

def mark (bitmap : Bitmap) (index : Nat) (value : Bool) : Bitmap :=
  { bitmap with bits := Function.update bitmap.bits index value }

@[simp] theorem mark_bitCnt (bitmap : Bitmap) (index : Nat) (value : Bool) :
    (bitmap.mark index value).bitCnt = bitmap.bitCnt := rfl

theorem mark_bits (bitmap : Bitmap) (index other : Nat) (value : Bool) :
    (bitmap.mark index value).bits other = if other = index then value else bitmap.bits other := by
  simp [mark, Function.update_apply]

theorem bitmapSetMultiple_one {bitmap : Bitmap} {index : Nat} (value : Bool) (inside : index < bitmap.bitCnt) :
    bitmap.bitmapSetMultiple index 1 value = some (bitmap.mark index value) := by
  have small : index / 64 < elemCnt bitmap.bitCnt := by
    unfold elemCnt
    omega
  simp [bitmapSetMultiple, bitmapSet, small, mark, List.range_succ]

/-- The search for one free bit stops at the first. -/
theorem bitmapScan_one (bitmap : Bitmap) :
    bitmap.bitmapScan 0 1 false = (List.range bitmap.bitCnt).find? fun i => !bitmap.bits i := by
  have same : (fun i => !bitmap.bitmapContains i 1 (!false)) = fun i => !bitmap.bits i := by
    funext i
    simp [bitmapContains, List.range_succ]
  rw [bitmapScan, same, List.range_eq_range']
  by_cases positive : 1 ≤ bitmap.bitCnt
  · rw [if_pos positive, Nat.sub_add_cancel positive, Nat.sub_zero]
  · have none : bitmap.bitCnt = 0 := by omega
    rw [if_neg positive, none]
    rfl

theorem bitmapScan_some {bitmap : Bitmap} {index : Nat} (found : bitmap.bitmapScan 0 1 false = some index) :
    index < bitmap.bitCnt ∧ bitmap.bits index = false := by
  rw [bitmapScan_one] at found
  have free := List.find?_some found
  have member := List.mem_range.mp (List.mem_of_find?_eq_some found)
  exact ⟨member, by simpa using free⟩

/-- No bit below the one that is found is free. -/
theorem bitmapScan_first {bitmap : Bitmap} {index other : Nat} (found : bitmap.bitmapScan 0 1 false = some index)
    (isFree : bitmap.bits other = false) : index ≤ other := by
  rw [bitmapScan_one, List.find?_range_eq_some] at found
  by_contra below
  have used := found.2.2 other (by omega)
  simp [isFree] at used

theorem bitmapSetMultiple_bitCnt {bitmap after : Bitmap} {start cnt : Nat} {value : Bool}
    (set : bitmap.bitmapSetMultiple start cnt value = some after) : after.bitCnt = bitmap.bitCnt := by
  have kept : ∀ (indices : List Nat) (bitmap : Bitmap), indices.foldlM (fun bitmap i =>
      bitmap.bitmapSet (start + i) value) bitmap = some after → after.bitCnt = bitmap.bitCnt := by
    intro indices
    induction indices with
    | nil =>
        intro bitmap ran
        rw [Option.some.inj ran]
    | cons index rest ih =>
        intro bitmap ran
        obtain ⟨middle, stored, rest⟩ := Option.bind_eq_some_iff.mp ran
        have set : bitmap.bitmapSet (start + index) value = some middle := stored
        rw [bitmapSet] at set
        split_ifs at set
        rw [ih middle rest, ← Option.some.inj set]
  exact kept _ _ set

theorem free_eq (bitmap : Bitmap) : bitmap.free = (List.range bitmap.bitCnt).countP fun i => !bitmap.bits i := by
  unfold free bitmapCount
  congr 1
  funext i
  simp

theorem free_congr {bitmap other : Bitmap} (sameCnt : bitmap.bitCnt = other.bitCnt)
    (same : ∀ index < other.bitCnt, bitmap.bits index = other.bits index) : bitmap.free = other.free := by
  rw [free_eq, free_eq, sameCnt]
  apply List.countP_congr
  intro index member
  rw [same index (List.mem_range.mp member)]

/-- The search fails exactly when no bit is free. -/
theorem bitmapScan_none {bitmap : Bitmap} : bitmap.bitmapScan 0 1 false = none ↔ bitmap.free = 0 := by
  rw [bitmapScan_one, free_eq]
  simp [List.find?_eq_none, List.countP_eq_zero]

theorem free_zero {bitmap : Bitmap} : bitmap.free = 0 ↔ ∀ index < bitmap.bitCnt, bitmap.bits index = true := by
  rw [free_eq]
  simp [List.countP_eq_zero]

private theorem countP_update (bits : Nat → Bool) (index : Nat) (value : Bool) (count : Nat) :
    (List.range count).countP (fun i => !Function.update bits index value i) +
        (if index < count ∧ bits index = false then 1 else 0) =
      (List.range count).countP (fun i => !bits i) + (if index < count ∧ value = false then 1 else 0) := by
  induction count with
  | zero => simp
  | succ count ih =>
      rw [List.range_succ, List.countP_append, List.countP_append]
      simp only [List.countP_singleton, Function.update_apply] at ih ⊢
      by_cases here : count = index
      · subst here
        cases value <;> cases h : bits count <;> simp [h] at ih ⊢ <;> omega
      · have below : index < count + 1 ↔ index < count := by omega
        simp only [here, if_false, below] at ih ⊢
        omega

/-- Taking a free bit leaves one less. -/
theorem free_mark_true {bitmap : Bitmap} {index : Nat} (inside : index < bitmap.bitCnt)
    (isFree : bitmap.bits index = false) : (bitmap.mark index true).free + 1 = bitmap.free := by
  have counted := countP_update bitmap.bits index true bitmap.bitCnt
  rw [free_eq, free_eq]
  simpa [mark, inside, isFree] using counted

theorem free_mark_false {bitmap : Bitmap} {index : Nat} (inside : index < bitmap.bitCnt)
    (used : bitmap.bits index = true) : (bitmap.mark index false).free = bitmap.free + 1 := by
  have counted := countP_update bitmap.bits index false bitmap.bitCnt
  rw [free_eq, free_eq]
  simpa [mark, inside, used] using counted

/-- Every bit that was set lowers the number of free bits. -/
theorem free_add_length_le {before after : Bitmap} (sameCnt : after.bitCnt = before.bitCnt)
    (kept : ∀ index < before.bitCnt, before.bits index = true → after.bits index = true) {taken : List Nat}
    (distinct : taken.Nodup)
    (fresh : ∀ index ∈ taken, index < before.bitCnt ∧ before.bits index = false ∧ after.bits index = true) :
    after.free + taken.length ≤ before.free := by
  have split : ∀ indices : List Nat, (∀ index ∈ indices, before.bits index = true → after.bits index = true) →
      (indices.countP fun i => !before.bits i) = (indices.countP fun i => !after.bits i) +
        indices.countP fun i => !before.bits i && after.bits i := by
    intro indices
    induction indices with
    | nil => exact fun _ => rfl
    | cons index rest ih =>
        intro kept
        have head := kept index List.mem_cons_self
        have tail := ih fun other member => kept other (List.mem_cons_of_mem _ member)
        simp only [List.countP_cons]
        cases one : before.bits index <;> cases two : after.bits index <;> simp [one, two] at head ⊢ <;> omega
  have subset : taken ⊆ (List.range before.bitCnt).filter fun i => !before.bits i && after.bits i := by
    intro index member
    obtain ⟨inside, wasFree, isSet⟩ := fresh index member
    simp [inside, wasFree, isSet]
  have counted := (List.subperm_of_subset distinct subset).length_le
  rw [← List.countP_eq_length_filter] at counted
  rw [free_eq, free_eq, sameCnt, split _ fun index member => kept index (List.mem_range.mp member)]
  omega

/-- When the count explains all bits that were taken, there are no others. -/
theorem mem_taken {before after : Bitmap} (sameCnt : after.bitCnt = before.bitCnt)
    (kept : ∀ index < before.bitCnt, before.bits index = true → after.bits index = true) {taken : List Nat}
    (distinct : taken.Nodup)
    (fresh : ∀ index ∈ taken, index < before.bitCnt ∧ before.bits index = false ∧ after.bits index = true)
    (counted : after.free + taken.length = before.free) {index : Nat} (inside : index < before.bitCnt)
    (isSet : after.bits index = true) : before.bits index = true ∨ index ∈ taken := by
  by_contra neither
  obtain ⟨wasFree, absent⟩ := not_or.mp neither
  have larger := free_add_length_le sameCnt kept (List.nodup_cons.mpr ⟨absent, distinct⟩) (by
    intro other member
    rcases List.mem_cons.mp member with rfl | member
    · exact ⟨inside, by simpa using wasFree, isSet⟩
    · exact fresh other member)
  rw [List.length_cons] at larger
  omega

/-- The byte holds its eight bits. -/
theorem testBit_byte (bitmap : Bitmap) (index : Nat) :
    (bitmap.byte (index / 8)).toNat.testBit (index % 8) = bitmap.bits index := by
  have lane : index % 8 < 8 := Nat.mod_lt _ (by decide)
  have small : Nat.ofBits (fun lane : Fin 8 => bitmap.bits (8 * (index / 8) + lane.val)) < 256 :=
    Nat.ofBits_lt_two_pow _
  rw [byte, UInt8.toNat_ofNat', Nat.mod_eq_of_lt small, Nat.testBit_ofBits_lt _ _ lane]
  congr 1
  exact Nat.div_add_mod index 8

end MockOS.Fs.Bitmap
