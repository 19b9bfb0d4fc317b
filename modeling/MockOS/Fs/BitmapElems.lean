import MockOS.Fs.Bitmap
import MockOS.Lib.PackedBits

namespace MockOS.Fs

open Lib

/-- `struct bitmap` with its elements. -/
structure ElemBitmap where
  bitCnt : Nat
  bits : List (BitVec 64)
  sized : bits.length = Bitmap.elemCnt bitCnt

namespace ElemBitmap

variable (b : ElemBitmap)

def elemIdx (bitIdx : Nat) : Nat := bitIdx / 64

def bitMask (bitIdx : Nat) : BitVec 64 := 1#64 <<< (bitIdx % 64)

/-- The used bits of the last element. -/
def lastMask : BitVec 64 := if b.bitCnt % 64 ≠ 0 then (1#64 <<< (b.bitCnt % 64)) - 1#64 else -1#64

def create (bitCnt : Nat) : ElemBitmap := ⟨bitCnt, List.replicate (Bitmap.elemCnt bitCnt) 0#64, List.length_replicate⟩

/-- A change of the element of a bit, which has to exist. -/
def change (bitIdx : Nat) (operation : BitVec 64 → BitVec 64) : Option ElemBitmap :=
  if elemIdx bitIdx < b.bits.length then
    some ⟨b.bitCnt, b.bits.modify (elemIdx bitIdx) operation, (List.length_modify _ _ _).trans b.sized⟩
  else none

def bitmapMark (bitIdx : Nat) : Option ElemBitmap := b.change bitIdx (· ||| bitMask bitIdx)

def bitmapReset (bitIdx : Nat) : Option ElemBitmap := b.change bitIdx (· &&& ~~~bitMask bitIdx)

def bitmapFlip (bitIdx : Nat) : Option ElemBitmap := b.change bitIdx (· ^^^ bitMask bitIdx)

def bitmapSet (idx : Nat) (value : Bool) : Option ElemBitmap := if value then b.bitmapMark idx else b.bitmapReset idx

def bitmapTest (idx : Nat) : Option Bool := b.bits[elemIdx idx]?.map fun element => element &&& bitMask idx != 0#64

def bitmapSetMultiple (start cnt : Nat) (value : Bool) : Option ElemBitmap :=
  (List.range cnt).foldlM (fun b i => b.bitmapSet (start + i) value) b

def bitmapSetAll (value : Bool) : Option ElemBitmap := b.bitmapSetMultiple 0 b.bitCnt value

/-- The loop of `bitmap_count` with its counter. -/
def countFrom (value : Bool) : Nat → Nat → Nat → Option Nat
  | 0, _, valueCnt => some valueCnt
  | cnt + 1, i, valueCnt => do countFrom value cnt (i + 1) (if (← b.bitmapTest i) == value then valueCnt + 1 else valueCnt)

def bitmapCount (start cnt : Nat) (value : Bool) : Option Nat := b.countFrom value cnt start 0

/-- The loop of `bitmap_contains`, which stops at the first such bit. -/
def containsFrom (value : Bool) : Nat → Nat → Option Bool
  | 0, _ => some false
  | cnt + 1, i => do if (← b.bitmapTest i) == value then pure true else containsFrom value cnt (i + 1)

def bitmapContains (start cnt : Nat) (value : Bool) : Option Bool := b.containsFrom value cnt start

def bitmapAny (start cnt : Nat) : Option Bool := b.bitmapContains start cnt true

def bitmapNone (start cnt : Nat) : Option Bool := (b.bitmapContains start cnt true).map fun found => !found

def bitmapAll (start cnt : Nat) : Option Bool := (b.bitmapContains start cnt false).map fun found => !found

/-- The loop of `bitmap_scan`; the inner `none` stands for `BITMAP_ERROR`. -/
def scanFrom (cnt : Nat) (value : Bool) : Nat → Nat → Option (Option Nat)
  | 0, _ => some none
  | rounds + 1, i => do
      if ← b.bitmapContains i cnt (!value) then scanFrom cnt value rounds (i + 1) else pure (some i)

def bitmapScan (start cnt : Nat) (value : Bool) : Option (Option Nat) :=
  if cnt ≤ b.bitCnt then b.scanFrom cnt value (b.bitCnt - cnt + 1 - start) start else some none

def bitmapScanAndFlip (start cnt : Nat) (value : Bool) : Option (Option Nat × ElemBitmap) := do
  match ← b.bitmapScan start cnt value with
  | none => pure (none, b)
  | some idx => pure (some idx, ← b.bitmapSetMultiple idx cnt (!value))

/-- A byte of an element, the lowest one first. -/
def elemByte (element : BitVec 64) (place : Nat) : UInt8 := ⟨element.extractLsb' (8 * place) 8⟩

/-- The bytes of the elements, as `bitmap_write` hands them over. -/
def bytes : List UInt8 :=
  (List.range (Bitmap.byteCnt b.bitCnt)).map fun place => elemByte (b.bits[place / 8]?.getD 0#64) (place % 8)

/-- An element of eight bytes, the lowest one first. -/
def ofBytes (byte : Nat → UInt8) : BitVec 64 :=
  (byte 7).toBitVec ++ (byte 6).toBitVec ++ (byte 5).toBitVec ++ (byte 4).toBitVec ++ (byte 3).toBitVec ++
    (byte 2).toBitVec ++ (byte 1).toBitVec ++ (byte 0).toBitVec

/-- The elements after their first bytes were overwritten. -/
def stored (read : List UInt8) : List (BitVec 64) :=
  b.bits.mapIdx fun e element => ofBytes fun place => read[8 * e + place]?.getD (elemByte element place)

/-- `bitmap_read` of a file that gives these bytes. -/
def bitmapRead (read : List UInt8) : ElemBitmap :=
  if b.bitCnt > 0 then
    ⟨b.bitCnt, (b.stored read).modify (Bitmap.elemCnt b.bitCnt - 1) (· &&& b.lastMask),
      (List.length_modify _ _ _).trans (List.length_mapIdx.trans b.sized)⟩
  else b

/-- The bits of the elements. -/
def view : Bitmap := ⟨b.bitCnt, PackedBits.bit b.bits⟩

variable {b} {idx start cnt i : Nat} {value : Bool}

@[simp] theorem view_bitCnt : b.view.bitCnt = b.bitCnt := rfl

@[simp] theorem view_bits : b.view.bits = PackedBits.bit b.bits := rfl

theorem elemIdx_lt (inside : idx < b.bitCnt) : elemIdx idx < b.bits.length := by
  rw [b.sized, elemIdx, Bitmap.elemCnt]
  omega

theorem view_create (bitCnt : Nat) : (create bitCnt).view = Bitmap.bitmapCreate bitCnt := by
  have clear : PackedBits.bit (List.replicate (Bitmap.elemCnt bitCnt) 0#64) = fun _ => false := by
    funext index
    rw [PackedBits.bit, List.getElem?_replicate]
    split_ifs <;> simp
  rw [view, create, Bitmap.bitmapCreate, clear]

theorem view_change {operation : BitVec 64 → BitVec 64} {after : Bool}
    (changes : elemIdx idx < b.bits.length →
      PackedBits.bit (b.bits.modify (elemIdx idx) operation) = Function.update (PackedBits.bit b.bits) idx after) :
    (b.change idx operation).map view = b.view.bitmapSet idx after := by
  rw [change, Bitmap.bitmapSet, view_bitCnt, ← b.sized]
  by_cases inside : elemIdx idx < b.bits.length
  · rw [if_pos inside, if_pos (show idx / 64 < b.bits.length from inside), Option.map_some, view, changes inside]
    rfl
  · rw [if_neg inside, if_neg (show ¬ idx / 64 < b.bits.length from inside), Option.map_none]

/-- A bit is set in its element, where there is one. -/
theorem view_bitmapSet : (b.bitmapSet idx value).map view = b.view.bitmapSet idx value := by
  cases value with
  | true => exact view_change fun inside => PackedBits.bit_mark (by decide) inside
  | false => exact view_change fun inside => PackedBits.bit_reset (by decide) inside

theorem view_bitmapFlip : (b.bitmapFlip idx).map view = b.view.bitmapSet idx (!b.view.bits idx) :=
  view_change fun inside => PackedBits.bit_flip (by decide) inside

theorem view_bitmapSetMultiple : (b.bitmapSetMultiple start cnt value).map view = b.view.bitmapSetMultiple start cnt value := by
  rw [bitmapSetMultiple, Bitmap.bitmapSetMultiple]
  generalize List.range cnt = indices
  induction indices generalizing b with
  | nil => rfl
  | cons first rest ih =>
      rw [List.foldlM_cons, List.foldlM_cons, ← view_bitmapSet]
      cases b.bitmapSet (start + first) value with
      | none => rfl
      | some next => exact ih

theorem bitmapTest_eq (inside : idx < b.bitCnt) : b.bitmapTest idx = some (b.view.bits idx) := by
  have here := List.getElem?_eq_getElem (elemIdx_lt inside)
  rw [bitmapTest, here, Option.map_some, view_bits, PackedBits.bit]
  change some _ = some ((b.bits[elemIdx idx]?.getD 0#64).getLsbD (idx % 64))
  rw [here, Option.getD_some]
  exact congrArg some (PackedBits.and_mask_ne_zero (by decide) _ idx)

theorem countFrom_eq {valueCnt : Nat} (inside : i + cnt ≤ b.bitCnt) : b.countFrom value cnt i valueCnt =
    some (valueCnt + (List.range' i cnt).countP fun i => b.view.bits i == value) := by
  induction cnt generalizing i valueCnt with
  | zero => rfl
  | succ cnt ih =>
      rw [countFrom, bitmapTest_eq (by omega), List.range'_succ, List.countP_cons]
      change b.countFrom value cnt (i + 1) _ = _
      rw [ih (by omega)]
      congr 1
      split_ifs <;> omega

theorem bitmapCount_eq (inside : start + cnt ≤ b.bitCnt) :
    b.bitmapCount start cnt value = some (b.view.bitmapCount start cnt value) := by
  rw [bitmapCount, countFrom_eq inside, Nat.zero_add, Bitmap.bitmapCount, List.range'_eq_map_range, List.countP_map]
  rfl

theorem containsFrom_eq (inside : i + cnt ≤ b.bitCnt) :
    b.containsFrom value cnt i = some ((List.range' i cnt).any fun i => b.view.bits i == value) := by
  induction cnt generalizing i with
  | zero => rfl
  | succ cnt ih =>
      rw [containsFrom, bitmapTest_eq (by omega), List.range'_succ, List.any_cons]
      change (if (b.view.bits i == value) = true then pure true else b.containsFrom value cnt (i + 1)) = _
      cases b.view.bits i == value with
      | true => rfl
      | false => exact ih (by omega)

theorem bitmapContains_eq (inside : start + cnt ≤ b.bitCnt) :
    b.bitmapContains start cnt value = some (b.view.bitmapContains start cnt value) := by
  rw [bitmapContains, containsFrom_eq inside, Bitmap.bitmapContains, List.range'_eq_map_range, List.any_map]
  rfl

theorem scanFrom_eq {rounds : Nat} (inside : i + rounds + cnt ≤ b.bitCnt + 1) : b.scanFrom cnt value rounds i =
    some ((List.range' i rounds).find? fun i => !b.view.bitmapContains i cnt (!value)) := by
  induction rounds generalizing i with
  | zero => rfl
  | succ rounds ih =>
      rw [scanFrom, bitmapContains_eq (by omega), List.range'_succ, List.find?_cons]
      change (if b.view.bitmapContains i cnt (!value) = true then b.scanFrom cnt value rounds (i + 1) else pure (some i)) = _
      cases b.view.bitmapContains i cnt (!value) with
      | true => exact ih (by omega)
      | false => rfl

theorem bitmapScan_eq : b.bitmapScan start cnt value = some (b.view.bitmapScan start cnt value) := by
  rw [bitmapScan, Bitmap.bitmapScan, view_bitCnt]
  by_cases fits : cnt ≤ b.bitCnt
  · rw [if_pos fits, if_pos fits]
    by_cases early : start ≤ b.bitCnt - cnt
    · exact scanFrom_eq (by omega)
    · have none : b.bitCnt - cnt + 1 - start = 0 := by omega
      rw [none]
      rfl
  · rw [if_neg fits, if_neg fits]

theorem testBit_elemByte (element : BitVec 64) (place lane : Nat) :
    (elemByte element place).toNat.testBit lane = (decide (lane < 8) && element.getLsbD (8 * place + lane)) := by
  change (element.extractLsb' (8 * place) 8).getLsbD lane = _
  rw [BitVec.getLsbD_extractLsb']

theorem getLsbD_ofBytes (byte : Nat → UInt8) {lane : Nat} (inside : lane < 64) :
    (ofBytes byte).getLsbD lane = (byte (lane / 8)).toNat.testBit (lane % 8) := by
  obtain ⟨place, below, bit, small, rfl⟩ : ∃ place < 8, ∃ bit < 8, lane = 8 * place + bit :=
    ⟨lane / 8, by omega, lane % 8, by omega, by omega⟩
  have quotient : (8 * place + bit) / 8 = place := by omega
  have remainder : (8 * place + bit) % 8 = bit := by omega
  rw [quotient, remainder, ofBytes]
  simp only [BitVec.getLsbD_append]
  rcases (by omega : place = 0 ∨ place = 1 ∨ place = 2 ∨ place = 3 ∨ place = 4 ∨ place = 5 ∨ place = 6 ∨ place = 7)
    with rfl | rfl | rfl | rfl | rfl | rfl | rfl | rfl
  all_goals
    repeat rw [if_neg (by omega)]
    try rw [if_pos (by omega)]
    exact congrArg (BitVec.getLsbD _) (by omega)

/-- A byte of the elements is a byte of the bits. -/
theorem elemByte_eq (place : Nat) : elemByte (b.bits[place / 8]?.getD 0#64) (place % 8) = b.view.byte place := by
  apply UInt8.toNat_inj.mp
  apply Nat.eq_of_testBit_eq
  intro lane
  rw [testBit_elemByte]
  by_cases small : lane < 8
  · have bits := b.view.testBit_byte (8 * place + lane)
    have quotient : (8 * place + lane) / 8 = place := by omega
    have remainder : (8 * place + lane) % 8 = lane := by omega
    have element : (8 * place + lane) / 64 = place / 8 := by omega
    have inside : (8 * place + lane) % 64 = 8 * (place % 8) + lane := by omega
    rw [quotient, remainder, view_bits, PackedBits.bit, element, inside] at bits
    simp only [small, decide_true, Bool.true_and]
    exact bits.symm
  · have large : 2 ^ 8 ≤ 2 ^ lane := Nat.pow_le_pow_right (by decide) (by omega)
    simp only [small, decide_false, Bool.false_and]
    exact (Nat.testBit_lt_two_pow (Nat.lt_of_lt_of_le (UInt8.toNat_lt _) large)).symm

theorem length_bytes : b.bytes.length = Bitmap.byteCnt b.bitCnt := by
  rw [bytes, List.length_map, List.length_range]

theorem bytes_eq : b.bytes = (List.range (Bitmap.byteCnt b.bitCnt)).map b.view.byte :=
  List.map_congr_left fun place _ => elemByte_eq place

/-- The mask of the last element keeps the bits in use. -/
theorem getLsbD_lastMask {index : Nat} (last : index / 64 = Bitmap.elemCnt b.bitCnt - 1) (some : 0 < b.bitCnt) :
    b.lastMask.getLsbD (index % 64) = decide (index < b.bitCnt) := by
  rw [Bitmap.elemCnt] at last
  rw [lastMask]
  split_ifs with partly
  · rw [PackedBits.getLsbD_lowMask (Nat.mod_lt _ (by decide))]
    congr 1
    apply propext
    omega
  · have whole : index < b.bitCnt := by omega
    have lane : index % 64 < 64 := Nat.mod_lt _ (by decide)
    rw [BitVec.neg_one_eq_allOnes, BitVec.getLsbD_allOnes]
    simp [lane, whole]

theorem load_bits (bitmap : Bitmap) (read : List UInt8) (index : Nat) : (bitmap.load read).bits index =
    let bit := read[index / 8]?.elim (bitmap.bits index) fun byte => byte.toNat.testBit (index % 8)
    if 64 * (Bitmap.elemCnt bitmap.bitCnt - 1) ≤ index ∧ index < 64 * Bitmap.elemCnt bitmap.bitCnt then
      bit && decide (index < bitmap.bitCnt)
    else bit := by
  rw [Bitmap.load]
  dsimp only
  cases read[index / 8]? <;> rfl

theorem getElem?_stored {read : List UInt8} {index : Nat} (inside : index / 64 < b.bits.length) :
    ∃ element, (b.stored read)[index / 64]? = some element ∧ element.getLsbD (index % 64) =
      read[index / 8]?.elim (b.view.bits index) fun byte => byte.toNat.testBit (index % 8) := by
  have here := List.getElem?_eq_getElem inside
  refine ⟨_, by rw [stored, List.getElem?_mapIdx, here, Option.map_some], ?_⟩
  have lane : index % 64 < 64 := Nat.mod_lt _ (by decide)
  have place : 8 * (index / 64) + index % 64 / 8 = index / 8 := by omega
  have bit : index % 64 % 8 = index % 8 := by omega
  rw [getLsbD_ofBytes _ lane, place, bit]
  cases read[index / 8]? with
  | some byte => rfl
  | none =>
      have same : 8 * (index % 64 / 8) + index % 8 = index % 64 := by omega
      rw [Option.getD_none, testBit_elemByte, same, view_bits, PackedBits.bit, here]
      simp [Nat.mod_lt]

/-- Reading a file loads its bits, without those behind the last one. -/
theorem view_bitmapRead {read : List UInt8} (fits : read.length ≤ Bitmap.byteCnt b.bitCnt) :
    (b.bitmapRead read).view = b.view.load read := by
  have sized := b.sized
  have behind : ∀ index, ¬ index / 64 < b.bits.length → read[index / 8]? = none ∧ b.view.bits index = false := by
    intro index outside
    refine ⟨List.getElem?_eq_none (Nat.le_trans fits ?_), ?_⟩
    · rw [Bitmap.byteCnt]
      omega
    · rw [view_bits, PackedBits.bit, List.getElem?_eq_none (Nat.le_of_not_lt outside)]
      simp
  have bits : (b.bitmapRead read).view.bits = (b.view.load read).bits := by
    funext index
    by_cases inside : index / 64 < b.bits.length
    · obtain ⟨element, here, bit⟩ := @getElem?_stored b read index inside
      have some : 0 < b.bitCnt := by
        rw [sized, Bitmap.elemCnt] at inside
        omega
      rw [bitmapRead, if_pos some, view_bits, PackedBits.bit, List.getElem?_modify, here]
      rw [load_bits, view_bitCnt, Option.map_eq_map, Option.map_some, Option.getD_some, ← bit]
      by_cases last : index / 64 = Bitmap.elemCnt b.bitCnt - 1
      · rw [if_pos last.symm, if_pos (by omega), BitVec.getLsbD_and, getLsbD_lastMask last some]
      · rw [if_neg (Ne.symm last), if_neg (by omega)]
    · obtain ⟨none, clear⟩ := behind index inside
      have length : (b.bitmapRead read).bits.length = b.bits.length := by
        rw [(b.bitmapRead read).sized, sized, bitmapRead]
        split_ifs <;> rfl
      rw [load_bits, view_bitCnt, none, Option.elim_none, clear, if_neg (by omega), view_bits, PackedBits.bit,
        List.getElem?_eq_none (by rw [length]; exact Nat.le_of_not_lt inside)]
      simp
  have same : (b.bitmapRead read).bitCnt = b.bitCnt := by
    rw [bitmapRead]
    split_ifs <;> rfl
  rw [view_bits] at bits
  rw [view, same, bits]
  rfl

theorem bitmapSetMultiple_some (inside : start + cnt ≤ b.bitCnt) :
    ∃ next, b.bitmapSetMultiple start cnt value = some next ∧ next.bitCnt = b.bitCnt := by
  have below : ∀ i ∈ List.range cnt, start + i < b.bitCnt := by
    intro i member
    have := List.mem_range.mp member
    omega
  rw [bitmapSetMultiple]
  generalize List.range cnt = indices at below
  induction indices generalizing b with
  | nil => exact ⟨b, rfl, rfl⟩
  | cons first rest ih =>
      obtain ⟨next, sets, same⟩ : ∃ next, b.bitmapSet (start + first) value = some next ∧ next.bitCnt = b.bitCnt := by
        have here := elemIdx_lt (below first List.mem_cons_self)
        cases value with
        | true => exact ⟨_, if_pos here, rfl⟩
        | false => exact ⟨_, if_pos here, rfl⟩
      obtain ⟨last, goesOn, sameAfter⟩ := ih (b := next) (by rw [same]; exact inside)
        fun i member => same ▸ below i (List.mem_cons_of_mem _ member)
      refine ⟨last, ?_, sameAfter.trans same⟩
      rw [List.foldlM_cons, sets]
      exact goesOn

end ElemBitmap

/-- The calls of `bitmap.c` on one bitmap. -/
inductive BitmapCall where
  | mark (bitIdx : Nat)
  | reset (bitIdx : Nat)
  | flip (bitIdx : Nat)
  | set (idx : Nat) (value : Bool)
  | setMultiple (start cnt : Nat) (value : Bool)
  | setAll (value : Bool)
  | test (idx : Nat)
  | count (start cnt : Nat) (value : Bool)
  | contains (start cnt : Nat) (value : Bool)
  | any (start cnt : Nat)
  | none (start cnt : Nat)
  | all (start cnt : Nat)
  | scan (start cnt : Nat) (value : Bool)
  | scanAndFlip (start cnt : Nat) (value : Bool)
  | read (bytes : List UInt8)
  | write

inductive BitmapAnswer where
  | done
  | bit (value : Bool)
  | number (count : Nat)
  | index (found : Option Nat)
  | file (bytes : List UInt8)

namespace BitmapCall

/-- What the assertions of a call ask, and for `read` no more bytes than the elements have. -/
def Asserted (bitCnt : Nat) : BitmapCall → Prop
  | .mark idx | .reset idx | .flip idx | .set idx _ | .test idx => idx < bitCnt
  | .setMultiple start cnt _ | .count start cnt _ | .contains start cnt _ | .any start cnt | .none start cnt | .all start cnt =>
      start + cnt ≤ bitCnt
  | .scan start _ _ | .scanAndFlip start _ _ => start ≤ bitCnt
  | .read bytes => bytes.length ≤ Bitmap.byteCnt bitCnt
  | .setAll _ | .write => True

end BitmapCall

def ElemBitmap.perform (b : ElemBitmap) : BitmapCall → Option (BitmapAnswer × ElemBitmap)
  | .mark idx => (b.bitmapMark idx).map (.done, ·)
  | .reset idx => (b.bitmapReset idx).map (.done, ·)
  | .flip idx => (b.bitmapFlip idx).map (.done, ·)
  | .set idx value => (b.bitmapSet idx value).map (.done, ·)
  | .setMultiple start cnt value => (b.bitmapSetMultiple start cnt value).map (.done, ·)
  | .setAll value => (b.bitmapSetAll value).map (.done, ·)
  | .test idx => (b.bitmapTest idx).map (.bit ·, b)
  | .count start cnt value => (b.bitmapCount start cnt value).map (.number ·, b)
  | .contains start cnt value => (b.bitmapContains start cnt value).map (.bit ·, b)
  | .any start cnt => (b.bitmapAny start cnt).map (.bit ·, b)
  | .none start cnt => (b.bitmapNone start cnt).map (.bit ·, b)
  | .all start cnt => (b.bitmapAll start cnt).map (.bit ·, b)
  | .scan start cnt value => (b.bitmapScan start cnt value).map (.index ·, b)
  | .scanAndFlip start cnt value => (b.bitmapScanAndFlip start cnt value).map fun result => (.index result.1, result.2)
  | .read bytes => some (.done, b.bitmapRead bytes)
  | .write => some (.file b.bytes, b)

/-- The calls on a sequence of bits. -/
def Bitmap.perform (bitmap : Bitmap) : BitmapCall → Option (BitmapAnswer × Bitmap)
  | .mark idx => (bitmap.bitmapSet idx true).map (.done, ·)
  | .reset idx => (bitmap.bitmapSet idx false).map (.done, ·)
  | .flip idx => (bitmap.bitmapSet idx (!bitmap.bits idx)).map (.done, ·)
  | .set idx value => (bitmap.bitmapSet idx value).map (.done, ·)
  | .setMultiple start cnt value => (bitmap.bitmapSetMultiple start cnt value).map (.done, ·)
  | .setAll value => (bitmap.bitmapSetMultiple 0 bitmap.bitCnt value).map (.done, ·)
  | .test idx => some (.bit (bitmap.bits idx), bitmap)
  | .count start cnt value => some (.number (bitmap.bitmapCount start cnt value), bitmap)
  | .contains start cnt value => some (.bit (bitmap.bitmapContains start cnt value), bitmap)
  | .any start cnt => some (.bit (bitmap.bitmapContains start cnt true), bitmap)
  | .none start cnt => some (.bit (!bitmap.bitmapContains start cnt true), bitmap)
  | .all start cnt => some (.bit (!bitmap.bitmapContains start cnt false), bitmap)
  | .scan start cnt value => some (.index (bitmap.bitmapScan start cnt value), bitmap)
  | .scanAndFlip start cnt value =>
      match bitmap.bitmapScan start cnt value with
      | none => some (.index none, bitmap)
      | some idx => (bitmap.bitmapSetMultiple idx cnt (!value)).map (.index (some idx), ·)
  | .read bytes => some (.done, bitmap.load bytes)
  | .write => some (.file ((List.range (Bitmap.byteCnt bitmap.bitCnt)).map bitmap.byte), bitmap)

namespace ElemBitmap

variable {b : ElemBitmap} {call : BitmapCall} {start cnt idx : Nat} {value : Bool}

/-- A call on the elements is the call on their bits. -/
def Refines (b : ElemBitmap) (call : BitmapCall) : Prop :=
  ∃ answer next, b.perform call = some (answer, next) ∧ b.view.perform call = some (answer, next.view) ∧
    next.bitCnt = b.bitCnt

theorem set_refines {op : Option ElemBitmap} {spec : Option Bitmap} (same : op.map view = spec)
    (runs : ∃ next, op = some next ∧ next.bitCnt = b.bitCnt) : ∃ answer next,
      op.map (BitmapAnswer.done, ·) = some (answer, next) ∧ spec.map (BitmapAnswer.done, ·) = some (answer, next.view) ∧
        next.bitCnt = b.bitCnt := by
  obtain ⟨next, ran, kept⟩ := runs
  subst same
  rw [ran]
  exact ⟨_, next, rfl, rfl, kept⟩

theorem change_some {operation : BitVec 64 → BitVec 64} (inside : idx < b.bitCnt) :
    ∃ next, b.change idx operation = some next ∧ next.bitCnt = b.bitCnt :=
  ⟨_, if_pos (elemIdx_lt inside), rfl⟩

theorem bitmapSet_some (inside : idx < b.bitCnt) : ∃ next, b.bitmapSet idx value = some next ∧ next.bitCnt = b.bitCnt := by
  cases value with
  | true => exact change_some inside
  | false => exact change_some inside

theorem perform_refines (asserted : call.Asserted b.bitCnt) : b.Refines call := by
  cases call with
  | mark idx => exact set_refines (@view_bitmapSet b idx true) (change_some asserted)
  | reset idx => exact set_refines (@view_bitmapSet b idx false) (change_some asserted)
  | flip idx => exact set_refines view_bitmapFlip (change_some asserted)
  | set idx value => exact set_refines view_bitmapSet (bitmapSet_some asserted)
  | setMultiple start cnt value => exact set_refines view_bitmapSetMultiple (bitmapSetMultiple_some asserted)
  | setAll value => exact set_refines view_bitmapSetMultiple (bitmapSetMultiple_some (Nat.le_of_eq (Nat.zero_add _)))
  | test idx => exact ⟨_, b, by rw [perform, bitmapTest_eq asserted]; rfl, rfl, rfl⟩
  | count start cnt value => exact ⟨_, b, by rw [perform, bitmapCount_eq asserted]; rfl, rfl, rfl⟩
  | contains start cnt value => exact ⟨_, b, by rw [perform, bitmapContains_eq asserted]; rfl, rfl, rfl⟩
  | any start cnt => exact ⟨_, b, by rw [perform, bitmapAny, bitmapContains_eq asserted]; rfl, rfl, rfl⟩
  | none start cnt => exact ⟨_, b, by rw [perform, bitmapNone, bitmapContains_eq asserted]; rfl, rfl, rfl⟩
  | all start cnt => exact ⟨_, b, by rw [perform, bitmapAll, bitmapContains_eq asserted]; rfl, rfl, rfl⟩
  | scan start cnt value => exact ⟨_, b, by rw [perform, bitmapScan_eq]; rfl, rfl, rfl⟩
  | scanAndFlip start cnt value =>
      cases found : b.view.bitmapScan start cnt value with
      | none =>
          refine ⟨.index none, b, ?_, ?_, rfl⟩
          · rw [perform, bitmapScanAndFlip, bitmapScan_eq, found]
            rfl
          · rw [Bitmap.perform, found]
      | some idx =>
          have inside : idx + cnt ≤ b.bitCnt := by
            rw [Bitmap.bitmapScan, view_bitCnt] at found
            split_ifs at found with fits
            have member := List.mem_range'_1.mp (List.mem_of_find?_eq_some found)
            omega
          obtain ⟨next, flips, same⟩ := @bitmapSetMultiple_some b idx cnt (!value) inside
          have spec := @view_bitmapSetMultiple b idx cnt (!value)
          rw [flips] at spec
          refine ⟨.index (some idx), next, ?_, ?_, same⟩
          · rw [perform, bitmapScanAndFlip, bitmapScan_eq, found]
            change ((b.bitmapSetMultiple idx cnt (!value)).bind _).map _ = _
            rw [flips]
            rfl
          · rw [Bitmap.perform, found]
            dsimp only
            rw [← spec]
            rfl
  | read bytes =>
      refine ⟨.done, b.bitmapRead bytes, rfl, ?_, ?_⟩
      · rw [view_bitmapRead asserted]
        rfl
      · rw [bitmapRead]
        split_ifs <;> rfl
  | write => exact ⟨_, b, rfl, by rw [Bitmap.perform, bytes_eq]; rfl, rfl⟩

end ElemBitmap

/-- The calls of a list, with their answers. -/
def performAll {State : Type} (perform : State → BitmapCall → Option (BitmapAnswer × State)) :
    List BitmapCall → State → Option (List BitmapAnswer × State)
  | [], state => some ([], state)
  | call :: rest, state => do
      let (answer, state) ← perform state call
      let (answers, state) ← performAll perform rest state
      pure (answer :: answers, state)

theorem ElemBitmap.performAll_refines {b : ElemBitmap} {calls : List BitmapCall}
    (asserted : ∀ call ∈ calls, call.Asserted b.bitCnt) : ∃ answers last,
      performAll ElemBitmap.perform calls b = some (answers, last) ∧
      performAll Bitmap.perform calls b.view = some (answers, last.view) ∧ last.bitCnt = b.bitCnt := by
  induction calls generalizing b with
  | nil => exact ⟨[], b, rfl, rfl, rfl⟩
  | cons call rest ih =>
      obtain ⟨answer, next, runs, spec, same⟩ := perform_refines (asserted call List.mem_cons_self)
      have later : ∀ call ∈ rest, call.Asserted next.bitCnt := by
        intro other member
        rw [same]
        exact asserted other (List.mem_cons_of_mem _ member)
      obtain ⟨answers, last, runsOn, specOn, sameOn⟩ := ih later
      refine ⟨answer :: answers, last, ?_, ?_, sameOn.trans same⟩
      · simp only [performAll, runs, bind, Option.bind, runsOn, pure]
      · simp only [performAll, spec, bind, Option.bind, specOn, pure]

/-- The bytes of a bitmap load its bits. -/
theorem Bitmap.load_byte {bitmap other : Bitmap} {index : Nat} (inside : index < other.bitCnt) (written : index < bitmap.bitCnt) :
    (other.load ((List.range (Bitmap.byteCnt bitmap.bitCnt)).map bitmap.byte)).bits index = bitmap.bits index := by
  have place : index / 8 < Bitmap.byteCnt bitmap.bitCnt := by
    rw [Bitmap.byteCnt, Bitmap.elemCnt]
    omega
  simp only [Bitmap.load, List.getElem?_map, List.getElem?_range place, Option.map_some, Bitmap.testBit_byte, inside,
    decide_true, Bool.and_true, ite_self]

/-- The elements are the bits: every sequence of calls that keeps to the assertions has the answers that a sequence of bits
gives and uses only the elements there are, and what is written is read back into any bitmap of the size. -/
theorem calls_refine_bits (bitCnt : Nat) (calls : List BitmapCall) (asserted : ∀ call ∈ calls, call.Asserted bitCnt) :
    ∃ answers b, performAll ElemBitmap.perform calls (.create bitCnt) = some (answers, b) ∧
      performAll Bitmap.perform calls (Bitmap.bitmapCreate bitCnt) = some (answers, b.view) ∧
      ∀ other : ElemBitmap, other.bitCnt = bitCnt → ∀ index < bitCnt,
        (other.bitmapRead b.bytes).view.bits index = b.view.bits index := by
  obtain ⟨answers, b, runs, spec, same⟩ : ∃ answers b, performAll ElemBitmap.perform calls (.create bitCnt) = some (answers, b) ∧
      performAll Bitmap.perform calls (Bitmap.bitmapCreate bitCnt) = some (answers, b.view) ∧ b.bitCnt = bitCnt := by
    rw [← ElemBitmap.view_create]
    exact ElemBitmap.performAll_refines asserted
  refine ⟨answers, b, runs, spec, fun other size index inside => ?_⟩
  rw [ElemBitmap.view_bitmapRead (by rw [ElemBitmap.length_bytes, same, size]), ElemBitmap.bytes_eq]
  exact Bitmap.load_byte (show index < other.bitCnt by rw [size]; exact inside) (show index < b.bitCnt by rw [same]; exact inside)

/-- Two elements: a group of bits over their border, its count, the next free group, and the bytes. -/
theorem calls_refine_bits_small : ∃ answers b,
    performAll ElemBitmap.perform [.setMultiple 62 4 true, .count 0 70 true, .scanAndFlip 60 3 false, .write] (.create 70) =
        some (answers, b) ∧
      performAll Bitmap.perform [.setMultiple 62 4 true, .count 0 70 true, .scanAndFlip 60 3 false, .write]
        (Bitmap.bitmapCreate 70) = some (answers, b.view) := by
  obtain ⟨answers, b, runs, spec, _⟩ := calls_refine_bits 70
    [.setMultiple 62 4 true, .count 0 70 true, .scanAndFlip 60 3 false, .write] (by simp [BitmapCall.Asserted])
  exact ⟨answers, b, runs, spec⟩

end MockOS.Fs
