import Mathlib.Logic.Function.Basic
import Mathlib.Data.Nat.Bitwise
import Mathlib.Tactic.Common

namespace MockOS.Lib.PackedBits

variable {w : Nat} {words : List (BitVec w)} {index : Nat}

/-- The bits of a list of words, each with its lowest bit first. -/
def bit (words : List (BitVec w)) (index : Nat) : Bool := (words[index / w]?.getD 0#w).getLsbD (index % w)

/-- A word with only the bit of the index set. -/
def mask (w index : Nat) : BitVec w := 1#w <<< (index % w)

theorem getLsbD_mask (positive : 0 < w) (index lane : Nat) : (mask w index).getLsbD lane = decide (lane = index % w) := by
  have below := Nat.mod_lt index positive
  rw [mask, BitVec.getLsbD_shiftLeft, BitVec.getLsbD_one]
  by_cases same : lane = index % w
  · simp [same, below, positive]
  · by_cases before : lane < index % w
    · simp [before, same]
    · have apart : lane - index % w ≠ 0 := by omega
      simp [apart, same]

/-- A change of one word that changes one of its bits changes that bit alone. -/
theorem bit_modify (positive : 0 < w) (inside : index / w < words.length) (change : BitVec w → BitVec w) (value : Bool → Bool)
    (changes : ∀ word lane, lane < w →
      (change word).getLsbD lane = if lane = index % w then value (word.getLsbD lane) else word.getLsbD lane) :
    bit (words.modify (index / w) change) = Function.update (bit words) index (value (bit words index)) := by
  funext other
  have lane := Nat.mod_lt other positive
  rw [Function.update_apply, bit, List.getElem?_modify]
  by_cases word : index / w = other / w
  · obtain ⟨content, here⟩ : ∃ content, words[other / w]? = some content :=
      ⟨_, List.getElem?_eq_getElem (word ▸ inside)⟩
    simp only [if_pos word, here, Option.map_eq_map, Option.map_some, Option.getD_some, changes _ _ lane]
    by_cases same : other = index
    · rw [if_pos (by rw [same]), if_pos same, bit, ← same, here, Option.getD_some]
    · have lanes : other % w ≠ index % w := by
        intro lanes
        exact same (by rw [← Nat.div_add_mod other w, ← Nat.div_add_mod index w, word, lanes])
      rw [if_neg lanes, if_neg same, bit, here, Option.getD_some]
  · simp only [if_neg word, if_neg fun same : other = index => word (by rw [same]), bit, id_map']

theorem bit_mark (positive : 0 < w) (inside : index / w < words.length) :
    bit (words.modify (index / w) (· ||| mask w index)) = Function.update (bit words) index true := by
  apply bit_modify positive inside (· ||| mask w index) (fun _ => true)
  intro word lane _
  rw [BitVec.getLsbD_or, getLsbD_mask positive]
  by_cases here : lane = index % w <;> simp [here]

theorem bit_reset (positive : 0 < w) (inside : index / w < words.length) :
    bit (words.modify (index / w) (· &&& ~~~mask w index)) = Function.update (bit words) index false := by
  apply bit_modify positive inside (· &&& ~~~mask w index) (fun _ => false)
  intro word lane below
  rw [BitVec.getLsbD_and, BitVec.getLsbD_not, getLsbD_mask positive]
  by_cases here : lane = index % w <;> simp [here, below]

theorem bit_flip (positive : 0 < w) (inside : index / w < words.length) :
    bit (words.modify (index / w) (· ^^^ mask w index)) = Function.update (bit words) index (!bit words index) := by
  apply bit_modify positive inside (· ^^^ mask w index) (fun value => !value)
  intro word lane _
  rw [BitVec.getLsbD_xor, getLsbD_mask positive]
  by_cases here : lane = index % w <;> simp [here]

/-- The bit is read through the mask. -/
theorem and_mask_ne_zero (positive : 0 < w) (word : BitVec w) (index : Nat) :
    (word &&& mask w index != 0#w) = word.getLsbD (index % w) := by
  have below := Nat.mod_lt index positive
  have lane : (word &&& mask w index).getLsbD (index % w) = word.getLsbD (index % w) := by
    rw [BitVec.getLsbD_and, getLsbD_mask positive]
    simp
  cases value : word.getLsbD (index % w) with
  | true =>
      rw [bne_iff_ne]
      intro zero
      rw [zero, value] at lane
      simp at lane
  | false =>
      rw [bne_eq_false_iff_eq]
      apply BitVec.eq_of_getLsbD_eq
      intro other _
      rw [BitVec.getLsbD_and, getLsbD_mask positive]
      by_cases here : other = index % w <;> simp [here, value]

/-- The word with only its first `n` bits set. -/
theorem getLsbD_lowMask {n : Nat} (below : n < w) (lane : Nat) :
    ((1#w <<< n) - 1#w).getLsbD lane = decide (lane < n) := by
  have large : 2 ^ n < 2 ^ w := Nat.pow_lt_pow_right (by decide) below
  have unit : (1#w).toNat = 1 := by
    rw [BitVec.toNat_ofNat]
    exact Nat.mod_eq_of_lt (Nat.lt_of_le_of_lt Nat.one_le_two_pow large)
  have shifted : (1#w <<< n).toNat = 2 ^ n := by
    rw [BitVec.toNat_shiftLeft, unit, Nat.one_shiftLeft, Nat.mod_eq_of_lt large]
  have value : ((1#w <<< n) - 1#w).toNat = 2 ^ n - 1 := by
    rw [BitVec.toNat_sub_of_le, shifted, unit]
    rw [BitVec.le_def, shifted, unit]
    exact Nat.one_le_two_pow
  rw [BitVec.getLsbD, value, Nat.testBit_two_pow_sub_one]

end MockOS.Lib.PackedBits
