import Mathlib.Data.List.TakeWhile
import Mathlib.Tactic.Common

namespace MockOS

/-- The bytes of a C string before its terminator. -/
abbrev CString := List UInt8

def CString.ofChars (chars : List Char) : CString :=
  chars.map fun char => UInt8.ofNat char.toNat

/-- `strdup` copies up to the first zero byte. -/
def strdup (bytes : List UInt8) : CString := bytes.takeWhile (· ≠ 0)

/-- `str[a]`, with the terminator behind the text. -/
def charAt (str : CString) (a : Nat) : UInt8 := str.getD a 0

theorem charAt_eq (str : CString) (a : Nat) : charAt str a = (str.drop a).headD 0 := by
  rw [charAt, List.getD_eq_getElem?_getD, List.headD_eq_head?_getD, List.head?_drop]

theorem drop_succ {str rest : CString} {a : Nat} {char : UInt8} (here : str.drop a = char :: rest) : str.drop (a + 1) = rest := by
  rw [← List.tail_drop, here, List.tail_cons]

/-- `strncpy` stops at the terminator and fills the rest of the field with zeros. -/
def strncpy (source : CString) (size : Nat) : List UInt8 :=
  (strdup source).take size ++ List.replicate (size - (strdup source).length) 0

theorem length_strncpy (source : CString) (size : Nat) : (strncpy source size).length = size := by
  simp only [strncpy, List.length_append, List.length_take, List.length_replicate]
  omega

theorem strdup_of_nul_free {source : CString} (nulFree : 0 ∉ source) : strdup source = source := by
  apply List.takeWhile_eq_self_iff.mpr
  intro byte member
  simpa using ne_of_mem_of_not_mem member nulFree

/-- A field that has room for the terminator gives the string back. -/
theorem strdup_strncpy {source : CString} {size : Nat} (nulFree : 0 ∉ source) (short : source.length < size) :
    strdup (strncpy source size) = source := by
  obtain ⟨rest, more⟩ : ∃ rest, size - source.length = rest + 1 := ⟨size - source.length - 1, by omega⟩
  rw [strncpy, strdup_of_nul_free nulFree, List.take_of_length_le (by omega), more, List.replicate_succ, strdup,
    List.takeWhile_append_of_pos]
  · simp
  · intro byte member
    simpa using ne_of_mem_of_not_mem member nulFree

theorem ofChars_digits {chars : List Char} (digits : ∀ char ∈ chars, char.isDigit) :
    ∀ byte ∈ CString.ofChars chars, 48 ≤ byte.toNat ∧ byte.toNat ≤ 57 := by
  intro byte member
  obtain ⟨char, inside, rfl⟩ := List.mem_map.mp member
  have digit := digits char inside
  simp only [Char.isDigit, Bool.and_eq_true, decide_eq_true_eq] at digit
  have low : 48 ≤ char.toNat := by simpa using UInt32.le_iff_toNat_le.mp digit.1
  have high : char.toNat ≤ 57 := by simpa using UInt32.le_iff_toNat_le.mp digit.2
  simp only [UInt8.toNat_ofNat']
  omega

/-- The digits of a number give it back. -/
theorem ofChars_toDigits_injective {first second : Nat}
    (same : CString.ofChars (Nat.toDigits 10 first) = CString.ofChars (Nat.toDigits 10 second)) : first = second := by
  have back : ∀ number : Nat, (CString.ofChars (Nat.toDigits 10 number)).map (fun byte => Char.ofNat byte.toNat) =
      Nat.toDigits 10 number := by
    intro number
    rw [CString.ofChars, List.map_map]
    conv_rhs => rw [← List.map_id (Nat.toDigits 10 number)]
    apply List.map_congr_left
    intro char member
    have digit := Nat.isDigit_of_mem_toDigits (by decide) (by decide) member
    simp only [Char.isDigit, Bool.and_eq_true, decide_eq_true_eq] at digit
    have high : char.toNat ≤ 57 := by simpa using UInt32.le_iff_toNat_le.mp digit.2
    rw [Function.comp_apply, UInt8.toNat_ofNat', Nat.mod_eq_of_lt (by omega), Char.ofNat_toNat]
    rfl
  have digits : Nat.toDigits 10 first = Nat.toDigits 10 second := by rw [← back, same, back]
  rw [← Nat.ofDigitChars_toDigits (by decide : 1 < 10) (by decide) (n := first), digits, Nat.ofDigitChars_toDigits (by decide) (by decide)]

/-- The parts of a split hold elements of the list other than the separator. -/
theorem mem_splitOn {A : Type} [BEq A] [LawfulBEq A] {separator value : A} {list part : List A}
    (member : part ∈ list.splitOn separator) (inside : value ∈ part) : value ∈ list ∧ value ≠ separator := by
  induction list generalizing part with
  | nil =>
      rw [List.splitOn_nil, List.mem_singleton] at member
      rw [member] at inside
      cases inside
  | cons first rest ih =>
      rw [List.splitOn_cons_eq_if_modifyHead] at member
      split_ifs at member with same
      · rcases List.mem_cons.mp member with rfl | later
        · cases inside
        · exact ⟨List.mem_cons_of_mem _ (ih later inside).1, (ih later inside).2⟩
      · cases split : rest.splitOn separator with
        | nil => exact absurd split (List.splitOn_ne_nil _ _)
        | cons head tail =>
            rw [split] at member ih
            rcases List.mem_cons.mp member with rfl | later
            · rcases List.mem_cons.mp inside with rfl | later
              · exact ⟨List.mem_cons_self, by simpa using same⟩
              · have both := ih List.mem_cons_self later
                exact ⟨List.mem_cons_of_mem _ both.1, both.2⟩
            · have both := ih (List.mem_cons_of_mem _ later) inside
              exact ⟨List.mem_cons_of_mem _ both.1, both.2⟩

end MockOS
