import MockOS.Proc.WordSplitting

namespace MockOS.Proc

open Lib (Halt)

/-- The maximal runs of characters other than the space. -/
def runs (text : CString) : List CString := (text.splitOnP (· == 32)).filter (· ≠ [])

theorem runs_space (text : CString) : runs (32 :: text) = runs text := by
  simp [runs, List.splitOnP_cons_eq_if_modifyHead]

theorem runs_dropWhile (text : CString) : runs (text.dropWhile (· = 32)) = runs text := by
  induction text with
  | nil => rfl
  | cons char rest ih =>
      by_cases space : char = 32
      · rw [List.dropWhile_cons, if_pos (by simp [space]), ih, space, runs_space]
      · rw [List.dropWhile_cons, if_neg (by simp [space])]

/-- The words are the runs with an empty word for each space that ends no run. -/
theorem filter_splitWords (word text : CString) :
    (splitWords word text).filter (· ≠ []) =
      (((text.splitOnP (· == 32)).modifyHead (word.reverse ++ ·)).filter (· ≠ [])) := by
  induction text generalizing word with
  | nil => cases word <;> simp [splitWords]
  | cons char rest ih =>
      obtain ⟨head, tail, split⟩ := List.exists_cons_of_ne_nil (List.splitOnP_ne_nil (· == 32) rest)
      rw [List.splitOnP_cons_eq_if_modifyHead]
      by_cases space : char = 32
      · rw [splitWords, if_pos space, if_pos (by simp [space]), List.filter_cons, ih [], split]
        simp [List.filter_cons]
      · rw [splitWords, if_neg space, if_neg (by simp [space]), ih (char :: word), split]
        simp

theorem filter_words (segment : CString) : (words segment).filter (· ≠ []) = runs segment := by
  rw [words, filter_splitWords, ← runs_dropWhile segment, runs]
  obtain ⟨head, tail, split⟩ := List.exists_cons_of_ne_nil (List.splitOnP_ne_nil (· == 32) (segment.dropWhile (· = 32)))
  rw [split]
  simp

theorem pair_infix_cons (char : UInt8) (rest : CString) :
    [32, 32] <:+: char :: rest ↔ (char = 32 ∧ rest.head? = some 32) ∨ [32, 32] <:+: rest := by
  rw [List.infix_cons_iff]
  cases rest with
  | nil => exact or_congr_left (by simp [List.cons_prefix_cons])
  | cons next rest =>
      simp only [List.cons_prefix_cons, List.nil_prefix, and_true, List.head?_cons, Option.some_inj]
      rw [@eq_comm _ 32 char, @eq_comm _ 32 next]

/-- A word is empty where the text starts with a space or a space follows another one. -/
theorem nil_mem_splitWords (word text : CString) :
    [] ∈ splitWords word text ↔ (word = [] ∧ text.head? = some 32) ∨ [32, 32] <:+: text := by
  induction text generalizing word with
  | nil => cases word <;> simp [splitWords]
  | cons char rest ih =>
      rw [pair_infix_cons]
      by_cases space : char = 32
      · rw [splitWords, if_pos space, List.mem_cons, ih []]
        simp only [List.head?_cons, space, true_and, and_true, @eq_comm _ [] word.reverse, List.reverse_eq_nil_iff]
      · rw [splitWords, if_neg space, ih (char :: word)]
        simp [space]

theorem nil_mem_words (segment : CString) : [] ∈ words segment ↔ [32, 32] <:+: segment.dropWhile (· = 32) := by
  rw [words, nil_mem_splitWords]
  refine or_iff_right fun ⟨_, first⟩ => ?_
  have fails := List.head?_dropWhile_not (fun char : UInt8 => decide (char = 32)) segment
  rw [first] at fails
  simp at fails

/-- The words are the runs exactly when no space after the first word follows another one. -/
theorem words_eq_runs_iff (segment : CString) :
    words segment = runs segment ↔ ¬ [32, 32] <:+: segment.dropWhile (· = 32) := by
  rw [← nil_mem_words, ← filter_words, eq_comm, List.filter_eq_self]
  exact ⟨fun all empty => by simpa using all _ empty, fun free word member => by
    simpa using ne_of_mem_of_not_mem member free⟩

section Tokens

variable {ui segment : CString}

theorem splitOn_parts (text : CString) : ∃ head tail, text.splitOn 59 = head :: tail ∧ head <+: text ∧
    ∀ part ∈ tail, part <:+: text := by
  induction text with
  | nil => exact ⟨[], [], List.splitOn_nil 59, List.prefix_rfl, by simp⟩
  | cons char rest ih =>
      obtain ⟨head, tail, split, first, later⟩ := ih
      rw [List.splitOn_cons_eq_if_modifyHead, split]
      have longer := fun part member => List.infix_cons (a := char) (later part member)
      by_cases semicolon : char == 59
      · rw [if_pos semicolon]
        exact ⟨[], head :: tail, rfl, List.nil_prefix,
          List.forall_mem_cons.mpr ⟨List.infix_cons first.isInfix, longer⟩⟩
      · rw [if_neg semicolon]
        exact ⟨char :: head, tail, rfl, List.cons_prefix_cons.mpr ⟨rfl, first⟩, longer⟩

theorem tokens_part (member : segment ∈ tokens ui) : segment <:+: ui := by
  obtain ⟨head, tail, split, first, later⟩ := splitOn_parts ui
  rw [tokens, split] at member
  rcases List.mem_cons.mp (List.mem_of_mem_filter member) with same | inTail
  · exact same ▸ first.isInfix
  · exact later segment inTail

theorem tokens_length (member : segment ∈ tokens ui) : segment.length ≤ ui.length := (tokens_part member).length_le

theorem tokens_nulFree (nulFree : 0 ∉ ui) (member : segment ∈ tokens ui) : 0 ∉ segment :=
  fun nul => nulFree ((tokens_part member).subset nul)

theorem splitSection_words (short : ui.length ≤ 998) (nulFree : 0 ∉ ui) (member : segment ∈ tokens ui) {fuel : Nat}
    (enough : segment.length ≤ fuel) :
    splitSection fuel segment = if (words segment).length ≤ 100 then .ok (words segment) else .error .undefined := by
  have size := tokens_length member
  exact splitSection_spec (by rw [maxUserInput]; omega) (tokens_nulFree nulFree member) enough

end Tokens

/-- The words that reach `interpreter` are the runs of the section. -/
def Tokenized (segment : CString) : Prop := ∃ rounds, ∀ fuel, rounds ≤ fuel → splitSection fuel segment = .ok (runs segment)

theorem tokenized_iff {ui segment : CString} (short : ui.length ≤ 998) (nulFree : 0 ∉ ui) (member : segment ∈ tokens ui) :
    Tokenized segment ↔ ¬ [32, 32] <:+: segment.dropWhile (· = 32) ∧ (runs segment).length ≤ 100 := by
  rw [← words_eq_runs_iff]
  constructor
  · intro ⟨rounds, splits⟩
    have split := splits _ (le_max_left rounds segment.length)
    rw [splitSection_words short nulFree member (le_max_right _ _)] at split
    split_ifs at split with few
    have same : words segment = runs segment := Except.ok.inj split
    exact ⟨same, same ▸ few⟩
  · intro ⟨same, few⟩
    refine ⟨segment.length, fun fuel enough => ?_⟩
    rw [splitSection_words short nulFree member enough, same, if_pos few]

/-- Spaces in front and behind, and single ones between, make no word. -/
theorem tokenized_spaced : Tokenized (.ofChars [' ', ' ', 's', 'e', 't', ' ', 'x', ' ', '5', ' ']) :=
  (tokenized_iff (show (CString.ofChars [' ', ' ', 's', 'e', 't', ' ', 'x', ' ', '5', ' ', ';', 'l', 's']).length ≤ 998 by decide)
    (by decide) (by decide)).mpr (by decide)

/-- Two spaces between `print` and its argument make a third word. -/
theorem tokenized_doubled : ∃ ui segment : CString, ui.length ≤ 998 ∧ 0 ∉ ui ∧ segment ∈ tokens ui ∧
    (∃ char ∈ segment, char ≠ 32) ∧ ¬ Tokenized segment := by
  obtain ⟨line, lineEq⟩ : ∃ line, line = CString.ofChars ['p', 'r', 'i', 'n', 't', ' ', ' ', 'x'] := ⟨_, rfl⟩
  have short : line.length ≤ 998 := by rw [lineEq]; decide
  have nulFree : 0 ∉ line := by rw [lineEq]; decide
  have member : line ∈ tokens line := by rw [lineEq]; decide
  refine ⟨line, line, short, nulFree, member, ⟨112, by rw [lineEq]; decide, by decide⟩, fun ⟨rounds, splits⟩ => ?_⟩
  have split := splits _ (le_max_left rounds line.length)
  rw [splitSection_words short nulFree member (le_max_right _ _)] at split
  split_ifs at split
  have same : words line = runs line := Except.ok.inj split
  exact absurd (congrArg List.length same) (by rw [lineEq]; decide)

end MockOS.Proc
