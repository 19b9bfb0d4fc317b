import MockOS.Proc.CommandChains
import MockOS.Proc.SectionWords

namespace MockOS.Proc

open Lib (Halt)

/-- An empty last piece is none. -/
def dropEmpty (parts : List CString) : List CString := if parts.getLast? = some [] then parts.dropLast else parts

/-- The pieces of a section between single spaces, from its first other character on. -/
def spacePieces (segment : CString) : List CString := dropEmpty ((segment.dropWhile (· = 32)).splitOn 32)

section Pieces

theorem dropEmpty_cons {parts : List CString} (nonempty : parts ≠ []) (part : CString) :
    dropEmpty (part :: parts) = part :: dropEmpty parts := by
  obtain ⟨next, rest, rfl⟩ := List.exists_cons_of_ne_nil nonempty
  rw [dropEmpty, dropEmpty, List.getLast?_cons_cons]
  split_ifs <;> rfl

theorem splitWords_eq (word text : CString) :
    splitWords word text = dropEmpty ((text.splitOn 32).modifyHead (word.reverse ++ ·)) := by
  induction text generalizing word with
  | nil =>
      cases word with
      | nil => rfl
      | cons char word =>
          simp [splitWords, dropEmpty]
  | cons char rest ih =>
      obtain ⟨head, tail, split⟩ := List.exists_cons_of_ne_nil (List.splitOn_ne_nil 32 rest)
      rw [List.splitOn_cons_eq_if_modifyHead]
      by_cases space : char = 32
      · rw [splitWords, if_pos space, if_pos (by simp [space]), ih [], split]
        simp [dropEmpty_cons]
      · rw [splitWords, if_neg space, if_neg (by simp [space]), ih (char :: word), split]
        simp

theorem words_eq_spacePieces (segment : CString) : words segment = spacePieces segment := by
  rw [words, splitWords_eq, spacePieces]
  obtain ⟨head, tail, split⟩ := List.exists_cons_of_ne_nil (List.splitOn_ne_nil 32 (segment.dropWhile (· = 32)))
  rw [split]
  simp

end Pieces

/-- What `set` leaves in its buffer: the values up to the first that is refused, each but the last value with a space. -/
def bufferText (values : List CString) : CString :=
  if values.all isAlphaNumStr then joined values else (values.takeWhile isAlphaNumStr).flatMap (· ++ [32])

section Buffer

variable {value : CString} {values rest : List CString}

theorem joined_cons (nonempty : rest ≠ []) : joined (value :: rest) = value ++ [32] ++ joined rest := by
  obtain ⟨next, rest, rfl⟩ := List.exists_cons_of_ne_nil nonempty
  simp [joined, List.intercalate]

theorem bufferText_cons (accepted : isAlphaNumStr value = true) (nonempty : rest ≠ []) :
    bufferText (value :: rest) = value ++ [32] ++ bufferText rest := by
  rw [bufferText, bufferText, List.all_cons, accepted, Bool.true_and, List.takeWhile_cons_of_pos accepted, List.flatMap_cons,
    joined_cons nonempty]
  split_ifs <;> rfl

/-- The values fit when the text they leave does. -/
theorem fillBuffer_spec (buffer : CString) (room : buffer.length ≤ 504) (values : List CString) :
    fillBuffer buffer values = if (buffer ++ bufferText values).length ≤ 504 then
      .ok (if values.all isAlphaNumStr then some (buffer ++ joined values) else none) else .error .undefined := by
  induction values generalizing buffer with
  | nil =>
      have nothing : buffer ++ bufferText [] = buffer := List.append_nil buffer
      have none' : buffer ++ joined [] = buffer := List.append_nil buffer
      rw [nothing, if_pos room, List.all_nil, if_pos rfl, none']
      rfl
  | cons value rest ih =>
      rw [fillBuffer]
      by_cases accepted : isAlphaNumStr value = true
      · rw [accepted, Bool.not_true, if_neg (by simp), List.all_cons, accepted, Bool.true_and]
        by_cases last : rest = []
        · subst last
          have alone : bufferText [value] = value := by rw [bufferText, if_pos (by simp [accepted])]; simp [joined]
          have same : joined [value] = value := by simp [joined]
          rw [alone, same, if_pos rfl, List.all_nil, if_pos rfl]
          split_ifs <;> first | rfl | omega
        · have sizes : (buffer ++ (value ++ [32] ++ bufferText rest)).length =
              buffer.length + value.length + 1 + (bufferText rest).length := by
            simp only [List.length_append, List.length_singleton]
            omega
          rw [bufferText_cons accepted last, joined_cons last, if_neg last, sizes]
          by_cases fits : buffer.length + value.length + 1 ≤ 504
          · have shorter : (buffer ++ value ++ [32]).length ≤ 504 := by
              rw [List.length_append, List.length_append, List.length_singleton]
              exact fits
            have same : (buffer ++ value ++ [32] ++ bufferText rest).length =
                buffer.length + value.length + 1 + (bufferText rest).length := by
              simp only [List.length_append, List.length_singleton]
            rw [if_neg (by rw [List.length_append]; omega), if_neg (by omega), ih _ shorter, same]
            simp only [List.append_assoc]
          · rw [if_neg (show ¬ buffer.length + value.length + 1 + (bufferText rest).length ≤ 504 by omega)]
            by_cases valueFits : 505 ≤ (buffer ++ value).length
            · rw [if_pos valueFits]
            · have longer : 505 ≤ (buffer ++ value ++ [32]).length := by
                rw [List.length_append, List.length_append, List.length_singleton]
                omega
              rw [if_neg valueFits, if_pos longer]
      · have nothing : bufferText (value :: rest) = [] := by
          rw [bufferText, if_neg (by simp [accepted]), List.takeWhile_cons_of_neg accepted]
          rfl
        rw [nothing, List.append_nil, if_pos room, if_pos (by simpa using accepted), if_neg (by simp [accepted])]

end Buffer

/-- The words of the section stay in their arrays and the values of its `set` in the buffer. -/
def StaysInside (segment : CString) : Prop :=
  ∃ rounds, ∀ fuel, rounds ≤ fuel → ∃ args set, splitSection fuel segment = .ok args ∧ setCommand args = .ok set

/-- What the arrays ask of a section: at most 100 words, and values of at most 504 characters to join. -/
structure FitsArrays (pieces : List CString) : Prop where
  words : pieces.length ≤ 100
  values : ∀ var value values, pieces.map stripped = command ['s', 'e', 't'] :: var :: value :: values →
    isAlphaNumStr var = true → (bufferText (value :: values)).length ≤ 504

/-- The buffer of an accepted `set` holds the value that `interpreter` assigns. -/
theorem setCommand_interpreter {World : Type} {args : List CString} {var value : CString} (files : FileCommands World)
    (world : World) (accepted : setCommand args = .ok (some (var, value))) :
    interpreter files args world = some ⟨0, [.set var value], world⟩ := by
  rw [setCommand] at accepted
  split at accepted
  · rename_i name var' value' values same
    split_ifs at accepted with isSet
    · rw [fillBuffer_spec [] (by decide)] at accepted
      split_ifs at accepted with fits all
      · obtain ⟨rfl, rfl⟩ : var' = var ∧ joined (value' :: values) = value := by simpa [Except.map] using accepted
        have notSet : command ['s', 'e', 't'] ≠ command ['h', 'e', 'l', 'p'] ∧
            ¬ (command ['s', 'e', 't'] = command ['q', 'u', 'i', 't'] ∨ command ['s', 'e', 't'] = command ['e', 'x', 'i', 't']) := by
          decide
        simp only [interpreter, same, isSet.1, if_neg notSet.1, if_neg notSet.2, if_true, isSet.2, all, Bool.not_true,
          Bool.false_eq_true, if_false]
      · simp [Except.map] at accepted
      · simp [Except.map] at accepted
    · simp at accepted
  · simp at accepted

theorem setCommand_ok_iff (args : List CString) :
    (∃ set, setCommand args = .ok set) ↔ ∀ var value values, args.map stripped = command ['s', 'e', 't'] :: var :: value :: values →
      isAlphaNumStr var = true → (bufferText (value :: values)).length ≤ 504 := by
  rw [setCommand]
  split
  · rename_i name var value values same
    by_cases isSet : name = command ['s', 'e', 't'] ∧ isAlphaNumStr var
    · rw [if_pos isSet, fillBuffer_spec [] (by decide), List.nil_append]
      constructor
      · intro ⟨set, accepted⟩ var' value' values' same' _
        obtain ⟨-, -, rfl, rfl⟩ : name = _ ∧ var = var' ∧ value = value' ∧ values = values' := by simpa [same] using same'
        by_contra long
        rw [if_neg long] at accepted
        simp [Except.map] at accepted
      · intro fits
        rw [if_pos (fits var value values (by rw [same, isSet.1]) isSet.2)]
        exact ⟨_, rfl⟩
    · rw [if_neg isSet]
      refine iff_of_true ⟨none, rfl⟩ fun var' value' values' same' alphaNum => ?_
      obtain ⟨rfl, rfl, -⟩ : name = _ ∧ var = var' ∧ value = value' ∧ values = values' := by simpa [same] using same'
      exact absurd ⟨rfl, alphaNum⟩ isSet
  · rename_i other
    exact iff_of_true ⟨none, rfl⟩ fun var value values same _ => absurd same (other _ var value values)

theorem StaysInside.fits {ui segment : CString} (short : ui.length ≤ 998) (nulFree : 0 ∉ ui) (member : segment ∈ tokens ui)
    (inside : StaysInside segment) : FitsArrays (spacePieces segment) := by
  rw [← words_eq_spacePieces]
  obtain ⟨rounds, inside⟩ := inside
  obtain ⟨args, set, split, accepted⟩ := inside _ (le_max_left rounds segment.length)
  rw [splitSection_words short nulFree member (le_max_right _ _)] at split
  split_ifs at split with few
  obtain rfl : words segment = args := Except.ok.inj split
  exact ⟨few, (setCommand_ok_iff _).mp ⟨set, accepted⟩⟩

theorem staysInside_iff {ui segment : CString} (short : ui.length ≤ 998) (nulFree : 0 ∉ ui) (member : segment ∈ tokens ui) :
    StaysInside segment ↔ FitsArrays (spacePieces segment) := by
  refine ⟨StaysInside.fits short nulFree member, fun fits => ?_⟩
  rw [← words_eq_spacePieces] at fits
  obtain ⟨set, accepted⟩ := (setCommand_ok_iff _).mpr fits.values
  refine ⟨segment.length, fun fuel enough => ⟨words segment, set, ?_, accepted⟩⟩
  rw [splitSection_words short nulFree member enough, if_pos fits.words]

/-- The line `set x 5`. -/
theorem staysInside_set : StaysInside (.ofChars ['s', 'e', 't', ' ', 'x', ' ', '5']) := by
  refine (staysInside_iff (show (CString.ofChars ['s', 'e', 't', ' ', 'x', ' ', '5']).length ≤ 998 by decide) (by decide)
    (by decide)).mpr ⟨by decide, fun var value values same _ => ?_⟩
  have parts : (spacePieces (.ofChars ['s', 'e', 't', ' ', 'x', ' ', '5'])).map stripped = [[115, 101, 116], [120], [53]] := by decide
  obtain ⟨-, -, rfl, rfl⟩ : _ ∧ [120] = var ∧ [53] = value ∧ [] = values := by simpa [parts] using same
  decide

section Long

variable (count : Nat)

/-- A line of many words. -/
def wordLine : CString := (List.replicate count [120, 32]).flatten

/-- `set x` with a value of many digits. -/
def setLine : CString := CString.ofChars ['s', 'e', 't', ' ', 'x', ' '] ++ List.replicate count 49

theorem splitWords_wordLine : splitWords [] (wordLine count) = List.replicate count [120] := by
  induction count with
  | zero => rfl
  | succ count ih =>
      rw [wordLine, List.replicate_succ, List.flatten_cons, List.replicate_succ, ← ih]
      rfl

theorem spacePieces_wordLine : spacePieces (wordLine count) = List.replicate count [120] := by
  rw [← words_eq_spacePieces, words, ← splitWords_wordLine]
  cases count <;> rfl

theorem splitWords_digits (word : CString) : splitWords word (List.replicate (count + 1) 49) = [word.reverse ++ List.replicate (count + 1) 49] := by
  induction count generalizing word with
  | zero =>
      rw [List.replicate_one, splitWords, if_neg (by decide), splitWords, List.reverse_cons]
      exact List.cons_ne_nil 49 word
  | succ count ih =>
      rw [List.replicate_succ, splitWords, if_neg (by decide), ih (49 :: word)]
      simp [List.replicate_succ]

theorem spacePieces_setLine : spacePieces (setLine (count + 1)) =
    [CString.ofChars ['s', 'e', 't'], CString.ofChars ['x'], List.replicate (count + 1) 49] := by
  have digits := splitWords_digits count []
  rw [← words_eq_spacePieces]
  exact congrArg (fun rest => CString.ofChars ['s', 'e', 't'] :: CString.ofChars ['x'] :: rest) digits

theorem mem_tokens_wordLine : wordLine (count + 1) ∈ tokens (wordLine (count + 1)) := by
  rw [tokens_single (by simp [wordLine, List.replicate_succ]) (by simp [wordLine])]
  exact List.mem_singleton_self _

theorem mem_tokens_setLine : setLine count ∈ tokens (setLine count) := by
  rw [tokens_single (by simp [setLine, CString.ofChars]) (by simp [setLine, CString.ofChars])]
  exact List.mem_singleton_self _

theorem length_wordLine : (wordLine count).length = count * 2 := by simp [wordLine]

theorem length_setLine : (setLine count).length = count + 6 := by simp [setLine, CString.ofChars]

theorem nulFree_wordLine : 0 ∉ wordLine count := by simp [wordLine]

theorem nulFree_setLine : 0 ∉ setLine count := by simp [setLine, CString.ofChars]

theorem many_words_overflow (many : 100 ≤ count) (short : (count + 1) * 2 ≤ 998) : ¬ StaysInside (wordLine (count + 1)) := by
  intro inside
  have few := (inside.fits ((length_wordLine _).trans_le short) (nulFree_wordLine _) (mem_tokens_wordLine count)).words
  rw [spacePieces_wordLine, List.length_replicate] at few
  omega

theorem long_value_overflow (long : 504 ≤ count) (short : count + 7 ≤ 998) : ¬ StaysInside (setLine (count + 1)) := by
  intro inside
  have size : (setLine (count + 1)).length ≤ 998 := by rw [length_setLine]; omega
  have fits := inside.fits size (nulFree_setLine _) (mem_tokens_setLine (count + 1))
  have digit : isAlphaNumStr (List.replicate (count + 1) 49) = true := by
    simp only [isAlphaNumStr, List.all_replicate]
    simp [List.replicate_succ]
    decide
  have kept : stripped (List.replicate (count + 1) 49) = List.replicate (count + 1) 49 := by
    rw [stripped, List.takeWhile_replicate, if_pos (by decide)]
  have text := fits.values (.ofChars ['x']) (List.replicate (count + 1) 49) []
    (by rw [spacePieces_setLine, List.map_cons, List.map_cons, List.map_cons, kept]; rfl) (by decide)
  rw [bufferText, if_pos (by simp [digit])] at text
  simp [joined] at text
  omega

end Long

/-- A line of 101 words, and a `set` whose value has 600 digits. -/
theorem staysInside_refuted :
    (∃ ui segment : CString, ui.length ≤ 998 ∧ 0 ∉ ui ∧ segment ∈ tokens ui ∧ ¬ StaysInside segment ∧ ui = wordLine 101) ∧
    (∃ ui segment : CString, ui.length ≤ 998 ∧ 0 ∉ ui ∧ segment ∈ tokens ui ∧ ¬ StaysInside segment ∧ ui = setLine 600) :=
  ⟨⟨wordLine 101, wordLine 101, by rw [length_wordLine]; decide, nulFree_wordLine 101, mem_tokens_wordLine 100,
      many_words_overflow 100 (by decide) (by decide), rfl⟩,
    ⟨setLine 600, setLine 600, by rw [length_setLine]; decide, nulFree_setLine 600, mem_tokens_setLine 600,
      long_value_overflow 599 (by decide) (by decide), rfl⟩⟩

end MockOS.Proc
