import MockOS.A2.Parsing

namespace MockOS.A2

open Lib

variable {World : Type} {ui rest : CString} {a fuel : Nat}

/-- A scan of spaces ends behind them. -/
theorem whileLoop_spaces {finished : Nat → Bool} (ends : ∀ a, charAt ui a ≠ 32 → finished a = true)
    (continues : ∀ a < ui.length, charAt ui a = 32 → finished a = false) (here : ui.drop a = rest)
    (enough : rest.length ≤ fuel) :
    ∃ last, whileLoop finished advanceChar fuel a = .ok last ∧ ui.drop last = rest.dropWhile (· == 32) := by
  induction rest generalizing a fuel with
  | nil => exact ⟨a, whileLoop_finished (ends a (by rw [charAt_eq, here]; decide)) _, here⟩
  | cons char rest ih =>
      have read : charAt ui a = char := by rw [charAt_eq, here]; rfl
      by_cases space : char = 32
      · have inside : a < ui.length := by
          have size := congrArg List.length here
          rw [List.length_drop, List.length_cons] at size
          omega
        obtain ⟨less, rfl⟩ : ∃ less, fuel = less + 1 := ⟨fuel - 1, by rw [List.length_cons] at enough; omega⟩
        rw [whileLoop_succ (continues a inside (read.trans space)) (show advanceChar a = .ok (a + 1) from rfl), List.dropWhile_cons, if_pos (by simp [space])]
        exact ih (drop_succ here) (by simpa using enough)
      · rw [List.dropWhile_cons, if_neg (by simp [space])]
        exact ⟨a, whileLoop_finished (ends a (by rwa [read])) _, here⟩

theorem skipSpaces_spec (enough : ui.length ≤ fuel) (a : Nat) :
    ∃ last, skipSpaces fuel ui a = .ok last ∧ ui.drop last = (ui.drop a).dropWhile (· == 32) :=
  whileLoop_spaces (fun a other => by simpa using other) (fun a _ space => by simp [space]) rfl
    (by rw [List.length_drop]; omega)

theorem skipWhiteSpaces_spec (short : ui.length < 1000) (enough : ui.length ≤ fuel) (a : Nat) :
    ∃ last, skipWhiteSpaces fuel ui a = .ok last ∧ ui.drop last = (ui.drop a).dropWhile (· == 32) :=
  whileLoop_spaces (fun a other => by simp [other]) (fun a inside space => by simp [space]; omega) rfl
    (by rw [List.length_drop]; omega)

/-- A word is copied as far as it fits `tmp`. -/
theorem whileLoop_copyWord (short : ui.length < 1000) {word tmp : CString} (plain : ∀ char ∈ word, endsWord char = false)
    (ends : endsWord (rest.headD 0) = true) (here : ui.drop a = word ++ rest) (enough : word.length ≤ fuel)
    (started : tmp.length ≤ 200) :
    whileLoop (wordEnded ui) (copyChar ui) fuel (a, tmp) =
      if tmp.length + word.length ≤ 200 then .ok (a + word.length, tmp ++ word) else .error .undefined := by
  induction word generalizing a fuel tmp with
  | nil =>
      have stop : endsWord (charAt ui a) = true := by rw [charAt_eq, here]; exact ends
      rw [whileLoop_finished (by simp [wordEnded, stop]), if_pos (by simpa using started)]
      simp
  | cons char word ih =>
      have read : charAt ui a = char := by rw [charAt_eq, here]; rfl
      have inside : a < 1000 := by
        have size := congrArg List.length here
        simp only [List.length_drop, List.length_append, List.length_cons] at size
        omega
      obtain ⟨less, rfl⟩ : ∃ less, fuel = less + 1 := ⟨fuel - 1, by rw [List.length_cons] at enough; omega⟩
      have goes : wordEnded ui (a, tmp) = false := by
        simp [wordEnded, read, plain char List.mem_cons_self, inside]
      by_cases room : tmp.length < 200
      · have step : copyChar ui (a, tmp) = .ok (a + 1, tmp ++ [char]) := by rw [copyChar, if_pos room, read]
        rw [whileLoop_succ goes step, ih (fun later member => plain later (List.mem_cons_of_mem _ member))
          (drop_succ here) (by simpa using enough) (by rw [List.length_append, List.length_singleton]; omega)]
        simp only [List.length_append, List.length_cons, List.length_nil, List.append_assoc, List.singleton_append,
          Nat.add_assoc, Nat.add_comm 1]
      · have step : copyChar ui (a, tmp) = .error .undefined := by rw [copyChar, if_neg room]
        rw [if_neg (by rw [List.length_cons]; omega), whileLoop, loop, goes]
        simp only [Bool.false_eq_true, if_false, step]
        rfl

theorem copyWord_spec (short : ui.length < 1000) {word : CString} (plain : ∀ char ∈ word, endsWord char = false)
    (ends : endsWord (rest.headD 0) = true) (here : ui.drop a = word ++ rest) (enough : ui.length ≤ fuel) :
    copyWord fuel ui a = if word.length ≤ 200 then .ok (a + word.length, word) else .error .undefined := by
  have size : word.length ≤ fuel := by
    have whole := congrArg List.length here
    rw [List.length_drop, List.length_append] at whole
    omega
  have runs := whileLoop_copyWord short plain ends here size (show ([] : CString).length ≤ 200 by simp)
  rwa [List.length_nil, Nat.zero_add, List.nil_append] at runs

/-- The text behind the spaces decides what a round does: the end, or a semicolon or newline where a word should start,
or a word. -/
theorem text_cases (text : CString) (nulFree : 0 ∉ text) :
    text.dropWhile (· == 32) = [] ∨ (∃ char rest, text.dropWhile (· == 32) = char :: rest ∧ (char = 59 ∨ char = 10)) ∨
      ∃ word rest, text.dropWhile (· == 32) = word ++ rest ∧ word ≠ [] ∧ (∀ char ∈ word, endsWord char = false) ∧
        endsWord (rest.headD 0) = true := by
  cases behind : text.dropWhile (· == 32) with
  | nil => exact .inl rfl
  | cons char rest =>
      have notSpace : char ≠ 32 := by
        have fails := List.head?_dropWhile_not (· == 32) text
        rw [behind] at fails
        simpa using fails
      have notNul : char ≠ 0 := by
        have inside : char ∈ text.dropWhile (· == 32) := by rw [behind]; exact List.mem_cons_self
        exact ne_of_mem_of_not_mem ((List.dropWhile_sublist _).subset inside) nulFree
      by_cases separates : char = 59 ∨ char = 10
      · exact .inr (.inl ⟨char, rest, rfl, separates⟩)
      · refine .inr (.inr ⟨(char :: rest).takeWhile (fun char => !endsWord char), (char :: rest).dropWhile (fun char => !endsWord char),
          (List.takeWhile_append_dropWhile ..).symm, ?_, fun later member => ?_, ?_⟩)
        · rw [not_or] at separates
          simp [endsWord, notSpace, notNul, separates]
        · simpa using List.mem_takeWhile_imp member
        · have fails := List.head?_dropWhile_not (fun char => !endsWord char) (char :: rest)
          cases stop : (char :: rest).dropWhile (fun char => !endsWord char) with
          | nil => decide
          | cons later more =>
              rw [stop] at fails
              simpa using fails

section Round

variable {interpreter : List CString → World → Int × World} {parsing : Parsing World}

/-- Without a word a round only skips the spaces. -/
theorem parseRound_empty (short : ui.length < 1000) (enough : ui.length ≤ fuel)
    (noWord : (ui.drop parsing.a).dropWhile (· == 32) = [] ∨
      ∃ char rest, (ui.drop parsing.a).dropWhile (· == 32) = char :: rest ∧ (char = 59 ∨ char = 10)) :
    ∃ a, parseRound interpreter fuel ui parsing = .ok { parsing with a := a } ∧
      ui.drop a = (ui.drop parsing.a).dropWhile (· == 32) := by
  obtain ⟨a, skips, here⟩ := skipSpaces_spec enough parsing.a
  refine ⟨a, ?_, here⟩
  rcases noWord with nothing | ⟨char, rest, something, separates⟩
  · have nul : charAt ui a = 0 := by rw [charAt_eq, here, nothing]; rfl
    simp only [parseRound, skips, bind, Except.bind, nul, if_true]
  · have read : charAt ui a = char := by rw [charAt_eq, here, something]; rfl
    have notNul : charAt ui a ≠ 0 := by rcases separates with rfl | rfl <;> rw [read] <;> decide
    have copies : copyWord fuel ui a = .ok (a, []) := by
      have none : endsWord char = true := by rcases separates with rfl | rfl <;> decide
      have runs := copyWord_spec short (show ∀ char ∈ ([] : CString), endsWord char = false by simp)
        (show endsWord ((char :: rest).headD 0) = true from none) (here.trans something) enough
      simpa using runs
    simp only [parseRound, skips, bind, Except.bind, if_neg notNul, copies, List.length_nil, if_true]
    rfl

/-- The start of a round that finds a word. -/
theorem parseRound_copies (short : ui.length < 1000) (enough : ui.length ≤ fuel) {word : CString}
    (spaces : (ui.drop parsing.a).dropWhile (· == 32) = word ++ rest) (nonempty : word ≠ [])
    (plain : ∀ char ∈ word, endsWord char = false) (ends : endsWord (rest.headD 0) = true) :
    ∃ start last, ui.drop last = rest ∧ skipSpaces fuel ui parsing.a = .ok start ∧ charAt ui start ≠ 0 ∧
      copyWord fuel ui start = if word.length ≤ 200 then .ok (last, word) else .error .undefined := by
  obtain ⟨start, skips, here⟩ := skipSpaces_spec enough parsing.a
  refine ⟨start, start + word.length, ?_, skips, ?_, copyWord_spec short plain ends (here.trans spaces) enough⟩
  · rw [← List.drop_drop, here, spaces, List.drop_left]
  · obtain ⟨char, more, rfl⟩ := List.exists_cons_of_ne_nil nonempty
    rw [charAt_eq, here, spaces]
    intro nul
    have wordChar := plain char List.mem_cons_self
    rw [show char = 0 from nul] at wordChar
    cases wordChar

/-- A word that does not fit one of the arrays. -/
theorem parseRound_overflow (short : ui.length < 1000) (enough : ui.length ≤ fuel) {word : CString}
    (spaces : (ui.drop parsing.a).dropWhile (· == 32) = word ++ rest) (nonempty : word ≠ [])
    (plain : ∀ char ∈ word, endsWord char = false) (ends : endsWord (rest.headD 0) = true)
    (large : 200 ≤ word.length ∨ 100 ≤ parsing.words.length) :
    parseRound interpreter fuel ui parsing = .error .undefined := by
  obtain ⟨start, last, _, skips, notNul, copies⟩ := parseRound_copies short enough spaces nonempty plain ends
  have notEmpty : word.length ≠ 0 := fun empty => nonempty (List.length_eq_zero_iff.mp empty)
  simp only [parseRound, skips, bind, Except.bind, if_neg notNul, copies]
  by_cases fits : word.length ≤ 200
  · simp only [if_pos fits, if_neg notEmpty]
    split
    · rfl
    · rw [if_pos (large.resolve_left ‹_›)]
  · rw [if_neg fits]

/-- A word directly before a semicolon ends a command. -/
theorem parseRound_command (interpreter : List CString → World → Int × World) (short : ui.length < 1000) (enough : ui.length ≤ fuel) {word later : CString}
    (spaces : (ui.drop parsing.a).dropWhile (· == 32) = word ++ 59 :: later) (nonempty : word ≠ [])
    (plain : ∀ char ∈ word, endsWord char = false) (fits : word.length < 200) (room : parsing.words.length < 100) :
    ∃ next, parseRound interpreter fuel ui parsing = .ok next ∧
      (((interpreter (parsing.words ++ [word]) parsing.world).1 = -1 ∧ next.returned = some (-1)) ∨
        (ui.drop next.a = later.dropWhile (· == 32) ∧ next.words = [] ∧ next.returned = none)) := by
  obtain ⟨start, last, here, skips, notNul, copies⟩ := parseRound_copies short enough spaces nonempty plain rfl
  have notEmpty : word.length ≠ 0 := fun empty => nonempty (List.length_eq_zero_iff.mp empty)
  have semicolon : charAt ui last = 59 := by rw [charAt_eq, here]; rfl
  obtain ⟨a, skipsMore, there⟩ := skipWhiteSpaces_spec short enough (last + 1)
  rw [drop_succ here] at there
  simp only [parseRound, skips, bind, Except.bind, if_neg notNul, copies, if_pos fits.le, if_neg fits.not_ge,
    if_neg notEmpty, if_neg room.not_ge, semicolon, if_true, skipsMore]
  split
  case isTrue minusOne => exact ⟨_, rfl, .inl ⟨minusOne, by rw [minusOne]⟩⟩
  case isFalse => exact ⟨_, rfl, .inr ⟨there, rfl, rfl⟩⟩

/-- Another word waits for the next one. -/
theorem parseRound_word (short : ui.length < 1000) (enough : ui.length ≤ fuel) {word : CString}
    (spaces : (ui.drop parsing.a).dropWhile (· == 32) = word ++ rest) (nonempty : word ≠ [])
    (plain : ∀ char ∈ word, endsWord char = false) (ends : endsWord (rest.headD 0) = true) (other : rest.headD 0 ≠ 59)
    (fits : word.length < 200) (room : parsing.words.length < 100) :
    ∃ a, ui.drop a = rest.tail ∧
      parseRound interpreter fuel ui parsing = .ok ⟨a, parsing.words ++ [word], parsing.world, none⟩ := by
  obtain ⟨start, last, here, skips, notNul, copies⟩ := parseRound_copies short enough spaces nonempty plain ends
  have notEmpty : word.length ≠ 0 := fun empty => nonempty (List.length_eq_zero_iff.mp empty)
  have noSemicolon : charAt ui last ≠ 59 := by rwa [charAt_eq, here]
  refine ⟨last + 1, by rw [← List.tail_drop, here], ?_⟩
  simp only [parseRound, skips, bind, Except.bind, if_neg notNul, copies, if_pos fits.le, if_neg fits.not_ge,
    if_neg notEmpty, if_neg room.not_ge, if_neg noSemicolon]

end Round

section Segments

/-- The condition on the rest of a text, of whose first command `count` words have been read. -/
def SegmentsFit : Nat → List CString → Prop
  | count, [] => count ≤ 100
  | count, segment :: rest =>
      (rest ≠ [] → EndsInWord segment) ∧ count + (segmentWords segment).length ≤ 100 ∧
        (∀ word ∈ segmentWords segment, word.length < 200) ∧ SegmentsFit 0 rest

def TextFits (count : Nat) (text : CString) : Prop := SegmentsFit count ((readPart true text).splitOn 59)

theorem segmentsFit_zero_iff (segments : List CString) : SegmentsFit 0 segments ↔
    (∀ segment ∈ segments.dropLast, EndsInWord segment) ∧ ∀ segment ∈ segments, (segmentWords segment).length ≤ 100 ∧
      ∀ word ∈ segmentWords segment, word.length < 200 := by
  induction segments with
  | nil => simp [SegmentsFit]
  | cons segment rest ih =>
      rw [SegmentsFit, ih, List.forall_mem_cons, Nat.zero_add]
      cases rest with
      | nil => simp
      | cons second rest =>
          simp only [List.dropLast_cons_cons, List.forall_mem_cons, ne_eq, reduceCtorEq, not_false_eq_true, true_imp_iff]
          tauto

theorem parsable_iff (ui : CString) : Parsable ui ↔ TextFits 0 ui := (segmentsFit_zero_iff _).symm

theorem segmentWords_blank {char : UInt8} (blank : isBlank char = true) (segment : CString) :
    segmentWords (char :: segment) = segmentWords segment := by
  rw [segmentWords, segmentWords, List.splitOnP_cons_eq_if_modifyHead, if_pos blank]
  simp

theorem segmentWords_word {word : CString} (nonempty : word ≠ []) (plain : ∀ char ∈ word, isBlank char = false) :
    segmentWords word = [word] := by
  rw [segmentWords, List.splitOnP_eq_singleton plain]
  simp [nonempty]

theorem segmentWords_append {word : CString} {char : UInt8} (nonempty : word ≠ []) (plain : ∀ char ∈ word, isBlank char = false)
    (blank : isBlank char = true) (segment : CString) :
    segmentWords (word ++ char :: segment) = word :: segmentWords segment := by
  rw [segmentWords, List.splitOnP_append_cons_of_forall_mem plain char blank, List.filter_cons_of_pos (by simpa using nonempty),
    segmentWords]

theorem endsInWord_blank {char : UInt8} (blank : isBlank char = true) (segment : CString) :
    EndsInWord (char :: segment) ↔ EndsInWord segment := by
  cases segment with
  | nil => simp [EndsInWord, blank]
  | cons second rest => simp [EndsInWord, List.getLast?_cons_cons]

theorem endsInWord_append (front : CString) {char : UInt8} (blank : isBlank char = true) (segment : CString) :
    EndsInWord (front ++ char :: segment) ↔ EndsInWord segment := by
  have same : (front ++ char :: segment).getLast? = (char :: segment).getLast? := List.getLast?_append_cons ..
  have moved : EndsInWord (front ++ char :: segment) ↔ EndsInWord (char :: segment) := by rw [EndsInWord, same, EndsInWord]
  exact moved.trans (endsInWord_blank blank segment)

theorem endsInWord_word {word : CString} (nonempty : word ≠ []) (plain : ∀ char ∈ word, isBlank char = false) :
    EndsInWord word :=
  ⟨word.getLast nonempty, List.getLast?_eq_some_getLast nonempty, plain _ (List.getLast_mem nonempty)⟩

theorem splitOn_append {word : CString} (noSemicolon : 59 ∉ word) (text : CString) {segment : CString} {rest : List CString}
    (split : text.splitOn 59 = segment :: rest) : (word ++ text).splitOn 59 = (word ++ segment) :: rest := by
  induction word with
  | nil => exact split
  | cons char word ih =>
      rw [List.mem_cons, not_or] at noSemicolon
      rw [List.cons_append, List.splitOn_cons_eq_if_modifyHead, if_neg (by simpa using Ne.symm noSemicolon.1), ih noSemicolon.2]
      rfl

theorem readPart_append {word : CString} (nonempty : word ≠ []) (plain : ∀ char ∈ word, endsWord char = false) (opens : Bool)
    (text : CString) : readPart opens (word ++ text) = word ++ readPart false text := by
  induction word generalizing opens with
  | nil => exact absurd rfl nonempty
  | cons char word ih =>
      have wordChar := plain char List.mem_cons_self
      simp only [endsWord, Bool.or_eq_false_iff] at wordChar
      obtain ⟨⟨⟨semicolon, _⟩, newline⟩, space⟩ := wordChar
      rw [List.cons_append, readPart, newline, Bool.and_false, if_neg (by decide), space, semicolon]
      cases word with
      | nil => rfl
      | cons second word => rw [ih (by simp) (fun later inside => plain later (List.mem_cons_of_mem _ inside))]; rfl

theorem TextFits.count_le {count : Nat} {text : CString} (fits : TextFits count text) : count ≤ 100 := by
  obtain ⟨segment, rest, split⟩ := List.exists_cons_of_ne_nil (List.splitOn_ne_nil 59 (readPart true text))
  rw [TextFits, split] at fits
  exact (Nat.le_add_right _ _).trans fits.2.1

theorem textFits_nil (count : Nat) : TextFits count [] ↔ count ≤ 100 := by
  simp [TextFits, readPart, SegmentsFit, segmentWords]

theorem textFits_newline (count : Nat) (text : CString) : TextFits count (10 :: text) ↔ count ≤ 100 := by
  simp [TextFits, readPart, SegmentsFit, segmentWords]

/-- A semicolon where a word should start. -/
theorem textFits_semicolon (count : Nat) (text : CString) : ¬ TextFits count (59 :: text) := by
  intro fits
  have read : readPart true (59 :: text) = 59 :: readPart true text := rfl
  rw [TextFits, read, List.splitOn_cons_eq_if_modifyHead, if_pos (by decide), SegmentsFit] at fits
  obtain ⟨char, last, _⟩ := fits.1 (List.splitOn_ne_nil _ _)
  cases last

theorem textFits_space (count : Nat) (text : CString) : TextFits count (32 :: text) ↔ TextFits count text := by
  have read : readPart true (32 :: text) = 32 :: readPart true text := rfl
  obtain ⟨segment, rest, split⟩ := List.exists_cons_of_ne_nil (List.splitOn_ne_nil 59 (readPart true text))
  rw [TextFits, TextFits, read, split, List.splitOn_cons_eq_if_modifyHead, if_neg (by decide), split, List.modifyHead_cons,
    SegmentsFit, SegmentsFit, endsInWord_blank rfl, segmentWords_blank rfl]

theorem textFits_dropWhile (count : Nat) (text : CString) : TextFits count (text.dropWhile (· == 32)) ↔ TextFits count text := by
  induction text with
  | nil => rfl
  | cons char text ih =>
      rw [List.dropWhile_cons]
      by_cases space : char = 32
      · rw [if_pos (by simp [space]), ih, space, textFits_space]
      · rw [if_neg (by simp [space])]

variable {word : CString}

theorem isBlank_of_plain (plain : ∀ char ∈ word, endsWord char = false) : ∀ char ∈ word, isBlank char = false := by
  intro char inside
  have wordChar := plain char inside
  simp only [endsWord, Bool.or_eq_false_iff] at wordChar
  rw [isBlank, wordChar.2, wordChar.1.2]
  rfl

theorem semicolon_not_mem (plain : ∀ char ∈ word, endsWord char = false) : 59 ∉ word :=
  fun inside => by cases plain 59 inside

theorem textFits_last (nonempty : word ≠ []) (plain : ∀ char ∈ word, endsWord char = false) (count : Nat) :
    TextFits count word ↔ word.length < 200 ∧ count < 100 := by
  have read : readPart true word = word := by
    have parts := readPart_append nonempty plain true []
    rwa [List.append_nil, readPart, List.append_nil] at parts
  rw [TextFits, read, List.splitOn_eq_singleton (semicolon_not_mem plain), SegmentsFit, SegmentsFit,
    segmentWords_word nonempty (isBlank_of_plain plain)]
  simp only [ne_eq, not_true_eq_false, IsEmpty.forall_iff, List.length_cons, List.length_nil, Nat.zero_add,
    Nat.succ_le_iff, List.mem_cons, List.not_mem_nil, or_false, forall_eq, Nat.zero_le, and_comm, true_and]

theorem textFits_command (nonempty : word ≠ []) (plain : ∀ char ∈ word, endsWord char = false) (count : Nat) (text : CString) :
    TextFits count (word ++ 59 :: text) ↔ (word.length < 200 ∧ count < 100) ∧ TextFits 0 text := by
  have read : readPart true (word ++ 59 :: text) = word ++ 59 :: readPart true text := readPart_append nonempty plain true _
  rw [TextFits, read, List.splitOn_append_cons_self_of_not_mem (semicolon_not_mem plain), SegmentsFit, TextFits,
    segmentWords_word nonempty (isBlank_of_plain plain)]
  simp only [ne_eq, List.splitOn_ne_nil, not_false_eq_true, endsInWord_word nonempty (isBlank_of_plain plain), imp_self,
    List.length_cons, List.length_nil, Nat.zero_add, Nat.succ_le_iff, List.mem_cons, List.not_mem_nil, or_false,
    forall_eq, true_and, and_comm, and_assoc]

theorem textFits_word (nonempty : word ≠ []) (plain : ∀ char ∈ word, endsWord char = false) (count : Nat) {char : UInt8}
    (blank : isBlank char = true) (text : CString) :
    TextFits count (word ++ char :: text) ↔ word.length < 200 ∧ TextFits (count + 1) text := by
  have read : readPart true (word ++ char :: text) = (word ++ [char]) ++ readPart true text := by
    rw [readPart_append nonempty plain, List.append_assoc]
    simp only [isBlank, Bool.or_eq_true, beq_iff_eq] at blank
    rcases blank with rfl | rfl <;> rfl
  obtain ⟨segment, rest, split⟩ := List.exists_cons_of_ne_nil (List.splitOn_ne_nil 59 (readPart true text))
  have noSemicolon : 59 ∉ word ++ [char] := by
    rw [List.mem_append, List.mem_singleton, not_or]
    exact ⟨semicolon_not_mem plain, fun same => by rw [← same] at blank; cases blank⟩
  rw [TextFits, read, splitOn_append noSemicolon _ split, SegmentsFit, TextFits, split, SegmentsFit, List.append_assoc,
    List.singleton_append, endsInWord_append word blank, segmentWords_append nonempty (isBlank_of_plain plain) blank,
    List.forall_mem_cons, List.length_cons, Nat.add_right_comm count, Nat.add_assoc count]
  tauto

end Segments

section Rounds

variable {interpreter : List CString → World → Int × World} {parsing : Parsing World}

theorem ended_eq_false (continues : parsing.ended ui = false) :
    parsing.returned = none ∧ ui.drop parsing.a ≠ [] ∧ charAt ui parsing.a ≠ 10 := by
  simp only [Parsing.ended, Bool.or_eq_false_iff, Option.isSome_eq_false_iff, Option.isNone_iff_eq_none, Bool.not_eq_false',
    Bool.and_eq_true, decide_eq_true_eq, bne_iff_ne] at continues
  obtain ⟨running, ⟨⟨_, inside⟩, notNewline⟩, _⟩ := continues
  exact ⟨running, fun empty => absurd (List.drop_eq_nil_iff.mp empty) (by omega), notNewline⟩

/-- The loop ends where the text does and at a newline. -/
theorem ended_of_drop (finishes : ui.drop parsing.a = [] ∨ ∃ later, ui.drop parsing.a = 10 :: later) :
    parsing.ended ui = true := by
  rcases finishes with empty | ⟨later, newline⟩
  · have outside : ¬ parsing.a < ui.length := by have := List.drop_eq_nil_iff.mp empty; omega
    simp [Parsing.ended, outside]
  · have read : charAt ui parsing.a = 10 := by rw [charAt_eq, newline]; rfl
    simp [Parsing.ended, read]

/-- What follows a word is the end, a semicolon or a blank. -/
theorem rest_cases (nulFree : 0 ∉ ui) (ends : endsWord (rest.headD 0) = true) (inside : rest ⊆ ui) :
    rest = [] ∨ (∃ later, rest = 59 :: later) ∨ ∃ char later, rest = char :: later ∧ isBlank char = true := by
  cases rest with
  | nil => exact .inl rfl
  | cons char later =>
      have notNul : char ≠ 0 := ne_of_mem_of_not_mem (inside List.mem_cons_self) nulFree
      simp only [List.headD_cons, endsWord, Bool.or_eq_true, beq_iff_eq, notNul, or_false] at ends
      rcases ends with (rfl | newline) | space
      · exact .inr (.inl ⟨later, rfl⟩)
      · exact .inr (.inr ⟨char, later, rfl, by simp [isBlank, newline]⟩)
      · exact .inr (.inr ⟨char, later, rfl, by simp [isBlank, space]⟩)

theorem length_dropWhile_le (text : CString) : (text.dropWhile (· == 32)).length ≤ text.length :=
  (List.dropWhile_sublist _).length_le

/-- One round reads a word, or skips spaces before the place where the loop ends or stays for ever. -/
theorem parseRound_cases (interpreter : List CString → World → Int × World) (short : ui.length < 1000) (nulFree : 0 ∉ ui) (enough : ui.length ≤ fuel)
    (continues : parsing.ended ui = false) :
    (∃ next, parseRound interpreter fuel ui parsing = .ok next ∧ next.ended ui = true ∧
      TextFits parsing.words.length (ui.drop parsing.a) = (parsing.words.length ≤ 100)) ∨
    (∃ next, parseRound interpreter fuel ui parsing = .ok next ∧ next.words = parsing.words ∧ next.returned = none ∧
      ¬ TextFits parsing.words.length (ui.drop parsing.a) ∧ ¬ TextFits next.words.length (ui.drop next.a)) ∨
    (parseRound interpreter fuel ui parsing = .error .undefined ∧ ¬ TextFits parsing.words.length (ui.drop parsing.a)) ∨
    ∃ next, parseRound interpreter fuel ui parsing = .ok next ∧
      (next.returned = none → next.words.length ≤ 100 ∧ (ui.drop next.a).length < (ui.drop parsing.a).length ∧
        (TextFits parsing.words.length (ui.drop parsing.a) ↔ TextFits next.words.length (ui.drop next.a))) ∧
      (next.returned ≠ none → ∃ words world, (interpreter words world).1 = -1) := by
  obtain ⟨running, nonempty, notNewline⟩ := ended_eq_false continues
  have shorter := length_dropWhile_le (ui.drop parsing.a)
  have fresh : 0 ∉ ui.drop parsing.a := fun inside => nulFree (List.mem_of_mem_drop inside)
  rw [← textFits_dropWhile]
  rcases text_cases _ fresh with nothing | ⟨char, rest, something, separates⟩ | ⟨word, rest, spaces, isWord, plain, ends⟩
  · obtain ⟨a, runs, here⟩ := parseRound_empty short enough (.inl nothing)
    refine .inl ⟨_, runs, ended_of_drop (.inl (here.trans nothing)), ?_⟩
    rw [nothing, textFits_nil]
  · obtain ⟨a, runs, here⟩ := parseRound_empty short enough (.inr ⟨char, rest, something, separates⟩)
    rcases separates with rfl | rfl
    · refine .inr (.inl ⟨_, runs, rfl, running, ?_, ?_⟩)
      · rw [something]
        exact textFits_semicolon _ _
      · simp only [here, something]
        exact textFits_semicolon _ _
    · refine .inl ⟨_, runs, ended_of_drop (.inr ⟨rest, here.trans something⟩), ?_⟩
      rw [something, textFits_newline]
  · rw [spaces] at shorter ⊢
    have inside : rest ⊆ ui := fun char member => by
      have behind : char ∈ (ui.drop parsing.a).dropWhile (· == 32) := spaces ▸ List.mem_append_right word member
      exact List.mem_of_mem_drop ((List.dropWhile_sublist _).subset behind)
    have wordSize : 0 < word.length := List.length_pos_iff.mpr isWord
    rw [List.length_append] at shorter
    have tooLarge : 200 ≤ word.length ∨ 100 ≤ parsing.words.length → ¬ TextFits parsing.words.length (word ++ rest) := by
      intro large fits
      rcases rest_cases nulFree ends inside with rfl | ⟨later, rfl⟩ | ⟨char, later, rfl, blank⟩
      · rw [List.append_nil, textFits_last isWord plain] at fits
        omega
      · rw [textFits_command isWord plain] at fits
        omega
      · rw [textFits_word isWord plain _ blank] at fits
        have := fits.2.count_le
        omega
    by_cases large : 200 ≤ word.length ∨ 100 ≤ parsing.words.length
    · exact .inr (.inr (.inl ⟨parseRound_overflow short enough spaces isWord plain ends large, tooLarge large⟩))
    · rw [not_or, not_le, not_le] at large
      obtain ⟨fits, room⟩ := large
      refine .inr (.inr (.inr ?_))
      rcases rest_cases nulFree ends inside with rfl | ⟨later, rfl⟩ | ⟨char, later, rfl, blank⟩
      · obtain ⟨a, here, runs⟩ := parseRound_word short enough spaces isWord plain ends (by decide) fits room
        refine ⟨_, runs, fun _ => ⟨by simpa [Nat.succ_le_iff] using room, ?_, ?_⟩, fun returns => absurd rfl returns⟩
        · rw [show ui.drop a = [] from here, List.length_nil]
          omega
        · rw [show ui.drop a = [] from here, List.append_nil, textFits_last isWord plain, textFits_nil, List.length_append,
            List.length_singleton]
          omega
      · obtain ⟨next, runs, ⟨minusOne, returns⟩ | ⟨here, noWords, returns⟩⟩ :=
          parseRound_command interpreter short enough spaces isWord plain fits room
        · exact ⟨next, runs, fun running => absurd (returns.symm.trans running) (by simp), fun _ => ⟨_, _, minusOne⟩⟩
        · refine ⟨next, runs, fun _ => ⟨by simp [noWords], ?_, ?_⟩, fun returned => absurd returns returned⟩
          · have less := length_dropWhile_le later
            rw [here]
            simp only [List.length_cons] at shorter
            omega
          · rw [here, textFits_dropWhile, noWords, List.length_nil, textFits_command isWord plain]
            simp [fits, room]
      · obtain ⟨a, here, runs⟩ := parseRound_word short enough spaces isWord plain ends (by rintro rfl; cases blank) fits room
        refine ⟨_, runs, fun _ => ⟨by simpa [Nat.succ_le_iff] using room, ?_, ?_⟩, fun returns => absurd rfl returns⟩
        · rw [show ui.drop a = later from here]
          simp only [List.length_cons] at shorter
          omega
        · rw [show ui.drop a = later from here, textFits_word isWord plain _ blank, List.length_append, List.length_singleton]
          simp [fits]

/-- A text that fits is read to its end. -/
theorem rounds_stop (interpreter : List CString → World → Int × World) (short : ui.length < 1000) (nulFree : 0 ∉ ui)
    (enough : ui.length ≤ fuel) (rounds : Nat) (parsing : Parsing World)
    (fits : parsing.returned = none → TextFits parsing.words.length (ui.drop parsing.a))
    (left : parsing.returned = none → (ui.drop parsing.a).length ≤ rounds) :
    ∃ final, whileLoop (Parsing.ended ui) (parseRound interpreter fuel ui) rounds parsing = .ok final := by
  induction rounds generalizing parsing with
  | zero =>
      cases stops : parsing.ended ui with
      | true => exact ⟨parsing, whileLoop_finished stops _⟩
      | false =>
          obtain ⟨running, nonempty, _⟩ := ended_eq_false stops
          exact absurd (List.length_eq_zero_iff.mp (Nat.le_zero.mp (left running))) nonempty
  | succ rounds ih =>
      cases stops : parsing.ended ui with
      | true => exact ⟨parsing, whileLoop_finished stops _⟩
      | false =>
          obtain ⟨running, _⟩ := ended_eq_false stops
          rcases parseRound_cases interpreter short nulFree enough stops with ⟨next, runs, ended, _⟩ |
            ⟨_, _, _, _, stuck, _⟩ | ⟨_, overflow⟩ | ⟨next, runs, goes, _⟩
          · rw [whileLoop_succ stops runs]
            exact ⟨next, whileLoop_finished ended _⟩
          · exact absurd (fits running) stuck
          · exact absurd (fits running) overflow
          · rw [whileLoop_succ stops runs]
            refine ih next (fun going => ?_) (fun going => ?_)
            · exact (goes going).2.2.mp (fits running)
            · have less := (goes going).2.1
              have most := left running
              omega

/-- The loop is not over where a text that does not fit is left. -/
theorem ended_of_not_fits (short : ui.length < 1000) (nulFree : 0 ∉ ui) (running : parsing.returned = none)
    (room : parsing.words.length ≤ 100) (unfit : ¬ TextFits parsing.words.length (ui.drop parsing.a)) :
    parsing.ended ui = false := by
  cases here : ui.drop parsing.a with
  | nil => exact absurd (here ▸ (textFits_nil _).mpr room) unfit
  | cons char later =>
      have inside : parsing.a < ui.length := by
        have size := congrArg List.length here
        rw [List.length_drop, List.length_cons] at size
        omega
      have read : charAt ui parsing.a = char := by rw [charAt_eq, here]; rfl
      have notNul : char ≠ 0 := by
        refine ne_of_mem_of_not_mem (List.mem_of_mem_drop (i := parsing.a) ?_) nulFree
        rw [here]
        exact List.mem_cons_self
      have notNewline : char ≠ 10 := by
        rintro rfl
        exact unfit (here ▸ (textFits_newline _ _).mpr room)
      simp [Parsing.ended, running, read, notNul, notNewline, inside]
      omega

/-- On any other text the loop never ends, or a word leaves its array. -/
theorem rounds_never_stop (short : ui.length < 1000) (nulFree : 0 ∉ ui) (enough : ui.length ≤ fuel) (rounds : Nat)
    (parsing : Parsing World) (running : parsing.returned = none) (room : parsing.words.length ≤ 100)
    (unfit : ¬ TextFits parsing.words.length (ui.drop parsing.a)) (final : Parsing World) :
    whileLoop (Parsing.ended ui) (parseRound (fun _ world => (0, world)) fuel ui) rounds parsing ≠ .ok final := by
  have continues := ended_of_not_fits short nulFree running room unfit
  induction rounds generalizing parsing with
  | zero => simp [whileLoop, loop, continues, Except.bind]
  | succ rounds ih =>
      rcases parseRound_cases (fun _ world => (0, world)) short nulFree enough continues with ⟨_, _, _, same⟩ |
        ⟨next, runs, sameWords, stays, _, stuck⟩ | ⟨faults, _⟩ | ⟨next, runs, goes, returns⟩
      · exact absurd (same ▸ room) unfit
      · rw [whileLoop_succ continues runs]
        have more : next.words.length ≤ 100 := sameWords ▸ room
        exact ih next stays more stuck (ended_of_not_fits short nulFree stays more stuck)
      · simp [whileLoop, loop, continues, faults, Except.bind]
      · have going : next.returned = none := by
          by_contra returned
          obtain ⟨_, _, minusOne⟩ := returns returned
          cases minusOne
        obtain ⟨more, _, same⟩ := goes going
        rw [whileLoop_succ continues runs]
        have stuck := mt same.mpr unfit
        exact ih next going more stuck (ended_of_not_fits short nulFree going more stuck)

end Rounds

theorem stops_of_fits (short : ui.length < 1000) (nulFree : 0 ∉ ui) (fits : TextFits 0 ui) : Stops ui := by
  intro World interpreter world
  refine ⟨ui.length, fun fuel enough => ?_⟩
  obtain ⟨a, skips, here⟩ := skipWhiteSpaces_spec short enough 0
  obtain ⟨final, loops⟩ := rounds_stop interpreter short nulFree enough fuel ⟨a, [], world, none⟩
    (fun _ => by rwa [here, List.length_nil, textFits_dropWhile])
    (fun _ => by rw [here]; exact (length_dropWhile_le _).trans enough)
  simp only [parseInput, skips, bind, Except.bind, loops]
  cases final.returned with
  | none => exact ⟨_, rfl⟩
  | some errorCode => exact ⟨_, rfl⟩

theorem not_stops (short : ui.length < 1000) (nulFree : 0 ∉ ui) (unfit : ¬ TextFits 0 ui) : ¬ Stops ui := by
  intro stops
  obtain ⟨rounds, runs⟩ := stops Unit (fun _ world => (0, world)) ()
  obtain ⟨result, ends⟩ := runs (rounds + ui.length) (by omega)
  obtain ⟨a, skips, here⟩ := skipWhiteSpaces_spec short (show ui.length ≤ rounds + ui.length by omega) 0
  have start : ¬ TextFits 0 (ui.drop a) := by rwa [here, textFits_dropWhile]
  have never := rounds_never_stop short nulFree (show ui.length ≤ rounds + ui.length by omega) (rounds + ui.length)
    ⟨a, [], (), none⟩ rfl (by simp) start
  simp only [parseInput, skips, bind, Except.bind] at ends
  split at ends
  · cases ends
  · next final loops => exact never final loops

/-- The loops stop exactly when every semicolon follows a word directly and the words fit their arrays. -/
theorem stops_iff (short : ui.length < 1000) (nulFree : 0 ∉ ui) : Stops ui ↔ Parsable ui := by
  rw [parsable_iff]
  exact ⟨fun stops => by_contra fun unfit => not_stops short nulFree unfit stops, stops_of_fits short nulFree⟩

/-- `"help ;help"` and a newline. -/
def spacedCommands : CString := .ofChars ['h', 'e', 'l', 'p', ' ', ';', 'h', 'e', 'l', 'p', '\n']

theorem spacedCommands_stops_iff : Stops spacedCommands ↔ Parsable spacedCommands := stops_iff (by decide) (by decide)

/-- The semicolon behind a space is never passed. -/
theorem spacedCommands_never_stops : spacedCommands.length < 1000 ∧ 0 ∉ spacedCommands ∧ ¬ Stops spacedCommands := by
  have short : spacedCommands.length < 1000 := by decide
  have nulFree : 0 ∉ spacedCommands := by decide
  refine ⟨short, nulFree, not_stops short nulFree fun fits => ?_⟩
  have parts : spacedCommands = [104, 101, 108, 112] ++ 32 :: 59 :: [104, 101, 108, 112, 10] := by decide
  have plain : ∀ char ∈ ([104, 101, 108, 112] : CString), endsWord char = false := by
    simp only [List.mem_cons, List.not_mem_nil, or_false, forall_eq_or_imp, forall_eq]
    decide
  rw [parts, textFits_word (by decide) plain 0 rfl] at fits
  exact textFits_semicolon _ _ fits.2

end MockOS.A2
