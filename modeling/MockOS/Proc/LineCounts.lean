import MockOS.Proc.ScriptRuns

namespace MockOS.Proc

/-- The text between the newlines of a file; the last piece follows the last newline. -/
def pieces (file : List UInt8) : List (List UInt8) := file.splitOn 10

/-- The lines of a file that hold nothing but their newline. -/
def blankLines (file : List UInt8) : Nat := (pieces file).dropLast.count []

/-- Whether there is text behind the last newline, as a number. -/
def unterminated (file : List UInt8) : Nat := if (pieces file).getLast? = some [] then 0 else 1

theorem pieces_text {text : List UInt8} (noNewline : 10 ∉ text) : pieces text = [text] :=
  List.splitOn_eq_singleton noNewline

theorem pieces_line {text : List UInt8} (noNewline : 10 ∉ text) (rest : List UInt8) :
    pieces (text ++ 10 :: rest) = text :: pieces rest := by
  rw [pieces, List.splitOn_append_cons_of_beq _ _ (beq_self_eq_true 10), List.splitOn_eq_singleton noNewline]
  rfl

theorem pieces_ne_nil (file : List UInt8) : pieces file ≠ [] := List.splitOn_ne_nil _ _

theorem blankLines_line {text : List UInt8} (noNewline : 10 ∉ text) (rest : List UInt8) :
    blankLines (text ++ 10 :: rest) = (if text = [] then 1 else 0) + blankLines rest := by
  rw [blankLines, pieces_line noNewline, List.dropLast_cons_of_ne_nil (pieces_ne_nil rest), List.count_cons, blankLines,
    Nat.add_comm]
  simp

theorem unterminated_line {text : List UInt8} (noNewline : 10 ∉ text) (rest : List UInt8) :
    unterminated (text ++ 10 :: rest) = unterminated rest := by
  obtain ⟨first, others, same⟩ := List.exists_cons_of_ne_nil (pieces_ne_nil rest)
  rw [unterminated, pieces_line noNewline, unterminated, same, List.getLast?_cons_cons]

/-- A file is text without a newline, or starts with a line. -/
theorem line_cases (file : List UInt8) :
    10 ∉ file ∨ ∃ text rest, 10 ∉ text ∧ file = text ++ 10 :: rest := by
  by_cases newline : 10 ∈ file
  · obtain ⟨text, rest, split, absent⟩ := List.eq_append_cons_of_mem newline
    exact .inr ⟨text, rest, absent, split⟩
  · exact .inl newline

/-- The automaton passes over the newlines of the blank lines and counts the others. -/
theorem countNewlines_blankLines (file : List UInt8) :
    countNewlines 10 file + blankLines file + 1 = (pieces file).length := by
  induction size : file.length using Nat.strongRecOn generalizing file with
  | ind bytes ih =>
      rcases line_cases file with noNewline | ⟨text, rest, noNewline, rfl⟩
      · have counted := countNewlines_text 10 file [] noNewline
        rw [List.append_nil] at counted
        rw [counted, blankLines, pieces_text noNewline]
        rfl
      · have smaller : rest.length < bytes := by
          rw [← size, List.length_append, List.length_cons]
          omega
        have later := ih _ smaller rest rfl
        rw [countNewlines_line 10 text rest noNewline, blankLines_line noNewline, pieces_line noNewline, List.length_cons]
        by_cases blank : text = []
        · rw [if_pos ⟨blank, rfl⟩, if_pos blank]
          omega
        · rw [if_neg fun both => blank both.1, if_neg blank]
          omega

/-- The loader gets a line for each newline, and one for text behind the last. -/
theorem length_fetched (file : List UInt8) (short : ∀ piece ∈ pieces file, piece.length < 998) :
    (fetched file).length + 1 = (pieces file).length + unterminated file := by
  induction size : file.length using Nat.strongRecOn generalizing file with
  | ind bytes ih =>
      rcases line_cases file with noNewline | ⟨text, rest, noNewline, rfl⟩
      · rw [pieces_text noNewline] at short
        rw [unterminated, pieces_text noNewline]
        by_cases empty : file = []
        · rw [empty, fetched_nil]
          rfl
        · rw [fetched_some (Script.fgets_last empty noNewline (short file List.mem_cons_self)), fetched_nil]
          simp [empty]
      · rw [pieces_line noNewline] at short
        have smaller : rest.length < bytes := by
          rw [← size, List.length_append, List.length_cons]
          omega
        have later := ih _ smaller rest (fun piece member => short piece (List.mem_cons_of_mem _ member)) rfl
        rw [fetched_some (Script.fgets_newline noNewline (short text List.mem_cons_self)), unterminated_line noNewline,
          pieces_line noNewline, List.length_cons, List.length_cons]
        omega

/-- `count_lines` gives the number of lines that the loader gets exactly when the file has one blank line and ends in a
newline, or no blank line and text behind its last newline. -/
theorem countLines_eq_fetched_iff (file : List UInt8) (short : ∀ piece ∈ pieces file, piece.length < 998) :
    countLines file = (fetched file).length ↔ blankLines file + unterminated file = 1 := by
  have counted := countNewlines_blankLines file
  have loaded := length_fetched file short
  rw [countLines]
  omega

/-- Five lines, one of them blank, with a newline behind the last one. -/
theorem countLines_eq_fetched_line :
    countLines [97, 10, 98, 99, 10, 10, 100, 10, 101, 10] = (fetched [97, 10, 98, 99, 10, 10, 100, 10, 101, 10]).length :=
  (countLines_eq_fetched_iff [97, 10, 98, 99, 10, 10, 100, 10, 101, 10] (by decide)).mpr (by decide)

/-- The newline at the end of a file is counted as one more line. -/
theorem countLines_terminated :
    ¬ ∀ file : List UInt8, (∀ piece ∈ pieces file, piece.length < 998) → countLines file = (fetched file).length := by
  intro agrees
  have short : ∀ piece ∈ pieces [97, 10], piece.length < 998 := by decide
  have loaded := length_fetched [97, 10] short
  have counted := agrees [97, 10] short
  have two : countLines [97, 10] = 2 := by decide
  have text : (pieces [97, 10]).length + unterminated [97, 10] = 2 := by decide
  omega

end MockOS.Proc
