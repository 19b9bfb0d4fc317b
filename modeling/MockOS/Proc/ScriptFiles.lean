import MockOS.Proc.Pcb

namespace MockOS.Proc

/-- The bytes that `readLine` takes and leaves make up the file. -/
theorem readLine_append (room : Nat) (file : List UInt8) :
    (readLine room file).1 ++ (readLine room file).2 = file := by
  induction room generalizing file with
  | zero => rfl
  | succ room ih =>
      cases file with
      | nil => rfl
      | cons byte rest =>
          by_cases newline : byte = 10
          · simp [readLine, newline]
          · simp [readLine, newline, ih rest]

theorem readLine_nonempty (room : Nat) (byte : UInt8) (rest : List UInt8) :
    (readLine (room + 1) (byte :: rest)).1 ≠ [] := by
  by_cases newline : byte = 10 <;> simp [readLine, newline]

theorem fgets_none {count : Nat} {file : List UInt8} : fgets count file = none ↔ file = [] := by
  by_cases empty : file = [] <;> simp [fgets, empty]

/-- A successful `fgets` delivers at least one byte. -/
theorem fgets_shorter {file line rest : List UInt8} (read : fgets 999 file = some (line, rest)) :
    rest.length < file.length := by
  cases file with
  | nil => simp [fgets] at read
  | cons byte tail =>
      have delivered : readLine 998 (byte :: tail) = (line, rest) := by simpa [fgets] using read
      have whole := congrArg List.length (readLine_append 998 (byte :: tail))
      have some := readLine_nonempty 997 byte tail
      rw [delivered] at whole some
      have := List.length_pos_of_ne_nil some
      simp only [List.length_append] at whole this
      omega

/-- All the lines that successive calls of `fgets` deliver. -/
def fetched (file : List UInt8) : List (List UInt8) :=
  match _read : fgets 999 file with
  | none => []
  | some (line, rest) => line :: fetched rest
termination_by file.length
decreasing_by exact fgets_shorter _read

theorem fetched_none {file : List UInt8} (atEnd : fgets 999 file = none) : fetched file = [] := by
  rw [fetched]
  split
  · rfl
  · simp_all

theorem fetched_some {file line rest : List UInt8} (read : fgets 999 file = some (line, rest)) :
    fetched file = line :: fetched rest := by
  rw [fetched]
  split
  · simp_all
  · rename_i line' rest' read'
    rw [read] at read'
    cases read'
    rfl

@[simp] theorem fetched_nil : fetched [] = [] := fetched_none (fgets_none.mpr rfl)

/-- A line that fits is delivered with its newline. -/
theorem readLine_newline (room : Nat) (line rest : List UInt8) (text : 10 ∉ line) (fits : line.length < room) :
    readLine room (line ++ 10 :: rest) = (line ++ [10], rest) := by
  induction line generalizing room with
  | nil =>
      cases room with
      | zero => simp at fits
      | succ room => simp [readLine]
  | cons byte tail ih =>
      cases room with
      | zero => simp at fits
      | succ room =>
          simp only [List.mem_cons, not_or] at text
          simp [readLine, Ne.symm text.1, ih room text.2 (by simpa using fits)]

/-- Without a newline in reach the buffer is filled, or the file runs out. -/
theorem readLine_text (room : Nat) (file : List UInt8) (text : 10 ∉ file.take room) :
    readLine room file = (file.take room, file.drop room) := by
  induction room generalizing file with
  | zero => rfl
  | succ room ih =>
      cases file with
      | nil => rfl
      | cons byte tail =>
          simp only [List.take_succ_cons, List.mem_cons, not_or] at text
          simp [readLine, Ne.symm text.1, ih tail text.2]

/-- Each result of `fgets` is a line with its newline or a piece of text without one. -/
theorem fgets_cases {file line rest : List UInt8} (read : fgets 999 file = some (line, rest)) :
    (∃ text, line = text ++ [10] ∧ 10 ∉ text ∧ text.length ≤ 997 ∧ file = text ++ 10 :: rest) ∨
      (10 ∉ line ∧ file = line ++ rest ∧ (rest = [] ∨ line.length = 998)) := by
  have delivered : readLine 998 file = (line, rest) := by
    cases file with
    | nil => simp [fgets] at read
    | cons byte tail => simpa [fgets] using read
  by_cases newline : 10 ∈ file.take 998
  · left
    obtain ⟨text, tail, split, absent⟩ := List.eq_append_cons_of_mem newline
    have whole : file = text ++ 10 :: (tail ++ file.drop 998) := by
      conv_lhs => rw [← List.take_append_drop 998 file, split]
      simp
    have short : text.length < 998 := by
      have := congrArg List.length split
      simp only [List.length_take, List.length_append, List.length_cons] at this
      omega
    rw [whole, readLine_newline 998 text _ absent short] at delivered
    cases delivered
    exact ⟨text, rfl, absent, by omega, whole⟩
  · right
    rw [readLine_text 998 file newline] at delivered
    cases delivered
    refine ⟨newline, (List.take_append_drop 998 file).symm, ?_⟩
    by_cases long : file.length ≤ 998
    · exact .inl (List.drop_eq_nil_of_le long)
    · exact .inr (by rw [List.length_take]; omega)

/-- Text before a newline passes its last byte on to the count. -/
theorem countNewlines_text (last : UInt8) (text rest : List UInt8) (noNewline : 10 ∉ text) :
    countNewlines last (text ++ rest) = countNewlines (text.getLastD last) rest := by
  induction text generalizing last with
  | nil => rfl
  | cons byte tail ih =>
      simp only [List.mem_cons, not_or] at noNewline
      simp only [List.cons_append, countNewlines, Ne.symm noNewline.1, false_and, if_false, Nat.zero_add,
        ih byte noNewline.2]
      cases tail <;> rfl

/-- A newline counts unless it follows another one. -/
theorem countNewlines_line (last : UInt8) (text rest : List UInt8) (noNewline : 10 ∉ text) :
    countNewlines last (text ++ 10 :: rest) =
      (if text = [] ∧ last = 10 then 0 else 1) + countNewlines 10 rest := by
  rw [countNewlines_text last text _ noNewline, countNewlines]
  cases text with
  | nil => by_cases h : last = 10 <;> simp [h]
  | cons byte tail =>
      have final : (byte :: tail).getLastD last ≠ 10 := by
        intro same
        apply noNewline
        rw [← same, List.getLastD_eq_getLast?, List.getLast?_eq_some_getLast (by simp)]
        exact List.getLast_mem _
      rw [if_pos ⟨rfl, final⟩, if_neg (by simp)]

/-- The counted newlines never outnumber the lines that the loader gets. -/
theorem countNewlines_le_fetched (last : UInt8) (file : List UInt8) :
    countNewlines last file ≤ (fetched file).length := by
  induction size : file.length using Nat.strongRecOn generalizing last file with
  | ind bytes ih =>
      cases read : fgets 999 file with
      | none => simp [fgets_none.mp read, countNewlines]
      | some result =>
          obtain ⟨line, rest⟩ := result
          have smaller : rest.length < bytes := size ▸ fgets_shorter read
          rw [fetched_some read, List.length_cons]
          rcases fgets_cases read with ⟨text, _, noNewline, _, whole⟩ | ⟨noNewline, whole, _⟩
          · have later := ih _ smaller 10 rest rfl
            rw [whole, countNewlines_line last text rest noNewline]
            split <;> omega
          · have later := ih _ smaller (line.getLastD last) rest rfl
            rw [whole, countNewlines_text last line rest noNewline]
            omega

/-- A file of newline-terminated lines that are neither blank nor longer than 997 bytes. -/
def AllTerminated (file : List UInt8) : Prop :=
  ∃ lines : List (List UInt8), file = (lines.map (· ++ [10])).flatten ∧
    ∀ line ∈ lines, line ≠ [] ∧ 10 ∉ line ∧ line.length ≤ 997

/-- A file with text after its last newline is none of them. -/
theorem not_allTerminated {file : List UInt8} (nonempty : file ≠ []) (last : file.getLast? ≠ some 10) :
    ¬ AllTerminated file := by
  rintro ⟨lines, rfl, _⟩
  rcases List.eq_nil_or_concat lines with rfl | ⟨before, line, rfl⟩
  · exact nonempty rfl
  · exact last (by simp)

/-- The two counts agree, so that the extra line of `count_lines` is missing, only on such files. -/
theorem countNewlines_eq_fetched_iff (file : List UInt8) :
    countNewlines 10 file = (fetched file).length ↔ AllTerminated file := by
  induction size : file.length using Nat.strongRecOn generalizing file with
  | ind bytes ih =>
      cases read : fgets 999 file with
      | none =>
          have empty := fgets_none.mp read
          subst empty
          simpa [countNewlines] using ⟨[], rfl, by simp⟩
      | some result =>
          obtain ⟨line, rest⟩ := result
          have smaller : rest.length < bytes := size ▸ fgets_shorter read
          rw [fetched_some read, List.length_cons]
          rcases fgets_cases read with ⟨text, _, noNewline, short, whole⟩ | ⟨noNewline, whole, reach⟩
          · rw [whole, countNewlines_line 10 text rest noNewline]
            have bound := countNewlines_le_fetched 10 rest
            by_cases blank : text = []
            · simp only [blank, and_self, if_true, Nat.zero_add, List.nil_append]
              refine ⟨fun equal => absurd equal (by omega), ?_⟩
              rintro ⟨lines, parts, good⟩
              cases lines with
              | nil => simp at parts
              | cons first others =>
                  obtain ⟨notBlank, noNewline', _⟩ := good first (by simp)
                  cases first with
                  | nil => exact absurd rfl notBlank
                  | cons byte tail =>
                      simp only [List.map_cons, List.flatten_cons, List.cons_append, List.cons.injEq] at parts
                      exact absurd (by simp [← parts.1]) noNewline'
            · simp only [blank, false_and, if_false]
              rw [Nat.add_comm 1, Nat.add_right_cancel_iff, ih _ smaller rest rfl]
              constructor
              · rintro ⟨lines, parts, good⟩
                refine ⟨text :: lines, by simp [parts], ?_⟩
                intro other member
                rcases List.mem_cons.mp member with rfl | later
                · exact ⟨blank, noNewline, short⟩
                · exact good other later
              · rintro ⟨lines, parts, good⟩
                cases lines with
                | nil => simp at parts
                | cons first others =>
                    obtain ⟨_, firstText, firstShort⟩ := good first (by simp)
                    have halves : text ++ 10 :: rest = first ++ 10 :: (others.map (· ++ [10])).flatten := by
                      simpa using parts
                    have taken := readLine_newline 998 text rest noNewline (by omega)
                    rw [halves, readLine_newline 998 first _ firstText (by omega), Prod.mk.injEq] at taken
                    exact ⟨others, taken.2.symm, fun other member => good other (by simp [member])⟩
          · have bound := countNewlines_le_fetched (line.getLastD 10) rest
            rw [whole, countNewlines_text 10 line rest noNewline]
            refine ⟨fun equal => absurd equal (by omega), ?_⟩
            rintro ⟨lines, parts, good⟩
            cases lines with
            | nil =>
                exfalso
                have := fgets_shorter read
                rw [whole, parts] at this
                simp at this
            | cons first others =>
                exfalso
                obtain ⟨notBlank, firstText, firstShort⟩ := good first (by simp)
                have halves : line ++ rest = first ++ 10 :: (others.map (· ++ [10])).flatten := by
                  simpa using parts
                rcases reach with rest_nil | full
                · rw [rest_nil, List.append_nil] at halves
                  exact noNewline (by rw [halves]; simp)
                · have taken := congrArg (List.take 998) halves
                  rw [List.take_left' full] at taken
                  apply noNewline
                  rw [taken, List.mem_take_iff_getElem]
                  exact ⟨first.length, by simp; omega, by simp⟩

/-- `count_lines` promises more lines than the loader gets exactly on such files. -/
theorem countLines_le_fetched_iff (file : List UInt8) :
    countLines file ≤ (fetched file).length ↔ ¬ AllTerminated file := by
  rw [← countNewlines_eq_fetched_iff, countLines]
  have := countNewlines_le_fetched 10 file
  omega

end MockOS.Proc
