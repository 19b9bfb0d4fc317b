import MockOS.A2.ScriptLines

namespace MockOS.A2

open MockOS.Proc (readLine readLine_append readLine_nonempty)

variable {lines : List (List UInt8)} {line file : List UInt8} {fp : Stream}

/-- A line that leaves bytes behind is full or ends with a newline. -/
theorem readLine_cut {room : Nat} (left : (readLine room file).2 ≠ []) :
    room ≤ (readLine room file).1.length ∨ (readLine room file).1.getLast? = some 10 := by
  induction room generalizing file with
  | zero => exact .inl (Nat.zero_le _)
  | succ room ih =>
      cases file with
      | nil => exact absurd rfl left
      | cons byte rest =>
          by_cases newline : byte = 10
          · right
            rw [readLine, if_pos newline, newline]
            rfl
          · rw [readLine, if_neg newline] at left ⊢
            rcases ih left with full | ended
            · exact .inl (Nat.succ_le_succ full)
            · right
              change (byte :: (readLine room rest).1).getLast? = some 10
              rw [List.getLast?_cons, ended, Option.getD_some]

/-- Reading the last line gets to the end of the file. -/
def noticed (line : List UInt8) : Bool := decide (line.length < 99) && line.getLast? != some 10

/-- The end of the file is noticed with the last line, and not by a call of `fgets` behind it. -/
def Stream.endsNoticed (fp : Stream) : Bool := ((fetched fp.rest).getLast?.map noticed).getD fp.eof

/-- The stream stands before these lines, and the end of the file is not noticed while there are any. -/
structure Stream.At (fp : Stream) (lines : List (List UInt8)) : Prop where
  rest : fetched fp.rest = lines
  eof : lines ≠ [] → fp.eof = false

theorem fetched_eq_nil : fetched file = [] ↔ file = [] := by
  by_cases empty : file = []
  · simp [empty]
  · simp [fetched_some empty, empty]

theorem length_fetched_le (file : List UInt8) : (fetched file).length ≤ file.length := by
  induction size : file.length using Nat.strongRecOn generalizing file with
  | ind size ih =>
      by_cases empty : file = []
      · simp [empty]
      · have shorter := readLine_shorter empty
        have rest := ih _ (size ▸ shorter) _ rfl
        rw [fetched_some empty, List.length_cons]
        omega

namespace Stream.At

theorem fopen (file : List UInt8) : (fopen file).At (fetched file) := ⟨rfl, fun _ => rfl⟩

theorem fgets_nil (here : fp.At []) : fgets fp = (none, ⟨[], true⟩) := by
  rw [fgets, if_pos (fetched_eq_nil.mp here.rest)]

/-- The next line is read, and the end of the file is noticed with the last line or not at all. -/
theorem fgets_cons (here : fp.At (line :: lines)) :
    (fgets fp).1 = some line ∧ (fgets fp).2.At lines ∧ (fgets fp).2.endsNoticed = fp.endsNoticed := by
  have parts := here.rest
  have some_byte : fp.rest ≠ [] := fun empty => by
    rw [empty, fetched_nil] at parts
    cases parts
  rw [fetched_some some_byte, List.cons.injEq] at parts
  obtain ⟨first, rest⟩ := parts
  have open' : fp.eof = false := here.eof (List.cons_ne_nil _ _)
  have state : (fgets fp).2 = ⟨(readLine 99 fp.rest).2, noticed line⟩ := by
    rw [fgets, if_neg some_byte, open', first]
    dsimp only
    rw [Bool.false_or, noticed]
  refine ⟨by rw [fgets, if_neg some_byte, first], ?_, ?_⟩
  · rw [state]
    refine ⟨rest, fun more => ?_⟩
    have left : (readLine 99 fp.rest).2 ≠ [] := fun empty => more (by rw [← rest, empty, fetched_nil])
    have cut := readLine_cut left
    rw [first] at cut
    rw [noticed]
    rcases cut with full | ended
    · rw [decide_eq_false (by omega), Bool.false_and]
    · simp [ended]
  · rw [state, endsNoticed, endsNoticed, rest, here.rest]
    cases lines with
    | nil => rfl
    | cons next lines => rw [List.getLast?_cons_cons, List.getLast?_cons, Option.map_some, Option.getD_some, Option.getD_some]

/-- Skipping lines of the file. -/
theorem skipLines (here : fp.At lines) (count : Nat) : (Kernel.skipLines count fp).At (lines.drop count) := by
  induction count generalizing fp lines with
  | zero => exact here
  | succ count ih =>
      cases lines with
      | nil =>
          rw [Kernel.skipLines, here.fgets_nil]
          exact ⟨fetched_nil, fun none => absurd rfl none⟩
      | cons line rest =>
          obtain ⟨read, behind, _⟩ := here.fgets_cons
          rw [Kernel.skipLines, ← Prod.eta (fgets fp), read]
          exact ih behind

/-- `countLines` counts one more line unless the end is noticed with the last one. -/
theorem countRounds (here : fp.At lines) {fuel : Nat} (enough : lines.length < fuel) :
    countRounds fuel fp = lines.length + if fp.endsNoticed then 0 else 1 := by
  induction fuel generalizing fp lines with
  | zero => exact absurd enough (Nat.not_lt_zero _)
  | succ fuel ih =>
      cases lines with
      | nil =>
          have seen : fp.endsNoticed = fp.eof := by rw [endsNoticed, here.rest]; rfl
          have stops : A2.countRounds fuel ⟨[], true⟩ = 0 := by cases fuel <;> rfl
          rw [A2.countRounds, seen, here.fgets_nil, stops, List.length_nil, Nat.zero_add, Nat.zero_add]
      | cons line rest =>
          obtain ⟨_, behind, same⟩ := here.fgets_cons
          rw [A2.countRounds, here.eof (List.cons_ne_nil _ _), if_neg Bool.false_ne_true, ih behind (Nat.lt_of_succ_lt_succ enough),
            same, List.length_cons]
          omega

end Stream.At

/-- `countPages` rounds up, unless a line behind the last one is counted that needs a page of its own. -/
theorem countPages_eq (file : List UInt8) (aligned : (fopen file).endsNoticed = false → (fetched file).length % 3 ≠ 0) :
    countPages file = ((fetched file).length + 2) / 3 := by
  rw [countPages, countLines, (Stream.At.fopen file).countRounds (Nat.lt_succ_of_le (length_fetched_le file))]
  cases seen : (fopen file).endsNoticed with
  | true =>
      rw [if_pos rfl]
      split <;> omega
  | false =>
      have uneven := aligned seen
      rw [if_neg Bool.false_ne_true]
      split <;> omega

end MockOS.A2
