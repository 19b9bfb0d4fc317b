import MockOS.Lib.LinkedList
import MockOS.Proc.Interpreter

namespace MockOS.Proc

open Lib (Halt whileLoop whileLoop_finished whileLoop_succ whileLoop_error)

/-- `MAX_USER_INPUT`, the size of `token` and of `tmp`. -/
def maxUserInput : Nat := 1000

/-- The loops read `token[a]` before they look at `a`: behind the array they do not end but leave it. -/
def insideToken (a : Nat) : Bool := decide (a < maxUserInput)

def skipChar (a : Nat) : Except Halt Nat := if insideToken a then .ok (a + 1) else .error .undefined

def spacesEnded (token : CString) (a : Nat) : Bool := insideToken a && charAt token a != 32

def copyEnded (token : CString) (state : Nat × CString) : Bool :=
  insideToken state.1 && (charAt token state.1 == 0 || charAt token state.1 == 32)

/-- `tmp[b] = token[a]`. -/
def copyChar (token : CString) (state : Nat × CString) : Except Halt (Nat × CString) :=
  if insideToken state.1 && decide (state.2.length < maxUserInput) then .ok (state.1 + 1, state.2 ++ [charAt token state.1])
  else .error .undefined

/-- The variables of the loop over the words. -/
structure Splitting where
  a : Nat
  words : List CString
  broken : Bool

def Splitting.ended (token : CString) (splitting : Splitting) : Bool :=
  splitting.broken || (insideToken splitting.a && charAt token splitting.a == 0)

/-- A round stores one word, in an array of 100. -/
def splitRound (fuel : Nat) (token : CString) (splitting : Splitting) : Except Halt Splitting := do
  let (a, tmp) ← whileLoop (copyEnded token) (copyChar token) fuel (splitting.a, [])
  if maxUserInput ≤ tmp.length then .error .undefined
  else if 100 ≤ splitting.words.length then .error .undefined
  else .ok ⟨a + 1, splitting.words ++ [tmp], charAt token a == 0⟩

/-- The words that `parseInput` passes to `interpreter` for one section; `strcpy` has to find room in `token`. -/
def splitSection (fuel : Nat) (token : CString) : Except Halt (List CString) := do
  if maxUserInput ≤ token.length then .error .undefined
  else
    let a ← whileLoop (spacesEnded token) skipChar fuel 0
    let splitting ← whileLoop (Splitting.ended token) (splitRound fuel token) fuel ⟨a, [], false⟩
    .ok splitting.words

/-- The loop of `set` that joins the values in `buffer`, an array of 505 bytes; `none` is a value that is refused. -/
def fillBuffer : CString → List CString → Except Halt (Option CString)
  | buffer, [] => .ok (some buffer)
  | buffer, value :: rest =>
      if !isAlphaNumStr value then .ok none
      else if 505 ≤ (buffer ++ value).length then .error .undefined
      else if rest = [] then .ok (some (buffer ++ value))
      else if 505 ≤ (buffer ++ value ++ [32]).length then .error .undefined
      else fillBuffer (buffer ++ value ++ [32]) rest

/-- `set` as far as the buffer: the variable and its value. -/
def setCommand (args : List CString) : Except Halt (Option (CString × CString)) :=
  match args.map stripped with
  | name :: var :: value :: values =>
      if name = command ['s', 'e', 't'] ∧ isAlphaNumStr var then
        (fillBuffer [] (value :: values)).map fun buffer => buffer.map (var, ·)
      else .ok none
  | _ => .ok none

section Scan

variable {token rest : CString} {a fuel : Nat}

theorem skipSpaces_spec (short : token.length < maxUserInput) (here : token.drop a = rest) (inside : a < maxUserInput)
    (enough : rest.length ≤ fuel) : ∃ last, whileLoop (spacesEnded token) skipChar fuel a = .ok last ∧
      token.drop last = rest.dropWhile (· = 32) ∧ last < maxUserInput := by
  induction rest generalizing a fuel with
  | nil =>
      have read : charAt token a = 0 := by rw [charAt_eq, here]; rfl
      exact ⟨a, whileLoop_finished (by simp [spacesEnded, insideToken, inside, read]) _, here, inside⟩
  | cons char rest ih =>
      have read : charAt token a = char := by rw [charAt_eq, here]; rfl
      by_cases space : char = 32
      · have before : a < token.length := by
          have size := congrArg List.length here
          rw [List.length_drop, List.length_cons] at size
          omega
        obtain ⟨less, rfl⟩ : ∃ less, fuel = less + 1 := ⟨fuel - 1, by rw [List.length_cons] at enough; omega⟩
        have goes : spacesEnded token a = false := by simp [spacesEnded, read, space]
        have step : skipChar a = .ok (a + 1) := by simp [skipChar, insideToken, inside]
        rw [whileLoop_succ goes step, List.dropWhile_cons, if_pos (by simp [space])]
        exact ih (drop_succ here) (by omega) (by simpa using enough)
      · rw [List.dropWhile_cons, if_neg (by simp [space])]
        exact ⟨a, whileLoop_finished (by simp [spacesEnded, insideToken, inside, read, space]) _, here, inside⟩

/-- A word ends at a space or at the terminator, and always fits `tmp`. -/
theorem copyWord_spec (short : token.length < maxUserInput) (nulFree : 0 ∉ token) (here : token.drop a = rest)
    (inside : a < maxUserInput) (enough : rest.length ≤ fuel) (tmp : CString) (started : tmp.length ≤ a) :
    whileLoop (copyEnded token) (copyChar token) fuel (a, tmp) =
      .ok (a + (rest.takeWhile (· ≠ 32)).length, tmp ++ rest.takeWhile (· ≠ 32)) := by
  induction rest generalizing a fuel tmp with
  | nil =>
      have read : charAt token a = 0 := by rw [charAt_eq, here]; rfl
      rw [whileLoop_finished (by simp [copyEnded, insideToken, inside, read])]
      simp
  | cons char rest ih =>
      have read : charAt token a = char := by rw [charAt_eq, here]; rfl
      have before : a < token.length := by
        have size := congrArg List.length here
        rw [List.length_drop, List.length_cons] at size
        omega
      have notNul : char ≠ 0 := by
        have member : char ∈ token.drop a := by rw [here]; exact List.mem_cons_self
        exact ne_of_mem_of_not_mem (List.mem_of_mem_drop member) nulFree
      by_cases space : char = 32
      · rw [whileLoop_finished (by simp [copyEnded, insideToken, inside, read, space])]
        simp [space]
      · obtain ⟨less, rfl⟩ : ∃ less, fuel = less + 1 := ⟨fuel - 1, by rw [List.length_cons] at enough; omega⟩
        have goes : copyEnded token (a, tmp) = false := by simp [copyEnded, read, space, notNul]
        have room : tmp.length < maxUserInput := by omega
        have step : copyChar token (a, tmp) = .ok (a + 1, tmp ++ [char]) := by simp [copyChar, insideToken, inside, room, read]
        rw [whileLoop_succ goes step, ih (drop_succ here) (by omega) (by simpa using enough) (tmp ++ [char])
          (by rw [List.length_append, List.length_singleton]; omega)]
        simp [space, Nat.add_assoc, Nat.add_comm 1]

end Scan

section Words

theorem splitWords_cons (word text : CString) (nonempty : text ≠ []) :
    splitWords word text = (word.reverse ++ text.takeWhile (· ≠ 32)) :: splitWords [] (text.dropWhile (· ≠ 32)).tail := by
  induction text generalizing word with
  | nil => exact absurd rfl nonempty
  | cons char rest ih =>
      by_cases space : char = 32
      · simp [splitWords, space]
      · rw [splitWords, if_neg space, List.takeWhile_cons_of_pos (by simpa using space), List.dropWhile_cons_of_pos (by simpa using space)]
        cases rest with
        | nil => simp [splitWords]
        | cons next rest => rw [ih (char :: word) (by simp)]; simp

/-- The loop stores the words as long as there is room for them. -/
theorem splitRounds_spec {token rest : CString} {fuel : Nat} (short : token.length + 1 < maxUserInput) (nulFree : 0 ∉ token)
    (enough : token.length ≤ fuel) (rounds : Nat) (splitting : Splitting) (here : token.drop splitting.a = rest)
    (inside : splitting.a < maxUserInput) (going : splitting.broken = false) (left : rest.length ≤ rounds)
    (room : splitting.words.length ≤ 100) :
    (splitting.words.length + (splitWords [] rest).length ≤ 100 → ∃ final,
      whileLoop (Splitting.ended token) (splitRound fuel token) rounds splitting = .ok final ∧
        final.words = splitting.words ++ splitWords [] rest) ∧
    (100 < splitting.words.length + (splitWords [] rest).length →
      whileLoop (Splitting.ended token) (splitRound fuel token) rounds splitting = .error .undefined) := by
  induction rounds generalizing splitting rest with
  | zero =>
      obtain rfl : rest = [] := List.length_eq_zero_iff.mp (Nat.le_zero.mp left)
      have read : charAt token splitting.a = 0 := by rw [charAt_eq, here]; rfl
      have ended : splitting.ended token = true := by simp [Splitting.ended, insideToken, inside, read]
      refine ⟨fun _ => ⟨splitting, whileLoop_finished ended _, by simp [splitWords]⟩, fun many => ?_⟩
      simp only [splitWords, List.length_nil] at many
      omega
  | succ rounds ih =>
      cases rest with
      | nil =>
          have read : charAt token splitting.a = 0 := by rw [charAt_eq, here]; rfl
          have ended : splitting.ended token = true := by simp [Splitting.ended, insideToken, inside, read]
          refine ⟨fun _ => ⟨splitting, whileLoop_finished ended _, by simp [splitWords]⟩, fun many => ?_⟩
          simp only [splitWords, List.length_nil] at many
          omega
      | cons char rest =>
          have read : charAt token splitting.a = char := by rw [charAt_eq, here]; rfl
          have notNul : char ≠ 0 := by
            have member : char ∈ token.drop splitting.a := by rw [here]; exact List.mem_cons_self
            exact ne_of_mem_of_not_mem (List.mem_of_mem_drop member) nulFree
          have goes : splitting.ended token = false := by simp [Splitting.ended, going, read, notNul]
          have sizes := congrArg List.length here
          rw [List.length_drop, List.length_cons] at sizes
          obtain ⟨word, wordEq⟩ : ∃ word, word = (char :: rest).takeWhile (· ≠ 32) := ⟨_, rfl⟩
          obtain ⟨after, afterEq⟩ : ∃ after, after = (char :: rest).dropWhile (· ≠ 32) := ⟨_, rfl⟩
          have parts : word ++ after = char :: rest := by rw [wordEq, afterEq, List.takeWhile_append_dropWhile]
          have lengths := congrArg List.length parts
          rw [List.length_append, List.length_cons] at lengths
          have copies : whileLoop (copyEnded token) (copyChar token) fuel (splitting.a, []) =
              .ok (splitting.a + word.length, word) := by
            rw [copyWord_spec (by omega) nulFree here inside (by rw [List.length_cons]; omega) [] (Nat.zero_le _), ← wordEq,
              List.nil_append]
          have behind : token.drop (splitting.a + word.length) = after := by
            rw [← List.drop_drop, here, ← parts, List.drop_left]
          have words : splitWords [] (char :: rest) = word :: splitWords [] after.tail := by
            rw [splitWords_cons [] _ (by simp), ← wordEq, ← afterEq]
            rfl
          rw [words, List.length_cons]
          by_cases full : 100 ≤ splitting.words.length
          · refine ⟨fun few => by omega, fun _ => whileLoop_error goes ?_ rounds⟩
            simp only [splitRound, copies, bind, Except.bind, if_pos full, ite_self]
          · obtain ⟨next, nextEq⟩ : ∃ next : Splitting, next = ⟨splitting.a + word.length + 1, splitting.words ++ [word],
              charAt token (splitting.a + word.length) == 0⟩ := ⟨_, rfl⟩
            have step : splitRound fuel token splitting = .ok next := by
              have fits : ¬ maxUserInput ≤ word.length := by omega
              simp only [splitRound, copies, bind, Except.bind, if_neg fits, if_neg full, nextEq]
            have nextWords : next.words = splitting.words ++ [word] := by rw [nextEq]
            rw [whileLoop_succ goes step]
            cases after with
            | nil =>
                have ended : next.ended token = true := by
                  have nul : charAt token (splitting.a + word.length) = 0 := by rw [charAt_eq, behind]; rfl
                  simp [Splitting.ended, nextEq, nul]
                refine ⟨fun _ => ⟨next, whileLoop_finished ended _, by rw [nextWords]; rfl⟩, fun many => ?_⟩
                simp only [List.tail_nil, splitWords, List.length_nil] at many
                omega
            | cons space later =>
                have isSpace : space = 32 := by
                  have fails := List.head?_dropWhile_not (fun char => decide (char ≠ 32)) (char :: rest)
                  rw [← afterEq] at fails
                  simpa using fails
                have nextRead : charAt token (splitting.a + word.length) = 32 := by rw [charAt_eq, behind, isSpace]; rfl
                rw [List.length_cons] at lengths
                have result := ih next (show token.drop next.a = later by rw [nextEq]; exact drop_succ behind)
                  (by rw [nextEq]; simp only; omega) (by rw [nextEq, nextRead]; rfl)
                  (by rw [List.length_cons] at left; omega) (by rw [nextWords, List.length_append, List.length_singleton]; omega)
                rw [nextWords, List.length_append, List.length_singleton, List.append_assoc] at result
                rw [List.tail_cons, Nat.add_comm _ 1, ← Nat.add_assoc]
                exact result

/-- A section is split into `words`, unless they are more than the array holds. -/
theorem splitSection_spec {token : CString} {fuel : Nat} (short : token.length + 1 < maxUserInput) (nulFree : 0 ∉ token)
    (enough : token.length ≤ fuel) :
    splitSection fuel token = if (words token).length ≤ 100 then .ok (words token) else .error .undefined := by
  have fits : ¬ maxUserInput ≤ token.length := by omega
  obtain ⟨a, skips, here, inside⟩ := skipSpaces_spec (by omega) (show token.drop 0 = token from rfl) (by decide) enough
  have size : (token.dropWhile (· = 32)).length ≤ fuel := ((List.dropWhile_sublist _).length_le).trans enough
  obtain ⟨stored, overflows⟩ := splitRounds_spec short nulFree enough fuel ⟨a, [], false⟩ here inside rfl size (Nat.zero_le _)
  rw [List.length_nil, Nat.zero_add] at stored overflows
  simp only [splitSection, if_neg fits, skips, bind, Except.bind]
  by_cases few : (words token).length ≤ 100
  · obtain ⟨final, runs, same⟩ := stored few
    rw [if_pos few, runs]
    exact congrArg Except.ok same
  · rw [if_neg few, overflows (not_le.mp few)]

end Words

end MockOS.Proc
