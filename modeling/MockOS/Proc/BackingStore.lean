import MockOS.Lib.Iteration
import MockOS.Lib.LinkedList
import MockOS.Proc.Interpreter

namespace MockOS.Proc

open Lib (Halt)

/-- `strcat` into an array of `size` bytes, which has to hold the terminator too. -/
def strcat (size : Nat) (dest source : CString) : Except Halt CString :=
  if (dest ++ source).length < size then .ok (dest ++ source) else .error .undefined

/-- The strings that `run` and `exec` build for one script. -/
structure Copy where
  script : CString
  cmd : CString
  oldName : CString
  newName : CString
  deriving DecidableEq

/-- The loop that appends the letter a `new_name_count` times. -/
def appendLetters : Nat → CString → Except Halt CString
  | 0, oldName => .ok oldName
  | count + 1, oldName => do appendLetters count (← strcat 100 oldName [97])

def copyPrefix : CString := command ['c', 'p', ' ', '.', '/']

def storePrefix : CString := command ['.', '/', 'b', 'a', 'c', 'k', 'i', 'n', 'g', '_', 's', 't', 'o', 'r', 'e', '/']

def copyStrings (newNameCount : Nat) (script : CString) : Except Halt Copy := do
  let oldName ← strcat 100 [] script
  let cmd ← strcat 100 copyPrefix script
  let cmd ← strcat 100 cmd [32]
  let oldName ← appendLetters newNameCount oldName
  let newName ← strcat 100 storePrefix oldName
  let cmd ← strcat 100 cmd newName
  .ok ⟨script, cmd, oldName, newName⟩

/-- Each script raises `new_name_count`. -/
def copyStep (state : List Copy × Nat) (script : CString) : Except Halt (List Copy × Nat) :=
  (copyStrings state.2 script).map fun copy => (state.1 ++ [copy], state.2 + 1)

def copyScripts (newNameCount : Nat) (scripts : List CString) : Except Halt (List Copy × Nat) :=
  scripts.foldlM copyStep ([], newNameCount)

/-- The scripts that a command copies: `exec` copies a fourth one before it refuses it. -/
def copiedScripts (args : List CString) : List CString :=
  match args.map stripped with
  | [] => []
  | name :: scripts =>
      if name = command ['r', 'u', 'n'] ∧ scripts.length = 1 ∨
          name = command ['e', 'x', 'e', 'c'] ∧ 1 ≤ scripts.length ∧ scripts.length ≤ 4 then scripts
      else []

def sessionStep (newNameCount : Nat) (args : List CString) : Except Halt Nat :=
  (copyScripts newNameCount (copiedScripts args)).map (·.2)

/-- The value of `new_name_count` after the commands of a session. -/
def session (commands : List (List CString)) : Except Halt Nat := commands.foldlM sessionStep 1

/-- The script whose copy stands at a path: the last one copied to it. -/
def copyAt (copies : List Copy) (path : CString) : Option CString :=
  (copies.reverse.find? (·.newName = path)).map (·.script)

section Strings

variable {count : Nat} {script : CString}

/-- The strings for a script, as long as they fit. -/
def copyOf (count : Nat) (script : CString) : Copy where
  script := script
  cmd := copyPrefix ++ script ++ [32] ++ (storePrefix ++ (script ++ List.replicate count 97))
  oldName := script ++ List.replicate count 97
  newName := storePrefix ++ (script ++ List.replicate count 97)

theorem strcat_fits {size : Nat} {dest source : CString} (fits : (dest ++ source).length < size) :
    strcat size dest source = .ok (dest ++ source) := if_pos fits

theorem strcat_eq_ok {size : Nat} {dest source result : CString} (joins : strcat size dest source = .ok result) :
    (dest ++ source).length < size ∧ dest ++ source = result := by
  rw [strcat] at joins
  split_ifs at joins with fits
  exact ⟨fits, Except.ok.inj joins⟩

theorem appendLetters_spec (oldName : CString) (fits : oldName.length + count < 100) :
    appendLetters count oldName = .ok (oldName ++ List.replicate count 97) := by
  induction count generalizing oldName with
  | zero => simp [appendLetters]
  | succ count ih =>
      have one : strcat 100 oldName [97] = .ok (oldName ++ [97]) :=
        strcat_fits (by rw [List.length_append, List.length_singleton]; omega)
      have rest := ih (oldName ++ [97]) (by rw [List.length_append, List.length_singleton]; omega)
      simp only [appendLetters, one, bind, Except.bind, rest, List.append_assoc, List.singleton_append, List.replicate_succ]

theorem appendLetters_eq_ok {oldName result : CString} (appends : appendLetters count oldName = .ok result) :
    result = oldName ++ List.replicate count 97 := by
  induction count generalizing oldName with
  | zero => simpa [appendLetters, eq_comm] using appends
  | succ count ih =>
      rw [appendLetters, bind_eq_ok] at appends
      obtain ⟨longer, one, rest⟩ := appends
      rw [ih rest, ← (strcat_eq_ok one).2, List.replicate_succ, List.append_assoc, List.singleton_append]

theorem length_cmd : (copyOf count script).cmd.length = 22 + 2 * script.length + count := by
  simp only [copyOf, copyPrefix, storePrefix, command, CString.ofChars, List.length_append, List.length_map, List.length_cons,
    List.length_nil, List.length_replicate]
  omega

/-- The command is the longest of the strings. -/
theorem copyStrings_eq_ok_iff {copy : Copy} :
    copyStrings count script = .ok copy ↔ 22 + 2 * script.length + count < 100 ∧ copy = copyOf count script := by
  constructor
  · intro copies
    simp only [copyStrings, bind_eq_ok] at copies
    obtain ⟨oldName, old, first, copying, second, space, longName, letters, newName, stored, cmd, whole, same⟩ := copies
    obtain rfl := (strcat_eq_ok old).2
    obtain rfl := (strcat_eq_ok copying).2
    obtain rfl := (strcat_eq_ok space).2
    obtain rfl := appendLetters_eq_ok letters
    obtain rfl := (strcat_eq_ok stored).2
    obtain ⟨fits, rfl⟩ := strcat_eq_ok whole
    obtain rfl := Except.ok.inj same
    exact ⟨(@length_cmd count script).symm.trans_lt fits, rfl⟩
  · rintro ⟨fits, rfl⟩
    have sizes : storePrefix.length = 16 ∧ copyPrefix.length = 5 := ⟨rfl, rfl⟩
    have old : strcat 100 [] script = .ok script := strcat_fits (by rw [List.nil_append]; omega)
    have copying : strcat 100 copyPrefix script = .ok (copyPrefix ++ script) :=
      strcat_fits (by rw [List.length_append]; omega)
    have space : strcat 100 (copyPrefix ++ script) [32] = .ok (copyPrefix ++ script ++ [32]) :=
      strcat_fits (by rw [List.length_append, List.length_append, List.length_singleton]; omega)
    have letters : appendLetters count script = .ok (script ++ List.replicate count 97) := appendLetters_spec script (by omega)
    have stored : strcat 100 storePrefix (script ++ List.replicate count 97) = .ok (copyOf count script).newName :=
      strcat_fits (by rw [List.length_append, List.length_append, List.length_replicate]; omega)
    have whole : strcat 100 (copyPrefix ++ script ++ [32]) (copyOf count script).newName = .ok (copyOf count script).cmd :=
      strcat_fits (length_cmd.trans_lt fits)
    simp only [copyStrings, old, copying, space, letters, stored, whole, bind, Except.bind]
    rfl

end Strings

/-- Each script finds room for the command that copies it. -/
def FitsFrom (newNameCount : Nat) (scripts : List CString) : Prop :=
  ∀ numbered ∈ scripts.zipIdx newNameCount, 22 + 2 * numbered.1.length + numbered.2 < 100

/-- No script is a later one with the letters that stand between their counts. -/
def Separated (scripts : List CString) : Prop :=
  ∀ i j (first : i < scripts.length) (second : j < scripts.length), i < j →
    scripts[i] ≠ scripts[j] ++ List.replicate (j - i) 97

section Scripts

variable {count last : Nat} {scripts : List CString} {copies : List Copy}

def copiesOf (count : Nat) (scripts : List CString) : List Copy :=
  (scripts.zipIdx count).map fun numbered => copyOf numbered.2 numbered.1

theorem copySteps_eq_ok_iff (done : List Copy) :
    scripts.foldlM copyStep (done, count) = .ok (copies, last) ↔
      FitsFrom count scripts ∧ copies = done ++ copiesOf count scripts ∧ last = count + scripts.length := by
  induction scripts generalizing done count with
  | nil => simp [pure, Except.pure, FitsFrom, copiesOf, eq_comm]
  | cons script rest ih =>
      have split : FitsFrom count (script :: rest) ↔ 22 + 2 * script.length + count < 100 ∧ FitsFrom (count + 1) rest := by
        rw [FitsFrom, List.zipIdx_cons, List.forall_mem_cons]
        rfl
      have more : copiesOf count (script :: rest) = copyOf count script :: copiesOf (count + 1) rest := rfl
      rw [List.foldlM_cons, bind_eq_ok, split, more, List.length_cons]
      constructor
      · intro ⟨state, step, runs⟩
        cases copied : copyStrings count script with
        | error halt => simp [copyStep, copied, Except.map] at step
        | ok copy =>
            obtain ⟨fits, rfl⟩ := copyStrings_eq_ok_iff.mp copied
            obtain rfl : (done ++ [copyOf count script], count + 1) = state := by simpa [copyStep, copied, Except.map] using step
            obtain ⟨later, rfl, rfl⟩ := (ih _).mp runs
            exact ⟨⟨fits, later⟩, by rw [List.append_assoc, List.singleton_append], by omega⟩
      · rintro ⟨⟨fits, later⟩, rfl, rfl⟩
        refine ⟨(done ++ [copyOf count script], count + 1), ?_, (ih _).mpr ⟨later, ?_, by omega⟩⟩
        · simp [copyStep, copyStrings_eq_ok_iff.mpr ⟨fits, rfl⟩, Except.map]
        · rw [List.append_assoc, List.singleton_append]

theorem copyScripts_eq_ok_iff : copyScripts count scripts = .ok (copies, last) ↔
    FitsFrom count scripts ∧ copies = copiesOf count scripts ∧ last = count + scripts.length :=
  copySteps_eq_ok_iff []

theorem getElem_copiesOf {i : Nat} (inside : i < (copiesOf count scripts).length) (named : i < scripts.length) :
    (copiesOf count scripts)[i] = copyOf (count + i) scripts[i] := by
  simp [copiesOf]

theorem newName_eq_iff {i j : Nat} {first second : CString} (before : i < j) :
    (copyOf (count + i) first).newName = (copyOf (count + j) second).newName ↔ first = second ++ List.replicate (j - i) 97 := by
  have letters : List.replicate (count + j) (97 : UInt8) = List.replicate (j - i) 97 ++ List.replicate (count + i) 97 := by
    rw [← List.replicate_add]
    congr 1
    omega
  rw [copyOf, copyOf, letters, List.append_cancel_left_eq, ← List.append_assoc, List.append_cancel_right_eq]

theorem separated_iff (count : Nat) : ((copiesOf count scripts).map (·.newName)).Nodup ↔ Separated scripts := by
  have size : (copiesOf count scripts).length = scripts.length := by simp [copiesOf]
  rw [List.Nodup, List.pairwise_map, List.pairwise_iff_getElem]
  constructor
  · intro distinct i j first second before same
    refine distinct i j (by omega) (by omega) before ?_
    rw [getElem_copiesOf _ first, getElem_copiesOf _ second]
    exact (newName_eq_iff before).mpr same
  · intro separated i j first second before same
    rw [getElem_copiesOf _ (by omega), getElem_copiesOf _ (by omega)] at same
    exact separated i j (by omega) (by omega) before ((newName_eq_iff before).mp same)

theorem copyAt_newName (distinct : (copies.map (·.newName)).Nodup) {copy : Copy} (member : copy ∈ copies) :
    copyAt copies copy.newName = some copy.script := by
  rw [copyAt]
  cases found : copies.reverse.find? (·.newName = copy.newName) with
  | none =>
      have missing := List.find?_eq_none.mp found copy (List.mem_reverse.mpr member)
      simp at missing
  | some other =>
      have same : other.newName = copy.newName := by simpa using List.find?_some found
      have inside := List.mem_reverse.mp (List.mem_of_find?_eq_some found)
      rw [List.inj_on_of_nodup_map distinct inside member same]
      rfl

theorem copiesOf_script : (copiesOf count scripts).map (·.script) = scripts := by
  rw [copiesOf, List.map_map]
  exact List.zipIdx_map_fst count scripts

end Scripts

/-- The copies stand at different paths, and behind each path is the script that it was built for. -/
def OwnCopies (newNameCount : Nat) (scripts : List CString) : Prop :=
  ∃ copies last, copyScripts newNameCount scripts = .ok (copies, last) ∧ (copies.map (·.newName)).Nodup ∧
    copies.map (fun copy => copyAt copies copy.newName) = scripts.map some

theorem ownCopies_iff (newNameCount : Nat) (scripts : List CString) :
    OwnCopies newNameCount scripts ↔ FitsFrom newNameCount scripts ∧ Separated scripts := by
  constructor
  · intro ⟨copies, last, copied, distinct, _⟩
    obtain ⟨fits, rfl, -⟩ := copyScripts_eq_ok_iff.mp copied
    exact ⟨fits, (separated_iff newNameCount).mp distinct⟩
  · intro ⟨fits, separated⟩
    have distinct := (separated_iff newNameCount).mpr separated
    refine ⟨_, _, copyScripts_eq_ok_iff.mpr ⟨fits, rfl, rfl⟩, distinct, ?_⟩
    rw [List.map_congr_left fun copy member => copyAt_newName distinct member, ← Function.comp_def, ← List.map_map, copiesOf_script]

/-- `xa` with one letter and `x` with two are one path, and the process of `xa` is loaded from `x`. -/
theorem ownCopies_refuted : ∃ newNameCount scripts copies last, copyScripts newNameCount scripts = .ok (copies, last) ∧
    ¬ (copies.map (·.newName)).Nodup ∧
    copies.map (fun copy => copyAt copies copy.newName) = [some (.ofChars ['x']), some (.ofChars ['x'])] ∧
    copiedScripts [command ['e', 'x', 'e', 'c'], .ofChars ['x', 'a'], .ofChars ['x']] = scripts :=
  ⟨1, [.ofChars ['x', 'a'], .ofChars ['x']], copiesOf 1 [.ofChars ['x', 'a'], .ofChars ['x']], 3, by decide, by decide, by decide,
    by decide⟩

section Session

variable {count last : Nat} {commands : List (List CString)}

theorem fitsFrom_append {first second : List CString} :
    FitsFrom count (first ++ second) ↔ FitsFrom count first ∧ FitsFrom (count + first.length) second := by
  rw [FitsFrom, List.zipIdx_append, List.forall_mem_append, FitsFrom, FitsFrom]

theorem sessionSteps_eq_ok_iff : commands.foldlM sessionStep count = .ok last ↔
    FitsFrom count (commands.flatMap copiedScripts) ∧ last = count + (commands.flatMap copiedScripts).length := by
  induction commands generalizing count with
  | nil => simp [pure, Except.pure, FitsFrom, eq_comm]
  | cons args rest ih =>
      rw [List.foldlM_cons, bind_eq_ok, List.flatMap_cons, fitsFrom_append, List.length_append]
      constructor
      · intro ⟨next, step, runs⟩
        cases copied : copyScripts count (copiedScripts args) with
        | error halt => simp [sessionStep, copied, Except.map] at step
        | ok result =>
            obtain ⟨copies, reached⟩ := result
            obtain ⟨fits, -, rfl⟩ := copyScripts_eq_ok_iff.mp copied
            obtain rfl : count + (copiedScripts args).length = next := by simpa [sessionStep, copied, Except.map] using step
            obtain ⟨later, rfl⟩ := ih.mp runs
            exact ⟨⟨fits, later⟩, by omega⟩
      · rintro ⟨⟨fits, later⟩, rfl⟩
        refine ⟨count + (copiedScripts args).length, ?_, ih.mpr ⟨later, by omega⟩⟩
        simp [sessionStep, copyScripts_eq_ok_iff.mpr ⟨fits, rfl, rfl⟩, Except.map]

end Session

/-- The copied scripts of a session, each with the letters that are appended to it. -/
def numberedScripts (commands : List (List CString)) : List (CString × Nat) := (commands.flatMap copiedScripts).zipIdx 1

theorem session_fits_iff (commands : List (List CString)) :
    (∃ last, session commands = .ok last) ↔ ∀ numbered ∈ numberedScripts commands, 22 + 2 * numbered.1.length + numbered.2 < 100 :=
  ⟨fun ⟨_, runs⟩ => (sessionSteps_eq_ok_iff.mp runs).1, fun fits => ⟨_, sessionSteps_eq_ok_iff.mpr ⟨fits, rfl⟩⟩⟩

/-- Names of at most 20 characters fit as long as the session copies at most 37 of them. -/
theorem session_short {commands : List (List CString)} (names : ∀ args ∈ commands, ∀ script ∈ copiedScripts args, script.length ≤ 20)
    (few : (commands.flatMap copiedScripts).length ≤ 37) : ∃ last, session commands = .ok last := by
  refine ⟨_, sessionSteps_eq_ok_iff.mpr ⟨fun numbered member => ?_, rfl⟩⟩
  obtain ⟨-, below, same⟩ := List.mem_zipIdx member
  obtain ⟨args, inside, script⟩ := List.mem_flatMap.mp (same ▸ List.getElem_mem _)
  have short := names args inside numbered.1 script
  omega

theorem session_overflow : ∃ commands : List (List CString),
    (∀ args ∈ commands, ∀ script ∈ copiedScripts args, script.length ≤ 20) ∧ ¬ ∃ last, session commands = .ok last := by
  obtain ⟨name, nameEq⟩ : ∃ name : CString, name = List.replicate 20 98 := ⟨_, rfl⟩
  have single : copiedScripts [command ['r', 'u', 'n'], name] = [name] := by rw [nameEq]; decide
  refine ⟨List.replicate 38 [command ['r', 'u', 'n'], name], fun args member script copied => ?_, fun ⟨last, runs⟩ => ?_⟩
  · rw [List.eq_of_mem_replicate member, single, List.mem_singleton] at copied
    rw [copied, nameEq, List.length_replicate]
  · have fits := (sessionSteps_eq_ok_iff.mp runs).1 (name, 38)
    have copies : (List.replicate 38 [command ['r', 'u', 'n'], name]).flatMap copiedScripts = List.replicate 38 name := by
      simp [single]
    rw [copies, nameEq] at fits
    exact absurd (fits (by decide)) (by decide)

end MockOS.Proc
