import MockOS.Fs.CopyOut
import MockOS.Fs.PlainRuns

namespace MockOS.Fs

/-- `strcpy(buf + currentInd, text)` with the terminator of the text. -/
def strcpyAt (buf : Nat → UInt8) (currentInd : Nat) (text : CString) : Nat → UInt8 := fun index =>
  if index < currentInd ∨ currentInd + text.length < index then buf index else text.getD (index - currentInd) 0

/-- The loop of the shell's `write` over its words: each is copied behind the last, and a space behind it. -/
def joinWords : List CString → (Nat → UInt8) → Nat → (Nat → UInt8) × Nat
  | [], buf, currentInd => (buf, currentInd)
  | word :: words, buf, currentInd =>
      let buf := strcpyAt buf currentInd word
      let currentInd := currentInd + word.length
      joinWords words (strcpyAt buf currentInd [32]) (currentInd + 1)

/-- The buffer of the shell's `write`, whose last space is replaced. -/
def writeBuffer (words : List CString) : Nat → UInt8 :=
  let (buf, currentInd) := joinWords words (fun _ => 0) 0
  Function.update buf (currentInd - 1) 0

/-- The lengths of the words and `args_size - 1`. -/
def writeSize (words : List CString) : Nat := (words.map List.length).sum + (words.length + 1)

/-- The result of `fsutil_write` in the shell's `write`, none when there are too few arguments. -/
def shellWrite (fileName : CString) (words : List CString) : Action (Option Int) :=
  if words = [] then pure none
  -- the size does not fit in an `int`, so the words are copied behind the buffer
  else if 2147483648 ≤ writeSize words then undefined
  else do pure (some (← fsutilWrite fileName (writeBuffer words) (writeSize words)))

/-- Commands `write` on one file. -/
def shellWrites (fileName : CString) : List (List CString) → Action (List (Option Int))
  | [] => pure []
  | words :: rest => do
      let result ← shellWrite fileName words
      pure (result :: (← shellWrites fileName rest))

/-- The words joined by single spaces. -/
def textOf (words : List CString) : CString := [32].intercalate words

/-- The bytes of a file after a text and two zeros were stored at a position. -/
def appendText (bytes : List UInt8) (pos : Nat) (text : CString) : List UInt8 :=
  (bytes ++ List.replicate (pos - bytes.length) 0).take pos ++ (text ++ [0, 0]) ++ bytes.drop (pos + text.length + 2)

variable {shared : BlockSector → Prop} {own : Owners} {world next : World} {nodes : Nodes} {sector : BlockSector}
  {root data : InodeDisk} {entries : List DirEntry} {name : CString} {words : List CString}

theorem textOf_cons (word next : CString) (words : List CString) :
    textOf (word :: next :: words) = word ++ [32] ++ textOf (next :: words) := by
  simp [textOf, List.intercalate]

theorem writeSize_eq (some_word : words ≠ []) : writeSize words = (textOf words).length + 2 := by
  induction words with
  | nil => exact absurd rfl some_word
  | cons word words ih =>
      cases words with
      | nil => simp [writeSize, textOf, List.intercalate]
      | cons next words =>
          have later := ih (List.cons_ne_nil _ _)
          rw [textOf_cons]
          simp only [writeSize, List.map_cons, List.sum_cons, List.length_cons, List.length_append, List.length_nil] at later ⊢
          omega

theorem strcpyAt_end (start text : CString) :
    strcpyAt (fun index => start.getD index 0) start.length text = fun index => (start ++ text).getD index 0 := by
  funext index
  rw [strcpyAt]
  by_cases before : index < start.length
  · rw [if_pos (.inl before), List.getD_append _ _ _ _ before]
  · rw [List.getD_append_right _ _ _ _ (by omega)]
    split_ifs with outside
    · rw [List.getD_eq_default _ _ (by omega), List.getD_eq_default _ _ (by omega)]
    · rfl

/-- What the loop leaves in the buffer: the text so far, the words with their spaces, and zeros. -/
theorem joinWords_buffer (words : List CString) (start : CString) :
    joinWords words (fun index => start.getD index 0) start.length =
      (fun index => (start ++ words.flatMap (· ++ [32])).getD index 0, (start ++ words.flatMap (· ++ [32])).length) := by
  induction words generalizing start with
  | nil => rw [joinWords, List.flatMap_nil, List.append_nil]
  | cons word words ih =>
      have length : start.length + word.length + 1 = (start ++ word ++ [32]).length := by simp [Nat.add_assoc]
      rw [joinWords, strcpyAt_end, ← List.length_append, strcpyAt_end, List.length_append, length, ih, List.flatMap_cons]
      simp only [List.append_assoc]

theorem flatMap_spaces (some_word : words ≠ []) :
    words.flatMap (· ++ [32]) = textOf words ++ [32] := by
  induction words with
  | nil => exact absurd rfl some_word
  | cons word words ih =>
      cases words with
      | nil => simp [textOf, List.intercalate]
      | cons next words =>
          rw [List.flatMap_cons, ih (List.cons_ne_nil _ _), textOf_cons]
          simp only [List.append_assoc]

/-- The buffer holds the text and zeros. -/
theorem writeBuffer_eq (some_word : words ≠ []) :
    writeBuffer words = fun index => (textOf words).getD index 0 := by
  have joined := joinWords_buffer words []
  rw [List.nil_append, flatMap_spaces some_word] at joined
  unfold writeBuffer
  rw [show (fun _ : Nat => (0 : UInt8)) = fun index => ([] : CString).getD index 0 from rfl]
  change (let (buf, currentInd) := joinWords words _ ([] : CString).length; Function.update buf (currentInd - 1) 0) = _
  rw [joined]
  funext index
  dsimp only
  rw [List.length_append, List.length_singleton, Nat.add_sub_cancel]
  by_cases here : index = (textOf words).length
  · rw [here, Function.update_self, List.getD_eq_default _ _ (Nat.le_refl _)]
  · rw [Function.update_of_ne here]
    by_cases before : index < (textOf words).length
    · rw [List.getD_append _ _ _ _ before]
    · rw [List.getD_eq_default _ _ (by rw [List.length_append, List.length_singleton]; omega),
        List.getD_eq_default _ _ (by omega)]

/-- The terminator that `file_write` stores is already there. -/
theorem terminated_text (text : CString) :
    terminated (fun index => text.getD index 0) (text.length + 2 : Nat) = fun index => text.getD index 0 := by
  rw [terminated, show (((text.length + 2 : Nat) : Int) - 1).toNat = text.length + 1 by omega]
  exact Function.update_eq_self_iff.mpr (List.getD_eq_default _ _ (Nat.le_succ _)).symm

theorem length_appendText (bytes : List UInt8) (pos : Nat) (text : CString) :
    (appendText bytes pos text).length = max bytes.length (pos + text.length + 2) := by
  simp only [appendText, List.length_append, List.length_take, List.length_replicate, List.length_drop, List.length_cons,
    List.length_nil]
  omega

/-- The bytes of a text that was stored. -/
theorem getD_appendText (bytes : List UInt8) (pos : Nat) (text : CString) (index : Nat) :
    (appendText bytes pos text).getD index 0 =
      if pos ≤ index ∧ index < pos + text.length + 2 then text.getD (index - pos) 0 else bytes.getD index 0 := by
  have front : ((bytes ++ List.replicate (pos - bytes.length) 0).take pos).length = pos := by
    rw [List.length_take, List.length_append, List.length_replicate]
    omega
  have middle : (text ++ ([0, 0] : List UInt8)).length = text.length + 2 := by simp
  rw [appendText, List.append_assoc]
  by_cases before : index < pos
  · rw [if_neg (by omega), List.getD_append _ _ _ _ (by omega), List.getD_eq_getElem?_getD, List.getElem?_take,
      if_pos before, List.getElem?_append, List.getElem?_replicate, List.getD_eq_getElem?_getD]
    split_ifs with inside
    · rfl
    · rw [List.getElem?_eq_none (by omega)]
      rfl
    · omega
  · rw [List.getD_append_right _ _ _ _ (by omega), front]
    by_cases inside : index < pos + text.length + 2
    · rw [if_pos ⟨by omega, inside⟩, List.getD_append _ _ _ _ (by omega)]
      by_cases inText : index - pos < text.length
      · rw [List.getD_append _ _ _ _ inText]
      · rw [List.getD_append_right _ _ _ _ (by omega), List.getD_eq_default text _ (by omega)]
        rcases Nat.lt_or_ge (index - pos - text.length) 1 with low | high
        · rw [show index - pos - text.length = 0 by omega]
          rfl
        · rw [show index - pos - text.length = 1 by omega]
          rfl
    · rw [if_neg (by omega), List.getD_append_right _ _ _ _ (by omega), middle, List.getD_eq_getElem?_getD,
        List.getElem?_drop, List.getD_eq_getElem?_getD,
        show pos + text.length + 2 + (index - pos - (text.length + 2)) = index by omega]

theorem ext_getD {first second : List UInt8} (length : first.length = second.length)
    (same : ∀ index, first.getD index 0 = second.getD index 0) : first = second := by
  apply List.ext_getElem length
  intro index inside inSecond
  have here := same index
  rwa [List.getD_eq_getElem _ _ inside, List.getD_eq_getElem _ _ inSecond] at here

theorem overwrite_text (bytes : List UInt8) (pos : Nat) (text : CString) :
    overwrite bytes pos (text.length + 2) (fun index => text.getD index 0) = appendText bytes pos text := by
  have length : (overwrite bytes pos (text.length + 2) fun index => text.getD index 0).length =
      max bytes.length (pos + text.length + 2) := length_overwrite _ _ _ _
  refine ext_getD (length.trans (length_appendText bytes pos text).symm) fun index => ?_
  rw [getD_appendText]
  by_cases inside : index < max bytes.length (pos + text.length + 2)
  · rw [List.getD_eq_getElem _ _ (length ▸ inside)]
    simp only [overwrite, List.getElem_map, List.getElem_range, Nat.add_assoc]
  · rw [List.getD_eq_default _ _ (by omega), if_neg (by omega), List.getD_eq_default _ _ (by omega)]

/-- A text behind another one is stored over its two zeros. -/
theorem appendText_appendText (bytes : List UInt8) (pos : Nat) (first second : CString) :
    appendText (appendText bytes pos first) (pos + first.length) second = appendText bytes pos (first ++ second) := by
  refine ext_getD ?_ fun index => ?_
  · simp only [length_appendText, List.length_append]
    omega
  · simp only [getD_appendText, List.length_append]
    by_cases inFirst : index < pos + first.length
    · rw [if_neg (by omega)]
      by_cases before : index < pos
      · rw [if_neg (by omega), if_neg (by omega)]
      · rw [if_pos (by omega), if_pos (by omega), List.getD_append _ _ _ _ (by omega)]
    · by_cases inSecond : index < pos + first.length + second.length + 2
      · rw [if_pos (by omega), if_pos (by omega), List.getD_append_right _ _ _ _ (by omega), Nat.sub_sub]
      · rw [if_neg (by omega), if_neg (by omega), if_neg (by omega)]

theorem AtPrompt.orderly (prompt : AtPrompt own shared nodes root entries world) (rest : world.AtRest shared) :
    ∃ own' nodes' root', Orderly own' shared nodes' root' entries world := by
  obtain ⟨own', nodes', root', entries', other⟩ := rest
  obtain rfl := prompt.toMounted.rootEntries.symm.trans other.toMounted.rootEntries
  exact ⟨own', nodes', root', other⟩

/-- A shell write that stores all its bytes appends its text. -/
theorem Orderly.shellWrite (orderly : Orderly own shared nodes root entries world) (plain : PlainName name)
    (named : Named entries name sector) (some_word : words ≠ [])
    (ran : run (MockOS.Fs.shellWrite name words) world = some (some (writeSize words : Int), next)) :
    ∃ own' nodes' root', Orderly own' shared nodes' root' entries next ∧
      next.inodeBytes sector = appendText (world.inodeBytes sector) (world.position name).toNat (textOf words) ∧
      next.position name = world.position name + (textOf words).length := by
  have size := writeSize_eq some_word
  rw [MockOS.Fs.shellWrite, if_neg some_word] at ran
  by_cases long : 2147483648 ≤ writeSize words
  · rw [if_pos long] at ran
    cases ran
  rw [if_neg long] at ran
  obtain ⟨value, last, writes, rest⟩ := run_bind_some.mp ran
  rw [run_pure, Option.some.injEq, Prod.mk.injEq, Option.some.injEq] at rest
  obtain ⟨full, rfl⟩ := rest
  obtain ⟨again, next, ranAgain, after⟩ := orderly.fsutilWrite plain (writeBuffer words)
    (show (2 : Int) ≤ writeSize words by omega) (by omega)
  rw [writes, Option.some.injEq, Prod.mk.injEq] at ranAgain
  obtain ⟨rfl, rfl⟩ := ranAgain
  obtain ⟨_, _, ranAgain, outcome⟩ := orderly.toAtPrompt.fsutilWrite (orderly.usable plain) (orderly.positions name)
    (writeBuffer words) (show (1 : Int) ≤ writeSize words by omega) (by omega)
  rw [writes, Option.some.injEq, Prod.mk.injEq] at ranAgain
  obtain ⟨rfl, rfl⟩ := ranAgain
  rcases outcome with ⟨absent, _⟩ | ⟨_, nodes', _, file, inode, number, before, dataAfter, _, _, prompt, _, _, present, there,
    handle, ⟨_, stores⟩ | ⟨failed, _⟩⟩
  · exact absurd named (by rw [plain.fileName] at absent; exact absent sector)
  · have isNamed := handle.named
    rw [plain.fileName] at isNamed
    obtain rfl := orderly.tidy.sector_unique named isNamed
    obtain ⟨own', nodes'', root', orderly'⟩ := prompt.orderly (after (by omega))
    refine ⟨own', nodes'', root', orderly', ?_, ?_⟩
    · obtain ⟨_, _, _, data, thereBefore, _, tail⟩ := orderly.regular name sector named
      obtain rfl : before = data := Option.some.inj (present.symm.trans thereBefore)
      rw [World.inodeBytes, prompt.toMounted.inodeData there, World.inodeBytes, orderly.toMounted.inodeData present,
        (stores.bytes tail).2, writeBuffer_eq some_word, size, terminated_text, ← overwrite_text]
      rfl
    · rw [handle.position, full, size]
      omega
  · omega

/-- Successful shell writes to an open file append their texts, over the two zeros of the one before. -/
theorem Orderly.shellWrites (orderly : Orderly own shared nodes root entries world) (plain : PlainName name)
    (named : Named entries name sector) {commands : List (List CString)} (some_word : ∀ words ∈ commands, words ≠ [])
    (some_command : commands ≠ [])
    (ran : run (MockOS.Fs.shellWrites name commands) world =
      some (commands.map fun words => some (writeSize words : Int), next)) :
    ∃ own' nodes' root', Orderly own' shared nodes' root' entries next ∧
      next.inodeBytes sector =
        appendText (world.inodeBytes sector) (world.position name).toNat (commands.flatMap textOf) ∧
      next.position name = world.position name + (commands.flatMap textOf).length := by
  induction commands generalizing own nodes root world with
  | nil => exact absurd rfl some_command
  | cons words rest ih =>
      rw [MockOS.Fs.shellWrites, List.map_cons] at ran
      obtain ⟨result, middle, writes, ran⟩ := run_bind_some.mp ran
      obtain ⟨results, last, others, ran⟩ := run_bind_some.mp ran
      rw [run_pure, Option.some.injEq, Prod.mk.injEq, List.cons.injEq] at ran
      obtain ⟨⟨rfl, rfl⟩, rfl⟩ := ran
      obtain ⟨own₁, nodes₁, root₁, orderly₁, bytes₁, position₁⟩ :=
        orderly.shellWrite plain named (some_word words List.mem_cons_self) writes
      by_cases single : rest = []
      · subst single
        rw [MockOS.Fs.shellWrites, run_pure, Option.some.injEq, Prod.mk.injEq] at others
        obtain ⟨-, rfl⟩ := others
        rw [List.flatMap_singleton]
        exact ⟨own₁, nodes₁, root₁, orderly₁, bytes₁, position₁⟩
      · obtain ⟨own₂, nodes₂, root₂, orderly₂, bytes₂, position₂⟩ :=
          ih orderly₁ (fun words member => some_word words (List.mem_cons_of_mem _ member)) single others
        have low := orderly.positions name
        refine ⟨own₂, nodes₂, root₂, orderly₂, ?_, ?_⟩
        · rw [bytes₂, bytes₁, position₁, List.flatMap_cons, ← appendText_appendText]
          congr 1
          omega
        · rw [position₂, position₁, List.flatMap_cons, List.length_append]
          push_cast
          omega

/-- In every state of a run on plain names in which no write failed, successful shell writes to an open file append their
texts and two zeros at its position. -/
theorem shellWrites_append {deviceSize : UInt32} {garbage : Nat → UInt8} {disk : BlockSector → Sector} {start : World}
    (fits : FormatFits deviceSize) (formatted : run (filesysInit true) ⟨.boot deviceSize garbage, disk⟩ = some ((), start))
    (reached : start.PlainRun world) (plain : PlainName name) {entry : CString × Pointer}
    (isOpen : world.handle name = some entry) {commands : List (List CString)} (some_command : commands ≠ [])
    (some_word : ∀ words ∈ commands, words ≠ [])
    (ran : run (MockOS.Fs.shellWrites name commands) world =
      some (commands.map fun words => some (writeSize words : Int), next)) :
    ∃ sector, Named world.rootEntries name sector ∧ Named next.rootEntries name sector ∧ 0 ≤ world.position name ∧
      next.inodeBytes sector =
        appendText (world.inodeBytes sector) (world.position name).toNat (commands.flatMap textOf) ∧
      (next.inodeData sector).length = max (world.inodeData sector).length
        (world.position name + (commands.flatMap textOf).length + 2) ∧
      next.position name = world.position name + (commands.flatMap textOf).length := by
  obtain ⟨shared, own, nodes, root, entries, orderly⟩ := plainRun_atRest fits formatted reached
  obtain ⟨_, _, sector, _, handle⟩ := orderly.handleOpen isOpen (orderly.usable plain)
  have named := handle.named
  rw [plain.fileName] at named
  obtain ⟨own', nodes', root', orderly', bytes, position⟩ := orderly.shellWrites plain named some_word some_command ran
  have low := orderly.positions name
  refine ⟨sector, orderly.toMounted.rootEntries ▸ named, orderly'.toMounted.rootEntries ▸ named, low, bytes, ?_, position⟩
  have length := congrArg List.length bytes
  obtain ⟨_, _, _, before, there, _⟩ := orderly.regular name sector named
  obtain ⟨_, _, _, after, thereAfter, _⟩ := orderly'.regular name sector named
  have lowBefore := (orderly.volume.node sector before there).low
  have lowAfter := (orderly'.volume.node sector after thereAfter).low
  rw [length_appendText, World.inodeBytes, World.inodeBytes, orderly.toMounted.inodeData there,
    orderly'.toMounted.inodeData thereAfter, fileBytes, fileBytes, length_bytesAt, length_bytesAt] at length
  rw [orderly.toMounted.inodeData there, orderly'.toMounted.inodeData thereAfter]
  omega

/-- A shell write that ends within the file stores all its bytes. -/
theorem Orderly.shellWrite_inside (orderly : Orderly own shared nodes root entries world) (plain : PlainName name)
    (named : Named entries name sector) (some_word : words ≠ [])
    (inside : world.position name + writeSize words ≤ (world.inodeBytes sector).length) :
    ∃ next, run (MockOS.Fs.shellWrite name words) world = some (some (writeSize words : Int), next) := by
  obtain ⟨_, _, _, data, present, _⟩ := orderly.regular name sector named
  have node := orderly.volume.node sector data present
  have high := node.high
  have low := node.low
  have maximum : maxBlocks = 16635 := rfl
  have size := writeSize_eq some_word
  have position := orderly.positions name
  rw [World.inodeBytes, orderly.toMounted.inodeData present, fileBytes, length_bytesAt] at inside
  obtain ⟨value, next, writes, outcome⟩ := orderly.toAtPrompt.fsutilWrite (orderly.usable plain) position
    (writeBuffer words) (show (1 : Int) ≤ writeSize words by omega) (by omega)
  refine ⟨next, ?_⟩
  rw [MockOS.Fs.shellWrite, if_neg some_word, if_neg (by omega), run_bind, writes]
  rcases outcome with ⟨absent, _⟩ | ⟨_, _, _, _, _, number, before, _, _, _, _, _, _, there, _, handle,
    ⟨rfl, _⟩ | ⟨_, keeps⟩⟩
  · exact absurd named (by rw [plain.fileName] at absent; exact absent sector)
  · rfl
  · have isNamed := handle.named
    rw [plain.fileName] at isNamed
    obtain rfl := orderly.tidy.sector_unique named isNamed
    obtain rfl : before = data := Option.some.inj (there.symm.trans present)
    have beyond := keeps.beyond
    omega

/-- `write a x` and `write a y z` store the text `xy z`. -/
theorem shellWrites_append_small : ∃ start world next sector,
    run (filesysInit true) ⟨.boot 300 fun _ => 0, fun _ => zeros⟩ = some ((), start) ∧ start.PlainRun world ∧
      run (shellWrites [97] [[[120]], [[121], [122]]]) world = some ([some 3, some 5], next) ∧
      next.inodeBytes sector = appendText (world.inodeBytes sector) 0 [120, 121, 32, 122] ∧ next.position [97] = 4 := by
  obtain ⟨start, world, own, shared, nodes, root, entries, file, inode, sector, data, formatted, reached, orderly, handle,
    length⟩ := opened_small (by decide : (0 : Int) ≤ 600) (by decide)
  have named := handle.named
  rw [plainName_a.fileName] at named
  have bytes : (world.inodeBytes sector).length = 600 := by
    rw [World.inodeBytes, orderly.toMounted.inodeData (orderly.volume.table.node handle.opened), fileBytes, length_bytesAt,
      length]
    rfl
  obtain ⟨middle, first⟩ := orderly.shellWrite_inside plainName_a named (List.cons_ne_nil [120] [])
    (by rw [handle.position, bytes]; decide)
  obtain ⟨own₁, nodes₁, root₁, orderly₁, bytes₁, position₁⟩ :=
    orderly.shellWrite plainName_a named (List.cons_ne_nil [120] []) first
  obtain ⟨next, second⟩ := orderly₁.shellWrite_inside plainName_a named (List.cons_ne_nil [121] [[122]])
    (by rw [bytes₁, length_appendText, bytes, position₁, handle.position]; decide)
  have ran : run (shellWrites [97] [[[120]], [[121], [122]]]) world =
      some ([[[120]], [[121], [122]]].map fun words => some (writeSize words : Int), next) := by
    rw [shellWrites, run_bind, first, Option.bind_some, run_bind, shellWrites, run_bind, second]
    rfl
  obtain ⟨number, isNamed, _, _, stored, _, moved⟩ := shellWrites_append formatFits_small formatted reached plainName_a
    handle.handle (List.cons_ne_nil _ _) (by decide) ran
  rw [orderly.toMounted.rootEntries] at isNamed
  obtain rfl := orderly.tidy.sector_unique named isNamed
  rw [handle.position] at stored moved
  exact ⟨start, world, next, sector, formatted, reached, ran, stored, moved⟩

end MockOS.Fs
