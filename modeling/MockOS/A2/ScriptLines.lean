import MockOS.A2.Kernel
import MockOS.Proc.ScriptFiles

namespace MockOS.A2

open MockOS.Proc (Fault Outcome MemoryStruct noneStr readLine readLine_append readLine_nonempty)

theorem readLine_shorter {file : List UInt8} (some : file ≠ []) : (readLine 99 file).2.length < file.length := by
  obtain ⟨byte, rest, rfl⟩ := List.exists_cons_of_ne_nil some
  have whole := congrArg List.length (readLine_append 99 (byte :: rest))
  have taken : 0 < (readLine 99 (byte :: rest)).1.length := List.length_pos_of_ne_nil (readLine_nonempty 98 byte rest)
  simp only [List.length_append] at whole
  omega

/-- All the lines that successive calls of `fgets` deliver. -/
def fetched (file : List UInt8) : List (List UInt8) :=
  if _empty : file = [] then [] else (readLine 99 file).1 :: fetched (readLine 99 file).2
termination_by file.length
decreasing_by exact readLine_shorter _empty

@[simp] theorem fetched_nil : fetched [] = [] := by simp [fetched]

theorem fetched_some {file : List UInt8} (some : file ≠ []) :
    fetched file = (readLine 99 file).1 :: fetched (readLine 99 file).2 := by
  rw [fetched, dif_neg some]

/-- The first line, if there is one, and what is left. -/
theorem fgets_fetched (fp : Stream) :
    ((fgets fp).1 = none ∧ fp.rest = [] ∧ (fgets fp).2.rest = []) ∨
      ∃ line, (fgets fp).1 = some line ∧ fetched fp.rest = line :: fetched (fgets fp).2.rest := by
  by_cases empty : fp.rest = []
  · exact .inl (by simp [fgets, empty])
  · exact .inr ⟨(readLine 99 fp.rest).1, by simp [fgets, empty], by rw [fetched_some empty]; simp [fgets, empty]⟩

theorem skipLines_fetched (count : Nat) (fp : Stream) :
    fetched (Kernel.skipLines count fp).rest = (fetched fp.rest).drop count := by
  induction count generalizing fp with
  | zero => rfl
  | succ count ih =>
      rcases fgets_fetched fp with ⟨none, empty, after⟩ | ⟨line, some, whole⟩
      · rw [Kernel.skipLines, ← Prod.eta (fgets fp), none, after, empty]
        simp
      · rw [Kernel.skipLines, ← Prod.eta (fgets fp), some, whole]
        exact ih _

namespace ShellMemory

/-- What a command may change: the variables. -/
structure SameFrames (memory other : ShellMemory) : Prop where
  varmemsize : other.varmemsize = memory.varmemsize
  framesize : other.framesize = memory.framesize
  slots : ∀ pos, memory.varmemsize ≤ pos → other.slots pos = memory.slots pos

theorem SameFrames.refl (memory : ShellMemory) : SameFrames memory memory := ⟨rfl, rfl, fun _ _ => rfl⟩

theorem SameFrames.trans {memory second third : ShellMemory} (first : SameFrames memory second)
    (later : SameFrames second third) : SameFrames memory third where
  varmemsize := later.varmemsize.trans first.varmemsize
  framesize := later.framesize.trans first.framesize
  slots := fun pos above => by rw [later.slots pos (first.varmemsize ▸ above), first.slots pos above]

theorem sameFrames_setSlot (memory : ShellMemory) {pos : Nat} (below : pos < memory.varmemsize) (slot : MemoryStruct) :
    SameFrames memory (memory.setSlot pos slot) where
  varmemsize := rfl
  framesize := rfl
  slots := fun other above => Function.update_of_ne (by omega) _ _

theorem resetvarmem_sameFrames (memory : ShellMemory) : SameFrames memory memory.resetvarmem := by
  have resets : ∀ (positions : List Nat) (current : ShellMemory), SameFrames memory current →
      (∀ pos ∈ positions, pos < memory.varmemsize) →
      SameFrames memory (positions.foldl (fun current pos => current.setSlot pos ⟨noneStr, noneStr⟩) current) := by
    intro positions
    induction positions with
    | nil => exact fun current same _ => same
    | cons pos rest ih =>
        intro current same below
        refine ih _ (same.trans (sameFrames_setSlot current ?_ _)) fun other member => below other (by simp [member])
        rw [same.varmemsize]
        exact below pos (by simp)
  exact resets _ _ (.refl memory) fun pos member => List.mem_range.mp member

theorem memSetValue_sameFrames (memory : ShellMemory) (var value : CString) :
    SameFrames memory (memory.memSetValue var value) := by
  unfold memSetValue
  split
  · next pos found => exact sameFrames_setSlot memory (List.mem_range.mp (List.mem_of_find?_eq_some found)) _
  · split
    · next pos found => exact sameFrames_setSlot memory (List.mem_range.mp (List.mem_of_find?_eq_some found)) _
    · exact .refl memory

/-- The slots from `index` on hold the lines of a page, all other slots what they held before. -/
structure Filled (memory other : ShellMemory) (filename : CString) (index : Nat) (lines : List (List UInt8)) : Prop where
  varmemsize : other.varmemsize = memory.varmemsize
  framesize : other.framesize = memory.framesize
  inside : ∀ j line, lines[j]? = some line → other.slots (index + j) = ⟨strdup filename, strdup line⟩
  outside : ∀ pos, pos < index ∨ index + lines.length ≤ pos → other.slots pos = memory.slots pos
  bounded : lines ≠ [] → index + lines.length ≤ memory.length

theorem Filled.cons {memory other : ShellMemory} {filename : CString} {index : Nat} {line : List UInt8} {lines : List (List UInt8)}
    (fits : index < memory.length)
    (filled : Filled (memory.setSlot index ⟨strdup filename, strdup line⟩) other filename (index + 1) lines) :
    Filled memory other filename index (line :: lines) where
  varmemsize := filled.varmemsize
  framesize := filled.framesize
  inside := by
    intro j text found
    cases j with
    | zero =>
        rw [List.getElem?_cons_zero, Option.some.injEq] at found
        rw [Nat.add_zero, filled.outside index (.inl (Nat.lt_succ_self _)), ← found]
        exact Function.update_self ..
    | succ j =>
        rw [Nat.add_comm j 1, ← Nat.add_assoc]
        exact filled.inside j text (by simpa using found)
  outside := by
    intro pos away
    rw [List.length_cons] at away
    rw [filled.outside pos (by omega)]
    exact Function.update_of_ne (by omega) _ _
  bounded := by
    intro _
    rw [List.length_cons]
    cases lines with
    | nil => exact fits
    | cons next rest =>
        have := filled.bounded (by simp)
        change index + 1 + (rest.length + 1) ≤ memory.length at this
        rw [List.length_cons]
        omega

end ShellMemory

open ShellMemory

/-- `load_page` reads the next lines of the file into the frame. -/
theorem readPage_filled {filename : CString} {room index lines : Nat} {fp fp' : Stream} {memory memory' : ShellMemory}
    (reads : readPage filename room index fp memory = .ok (lines, fp', memory')) :
    lines = ((fetched fp.rest).take room).length ∧ fetched fp'.rest = (fetched fp.rest).drop room ∧
      Filled memory memory' filename index ((fetched fp.rest).take room) := by
  induction room generalizing index fp memory lines with
  | zero =>
      simp only [readPage, Except.ok.injEq, Prod.mk.injEq] at reads
      obtain ⟨rfl, rfl, rfl⟩ := reads
      exact ⟨rfl, rfl, rfl, rfl, by simp, fun _ _ => rfl, by simp⟩
  | succ room ih =>
      rcases fgets_fetched fp with ⟨none, empty, after⟩ | ⟨line, some, whole⟩
      · rw [readPage, ← Prod.eta (fgets fp), none] at reads
        simp only [Except.ok.injEq, Prod.mk.injEq] at reads
        obtain ⟨rfl, rfl, rfl⟩ := reads
        rw [after, empty, fetched_nil]
        exact ⟨rfl, rfl, rfl, rfl, by simp, fun _ _ => rfl, by simp⟩
      · rw [readPage, ← Prod.eta (fgets fp), some] at reads
        simp only [ShellMemory.store] at reads
        split at reads
        · next fits =>
            simp only [bind, Except.bind] at reads
            split at reads
            · simp at reads
            · next result rest =>
                simp only [Except.ok.injEq, Prod.mk.injEq] at reads
                obtain ⟨rfl, rfl, rfl⟩ := reads
                obtain ⟨lines, left, filled⟩ := ih rest
                rw [whole, List.take_succ_cons, List.drop_succ_cons, List.length_cons, lines]
                exact ⟨rfl, left, filled.cons fits⟩
        · simp [bind, Except.bind] at reads

end MockOS.A2
