import MockOS.Proc.ScriptFiles
import MockOS.Proc.Scheduler
import Mathlib.Data.List.Perm.Subperm
import Mathlib.Data.List.TakeWhile

namespace MockOS.Proc

theorem pidStr_digits (pid : Nat) : ∀ byte ∈ pidStr pid, 48 ≤ byte.toNat ∧ byte.toNat ≤ 57 :=
  ofChars_digits fun _ member => Nat.isDigit_of_mem_toDigits (by decide) (by decide) member

/-- No process id is taken for a free slot. -/
theorem pidStr_ne_noneStr (pid : Nat) : pidStr pid ≠ noneStr := by
  intro same
  have letter : (110 : UInt8) ∈ pidStr pid := by rw [same]; decide
  have := pidStr_digits pid 110 letter
  simp at this

theorem strdup_pidStr (pid : Nat) : strdup (pidStr pid) = pidStr pid := by
  rw [strdup, List.takeWhile_eq_self_iff]
  intro byte member
  have digit := pidStr_digits pid byte member
  simp only [ne_eq, decide_eq_true_eq]
  rintro rfl
  simp at digit

namespace ShellMemory

variable {memory : ShellMemory}

@[simp] theorem setSlot_frameStoreSize {pos : Nat} {slot : MemoryStruct} :
    (memory.setSlot pos slot).frameStoreSize = memory.frameStoreSize := rfl

@[simp] theorem setSlot_varStoreSize {pos : Nat} {slot : MemoryStruct} :
    (memory.setSlot pos slot).varStoreSize = memory.varStoreSize := rfl

@[simp] theorem setSlot_same {pos : Nat} {slot : MemoryStruct} : (memory.setSlot pos slot).slots pos = slot := by
  simp [setSlot]

theorem setSlot_of_ne {pos other : Nat} {slot : MemoryStruct} (different : other ≠ pos) :
    (memory.setSlot pos slot).slots other = memory.slots other := by
  simp [setSlot, different]

/-- Two memories of one shape that agree below the border. -/
structure SameFrames (memory other : ShellMemory) : Prop where
  frameStoreSize : other.frameStoreSize = memory.frameStoreSize
  varStoreSize : other.varStoreSize = memory.varStoreSize
  slots : ∀ pos < memory.frameStoreSize, other.slots pos = memory.slots pos

theorem SameFrames.refl : SameFrames memory memory := ⟨rfl, rfl, fun _ _ => rfl⟩

theorem SameFrames.trans {second third : ShellMemory} (first : SameFrames memory second)
    (later : SameFrames second third) : SameFrames memory third where
  frameStoreSize := later.frameStoreSize.trans first.frameStoreSize
  varStoreSize := later.varStoreSize.trans first.varStoreSize
  slots := fun pos below => by rw [later.slots pos (first.frameStoreSize ▸ below), first.slots pos below]

theorem setSlot_sameFrames {pos : Nat} (slot : MemoryStruct) (above : memory.frameStoreSize ≤ pos) :
    SameFrames memory (memory.setSlot pos slot) :=
  ⟨rfl, rfl, fun _ below => setSlot_of_ne (by omega)⟩

theorem mem_varZone {pos : Nat} (member : pos ∈ memory.varZone) : memory.frameStoreSize ≤ pos := by
  rw [varZone, List.mem_range'_1] at member
  exact member.1

theorem resetSlots_sameFrames (positions : List Nat) (above : ∀ pos ∈ positions, memory.frameStoreSize ≤ pos) :
    SameFrames memory
      (positions.foldl (fun current pos => current.setSlot pos ⟨noneStr, noneStr⟩) memory) := by
  induction positions generalizing memory with
  | nil => exact .refl
  | cons pos rest ih =>
      refine (setSlot_sameFrames ⟨noneStr, noneStr⟩ (above pos (by simp))).trans (ih ?_)
      exact fun other member => above other (by simp [member])

/-- The variable commands leave the frame store alone. -/
theorem command_sameFrames (command : VarCommand) : SameFrames memory (command.run memory) := by
  cases command with
  | set var value =>
      simp only [VarCommand.run, memSetValue]
      split
      · next pos found => exact setSlot_sameFrames _ (mem_varZone (List.mem_of_find?_eq_some found))
      · split
        · next pos found => exact setSlot_sameFrames _ (mem_varZone (List.mem_of_find?_eq_some found))
        · exact .refl
  | resetmem => exact resetSlots_sameFrames _ fun _ => mem_varZone

theorem commands_sameFrames (commands : List VarCommand) :
    SameFrames memory (commands.foldl (fun memory command => command.run memory) memory) := by
  induction commands generalizing memory with
  | nil => exact .refl
  | cons command rest ih => exact (command_sameFrames command).trans ih

/-- The aligned frames that are in use: exactly those of `taken`, and each of them as a whole. -/
structure Frames (memory : ShellMemory) (taken : List Nat) : Prop where
  nodup : taken.Nodup
  inside : ∀ frame ∈ taken, frame < memory.frameStoreSize / 3
  used : ∀ frame ∈ taken, ∀ j < 3, (memory.slots (3 * frame + j)).var ≠ noneStr
  free : ∀ frame < memory.frameStoreSize / 3, frame ∉ taken → ∀ j < 3, (memory.slots (3 * frame + j)).var = noneStr

theorem freeFrame_iff {pos : Nat} : memory.freeFrame pos ↔
    pos + 2 < memory.frameStoreSize ∧ ∀ j < 3, (memory.slots (pos + j)).var = noneStr := by
  simp only [freeFrame, List.all_eq_true, List.mem_range, Bool.and_eq_true, decide_eq_true_eq, beq_iff_eq]
  constructor
  · exact fun each => ⟨(each 2 (by omega)).1, fun j small => (each j small).2⟩
  · exact fun ⟨inside, each⟩ j small => ⟨by omega, each j small⟩

theorem Frames.freeFrame_block {taken : List Nat} (frames : Frames memory taken) (pos : Nat)
    (free : memory.freeFrame pos) : pos / 3 < memory.frameStoreSize / 3 ∧ pos / 3 ∉ taken := by
  rw [freeFrame_iff] at free
  refine ⟨by omega, fun member => frames.used _ member (pos % 3) (Nat.mod_lt _ (by decide)) ?_⟩
  rw [Nat.div_add_mod]
  exact free.2 0 (by decide)

theorem Frames.freeFrame_of_free {taken : List Nat} (frames : Frames memory taken) {frame : Nat}
    (inside : frame < memory.frameStoreSize / 3) (absent : frame ∉ taken) : memory.freeFrame (3 * frame) := by
  rw [freeFrame_iff]
  exact ⟨by omega, frames.free frame inside absent⟩

/-- The three slots of a frame marked with a process id. -/
def mark (pid : CString) (pos : Nat) (memory : ShellMemory) : ShellMemory :=
  (List.range 3).foldl (fun current k =>
    current.setSlot (pos + k) { current.slots (pos + k) with var := pid }) memory

theorem frameAlloc_eq (pid : CString) : memory.frameAlloc pid =
    ((List.range memory.frameStoreSize).find? memory.freeFrame).map fun pos => (pos, memory.mark pid pos) := rfl

/-- A free frame is found, and it is an aligned one. -/
theorem Frames.frameAlloc_some {taken : List Nat} (frames : Frames memory taken) (pid : CString)
    (room : taken.length < memory.frameStoreSize / 3) :
    ∃ frame < memory.frameStoreSize / 3, frame ∉ taken ∧
      memory.frameAlloc pid = some (3 * frame, memory.mark pid (3 * frame)) := by
  obtain ⟨absent, inside, missing⟩ : ∃ frame < memory.frameStoreSize / 3, frame ∉ taken := by
    by_contra full
    push Not at full
    have subset : List.range (memory.frameStoreSize / 3) ⊆ taken :=
      fun frame member => full frame (List.mem_range.mp member)
    have := (List.subperm_of_subset List.nodup_range subset).length_le
    rw [List.length_range] at this
    omega
  cases found : (List.range memory.frameStoreSize).find? memory.freeFrame with
  | none =>
      rw [List.find?_range_eq_none] at found
      have := found (3 * absent) (by omega)
      simp [frames.freeFrame_of_free inside missing] at this
  | some pos =>
      obtain ⟨free, _, first⟩ := List.find?_range_eq_some.mp found
      obtain ⟨fits, absent⟩ := frames.freeFrame_block pos free
      have aligned : pos = 3 * (pos / 3) := by
        by_contra odd
        have := first (3 * (pos / 3)) (by omega)
        simp [frames.freeFrame_of_free fits absent] at this
      refine ⟨pos / 3, fits, absent, ?_⟩
      rw [frameAlloc_eq, found, ← aligned]
      rfl

theorem Frames.frameAlloc_none {taken : List Nat} (frames : Frames memory taken) (pid : CString)
    (full : memory.frameStoreSize / 3 ≤ taken.length) : memory.frameAlloc pid = none := by
  rw [frameAlloc_eq, Option.map_eq_none_iff, List.find?_range_eq_none]
  intro pos _
  by_contra free
  obtain ⟨fits, absent⟩ := frames.freeFrame_block pos (by simpa using free)
  have nodup : (pos / 3 :: taken).Nodup := List.nodup_cons.mpr ⟨absent, frames.nodup⟩
  have subset : pos / 3 :: taken ⊆ List.range (memory.frameStoreSize / 3) := by
    intro frame member
    rcases List.mem_cons.mp member with rfl | other
    · exact List.mem_range.mpr fits
    · exact List.mem_range.mpr (frames.inside frame other)
  have := (List.subperm_of_subset nodup subset).length_le
  rw [List.length_range, List.length_cons] at this
  omega

@[simp] theorem mark_frameStoreSize {pid : CString} {pos : Nat} :
    (memory.mark pid pos).frameStoreSize = memory.frameStoreSize := rfl

@[simp] theorem mark_varStoreSize {pid : CString} {pos : Nat} :
    (memory.mark pid pos).varStoreSize = memory.varStoreSize := rfl

theorem mark_slots {pid : CString} {pos other : Nat} : (memory.mark pid pos).slots other =
    if pos ≤ other ∧ other < pos + 3 then { memory.slots other with var := pid } else memory.slots other := by
  simp only [mark, List.range_succ, List.range_zero, List.nil_append, List.cons_append, List.foldl_cons,
    List.foldl_nil, setSlot, Function.update_apply]
  have cases : other = pos ∨ other = pos + 1 ∨ other = pos + 2 ∨ ¬ (pos ≤ other ∧ other < pos + 3) := by omega
  rcases cases with rfl | rfl | rfl | outside
  · simp
  · simp
  · simp
  · rw [if_neg outside, if_neg (by omega), if_neg (by omega), if_neg (by omega)]

end ShellMemory
end MockOS.Proc
