import MockOS.Proc.Frames
import Mathlib.Order.Fin.Basic

namespace MockOS.Proc

open ShellMemory

variable {memory : ShellMemory}

/-- Two memories of one shape that differ at most in the three slots from `pos` on. -/
structure SameOutside (pos : Nat) (memory other : ShellMemory) : Prop where
  frameStoreSize : other.frameStoreSize = memory.frameStoreSize
  varStoreSize : other.varStoreSize = memory.varStoreSize
  slots : ∀ slot, slot < pos ∨ pos + 3 ≤ slot → other.slots slot = memory.slots slot

theorem SameOutside.trans {pos : Nat} {second third : ShellMemory} (first : SameOutside pos memory second)
    (later : SameOutside pos second third) : SameOutside pos memory third where
  frameStoreSize := later.frameStoreSize.trans first.frameStoreSize
  varStoreSize := later.varStoreSize.trans first.varStoreSize
  slots := fun slot outside => (later.slots slot outside).trans (first.slots slot outside)

theorem mark_sameOutside (pid : CString) (pos : Nat) : SameOutside pos memory (memory.mark pid pos) :=
  ⟨rfl, rfl, fun slot outside => by rw [mark_slots, if_neg (by omega)]⟩

theorem memSetValueAt_eq {pos : Nat} {pid value : CString}
    (inside : pos < memory.frameStoreSize + memory.varStoreSize) :
    memory.memSetValueAt pos pid value = .ok (memory.setSlot pos ⟨strdup pid, strdup value⟩) := by
  simp [memSetValueAt, inBounds, inside, Except.map]

theorem memFreeAt_eq {pos : Nat} (inside : pos < memory.frameStoreSize + memory.varStoreSize) :
    memory.memFreeAt pos = .ok (memory.setSlot pos ⟨noneStr, noneStr⟩) := by
  simp [memFreeAt, inBounds, inside, Except.map]

theorem memGetValueAt_eq {pos : Nat} (inside : pos < memory.frameStoreSize + memory.varStoreSize) :
    memory.memGetValueAt pos = .ok (memory.slots pos).value := by
  simp [memGetValueAt, inBounds, inside, Except.map]

/-- What a slot of a frame holds after the lines have been read into it. -/
def filled (pid : CString) (line : Option (List UInt8)) (old : MemoryStruct) : MemoryStruct :=
  match line with
  | some line => ⟨strdup pid, strdup line⟩
  | none => old

@[simp] theorem filled_none (pid : CString) (old : MemoryStruct) : filled pid none old = old := rfl

theorem setSlot_sameOutside {pos j : Nat} {slot : MemoryStruct} (inside : j < 3) :
    SameOutside pos memory (memory.setSlot (pos + j) slot) :=
  ⟨rfl, rfl, fun other outside => setSlot_of_ne (by omega)⟩

/-- The loop reads one line of the file for each of the places that are left. -/
theorem fillPage_spec (memory : ShellMemory) (pid : CString) (pos : Nat) (js : List (Fin 3)) (nodup : js.Nodup)
    (page : Page) (index : ∀ j, page.index j = pos + j.val) (file : List UInt8)
    (inside : pos + 2 < memory.frameStoreSize + memory.varStoreSize) :
    ∃ page' file' memory', Pcb.fillPage pid js page file memory = .ok (page', file', memory') ∧
      page'.index = page.index ∧
      (∀ j, page'.validBit j = (page.validBit j || decide (j ∈ js ∧ js.idxOf j < (fetched file).length))) ∧
      fetched file' = (fetched file).drop js.length ∧ SameOutside pos memory memory' ∧
      ∀ j : Fin 3, memory'.slots (pos + j) =
        filled pid (if j ∈ js then (fetched file)[js.idxOf j]? else none) (memory.slots (pos + j)) := by
  induction js generalizing memory page file with
  | nil =>
      refine ⟨page, file, memory, rfl, rfl, by simp, by simp, ⟨rfl, rfl, fun _ _ => rfl⟩, by simp⟩
  | cons i rest ih =>
      obtain ⟨fresh, restNodup⟩ := List.nodup_cons.mp nodup
      cases read : fgets 999 file with
      | none =>
          refine ⟨page, file, memory, by simp [Pcb.fillPage, read], rfl, ?_, ?_, ⟨rfl, rfl, fun _ _ => rfl⟩, ?_⟩
          · simp [fetched_none read]
          · simp [fetched_none read]
          · simp [fetched_none read]
      | some result =>
          obtain ⟨line, file₁⟩ := result
          have small := i.isLt
          obtain ⟨page', file', memory', fills, sameIndex, valid, left, outside, slots⟩ :=
            ih (memory.setSlot (pos + i) ⟨strdup pid, strdup line⟩) restNodup
              { page with validBit := Function.update page.validBit i true } index file₁ inside
          refine ⟨page', file', memory', ?_, sameIndex, ?_, ?_, ?_, ?_⟩
          · rw [Pcb.fillPage, read]
            have bound : pos + i.val < memory.frameStoreSize + memory.varStoreSize := by omega
            simp only [bind, Except.bind, index i, memSetValueAt_eq bound]
            exact fills
          · intro j
            rw [valid j, fetched_some read]
            by_cases same : j = i
            · subst same; simp
            · simp [same, List.idxOf_cons_ne _ (Ne.symm same)]
          · rw [left, fetched_some read]
            rfl
          · exact (setSlot_sameOutside small).trans outside
          · intro j
            rw [slots j, fetched_some read]
            by_cases same : j = i
            · subst same; simp [fresh, filled]
            · have apart : pos + j.val ≠ pos + i.val := by
                have := Fin.val_ne_of_ne same
                omega
              simp [same, List.idxOf_cons_ne _ (Ne.symm same), setSlot_of_ne apart]

/-- A page `k` that lies in the frame `frame` with its lines. -/
structure Placed (lines : List (List UInt8)) (memory : ShellMemory) (page : Page) (k frame : Nat) : Prop where
  index : ∀ j, page.index j = 3 * frame + j.val
  valid : ∀ j, page.validBit j = decide (3 * k + j.val < lines.length)
  text : ∀ j : Fin 3, ∀ inside : 3 * k + j.val < lines.length,
    (memory.slots (3 * frame + j)).value = strdup lines[3 * k + j.val]

theorem Placed.congr {lines : List (List UInt8)} {other : ShellMemory} {page : Page} {k frame : Nat}
    (placed : Placed lines memory page k frame)
    (same : ∀ j < 3, other.slots (3 * frame + j) = memory.slots (3 * frame + j)) :
    Placed lines other page k frame where
  index := placed.index
  valid := placed.valid
  text := fun j inside => by rw [same j j.isLt]; exact placed.text j inside

/-- The next page of a process is read into a frame that `frame_alloc` found. -/
theorem placePage_spec {lines : List (List UInt8)} {taken : List Nat} {frame : Nat} (pcb : Pcb) (pid k : Nat)
    (frames : memory.Frames taken) (inside : frame < memory.frameStoreSize / 3) (absent : frame ∉ taken)
    (file : fetched pcb.sourceFile = lines.drop (3 * k)) :
    ∃ page file' memory', pcb.placePage pid k (3 * frame) (memory.mark (pidStr pid) (3 * frame)) =
        .ok ({ pcb.setPage k page with sourceFile := file' }, memory') ∧
      Placed lines memory' page k frame ∧ fetched file' = lines.drop (3 * (k + 1)) ∧
      memory'.Frames (frame :: taken) ∧ SameOutside (3 * frame) memory memory' := by
  obtain ⟨page, file', memory', fills, index, valid, left, outside, slots⟩ :=
    fillPage_spec (memory.mark (pidStr pid) (3 * frame)) (pidStr pid) (3 * frame) [0, 1, 2] (by decide)
      ⟨fun j => 3 * frame + j.val, fun _ => false⟩ (fun _ => rfl) pcb.sourceFile
      (by simp only [mark_frameStoreSize, mark_varStoreSize]; omega)
  have places : ∀ j : Fin 3, j ∈ [0, 1, 2] ∧ List.idxOf j [0, 1, 2] = j.val := by decide
  have changed := (mark_sameOutside (pidStr pid) (3 * frame)).trans outside
  refine ⟨page, file', memory', ?_, ⟨?_, ?_, ?_⟩, ?_, ?_, changed⟩
  · rw [Pcb.placePage, fills]
    rfl
  · intro j
    rw [index]
  · intro j
    rw [valid j, file]
    simp [places j]
    omega
  · intro j within
    rw [slots j, if_pos (places j).1, (places j).2, file, List.getElem?_drop, List.getElem?_eq_getElem within]
    rfl
  · rw [left, file, List.drop_drop]
    congr 1
  · have own : ∀ j < 3, (memory'.slots (3 * frame + j)).var = pidStr pid := by
      intro j small
      rw [slots ⟨j, small⟩]
      have marked : ((memory.mark (pidStr pid) (3 * frame)).slots (3 * frame + j)).var = pidStr pid := by
        rw [mark_slots, if_pos (by omega)]
      unfold filled
      split
      · exact strdup_pidStr pid
      · exact marked
    constructor
    case nodup => exact List.nodup_cons.mpr ⟨absent, frames.nodup⟩
    case inside =>
      intro other member
      rw [changed.frameStoreSize]
      rcases List.mem_cons.mp member with rfl | old
      · exact inside
      · exact frames.inside other old
    case used =>
      intro other member j small
      rcases List.mem_cons.mp member with rfl | old
      · rw [own j small]
        exact pidStr_ne_noneStr pid
      · have apart := ne_of_mem_of_not_mem old absent
        rw [changed.slots _ (by omega)]
        exact frames.used other old j small
    case free =>
      intro other fits missing j small
      simp only [List.mem_cons, not_or] at missing
      rw [changed.slots _ (by omega)]
      exact frames.free other (changed.frameStoreSize ▸ fits) missing.2 j small

/-- The three calls that free the frame of an evicted page. -/
theorem freePage_spec {taken : List Nat} {frame : Nat} (frames : memory.Frames (taken ++ [frame])) :
    ∃ first second memory', memory.memFreeAt (3 * frame) = .ok first ∧ first.memFreeAt (3 * frame + 1) = .ok second ∧
      second.memFreeAt (3 * frame + 2) = .ok memory' ∧ memory'.Frames taken ∧ SameOutside (3 * frame) memory memory' := by
  have inside := frames.inside frame (by simp)
  have absent : frame ∉ taken := fun member =>
    (List.nodup_append.mp frames.nodup).2.2 frame member frame (by simp) rfl
  have changed : SameOutside (3 * frame) memory
      (((memory.setSlot (3 * frame) ⟨noneStr, noneStr⟩).setSlot (3 * frame + 1) ⟨noneStr, noneStr⟩).setSlot
        (3 * frame + 2) ⟨noneStr, noneStr⟩) :=
    ((setSlot_sameOutside (j := 0) (by omega)).trans (setSlot_sameOutside (by omega))).trans
      (setSlot_sameOutside (by omega))
  refine ⟨_, _, _, memFreeAt_eq (by omega), memFreeAt_eq (by simp; omega), memFreeAt_eq (by simp; omega), ?_, changed⟩
  constructor
  case nodup => exact (List.nodup_append.mp frames.nodup).1
  case inside => exact fun other member => frames.inside other (by simp [member])
  case used =>
    intro other member j small
    have apart := ne_of_mem_of_not_mem member absent
    rw [changed.slots _ (by omega)]
    exact frames.used other (by simp [member]) j small
  case free =>
    intro other fits missing j small
    by_cases same : other = frame
    · subst same
      simp only [setSlot, Function.update_apply]
      rcases (show j = 0 ∨ j = 1 ∨ j = 2 by omega) with rfl | rfl | rfl <;> simp
    · rw [changed.slots _ (by omega)]
      exact frames.free other fits (by simp [missing, same]) j small

end MockOS.Proc
