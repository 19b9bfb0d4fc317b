import MockOS.A2.ScriptStreams

namespace MockOS.A2

open MockOS.Proc (Fault Outcome MemoryStruct noneStr)
open ShellMemory

variable {memory other : ShellMemory} {used : Nat} {lines : List (List UInt8)}

/-- The first `used` frames hold lines, and the slots behind them are free. -/
structure FrameStore (memory : ShellMemory) (used : Nat) : Prop where
  taken : ∀ frame < used, (memory.slots (memory.varmemsize + 3 * frame)).var ≠ noneStr
  free : ∀ pos, memory.varmemsize + 3 * used ≤ pos → pos < memory.length → memory.slots pos = ⟨noneStr, noneStr⟩
  fits : 3 * used ≤ memory.framesize

/-- The first `used` frames stay. -/
structure KeepsFrames (used : Nat) (memory other : ShellMemory) : Prop where
  varmemsize : other.varmemsize = memory.varmemsize
  framesize : other.framesize = memory.framesize
  slots : ∀ pos, memory.varmemsize ≤ pos → pos < memory.varmemsize + 3 * used → other.slots pos = memory.slots pos

/-- The line of a script, or the mark of a free slot behind its last line. -/
def lineAt (script : List (List UInt8)) (i : Nat) : CString := (script[i]?.map strdup).getD noneStr

/-- The frame holds the page `k` of the script. -/
def Resident (memory : ShellMemory) (script : List (List UInt8)) (k frame : Nat) : Prop :=
  ∀ j < 3, (memory.slots (memory.varmemsize + 3 * frame + j)).value = lineAt script (3 * k + j)

namespace KeepsFrames

theorem refl (used : Nat) (memory : ShellMemory) : KeepsFrames used memory memory := ⟨rfl, rfl, fun _ _ _ => rfl⟩

theorem trans {third : ShellMemory} {more : Nat} (first : KeepsFrames used memory other) (later : KeepsFrames more other third)
    (grows : used ≤ more) : KeepsFrames used memory third where
  varmemsize := later.varmemsize.trans first.varmemsize
  framesize := later.framesize.trans first.framesize
  slots := fun pos above below => by
    rw [later.slots pos (first.varmemsize ▸ above) (by rw [first.varmemsize]; omega), first.slots pos above below]

theorem of_sameFrames (same : SameFrames memory other) (used : Nat) : KeepsFrames used memory other :=
  ⟨same.varmemsize, same.framesize, fun pos above _ => same.slots pos above⟩

theorem length (keeps : KeepsFrames used memory other) : other.length = memory.length := by
  rw [ShellMemory.length, ShellMemory.length, keeps.varmemsize, keeps.framesize]

end KeepsFrames

theorem Resident.keeps {script : List (List UInt8)} {k frame : Nat} (resident : Resident memory script k frame)
    (keeps : KeepsFrames used memory other) (inside : frame < used) : Resident other script k frame := fun j small => by
  rw [keeps.varmemsize, keeps.slots _ (by omega) (by omega)]
  exact resident j small

namespace FrameStore

theorem sameFrames (store : FrameStore memory used) (same : SameFrames memory other) : FrameStore other used where
  taken := fun frame inside => by
    rw [same.varmemsize, same.slots _ (Nat.le_add_right _ _)]
    exact store.taken frame inside
  free := fun pos above below => by
    rw [ShellMemory.length, same.varmemsize, same.framesize] at below
    rw [same.varmemsize] at above
    rw [same.slots pos (by omega)]
    exact store.free pos above below
  fits := same.framesize ▸ store.fits

/-- The first free frame is the one behind those in use. -/
theorem firstFree (store : FrameStore memory used) (room : 3 * used < memory.framesize) :
    firstFree memory = some (memory.varmemsize + 3 * used) := by
  have found : ((List.range ((memory.framesize + 2) / 3)).find? fun frame =>
      (memory.slots (memory.varmemsize + 3 * frame)).var == noneStr) = some used := by
    rw [List.find?_range_eq_some]
    refine ⟨?_, List.mem_range.mpr (by omega), fun frame inside => ?_⟩
    · rw [store.free _ (Nat.le_refl _) (by rw [ShellMemory.length]; omega)]
      exact beq_self_eq_true _
    · simpa using store.taken frame inside
  rw [A2.firstFree, found, Option.map_some]

/-- A page that is read into the first free frame. -/
theorem filled {filename : CString} {page : List (List UInt8)} (store : FrameStore memory used)
    (room : 3 * used + 3 ≤ memory.framesize) (some_line : page ≠ []) (few : page.length ≤ 3) (named : strdup filename ≠ noneStr)
    (filled : Filled memory other filename (memory.varmemsize + 3 * used) page) : FrameStore other (used + 1) := by
  obtain ⟨first, rest, whole⟩ := List.exists_cons_of_ne_nil some_line
  refine ⟨fun frame inside => ?_, fun pos above below => ?_, filled.framesize ▸ room⟩
  · rw [filled.varmemsize]
    by_cases last : frame = used
    · have written := filled.inside 0 first (by rw [whole]; rfl)
      rw [last, ← Nat.add_zero (memory.varmemsize + 3 * used), written]
      exact named
    · rw [filled.outside _ (by omega)]
      exact store.taken frame (by omega)
  · rw [ShellMemory.length, filled.varmemsize, filled.framesize] at below
    rw [filled.varmemsize] at above
    rw [filled.outside pos (by omega)]
    exact store.free pos (by omega) below

end FrameStore

theorem keepsFrames_of_filled {filename : CString} {page : List (List UInt8)}
    (filled : Filled memory other filename (memory.varmemsize + 3 * used) page) : KeepsFrames used memory other :=
  ⟨filled.varmemsize, filled.framesize, fun _ _ below => filled.outside _ (.inl below)⟩

/-- Behind the last line the frame keeps the marks of free slots. -/
theorem FrameStore.resident {filename : CString} {script : List (List UInt8)} {k : Nat} (store : FrameStore memory used)
    (room : 3 * used + 3 ≤ memory.framesize)
    (filled : Filled memory other filename (memory.varmemsize + 3 * used) ((script.drop (3 * k)).take 3)) :
    Resident other script k used := fun j small => by
  have same : ((script.drop (3 * k)).take 3)[j]? = script[3 * k + j]? := by
    rw [List.getElem?_take_of_lt small, List.getElem?_drop]
  rw [filled.varmemsize, lineAt, ← same]
  cases found : ((script.drop (3 * k)).take 3)[j]? with
  | some line => rw [filled.inside j line found, Option.map_some, Option.getD_some]
  | none =>
      have behind := List.getElem?_eq_none_iff.mp found
      rw [filled.outside _ (.inr (by omega)), store.free _ (by omega) (by rw [ShellMemory.length]; omega)]
      rfl

/-- A page is read from any file when the frame lies in the store; a short page gets to the end of the file. -/
theorem readPage_runs {fp : Stream} (here : fp.At lines) (filename : CString) {room index : Nat} (fits : index + room ≤ memory.length) :
    ∃ count behind memoryAfter, readPage filename room index fp memory = .ok (count, behind, memoryAfter) ∧
      behind.At (lines.drop room) ∧ (lines.length < room ∨ fp.endsNoticed = true → behind.endsNoticed = true) := by
  induction room generalizing fp lines index memory with
  | zero => exact ⟨0, fp, memory, rfl, here, fun seen => seen.resolve_left (Nat.not_lt_zero _)⟩
  | succ room ih =>
      cases lines with
      | nil =>
          refine ⟨0, ⟨[], true⟩, memory, ?_, ⟨fetched_nil, fun none => absurd rfl none⟩, fun _ => ?_⟩
          · rw [readPage, here.fgets_nil]
          · rw [Stream.endsNoticed, fetched_nil]
            rfl
      | cons line rest =>
          obtain ⟨read, behind, same⟩ := here.fgets_cons
          have inside : index < memory.length := by omega
          obtain ⟨count, after, memoryAfter, reads, at', seen⟩ :=
            ih behind (show index + 1 + room ≤ (memory.setSlot index ⟨strdup filename, strdup line⟩).length by
              change index + 1 + room ≤ memory.length
              omega)
          refine ⟨count + 1, after, memoryAfter, ?_, at', fun ends => seen (ends.imp Nat.lt_of_succ_lt_succ fun ends => same ▸ ends)⟩
          rw [readPage, ← Prod.eta (fgets fp), read]
          simp only [ShellMemory.store, if_pos inside, bind, Except.bind, reads]

namespace Kernel

variable {World : Type}

/-- `load_page` with a free frame left takes the next one for the current page. -/
theorem loadPage_runs (kernel : Kernel World) (pcb : Pcb) {fp : Stream} {filename : CString} {script : List (List UInt8)}
    (store : FrameStore kernel.memory used) (room : 3 * used + 3 ≤ kernel.memory.framesize)
    (here : fp.At (script.drop (3 * pcb.currentPage))) (some_line : 3 * pcb.currentPage < script.length)
    (inside : pcb.currentPage < 50) (named : strdup filename ≠ noneStr) :
    ∃ behind count memoryAfter, loadPage fp filename pcb kernel =
        .ok (behind, pcb.enter (used + 1), { kernel.log (.loaded filename count) with memory := memoryAfter }) ∧
      behind.At (script.drop (3 * (pcb.currentPage + 1))) ∧
      (script.length < 3 * (pcb.currentPage + 1) ∨ fp.endsNoticed = true → behind.endsNoticed = true) ∧
      KeepsFrames used kernel.memory memoryAfter ∧ FrameStore memoryAfter (used + 1) ∧
      Resident memoryAfter script pcb.currentPage used := by
  obtain ⟨count, behind, memoryAfter, reads, rest, seen⟩ := readPage_runs here filename
    (show kernel.memory.varmemsize + 3 * used + 3 ≤ kernel.memory.length by rw [ShellMemory.length]; omega)
  have filled := (readPage_filled reads).2.2
  rw [here.rest] at filled
  have page : (script.drop (3 * pcb.currentPage)).take 3 ≠ [] := by
    rw [Ne, List.take_eq_nil_iff, List.drop_eq_nil_iff]
    omega
  refine ⟨behind, count, memoryAfter, ?_, ?_, fun ends => seen (ends.imp (fun short => ?_) id), keepsFrames_of_filled filled,
    store.filled room page (List.length_take_le _ _) named filled, store.resident room filled⟩
  · have free := store.firstFree (by omega)
    have number : (kernel.memory.varmemsize + 3 * used - kernel.memory.varmemsize) / 3 = used := by omega
    simp only [loadPage, findFreeFrame, free, Option.isSome_some, if_true, reads, Pcb.frame, inside, bind, Except.bind, number]
  · rwa [List.drop_drop] at rest
  · rw [List.length_drop]
    omega

end Kernel

end MockOS.A2
