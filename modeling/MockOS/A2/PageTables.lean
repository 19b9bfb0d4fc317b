import MockOS.A2.ScriptLines
import MockOS.Lib.Iteration
import Mathlib.Data.List.Nodup
import Mathlib.Data.List.Forall2
import Mathlib.Data.List.Infix
import Mathlib.Logic.Relation

namespace MockOS.A2

open MockOS.Proc (Fault Outcome MemoryStruct noneStr)
open ShellMemory

/-- A load that leaves its frame in use, and that finds one that was not. -/
def Event.clean : Event → Prop
  | .handed _ _ => True
  | .loaded filename lines => strdup filename ≠ noneStr ∧ 0 < lines
  | .evicted => False

def Clean (trace : List Event) : Prop := ∀ event ∈ trace, event.clean

/-- The entries of the page table that name a frame. -/
def Pcb.frames (pcb : Pcb) : List Int := ((List.range 50).map pcb.pagetable).filter (· ≠ -1)

/-- The frame of an entry holds the lines of its page, those that exist, and does not look free. -/
def Holds (memory : ShellMemory) (script : List UInt8) (k : Nat) (entry : Int) : Prop :=
  ∃ frame : Nat, entry = frame + 1 ∧ 3 * frame < memory.framesize ∧
    (memory.slots (memory.varmemsize + 3 * frame)).var ≠ noneStr ∧
    ∀ j < 3, ∀ line, (fetched script)[3 * k + j]? = some line →
      (memory.slots (memory.varmemsize + 3 * frame + j)).value = strdup line

/-- Every file of the backing store is a copy. -/
def Mirrored (disk : CString → Option (List UInt8)) : Prop :=
  ∀ name copy, disk (Kernel.backingStore ++ name) = some copy →
    ∃ file, disk name = some file ∧ copy = file.takeWhile (· ≠ 255)

/-- What holds of the processes that are not finished. -/
structure Sound (live : List Pcb) (memory : ShellMemory) (disk : CString → Option (List UInt8)) : Prop where
  pages : ∀ pcb ∈ live, ∀ k < 50, pcb.pagetable k ≠ -1 → Holds memory pcb.script k (pcb.pagetable k)
  apart : (live.flatMap Pcb.frames).Nodup
  files : ∀ pcb ∈ live, ∀ filename, pcb.filename = some filename → disk filename = some pcb.script
  mirrored : Mirrored disk

variable {live live' : List Pcb} {memory memory' : ShellMemory} {disk : CString → Option (List UInt8)} {pcb : Pcb}

theorem Clean.before {trace later : List Event} (clean : Clean later) (grows : trace <+: later) : Clean trace :=
  fun event member => clean event (grows.subset member)

theorem Holds.sameFrames {script : List UInt8} {k : Nat} {entry : Int} (holds : Holds memory script k entry)
    (same : SameFrames memory memory') : Holds memory' script k entry := by
  obtain ⟨frame, number, inside, used, lines⟩ := holds
  refine ⟨frame, number, same.framesize ▸ inside, ?_, fun j small line found => ?_⟩
  · rw [same.varmemsize, same.slots _ (Nat.le_add_right _ _)]
    exact used
  · rw [same.varmemsize, same.slots _ (by omega)]
    exact lines j small line found

theorem Sound.sameFrames (sound : Sound live memory disk) (same : SameFrames memory memory') : Sound live memory' disk :=
  ⟨fun pcb member k inside mapped => (sound.pages pcb member k inside mapped).sameFrames same, sound.apart, sound.files,
    sound.mirrored⟩

theorem Sound.perm (sound : Sound live memory disk) (perm : live.Perm live') : Sound live' memory disk :=
  ⟨fun pcb member => sound.pages pcb (perm.mem_iff.mpr member), (perm.flatMap_right _).nodup_iff.mp sound.apart,
    fun pcb member => sound.files pcb (perm.mem_iff.mpr member), sound.mirrored⟩

/-- Processes whose page tables are the same, and which at most forgot their file names. -/
def Alike (pcb pcb' : Pcb) : Prop :=
  pcb'.pagetable = pcb.pagetable ∧ pcb'.script = pcb.script ∧ (pcb'.filename = pcb.filename ∨ pcb'.filename = none)

theorem Alike.refl (pcb : Pcb) : Alike pcb pcb := ⟨rfl, rfl, .inl rfl⟩

theorem Sound.alike (sound : Sound live memory disk) (alike : List.Forall₂ Alike live live') : Sound live' memory disk := by
  have frames : live'.flatMap Pcb.frames = live.flatMap Pcb.frames := by
    clear sound
    induction alike with
    | nil => rfl
    | cons same _ ih => rw [List.flatMap_cons, List.flatMap_cons, ih, Pcb.frames, Pcb.frames, same.1]
  have origin : ∀ pcb' ∈ live', ∃ pcb ∈ live, Alike pcb pcb' := by
    clear sound frames
    induction alike with
    | nil => simp
    | cons same _ ih =>
        intro pcb' member
        rcases List.mem_cons.mp member with rfl | later
        · exact ⟨_, by simp, same⟩
        · obtain ⟨pcb, inside, same⟩ := ih pcb' later
          exact ⟨pcb, by simp [inside], same⟩
  refine ⟨fun pcb' member k inside mapped => ?_, frames ▸ sound.apart, fun pcb' member filename name => ?_, sound.mirrored⟩
  · obtain ⟨pcb, old, table, script, _⟩ := origin pcb' member
    rw [table] at mapped ⊢
    rw [script]
    exact sound.pages pcb old k inside mapped
  · obtain ⟨pcb, old, _, script, same | gone⟩ := origin pcb' member
    · rw [script]
      exact sound.files pcb old filename (same ▸ name)
    · rw [gone] at name
      cases name

theorem Sound.swap {pcb' : Pcb} (sound : Sound (pcb :: live) memory disk) (alike : Alike pcb pcb') :
    Sound (pcb' :: live) memory disk :=
  sound.alike (.cons alike (List.forall₂_same.mpr fun other _ => .refl other))

/-- A new entry adds its frame. -/
theorem frames_enter {entry : Int} (inside : pcb.currentPage < 50) (empty : pcb.pagetable pcb.currentPage = -1)
    (mapped : entry ≠ -1) : (pcb.enter entry).frames.Perm (entry :: pcb.frames) := by
  obtain ⟨before, after, whole⟩ := List.append_of_mem (List.mem_range.mpr inside)
  have distinct : (before ++ pcb.currentPage :: after).Nodup := whole ▸ List.nodup_range
  have kept : ∀ other ∈ before ++ after, (pcb.enter entry).pagetable other = pcb.pagetable other := by
    intro other member
    refine Function.update_of_ne ?_ _ _
    rintro rfl
    simp only [List.nodup_append, List.nodup_cons] at distinct
    rcases List.mem_append.mp member with first | last
    · exact distinct.2.2 _ first _ (by simp) rfl
    · exact distinct.2.1.1 last
  have here : (pcb.enter entry).pagetable pcb.currentPage = entry := Function.update_self ..
  have front := List.map_congr_left fun other member => kept other (List.mem_append_left after member)
  have back := List.map_congr_left fun other member => kept other (List.mem_append_right before member)
  simp only [Pcb.frames, whole, List.map_append, List.map_cons, List.filter_append, List.filter_cons, here,
    front, back, empty, mapped, ne_eq, not_false_eq_true, decide_true, not_true_eq_false, decide_false, if_true]
  exact List.perm_middle

theorem firstFree_some {index : Nat} (found : firstFree memory = some index) :
    ∃ frame, index = memory.varmemsize + 3 * frame ∧ 3 * frame < memory.framesize ∧ (memory.slots index).var = noneStr := by
  simp only [firstFree, Option.map_eq_some_iff] at found
  obtain ⟨frame, first, rfl⟩ := found
  have free := List.find?_some first
  have inside := List.mem_range.mp (List.mem_of_find?_eq_some first)
  exact ⟨frame, rfl, by omega, by simpa using free⟩

/-- Filling a free frame leaves every page where it is. -/
theorem Holds.filled {script : List UInt8} {k index : Nat} {entry : Int} {filename : CString} {lines : List (List UInt8)}
    (holds : Holds memory script k entry) (free : firstFree memory = some index) (few : lines.length ≤ 3)
    (filled : Filled memory memory' filename index lines) : Holds memory' script k entry := by
  obtain ⟨frame, number, inside, used, held⟩ := holds
  obtain ⟨other, rfl, _, unused⟩ := firstFree_some free
  have apart : frame ≠ other := by
    rintro rfl
    exact used unused
  refine ⟨frame, number, filled.framesize ▸ inside, ?_, fun j small line found => ?_⟩
  · rw [filled.varmemsize, filled.outside _ (by omega)]
    exact used
  · rw [filled.varmemsize, filled.outside _ (by omega)]
    exact held j small line found

/-- A page with a line that is read into a free frame. -/
theorem Sound.load {index : Nat} {filename : CString} {lines : List (List UInt8)} (sound : Sound (pcb :: live) memory disk)
    (inside : pcb.currentPage < 50) (empty : pcb.pagetable pcb.currentPage = -1) (free : firstFree memory = some index)
    (page : lines = ((fetched pcb.script).drop (3 * pcb.currentPage)).take 3) (some : lines ≠ [])
    (named : strdup filename ≠ noneStr) (filled : Filled memory memory' filename index lines) :
    Sound (pcb.enter (((index - memory.varmemsize) / 3 : Nat) + 1 : Int) :: live) memory' disk := by
  have few : lines.length ≤ 3 := by
    rw [page]
    exact List.length_take_le _ _
  obtain ⟨frame, place, bound, unused⟩ := firstFree_some free
  have number : (index - memory.varmemsize) / 3 = frame := by omega
  rw [number]
  -- the frame was free, so no page lay in it
  have fresh : ((frame : Int) + 1) ∉ (pcb :: live).flatMap Pcb.frames := by
    intro member
    obtain ⟨owner, known, entry⟩ := List.mem_flatMap.mp member
    simp only [Pcb.frames, List.mem_filter, List.mem_map, List.mem_range] at entry
    obtain ⟨⟨k, small, same⟩, _⟩ := entry
    obtain ⟨other, number, _, used, _⟩ := sound.pages owner known k small (by omega)
    have : other = frame := by omega
    rw [this, ← place] at used
    exact used unused
  refine ⟨fun owner member k small mapped => ?_, ?_, fun owner member name => ?_, sound.mirrored⟩
  · rcases List.mem_cons.mp member with rfl | other
    · by_cases same : k = pcb.currentPage
      · subst same
        have here : (pcb.enter ((frame : Int) + 1)).pagetable pcb.currentPage = frame + 1 := Function.update_self ..
        rw [here]
        refine ⟨frame, rfl, filled.framesize ▸ bound, ?_, fun j inFrame line found => ?_⟩
        · obtain ⟨first, rest, whole⟩ := List.exists_cons_of_ne_nil some
          have written := filled.inside 0 first (by simp [whole])
          rw [Nat.add_zero, place] at written
          rw [filled.varmemsize, written]
          exact named
        · have written := filled.inside j line (by rw [page, List.getElem?_take_of_lt inFrame, List.getElem?_drop]; exact found)
          rw [filled.varmemsize, ← place, written]
      · have kept : (pcb.enter ((frame : Int) + 1)).pagetable k = pcb.pagetable k := Function.update_of_ne same _ _
        rw [kept] at mapped ⊢
        exact (sound.pages pcb (by simp) k small mapped).filled free few filled
    · exact (sound.pages owner (by simp [other]) k small mapped).filled free few filled
  · rw [List.flatMap_cons] at fresh ⊢
    have perm := (frames_enter inside empty (show (frame : Int) + 1 ≠ -1 by omega)).append_right (live.flatMap Pcb.frames)
    rw [perm.nodup_iff, List.cons_append, List.nodup_cons]
    exact ⟨fresh, by simpa using sound.apart⟩
  · rcases List.mem_cons.mp member with rfl | other
    · exact sound.files pcb (by simp) name
    · exact sound.files owner (by simp [other]) name

/-- A new process without pages. -/
theorem Sound.start {filename : CString}
    {file : List UInt8} (sound : Sound live memory disk) (pid : Nat) (found : disk filename = some file) :
    Sound (makePcb pid filename file :: live) memory disk where
  pages := by
    intro pcb member k inside mapped
    rcases List.mem_cons.mp member with rfl | old
    · exact absurd rfl mapped
    · exact sound.pages pcb old k inside mapped
  apart := by
    have none : (makePcb pid filename file).frames = [] := by simp [Pcb.frames, makePcb]
    rw [List.flatMap_cons, none]
    exact sound.apart
  files := by
    intro pcb member name same
    rcases List.mem_cons.mp member with rfl | old
    · cases same
      exact found
    · exact sound.files pcb old name same
  mirrored := sound.mirrored

theorem frame_eq {k : Nat} {entry : Int} (reads : pcb.frame k = .ok entry) : pcb.pagetable k = entry := by
  unfold Pcb.frame at reads
  split at reads
  · exact Except.ok.inj reads
  · cases reads

namespace Kernel

variable {World : Type} {kernel kernel' middle : Kernel World} {extra extra' extra'' : List Pcb}

/-- A step that, as long as all loads are clean, keeps the page tables of the unfinished processes true; `extra` are
those outside the queue. -/
structure Keeps (extra extra' : List Pcb) (kernel kernel' : Kernel World) : Prop where
  grows : kernel.trace <+: kernel'.trace
  sound : Clean kernel'.trace → Sound (extra ++ kernel.queue) kernel.memory kernel.disk →
    Sound (extra' ++ kernel'.queue) kernel'.memory kernel'.disk

theorem Keeps.trans (first : Keeps extra extra' kernel middle) (second : Keeps extra' extra'' middle kernel') :
    Keeps extra extra'' kernel kernel' :=
  ⟨first.grows.trans second.grows, fun clean sound => second.sound clean (first.sound (clean.before second.grows) sound)⟩

/-- Steps that only change the variables and what the page tables do not depend on. -/
theorem Keeps.of_same (trace : kernel.trace <+: kernel'.trace) (queue : kernel'.queue = kernel.queue)
    (same : SameFrames kernel.memory kernel'.memory) (disk : kernel'.disk = kernel.disk) : Keeps extra extra kernel kernel' :=
  ⟨trace, fun _ sound => by
    rw [queue, disk]
    exact sound.sameFrames same⟩

theorem loadPage_grows {fp fp' : Stream} {filename : CString} {pcb pcb' : Pcb}
    (loads : loadPage fp filename pcb kernel = .ok (fp', pcb', kernel')) : kernel.trace <+: kernel'.trace := by
  simp only [loadPage, bind_eq_ok] at loads
  obtain ⟨_, _, ⟨count, fp₁, memory₁⟩, _, _, _, loads⟩ := loads
  simp only [Except.ok.injEq, Prod.mk.injEq] at loads
  obtain ⟨_, _, rfl⟩ := loads
  split <;> simp [log]

/-- A load with the next lines of the script. -/
theorem loadPage_keeps (extra : List Pcb) {fp fp' : Stream} {filename : CString} {pcb pcb' : Pcb}
    (loads : loadPage fp filename pcb kernel = .ok (fp', pcb', kernel')) (empty : pcb.pagetable pcb.currentPage = -1)
    (lines : fetched fp.rest = (fetched pcb.script).drop (3 * pcb.currentPage)) :
    Keeps (pcb :: extra) (pcb' :: extra) kernel kernel' ∧ (∃ entry lruTimer, pcb' = { pcb with lruTimer := lruTimer }.enter entry) ∧
      fetched fp'.rest = (fetched pcb.script).drop (3 * (pcb.currentPage + 1)) ∧
      kernel'.queue = kernel.queue ∧ kernel'.disk = kernel.disk := by
  have grows := loadPage_grows loads
  simp only [loadPage, bind_eq_ok] at loads
  obtain ⟨⟨index, pcb₁, memory₁⟩, finds, ⟨count, fp₁, memory₂⟩, reads, entry, bound, loads⟩ := loads
  simp only [Except.ok.injEq, Prod.mk.injEq] at loads
  obtain ⟨rfl, rfl, rfl⟩ := loads
  obtain ⟨counts, left, filled⟩ := readPage_filled reads
  have inside : pcb₁.currentPage < 50 := by
    unfold Pcb.frame at bound
    split at bound
    · assumption
    · cases bound
  have after : fetched fp₁.rest = (fetched pcb.script).drop (3 * (pcb.currentPage + 1)) := by
    rw [left, lines, List.drop_drop]
    congr 1
  cases free : firstFree kernel.memory with
  | none =>
      rw [free] at grows
      simp only [free, Option.isSome_none, Bool.false_eq_true, if_false, findFreeFrame, log, bind_eq_ok, Except.ok.injEq,
        Prod.mk.injEq] at finds
      obtain ⟨_, _, rfl, rfl, rfl⟩ := finds
      exact ⟨⟨grows, fun clean => absurd (clean .evicted (by simp [log])) id⟩, ⟨_, _, rfl⟩, after, by simp [log], by simp [log]⟩
  | some place =>
      rw [free] at grows
      simp only [free, Option.isSome_some, if_true, findFreeFrame, Except.ok.injEq, Prod.mk.injEq] at finds
      obtain ⟨rfl, rfl, rfl⟩ := finds
      refine ⟨⟨grows, fun clean sound => ?_⟩, ⟨_, pcb.lruTimer, rfl⟩, after, by simp [log], by simp [log]⟩
      obtain ⟨named, some⟩ := clean (.loaded filename count) (by simp [log])
      simp only [Option.isSome_some, if_true]
      rw [lines] at filled counts
      refine sound.load inside empty free rfl ?_ named filled
      rintro none
      rw [none] at counts
      simp [counts] at some

theorem Keeps.swap {pcb pcb' : Pcb} (alike : Alike pcb pcb') : Keeps (pcb :: extra) (pcb' :: extra) kernel kernel :=
  ⟨List.prefix_rfl, fun _ sound => sound.swap alike⟩

theorem Keeps.advancePage (pcb : Pcb) : Keeps (pcb :: extra) (pcb.advancePage :: extra) kernel kernel :=
  .swap ⟨rfl, rfl, .inl rfl⟩

theorem loadFirst_keeps (extra : List Pcb) {filename : CString} (rounds : Nat) {fp : Stream} {pcb pcb' : Pcb}
    (loads : loadFirst filename rounds fp pcb kernel = .ok (pcb', kernel')) (empty : ∀ k, pcb.currentPage ≤ k → pcb.pagetable k = -1)
    (lines : fetched fp.rest = (fetched pcb.script).drop (3 * pcb.currentPage)) :
    Keeps (pcb :: extra) (pcb' :: extra) kernel kernel' ∧ kernel'.queue = kernel.queue ∧ kernel'.disk = kernel.disk := by
  induction rounds generalizing fp pcb kernel with
  | zero =>
      simp only [loadFirst, Except.ok.injEq, Prod.mk.injEq] at loads
      obtain ⟨rfl, rfl⟩ := loads
      exact ⟨.swap (.refl pcb), rfl, rfl⟩
  | succ rounds ih =>
      rw [loadFirst] at loads
      split at loads
      · exact ih loads empty lines
      · simp only [bind_eq_ok] at loads
        obtain ⟨⟨fp₁, pcb₁, kernel₁⟩, one, rest⟩ := loads
        obtain ⟨keeps, ⟨entry, lruTimer, rfl⟩, left, queue, disk⟩ := loadPage_keeps extra one (empty _ le_rfl) lines
        have later : ∀ k, pcb.currentPage + 1 ≤ k →
            (({ pcb with lruTimer := lruTimer } : Pcb).enter entry).pagetable k = -1 := by
          intro k above
          rw [← empty k (by omega)]
          exact Function.update_of_ne (by simp only; omega) _ _
        obtain ⟨keepsRest, queueRest, diskRest⟩ := ih rest later left
        exact ⟨keeps.trans ((Keeps.advancePage _).trans keepsRest), queueRest.trans queue, diskRest.trans disk⟩

theorem processInitialize_keeps {filename : CString} {errorCode : Int}
    (starts : processInitialize filename kernel = .ok (errorCode, kernel')) : Keeps extra extra kernel kernel' := by
  unfold processInitialize at starts
  split at starts
  · simp only [Except.ok.injEq, Prod.mk.injEq] at starts
    exact starts.2 ▸ .of_same List.prefix_rfl rfl (.refl _) rfl
  · next file found =>
      simp only [bind_eq_ok, Except.ok.injEq, Prod.mk.injEq] at starts
      obtain ⟨⟨pcb, kernel₁⟩, loads, pc, _, _, rfl⟩ := starts
      obtain ⟨keeps, queue, disk⟩ := loadFirst_keeps extra 2 loads (fun _ _ => rfl) rfl
      refine ⟨keeps.grows, fun clean sound => ?_⟩
      have loaded := keeps.sound clean (Sound.start sound kernel.pidCounter found)
      have moved : ((pcb :: extra) ++ kernel₁.queue).Perm (extra ++ kernel₁.queue ++ [pcb]) := by
        simpa using (List.perm_append_singleton pcb (extra ++ kernel₁.queue)).symm
      have same : List.Forall₂ Alike (extra ++ kernel₁.queue ++ [pcb]) (extra ++ (kernel₁.queue ++
          [{ pcb with currentPage := 0, pc := pc, pagesNeeded := countPages file }])) := by
        rw [← List.append_assoc]
        exact List.rel_append (List.forall₂_same.mpr fun other _ => .refl other) (.cons ⟨rfl, rfl, .inl rfl⟩ .nil)
      exact (loaded.perm moved).alike same

theorem handlePageFault_keeps {pcb : Pcb} (faults : handlePageFault pcb kernel = .ok kernel')
    (empty : pcb.pagetable pcb.currentPage = -1) : Keeps (pcb :: extra) extra kernel kernel' := by
  unfold handlePageFault at faults
  split at faults
  · cases faults
  · next filename named =>
      split at faults
      · cases faults
      · next file found =>
          simp only [bind_eq_ok, Except.ok.injEq] at faults
          obtain ⟨⟨fp, pcb₁, kernel₁⟩, loads, pc, _, rfl⟩ := faults
          have grows : kernel.trace <+: kernel₁.trace := loadPage_grows loads
          refine ⟨grows, fun clean sound => ?_⟩
          have own := sound.files pcb (by simp) filename named
          rw [found, Option.some.injEq] at own
          subst own
          have lines : fetched (skipLines (pcb.currentPage * 3) (fopen pcb.script)).rest =
              (fetched pcb.script).drop (3 * pcb.currentPage) := by
            rw [skipLines_fetched, Nat.mul_comm]
            rfl
          have loaded := (loadPage_keeps extra loads empty lines).1.sound clean sound
          have moved : ((pcb₁ :: extra) ++ kernel₁.queue).Perm (extra ++ kernel₁.queue ++ [pcb₁]) := by
            simpa using (List.perm_append_singleton pcb₁ (extra ++ kernel₁.queue)).symm
          have same : List.Forall₂ Alike (extra ++ kernel₁.queue ++ [pcb₁]) (extra ++ (kernel₁.queue ++ [{ pcb₁ with pc := pc }])) := by
            rw [← List.append_assoc]
            exact List.rel_append (List.forall₂_same.mpr fun other _ => .refl other) (.cons ⟨rfl, rfl, .inl rfl⟩ .nil)
          exact (loaded.perm moved).alike same

/-- Copying a script again writes what is there. -/
theorem copyFileBack_keeps (extra : List Pcb) {name path : CString} (copies : copyFileBack name kernel = .ok (path, kernel')) :
    Keeps extra extra kernel kernel' := by
  simp only [copyFileBack] at copies
  split at copies
  · split at copies
    · cases copies
    · next file found =>
        simp only [Except.ok.injEq, Prod.mk.injEq] at copies
        obtain ⟨rfl, rfl⟩ := copies
        refine ⟨List.prefix_rfl, fun _ sound => ?_⟩
        have stays : ∀ other content, kernel.disk other = some content →
            Function.update kernel.disk (backingStore ++ name) (some (file.takeWhile (· ≠ 255))) other = some content := by
          intro other content old
          by_cases same : other = backingStore ++ name
          · subst same
            obtain ⟨source, held, copy⟩ := sound.mirrored name content old
            rw [found, Option.some.injEq] at held
            rw [Function.update_self, copy, held]
          · rw [Function.update_of_ne same]
            exact old
        refine ⟨sound.pages, sound.apart, fun pcb member filename named => stays _ _ (sound.files pcb member filename named),
          fun other copy held => ?_⟩
        change Function.update kernel.disk (backingStore ++ name) (some (file.takeWhile (· ≠ 255))) _ = some copy at held
        by_cases same : other = name
        · subst same
          rw [Function.update_self, Option.some.injEq] at held
          exact ⟨file, stays _ _ found, held.symm⟩
        · rw [Function.update_of_ne (fun equal => same (List.append_cancel_left equal))] at held
          obtain ⟨source, old, whole⟩ := sound.mirrored other copy held
          exact ⟨source, stays _ _ old, whole⟩
  · cases copies

theorem dangle_keeps (pid : Nat) : Keeps extra extra kernel (kernel.dangle pid) := by
  refine ⟨List.prefix_rfl, fun _ sound => sound.alike ?_⟩
  refine List.rel_append (List.forall₂_same.mpr fun other _ => .refl other) ?_
  rw [dangle, List.forall₂_map_right_iff, List.forall₂_same]
  intro pcb _
  split
  · exact ⟨rfl, rfl, .inr rfl⟩
  · exact .refl pcb

theorem scheduleByPolicy_keeps (policy : Policy) : Keeps extra extra kernel (kernel.scheduleByPolicy policy) := by
  unfold scheduleByPolicy
  split
  · exact .of_same List.prefix_rfl rfl (.refl _) rfl
  · exact .of_same List.prefix_rfl rfl (.refl _) rfl

theorem execLoad_keeps {names : List CString} {errorCode : Int} (loads : execLoad names kernel = .ok (errorCode, kernel')) :
    Keeps extra extra kernel kernel' := by
  induction names generalizing kernel with
  | nil =>
      simp only [execLoad, Except.ok.injEq, Prod.mk.injEq] at loads
      exact loads.2 ▸ .of_same List.prefix_rfl rfl (.refl _) rfl
  | cons name rest ih =>
      simp only [execLoad, bind_eq_ok] at loads
      obtain ⟨⟨path, kernel₁⟩, copies, ⟨code, kernel₂⟩, starts, loads⟩ := loads
      have keeps := (copyFileBack_keeps extra copies).trans (processInitialize_keeps starts)
      split at loads
      · simp only [Except.ok.injEq, Prod.mk.injEq] at loads
        exact loads.2 ▸ keeps
      · exact keeps.trans (ih loads)

/-- Every command keeps the page tables true. -/
theorem runCommand_keeps {command : Command} (runs : runCommand kernel command = .ok kernel') :
    Keeps extra extra kernel kernel' := by
  cases command with
  | set var value =>
      simp only [runCommand, Except.ok.injEq] at runs
      exact runs ▸ .of_same List.prefix_rfl rfl (memSetValue_sameFrames _ var value) rfl
  | resetmem =>
      simp only [runCommand, Except.ok.injEq] at runs
      exact runs ▸ .of_same List.prefix_rfl rfl (resetvarmem_sameFrames _) rfl
  | quit => cases runs
  | run script =>
      simp only [runCommand, bind_eq_ok, Except.ok.injEq] at runs
      obtain ⟨⟨code, kernel₁⟩, starts, rfl⟩ := runs
      exact (processInitialize_keeps starts).trans (scheduleByPolicy_keeps .fcfs)
  | exec names =>
      simp only [runCommand, exec, bind_eq_ok] at runs
      obtain ⟨⟨code, kernel₁⟩, loads, runs⟩ := runs
      have keeps : Keeps extra extra kernel kernel₁ := execLoad_keeps loads
      split at runs
      · simp only [Except.ok.injEq] at runs
        exact runs ▸ keeps.trans (dangle_keeps _)
      · simp only [Except.ok.injEq] at runs
        subst runs
        have scheduled := keeps.trans (scheduleByPolicy_keeps .rr)
        split
        · exact scheduled.trans (dangle_keeps _)
        · exact scheduled

theorem runCommands_keeps {commands : List Command} (runs : commands.foldlM runCommand kernel = .ok kernel') :
    Keeps extra extra kernel kernel' := by
  induction commands generalizing kernel with
  | nil =>
      simp only [List.foldlM_nil, pure, Except.pure, Except.ok.injEq] at runs
      exact runs ▸ .of_same List.prefix_rfl rfl (.refl _) rfl
  | cons command rest ih =>
      simp only [List.foldlM_cons, bind_eq_ok] at runs
      obtain ⟨kernel₁, first, later⟩ := runs
      exact (runCommand_keeps first).trans (ih later)

theorem parseLine_keeps {parse : Parser World} {pid : Nat} {line : Option CString}
    (parses : parseLine parse pid line kernel = .ok kernel') : Keeps extra extra kernel kernel' := by
  unfold parseLine at parses
  split at parses
  · cases parses
  · next line =>
      split at parses
      · simp only [Except.ok.injEq] at parses
        exact parses ▸ .of_same List.prefix_rfl rfl (.refl _) rfl
      · have handed : Keeps extra extra kernel
            { kernel.log (.handed pid line) with world := (parse line kernel.memory kernel.world).2 } :=
          .of_same (List.prefix_append _ _) rfl (.refl _) rfl
        exact handed.trans (runCommands_keeps parses)

/-- A finished process has no pages any more. -/
theorem Keeps.drop {pcb : Pcb} : Keeps (pcb :: extra) extra kernel kernel :=
  ⟨List.prefix_rfl, fun _ sound =>
    ⟨fun owner member => sound.pages owner (List.mem_cons_of_mem _ member),
      (List.nodup_append.mp (List.flatMap_cons ▸ sound.apart)).2.1,
      fun owner member => sound.files owner (List.mem_cons_of_mem _ member), sound.mirrored⟩⟩

theorem executeProcess_keeps {parse : Parser World} (quanta : Nat) {pcb : Pcb} {left : Option Pcb}
    (executes : executeProcess parse quanta pcb kernel = .ok (left, kernel')) : Keeps [pcb] left.toList kernel kernel' := by
  induction quanta generalizing pcb kernel with
  | zero =>
      simp only [executeProcess, Except.ok.injEq, Prod.mk.injEq] at executes
      obtain ⟨rfl, rfl⟩ := executes
      exact .of_same List.prefix_rfl rfl (.refl _) rfl
  | succ quanta ih =>
      simp only [executeProcess, bind_eq_ok] at executes
      obtain ⟨frame, _, line, _, executes⟩ := executes
      have fetches : Keeps [pcb] [pcb.fetch] kernel { kernel with inBackground := true } :=
        ⟨List.prefix_rfl, fun _ sound => sound.swap ⟨rfl, rfl, .inl rfl⟩⟩
      have ends {next : List Pcb} {middle : Kernel World} : Keeps next next middle { middle with inBackground := false } :=
        .of_same List.prefix_rfl rfl (.refl _) rfl
      split at executes
      · simp only [bind_eq_ok] at executes
        obtain ⟨entry, bound, executes⟩ := executes
        have pages := fetches.trans (.advancePage _)
        split at executes
        · simp only [bind_eq_ok, Except.ok.injEq, Prod.mk.injEq] at executes
          obtain ⟨kernel₁, parses, rfl, rfl⟩ := executes
          exact pages.trans ((parseLine_keeps parses).trans (Keeps.drop.trans ends))
        · split at executes
          · next missing =>
              simp only [bind_eq_ok, Except.ok.injEq, Prod.mk.injEq] at executes
              obtain ⟨kernel₁, parses, kernel₂, faults, rfl, rfl⟩ := executes
              have empty : pcb.fetch.advancePage.pagetable pcb.fetch.advancePage.currentPage = -1 := by
                rw [← missing]
                exact frame_eq bound
              exact pages.trans ((parseLine_keeps parses).trans (handlePageFault_keeps faults empty))
          · simp only [bind_eq_ok] at executes
            obtain ⟨kernel₁, parses, executes⟩ := executes
            exact pages.trans ((parseLine_keeps parses).trans (ends.trans (ih executes)))
      · simp only [bind_eq_ok] at executes
        obtain ⟨kernel₁, parses, executes⟩ := executes
        exact fetches.trans ((parseLine_keeps parses).trans (ends.trans (ih executes)))

theorem turn_keeps {parse : Parser World} {policy : Policy} (turns : turn parse policy kernel = .ok kernel') :
    Keeps [] [] kernel kernel' := by
  unfold turn at turns
  split at turns
  · cases turns
  · next pcb rest front =>
      simp only [bind_eq_ok] at turns
      obtain ⟨⟨left, kernel₁⟩, executes, turns⟩ := turns
      have popped : Keeps [] [pcb] kernel { kernel with queue := rest } :=
        ⟨List.prefix_rfl, fun _ sound => by simpa [front] using sound⟩
      have ran := popped.trans (executeProcess_keeps _ executes)
      have same : Keeps [] [] kernel₁ kernel₁ := .of_same List.prefix_rfl rfl (.refl _) rfl
      cases left with
      | none =>
          have used : kernel' = kernel₁ := by cases policy <;> simpa using turns.symm
          exact used ▸ ran.trans same
      | some next =>
          cases policy with
          | fcfs =>
              simp only [Except.ok.injEq] at turns
              exact turns ▸ ran.trans .drop
          | rr =>
              simp only [Except.ok.injEq] at turns
              subst turns
              refine ran.trans ⟨List.prefix_rfl, fun _ sound => sound.perm ?_⟩
              simpa using (List.perm_append_singleton next kernel₁.queue).symm

/-- A step of a session keeps the page tables true as long as its loads are clean. -/
theorem step_keeps {parse : Parser World} (step : Step parse kernel kernel') : Keeps [] [] kernel kernel' := by
  cases step with
  | command idle world command next runs =>
      have same : Keeps [] [] kernel { kernel with world := world } := .of_same List.prefix_rfl rfl (.refl _) rfl
      exact same.trans (runCommand_keeps runs)
  | turn policy running waits next turns => exact turn_keeps turns
  | finish policy running ended => exact .of_same List.prefix_rfl rfl (.refl _) rfl

/-- Every mapped page that is still to come lies in its frame, and no two pages share a frame. -/
structure PageTablesTrue (kernel : Kernel World) : Prop where
  lines : ∀ pcb ∈ kernel.queue, ∀ k < 50, pcb.currentPage ≤ k → pcb.pagetable k ≠ -1 → ∀ j < 3, ∀ line,
    (fetched pcb.script)[3 * k + j]? = some line →
      (kernel.memory.slots (kernel.memory.varmemsize + (pcb.pagetable k - 1) * 3 + j).toNat).value = strdup line
  apart : (kernel.queue.flatMap Pcb.frames).Nodup

/-- In a session whose loads all find a free frame and leave it in use, the page tables are true in every state. -/
theorem session_pageTablesTrue (parse : Parser World) (varmemsize framesize : Nat) (disk : CString → Option (List UInt8))
    (world : World) (emptied : ∀ name, disk (backingStore ++ name) = none)
    (reached : Relation.ReflTransGen (Step parse) (booted varmemsize framesize disk world) kernel) (clean : Clean kernel.trace) :
    PageTablesTrue kernel := by
  have keeps : Keeps [] [] (booted varmemsize framesize disk world) kernel := by
    clear clean
    induction reached with
    | refl => exact .of_same List.prefix_rfl rfl (.refl _) rfl
    | tail _ step ih => exact ih.trans (step_keeps step)
  have start : Sound ([] ++ (booted varmemsize framesize disk world).queue) (booted varmemsize framesize disk world).memory
      (booted varmemsize framesize disk world).disk :=
    ⟨by simp [booted], by simp [booted], by simp [booted], fun name copy held => by simp [booted, emptied] at held⟩
  have sound := keeps.sound clean start
  rw [List.nil_append] at sound
  refine ⟨fun pcb member k inside _ mapped j small line found => ?_, sound.apart⟩
  obtain ⟨frame, number, _, _, held⟩ := sound.pages pcb member k inside mapped
  have place : (kernel.memory.varmemsize + (pcb.pagetable k - 1) * 3 + j : Int).toNat =
      kernel.memory.varmemsize + 3 * frame + j := by omega
  rw [place]
  exact held j small line found

/-- A parser whose lines do nothing. -/
def quiet : Parser Unit := fun _ _ world => ([], world)

/-- The only file is the script `s`. -/
def oneScript (script : List UInt8) : CString → Option (List UInt8) :=
  fun name => if name = .ofChars ['s'] then some script else none

theorem oneScript_emptied (script : List UInt8) (name : CString) : oneScript script (backingStore ++ name) = none := by
  simp [oneScript, backingStore, CString.ofChars]

/-- Four lines, which need two pages. -/
def fourLines : List UInt8 := CString.ofChars ['a', '\n', 'b', '\n', 'c', '\n', 'd']

/-- Seven lines, which need three pages. -/
def sevenLines : List UInt8 := CString.ofChars ['a', '\n', 'b', '\n', 'c', '\n', 'd', '\n', 'e', '\n', 'f', '\n', 'g']

/-- A script of three pages runs to its page fault, which loads the third one. -/
theorem session_pageTablesTrue_run : ∃ loaded kernel : Kernel Unit,
    runCommand (booted 2 15 (oneScript sevenLines) ()) (.run (CString.ofChars ['s'])) = .ok loaded ∧
      loaded.turn quiet .fcfs = .ok kernel ∧
      Relation.ReflTransGen (Step quiet) (booted 2 15 (oneScript sevenLines) ()) kernel ∧
      kernel.queue.flatMap Pcb.frames = [1, 2, 3] ∧ PageTablesTrue kernel := by
  have facts : (runCommand (booted 2 15 (oneScript sevenLines) ()) (.run (CString.ofChars ['s']))).toOption.bind (fun loaded =>
      (loaded.turn quiet .fcfs).toOption.map fun kernel =>
        (loaded.policy, loaded.queue.isEmpty, kernel.queue.flatMap Pcb.frames, kernel.trace)) =
      some (some .fcfs, false, [1, 2, 3], [.loaded [115] 3, .loaded [115] 3, .handed 1 [97, 10], .handed 1 [98, 10],
        .handed 1 [99, 10], .handed 1 [100, 10], .handed 1 [101, 10], .handed 1 [102, 10], .loaded [115] 1]) := by decide +kernel
  obtain ⟨loaded, loads, facts⟩ := Option.bind_eq_some_iff.mp facts
  obtain ⟨kernel, turns, facts⟩ := Option.map_eq_some_iff.mp facts
  rw [Prod.mk.injEq, Prod.mk.injEq, Prod.mk.injEq] at facts
  obtain ⟨running, waits, frames, trace⟩ := facts
  have loads := ok_of_toOption loads
  have turns := ok_of_toOption turns
  have waits : loaded.queue ≠ [] := fun none => by simp [none] at waits
  have reached : Relation.ReflTransGen (Step quiet) (booted 2 15 (oneScript sevenLines) ()) kernel :=
    (Relation.ReflTransGen.single (.command rfl () _ loaded loads)).tail (.turn .fcfs running waits kernel turns)
  refine ⟨loaded, kernel, loads, turns, reached, frames,
    session_pageTablesTrue quiet 2 15 _ () (oneScript_emptied _) reached ?_⟩
  rw [trace]
  simp only [Clean, List.forall_mem_cons, Event.clean, List.not_mem_nil, false_imp_iff, implies_true, and_true, true_and]
  decide

/-- With one frame both first pages of a script of four lines lie in it. -/
theorem run_shares_frame : ¬ ∀ kernel : Kernel Unit,
    Relation.ReflTransGen (Step quiet) (booted 2 3 (oneScript fourLines) ()) kernel → PageTablesTrue kernel := by
  intro claim
  have twice : ((runCommand (booted 2 3 (oneScript fourLines) ()) (.run (CString.ofChars ['s']))).toOption.map
      fun kernel => kernel.queue.flatMap Pcb.frames) = some [1, 1] := by decide +kernel
  cases runs : runCommand (booted 2 3 (oneScript fourLines) ()) (.run (CString.ofChars ['s'])) with
  | error fault =>
      rw [runs] at twice
      cases twice
  | ok kernel =>
      rw [runs] at twice
      have apart := (claim kernel (.single (.command rfl () _ kernel runs))).apart
      have frames : kernel.queue.flatMap Pcb.frames = [1, 1] := Option.some.inj twice
      rw [frames] at apart
      exact absurd apart (by decide)

end Kernel
end MockOS.A2
