import MockOS.Proc.MemorySize
import MockOS.Proc.VariableStore

namespace MockOS.Proc

open ShellMemory

theorem handedLines_eq_executed (trace : List Event) : handedLines trace = (executed trace).map Prod.snd := by
  rw [handedLines, executed, List.map_filterMap]
  refine List.filterMap_congr fun event _ => ?_
  cases event <;> rfl

/-- The lines of one process, out of all lines that were run. -/
def linesOf (pid : Nat) (order : List (Nat × CString)) : List CString := (order.filter fun call => call.1 = pid).map Prod.snd

theorem handedTo_eq_linesOf (pid : Nat) (trace : List Event) : Kernel.handedTo pid trace = linesOf pid (executed trace) := by
  induction trace with
  | nil => rfl
  | cons event rest ih =>
      cases event with
      | handed owner line =>
          rw [Kernel.handedTo] at ih ⊢
          rw [executed] at ih ⊢
          by_cases same : owner = pid <;> simp [linesOf, same, ih]
      | loadPage owner page => exact ih
      | pageEvict owner page => exact ih

/-- A process that runs alone runs all lines. -/
theorem linesOf_alone {pid : Nat} {order : List (Nat × CString)} (alone : ∀ call ∈ order, call.1 = pid) :
    linesOf pid order = order.map Prod.snd := by
  rw [linesOf, List.filter_eq_self.mpr fun call member => by simpa using alone call member]

/-- An order of the lines of processes that are numbered from `first` on, each with its lines in their own order. -/
structure Interleaves (first : Nat) (texts : List (List CString)) (order : List (Nat × CString)) : Prop where
  owned : ∀ call ∈ order, ∃ i < texts.length, call.1 = first + i
  lines : ∀ i (inside : i < texts.length), linesOf (first + i) order = texts[i]

/-- One process alone has only one order. -/
theorem Interleaves.single {first : Nat} {lines : List CString} {order : List (Nat × CString)}
    (interleaves : Interleaves first [lines] order) : order.map Prod.snd = lines := by
  have alone : ∀ call ∈ order, call.1 = first := by
    intro call member
    obtain ⟨i, inside, owner⟩ := interleaves.owned call member
    rw [List.length_singleton] at inside
    omega
  rw [← linesOf_alone alone]
  exact interleaves.lines 0 Nat.one_pos

/-- Every line of the order is one of the lines. -/
theorem Interleaves.mem {first : Nat} {texts : List (List CString)} {order : List (Nat × CString)} {call : Nat × CString}
    (interleaves : Interleaves first texts order) (member : call ∈ order) : ∃ text ∈ texts, call.2 ∈ text := by
  obtain ⟨i, inside, owner⟩ := interleaves.owned call member
  refine ⟨texts[i], List.getElem_mem inside, ?_⟩
  rw [← interleaves.lines i inside]
  exact List.mem_map_of_mem (List.mem_filter.mpr ⟨member, by simpa using owner⟩)

/-- The lines of a script as `parseInput` gets them. -/
def Script.texts (script : Script) : List CString := (withNewlines script.lines).map strdup

/-- The lines that the kernel takes from a file. -/
def countedLines (file : List UInt8) : List CString := ((fetched file).take (countLines file)).map strdup

theorem Script.countedLines_file (script : Script) : countedLines script.file = script.texts := by
  rw [countedLines, Script.countLines_file, Script.file, Script.fetched_lines script.line, Script.texts,
    List.take_of_length_le (Nat.le_of_eq (Script.length_withNewlines _))]

namespace Kernel

variable {World : Type} {parseInput : Interpreter World} {jobs : Jobs} {paging : Paging} {kernel kernel' final : Kernel World}
  {start : World × ShellMemory} {fuel : Nat}

theorem freePcbs_world {pids : List Nat} (frees : pids.foldlM freePcb kernel = .ok kernel') : kernel'.world = kernel.world := by
  induction pids generalizing kernel with
  | nil =>
      simp only [List.foldlM_nil, pure, Except.pure, Except.ok.injEq] at frees
      rw [frees]
  | cons pid rest ih =>
      rw [List.foldlM_cons, bind_eq_ok] at frees
      obtain ⟨middle, first, later⟩ := frees
      simp only [freePcb, bind_eq_ok, Except.ok.injEq] at first
      obtain ⟨_, _, _, _, rfl⟩ := first
      rw [ih later]

/-- Only the processes of the queue run lines. -/
theorem rrLoop_executed_known (runs : Runs jobs parseInput) (represents : Represents jobs paging kernel)
    (settled : Paging.Settled jobs.work paging) (known : ∀ call ∈ executed kernel.trace, call.1 ∈ jobs.pids)
    (ends : rrLoop parseInput fuel kernel = .ok (some final)) : ∀ call ∈ executed final.trace, call.1 ∈ jobs.pids := by
  obtain ⟨⟨_, _, _, kept⟩, _⟩ :=
    Lib.loop_invariant (fun kernel => ∃ paging, Represents jobs paging kernel ∧ Paging.Settled jobs.work paging ∧
      ∀ call ∈ executed kernel.trace, call.1 ∈ jobs.pids)
      (by
        rintro state next ⟨paging, represents, settled, known⟩ running steps
        obtain ⟨next', paging', steps', turn, represents', _⟩ := represents.turn runs settled running
        rw [steps, Except.ok.injEq] at steps'
        subst steps'
        refine ⟨paging', represents', settled.turn runs.admissible turn, fun call member => ?_⟩
        cases front : state.queue with
        | nil => simp [queueDone, front] at running
        | cons pid rest =>
            obtain ⟨events, trace, own⟩ := rrTurn_growsBy front steps
            rw [trace, executed_append] at member
            rcases List.mem_append.mp member with before | now
            · exact known call before
            · rw [own call now]
              exact settled.consistent.readyKnown pid (by rw [← represents.queue, front]; exact List.mem_cons_self))
      fuel kernel final ⟨paging, represents, settled, known⟩ ends
  exact kept

/-- What a finished run did: an order of the lines of its scripts, and their effect on the rest of the shell and, if a frame
stays unused, on the variables. -/
structure RanAs (parseInput : Interpreter World) (start : World × ShellMemory) (first : Nat) (scripts : List (List UInt8))
    (order : List (Nat × CString)) (final : Kernel World) : Prop where
  interleaves : Interleaves first (scripts.map countedLines) order
  world : final.world = (runLines parseInput (order.map Prod.snd) start).1
  vars : totalPages scripts < start.2.frameStoreSize / 3 → ∀ pos, start.2.frameStoreSize ≤ pos →
    pos < start.2.frameStoreSize + start.2.varStoreSize →
      final.memory.slots pos = (runLines parseInput (order.map Prod.snd) start).2.slots pos

/-- A finished run did what the lines do that it handed over. -/
theorem runProcRR_ranAs {scripts : List (List UInt8)} {first : Nat} {memory : ShellMemory} {world : World}
    {loaded : Kernel World} (nonempty : scripts ≠ []) (empty : ∀ pos < memory.frameStoreSize, (memory.slots pos).var = noneStr)
    (other : ∀ file ∈ scripts, ∀ line ∈ fetched file, ∀ world, (parseInput (strdup line) world).ret ≠ 1)
    (loads : newProcs (scripts.map some) (kernelSetup first memory world) = .ok loaded)
    (ends : runProcRR parseInput fuel loaded = .ok (some final)) :
    RanAs parseInput (world, memory) first scripts (executed final.trace) final := by
  simp only [Kernel.runProcRR, bind_eq_ok] at ends
  obtain ⟨result, loop, ends⟩ := ends
  cases result with
  | none => simp at ends
  | some last =>
      simp only [bind_eq_ok, Except.ok.injEq, Option.some.injEq] at ends
      obtain ⟨cleaned, frees, rfl⟩ := ends
      have room := newProcs_fits empty loads
      have enough : ∀ file ∈ scripts, countLines file ≤ (fetched file).length := by
        intro file member
        by_contra short
        obtain ⟨owner, count, queued, starves⟩ := newProcs_starves member (Nat.lt_of_not_le short) loads
        exact rrLoop_never_ends fuel last queued starves loop
      have runs : Runs (Jobs.ofScripts first scripts memory) parseInput := runs_ofScripts room enough other
      obtain ⟨loaded', loads', silent, represents, intact⟩ := newProcs_kernelSetup scripts first memory world empty room
      rw [loads, Except.ok.injEq] at loads'
      subst loads'
      have settled := Paging.settled_start runs.admissible
      have filled : Paging.Filled (Jobs.ofScripts first scripts memory).work
          (Paging.start (Jobs.ofScripts first scripts memory).work (Jobs.ofScripts first scripts memory).pids) :=
        .inr fun ref known before => Paging.mem_start.mpr ⟨known, before⟩
      obtain ⟨paging, represents', settled', filled', intact', finished⟩ :=
        rrLoop_represents runs represents settled filled (intact parseInput) loop
      have known := rrLoop_executed_known runs represents settled (by rw [silent]; exact fun _ none => absurd none List.not_mem_nil) loop
      have positive := List.length_pos_of_ne_nil nonempty
      have head : first + 0 ∈ (Jobs.ofScripts first scripts memory).pids := Jobs.mem_pids.mpr ⟨0, positive, rfl⟩
      have frames : 1 ≤ memory.frameStoreSize / 3 := runs.admissible.frames_pos head
      have cleans := represents'.cleanUp_iff settled' filled' intact' finished runs.admissible.distinct frames rfl rfl frees
      rw [pages_sum] at cleans
      rw [represents'.allPcb] at frees
      have trace : cleaned.trace = last.trace := (freePcbs_clears frees).2
      refine ⟨⟨fun call member => ?_, fun i inside => ?_⟩, ?_, fun few pos above inside => ?_⟩
      · change call ∈ executed cleaned.trace at member
        rw [trace] at member
        rw [List.length_map]
        exact Jobs.mem_pids.mp (known call member)
      · rw [List.length_map] at inside
        have here : first + i ∈ (Jobs.ofScripts first scripts memory).pids := Jobs.mem_pids.mpr ⟨i, inside, rfl⟩
        rw [← handedTo_eq_linesOf, List.getElem_map]
        change handedTo (first + i) cleaned.trace = _
        rw [trace, represents'.handed _ here, finished _ here]
        simp [Jobs.ofScripts, inside, countedLines]
      · rw [← handedLines_eq_executed]
        change cleaned.world = (runLines parseInput (handedLines cleaned.trace) (world, memory)).1
        rw [freePcbs_world frees, trace, intact'.world]
      · rw [← handedLines_eq_executed]
        exact (cleans.mpr (.inl few)).2 pos above inside

section Scripts

variable {scripts : List Script} {first : Nat} {memory : ShellMemory} {world : World} {loaded : Kernel World}

theorem runProcRR_ranAs_scripts (nonempty : scripts ≠ []) (empty : ∀ pos < memory.frameStoreSize, (memory.slots pos).var = noneStr)
    (other : ∀ script ∈ scripts, ∀ line ∈ script.texts, ∀ world, (parseInput line world).ret ≠ 1)
    (loads : newProcs (scripts.map fun script => some script.file) (kernelSetup first memory world) = .ok loaded)
    (ends : runProcRR parseInput fuel loaded = .ok (some final)) :
    RanAs parseInput (world, memory) first (scripts.map Script.file) (executed final.trace) final := by
  refine runProcRR_ranAs (by simpa using nonempty) empty (fun file member line inside => ?_) (by rwa [List.map_map]) ends
  obtain ⟨script, there, rfl⟩ := List.mem_map.mp member
  rw [Script.file, Script.fetched_lines script.line] at inside
  exact other script there _ (List.mem_map_of_mem inside)

theorem RanAs.texts {order : List (Nat × CString)}
    (ranAs : RanAs parseInput (world, memory) first (scripts.map Script.file) order final) :
    Interleaves first (scripts.map Script.texts) order := by
  have same : countedLines ∘ Script.file = Script.texts := funext Script.countedLines_file
  have interleaves := ranAs.interleaves
  rwa [List.map_map, same] at interleaves

theorem runProcRR_ends_scripts (first : Nat) (world : World)
    (other : ∀ script ∈ scripts, ∀ line ∈ script.texts, ∀ world, (parseInput line world).ret ≠ 1)
    (empty : ∀ pos < memory.frameStoreSize, (memory.slots pos).var = noneStr)
    (room : (scripts.map fun script => min 2 ((script.lines.length + 2) / 3)).sum ≤ memory.frameStoreSize / 3)
    (vars : 2 ≤ memory.varStoreSize) :
    ∃ loaded fuel final, newProcs (scripts.map fun script => some script.file) (kernelSetup first memory world) = .ok loaded ∧
      runProcRR parseInput fuel loaded = .ok (some final) :=
  runProcRR_ends parseInput scripts first memory world
    (fun script member _ inside => other script member _ (List.mem_map_of_mem inside)) empty room vars

/-- Scripts that are run under demand paging act on the shell as if their lines were typed, in an order that keeps the order
of each script and is that of the script if there is only one; the variables come out alike too if the frames hold all pages
and one is left. -/
theorem runProcRR_as_typed (parseInput : Interpreter World) (scripts : List Script) (first : Nat) (memory : ShellMemory)
    (world : World) (nonempty : scripts ≠ [])
    (other : ∀ script ∈ scripts, ∀ line ∈ script.texts, ∀ world, (parseInput line world).ret ≠ 1)
    (empty : ∀ pos < memory.frameStoreSize, (memory.slots pos).var = noneStr)
    (room : (scripts.map fun script => min 2 ((script.lines.length + 2) / 3)).sum ≤ memory.frameStoreSize / 3)
    (vars : 2 ≤ memory.varStoreSize) :
    ∃ loaded fuel final order, newProcs (scripts.map fun script => some script.file) (kernelSetup first memory world) = .ok loaded ∧
      runProcRR parseInput fuel loaded = .ok (some final) ∧ Interleaves first (scripts.map Script.texts) order ∧
      final.world = (runLines parseInput (order.map Prod.snd) (world, memory)).1 ∧
      (totalPages (scripts.map Script.file) < memory.frameStoreSize / 3 → ∀ pos, memory.frameStoreSize ≤ pos →
        pos < memory.frameStoreSize + memory.varStoreSize →
          final.memory.slots pos = (runLines parseInput (order.map Prod.snd) (world, memory)).2.slots pos) ∧
      ∀ script, scripts = [script] → order.map Prod.snd = script.texts := by
  obtain ⟨loaded, fuel, final, loads, ends⟩ := runProcRR_ends_scripts first world other empty room vars
  have ranAs := runProcRR_ranAs_scripts nonempty empty other loads ends
  refine ⟨loaded, fuel, final, _, loads, ends, ranAs.texts, ranAs.world, ranAs.vars, fun script alone => ?_⟩
  have interleaves := ranAs.texts
  rw [alone, List.map_singleton] at interleaves
  exact interleaves.single

theorem runLines_noted (lines : List CString) (noted : List CString) (memory : ShellMemory) :
    (runLines (fun line world => ⟨0, [], world ++ [line]⟩) lines (noted, memory)).1 = noted ++ lines := by
  induction lines generalizing noted with
  | nil => exact (List.append_nil _).symm
  | cons line rest ih => exact (ih (noted ++ [line])).trans (List.append_assoc _ _ _)

/-- Two scripts of five pages in all, in a shell with four frames that notes its lines. -/
theorem runProcRR_as_typed_small : ∃ loaded : Kernel (List CString), ∃ fuel final order,
    newProcs [some sevenLines.file, some fourLines.file] (kernelSetup 1 (ShellMemory.memInit 12 2) []) = .ok loaded ∧
      runProcRR (fun line world => ⟨0, [], world ++ [line]⟩) fuel loaded = .ok (some final) ∧
      Interleaves 1 [sevenLines.texts, fourLines.texts] order ∧ final.world = order.map Prod.snd := by
  obtain ⟨loaded, fuel, final, order, loads, ends, interleaves, world, _⟩ :=
    runProcRR_as_typed (fun line world => ⟨0, [], world ++ [line]⟩) [sevenLines, fourLines]
      1 (ShellMemory.memInit 12 2) [] (List.cons_ne_nil _ _) (fun _ _ _ _ _ => by simp) (fun _ _ => rfl) (by decide) (by decide)
  refine ⟨loaded, fuel, final, order, loads, ends, interleaves, ?_⟩
  rw [world]
  exact runLines_noted _ _ _

end Scripts

end Kernel
end MockOS.Proc
