import MockOS.Proc.Starvation

namespace MockOS.Proc

/-- A script file as the user writes it: lines that are not blank and fit the buffer, none after the last newline. -/
structure Script where
  lines : List (List UInt8)
  nonempty : lines ≠ []
  line : ∀ line ∈ lines, line ≠ [] ∧ 10 ∉ line ∧ line.length < 998

theorem seven_ne_nil : ([[97], [98], [99], [100], [101], [102], [103]] : List (List UInt8)) ≠ [] := List.cons_ne_nil _ _

theorem four_ne_nil : ([[104], [105], [106], [107]] : List (List UInt8)) ≠ [] := List.cons_ne_nil _ _

theorem line_seven : ∀ line ∈ ([[97], [98], [99], [100], [101], [102], [103]] : List (List UInt8)),
    line ≠ [] ∧ 10 ∉ line ∧ line.length < 998 := by decide

theorem line_four : ∀ line ∈ ([[104], [105], [106], [107]] : List (List UInt8)),
    line ≠ [] ∧ 10 ∉ line ∧ line.length < 998 := by decide

/-- The lines `a` to `g`, three pages. -/
def sevenLines : Script := ⟨_, seven_ne_nil, line_seven⟩

/-- The lines `h` to `k`, two pages. -/
def fourLines : Script := ⟨_, four_ne_nil, line_four⟩

namespace Script

/-- The bytes of the file. -/
def file (script : Script) : List UInt8 := [10].intercalate script.lines

/-- Every line but the last one ends in a newline. -/
def withNewlines : List (List UInt8) → List (List UInt8)
  | [] => []
  | [last] => [last]
  | line :: rest => (line ++ [10]) :: withNewlines rest

theorem intercalate_cons (line next : List UInt8) (rest : List (List UInt8)) :
    [10].intercalate (line :: next :: rest) = line ++ 10 :: [10].intercalate (next :: rest) := by
  simp [List.intercalate, List.intersperse]

theorem fgets_newline {line rest : List UInt8} (text : 10 ∉ line) (fits : line.length < 998) :
    fgets 999 (line ++ 10 :: rest) = some (line ++ [10], rest) := by
  rw [fgets, if_neg (by simp), readLine_newline 998 line rest text fits]

theorem fgets_last {line : List UInt8} (notBlank : line ≠ []) (text : 10 ∉ line) (fits : line.length < 998) :
    fgets 999 line = some (line, []) := by
  have all : line.take 998 = line := List.take_of_length_le (by omega)
  rw [fgets, if_neg notBlank, readLine_text 998 line (by rw [all]; exact text), all, List.drop_eq_nil_of_le (by omega)]

/-- The loader gets the lines of the script. -/
theorem fetched_lines {lines : List (List UInt8)}
    (good : ∀ line ∈ lines, line ≠ [] ∧ 10 ∉ line ∧ line.length < 998) :
    fetched ([10].intercalate lines) = withNewlines lines := by
  induction lines with
  | nil => exact fetched_nil
  | cons line rest ih =>
      obtain ⟨notBlank, text, fits⟩ := good line (by simp)
      cases rest with
      | nil =>
          have single : [10].intercalate [line] = line := by simp [List.intercalate]
          rw [single, fetched_some (fgets_last notBlank text fits), fetched_nil, withNewlines]
      | cons next others =>
          rw [intercalate_cons, fetched_some (fgets_newline text fits), withNewlines,
            ih fun other member => good other (by simp [member])]
          simp

theorem countNewlines_lines {lines : List (List UInt8)} (some : lines ≠ [])
    (good : ∀ line ∈ lines, line ≠ [] ∧ 10 ∉ line ∧ line.length < 998) :
    countNewlines 10 ([10].intercalate lines) + 1 = lines.length := by
  induction lines with
  | nil => exact absurd rfl some
  | cons line rest ih =>
      obtain ⟨notBlank, text, _⟩ := good line (by simp)
      cases rest with
      | nil =>
          have whole := countNewlines_text 10 line [] text
          rw [List.append_nil] at whole
          simp [List.intercalate, whole, countNewlines]
      | cons next others =>
          have later := ih (by simp) fun other member => good other (by simp [member])
          rw [intercalate_cons, countNewlines_line 10 line _ text, if_neg (by simp [notBlank]), List.length_cons]
          omega

theorem countLines_file (script : Script) : countLines script.file = script.lines.length :=
  countNewlines_lines script.nonempty script.line

theorem length_withNewlines (lines : List (List UInt8)) : (withNewlines lines).length = lines.length := by
  induction lines with
  | nil => rfl
  | cons line rest ih =>
      cases rest with
      | nil => rfl
      | cons next others => simpa [withNewlines] using ih

end Script

namespace Kernel

open ShellMemory

variable {World : Type} {parseInput : Interpreter World}

/-- A fold whose steps succeed and keep an invariant succeeds and keeps it. -/
theorem foldlM_ok {State Item : Type} (step : State → Item → Outcome State) (invariant : State → Prop)
    (items : List Item)
    (keeps : ∀ state, ∀ item ∈ items, invariant state → ∃ next, step state item = .ok next ∧ invariant next)
    (state : State) (holds : invariant state) :
    ∃ final, items.foldlM step state = .ok final ∧ invariant final := by
  induction items generalizing state with
  | nil => exact ⟨state, rfl, holds⟩
  | cons item rest ih =>
      obtain ⟨next, steps, nextHolds⟩ := keeps state item (by simp) holds
      obtain ⟨final, ends, finalHolds⟩ :=
        ih (fun state item member => keeps state item (by simp [member])) next nextHolds
      exact ⟨final, by simpa only [List.foldlM_cons, steps, bind, Except.bind] using ends, finalHolds⟩

/-- Clearing a frame only needs its slots to exist. -/
theorem clearFrame_ok {memory : ShellMemory} {pos frames vars : Nat} (inside : pos + 2 < frames + vars)
    (shape : memory.frameStoreSize = frames ∧ memory.varStoreSize = vars) :
    ∃ memory', memory.clearFrame pos = .ok memory' ∧ memory'.frameStoreSize = frames ∧ memory'.varStoreSize = vars := by
  refine foldlM_ok _ (fun memory : ShellMemory => memory.frameStoreSize = frames ∧ memory.varStoreSize = vars)
    (List.range' pos 3) (fun current slot member same => ?_) memory shape
  rw [List.mem_range'_1] at member
  exact ⟨_, memFreeAt_eq (by omega), same⟩

/-- `free_PCB` clears the frames of every page, at most two slots beyond the border. -/
theorem freePcb_ok {kernel : Kernel World} {pid : Nat} {pcb : Pcb} {frames vars : Nat}
    (found : kernel.pcbs pid = some pcb)
    (bounded : ∀ i < pcb.pageTableSize, ∀ j, (pcb.pageTable i).index j < frames) (enough : 2 ≤ vars)
    (shape : kernel.memory.frameStoreSize = frames ∧ kernel.memory.varStoreSize = vars) :
    ∃ memory', freePcb kernel pid = .ok { kernel with
        memory := memory', pcbs := Function.update kernel.pcbs pid none } ∧
      memory'.frameStoreSize = frames ∧ memory'.varStoreSize = vars := by
  let Shape := fun memory : ShellMemory => memory.frameStoreSize = frames ∧ memory.varStoreSize = vars
  have page (current : ShellMemory) (i : Nat) (member : i ∈ List.range pcb.pageTableSize) (same : Shape current) :=
    foldlM_ok (fun memory j => memory.clearFrame ((pcb.pageTable i).index j)) Shape [0, 1, 2]
      (fun current j _ same => by
        have := bounded i (List.mem_range.mp member) j
        exact clearFrame_ok (by omega) same)
      current same
  obtain ⟨memory', clears, shape'⟩ := foldlM_ok _ Shape (List.range pcb.pageTableSize) page kernel.memory shape
  refine ⟨memory', ?_, shape'⟩
  simp only [freePcb, pcb_eq found, bind, Except.bind]
  rw [clears]

/-- The clean-up at the end of `run_proc_RR`. -/
theorem freePcbs_ok {kernel : Kernel World} {frames vars : Nat} (pids : List Nat) (distinct : pids.Nodup)
    (bounded : ∀ pid ∈ pids, ∃ pcb, kernel.pcbs pid = some pcb ∧
      ∀ i < pcb.pageTableSize, ∀ j, (pcb.pageTable i).index j < frames) (enough : 2 ≤ vars)
    (shape : kernel.memory.frameStoreSize = frames ∧ kernel.memory.varStoreSize = vars) :
    ∃ kernel', pids.foldlM freePcb kernel = .ok kernel' ∧ kernel'.trace = kernel.trace := by
  induction pids generalizing kernel with
  | nil => exact ⟨kernel, rfl, rfl⟩
  | cons pid rest ih =>
      obtain ⟨fresh, restDistinct⟩ := List.nodup_cons.mp distinct
      obtain ⟨pcb, found, inside⟩ := bounded pid (by simp)
      obtain ⟨memory', frees, shape'⟩ := freePcb_ok found inside enough shape
      have others : ∀ other ∈ rest, ∃ pcb, Function.update kernel.pcbs pid none other = some pcb ∧
          ∀ i < pcb.pageTableSize, ∀ j, (pcb.pageTable i).index j < frames := by
        intro other member
        obtain ⟨pcb', found', inside'⟩ := bounded other (by simp [member])
        exact ⟨pcb', by simpa [ne_of_mem_of_not_mem member fresh] using found', inside'⟩
      obtain ⟨kernel', ends, trace⟩ := @ih
        { kernel with memory := memory', pcbs := Function.update kernel.pcbs pid none } restDistinct others shape'
      exact ⟨kernel', by simpa only [List.foldlM_cons, frees, bind, Except.bind] using ends, trace⟩

/-- A run to the end with its clean-up. -/
theorem Represents.runProcRR {jobs : Jobs} {paging : Paging} {kernel : Kernel World}
    (represents : Represents jobs paging kernel) (runs : Runs jobs parseInput)
    (settled : Paging.Settled jobs.work paging) (vars : 2 ≤ jobs.varStoreSize) :
    ∃ fuel final, runProcRR parseInput fuel kernel = .ok (some final) ∧
      ∀ pid ∈ jobs.pids, handedTo pid final.trace = ((jobs.lines pid).take (jobs.count pid)).map strdup := by
  obtain ⟨fuel, last, paging', ends, lastRepresents, lastSettled, finished⟩ := represents.rrLoop runs settled
  have bounded : ∀ pid ∈ jobs.pids, ∃ pcb, last.pcbs pid = some pcb ∧
      ∀ i < pcb.pageTableSize, ∀ j, (pcb.pageTable i).index j < jobs.frameStoreSize := by
    intro pid known
    obtain ⟨pcb, found, state⟩ := lastRepresents.pcbs pid known
    refine ⟨pcb, found, fun i inside => state.bounded i (Nat.lt_of_lt_of_le inside ?_)⟩
    have := lastSettled.consistent.doneLoaded pid known
    have := finished pid known
    rw [state.tableSize, pageTableSize]
    split <;> omega
  obtain ⟨final, frees, trace⟩ := freePcbs_ok jobs.pids runs.admissible.distinct bounded vars
    ⟨lastRepresents.frameStoreSize, lastRepresents.varStoreSize⟩
  refine ⟨fuel, { final with queue := [], lruCache := [], allPcb := [] }, ?_, fun pid known => ?_⟩
  · simp only [Kernel.runProcRR, ends, bind, Except.bind, lastRepresents.allPcb, frees]
  · change handedTo pid final.trace = _
    rw [trace, lastRepresents.handed pid known, finished pid known]

theorem runs_ofScripts {scripts : List (List UInt8)} {first : Nat} {memory : ShellMemory}
    (room : initialFrames scripts ≤ memory.frameStoreSize / 3)
    (enough : ∀ file ∈ scripts, countLines file ≤ (fetched file).length)
    (other : ∀ file ∈ scripts, ∀ line ∈ fetched file, ∀ world, (parseInput (strdup line) world).ret ≠ 1) :
    Runs (Jobs.ofScripts first scripts memory) parseInput where
  admissible :=
    { distinct := List.nodup_range'
      positive := fun _ _ => Nat.le_add_left 1 _
      room := by rw [Jobs.work, ← initial_sum first scripts memory] at *; exact room }
  enough := by
    intro pid known
    obtain ⟨i, inside, rfl⟩ := Jobs.mem_pids.mp known
    simpa [Jobs.ofScripts, inside] using enough _ (List.getElem_mem inside)
  other := by
    intro pid known
    obtain ⟨i, inside, rfl⟩ := Jobs.mem_pids.mp known
    simpa [Jobs.ofScripts, inside] using other _ (List.getElem_mem inside)

/-- Scripts as the user writes them meet the conditions of the loader and of the scheduler. -/
theorem runs_scripts {scripts : List Script} (first : Nat) {memory : ShellMemory}
    (other : ∀ script ∈ scripts, ∀ line ∈ Script.withNewlines script.lines, ∀ world,
      (parseInput (strdup line) world).ret ≠ 1)
    (room : (scripts.map fun script => min 2 ((script.lines.length + 2) / 3)).sum ≤ memory.frameStoreSize / 3) :
    initialFrames (scripts.map Script.file) ≤ memory.frameStoreSize / 3 ∧
      Runs (Jobs.ofScripts first (scripts.map Script.file) memory) parseInput := by
  have frames : initialFrames (scripts.map Script.file) =
      (scripts.map fun script => min 2 ((script.lines.length + 2) / 3)).sum := by
    rw [initialFrames, List.map_map]
    congr 1
    refine List.map_congr_left fun script _ => ?_
    simp only [Function.comp_apply, Script.countLines_file, pageTableSize]
    split <;> omega
  refine ⟨frames.trans_le room, runs_ofScripts (frames.trans_le room) ?_ ?_⟩
  · intro file member
    obtain ⟨script, _, rfl⟩ := List.mem_map.mp member
    rw [Script.countLines_file, Script.file, Script.fetched_lines script.line, Script.length_withNewlines]
  · intro file member
    obtain ⟨script, inside, rfl⟩ := List.mem_map.mp member
    rw [Script.file, Script.fetched_lines script.line]
    exact other script inside

theorem runProcRR_ends (parseInput : Interpreter World) (scripts : List Script) (first : Nat) (memory : ShellMemory)
    (world : World)
    (other : ∀ script ∈ scripts, ∀ line ∈ Script.withNewlines script.lines, ∀ world,
      (parseInput (strdup line) world).ret ≠ 1)
    (empty : ∀ pos < memory.frameStoreSize, (memory.slots pos).var = noneStr)
    (room : (scripts.map fun script => min 2 ((script.lines.length + 2) / 3)).sum ≤ memory.frameStoreSize / 3)
    (vars : 2 ≤ memory.varStoreSize) :
    ∃ loaded fuel final, newProcs (scripts.map fun script => some script.file) (kernelSetup first memory world) = .ok loaded ∧
      runProcRR parseInput fuel loaded = .ok (some final) := by
  obtain ⟨fits, runs⟩ := runs_scripts first other room
  obtain ⟨loaded, loads, _, represents, _⟩ :=
    newProcs_kernelSetup (scripts.map Script.file) first memory world empty fits
  obtain ⟨fuel, final, ends, _⟩ := represents.runProcRR runs (Paging.settled_start runs.admissible) vars
  exact ⟨loaded, fuel, final, by rwa [List.map_map] at loads, ends⟩

/-- Demand paging runs every script line by line, whatever is evicted meanwhile. -/
theorem runProcRR_runs_scripts (parseInput : Interpreter World) (scripts : List Script) (first : Nat)
    (memory : ShellMemory) (world : World)
    (other : ∀ script ∈ scripts, ∀ line ∈ Script.withNewlines script.lines, ∀ world,
      (parseInput (strdup line) world).ret ≠ 1)
    (empty : ∀ pos < memory.frameStoreSize, (memory.slots pos).var = noneStr)
    (room : (scripts.map fun script => min 2 ((script.lines.length + 2) / 3)).sum ≤ memory.frameStoreSize / 3)
    (vars : 2 ≤ memory.varStoreSize) :
    ∃ loaded fuel final, newProcs (scripts.map fun script => some script.file) (kernelSetup first memory world) = .ok loaded ∧
      runProcRR parseInput fuel loaded = .ok (some final) ∧
      ∀ i (inside : i < scripts.length),
        handedTo (first + i) final.trace = (Script.withNewlines scripts[i].lines).map strdup := by
  obtain ⟨fits, runs⟩ := runs_scripts first other room
  obtain ⟨loaded, loads, silent, represents, _⟩ :=
    newProcs_kernelSetup (scripts.map Script.file) first memory world empty fits
  obtain ⟨fuel, final, ends, handed⟩ := represents.runProcRR runs (Paging.settled_start runs.admissible) vars
  refine ⟨loaded, fuel, final, by rwa [List.map_map] at loads, ends, fun i inside => ?_⟩
  have known : first + i ∈ (Jobs.ofScripts first (scripts.map Script.file) memory).pids :=
    Jobs.mem_pids.mpr ⟨i, by simpa using inside, rfl⟩
  have lines : fetched scripts[i].file = Script.withNewlines scripts[i].lines :=
    Script.fetched_lines scripts[i].line
  have whole : (Script.withNewlines scripts[i].lines).take scripts[i].lines.length =
      Script.withNewlines scripts[i].lines :=
    List.take_of_length_le (Nat.le_of_eq (Script.length_withNewlines _))
  rw [handed _ known]
  simp [Jobs.ofScripts, inside, lines, Script.countLines_file, whole]

/-- Two scripts of three pages and of two, in a memory with four frames. -/
theorem runProcRR_runs_twoScripts : ∃ loaded : Kernel Unit, ∃ fuel final,
    newProcs [some sevenLines.file, some fourLines.file] (kernelSetup 1 (ShellMemory.memInit 12 2) ()) = .ok loaded ∧
      runProcRR (fun _ world => ⟨0, [], world⟩) fuel loaded = .ok (some final) ∧
      handedTo 1 final.trace = [[97, 10], [98, 10], [99, 10], [100, 10], [101, 10], [102, 10], [103]] ∧
      handedTo 2 final.trace = [[104, 10], [105, 10], [106, 10], [107]] := by
  obtain ⟨loaded, fuel, final, loads, ends, handed⟩ :=
    runProcRR_runs_scripts (fun _ world => ⟨0, [], world⟩) [sevenLines, fourLines] 1 (ShellMemory.memInit 12 2) ()
      (fun _ _ _ _ _ => by simp) (fun _ _ => rfl) (by decide) (by decide)
  exact ⟨loaded, fuel, final, loads, ends, (handed 0 (by decide)).trans rfl, (handed 1 (by decide)).trans rfl⟩

theorem initPages_keeps {pid count : Nat} {pages : List Nat} {pcb pcb' : Pcb} {memory memory' : ShellMemory}
    (inits : Pcb.initPages pid pages pcb memory = .ok (pcb', memory')) (starved : Pcb.Starved count pcb) :
    Pcb.Starved count pcb' := by
  induction pages generalizing pcb memory with
  | nil =>
      simp only [Pcb.initPages, Except.ok.injEq, Prod.mk.injEq] at inits
      exact inits.1 ▸ starved
  | cons i rest ih =>
      rw [Pcb.initPages] at inits
      split at inits
      · simp at inits
      · simp only [bind_eq_ok] at inits
        obtain ⟨⟨pcb₁, memory₁⟩, places, later⟩ := inits
        exact ih later (starved.placePage places)

/-- A script with more lines counted than there are starts out starved. -/
theorem newProc_starves {file : List UInt8} {kernel kernel' : Kernel World}
    (short : (fetched file).length < countLines file) (loads : newProc (some file) kernel = .ok kernel') :
    kernel.pidCounter ∈ kernel'.queue ∧ Starves kernel.pidCounter (countLines file) kernel' := by
  simp only [newProc, bind_eq_ok, Except.ok.injEq, Pcb.pcbInit] at loads
  obtain ⟨⟨pcb, memory⟩, inits, rfl⟩ := loads
  have fresh : Pcb.Starved (countLines file)
      ⟨countLines file, fun _ => 0, fun _ => pageInit, pageTableSize (countLines file), file⟩ := by
    constructor
    case budget => simpa [Pcb.credit, Page.waiting, pageInit] using short
    case size => simp
    case table =>
      simp only [pageTableSize]
      split <;> omega
  exact ⟨by simp, pcb, by simp [setPcb], initPages_keeps inits fresh⟩

theorem newProc_keeps {script : Option (List UInt8)} {owner count : Nat} {kernel kernel' : Kernel World}
    (loads : newProc script kernel = .ok kernel') (older : owner < kernel.pidCounter) (queued : owner ∈ kernel.queue)
    (starves : Starves owner count kernel) :
    owner < kernel'.pidCounter ∧ owner ∈ kernel'.queue ∧ Starves owner count kernel' := by
  simp only [newProc, bind_eq_ok, Except.ok.injEq] at loads
  obtain ⟨⟨pcb, memory⟩, _, rfl⟩ := loads
  obtain ⟨mine, found, starved⟩ := starves
  refine ⟨Nat.lt_succ_of_lt older, by simp [queued], mine, ?_, starved⟩
  simpa [setPcb, Nat.ne_of_lt older] using found

theorem newProcs_keeps {scripts : List (Option (List UInt8))} {owner count : Nat} {kernel kernel' : Kernel World}
    (loads : newProcs scripts kernel = .ok kernel') (older : owner < kernel.pidCounter) (queued : owner ∈ kernel.queue)
    (starves : Starves owner count kernel) : owner ∈ kernel'.queue ∧ Starves owner count kernel' := by
  induction scripts generalizing kernel with
  | nil =>
      simp only [newProcs, Except.ok.injEq] at loads
      exact loads ▸ ⟨queued, starves⟩
  | cons script rest ih =>
      simp only [newProcs, bind_eq_ok] at loads
      obtain ⟨kernel₁, first, later⟩ := loads
      obtain ⟨older₁, queued₁, starves₁⟩ := newProc_keeps first older queued starves
      exact ih later older₁ queued₁ starves₁

theorem newProcs_starves {files : List (List UInt8)} {file : List UInt8} {kernel kernel' : Kernel World}
    (member : file ∈ files) (short : (fetched file).length < countLines file)
    (loads : newProcs (files.map some) kernel = .ok kernel') :
    ∃ owner count, owner ∈ kernel'.queue ∧ Starves owner count kernel' := by
  induction files generalizing kernel with
  | nil => simp at member
  | cons first rest ih =>
      simp only [List.map_cons, newProcs, bind_eq_ok] at loads
      obtain ⟨kernel₁, one, later⟩ := loads
      rcases List.mem_cons.mp member with rfl | inside
      · obtain ⟨queued, starves⟩ := newProc_starves short one
        have older : kernel.pidCounter < kernel₁.pidCounter := by
          simp only [newProc, bind_eq_ok, Except.ok.injEq] at one
          obtain ⟨_, _, rfl⟩ := one
          exact Nat.lt_succ_self _
        exact ⟨_, _, newProcs_keeps later older queued starves⟩
      · exact ih inside later

/-- The loop of `run_proc_RR` ends if and only if no script is empty or all of newline-terminated, non-blank lines. -/
theorem rrLoop_ends_iff (parseInput : Interpreter World) (zero : ∀ line world, (parseInput line world).ret = 0)
    (scripts : List (List UInt8)) (first : Nat) (memory : ShellMemory) (world : World)
    (empty : ∀ pos < memory.frameStoreSize, (memory.slots pos).var = noneStr)
    (room : initialFrames scripts ≤ memory.frameStoreSize / 3) :
    ∃ loaded, newProcs (scripts.map some) (kernelSetup first memory world) = .ok loaded ∧
      ((∃ fuel final, rrLoop parseInput fuel loaded = .ok (some final)) ↔
        ∀ file ∈ scripts, ¬ AllTerminated file) := by
  obtain ⟨loaded, loads, _, represents, _⟩ := newProcs_kernelSetup scripts first memory world empty room
  refine ⟨loaded, loads, ?_, ?_⟩
  · rintro ⟨fuel, final, ends⟩ file member terminated
    have short : (fetched file).length < countLines file := by
      have := (countLines_le_fetched_iff file).not_left.mpr terminated
      omega
    obtain ⟨owner, count, queued, starves⟩ := newProcs_starves member short loads
    exact rrLoop_never_ends fuel final queued starves ends
  · intro good
    have runs : Runs (Jobs.ofScripts first scripts memory) parseInput := by
      refine runs_ofScripts room (fun file member => (countLines_le_fetched_iff file).mpr (good file member)) ?_
      intro file _ line _ world
      rw [zero]
      decide
    obtain ⟨fuel, final, _, ends, _⟩ := represents.rrLoop runs (Paging.settled_start runs.admissible)
    exact ⟨fuel, final, ends⟩

theorem allTerminated_line : AllTerminated [97, 10] := ⟨[[97]], rfl, by decide⟩

/-- The loop ends for two scripts of several lines whose last ones have no newline. -/
theorem rrLoop_ends_without_newline : ∃ loaded : Kernel Unit,
    newProcs [some [97, 10, 10, 98, 10, 99, 10, 100], some [101, 10, 102]] (kernelSetup 1 (ShellMemory.memInit 9 1) ()) =
        .ok loaded ∧
      ∃ fuel final, rrLoop (fun _ world => ⟨0, [], world⟩) fuel loaded = .ok (some final) := by
  obtain ⟨loaded, loads, ends⟩ := rrLoop_ends_iff (fun _ world => ⟨0, [], world⟩) (fun _ _ => rfl)
    [[97, 10, 10, 98, 10, 99, 10, 100], [101, 10, 102]] 1 (ShellMemory.memInit 9 1) () (fun _ _ => rfl) (by decide)
  refine ⟨loaded, loads, ends.mpr fun file member => ?_⟩
  simp only [List.mem_cons, List.not_mem_nil, or_false] at member
  rcases member with rfl | rfl
  · exact not_allTerminated (by decide) (by decide)
  · exact not_allTerminated (by decide) (by decide)

/-- It never ends for the one-line script that ends in a newline. -/
theorem rrLoop_never_ends_after_newline : ∃ loaded : Kernel Unit,
    newProcs [some [97, 10]] (kernelSetup 1 (ShellMemory.memInit 3 1) ()) = .ok loaded ∧
      ∀ fuel final, rrLoop (fun _ world => ⟨0, [], world⟩) fuel loaded ≠ .ok (some final) := by
  obtain ⟨loaded, loads, _⟩ := newProcs_kernelSetup [[97, 10]] 1 (ShellMemory.memInit 3 1) () (fun _ _ => rfl)
    (by decide)
  have short : (fetched [97, 10]).length < countLines [97, 10] := by
    have := (countLines_le_fetched_iff [97, 10]).not_left.mpr allTerminated_line
    omega
  obtain ⟨owner, count, queued, starves⟩ := newProcs_starves (List.mem_singleton.mpr rfl) short loads
  exact ⟨loaded, loads, fun fuel final => rrLoop_never_ends fuel final queued starves⟩

end Kernel
end MockOS.Proc
