import MockOS.Proc.PageFaults
import MockOS.Proc.ScriptRuns

namespace MockOS.Proc

namespace Paging

variable {work other : Workload} {paging next : Paging}

/-- What the queue, the counters and the loads depend on: not the frames. -/
structure SameProgress (paging next : Paging) : Prop where
  queue : next.queue = paging.queue
  done : next.done = paging.done
  loaded : next.loaded = paging.loaded

/-- The queue, the lines run and the pages loaded after a turn. -/
def progress (count : Nat → Nat) (queue : List Nat) (done loaded : Nat → Nat) : List Nat × (Nat → Nat) × (Nat → Nat) :=
  match queue with
  | [] => (queue, done, loaded)
  | pid :: rest =>
      let load := Function.update loaded pid (loaded pid + 1)
      let run := fun lines => Function.update done pid (done pid + lines)
      if count pid ≤ done pid then (rest, done, loaded)
      else if 3 * loaded pid ≤ done pid then (rest ++ [pid], done, load)
      else if done pid + 1 = count pid then (rest, run 1, loaded)
      else if 3 * loaded pid ≤ done pid + 1 then (rest ++ [pid], run 1, load)
      else (rest ++ [pid], run 2, loaded)

/-- A turn looks at no frame. -/
theorem Turn.progress (turn : Turn work paging next) :
    (next.queue, next.done, next.loaded) = progress work.count paging.queue paging.done paging.loaded := by
  cases turn with
  | leave pid rest front ended => simp [Paging.progress, front, ended]
  | fault pid rest front left outside =>
      simp [Paging.progress, front, outside, Nat.not_le_of_lt left, Paging.fault]
  | last pid rest front left inside =>
      simp [Paging.progress, front, left, Nat.not_le_of_lt inside, Paging.execute,
        show ¬ work.count pid ≤ paging.done pid by omega]
  | second pid rest front left inside =>
      simp [Paging.progress, front, Paging.execute, show ¬ work.count pid ≤ paging.done pid by omega,
        show ¬ 3 * paging.loaded pid ≤ paging.done pid by omega, show paging.done pid + 1 ≠ work.count pid by omega,
        Nat.not_le_of_lt inside]
  | secondFault pid rest front left inside outside =>
      simp [Paging.progress, front, Paging.execute, Paging.fault, show ¬ work.count pid ≤ paging.done pid by omega,
        show ¬ 3 * paging.loaded pid ≤ paging.done pid by omega, show paging.done pid + 1 ≠ work.count pid by omega,
        outside]

theorem SameProgress.turn {paging' next' : Paging} (same : SameProgress paging paging') (count : other.count = work.count)
    (turn : Turn work paging next) (turn' : Turn other paging' next') : SameProgress next next' := by
  have here := turn.progress
  have there := turn'.progress
  rw [same.queue, same.done, same.loaded, count, ← here] at there
  simp only [Prod.mk.injEq] at there
  exact ⟨there.1, there.2.1, there.2.2⟩

end Paging

/-- The lines that were run, with their processes, in the order of the run. -/
def executed (trace : List Event) : List (Nat × CString) :=
  trace.filterMap fun event => match event with
    | .handed pid line => some (pid, line)
    | _ => none

theorem executed_append (trace later : List Event) : executed (trace ++ later) = executed trace ++ executed later :=
  List.filterMap_append

theorem executed_paging {events : List Event} (paging : ∀ event ∈ events, event.isPaging = true) : executed events = [] := by
  rw [executed, List.filterMap_eq_nil_iff]
  intro event member
  have moves := paging event member
  cases event <;> simp_all [Event.isPaging]

/-- What one process adds to the order of the run. -/
theorem executed_own {pid : Nat} {events : List Event} (own : ∀ call ∈ executed events, call.1 = pid) :
    executed events = (Kernel.handedTo pid events).map (pid, ·) := by
  induction events with
  | nil => rfl
  | cons event rest ih =>
      cases event with
      | handed owner line =>
          have same : owner = pid := own (owner, line) (by simp [executed])
          have later : ∀ call ∈ executed rest, call.1 = pid := fun call member => own call (List.mem_cons_of_mem _ member)
          have tail := ih later
          simp only [executed, Kernel.handedTo] at tail ⊢
          simp [same, tail]
      | loadPage owner page => exact ih own
      | pageEvict owner page => exact ih own

namespace Kernel

variable {World : Type} {parseInput : Interpreter World} {kernel kernel' : Kernel World} {pid i : Nat} {ret : Int}

/-- The trace grows by what one process does. -/
def GrowsBy (pid : Nat) (kernel kernel' : Kernel World) : Prop :=
  ∃ events, kernel'.trace = kernel.trace ++ events ∧ ∀ call ∈ executed events, call.1 = pid

theorem GrowsBy.refl (pid : Nat) (kernel : Kernel World) : GrowsBy pid kernel kernel := ⟨[], by simp, by simp [executed]⟩

theorem GrowsBy.trans {middle : Kernel World} (first : GrowsBy pid kernel middle) (later : GrowsBy pid middle kernel') :
    GrowsBy pid kernel kernel' := by
  obtain ⟨events, trace, own⟩ := first
  obtain ⟨more, traceMore, ownMore⟩ := later
  refine ⟨events ++ more, by rw [traceMore, trace, List.append_assoc], fun call member => ?_⟩
  rw [executed_append] at member
  exact (List.mem_append.mp member).elim (own call) (ownMore call)

theorem runLine_growsBy (runs : runLine parseInput pid kernel = .ok (ret, kernel')) : GrowsBy pid kernel kernel' := by
  simp only [runLine, runProc, bind_eq_ok] at runs
  obtain ⟨_, _, ⟨code, kernel₁⟩, cpu, runs⟩ := runs
  obtain ⟨pcb, j, _, _, _, outcome⟩ := cpuRun_cases cpu
  have first : GrowsBy pid kernel kernel₁ := by
    rcases outcome with ⟨_, _, rfl⟩ | ⟨_, line, _, _, rfl⟩
    · exact .refl pid _
    · exact ⟨[.handed pid line], rfl, by simp [executed]⟩
  split at runs
  · simp only [bind_eq_ok, Except.ok.injEq, Prod.mk.injEq] at runs
    obtain ⟨kernel₂, faults, _, rfl⟩ := runs
    obtain ⟨events, trace, moves, _⟩ := pageFault_trace faults
    refine first.trans ⟨_, trace, ?_⟩
    rw [executed_paging fun event member => by
      rcases List.mem_cons.mp member with rfl | later
      · rfl
      · exact moves event later]
    simp
  · simp only [bind_eq_ok, Except.ok.injEq, Prod.mk.injEq] at runs
    obtain ⟨kernel₂, touches, _, rfl⟩ := runs
    exact first.trans ⟨[], by rw [touch_trace touches, List.append_nil], by simp [executed]⟩

/-- In a turn only the front process runs lines. -/
theorem rrTurn_growsBy {rest : List Nat} (front : kernel.queue = pid :: rest) (turns : rrTurn parseInput kernel = .ok kernel') :
    GrowsBy pid kernel kernel' := by
  simp only [rrTurn, front, bind_eq_ok] at turns
  obtain ⟨pcb, _, turns⟩ := turns
  have popped : GrowsBy pid kernel { kernel with queue := rest } := .refl pid kernel
  split at turns
  · simp only [bind_eq_ok] at turns
    obtain ⟨⟨first, kernel₁⟩, run, turns⟩ := turns
    have one := popped.trans (runLine_growsBy run)
    split at turns
    · simp only [Except.ok.injEq] at turns
      exact turns ▸ one
    · simp only [bind_eq_ok] at turns
      obtain ⟨⟨second, kernel₂⟩, runAgain, turns⟩ := turns
      have two := one.trans (runLine_growsBy runAgain)
      split at turns
      · simp only [Except.ok.injEq] at turns
        exact turns ▸ two
      · simp only [Except.ok.injEq] at turns
        subst turns
        exact two
  · split at turns
    · simp only [bind_eq_ok, Except.ok.injEq] at turns
      obtain ⟨⟨code, kernel₁⟩, run, rfl⟩ := turns
      exact popped.trans (runLine_growsBy run)
    · simp only [Except.ok.injEq] at turns
      subst turns
      exact popped

variable {jobs jobs' : Jobs} {paging paging' : Paging}

/-- Whether the loop stops depends on the queue and the counters. -/
theorem Represents.queueDone_eq (represents : Represents jobs paging kernel) (known : ∀ pid ∈ paging.queue, pid ∈ jobs.pids) :
    kernel.queueDone = paging.queue.all fun pid => (List.range (pageTableSize (jobs.count pid))).all fun k =>
      min 3 (paging.done pid - 3 * k) == 3 := by
  rw [queueDone, represents.queue, Bool.eq_iff_iff, List.all_eq_true, List.all_eq_true]
  refine forall_congr' fun pid => forall_congr' fun queued => ?_
  obtain ⟨pcb, found, state⟩ := represents.pcbs pid (known pid queued)
  rw [found, Option.any_some, Pcb.pcbDone, state.tableSize]
  simp only [state.counters]

/-- Two kernels with memories of different sizes that have come equally far. -/
structure Abreast (jobs jobs' : Jobs) (kernel kernel' : Kernel World) : Prop where
  reached : ∃ paging paging', Represents jobs paging kernel ∧ Paging.Settled jobs.work paging ∧
    Represents jobs' paging' kernel' ∧ Paging.Settled jobs'.work paging' ∧ Paging.SameProgress paging paging'
  executed : executed kernel'.trace = executed kernel.trace

/-- Both take the same turn. -/
theorem Abreast.turn {next : Kernel World} (runs : Runs jobs parseInput) (runs' : Runs jobs' parseInput) (count : jobs'.count = jobs.count)
    (pids : jobs'.pids = jobs.pids) (lines : jobs'.lines = jobs.lines) (abreast : Abreast jobs jobs' kernel kernel')
    (running : kernel.queueDone = false) (running' : kernel'.queueDone = false)
    (turns : rrTurn parseInput kernel = .ok next) :
    ∃ next', rrTurn parseInput kernel' = .ok next' ∧ Abreast jobs jobs' next next' := by
  obtain ⟨⟨paging, paging', represents, settled, represents', settled', same⟩, before⟩ := abreast
  obtain ⟨_, nextPaging, again, turn, after, _⟩ := represents.turn runs settled running
  rw [turns, Except.ok.injEq] at again
  subst again
  obtain ⟨next', nextPaging', turns', turn', after', _⟩ := represents'.turn runs' settled' running'
  have progress := same.turn count turn turn'
  have settledNext := settled.turn runs.admissible turn
  refine ⟨next', turns', ⟨nextPaging, nextPaging', after, settledNext, after', settled'.turn runs'.admissible turn', progress⟩, ?_⟩
  cases front : kernel.queue with
  | nil => simp [queueDone, front] at running
  | cons pid rest =>
      have front' : kernel'.queue = pid :: rest := by rw [represents'.queue, same.queue, ← represents.queue, front]
      have known : pid ∈ jobs.pids := settled.consistent.readyKnown pid (by rw [← represents.queue, front]; simp)
      have known' : pid ∈ jobs'.pids := pids ▸ known
      obtain ⟨events, trace, own⟩ := rrTurn_growsBy front turns
      obtain ⟨events', trace', own'⟩ := rrTurn_growsBy front' turns'
      -- the process got the same lines before and after the turn
      have handed := after.handed pid known
      have handed' := after'.handed pid known'
      rw [trace, handedTo_append, represents.handed pid known] at handed
      rw [trace', handedTo_append, represents'.handed pid known', lines, same.done, progress.done, ← handed] at handed'
      have lines := List.append_cancel_left handed'
      rw [trace, trace', executed_append, executed_append, before, executed_own own, executed_own own', lines]

/-- The order in which the lines of the scripts are run does not depend on the size of the frame store. -/
theorem rrLoop_executed_eq (parseInput : Interpreter World) (scripts : List Script) (first : Nat)
    (memory memory' : ShellMemory) (world : World)
    (other : ∀ script ∈ scripts, ∀ line ∈ Script.withNewlines script.lines, ∀ world,
      (parseInput (strdup line) world).ret ≠ 1)
    (empty : ∀ pos < memory.frameStoreSize, (memory.slots pos).var = noneStr)
    (empty' : ∀ pos < memory'.frameStoreSize, (memory'.slots pos).var = noneStr)
    (room : (scripts.map fun script => min 2 ((script.lines.length + 2) / 3)).sum ≤ memory.frameStoreSize / 3)
    (room' : (scripts.map fun script => min 2 ((script.lines.length + 2) / 3)).sum ≤ memory'.frameStoreSize / 3) :
    ∃ loaded loaded' fuel final final',
      newProcs (scripts.map fun script => some script.file) (kernelSetup first memory world) = .ok loaded ∧
      newProcs (scripts.map fun script => some script.file) (kernelSetup first memory' world) = .ok loaded' ∧
      rrLoop parseInput fuel loaded = .ok (some final) ∧ rrLoop parseInput fuel loaded' = .ok (some final') ∧
      executed final'.trace = executed final.trace := by
  obtain ⟨fits, runs⟩ := runs_scripts first other room
  obtain ⟨fits', runs'⟩ := runs_scripts first other room'
  obtain ⟨loaded, loads, silent, represents, _⟩ :=
    newProcs_kernelSetup (scripts.map Script.file) first memory world empty fits
  obtain ⟨loaded', loads', silent', represents', _⟩ :=
    newProcs_kernelSetup (scripts.map Script.file) first memory' world empty' fits'
  have settled := Paging.settled_start runs.admissible
  have abreast : Abreast (Jobs.ofScripts first (scripts.map Script.file) memory)
      (Jobs.ofScripts first (scripts.map Script.file) memory') loaded loaded' :=
    ⟨⟨_, _, represents, settled, represents', Paging.settled_start runs'.admissible, rfl, rfl, rfl⟩, by rw [silent, silent']⟩
  obtain ⟨fuel, final, _, ends, _⟩ := represents.rrLoop runs settled
  have matched : ∀ kernel kernel' : Kernel World, Abreast (Jobs.ofScripts first (scripts.map Script.file) memory)
      (Jobs.ofScripts first (scripts.map Script.file) memory') kernel kernel' → kernel.queueDone = kernel'.queueDone := by
    rintro kernel kernel' ⟨⟨paging, paging', represents, settled, represents', settled', same⟩, _⟩
    rw [represents.queueDone_eq settled.consistent.readyKnown, represents'.queueDone_eq settled'.consistent.readyKnown,
      same.queue, same.done]
    rfl
  obtain ⟨final', ends', _, order⟩ := Lib.loop_lockstep _ matched
    (fun kernel kernel' next abreast running turns =>
      abreast.turn runs runs' rfl rfl rfl running ((matched kernel kernel' abreast).symm.trans running) turns)
    fuel loaded final loaded' abreast ends
  rw [List.map_map] at loads loads'
  exact ⟨loaded, loaded', fuel, final, final', loads, loads', ends, ends', order⟩

/-- Two scripts of five pages in all, in memories with four frames and with seven. -/
theorem rrLoop_executed_eq_twoScripts : ∃ loaded loaded' : Kernel Unit, ∃ fuel final final',
    newProcs [some sevenLines.file, some fourLines.file] (kernelSetup 1 (ShellMemory.memInit 12 2) ()) = .ok loaded ∧
      newProcs [some sevenLines.file, some fourLines.file] (kernelSetup 1 (ShellMemory.memInit 21 2) ()) = .ok loaded' ∧
      rrLoop (fun _ world => ⟨0, [], world⟩) fuel loaded = .ok (some final) ∧
      rrLoop (fun _ world => ⟨0, [], world⟩) fuel loaded' = .ok (some final') ∧
      executed final'.trace = executed final.trace :=
  rrLoop_executed_eq (fun _ world => ⟨0, [], world⟩) [sevenLines, fourLines] 1 (ShellMemory.memInit 12 2)
    (ShellMemory.memInit 21 2) () (fun _ _ _ _ _ => by simp) (fun _ _ => rfl) (fun _ _ => rfl) (by decide) (by decide)

end Kernel
end MockOS.Proc
