import MockOS.Proc.CommandChains
import MockOS.Proc.LruOrder
import MockOS.Proc.VariableStore

namespace MockOS.Proc

open ShellMemory

namespace Paging

variable {work : Workload} {paging : Paging} {pid k : Nat}

theorem Window.mem {room : Nat} {ready : List Nat}
    (window : Window work paging room ready) (queued : pid ∈ ready) (needed : Needed work paging (pid, k)) :
    (pid, k) ∈ paging.lru := by
  induction ready generalizing room with
  | nil => simp at queued
  | cons other rest ih =>
      rcases List.mem_cons.mp queued with rfl | later
      · exact List.mem_of_mem_take (window.1 k needed)
      · exact ih window.2 later

/-- A needed page is resident. -/
theorem Settled.resident (settled : Settled work paging)
    (known : pid ∈ work.pids) (needed : Needed work paging (pid, k)) : (pid, k) ∈ paging.lru := by
  have queued : pid ∈ paging.queue := by
    by_contra away
    have ended := settled.consistent.finished pid known away
    have left : paging.done pid < work.count pid := needed.1
    omega
  rcases settled.phase with early | late
  · exact early.resident pid known k needed.2.1
  · exact Window.mem late.window queued needed

end Paging

namespace Kernel

variable {World : Type} {kernel kernel' : Kernel World} {flat : Interpreter World} {pid i : Nat} {ret : Int}

/-- The trace only grows. -/
theorem runProc_trace (runs : runProc flat pid i kernel = .ok (ret, kernel')) : kernel.trace <+: kernel'.trace := by
  simp only [runProc, bind_eq_ok] at runs
  obtain ⟨⟨code, kernel₁⟩, cpu, runs⟩ := runs
  obtain ⟨pcb, j, _, _, _, outcome⟩ := cpuRun_cases cpu
  have first : kernel.trace <+: kernel₁.trace := by
    rcases outcome with ⟨_, _, rfl⟩ | ⟨_, line, _, _, rfl⟩
    · exact List.prefix_rfl
    · exact List.prefix_append _ _
  split at runs
  · simp only [bind_eq_ok, Except.ok.injEq, Prod.mk.injEq] at runs
    obtain ⟨kernel₂, faults, _, rfl⟩ := runs
    obtain ⟨events, trace, _⟩ := pageFault_trace faults
    exact first.trans (trace ▸ List.prefix_append _ _)
  · simp only [bind_eq_ok, Except.ok.injEq, Prod.mk.injEq] at runs
    obtain ⟨kernel₂, touches, _, rfl⟩ := runs
    rw [touch_trace touches]
    exact first

theorem runLine_trace (runs : runLine flat pid kernel = .ok (ret, kernel')) : kernel.trace <+: kernel'.trace := by
  simp only [runLine, bind_eq_ok] at runs
  obtain ⟨_, _, runs⟩ := runs
  exact runProc_trace runs

/-- The lines of a script that are run. -/
def counted (file : List UInt8) : List (List UInt8) := (fetched file).take (countLines file)

/-- The page was loaded when its process was, or by a page fault since then. -/
def WasLoaded (start kernel : Kernel World) (ref : PageRef) : Prop :=
  ref ∈ firstLoads start ∨ .loadPage ref.1 ref.2 ∈ kernel.trace

/-- What a process still needs is there: it is held, the pages that were loaded and have lines left are cached, and it waits
in the queue until its lines have run. -/
structure Spared (start : Kernel World) (file : List UInt8) (pid : Nat) (kernel : Kernel World) (pcb : Pcb) (done : Nat) :
    Prop where
  held : kernel.pcbs pid = some pcb
  listed : pid ∈ kernel.allPcb
  most : done ≤ countLines file
  size : pcb.size = (countLines file : Int) - done
  handed : handedTo pid kernel.trace = ((fetched file).take done).map strdup
  cached : ∀ line, done ≤ line → line < countLines file → WasLoaded start kernel (pid, line / 3) →
    (pid, line / 3) ∈ kernel.lruCache
  valid : ∀ k (j : Fin 3), (pcb.pageTable k).validBit j = true → done ≤ 3 * k + j.val → 3 * k + j.val < countLines file →
    (pid, k) ∈ kernel.lruCache
  queued : done < countLines file → pid ∈ kernel.queue
  ended : kernel.queueDone = true → done = countLines file

/-- The pages that were loaded are those that the paging model counts. -/
def LoadsKnown (start : Kernel World) (paging : Paging) (kernel : Kernel World) : Prop :=
  ∀ ref : PageRef, WasLoaded start kernel ref → ref.2 < paging.loaded ref.1

theorem LoadsKnown.start {jobs : Jobs} (represents : Represents jobs (Paging.start jobs.work jobs.pids) kernel)
    (consistent : Paging.Consistent jobs.work jobs.pids (Paging.start jobs.work jobs.pids)) (silent : kernel.trace = []) :
    LoadsKnown kernel (Paging.start jobs.work jobs.pids) kernel := by
  rintro ref (first | later)
  · rw [represents.firstLoads_eq, represents.lru] at first
    exact (consistent.lruKnown ref first).2
  · rw [silent] at later
    cases later

theorem LoadsKnown.turn {jobs : Jobs} {paging : Paging} {start : Kernel World} (represents : Represents jobs paging kernel)
    (runs : Runs jobs flat) (settled : Paging.Settled jobs.work paging) (running : kernel.queueDone = false)
    (known : LoadsKnown start paging kernel) : ∃ kernel' paging', rrTurn flat kernel = .ok kernel' ∧
      Paging.Turn jobs.work paging paging' ∧ Represents jobs paging' kernel' ∧ LoadsKnown start paging' kernel' := by
  refine represents.turn_induction (LoadsKnown start) (LoadsKnown start) runs settled running (fun _ => known) ?_ ?_
    fun _ _ kept => kept
  · intro pid rest steps paging middle next before turning left inside ran after kept ref was
    obtain ⟨line, trace, _⟩ := runLine_handed ran
    refine kept ref (was.imp_right fun later => ?_)
    rw [trace, List.mem_append, List.mem_singleton] at later
    exact later.resolve_right Event.noConfusion
  · intro pid rest steps paging middle next before turning left outside ran kept ref was
    obtain ⟨pcb, found, state⟩ := before.pcbs pid (turning.consistent.readyKnown pid (by simp))
    have page : pcb.firstPage = paging.loaded pid := by
      have := turning.consistent.doneLoaded pid (turning.consistent.readyKnown pid (by simp))
      rw [state.firstPage left]
      omega
    have faults := runLine_faulted ran found fun j => state.fresh _ (by rw [page]) j
    have here : paging.loaded pid < (paging.fault jobs.work pid).loaded pid := by
      simp only [Paging.fault, Function.update_self]
      omega
    have grows : ∀ owner, paging.loaded owner ≤ (paging.fault jobs.work pid).loaded owner := by
      intro owner
      by_cases same : owner = pid
      · subst same
        exact Nat.le_of_lt here
      · simp only [Paging.fault, Function.update_of_ne same, Nat.le_refl]
    -- the events of a fault load only the page behind those that were loaded
    have loadedNow : WasLoaded start middle ref ∨ ref = (pid, pcb.firstPage) := by
      rcases was with first | later
      · exact .inl (.inl first)
      · obtain ⟨_, ⟨trace, _⟩ | ⟨victim, _, trace, _⟩⟩ := pageFault_cases faults <;>
          simp only [trace, List.mem_append, List.mem_singleton, Event.loadPage.injEq, reduceCtorEq, or_false] at later
        · exact later.imp .inr fun both => Prod.ext both.1 both.2
        · rcases later with (before | both) | both
          · exact .inl (.inr before)
          · exact .inr (Prod.ext both.1 both.2)
          · exact .inr (Prod.ext both.1 both.2)
    rcases loadedNow with before | rfl
    · exact Nat.lt_of_lt_of_le (kept ref before) (grows _)
    · rw [page]
      exact here

theorem Represents.spared {jobs : Jobs} {paging : Paging} {file : List UInt8} {start : Kernel World}
    (represents : Represents jobs paging kernel) (settled : Paging.Settled jobs.work paging)
    (loads : LoadsKnown start paging kernel) (known : pid ∈ jobs.pids) (lines : jobs.lines pid = fetched file)
    (count : jobs.count pid = countLines file) : ∃ pcb, Spared start file pid kernel pcb (paging.done pid) := by
  obtain ⟨pcb, held, state⟩ := represents.pcbs pid known
  have most := settled.consistent.doneCount pid known
  have waits : paging.done pid < countLines file → pid ∈ kernel.queue := by
    intro left
    by_contra away
    rw [represents.queue] at away
    have ended : paging.done pid = jobs.count pid := settled.consistent.finished pid known away
    omega
  have resident : ∀ k, k < paging.loaded pid → paging.done pid < countLines file → paging.done pid ≤ 3 * k + 2 →
      (pid, k) ∈ kernel.lruCache := by
    intro k loaded left low
    rw [represents.lru]
    refine settled.resident known ⟨?_, loaded, ?_⟩
    · change paging.done pid < jobs.count pid
      omega
    · simp only
      omega
  refine ⟨pcb, held, by rw [represents.allPcb]; exact known, count ▸ most, by rw [state.size, count],
    by rw [represents.handed pid known, lines], fun line low high was => ?_, fun k j isValid low high => ?_, waits,
    fun ended => ?_⟩
  · exact resident _ (loads _ was) (by omega) (by omega)
  · refine resident k ?_ (by omega) (by omega)
    by_contra later
    simp [state.fresh k (Nat.le_of_not_lt later) j] at isValid
  · by_contra left
    have less : paging.done pid < countLines file := by
      have : paging.done pid ≤ jobs.count pid := most
      omega
    have finished := List.all_eq_true.mp ended pid (waits less)
    rw [held, Option.any_some] at finished
    have := state.count_le_of_done finished
    omega

end Kernel

namespace Shell

variable {World : Type} {shell : Shell World} {kernel kernel' : Kernel World} {host : Host World} {parse : Parser World}
  {flat : Interpreter World} {pid i : Nat} {ret : Int}

/-- The effect of the lines that run no script and return 0. -/
def single (files : FileCommands World) : Interpreter World :=
  fun line world => ((Proc.parseInput files line world).filter fun result => result.ret = 0).getD ⟨0, [], world⟩

theorem single_ret (files : FileCommands World) (line : CString) (world : World) : (single files line world).ret = 0 := by
  unfold single
  cases kept : (Proc.parseInput files line world).filter fun result => result.ret = 0 with
  | none => rfl
  | some result => simpa using (Option.filter_eq_some_iff.mp kept).2

/-- A line that does for the shell what it does for a kernel without nested runs. -/
def Agrees (flat : Interpreter World) (parse : Parser World) (line : CString) : Prop :=
  ∀ shell, ∃ shell', parse line shell = .ok ((flat line shell.kernel.world).ret, shell') ∧
    shell'.kernel = after (flat line shell.kernel.world) shell.kernel

theorem parseInput_agrees (fuel depth : Nat) {line : CString} (unnested : ∀ token ∈ tokens line, scriptsOf (words token) = none)
    (rounds : (tokens line).length ≤ fuel)
    (zero : ∀ world, ∃ result, Proc.parseInput host.files line world = some result ∧ result.ret = 0) :
    Agrees (single host.files) (parseInput host fuel (depth + 1)) line := by
  intro shell
  obtain ⟨result, does, ret⟩ := zero shell.kernel.world
  have whole : single host.files line shell.kernel.world = result := by
    rw [single, does, Option.filter_some_pos (by simpa using ret)]
    rfl
  rw [whole]
  exact parseInput_flat fuel depth unnested rounds does

@[simp] theorem withKernel_kernel (kernel : Kernel World) : (shell.withKernel kernel).kernel = kernel := rfl

/-- Every line handed to the process does for the shell what it does for the kernel. -/
def AllAgree (flat : Interpreter World) (parse : Parser World) (pid : Nat) (kernel : Kernel World) : Prop :=
  ∀ line ∈ Kernel.handedTo pid kernel.trace, Agrees flat parse line

theorem AllAgree.before (agree : AllAgree flat parse pid kernel') (grows : kernel.trace <+: kernel'.trace) :
    AllAgree flat parse pid kernel :=
  fun line member => agree line ((grows.filterMap _).subset member)

theorem cpuRun_agrees (agree : AllAgree flat parse pid kernel')
    (runs : Kernel.cpuRun flat pid i shell.kernel = .ok (ret, kernel')) :
    ∃ shell', cpuRun parse pid i shell = .ok (ret, shell') ∧ shell'.kernel = kernel' := by
  simp only [Kernel.cpuRun, bind_eq_ok] at runs
  obtain ⟨pcb, found, page, inTable, runs⟩ := runs
  simp only [cpuRun, bind, Except.bind, course_eq_ok.mpr found, course_eq_ok.mpr inTable]
  split at runs
  · next inside =>
      rw [dif_pos inside]
      split at runs
      · next invalid =>
          simp only [Except.ok.injEq, Prod.mk.injEq] at runs
          obtain ⟨rfl, rfl⟩ := runs
          rw [if_pos invalid]
          exact ⟨shell, rfl, rfl⟩
      · next valid =>
          simp only [bind_eq_ok, Except.ok.injEq, Prod.mk.injEq] at runs
          obtain ⟨line, value, rfl, rfl⟩ := runs
          have handed : line ∈ Kernel.handedTo pid
              ((shell.kernel.interpret flat pid line).setPcb pid (pcb.advance i)).trace := by
            simp [Kernel.handedTo, Kernel.setPcb, Kernel.interpret, Kernel.log]
          obtain ⟨shell', parsed, result⟩ := agree line handed (shell.withKernel (shell.kernel.log (.handed pid line)))
          have held : shell'.kernel.pcb pid = .ok pcb := by
            rw [result]
            exact found
          rw [if_neg valid]
          simp only [course_eq_ok.mpr value, parsed, course_eq_ok.mpr held]
          refine ⟨_, rfl, ?_⟩
          simp only [withKernel, result]
          rfl
  · simp at runs

theorem runLine_agrees (shell : Shell World) (agree : AllAgree flat parse pid kernel')
    (runs : Kernel.runLine flat pid shell.kernel = .ok (ret, kernel')) :
    ∃ shell', runLine parse pid shell = .ok (ret, shell') ∧ shell'.kernel = kernel' := by
  simp only [Kernel.runLine, Kernel.runProc, bind_eq_ok] at runs
  obtain ⟨pcb, found, ⟨code, kernel₁⟩, cpu, runs⟩ := runs
  simp only [runLine, runProc, bind, Except.bind, course_eq_ok.mpr found]
  split at runs
  · next faulted =>
      simp only [bind_eq_ok, Except.ok.injEq, Prod.mk.injEq] at runs
      obtain ⟨kernel₂, faults, rfl, rfl⟩ := runs
      obtain ⟨events, trace, _⟩ := Kernel.pageFault_trace faults
      obtain ⟨shell₁, ran, rfl⟩ := cpuRun_agrees (agree.before (trace ▸ List.prefix_append _ _)) cpu
      simp only [ran, if_pos faulted, course_eq_ok.mpr faults]
      exact ⟨_, rfl, rfl⟩
  · next executed =>
      simp only [bind_eq_ok, Except.ok.injEq, Prod.mk.injEq] at runs
      obtain ⟨kernel₂, touches, rfl, rfl⟩ := runs
      obtain ⟨shell₁, ran, rfl⟩ := cpuRun_agrees (agree.before (Kernel.touch_trace touches ▸ List.prefix_rfl)) cpu
      simp only [ran, if_neg executed, course_eq_ok.mpr touches]
      exact ⟨_, rfl, rfl⟩

/-- A turn whose lines run no script is a turn of the kernel without nested runs. -/
theorem rrTurn_agrees {rest : List Nat} (front : shell.kernel.queue = pid :: rest) (agree : AllAgree flat parse pid kernel')
    (turns : Kernel.rrTurn flat shell.kernel = .ok kernel') :
    ∃ shell', rrTurn parse shell = .ok shell' ∧ shell'.kernel = kernel' := by
  simp only [Kernel.rrTurn, front, bind_eq_ok] at turns
  obtain ⟨pcb, found, turns⟩ := turns
  simp only [rrTurn, front, bind, Except.bind, withKernel_kernel, course_eq_ok.mpr found]
  split at turns
  · next many =>
      rw [if_pos many]
      simp only [bind_eq_ok] at turns
      obtain ⟨⟨first, kernel₁⟩, run, turns⟩ := turns
      split at turns
      · next faulted =>
          simp only [Except.ok.injEq] at turns
          subst turns
          obtain ⟨shell₁, ran, rfl⟩ := runLine_agrees (shell.withKernel { shell.kernel with queue := rest }) agree run
          simp only [ran, if_pos faulted]
          exact ⟨shell₁, rfl, rfl⟩
      · next executed =>
          simp only [bind_eq_ok] at turns
          obtain ⟨⟨second, kernel₂⟩, runAgain, turns⟩ := turns
          have grows := Kernel.runLine_trace runAgain
          split at turns
          · next faulted =>
              simp only [Except.ok.injEq] at turns
              subst turns
              obtain ⟨shell₁, ran, rfl⟩ := runLine_agrees (shell.withKernel { shell.kernel with queue := rest }) (agree.before grows) run
              obtain ⟨shell₂, ranAgain, rfl⟩ := runLine_agrees shell₁ agree runAgain
              simp only [ran, if_neg executed, ranAgain, if_pos faulted]
              exact ⟨shell₂, rfl, rfl⟩
          · next executedAgain =>
              simp only [Except.ok.injEq] at turns
              subst turns
              have agree₂ : AllAgree flat parse pid kernel₂ := agree
              obtain ⟨shell₁, ran, rfl⟩ := runLine_agrees (shell.withKernel { shell.kernel with queue := rest }) (agree₂.before grows) run
              obtain ⟨shell₂, ranAgain, rfl⟩ := runLine_agrees shell₁ agree₂ runAgain
              simp only [ran, if_neg executed, ranAgain, if_neg executedAgain]
              exact ⟨_, rfl, rfl⟩
  · next few =>
      rw [if_neg few]
      split at turns
      · next one =>
          simp only [bind_eq_ok, Except.ok.injEq] at turns
          obtain ⟨⟨code, kernel₁⟩, run, rfl⟩ := turns
          obtain ⟨shell₁, ran, rfl⟩ := runLine_agrees (shell.withKernel { shell.kernel with queue := rest }) agree run
          simp only [if_pos one, ran]
          exact ⟨shell₁, rfl, rfl⟩
      · next none =>
          simp only [Except.ok.injEq] at turns
          subst turns
          rw [if_neg none]
          exact ⟨_, rfl, rfl⟩

/-- One turn of the loop of `run_proc_RR`. -/
def Turns (parse : Parser World) (shell next : Shell World) : Prop :=
  shell.queueDone = false ∧ rrTurn parse shell = .ok next

/-- Where the lines run no script, a turn of the shell is one of the paging model. -/
theorem turn_represents {jobs : Jobs} {paging : Paging} {start : Kernel World} (runs : Kernel.Runs jobs flat)
    (agrees : ∀ pid ∈ jobs.pids, ∀ text ∈ (jobs.lines pid).take (jobs.work.count pid), Agrees flat parse (strdup text))
    (represents : Kernel.Represents jobs paging shell.kernel) (settled : Paging.Settled jobs.work paging)
    (known : Kernel.LoadsKnown start paging shell.kernel) (running : shell.queueDone = false) :
    ∃ next paging', rrTurn parse shell = .ok next ∧ Kernel.Represents jobs paging' next.kernel ∧
      Paging.Settled jobs.work paging' ∧ Kernel.LoadsKnown start paging' next.kernel := by
  obtain ⟨kernel', paging', turns, turn, represents', known'⟩ := known.turn represents runs settled running
  cases front : shell.kernel.queue with
  | nil => simp [queueDone, Kernel.queueDone, front] at running
  | cons pid rest =>
      have member : pid ∈ jobs.pids := by
        refine settled.consistent.readyKnown pid ?_
        rw [← represents.queue, front]
        simp
      have settled' := settled.turn runs.admissible turn
      have agree : AllAgree flat parse pid kernel' := by
        intro line handed
        rw [represents'.handed pid member] at handed
        obtain ⟨text, taken, rfl⟩ := List.mem_map.mp handed
        exact agrees pid member text ((List.take_sublist_take_left (settled'.consistent.doneCount _ member)).mem taken)
      obtain ⟨next, steps, same⟩ := rrTurn_agrees front agree turns
      exact ⟨next, paging', steps, same ▸ represents', settled', same ▸ known'⟩

/-- A run whose lines start no other run spares its processes: each runs its lines in order, keeps what it still needs,
and can always go on. -/
theorem turns_spare (host : Host World) (fuel depth : Nat) (scripts : List (List UInt8)) (first : Nat)
    (memory : ShellMemory) (world : World)
    (unnested : ∀ file ∈ scripts, ∀ line ∈ Kernel.counted file, ∀ token ∈ tokens (strdup line), scriptsOf (words token) = none)
    (zero : ∀ file ∈ scripts, ∀ line ∈ Kernel.counted file, (∀ token ∈ tokens (strdup line), scriptsOf (words token) = none) →
      ∀ world, ∃ result, Proc.parseInput host.files (strdup line) world = some result ∧ result.ret = 0)
    (text : ∀ file ∈ scripts, file ≠ [] ∧ file.getLast? ≠ some 10)
    (rounds : ∀ file ∈ scripts, ∀ line ∈ Kernel.counted file, (tokens (strdup line)).length ≤ fuel)
    (empty : ∀ pos < memory.frameStoreSize, (memory.slots pos).var = noneStr)
    (start shell : Shell World)
    (loads : Kernel.newProcs (scripts.map some) (Kernel.kernelSetup first memory world) = .ok start.kernel)
    (reached : Relation.ReflTransGen (Turns (parseInput host fuel (depth + 1))) start shell) :
    (∀ i (inside : i < scripts.length), ∃ pcb done,
      Kernel.Spared start.kernel scripts[i] (first + i) shell.kernel pcb done) ∧
      (shell.queueDone = false → ∃ next, rrTurn (parseInput host fuel (depth + 1)) shell = .ok next) := by
  have agrees : ∀ pid ∈ (Jobs.ofScripts first scripts memory).pids,
      ∀ text ∈ ((Jobs.ofScripts first scripts memory).lines pid).take ((Jobs.ofScripts first scripts memory).work.count pid),
        Agrees (single host.files) (parseInput host fuel (depth + 1)) (strdup text) := by
    intro pid member text taken
    obtain ⟨i, inside, rfl⟩ := Jobs.mem_pids.mp member
    have line : text ∈ Kernel.counted scripts[i] := by
      simpa [Kernel.counted, Jobs.ofScripts, Jobs.work, inside] using taken
    have flat := unnested _ (List.getElem_mem inside) text line
    exact parseInput_agrees fuel depth flat (rounds _ (List.getElem_mem inside) text line)
      (zero _ (List.getElem_mem inside) text line flat)
  have room := Kernel.newProcs_fits empty loads
  have runs : Kernel.Runs (Jobs.ofScripts first scripts memory) (single host.files) := by
    refine Kernel.runs_ofScripts room (fun file member => ?_) fun file member line inside world => ?_
    · exact (countLines_le_fetched_iff file).mpr (not_allTerminated (text file member).1 (text file member).2)
    · rw [single_ret]
      decide
  obtain ⟨loaded, loads', silent, represents, _⟩ := Kernel.newProcs_kernelSetup scripts first memory world empty room
  rw [loads, Except.ok.injEq] at loads'
  subst loads'
  have settled := Paging.settled_start runs.admissible
  obtain ⟨paging, represents, settled, known⟩ : ∃ paging,
      Kernel.Represents (Jobs.ofScripts first scripts memory) paging shell.kernel ∧
      Paging.Settled (Jobs.ofScripts first scripts memory).work paging ∧
      Kernel.LoadsKnown start.kernel paging shell.kernel := by
    induction reached with
    | refl => exact ⟨_, represents, settled, .start represents settled.consistent silent⟩
    | tail _ turn ih =>
        obtain ⟨paging, represents, settled, known⟩ := ih
        obtain ⟨next, paging', steps, represents', settled', known'⟩ :=
          turn_represents runs agrees represents settled known turn.1
        rw [turn.2, Except.ok.injEq] at steps
        subst steps
        exact ⟨paging', represents', settled', known'⟩
  refine ⟨fun i inside => ?_, fun running => ?_⟩
  · have lines : (Jobs.ofScripts first scripts memory).lines (first + i) = fetched scripts[i] := by simp [Jobs.ofScripts, inside]
    have count : (Jobs.ofScripts first scripts memory).count (first + i) = countLines scripts[i] := by simp [Jobs.ofScripts, inside]
    obtain ⟨pcb, spared⟩ := represents.spared settled known (Jobs.mem_pids.mpr ⟨i, inside, rfl⟩) lines count
    exact ⟨pcb, _, spared⟩
  · obtain ⟨next, _, steps, _⟩ := turn_represents runs agrees represents settled known running
    exact ⟨next, steps⟩

theorem counted_file (script : Script) : Kernel.counted script.file = Script.withNewlines script.lines := by
  rw [Kernel.counted, Script.countLines_file, Script.file, Script.fetched_lines script.line,
    List.take_of_length_le (Nat.le_of_eq (Script.length_withNewlines _))]

theorem echoes_ne_nil : [command ['e', 'c', 'h', 'o', ' ', 'a'], command ['e', 'c', 'h', 'o', ' ', 'b'],
    command ['e', 'c', 'h', 'o', ' ', 'c']] ≠ [] := List.cons_ne_nil _ _

theorem line_echoes : ∀ line ∈ [command ['e', 'c', 'h', 'o', ' ', 'a'], command ['e', 'c', 'h', 'o', ' ', 'b'],
    command ['e', 'c', 'h', 'o', ' ', 'c']], line ≠ [] ∧ 10 ∉ line ∧ line.length < 998 := by decide

theorem echo_ne_nil : [command ['e', 'c', 'h', 'o', ' ', 'd']] ≠ [] := List.cons_ne_nil _ _

theorem line_echo : ∀ line ∈ [command ['e', 'c', 'h', 'o', ' ', 'd']], line ≠ [] ∧ 10 ∉ line ∧ line.length < 998 := by decide

/-- The lines `echo a`, `echo b` and `echo c`. -/
def threeEchoes : Script := ⟨_, echoes_ne_nil, line_echoes⟩

/-- The line `echo d`. -/
def oneEcho : Script := ⟨_, echo_ne_nil, line_echo⟩

theorem echo_lines {file line : List UInt8} (member : file ∈ [threeEchoes.file, oneEcho.file])
    (inside : line ∈ Kernel.counted file) : line ∈ [command ['e', 'c', 'h', 'o', ' ', 'a', '\n'],
      command ['e', 'c', 'h', 'o', ' ', 'b', '\n'], command ['e', 'c', 'h', 'o', ' ', 'c'], command ['e', 'c', 'h', 'o', ' ', 'd']] := by
  simp only [List.mem_cons, List.not_mem_nil, or_false] at member
  rcases member with rfl | rfl
  · rw [counted_file] at inside
    exact (by decide : ∀ line ∈ Script.withNewlines threeEchoes.lines, line ∈ [command ['e', 'c', 'h', 'o', ' ', 'a', '\n'],
      command ['e', 'c', 'h', 'o', ' ', 'b', '\n'], command ['e', 'c', 'h', 'o', ' ', 'c'],
      command ['e', 'c', 'h', 'o', ' ', 'd']]) line inside
  · rw [counted_file] at inside
    exact (by decide : ∀ line ∈ Script.withNewlines oneEcho.lines, line ∈ [command ['e', 'c', 'h', 'o', ' ', 'a', '\n'],
      command ['e', 'c', 'h', 'o', ' ', 'b', '\n'], command ['e', 'c', 'h', 'o', ' ', 'c'],
      command ['e', 'c', 'h', 'o', ' ', 'd']]) line inside

/-- A script of three lines and one of a single line take three turns, and both are spared to the end. -/
theorem turns_spare_echo : ∃ start first second last : Shell Unit,
    Kernel.newProcs [some threeEchoes.file, some oneEcho.file] (Kernel.kernelSetup 1 (ShellMemory.memInit 6 2) ()) =
        .ok start.kernel ∧
      Turns (parseInput oneScript 1 1) start first ∧ Turns (parseInput oneScript 1 1) first second ∧
      Turns (parseInput oneScript 1 1) second last ∧
      (∃ pcb done, Kernel.Spared start.kernel threeEchoes.file 1 last.kernel pcb done) ∧
      ∃ pcb done, Kernel.Spared start.kernel oneEcho.file 2 last.kernel pcb done := by
  have waits : (Kernel.newProcs [some threeEchoes.file, some oneEcho.file]
      (Kernel.kernelSetup 1 (ShellMemory.memInit 6 2) ())).toOption.bind (fun kernel =>
        (rrTurn (parseInput oneScript 1 1) ⟨kernel, ⟨0, []⟩, 1, []⟩).toOption.bind fun first =>
          (rrTurn (parseInput oneScript 1 1) first).toOption.map fun second =>
            (kernel.queueDone, first.queueDone, second.queueDone)) = some (false, false, false) := by decide +kernel
  obtain ⟨kernel, loads, waits⟩ := Option.bind_eq_some_iff.mp waits
  obtain ⟨first, ranFirst, waits⟩ := Option.bind_eq_some_iff.mp waits
  obtain ⟨second, ranSecond, waits⟩ := Option.map_eq_some_iff.mp waits
  rw [Prod.mk.injEq, Prod.mk.injEq] at waits
  obtain ⟨running, runningFirst, runningSecond⟩ := waits
  have loads := ok_of_toOption loads
  have spare := fun shell => turns_spare oneScript 1 0 [threeEchoes.file, oneEcho.file] 1 (ShellMemory.memInit 6 2) ()
    (fun file member line inside => by
      have known := echo_lines member inside
      clear inside
      revert line
      decide)
    (fun file member line inside _ world => by
      have known := echo_lines member inside
      simp only [List.mem_cons, List.not_mem_nil, or_false] at known
      rcases known with rfl | rfl | rfl | rfl <;> exact ⟨⟨0, [], ()⟩, rfl, rfl⟩)
    (by decide)
    (fun file member line inside => by
      have known := echo_lines member inside
      clear inside
      revert line
      decide)
    (fun _ _ => rfl) ⟨kernel, ⟨0, []⟩, 1, []⟩ shell loads
  have turnFirst : Turns (parseInput oneScript 1 1) ⟨kernel, ⟨0, []⟩, 1, []⟩ first := ⟨running, ok_of_toOption ranFirst⟩
  have turnSecond : Turns (parseInput oneScript 1 1) first second := ⟨runningFirst, ok_of_toOption ranSecond⟩
  have reached := (Relation.ReflTransGen.single turnFirst).tail turnSecond
  obtain ⟨last, ranLast⟩ := (spare second reached).2 runningSecond
  have turnLast : Turns (parseInput oneScript 1 1) second last := ⟨runningSecond, ranLast⟩
  have spared := (spare last (reached.tail turnLast)).1
  exact ⟨_, first, second, last, loads, turnFirst, turnSecond, turnLast, spared 0 (by simp), spared 1 (by simp)⟩

/-- The script with the lines `run g` and `echo b`. -/
def nestedScript : List UInt8 := command ['r', 'u', 'n', ' ', 'g'] ++ 10 :: command ['e', 'c', 'h', 'o', ' ', 'b']

/-- After `run g` the process is used although it was freed, and its line `echo b` never runs. -/
theorem rrTurn_uses_freed_process : ¬ ∀ start shell : Shell Unit,
    Kernel.newProcs [some nestedScript] (Kernel.kernelSetup 1 (ShellMemory.memInit 6 2) ()) = .ok start.kernel →
    Relation.ReflTransGen (Turns (parseInput oneScript 4 3)) start shell → shell.queueDone = false →
    rrTurn (parseInput oneScript 4 3) shell ≠ .error (.fault .undefined) := by
  intro claim
  have fails : (Kernel.newProcs [some nestedScript] (Kernel.kernelSetup 1 (ShellMemory.memInit 6 2) ())).toOption.map
      (fun kernel => (kernel.queueDone, match rrTurn (parseInput oneScript 4 3) ⟨kernel, ⟨0, []⟩, 1, []⟩ with
        | .error (.fault .undefined) => true
        | _ => false)) = some (false, true) := by decide +kernel
  cases loads : Kernel.newProcs [some nestedScript] (Kernel.kernelSetup 1 (ShellMemory.memInit 6 2) ()) with
  | error fault =>
      rw [loads] at fails
      cases fails
  | ok kernel =>
      rw [loads] at fails
      simp only [Except.toOption, Option.map_some, Option.some.injEq, Prod.mk.injEq] at fails
      obtain ⟨waits, freed⟩ := fails
      refine claim ⟨kernel, ⟨0, []⟩, 1, []⟩ _ loads .refl waits ?_
      split at freed
      · next turn => exact turn
      · cases freed

end Shell
end MockOS.Proc
