import MockOS.Proc.CommandChains

namespace MockOS.Proc

namespace Kernel

variable {World : Type} {kernel kernel' : Kernel World} {pid i : Nat} {failed : Int}

/-- Every process that is held is in `ALL_PCB`. -/
def Listed (kernel : Kernel World) : Prop := ∀ pid, (kernel.pcbs pid).isSome → pid ∈ kernel.allPcb

theorem Listed.of_held (listed : kernel.Listed) (held : ∀ other, (kernel'.pcbs other).isSome → (kernel.pcbs other).isSome)
    (all : kernel'.allPcb = kernel.allPcb) : kernel'.Listed :=
  fun other holds => all ▸ listed other (held other holds)

theorem isSome_of_counters (same : kernel'.counters = kernel.counters) (other : Nat) :
    (kernel'.pcbs other).isSome → (kernel.pcbs other).isSome := by
  have here := congrArg Option.isSome (congrFun same other)
  simp only [counters, Option.isSome_map] at here
  rw [here]
  exact id

theorem loadPage_allPcb (loads : loadPage pid i kernel = .ok (failed, kernel')) : kernel'.allPcb = kernel.allPcb := by
  simp only [loadPage, bind_eq_ok] at loads
  obtain ⟨pcb, _, page, _, loads⟩ := loads
  split at loads
  · simp only [Except.ok.injEq, Prod.mk.injEq] at loads
    obtain ⟨_, rfl⟩ := loads
    rfl
  · simp only [bind_eq_ok, Except.ok.injEq, Prod.mk.injEq] at loads
    obtain ⟨_, _, _, rfl⟩ := loads
    rfl

theorem evictVictim_allPcb (evicts : evictVictim kernel = .ok kernel') : kernel'.allPcb = kernel.allPcb := by
  unfold evictVictim at evicts
  split at evicts
  · simp at evicts
  · split at evicts
    · simp only [pageEvict, bind_eq_ok, Except.ok.injEq] at evicts
      obtain ⟨_, _, _, _, _, _, _, _, _, _, rfl⟩ := evicts
      rfl
    · simp at evicts

theorem pageFault_listed (listed : kernel.Listed) (faults : pageFault pid i kernel = .ok kernel') : kernel'.Listed := by
  refine listed.of_held (isSome_of_counters (pageFault_counters faults).1) ?_
  simp only [pageFault, bind_eq_ok] at faults
  obtain ⟨⟨failed, kernel₁⟩, loads, faults⟩ := faults
  have all₁ := loadPage_allPcb loads
  split at faults
  · simp only [bind_eq_ok, Except.ok.injEq, exists_eq_left'] at faults
    obtain ⟨kernel₃, evicts, ⟨_, kernel₄⟩, loadsAgain, rfl⟩ := faults
    exact (loadPage_allPcb loadsAgain).trans ((evictVictim_allPcb evicts).trans all₁)
  · simp only [bind_eq_ok, Except.ok.injEq, exists_eq_left'] at faults
    subst faults
    exact all₁

theorem touch_listed {ref : PageRef} (listed : kernel.Listed) (touches : touch ref kernel = .ok kernel') : kernel'.Listed := by
  unfold touch at touches
  simp only at touches
  split at touches
  · simp at touches
  · simp only [Except.ok.injEq] at touches
    subst touches
    exact listed

theorem newProc_listed {script : Option (List UInt8)} (listed : kernel.Listed) (loads : newProc script kernel = .ok kernel') :
    kernel'.Listed := by
  simp only [newProc, bind_eq_ok, Except.ok.injEq] at loads
  obtain ⟨⟨pcb, memory⟩, _, rfl⟩ := loads
  intro other held
  by_cases same : other = kernel.pidCounter
  · simp [same]
  · exact List.mem_append_left _ (listed other (by simpa [setPcb, same] using held))

theorem newProcs_listed {scripts : List (Option (List UInt8))} (listed : kernel.Listed)
    (loads : newProcs scripts kernel = .ok kernel') : kernel'.Listed := by
  induction scripts generalizing kernel with
  | nil =>
      simp only [newProcs, Except.ok.injEq] at loads
      exact loads ▸ listed
  | cons script rest ih =>
      simp only [newProcs, bind_eq_ok] at loads
      obtain ⟨kernel₁, first, later⟩ := loads
      exact ih (newProc_listed listed first) later

/-- The clean-up leaves none of the processes that it frees. -/
theorem freePcbs_held {pids : List Nat} (frees : pids.foldlM freePcb kernel = .ok kernel') (other : Nat)
    (held : (kernel'.pcbs other).isSome) : other ∉ pids ∧ (kernel.pcbs other).isSome := by
  induction pids generalizing kernel with
  | nil =>
      simp only [List.foldlM_nil, pure, Except.pure, Except.ok.injEq] at frees
      exact ⟨by simp, frees ▸ held⟩
  | cons pid rest ih =>
      rw [List.foldlM_cons, bind_eq_ok] at frees
      obtain ⟨middle, first, later⟩ := frees
      obtain ⟨apart, before⟩ := ih later
      simp only [freePcb, bind_eq_ok, Except.ok.injEq] at first
      obtain ⟨_, _, _, _, rfl⟩ := first
      by_cases same : other = pid
      · simp [same] at before
      · exact ⟨by simp [same, apart], by simpa [same] using before⟩

/-- What a line that runs no script leaves alone. -/
structure Quiet (kernel kernel' : Kernel World) : Prop where
  trace : kernel'.trace = kernel.trace
  queue : kernel'.queue = kernel.queue
  pcbs : kernel'.pcbs = kernel.pcbs
  allPcb : kernel'.allPcb = kernel.allPcb

theorem Quiet.refl : Quiet kernel kernel := ⟨rfl, rfl, rfl, rfl⟩

theorem Quiet.trans {middle : Kernel World} (first : Quiet kernel middle) (second : Quiet middle kernel') :
    Quiet kernel kernel' :=
  ⟨second.trace.trans first.trace, second.queue.trans first.queue, second.pcbs.trans first.pcbs,
    second.allPcb.trans first.allPcb⟩

end Kernel

namespace Shell

variable {World : Type} {shell shell' : Shell World} {parse : Parser World} {host : Host World} {pid i fuel : Nat} {ret : Int}

/-- Whatever a line runs, the processes that are left are in `ALL_PCB`. -/
def KeepsListed (parse : Parser World) : Prop :=
  ∀ ui shell ret shell', shell.kernel.Listed → parse ui shell = .ok (ret, shell') → shell'.kernel.Listed

theorem runLine_listed (keeps : KeepsListed parse) (listed : shell.kernel.Listed)
    (runs : runLine parse pid shell = .ok (ret, shell')) : shell'.kernel.Listed := by
  simp only [runLine, runProc, bind_eq_ok] at runs
  obtain ⟨_, _, ⟨code, shell₁⟩, cpu, runs⟩ := runs
  have ran : shell₁.kernel.Listed := by
    simp only [cpuRun, bind_eq_ok, course_eq_ok] at cpu
    obtain ⟨pcb, _, page, _, cpu⟩ := cpu
    split at cpu
    · split at cpu
      · simp only [Except.ok.injEq, Prod.mk.injEq] at cpu
        exact cpu.2 ▸ listed
      · simp only [bind_eq_ok, course_eq_ok, Except.ok.injEq, Prod.mk.injEq] at cpu
        obtain ⟨line, _, ⟨value, shell₂⟩, parsed, pcb', held, rfl, rfl⟩ := cpu
        refine (keeps _ _ _ _ ?_ parsed).of_held (fun other holds => ?_) rfl
        · exact listed
        · by_cases same : other = pid
          · have found := Kernel.pcb_ok held
            subst same
            exact Option.isSome_of_mem found
          · simpa [withKernel, Kernel.setPcb, same] using holds
    · simp at cpu
  split at runs
  · simp only [bind_eq_ok, course_eq_ok, Except.ok.injEq, Prod.mk.injEq] at runs
    obtain ⟨kernel, faults, _, rfl⟩ := runs
    exact Kernel.pageFault_listed ran faults
  · simp only [bind_eq_ok, course_eq_ok, Except.ok.injEq, Prod.mk.injEq] at runs
    obtain ⟨kernel, touches, _, rfl⟩ := runs
    exact Kernel.touch_listed ran touches

theorem rrTurn_listed (keeps : KeepsListed parse) (listed : shell.kernel.Listed)
    (turns : rrTurn parse shell = .ok shell') : shell'.kernel.Listed := by
  unfold rrTurn at turns
  split at turns
  · simp at turns
  · next rest _ =>
      have popped : (shell.withKernel { shell.kernel with queue := rest }).kernel.Listed := listed
      simp only [bind_eq_ok, course_eq_ok] at turns
      obtain ⟨pcb, _, turns⟩ := turns
      split at turns
      · simp only [bind_eq_ok] at turns
        obtain ⟨⟨first, shell₁⟩, run, turns⟩ := turns
        have listed₁ := runLine_listed keeps popped run
        split at turns
        · simp only [Except.ok.injEq] at turns
          exact turns ▸ listed₁
        · simp only [bind_eq_ok] at turns
          obtain ⟨⟨second, shell₂⟩, runAgain, turns⟩ := turns
          have listed₂ := runLine_listed keeps listed₁ runAgain
          split at turns <;> simp only [Except.ok.injEq] at turns <;> subst turns <;> exact listed₂
      · split at turns
        · simp only [bind_eq_ok, Except.ok.injEq] at turns
          obtain ⟨⟨_, shell₁⟩, run, rfl⟩ := turns
          exact runLine_listed keeps popped run
        · simp only [Except.ok.injEq] at turns
          subst turns
          exact listed

/-- A run frees every process there is, the ones that were already waiting included. -/
theorem runScripts_frees {names : List CString} (keeps : KeepsListed parse) (listed : shell.kernel.Listed)
    (runs : runScripts host parse fuel names shell = .ok (ret, shell')) (other : Nat) : shell'.kernel.pcbs other = none := by
  simp only [runScripts, runProcRR, bind_eq_ok, course_eq_ok] at runs
  obtain ⟨kernel, loads, result, loop, runs⟩ := runs
  cases result with
  | none => simp at runs
  | some last =>
      simp only [bind_eq_ok, course_eq_ok, Except.ok.injEq, Prod.mk.injEq] at runs
      obtain ⟨cleaned, frees, _, rfl⟩ := runs
      have lastListed : last.kernel.Listed := (Lib.loop_invariant (fun shell : Shell World => shell.kernel.Listed)
        (fun _ _ listed _ turns => rrTurn_listed keeps listed turns) fuel _ last
        (Kernel.newProcs_listed listed loads) loop).1
      rw [← Option.not_isSome_iff_eq_none]
      intro held
      obtain ⟨apart, before⟩ := Kernel.freePcbs_held frees other held
      exact apart (lastListed other before)

/-- A segment runs scripts or leaves the processes alone. -/
theorem interpreter_quiet {args : List CString} {run : List CString → Shell World → Course (Int × Shell World)}
    (single : scriptsOf args = none) (ran : interpreter host run args shell = .ok (ret, shell')) : shell.kernel.Quiet shell'.kernel := by
  unfold interpreter at ran
  rw [single] at ran
  simp only at ran
  split at ran
  · simp only [Except.ok.injEq, Prod.mk.injEq] at ran
    exact ran.2 ▸ ⟨rfl, rfl, rfl, rfl⟩
  · split at ran
    · simp only [Except.ok.injEq, Prod.mk.injEq] at ran
      exact ran.2 ▸ ⟨rfl, rfl, rfl, rfl⟩
    · split at ran
      · simp at ran
      · simp only [Except.ok.injEq, Prod.mk.injEq] at ran
        exact ran.2 ▸ ⟨rfl, rfl, rfl, rfl⟩

/-- The value of a line without scripts, `none` when a segment that is reached runs scripts: `quit` ends the line with -1,
and four scripts are refused with 1. -/
def lineValue (host : Host World) : List CString → Int → World → Option Int
  | [], ret, _ => some ret
  | token :: rest, _, world =>
      if (scriptsOf (words token)).isSome then none
      else if quits (words token) then some (-1)
      else if refused (words token) then lineValue host rest 1 world
      else match Proc.interpreter host.files (words token) world with
        | none => none
        | some result => if result.ret = -1 then some (-1) else lineValue host rest result.ret result.world

/-- Where no process is left, none comes back. -/
theorem parseLoop_freed (keeps : KeepsListed parse) (rounds : Nat) {caller : Nat} (fuel : Nat) {token : Option Position}
    {before : Int} {shell : Shell World} (freed : ∀ other, shell.kernel.pcbs other = none)
    (runs : parseLoop (interpreter host (runScripts host parse rounds)) caller fuel token before shell = .ok (ret, shell'))
    (other : Nat) : shell'.kernel.pcbs other = none := by
  induction fuel generalizing token before shell with
  | zero =>
      cases token with
      | none =>
          simp only [parseLoop, Except.ok.injEq, Prod.mk.injEq] at runs
          exact runs.2 ▸ freed other
      | some token => simp [parseLoop] at runs
  | succ fuel ih =>
      cases token with
      | none =>
          simp only [parseLoop, Except.ok.injEq, Prod.mk.injEq] at runs
          exact runs.2 ▸ freed other
      | some token =>
          simp only [parseLoop, bind_eq_ok] at runs
          obtain ⟨⟨value, shell₁⟩, ran, runs⟩ := runs
          have away : ∀ pid, shell₁.kernel.pcbs pid = none := by
            have listed : shell.kernel.Listed := fun pid held => by simp [freed pid] at held
            rcases interpreter_cases ran with ⟨names, _, scripts⟩ | ⟨single, _, _⟩
            · exact runScripts_frees keeps listed scripts
            · intro pid
              rw [(interpreter_quiet single ran).pcbs]
              exact freed pid
          split at runs
          · simp only [Except.ok.injEq, Prod.mk.injEq] at runs
            obtain ⟨_, rfl⟩ := runs
            exact away other
          · have later := fun freed => ih freed runs
            exact later away

/-- A line that comes back ran no script and has the value that its segments give it, or it freed every process. -/
theorem parseLoop_value (keeps : KeepsListed parse) (rounds : Nat) {caller : Nat} (fuel : Nat) {start : Position} {before : Int}
    {shell : Shell World} (listed : shell.kernel.Listed) (at_ : shell.saved = (strtok start).2)
    (runs : parseLoop (interpreter host (runScripts host parse rounds)) caller fuel (strtok start).1 before shell =
      .ok (ret, shell')) :
    lineValue host (tokens start.rest) before shell.kernel.world = some ret ∧ shell.kernel.Quiet shell'.kernel ∨
      lineValue host (tokens start.rest) before shell.kernel.world = none ∧ ∀ other, shell'.kernel.pcbs other = none := by
  induction fuel generalizing start before shell with
  | zero =>
      rcases strtok_cases start with ⟨taken, empty⟩ | ⟨token, rest, taken, _⟩
      · rw [taken, parseLoop, Except.ok.injEq, Prod.mk.injEq] at runs
        obtain ⟨rfl, rfl⟩ := runs
        exact .inl ⟨by rw [empty, lineValue], .refl⟩
      · rw [taken] at runs
        simp [parseLoop] at runs
  | succ fuel ih =>
      rcases strtok_cases start with ⟨taken, empty⟩ | ⟨token, rest, taken, split⟩
      · rw [taken, parseLoop, Except.ok.injEq, Prod.mk.injEq] at runs
        obtain ⟨rfl, rfl⟩ := runs
        exact .inl ⟨by rw [empty, lineValue], .refl⟩
      · rw [taken] at runs at_
        simp only [parseLoop, bind_eq_ok] at runs
        obtain ⟨⟨value, shell₁⟩, ran, runs⟩ := runs
        rw [split]
        rcases interpreter_cases ran with ⟨names, starts, scripts⟩ | ⟨flat, ⟨kernel, rfl⟩, outcome⟩
        · refine .inr ⟨by rw [lineValue, if_pos (by rw [starts]; rfl)], ?_⟩
          have freed := runScripts_frees keeps listed scripts
          split at runs
          · simp only [Except.ok.injEq, Prod.mk.injEq] at runs
            obtain ⟨_, rfl⟩ := runs
            exact freed
          · have later := fun freed => parseLoop_freed keeps rounds fuel freed runs
            exact later freed
        · have quiet := interpreter_quiet flat ran
          have saved : shell.saved = ⟨start.line, rest⟩ := at_
          have stop (leaves : value = -1) : ret = -1 ∧ shell.kernel.Quiet shell'.kernel := by
            rw [if_pos leaves] at runs
            simp only [Except.ok.injEq, Prod.mk.injEq] at runs
            obtain ⟨rfl, rfl⟩ := runs
            exact ⟨leaves, quiet⟩
          have goOn {world : World} (continues : value ≠ -1) (same : kernel.world = world) :
              lineValue host (tokens rest) value world = some ret ∧ shell.kernel.Quiet shell'.kernel ∨
                lineValue host (tokens rest) value world = none ∧ ∀ other, shell'.kernel.pcbs other = none := by
            rw [if_neg continues] at runs
            have next : (shell.withKernel kernel).saved = ⟨start.line, rest⟩ := saved
            rw [next] at runs
            subst same
            have later := @ih ⟨start.line, rest⟩ _ _ ?_ ?_ runs
            · exact later.imp_left fun both => ⟨both.1, quiet.trans both.2⟩
            · refine listed.of_held (fun other held => ?_) quiet.allPcb
              rw [← show kernel.pcbs = shell.kernel.pcbs from quiet.pcbs]
              exact held
            · rfl
          have notScript : ¬ (scriptsOf (words token)).isSome := by
            rw [flat]
            decide
          rw [lineValue, if_neg notScript]
          rcases outcome with ⟨leaves, rfl⟩ | ⟨stays, many, rfl, world⟩ | ⟨stays, few, result, found, rfl, world⟩
          · rw [if_pos leaves]
            obtain ⟨rfl, quiet⟩ := stop rfl
            exact .inl ⟨rfl, quiet⟩
          · rw [if_neg (by simp [stays]), if_pos many]
            exact goOn (by decide) world
          · rw [if_neg (by simp [stays]), if_neg (by simp [few]), found]
            simp only
            split
            · next leaves =>
                obtain ⟨rfl, quiet⟩ := stop leaves
                exact .inl ⟨rfl, quiet⟩
            · next continues => exact goOn continues world

theorem parseInput_keepsListed (host : Host World) (fuel depth : Nat) : KeepsListed (parseInput host fuel depth) := by
  induction depth with
  | zero =>
      intro ui shell ret shell' _ runs
      simp [parseInput] at runs
  | succ depth ih =>
      intro ui shell ret shell' listed runs
      have loop := fun listed at_ => parseLoop_value ih fuel fuel listed at_ runs
      rcases loop listed rfl with ⟨_, quiet⟩ | ⟨_, freed⟩
      · refine listed.of_held (fun other held => ?_) quiet.allPcb
        rw [quiet.pcbs] at held
        exact held
      · intro other held
        simp [freed other] at held

/-- The value of a line, which leaves the processes alone or frees them all. -/
theorem parseInput_value (host : Host World) (fuel depth : Nat) {ui : CString} (listed : shell.kernel.Listed)
    (runs : parseInput host fuel depth ui shell = .ok (ret, shell')) :
    lineValue host (tokens ui) 0 shell.kernel.world = some ret ∧ shell.kernel.Quiet shell'.kernel ∨
      lineValue host (tokens ui) 0 shell.kernel.world = none ∧ ∀ other, shell'.kernel.pcbs other = none := by
  cases depth with
  | zero => simp [parseInput] at runs
  | succ depth =>
      have loop := fun listed at_ => parseLoop_value (parseInput_keepsListed host fuel depth) fuel fuel listed at_ runs
      exact loop listed rfl

/-- The line that a slot of the page holds. -/
def lineAt (shell : Shell World) (page : Page) (j : Fin 3) : CString := (shell.kernel.memory.slots (page.index j)).value

/-- The shell while a process runs a line. -/
def handing (shell : Shell World) (pid : Nat) (line : CString) : Shell World :=
  shell.withKernel (shell.kernel.log (.handed pid line))

/-- The outcomes of `cpu_run`: a page fault, or a line after which the process must still be there. -/
theorem cpuRun_cases {pcb : Pcb} (j : Fin 3) (found : shell.kernel.pcbs pid = some pcb) (counter : pcb.programCounter i = j.val)
    (runs : cpuRun parse pid i shell = .ok (ret, shell')) :
    ((pcb.pageTable i).validBit j = false ∧ ret = 1 ∧ shell' = shell) ∨
      ((pcb.pageTable i).validBit j = true ∧ ∃ last pcb', parse (shell.lineAt (pcb.pageTable i) j)
          (shell.handing pid (shell.lineAt (pcb.pageTable i) j)) = .ok (ret, last) ∧
        last.kernel.pcbs pid = some pcb' ∧ shell' = last.withKernel (last.kernel.setPcb pid (pcb'.advance i))) := by
  simp only [cpuRun, bind_eq_ok, course_eq_ok] at runs
  obtain ⟨pcb', found', page, inTable, runs⟩ := runs
  obtain rfl : pcb' = pcb := by simpa [found] using (Kernel.pcb_ok found').symm
  obtain ⟨_, rfl⟩ := Kernel.page_ok inTable
  split at runs
  · next inside =>
      obtain rfl : (⟨_, inside⟩ : Fin 3) = j := Fin.ext counter
      split at runs
      · next invalid =>
          simp only [Except.ok.injEq, Prod.mk.injEq] at runs
          exact .inl ⟨invalid, runs.1.symm, runs.2.symm⟩
      · next valid =>
          simp only [bind_eq_ok, course_eq_ok, Except.ok.injEq, Prod.mk.injEq] at runs
          obtain ⟨line, read, ⟨value, last⟩, parsed, pcb', held, rfl, rfl⟩ := runs
          obtain rfl := Kernel.memGetValueAt_ok read
          exact .inr ⟨by simpa using valid, last, pcb', parsed, Kernel.pcb_ok held, rfl⟩
  · simp at runs

/-- A line during which the process is freed makes `cpu_run` use it after that. -/
theorem cpuRun_freed {pcb : Pcb} (j : Fin 3) (found : shell.kernel.pcbs pid = some pcb) (counter : pcb.programCounter i = j.val)
    (valid : (pcb.pageTable i).validBit j = true)
    (parsed : parse (shell.lineAt (pcb.pageTable i) j) (shell.handing pid (shell.lineAt (pcb.pageTable i) j)) = .ok (ret, shell'))
    (freed : shell'.kernel.pcbs pid = none) : cpuRun parse pid i shell = .error (.fault .undefined) := by
  have held : shell.kernel.pcb pid = .ok pcb := by simp [Kernel.pcb, found]
  have gone : shell'.kernel.pcb pid = .error .undefined := by simp [Kernel.pcb, freed]
  have inside : pcb.programCounter i < 3 := counter ▸ j.isLt
  obtain rfl : (⟨_, inside⟩ : Fin 3) = j := Fin.ext counter
  have set : ¬ (pcb.pageTable i).validBit ⟨_, inside⟩ = false := by simp [valid]
  simp only [cpuRun, bind, Except.bind, Outcome.course, held, Except.mapError, dif_pos inside]
  cases inTable : pcb.page i with
  | error fault =>
      unfold Pcb.page at inTable
      split at inTable
      · simp at inTable
      · simp only [Except.error.injEq] at inTable
        simp only [← inTable]
  | ok page =>
      obtain ⟨_, rfl⟩ := Kernel.page_ok inTable
      simp only [if_neg set]
      cases read : shell.kernel.memory.memGetValueAt ((pcb.pageTable i).index ⟨_, inside⟩) with
      | error fault =>
          unfold ShellMemory.memGetValueAt ShellMemory.inBounds at read
          split at read
          · simp [Except.map] at read
          · simp only [Except.map, Except.error.injEq] at read
            simp only [← read]
      | ok line =>
          obtain rfl := Kernel.memGetValueAt_ok read
          simp only [lineAt, handing] at parsed
          simp only [parsed, gone]

/-- `run_proc` tells a page fault apart from the result of its line exactly when the line does not return 1; after a line
that runs scripts it uses the process that was freed. -/
theorem runProc_faultsExactly_iff (host : Host World) (fuel depth : Nat) {pcb : Pcb} (j : Fin 3)
    (listed : shell.kernel.Listed) (found : shell.kernel.pcbs pid = some pcb) (counter : pcb.programCounter i = j.val) :
    (∀ ret shell', runProc (parseInput host fuel depth) pid i shell = .ok (ret, shell') →
      (Kernel.FaultsExactly ((pcb.pageTable i).validBit j) pid i shell.kernel shell'.kernel ↔
        (pcb.pageTable i).validBit j = false ∨
          lineValue host (tokens (shell.lineAt (pcb.pageTable i) j)) 0 shell.kernel.world ≠ some 1)) ∧
    ((pcb.pageTable i).validBit j = true →
      lineValue host (tokens (shell.lineAt (pcb.pageTable i) j)) 0 shell.kernel.world = none → ∀ value shell',
        parseInput host fuel depth (shell.lineAt (pcb.pageTable i) j) (shell.handing pid (shell.lineAt (pcb.pageTable i) j)) =
          .ok (value, shell') → runProc (parseInput host fuel depth) pid i shell = .error (.fault .undefined)) := by
  have handed : (shell.handing pid (shell.lineAt (pcb.pageTable i) j)).kernel.Listed := listed
  refine ⟨fun ret shell' runs => ?_, fun valid nested value shell' parsed => ?_⟩
  · simp only [runProc, bind_eq_ok] at runs
    obtain ⟨⟨code, shell₁⟩, cpu, runs⟩ := runs
    rcases cpuRun_cases j found counter cpu with ⟨invalid, rfl, rfl⟩ | ⟨valid, last, pcb', parsed, held, rfl⟩
    · simp only [if_true, bind_eq_ok, course_eq_ok, Except.ok.injEq, Prod.mk.injEq] at runs
      obtain ⟨kernel, faults, _, rfl⟩ := runs
      obtain ⟨events, trace, paging, queue⟩ := Kernel.pageFault_trace faults
      refine iff_of_true ⟨_, trace, iff_of_true ⟨by simp, queue⟩ invalid, ?_⟩ (.inl invalid)
      intro line member
      rcases List.mem_cons.mp member with same | later
      · simp at same
      · exact absurd (paging _ later) (by simp [Event.isPaging])
    · -- the process is there after its line, so the line ran no script
      rcases parseInput_value host fuel depth handed parsed with ⟨returns, quiet⟩ | ⟨_, freed⟩
      · simp only [valid, Bool.true_eq_false, false_or, ne_eq,
          show lineValue host (tokens (shell.lineAt (pcb.pageTable i) j)) 0 shell.kernel.world = some code from returns,
          Option.some.injEq]
        by_cases one : code = 1
        · simp only [one, if_true, bind_eq_ok, course_eq_ok, Except.ok.injEq, Prod.mk.injEq] at runs
          obtain ⟨kernel, faults, _, rfl⟩ := runs
          obtain ⟨events, trace, _, queue⟩ := Kernel.pageFault_trace faults
          refine iff_of_false ?_ (by simpa using one)
          rintro ⟨all, whole, exact, _⟩
          have same : all = .handed pid (shell.lineAt (pcb.pageTable i) j) :: .loadPage pid i :: events := by
            refine List.append_cancel_left (whole.symm.trans (trace.trans ?_))
            rw [show (last.withKernel (last.kernel.setPcb pid (pcb'.advance i))).kernel.trace = last.kernel.trace from rfl,
              quiet.trace]
            exact List.append_assoc shell.kernel.trace _ _
          have loads : Event.loadPage pid i ∈ all := by simp [same]
          exact absurd (exact.mp ⟨loads, queue.trans (congrArg (· ++ [pid]) quiet.queue)⟩) (by decide)
        · simp only [one, if_false, bind_eq_ok, course_eq_ok, Except.ok.injEq, Prod.mk.injEq] at runs
          obtain ⟨kernel, touches, _, rfl⟩ := runs
          refine iff_of_true ⟨[.handed pid (shell.lineAt (pcb.pageTable i) j)], ?_, ?_, ?_⟩ one
          · exact (Kernel.touch_trace touches).trans quiet.trace
          · simp
          · simp [Event.isPaging]
      · exact absurd held (by simp [freed pid])
  · rcases parseInput_value host fuel depth handed parsed with ⟨returns, _⟩ | ⟨_, freed⟩
    · exact absurd (returns.symm.trans nested) (Option.some_ne_none _)
    · simp only [runProc, bind, Except.bind, cpuRun_freed j found counter valid parsed (freed pid)]

/-- A shell that has loaded one script into two frames and has popped its process from the queue. -/
def loaded (file : List UInt8) : Option (Shell Unit) :=
  (Kernel.newProcs [some file] (Kernel.kernelSetup 1 (ShellMemory.memInit 6 2) ())).toOption.map
    fun kernel => ⟨{ kernel with queue := kernel.queue.tail }, ⟨0, []⟩, 1, []⟩

theorem loaded_listed {file : List UInt8} {shell : Shell Unit} (loads : loaded file = some shell) : shell.kernel.Listed := by
  simp only [loaded, Option.map_eq_some_iff] at loads
  obtain ⟨kernel, loads, rfl⟩ := loads
  cases ran : Kernel.newProcs [some file] (Kernel.kernelSetup 1 (ShellMemory.memInit 6 2) ()) with
  | error fault => simp [ran, Except.toOption] at loads
  | ok kernel' =>
      rw [ran, Except.toOption, Option.some.injEq] at loads
      subst loads
      have listed : kernel'.Listed := Kernel.newProcs_listed (fun pid held => by simp [Kernel.kernelSetup] at held) ran
      exact listed

/-- What decides about the first line of the script: counter, valid bit, value, and whether `parseInput` and `run_proc` return. -/
def firstLine (shell : Shell Unit) : Option (Nat × Bool × Option Int × Bool × Bool) :=
  (shell.kernel.pcbs 1).map fun pcb =>
    let line := shell.lineAt (pcb.pageTable 0) 0
    (pcb.programCounter 0, (pcb.pageTable 0).validBit 0, lineValue oneScript (tokens line) 0 shell.kernel.world,
      (parseInput oneScript 4 3 line (shell.handing 1 line)).toOption.isSome,
      (runProc (parseInput oneScript 4 3) 1 0 shell).toOption.isSome)

theorem loaded_firstLine {file : List UInt8} {valid parses returns : Bool} {value : Option Int}
    (first : (loaded file).map firstLine = some (some (0, valid, value, parses, returns))) :
    ∃ shell pcb, loaded file = some shell ∧ shell.kernel.pcbs 1 = some pcb ∧ pcb.programCounter 0 = 0 ∧
      (pcb.pageTable 0).validBit 0 = valid ∧
      lineValue oneScript (tokens (shell.lineAt (pcb.pageTable 0) 0)) 0 shell.kernel.world = value ∧
      (parseInput oneScript 4 3 (shell.lineAt (pcb.pageTable 0) 0)
        (shell.handing 1 (shell.lineAt (pcb.pageTable 0) 0))).toOption.isSome = parses ∧
      (runProc (parseInput oneScript 4 3) 1 0 shell).toOption.isSome = returns := by
  simp only [Option.map_eq_some_iff, firstLine, Prod.mk.injEq] at first
  obtain ⟨shell, loads, pcb, found, counter, bit, line, parsed, ran⟩ := first
  exact ⟨shell, pcb, loads, found, counter, bit, line, parsed, ran⟩

theorem returns_of_isSome {course : Course (Int × Shell Unit)} (some : course.toOption.isSome = true) :
    ∃ ret shell, course = .ok (ret, shell) := by
  cases course with
  | error stop => cases some
  | ok result => exact ⟨result.1, result.2, rfl⟩

/-- The line `cat f;echo a` moves no page, `exec g g g g` has its own page loaded again, and `run g` frees its process. -/
theorem runProc_faultsExactly_small :
    (∃ shell shell' pcb ret, loaded (command ['c', 'a', 't', ' ', 'f', ';', 'e', 'c', 'h', 'o', ' ', 'a']) = some shell ∧
      shell.kernel.pcbs 1 = some pcb ∧ runProc (parseInput oneScript 4 3) 1 0 shell = .ok (ret, shell') ∧
      Kernel.FaultsExactly ((pcb.pageTable 0).validBit 0) 1 0 shell.kernel shell'.kernel) ∧
    (∃ shell shell' pcb ret, loaded (command ['e', 'x', 'e', 'c', ' ', 'g', ' ', 'g', ' ', 'g', ' ', 'g']) = some shell ∧
      shell.kernel.pcbs 1 = some pcb ∧ runProc (parseInput oneScript 4 3) 1 0 shell = .ok (ret, shell') ∧
      ¬ Kernel.FaultsExactly ((pcb.pageTable 0).validBit 0) 1 0 shell.kernel shell'.kernel) ∧
    ∃ shell, loaded (command ['r', 'u', 'n', ' ', 'g']) = some shell ∧
      runProc (parseInput oneScript 4 3) 1 0 shell = .error (.fault .undefined) := by
  refine ⟨?_, ?_, ?_⟩
  · have first : (loaded (command ['c', 'a', 't', ' ', 'f', ';', 'e', 'c', 'h', 'o', ' ', 'a'])).map firstLine =
        some (some (0, true, some 0, true, true)) := by decide +kernel
    obtain ⟨shell, pcb, loads, found, counter, _, value, _, ran⟩ := loaded_firstLine first
    obtain ⟨ret, shell', ran⟩ := returns_of_isSome ran
    have exact := (runProc_faultsExactly_iff oneScript 4 3 0 (loaded_listed loads) found counter).1 ret shell' ran
    exact ⟨shell, shell', pcb, ret, loads, found, ran, exact.mpr (.inr (by rw [value]; decide))⟩
  · have first : (loaded (command ['e', 'x', 'e', 'c', ' ', 'g', ' ', 'g', ' ', 'g', ' ', 'g'])).map firstLine =
        some (some (0, true, some 1, true, true)) := by decide +kernel
    obtain ⟨shell, pcb, loads, found, counter, valid, value, _, ran⟩ := loaded_firstLine first
    obtain ⟨ret, shell', ran⟩ := returns_of_isSome ran
    have exact := (runProc_faultsExactly_iff oneScript 4 3 0 (loaded_listed loads) found counter).1 ret shell' ran
    refine ⟨shell, shell', pcb, ret, loads, found, ran, fun holds => ?_⟩
    rcases exact.mp holds with invalid | other
    · exact absurd (valid.symm.trans invalid) (by decide)
    · exact other value
  · have first : (loaded (command ['r', 'u', 'n', ' ', 'g'])).map firstLine = some (some (0, true, none, true, false)) := by
      decide +kernel
    obtain ⟨shell, pcb, loads, found, counter, valid, value, parsed, _⟩ := loaded_firstLine first
    obtain ⟨ret, shell', parsed⟩ := returns_of_isSome parsed
    exact ⟨shell, loads,
      (runProc_faultsExactly_iff oneScript 4 3 0 (loaded_listed loads) found counter).2 valid value ret shell' parsed⟩

/-- `size` of a missing file returns 1, so its page is loaded again although the valid bit was set. -/
theorem size_reloads : ¬ ∀ (shell shell' : Shell Unit) (pcb : Pcb) (ret : Int),
    loaded (command ['s', 'i', 'z', 'e', ' ', 'f'] ++ 10 :: command ['e', 'c', 'h', 'o', ' ', 'a']) = some shell →
    shell.kernel.pcbs 1 = some pcb → pcb.programCounter 0 = 0 →
    runProc (parseInput oneScript 4 3) 1 0 shell = .ok (ret, shell') →
    Kernel.FaultsExactly ((pcb.pageTable 0).validBit 0) 1 0 shell.kernel shell'.kernel := by
  intro claim
  have first : (loaded (command ['s', 'i', 'z', 'e', ' ', 'f'] ++ 10 :: command ['e', 'c', 'h', 'o', ' ', 'a'])).map firstLine =
      some (some (0, true, some 1, true, true)) := by decide +kernel
  obtain ⟨shell, pcb, loads, found, counter, valid, _, _, ran⟩ := loaded_firstLine first
  obtain ⟨ret, shell', ran⟩ := returns_of_isSome ran
  have moved : ((loaded (command ['s', 'i', 'z', 'e', ' ', 'f'] ++ 10 :: command ['e', 'c', 'h', 'o', ' ', 'a'])).map fun shell =>
      (runProc (parseInput oneScript 4 3) 1 0 shell).toOption.map fun result =>
        (decide (.loadPage 1 0 ∈ result.2.kernel.trace), shell.kernel.trace,
          decide (result.2.kernel.queue = shell.kernel.queue ++ [1]))) = some (some (true, [], true)) := by decide +kernel
  simp only [loads, ran, Except.toOption, Option.map_some, Option.some.injEq, Prod.mk.injEq, decide_eq_true_eq] at moved
  obtain ⟨reloaded, start, requeued⟩ := moved
  obtain ⟨events, trace, exact, _⟩ := claim shell shell' pcb ret loads found counter ran
  rw [start, List.nil_append] at trace
  exact absurd (exact.mp ⟨trace ▸ reloaded, requeued⟩) (by simp [valid])

end Shell
end MockOS.Proc
