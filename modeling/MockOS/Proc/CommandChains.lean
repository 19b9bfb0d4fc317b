import MockOS.Proc.Nesting
import MockOS.Proc.PageFaults

namespace MockOS.Proc

@[simp] theorem course_eq_ok {A : Type} {outcome : Outcome A} {value : A} : outcome.course = .ok value ↔ outcome = .ok value := by
  cases outcome <;> simp [Outcome.course, Except.mapError]

/-- Semicolons in front do not matter. -/
theorem tokens_dropWhile (ui : CString) : tokens (ui.dropWhile (· = 59)) = tokens ui := by
  induction ui with
  | nil => rfl
  | cons byte rest ih =>
      by_cases semicolon : byte = 59
      · rw [List.dropWhile_cons_of_pos (by simpa using semicolon), ih, tokens, tokens, semicolon]
        simp [List.splitOn_cons_eq_if_modifyHead]
      · rw [List.dropWhile_cons_of_neg (by simpa using semicolon)]

theorem tokens_first {text rest : CString} (nonempty : text ≠ []) (free : 59 ∉ text) :
    tokens (text ++ 59 :: rest) = text :: tokens rest := by
  have parts := List.splitOnP_append_cons_of_forall_mem (p := fun byte : UInt8 => byte == 59) 
    (fun byte member => by simpa using ne_of_mem_of_not_mem member free) 59 (by simp) rest
  rw [tokens, List.splitOn_eq_splitOnP, parts, tokens, List.splitOn_eq_splitOnP]
  simp [nonempty]

theorem tokens_single {text : CString} (nonempty : text ≠ []) (free : 59 ∉ text) : tokens text = [text] := by
  rw [tokens, List.splitOn_eq_splitOnP, List.splitOnP_eq_singleton fun byte member => by
    simpa using ne_of_mem_of_not_mem member free]
  simp [nonempty]

theorem not_mem_takeWhile (text : CString) : 59 ∉ text.takeWhile (· ≠ 59) := by
  intro member
  simpa using List.mem_takeWhile_imp member

/-- `strtok` takes the first token and leaves the others. -/
theorem strtok_cases (start : Position) :
    (strtok start = (none, ⟨start.line, []⟩) ∧ tokens start.rest = []) ∨
      ∃ token rest, strtok start = (some ⟨start.line, token⟩, ⟨start.line, rest⟩) ∧
        tokens start.rest = token :: tokens rest := by
  rw [← tokens_dropWhile]
  by_cases empty : start.rest.dropWhile (· = 59) = []
  · exact .inl ⟨if_pos empty, by rw [empty]; rfl⟩
  · refine .inr ⟨_, _, if_neg empty, ?_⟩
    obtain ⟨byte, rest, whole⟩ := List.exists_cons_of_ne_nil empty
    have head : byte ≠ 59 := by
      have stops := List.head?_dropWhile_not (fun byte : UInt8 => decide (byte = 59)) start.rest
      rw [whole] at stops
      simpa using stops
    rw [whole]
    have first : (byte :: rest).takeWhile (· ≠ 59) ≠ [] := by
      rw [List.takeWhile_cons_of_pos (by simpa using head)]
      simp
    have parts := List.takeWhile_append_dropWhile (p := fun byte : UInt8 => decide (byte ≠ 59)) (l := byte :: rest)
    cases later : (byte :: rest).dropWhile (· ≠ 59) with
    | nil =>
        rw [later, List.append_nil] at parts
        have single := tokens_single first (not_mem_takeWhile _)
        rw [parts] at single
        rw [single, parts]
        rfl
    | cons semicolon tail =>
        have stops := List.head?_dropWhile_not (fun byte : UInt8 => decide (byte ≠ 59)) (byte :: rest)
        rw [later] at stops
        have here : semicolon = 59 := by simpa using stops
        rw [later, here] at parts
        have taken : tokens (_ ++ 59 :: tail) = _ := tokens_first first (not_mem_takeWhile _)
        rw [parts] at taken
        exact taken

namespace Kernel

variable {World : Type} {kernel kernel' : Kernel World} {pid i : Nat}

/-- What decides whether a process is done. -/
def counters (kernel : Kernel World) (pid : Nat) : Option (Int × (Nat → Nat) × Nat) :=
  (kernel.pcbs pid).map fun pcb => (pcb.size, pcb.programCounter, pcb.pageTableSize)

theorem counters_setPcb {pcb pcb' : Pcb} (found : kernel.pcbs pid = some pcb) (size : pcb'.size = pcb.size)
    (programCounter : pcb'.programCounter = pcb.programCounter) (table : pcb'.pageTableSize = pcb.pageTableSize) :
    (kernel.setPcb pid pcb').counters = kernel.counters := by
  funext other
  by_cases same : other = pid
  · subst same
    simp [counters, setPcb, found, size, programCounter, table]
  · simp [counters, setPcb, same]

theorem loadPage_counters {failed : Int} (loads : loadPage pid i kernel = .ok (failed, kernel')) :
    kernel'.counters = kernel.counters ∧ kernel'.queue = kernel.queue := by
  simp only [loadPage, bind_eq_ok] at loads
  obtain ⟨pcb, found, page, _, loads⟩ := loads
  split at loads
  · simp only [Except.ok.injEq, Prod.mk.injEq] at loads
    obtain ⟨_, rfl⟩ := loads
    exact ⟨rfl, rfl⟩
  · simp only [bind_eq_ok, Except.ok.injEq, Prod.mk.injEq] at loads
    obtain ⟨⟨pcb', memory'⟩, places, _, rfl⟩ := loads
    simp only [Pcb.placePage, bind_eq_ok, Except.ok.injEq, Prod.mk.injEq] at places
    obtain ⟨_, _, rfl, _⟩ := places
    have logged : (kernel.log (.loadPage pid i)).pcbs pid = some pcb := pcb_ok found
    exact ⟨counters_setPcb logged rfl rfl rfl, rfl⟩

theorem evictVictim_counters (evicts : evictVictim kernel = .ok kernel') :
    kernel'.counters = kernel.counters ∧ kernel'.queue = kernel.queue := by
  unfold evictVictim at evicts
  split at evicts
  · simp at evicts
  · next victim _ =>
      split at evicts
      · simp only [pageEvict, bind_eq_ok, Except.ok.injEq] at evicts
        obtain ⟨pcb, found, _, _, _, _, _, _, _, _, rfl⟩ := evicts
        have popped : kernel.pcbs victim.1 = some pcb := pcb_ok found
        exact ⟨counters_setPcb popped rfl rfl rfl, rfl⟩
      · simp at evicts

theorem pageFault_counters (faults : pageFault pid i kernel = .ok kernel') :
    kernel'.counters = kernel.counters ∧ kernel'.queue = kernel.queue ++ [pid] := by
  simp only [pageFault, bind_eq_ok] at faults
  obtain ⟨⟨failed, kernel₁⟩, loads, faults⟩ := faults
  obtain ⟨counters₁, queue₁⟩ := loadPage_counters loads
  split at faults
  · simp only [bind_eq_ok, Except.ok.injEq, exists_eq_left'] at faults
    obtain ⟨kernel₃, evicts, ⟨_, kernel₄⟩, loadsAgain, rfl⟩ := faults
    obtain ⟨counters₃, queue₃⟩ := evictVictim_counters evicts
    obtain ⟨counters₄, queue₄⟩ := loadPage_counters loadsAgain
    exact ⟨counters₄.trans (counters₃.trans counters₁), congrArg (· ++ [pid]) (queue₄.trans (queue₃.trans queue₁))⟩
  · simp only [bind_eq_ok, Except.ok.injEq, exists_eq_left'] at faults
    subst faults
    exact ⟨counters₁, congrArg (· ++ [pid]) queue₁⟩

/-- A process of the queue that has run no line yet. -/
def Pending (kernel : Kernel World) : Prop :=
  ∃ pid ∈ kernel.queue, ∃ size table, kernel.counters pid = some (size, fun _ => 0, table) ∧ 0 < size ∧ 0 < table

theorem Pending.not_done (pending : kernel.Pending) : kernel.queueDone = false := by
  obtain ⟨pid, queued, size, table, held, _, some⟩ := pending
  rw [queueDone, List.all_eq_false]
  refine ⟨pid, queued, ?_⟩
  simp only [counters, Option.map_eq_some_iff, Prod.mk.injEq] at held
  obtain ⟨pcb, found, _, counter, rfl⟩ := held
  rw [found, Option.any_some, Pcb.pcbDone, Bool.not_eq_true, List.all_eq_false]
  exact ⟨0, List.mem_range.mpr some, by simp [counter]⟩

theorem initPages_counters {pages : List Nat} {pcb pcb' : Pcb} {memory memory' : ShellMemory}
    (inits : Pcb.initPages pid pages pcb memory = .ok (pcb', memory')) :
    pcb'.size = pcb.size ∧ pcb'.programCounter = pcb.programCounter ∧ pcb'.pageTableSize = pcb.pageTableSize := by
  induction pages generalizing pcb memory with
  | nil =>
      simp only [Pcb.initPages, Except.ok.injEq, Prod.mk.injEq] at inits
      exact inits.1 ▸ ⟨rfl, rfl, rfl⟩
  | cons i rest ih =>
      rw [Pcb.initPages] at inits
      split at inits
      · simp at inits
      · simp only [bind_eq_ok] at inits
        obtain ⟨⟨pcb₁, memory₁⟩, places, later⟩ := inits
        simp only [Pcb.placePage, bind_eq_ok, Except.ok.injEq, Prod.mk.injEq] at places
        obtain ⟨_, _, rfl, _⟩ := places
        obtain ⟨size, counter, table⟩ := ih later
        exact ⟨size, counter, table⟩

theorem newProc_pending {script : Option (List UInt8)} (loads : newProc script kernel = .ok kernel') : kernel'.Pending := by
  simp only [newProc, bind_eq_ok, Except.ok.injEq] at loads
  obtain ⟨⟨pcb, memory⟩, inits, rfl⟩ := loads
  cases script with
  | none => simp [Pcb.pcbInit] at inits
  | some file =>
      obtain ⟨size, counter, table⟩ := initPages_counters inits
      refine ⟨kernel.pidCounter, by simp, countLines file, pageTableSize (countLines file), ?_, ?_, ?_⟩
      · simp [counters, setPcb, size, counter, table]
      · simp [countLines]
      · have positive : 0 < countLines file := Nat.succ_pos _
        unfold pageTableSize
        split <;> omega

/-- The last script that is loaded has not run. -/
theorem newProcs_pending {scripts : List (Option (List UInt8))} (nonempty : scripts ≠ [])
    (loads : newProcs scripts kernel = .ok kernel') : kernel'.Pending := by
  induction scripts generalizing kernel with
  | nil => exact absurd rfl nonempty
  | cons script rest ih =>
      simp only [newProcs, bind_eq_ok] at loads
      obtain ⟨kernel₁, first, later⟩ := loads
      cases rest with
      | nil =>
          simp only [newProcs, Except.ok.injEq] at later
          exact later ▸ newProc_pending first
      | cons next others => exact ih (by simp) later

end Kernel

namespace Shell

variable {World : Type} {shell shell' middle last : Shell World} {parse : Parser World} {pid i : Nat} {ret : Int}

/-- What may happen to the tokenizer and the record of calls: younger lines take them over. -/
structure Later (shell shell' : Shell World) : Prop where
  lines : shell.lines ≤ shell'.lines
  saved : shell'.saved = shell.saved ∨ shell.lines ≤ shell'.saved.line
  calls : ∃ made, shell'.calls = shell.calls ++ made ∧ ∀ call ∈ made, shell.lines ≤ call.caller

theorem Later.of_eq (lines : shell'.lines = shell.lines) (saved : shell'.saved = shell.saved)
    (calls : shell'.calls = shell.calls) : Later shell shell' :=
  ⟨lines.ge, .inl saved, [], by simp [calls], by simp⟩

theorem Later.trans (first : Later shell middle) (second : Later middle last) : Later shell last where
  lines := first.lines.trans second.lines
  saved := by
    rcases second.saved with same | younger
    · rw [same]
      exact first.saved
    · exact .inr (first.lines.trans younger)
  calls := by
    obtain ⟨made, calls, callers⟩ := first.calls
    obtain ⟨more, callsMore, callersMore⟩ := second.calls
    refine ⟨made ++ more, by rw [callsMore, calls, List.append_assoc], fun call member => ?_⟩
    rcases List.mem_append.mp member with early | late
    · exact callers call early
    · exact first.lines.trans (callersMore call late)

/-- The tokenizer has been taken over. -/
def Moved (shell shell' : Shell World) : Prop := shell.lines ≤ shell'.saved.line

theorem Moved.later (moved : Moved shell middle) (second : Later middle last) (first : Later shell middle) :
    Moved shell last := by
  rcases second.saved with same | younger
  · rw [Moved, same]
    exact moved
  · exact first.lines.trans younger

/-- Every line that is parsed takes the tokenizer over. -/
def Takes (parse : Parser World) : Prop :=
  ∀ ui shell ret shell', parse ui shell = .ok (ret, shell') → Later shell shell' ∧ Moved shell shell'

theorem later_withKernel (kernel : Kernel World) : Later shell (shell.withKernel kernel) := .of_eq rfl rfl rfl

/-- A run of a process faults or parses a line. -/
theorem runProc_later (takes : Takes parse) (runs : runProc parse pid i shell = .ok (ret, shell')) :
    Later shell shell' ∧ (Moved shell shell' ∨
      ret = 1 ∧ shell'.kernel.counters = shell.kernel.counters ∧ shell'.kernel.queue = shell.kernel.queue ++ [pid]) := by
  simp only [runProc, bind_eq_ok] at runs
  obtain ⟨⟨code, shell₁⟩, cpu, runs⟩ := runs
  have parsed : Later shell shell₁ ∧ (Moved shell shell₁ ∨ code = 1 ∧ shell₁ = shell) := by
    simp only [cpuRun, bind_eq_ok, course_eq_ok] at cpu
    obtain ⟨pcb, _, page, _, cpu⟩ := cpu
    split at cpu
    · split at cpu
      · simp only [Except.ok.injEq, Prod.mk.injEq] at cpu
        obtain ⟨rfl, rfl⟩ := cpu
        exact ⟨.of_eq rfl rfl rfl, .inr ⟨rfl, rfl⟩⟩
      · simp only [bind_eq_ok, course_eq_ok, Except.ok.injEq, Prod.mk.injEq] at cpu
        obtain ⟨line, _, ⟨value, shell₂⟩, parsed, pcb', _, rfl, rfl⟩ := cpu
        obtain ⟨later, moved⟩ := takes _ _ _ _ parsed
        have whole : Later shell shell₂ := (later_withKernel _).trans later
        exact ⟨whole.trans (later_withKernel _), .inl moved⟩
    · simp at cpu
  obtain ⟨later, outcome⟩ := parsed
  split at runs
  · simp only [bind_eq_ok, course_eq_ok, Except.ok.injEq, Prod.mk.injEq] at runs
    obtain ⟨kernel, faults, rfl, rfl⟩ := runs
    refine ⟨later.trans (later_withKernel kernel), outcome.imp id ?_⟩
    rintro ⟨_, rfl⟩
    exact ⟨rfl, Kernel.pageFault_counters faults⟩
  · next other =>
      simp only [bind_eq_ok, course_eq_ok, Except.ok.injEq, Prod.mk.injEq] at runs
      obtain ⟨kernel, _, rfl, rfl⟩ := runs
      exact ⟨later.trans (later_withKernel kernel), .inl (outcome.resolve_right fun faulted => other faulted.1)⟩

theorem runLine_later (takes : Takes parse) (runs : runLine parse pid shell = .ok (ret, shell')) :
    Later shell shell' ∧ (Moved shell shell' ∨
      ret = 1 ∧ shell'.kernel.counters = shell.kernel.counters ∧ shell'.kernel.queue = shell.kernel.queue ++ [pid]) := by
  simp only [runLine, bind_eq_ok] at runs
  obtain ⟨_, _, runs⟩ := runs
  exact runProc_later takes runs

/-- A turn parses a line, or the process that has run no line stays in the queue. -/
theorem rrTurn_later (takes : Takes parse) (turns : rrTurn parse shell = .ok shell') :
    Later shell shell' ∧ (shell.kernel.Pending → Moved shell shell' ∨ shell'.kernel.Pending) := by
  unfold rrTurn at turns
  split at turns
  · simp at turns
  · next pid rest front =>
      simp only [bind_eq_ok, course_eq_ok] at turns
      obtain ⟨pcb, held, turns⟩ := turns
      have popped : Later shell (shell.withKernel { shell.kernel with queue := rest }) := later_withKernel _
      -- a fault of the front process keeps the queue, up to its order, and the counters
      have requeued {next : Shell World} (counters : next.kernel.counters = shell.kernel.counters)
          (queue : next.kernel.queue = rest ++ [pid]) (pending : shell.kernel.Pending) : next.kernel.Pending := by
        obtain ⟨owner, queued, rest'⟩ := pending
        refine ⟨owner, ?_, by rw [counters]; exact rest'⟩
        rw [front] at queued
        rw [queue]
        exact (List.perm_append_singleton pid rest).mem_iff.mpr queued
      split at turns
      · simp only [bind_eq_ok] at turns
        obtain ⟨⟨first, shell₁⟩, run, turns⟩ := turns
        obtain ⟨later₁, outcome₁⟩ := runLine_later takes run
        split at turns
        · simp only [Except.ok.injEq] at turns
          subst turns
          refine ⟨popped.trans later₁, fun pending => ?_⟩
          rcases outcome₁ with moved | ⟨_, counters, queue⟩
          · exact .inl moved
          · exact .inr (requeued counters queue pending)
        · next other =>
            have moved₁ := outcome₁.resolve_right fun faulted => other faulted.1
            simp only [bind_eq_ok] at turns
            obtain ⟨⟨second, shell₂⟩, runAgain, turns⟩ := turns
            obtain ⟨later₂, _⟩ := runLine_later takes runAgain
            have moved₂ : Moved shell shell₂ := moved₁.later later₂ later₁
            split at turns
            · simp only [Except.ok.injEq] at turns
              subst turns
              exact ⟨popped.trans (later₁.trans later₂), fun _ => .inl moved₂⟩
            · simp only [Except.ok.injEq] at turns
              subst turns
              exact ⟨popped.trans (later₁.trans (later₂.trans (later_withKernel _))), fun _ => .inl moved₂⟩
      · next notLarge =>
          split at turns
          · simp only [bind_eq_ok, Except.ok.injEq] at turns
            obtain ⟨⟨ret, shell₁⟩, run, rfl⟩ := turns
            obtain ⟨later₁, outcome₁⟩ := runLine_later takes run
            refine ⟨popped.trans later₁, fun pending => ?_⟩
            rcases outcome₁ with moved | ⟨_, counters, queue⟩
            · exact .inl moved
            · exact .inr (requeued counters queue pending)
          · next notOne =>
              simp only [Except.ok.injEq] at turns
              subst turns
              refine ⟨popped, fun pending => .inr ?_⟩
              obtain ⟨owner, queued, size, table, counters, positive, some⟩ := pending
              rw [front] at queued
              refine ⟨owner, (List.mem_cons.mp queued).resolve_left ?_, size, table, counters, positive, some⟩
              rintro rfl
              have found := Kernel.pcb_ok held
              simp only [Kernel.counters, show shell.kernel.pcbs owner = _ from found, Option.map_some, Option.some.injEq,
                Prod.mk.injEq] at counters
              omega

/-- A run that starts with an unstarted process takes the tokenizer over and returns 0. -/
theorem runProcRR_later {fuel : Nat} (takes : Takes parse) (pending : shell.kernel.Pending)
    (runs : runProcRR parse fuel shell = .ok (ret, shell')) : ret = 0 ∧ Later shell shell' ∧ Moved shell shell' := by
  simp only [runProcRR, bind_eq_ok] at runs
  obtain ⟨result, loop, runs⟩ := runs
  cases result with
  | none => simp at runs
  | some last =>
      simp only [bind_eq_ok, course_eq_ok, Except.ok.injEq, Prod.mk.injEq] at runs
      obtain ⟨kernel, _, rfl, rfl⟩ := runs
      obtain ⟨⟨later, outcome⟩, finished⟩ := Lib.loop_invariant
        (fun state => Later shell state ∧ (Moved shell state ∨ state.kernel.Pending))
        (by
          rintro state next ⟨later, outcome⟩ _ turns
          obtain ⟨step, keeps⟩ := rrTurn_later takes turns
          refine ⟨later.trans step, ?_⟩
          rcases outcome with moved | pending
          · exact .inl (moved.later step later)
          · refine (keeps pending).imp_left fun moved => ?_
            exact later.lines.trans moved)
        fuel shell last ⟨.of_eq rfl rfl rfl, .inr pending⟩ loop
      have moved := outcome.resolve_right fun pending => by
        rw [queueDone, pending.not_done] at finished
        cases finished
      exact ⟨rfl, later.trans (later_withKernel _), moved.later (later_withKernel _) later⟩

theorem scriptsOf_nonempty {args names : List CString} (starts : scriptsOf args = some names) : names ≠ [] := by
  unfold scriptsOf at starts
  split at starts
  · simp at starts
  · split at starts
    · next allowed =>
        simp only [Option.some.injEq] at starts
        subst starts
        intro empty
        subst empty
        simp at allowed
    · simp at starts

variable {host : Host World} {fuel : Nat}

theorem runScripts_later {names : List CString} (takes : Takes parse) (nonempty : names ≠ [])
    (runs : runScripts host parse fuel names shell = .ok (ret, shell')) :
    ret = 0 ∧ Later shell shell' ∧ Moved shell shell' := by
  simp only [runScripts, bind_eq_ok, course_eq_ok] at runs
  obtain ⟨kernel, loads, runs⟩ := runs
  obtain ⟨zero, later, moved⟩ := runProcRR_later takes (Kernel.newProcs_pending (by simpa using nonempty) loads) runs
  exact ⟨zero, (later_withKernel kernel).trans later, moved⟩

theorem interpreter_later {args : List CString} {run : List CString → Shell World → Course (Int × Shell World)}
    (runs : ∀ names shell ret shell', names ≠ [] → run names shell = .ok (ret, shell') → Later shell shell')
    (ran : interpreter host run args shell = .ok (ret, shell')) : Later shell shell' := by
  unfold interpreter at ran
  split at ran
  · next names starts => exact runs _ _ _ _ (scriptsOf_nonempty starts) ran
  · split at ran
    · simp only [Except.ok.injEq, Prod.mk.injEq] at ran
      exact ran.2 ▸ later_withKernel _
    · split at ran
      · simp only [Except.ok.injEq, Prod.mk.injEq] at ran
        exact ran.2 ▸ .of_eq rfl rfl rfl
      · split at ran
        · simp at ran
        · simp only [Except.ok.injEq, Prod.mk.injEq] at ran
          exact ran.2 ▸ later_withKernel _

theorem strtok_saved (start : Position) : (strtok start).2.line = start.line := by
  rcases strtok_cases start with ⟨taken, _⟩ | ⟨_, _, taken, _⟩ <;> rw [taken]

theorem strtok_token {start token : Position} (taken : (strtok start).1 = some token) : token.line = start.line := by
  rcases strtok_cases start with ⟨cut, _⟩ | ⟨_, _, cut, _⟩
  · rw [cut] at taken
    cases taken
  · rw [cut, Option.some.injEq] at taken
    rw [← taken]

/-- What the loop of one `parseInput` does to the tokenizer and the record, whatever it interprets. -/
theorem parseLoop_later {interpret : List CString → Shell World → Course (Int × Shell World)} {caller : Nat}
    (later : ∀ args shell ret shell', interpret args shell = .ok (ret, shell') → Later shell shell') (fuel : Nat)
    {token : Option Position} {before : Int} {shell : Shell World} (old : caller < shell.lines)
    (own : caller ≤ shell.saved.line) (runs : parseLoop interpret caller fuel token before shell = .ok (ret, shell')) :
    shell.lines ≤ shell'.lines ∧ caller ≤ shell'.saved.line ∧
      ∃ made, shell'.calls = shell.calls ++ made ∧ ∀ call ∈ made, caller ≤ call.caller := by
  induction fuel generalizing token before shell with
  | zero =>
      cases token with
      | none =>
          simp only [parseLoop, Except.ok.injEq, Prod.mk.injEq] at runs
          exact runs.2 ▸ ⟨Nat.le_refl _, own, [], by simp, by simp⟩
      | some token => simp [parseLoop] at runs
  | succ fuel ih =>
      cases token with
      | none =>
          simp only [parseLoop, Except.ok.injEq, Prod.mk.injEq] at runs
          exact runs.2 ▸ ⟨Nat.le_refl _, own, [], by simp, by simp⟩
      | some token =>
          simp only [parseLoop, bind_eq_ok] at runs
          obtain ⟨⟨value, shell₁⟩, ran, runs⟩ := runs
          obtain ⟨lines, saved, made, calls, callers⟩ := later _ _ _ _ ran
          have ownAfter : caller ≤ (strtok shell₁.saved).2.line := by
            rw [strtok_saved]
            rcases saved with same | younger
            · rw [same]
              exact own
            · omega
          have callersAfter : ∀ call ∈ made ++ [⟨caller, token, value⟩], caller ≤ call.caller := by
            intro call member
            rcases List.mem_append.mp member with nested | here
            · have := callers call nested
              omega
            · rw [List.mem_singleton.mp here]
          split at runs
          · simp only [Except.ok.injEq, Prod.mk.injEq] at runs
            obtain ⟨_, rfl⟩ := runs
            exact ⟨lines, ownAfter, made ++ [⟨caller, token, value⟩], by simp [calls], callersAfter⟩
          · have rest := fun old own => ih old own runs
            obtain ⟨linesRest, savedRest, more, callsRest, callersRest⟩ := rest (Nat.lt_of_lt_of_le old lines) ownAfter
            refine ⟨lines.trans linesRest, savedRest, made ++ [⟨caller, token, value⟩] ++ more, ?_, fun call member => ?_⟩
            · rw [callsRest, calls]
              simp
            · rcases List.mem_append.mp member with early | late
              · exact callersAfter call early
              · exact callersRest call late

/-- `parseInput` takes the tokenizer over. -/
theorem parseInput_takes (host : Host World) (fuel depth : Nat) : Takes (parseInput host fuel depth) := by
  induction depth with
  | zero =>
      intro ui shell ret shell' runs
      simp [parseInput] at runs
  | succ depth ih =>
      intro ui shell ret shell' runs
      have later : ∀ args (shell : Shell World) ret shell',
          interpreter host (runScripts host (parseInput host fuel depth) fuel) args shell = .ok (ret, shell') →
            Later shell shell' := fun args shell ret shell' =>
        interpreter_later fun names shell ret shell' nonempty runs => (runScripts_later ih nonempty runs).2.1
      have loop := fun old own => parseLoop_later later fuel old own runs
      obtain ⟨lines, saved, calls⟩ := loop (Nat.lt_succ_self _) (strtok_saved ⟨shell.lines, ui⟩).ge
      exact ⟨⟨(Nat.le_succ _).trans lines, .inr saved, calls⟩, saved⟩

/-- The calls that the `parseInput` of a line made on its own tokens. -/
def ownCalls (line : Nat) (calls : List Call) : List Call :=
  calls.filter fun call => call.caller = line && call.token.line = line

/-- The segments were interpreted once each, from left to right, stopping early only after one that returned -1. -/
def Complete (segments : List CString) (own : List Call) : Prop :=
  (own.map fun call => call.token.rest) = segments ∨
    (own.map fun call => call.token.rest) <+: segments ∧ own.getLast?.map (fun call => call.ret) = some (-1)

instance (segments : List CString) (own : List Call) : Decidable (Complete segments own) :=
  inferInstanceAs (Decidable (_ ∨ _ ∧ _))

/-- A segment that is not the last one runs scripts, and none before it returns -1. -/
def interrupted (host : Host World) : List CString → World → Bool
  | [], _ => false
  | token :: rest, world =>
      if (scriptsOf (words token)).isSome then !rest.isEmpty
      else if quits (words token) then false
      else if refused (words token) then interrupted host rest world
      else match Proc.interpreter host.files (words token) world with
        | none => false
        | some result => if result.ret = -1 then false else interrupted host rest result.world

theorem ownCalls_append (line : Nat) (calls later : List Call) :
    ownCalls line (calls ++ later) = ownCalls line calls ++ ownCalls line later := List.filter_append ..

theorem ownCalls_younger {line : Nat} {calls : List Call} (younger : ∀ call ∈ calls, line < call.caller) :
    ownCalls line calls = [] := by
  rw [ownCalls, List.filter_eq_nil_iff]
  intro call member
  have := younger call member
  simp only [Bool.and_eq_true, decide_eq_true_eq, not_and]
  omega

theorem Complete.cons {token : CString} {segments : List CString} {caller line : Nat} {own : List Call} (continues : ret ≠ -1) :
    Complete (token :: segments) (⟨caller, ⟨line, token⟩, ret⟩ :: own) ↔ Complete segments own := by
  simp only [Complete, List.map_cons, List.cons.injEq, true_and, List.cons_prefix_cons]
  refine or_congr Iff.rfl (and_congr Iff.rfl ?_)
  cases own with
  | nil => simp [continues]
  | cons next rest => rw [List.getLast?_cons_cons]

/-- Once a younger line has taken the tokenizer, no token of the own line comes any more. -/
theorem parseLoop_foreign {interpret : List CString → Shell World → Course (Int × Shell World)} {caller : Nat}
    (later : ∀ args shell ret shell', interpret args shell = .ok (ret, shell') → Later shell shell') (fuel : Nat)
    {token : Option Position} {before : Int} {shell : Shell World} (old : caller < shell.lines)
    (foreign : caller < shell.saved.line) (foreignToken : ∀ position, token = some position → caller < position.line)
    (runs : parseLoop interpret caller fuel token before shell = .ok (ret, shell')) :
    ∃ made, shell'.calls = shell.calls ++ made ∧ ownCalls caller made = [] := by
  induction fuel generalizing token before shell with
  | zero =>
      cases token with
      | none =>
          simp only [parseLoop, Except.ok.injEq, Prod.mk.injEq] at runs
          exact runs.2 ▸ ⟨[], by simp, rfl⟩
      | some token => simp [parseLoop] at runs
  | succ fuel ih =>
      cases token with
      | none =>
          simp only [parseLoop, Except.ok.injEq, Prod.mk.injEq] at runs
          exact runs.2 ▸ ⟨[], by simp, rfl⟩
      | some token =>
          simp only [parseLoop, bind_eq_ok] at runs
          obtain ⟨⟨value, shell₁⟩, ran, runs⟩ := runs
          obtain ⟨lines, saved, made, calls, callers⟩ := later _ _ _ _ ran
          have nested : ownCalls caller made = [] :=
            ownCalls_younger fun call member => Nat.lt_of_lt_of_le old (callers call member)
          have here : ownCalls caller [⟨caller, token, value⟩] = [] := by
            have := foreignToken token rfl
            simp only [ownCalls, List.filter_eq_nil_iff, List.mem_singleton, forall_eq, Bool.and_eq_true,
              decide_eq_true_eq, not_and]
            omega
          have foreignAfter : caller < shell₁.saved.line := by
            rcases saved with same | younger
            · rw [same]
              exact foreign
            · omega
          split at runs
          · simp only [Except.ok.injEq, Prod.mk.injEq] at runs
            obtain ⟨_, rfl⟩ := runs
            refine ⟨made ++ [⟨caller, token, value⟩], by simp [calls], ?_⟩
            rw [ownCalls_append, nested, here]
            rfl
          · have rest := fun old foreign foreignToken => ih old foreign foreignToken runs
            obtain ⟨more, callsRest, none⟩ := rest (Nat.lt_of_lt_of_le old lines)
              (by rw [strtok_saved]; exact foreignAfter)
              (fun position taken => by rw [strtok_token taken]; exact foreignAfter)
            refine ⟨made ++ [⟨caller, token, value⟩] ++ more, ?_, ?_⟩
            · rw [callsRest, calls]
              simp
            · rw [ownCalls_append, ownCalls_append, nested, here, none]
              rfl

/-- The outcomes of `interpreter`: scripts are run, or the tokenizer and the record stay as they are. -/
theorem interpreter_cases {args : List CString} {run : List CString → Shell World → Course (Int × Shell World)}
    (ran : interpreter host run args shell = .ok (ret, shell')) :
    (∃ names, scriptsOf args = some names ∧ run names shell = .ok (ret, shell')) ∨
      scriptsOf args = none ∧ (∃ kernel, shell' = shell.withKernel kernel) ∧
        (quits args = true ∧ ret = -1 ∨
          quits args = false ∧ refused args = true ∧ ret = 1 ∧ shell'.kernel.world = shell.kernel.world ∨
          quits args = false ∧ refused args = false ∧ ∃ result, Proc.interpreter host.files args shell.kernel.world = some result ∧
            ret = result.ret ∧ shell'.kernel.world = result.world) := by
  unfold interpreter at ran
  split at ran
  · next names starts => exact .inl ⟨names, starts, ran⟩
  · next starts =>
      refine .inr ⟨starts, ?_⟩
      split at ran
      · next leaves =>
          simp only [Except.ok.injEq, Prod.mk.injEq] at ran
          obtain ⟨rfl, rfl⟩ := ran
          exact ⟨⟨_, rfl⟩, .inl ⟨leaves, rfl⟩⟩
      · next stays =>
          rw [Bool.not_eq_true] at stays
          split at ran
          · next many =>
              simp only [Except.ok.injEq, Prod.mk.injEq] at ran
              obtain ⟨rfl, rfl⟩ := ran
              exact ⟨⟨shell.kernel, rfl⟩, .inr (.inl ⟨stays, many, rfl, rfl⟩)⟩
          · next few =>
              rw [Bool.not_eq_true] at few
              split at ran
              · simp at ran
              · next result flat =>
                  simp only [Except.ok.injEq, Prod.mk.injEq] at ran
                  obtain ⟨rfl, rfl⟩ := ran
                  exact ⟨⟨_, rfl⟩, .inr (.inr ⟨stays, few, result, flat, rfl, rfl⟩)⟩

/-- The own tokens are all interpreted unless scripts run before the last one. -/
theorem parseLoop_complete {parse : Parser World} (takes : Takes parse) (rounds : Nat) {caller : Nat} (fuel : Nat)
    {start : Position} {before : Int} {shell : Shell World} (old : caller < shell.lines) (own : start.line = caller)
    (at_ : shell.saved = (strtok start).2)
    (runs : parseLoop (interpreter host (runScripts host parse rounds)) caller fuel (strtok start).1 before shell =
      .ok (ret, shell')) :
    ∃ made, shell'.calls = shell.calls ++ made ∧ (Complete (tokens start.rest) (ownCalls caller made) ↔
      interrupted host (tokens start.rest) shell.kernel.world = false) := by
  have later : ∀ args (shell : Shell World) ret shell',
      interpreter host (runScripts host parse rounds) args shell = .ok (ret, shell') → Later shell shell' :=
    fun args shell ret shell' =>
      interpreter_later fun names shell ret shell' nonempty runs => (runScripts_later takes nonempty runs).2.1
  induction fuel generalizing start before shell with
  | zero =>
      rcases strtok_cases start with ⟨taken, none⟩ | ⟨token, rest, taken, _⟩
      · rw [taken] at runs
        simp only [parseLoop, Except.ok.injEq, Prod.mk.injEq] at runs
        exact runs.2 ▸ ⟨[], by simp, by simp [none, Complete, ownCalls, interrupted]⟩
      · rw [taken] at runs
        simp [parseLoop] at runs
  | succ fuel ih =>
      rcases strtok_cases start with ⟨taken, none⟩ | ⟨token, rest, taken, split⟩
      · rw [taken] at runs
        simp only [parseLoop, Except.ok.injEq, Prod.mk.injEq] at runs
        exact runs.2 ▸ ⟨[], by simp, by simp [none, Complete, ownCalls, interrupted]⟩
      · rw [taken, own] at runs at_
        simp only [parseLoop, bind_eq_ok] at runs
        obtain ⟨⟨value, shell₁⟩, ran, runs⟩ := runs
        rw [split]
        have here : ownCalls caller [⟨caller, ⟨caller, token⟩, value⟩] = [⟨caller, ⟨caller, token⟩, value⟩] := by
          simp [ownCalls]
        rcases interpreter_cases ran with ⟨names, starts, scripts⟩ | ⟨flat, ⟨kernel, rfl⟩, outcome⟩
        · -- scripts take the tokenizer over, so only what a script left can follow
          obtain ⟨rfl, ⟨lines, _, made, calls, callers⟩, moved⟩ := runScripts_later takes (scriptsOf_nonempty starts) scripts
          have nested : ownCalls caller made = [] :=
            ownCalls_younger fun call member => Nat.lt_of_lt_of_le old (callers call member)
          have foreign : caller < shell₁.saved.line := Nat.lt_of_lt_of_le old moved
          rw [if_neg (show ¬ (0 : Int) = -1 by decide)] at runs
          have loop := fun old foreign foreignToken => parseLoop_foreign later fuel old foreign foreignToken runs
          obtain ⟨more, callsRest, none⟩ := loop (Nat.lt_of_lt_of_le old lines) (by rw [strtok_saved]; exact foreign)
            (fun position taken => by rw [strtok_token taken]; exact foreign)
          refine ⟨made ++ [⟨caller, ⟨caller, token⟩, 0⟩] ++ more, by rw [callsRest, calls]; simp, ?_⟩
          rw [ownCalls_append, ownCalls_append, nested, here, none, List.nil_append, List.append_nil, interrupted,
            if_pos (by rw [starts]; rfl), Complete.cons (by decide)]
          cases tokens rest <;> simp [Complete]
        · -- the tokenizer stays on the own line
          have saved : shell.saved = ⟨caller, rest⟩ := at_
          have goOn (continues : value ≠ -1) : ∃ made, shell'.calls = shell.calls ++ [⟨caller, ⟨caller, token⟩, value⟩] ++ made ∧
              (Complete (tokens rest) (ownCalls caller made) ↔ interrupted host (tokens rest) kernel.world = false) := by
            rw [if_neg continues] at runs
            have next : (shell.withKernel kernel).saved = ⟨caller, rest⟩ := saved
            rw [next] at runs
            refine @ih ⟨caller, rest⟩ _ _ ?_ rfl ?_ runs
            · exact old
            · rfl
          have stop (leaves : value = -1) : ∃ made, shell'.calls = shell.calls ++ made ∧
              Complete (token :: tokens rest) (ownCalls caller made) := by
            rw [if_pos leaves] at runs
            simp only [Except.ok.injEq, Prod.mk.injEq] at runs
            obtain ⟨_, rfl⟩ := runs
            refine ⟨[⟨caller, ⟨caller, token⟩, value⟩], rfl, .inr ?_⟩
            rw [here]
            exact ⟨⟨tokens rest, rfl⟩, by rw [leaves]; rfl⟩
          have step {world : World} (continues : value ≠ -1) (same : kernel.world = world) : ∃ made, shell'.calls = shell.calls ++ made ∧
              (Complete (token :: tokens rest) (ownCalls caller made) ↔ interrupted host (tokens rest) world = false) := by
            obtain ⟨made, calls, complete⟩ := goOn continues
            refine ⟨[⟨caller, ⟨caller, token⟩, value⟩] ++ made, by rw [calls, List.append_assoc], ?_⟩
            rw [ownCalls_append, here, List.singleton_append, Complete.cons continues, complete, same]
          have notScript : ¬ (scriptsOf (words token)).isSome := by
            rw [flat]
            decide
          rw [interrupted, if_neg notScript]
          rcases outcome with ⟨leaves, rfl⟩ | ⟨stays, many, rfl, world⟩ | ⟨stays, few, result, found, rfl, world⟩
          · obtain ⟨made, calls, complete⟩ := stop rfl
            exact ⟨made, calls, by rw [if_pos leaves]; simp [complete]⟩
          · obtain ⟨made, calls, complete⟩ := step (by decide) world
            exact ⟨made, calls, by rw [complete, if_neg (by simp [stays]), if_pos many]⟩
          · rw [if_neg (by simp [stays]), if_neg (by simp [few]), found]
            by_cases leaves : result.ret = -1
            · obtain ⟨made, calls, complete⟩ := stop leaves
              exact ⟨made, calls, by simp [complete, leaves]⟩
            · obtain ⟨made, calls, complete⟩ := step leaves world
              exact ⟨made, calls, by simp [complete, leaves]⟩

theorem interpreter_quits (files : FileCommands World) {args : List CString} (leaves : quits args = true) (world : World) :
    Proc.interpreter files args world = none := by
  simp only [quits, Bool.or_eq_true, decide_eq_true_eq] at leaves
  unfold Proc.interpreter
  rcases leaves with name | name <;> rw [name] <;> rfl

theorem interpreter_refused (files : FileCommands World) {args : List CString} (many : refused args = true) (world : World) :
    Proc.interpreter files args world = none := by
  simp only [refused, Bool.and_eq_true, decide_eq_true_eq] at many
  obtain ⟨head, length⟩ := many
  obtain ⟨name, a, b, c, d, rfl⟩ : ∃ name a b c d, args = [name, a, b, c, d] := by
    match args, length with
    | [name, a, b, c, d], _ => exact ⟨name, a, b, c, d, rfl⟩
  simp only [List.map_cons, List.head?_cons, Option.some.injEq] at head
  unfold Proc.interpreter
  simp only [List.map_cons, head]
  rfl

/-- The kernel after a line that runs no script. -/
def after (result : ParseResult World) (kernel : Kernel World) : Kernel World :=
  { kernel with
    memory := result.commands.foldl (fun memory command => command.run memory) kernel.memory
    world := result.world }

/-- A segment that runs no script does what the interpreter of the single commands does. -/
theorem interpreter_flat {run : List CString → Shell World → Course (Int × Shell World)} {args : List CString}
    {result : ParseResult World} (single : scriptsOf args = none)
    (does : Proc.interpreter host.files args shell.kernel.world = some result) :
    interpreter host run args shell = .ok (result.ret, shell.withKernel (after result shell.kernel)) := by
  have stays : ¬ quits args = true := fun leaves => by simp [interpreter_quits host.files leaves] at does
  have few : ¬ refused args = true := fun many => by simp [interpreter_refused host.files many] at does
  unfold interpreter
  rw [single]
  simp only [if_neg stays, if_neg few, does]
  rfl

/-- The segments of a line without scripts, one after the other. -/
theorem parseLoop_flat {run : List CString → Shell World → Course (Int × Shell World)} {caller : Nat} (fuel : Nat)
    {start : Position} {result total : ParseResult World} (single : ∀ token ∈ tokens start.rest, scriptsOf (words token) = none)
    (rounds : (tokens start.rest).length ≤ fuel) (at_ : shell.saved = (strtok start).2)
    (same : shell.kernel.world = result.world)
    (does : parseSections (Proc.interpreter host.files) (tokens start.rest) result = some total) :
    ∃ shell' made, parseLoop (interpreter host run) caller fuel (strtok start).1 result.ret shell = .ok (total.ret, shell') ∧
      total.commands = result.commands ++ made ∧ shell'.kernel = after ⟨total.ret, made, total.world⟩ shell.kernel := by
  induction fuel generalizing start shell result with
  | zero =>
      rcases strtok_cases start with ⟨taken, none⟩ | ⟨token, rest, _, split⟩
      · rw [none, parseSections, Option.some.injEq] at does
        subst does
        exact ⟨shell, [], by simp [taken, parseLoop], by simp, by simp [after, ← same]⟩
      · simp [split] at rounds
  | succ fuel ih =>
      rcases strtok_cases start with ⟨taken, none⟩ | ⟨token, rest, taken, split⟩
      · rw [none, parseSections, Option.some.injEq] at does
        subst does
        exact ⟨shell, [], by simp [taken, parseLoop], by simp, by simp [after, ← same]⟩
      · rw [taken] at at_
        rw [split] at single rounds does
        simp only [parseSections, Option.bind_eq_bind, Option.bind_eq_some_iff] at does
        obtain ⟨next, one, does⟩ := does
        rw [← same] at one
        have first : interpreter host run (words token) shell =
            .ok (next.ret, shell.withKernel (after next shell.kernel)) :=
          interpreter_flat (single token (by simp)) one
        rw [taken]
        simp only [parseLoop, bind, Except.bind, first]
        split at does
        · next leaves =>
            rw [Option.some.injEq] at does
            subst does
            rw [if_pos leaves]
            exact ⟨_, next.commands, rfl, rfl, rfl⟩
        · next continues =>
            rw [if_neg continues]
            have saved : (shell.withKernel (after next shell.kernel)).saved = ⟨start.line, rest⟩ := at_
            have later := fun single rounds at_ same => @ih
              { shell.withKernel (after next shell.kernel) with
                saved := (strtok ⟨start.line, rest⟩).2
                calls := shell.calls ++ [⟨caller, ⟨start.line, token⟩, next.ret⟩] }
              ⟨start.line, rest⟩ _ single rounds at_ same does
            obtain ⟨shell', made, loop, commands, kernel⟩ := later (fun other member => single other (by simp [member]))
              (by simpa using rounds) rfl rfl
            refine ⟨shell', next.commands ++ made, ?_, by rw [commands, List.append_assoc], ?_⟩
            · rw [saved]
              exact loop
            · rw [kernel]
              simp [after, withKernel, List.foldl_append]

/-- A line that runs no script returns, and does what the interpreter of the single commands does. -/
theorem parseInput_flat (fuel depth : Nat) {line : CString} {result : ParseResult World}
    (unnested : ∀ token ∈ tokens line, scriptsOf (words token) = none) (rounds : (tokens line).length ≤ fuel)
    (does : Proc.parseInput host.files line shell.kernel.world = some result) : ∃ shell',
      parseInput host fuel (depth + 1) line shell = .ok (result.ret, shell') ∧ shell'.kernel = after result shell.kernel := by
  have loop := fun at_ same => @parseLoop_flat World
    { shell with saved := (strtok ⟨shell.lines, line⟩).2, lines := shell.lines + 1 } host
    (runScripts host (parseInput host fuel depth) fuel) shell.lines fuel ⟨shell.lines, line⟩ ⟨0, [], shell.kernel.world⟩ result
    unnested rounds at_ same does
  obtain ⟨shell', made, runs, commands, kernel⟩ := loop rfl rfl
  rw [List.nil_append] at commands
  subst commands
  exact ⟨shell', runs, kernel⟩

/-- `parseInput` interprets every segment of its line exactly when none but the last one runs scripts before a segment
returns -1; a line that runs no script returns. -/
theorem parseInput_complete_iff (host : Host World) (fuel depth : Nat) (ui : CString) (shell : Shell World) :
    (∀ ret shell', parseInput host fuel depth ui shell = .ok (ret, shell') →
      ∃ made, shell'.calls = shell.calls ++ made ∧ (Complete (tokens ui) (ownCalls shell.lines made) ↔
        interrupted host (tokens ui) shell.kernel.world = false)) ∧
      ((∀ token ∈ tokens ui, scriptsOf (words token) = none) → (tokens ui).length ≤ fuel → 0 < depth →
        ∀ result, Proc.parseInput host.files ui shell.kernel.world = some result →
          ∃ shell', parseInput host fuel depth ui shell = .ok (result.ret, shell')) := by
  cases depth with
  | zero => exact ⟨fun _ _ runs => by simp [parseInput] at runs, fun _ _ impossible => absurd impossible (Nat.lt_irrefl 0)⟩
  | succ depth =>
      refine ⟨fun ret shell' runs => ?_, fun unnested rounds _ result does => ?_⟩
      · have old : shell.lines < shell.lines + 1 := Nat.lt_succ_self _
        exact @parseLoop_complete _ _ _ _ _ (parseInput_takes host fuel depth) fuel _ fuel ⟨shell.lines, ui⟩ 0
          { shell with saved := (strtok ⟨shell.lines, ui⟩).2, lines := shell.lines + 1 } old rfl rfl runs
      · obtain ⟨shell', runs, _⟩ := parseInput_flat fuel depth unnested rounds does
        exact ⟨shell', runs⟩

/-- A host with the script `g`, which runs `echo a`. -/
def oneScript : Host Unit where
  files := Kernel.emptyDirectory
  filesysDone := id
  script := fun _ name => if name = command ['g'] then some (command ['e', 'c', 'h', 'o', ' ', 'a']) else none

/-- The shell before its first line, with two frames. -/
def started : Shell Unit := ⟨Kernel.kernelSetup 1 (ShellMemory.memInit 6 2) (), ⟨0, []⟩, 1, []⟩

/-- The line `echo b;run g` is interpreted to its end. -/
theorem parseInput_complete_last : ∃ ret shell' made,
    parseInput oneScript 4 2 (command ['e', 'c', 'h', 'o', ' ', 'b', ';', 'r', 'u', 'n', ' ', 'g']) started = .ok (ret, shell') ∧
      shell'.calls = started.calls ++ made ∧
      Complete (tokens (command ['e', 'c', 'h', 'o', ' ', 'b', ';', 'r', 'u', 'n', ' ', 'g'])) (ownCalls started.lines made) := by
  have returns : (parseInput oneScript 4 2 (command ['e', 'c', 'h', 'o', ' ', 'b', ';', 'r', 'u', 'n', ' ', 'g'])
      started).toOption.isSome = true := by decide +kernel
  cases ran : parseInput oneScript 4 2 (command ['e', 'c', 'h', 'o', ' ', 'b', ';', 'r', 'u', 'n', ' ', 'g']) started with
  | error stop =>
      rw [ran] at returns
      cases returns
  | ok result =>
      obtain ⟨made, calls, complete⟩ := (parseInput_complete_iff oneScript 4 2 _ _).1 _ _ ran
      exact ⟨result.1, result.2, made, rfl, calls, complete.mpr (by decide)⟩

/-- After `run g` the second segment of the line `run g;echo b` is dropped. -/
theorem parseInput_drops_segment : ¬ ∀ ret shell',
    parseInput oneScript 4 2 (command ['r', 'u', 'n', ' ', 'g', ';', 'e', 'c', 'h', 'o', ' ', 'b']) started = .ok (ret, shell') →
    Complete (tokens (command ['r', 'u', 'n', ' ', 'g', ';', 'e', 'c', 'h', 'o', ' ', 'b']))
      (ownCalls started.lines (shell'.calls.drop started.calls.length)) := by
  intro claim
  have dropped : ((parseInput oneScript 4 2 (command ['r', 'u', 'n', ' ', 'g', ';', 'e', 'c', 'h', 'o', ' ', 'b'])
      started).toOption.map fun result => decide (Complete
        (tokens (command ['r', 'u', 'n', ' ', 'g', ';', 'e', 'c', 'h', 'o', ' ', 'b']))
        (ownCalls started.lines (result.2.calls.drop started.calls.length)))) = some false := by decide +kernel
  cases ran : parseInput oneScript 4 2 (command ['r', 'u', 'n', ' ', 'g', ';', 'e', 'c', 'h', 'o', ' ', 'b']) started with
  | error stop =>
      rw [ran] at dropped
      cases dropped
  | ok result =>
      rw [ran] at dropped
      have complete := claim _ _ ran
      simp [Except.toOption, complete] at dropped

end Shell
end MockOS.Proc
