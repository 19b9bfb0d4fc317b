import MockOS.A2.ScriptSessions

namespace MockOS.A2

open MockOS.Proc (Fault Outcome MemoryStruct noneStr)
open ShellMemory Kernel

variable {World : Type} {used : Nat} {parse : Parser World} {disk : CString → Option (List UInt8)} {kernel : Kernel World}
  {jobs : List (Nat × List UInt8)} {live : List Waiting} {command : Command} {scripts : List (List UInt8)}

namespace Kernel

/-- The commands of a session, each with the rest of the shell before it and with the scheduler that it starts; `none` says
that a scheduler was cut off. -/
def session (parse : Parser World) (rounds : Nat) : List (World × Command) → Kernel World → Outcome (Option (Kernel World))
  | [], kernel => .ok (some kernel)
  | (world, command) :: rest, kernel => do
      let kernel ← runCommand { kernel with world := world } command
      match kernel.policy with
      | none => session parse rounds rest kernel
      | some policy =>
          match ← scheduler parse policy rounds kernel with
          | none => .ok none
          | some kernel => session parse rounds rest { kernel with policy := none }

end Kernel

/-- A command of a session, with the scripts that it starts. -/
inductive Loads (parse : Parser World) (disk : CString → Option (List UInt8)) : Command → List (List UInt8) → Prop where
  | set (var value : CString) : Loads parse disk (.set var value) []
  | resetmem : Loads parse disk .resetmem []
  | run {name : CString} {script : List UInt8} (named : strdup name ≠ noneStr) (held : Script parse disk name script) :
      Loads parse disk (.run name) [script]
  | exec {names : List CString} {scripts : List (List UInt8)}
      (loads : List.Forall₂ (fun name script => Script parse disk name script ∧ Copied name script) names scripts) :
      Loads parse disk (.exec names) scripts

namespace Settled

theorem elsewhere {kernelAfter : Kernel World} (settled : Settled parse disk jobs kernel live used)
    (same : kernelAfter = { kernel with policy := kernelAfter.policy, world := kernelAfter.world }) :
    Settled parse disk jobs kernelAfter live used := by
  rw [same]
  exact ⟨settled.running.elsewhere rfl rfl rfl fun _ _ held => held, settled.numbers, settled.untold, settled.files,
    settled.mirrored, settled.front⟩

/-- The variables are no frames. -/
theorem variablesChanged {memory : ShellMemory} (settled : Settled parse disk jobs kernel [] used) (same : SameFrames kernel.memory memory) :
    Settled parse disk jobs { kernel with memory := memory } [] used := by
  refine ⟨⟨settled.running.queue, settled.running.store.sameFrames same, ?_, fun _ none => absurd none List.not_mem_nil,
    fun _ none => absurd none List.not_mem_nil, fun _ none => absurd none List.not_mem_nil, List.nodup_nil, settled.running.distinct,
    settled.running.done, settled.running.quiet, settled.running.harmless⟩, settled.numbers, settled.untold, settled.files,
    settled.mirrored, settled.front⟩
  change _ ≤ memory.framesize
  rw [same.framesize]
  exact settled.running.room

/-- A command starts its scripts, and a scheduler if there are any. -/
theorem runCommand (settled : Settled parse disk jobs kernel [] used) (loads : Loads parse disk command scripts)
    (room : 3 * (used + pageTotal scripts) ≤ kernel.memory.framesize) :
    ∃ kernelAfter liveAfter more, Kernel.runCommand kernel command = .ok kernelAfter ∧
      Settled parse disk (jobs ++ numbered kernel.pidCounter scripts) kernelAfter liveAfter more ∧
      pagesOf liveAfter more = used + pageTotal scripts ∧ kernelAfter.pidCounter = kernel.pidCounter + scripts.length ∧
      kernelAfter.memory.framesize = kernel.memory.framesize ∧ (kernelAfter.policy = none → liveAfter = []) := by
  cases loads with
  | set var value =>
      have same := memSetValue_sameFrames kernel.memory var value
      exact ⟨_, [], used, rfl, (List.append_nil jobs).symm ▸ settled.variablesChanged same, rfl, rfl, same.framesize, fun _ => rfl⟩
  | resetmem =>
      have same := resetvarmem_sameFrames kernel.memory
      exact ⟨_, [], used, rfl, (List.append_nil jobs).symm ▸ settled.variablesChanged same, rfl, rfl, same.framesize, fun _ => rfl⟩
  | @run name script named held =>
      obtain ⟨kernelAfter, liveAfter, more, starts, ends, pages, counter, _, framesize⟩ :=
        settled.start held.small held.harmless (settled.files _ _ held.found) named room
      refine ⟨{ kernelAfter with policy := some .fcfs }, liveAfter, more, ?_, ends.elsewhere rfl, pages, counter, framesize,
        fun none => absurd none (Option.some_ne_none _)⟩
      rw [Kernel.runCommand, starts]
      change Except.ok (kernelAfter.scheduleByPolicy .fcfs) = _
      rw [scheduleByPolicy, ends.front, if_neg Bool.false_ne_true]
  | @exec names scripts loads =>
      obtain ⟨kernelAfter, liveAfter, more, runs, ends, pages, counter, _, framesize⟩ := settled.execLoad loads room
      refine ⟨{ kernelAfter with policy := some .rr }, liveAfter, more, ?_, ends.elsewhere rfl, pages, counter, framesize,
        fun none => absurd none (Option.some_ne_none _)⟩
      rw [Kernel.runCommand, Kernel.exec, runs]
      simp only [bind, Except.bind, ne_eq, not_true_eq_false, if_false, scheduleByPolicy, ends.front, Bool.false_eq_true]

/-- The scheduler that a command started ends with all scripts executed. -/
theorem scheduled {policy : Policy} (settled : Settled parse disk jobs kernel live used) (running : kernel.policy = some policy) :
    ∃ bound final more, (∀ rounds, bound ≤ rounds → scheduler parse policy rounds kernel = .ok (some final)) ∧
      Settled parse disk jobs final [] more ∧ more ≤ pagesOf live used ∧ final.pidCounter = kernel.pidCounter ∧
      final.memory.framesize = kernel.memory.framesize ∧
      Relation.ReflTransGen (Step parse) kernel { final with policy := none } := by
  obtain ⟨bound, final, more, runs, ends, onward, pages, front, steps⟩ := scheduler_runs policy settled.running fun _ => settled.front
  have ended : Step parse final { final with policy := none } := .finish policy (onward.policy.trans running) ends.queue
  refine ⟨bound, final, more, runs, ⟨ends, ?_, fun pid other => ?_, ?_, ?_, front⟩, pages, onward.pidCounter, onward.framesize,
    (steps running).tail ended⟩
  · rw [onward.pidCounter]
    exact settled.numbers
  · rw [onward.others pid other]
    exact settled.untold pid other
  · rw [onward.disk]
    exact settled.files
  · rw [onward.disk]
    exact settled.mirrored

end Settled

theorem pageTotal_append (first later : List (List UInt8)) : pageTotal (first ++ later) = pageTotal first + pageTotal later := by
  rw [pageTotal, List.map_append, List.sum_append, pageTotal, pageTotal]

/-- Every command of a session is executed with all the scripts that it starts. -/
theorem session_runs {commands : List (World × Command)} {batches : List (List (List UInt8))}
    (settled : Settled parse disk jobs kernel [] used) (idle : kernel.policy = none)
    (loads : List.Forall₂ (fun command scripts => Loads parse disk command.2 scripts) commands batches)
    (room : 3 * (used + pageTotal batches.flatten) ≤ kernel.memory.framesize) :
    ∃ bound final more, (∀ rounds, bound ≤ rounds → session parse rounds commands kernel = .ok (some final)) ∧
      Relation.ReflTransGen (Step parse) kernel final ∧
      Settled parse disk (jobs ++ numbered kernel.pidCounter batches.flatten) final [] more := by
  induction loads generalizing kernel jobs used with
  | nil => exact ⟨0, kernel, used, fun _ _ => rfl, .refl, (List.append_nil jobs).symm ▸ settled⟩
  | @cons command scripts commands batches first rest ih =>
      rw [List.flatten_cons, pageTotal_append] at room
      have entered : Settled parse disk jobs { kernel with world := command.1 } [] used := settled.elsewhere rfl
      obtain ⟨started, live, middle, runs, ready, pages, counter, framesize, quiet⟩ :=
        entered.runCommand first (by change _ ≤ kernel.memory.framesize; omega)
      have step : Step parse kernel started := .command idle command.1 command.2 started runs
      rw [List.flatten_cons, numbered_append, ← List.append_assoc]
      cases scheduling : started.policy with
      | none =>
          have empty := quiet scheduling
          subst empty
          have same : middle = used + pageTotal scripts := pages
          obtain ⟨bound, final, more, rests, steps, ends⟩ :=
            ih ready scheduling (by rw [framesize, same]; change _ ≤ kernel.memory.framesize; omega)
          refine ⟨bound, final, more, fun rounds enough => ?_, .head step steps, by rw [← counter]; exact ends⟩
          rw [session, runs]
          simp only [bind, Except.bind, scheduling]
          exact rests rounds enough
      | some policy =>
          obtain ⟨boundFirst, scheduled, left, schedules, settledAfter, fewer, counterAfter, framesizeAfter, stepsFirst⟩ :=
            ready.scheduled scheduling
          have stopped : Settled parse disk (jobs ++ numbered kernel.pidCounter scripts) { scheduled with policy := none } [] left :=
            settledAfter.elsewhere rfl
          obtain ⟨bound, final, more, rests, steps, ends⟩ := ih stopped rfl
            (by change _ ≤ scheduled.memory.framesize; rw [framesizeAfter, framesize]; change _ ≤ kernel.memory.framesize; omega)
          refine ⟨max boundFirst bound, final, more, fun rounds enough => ?_, .head step (stepsFirst.trans steps),
            by rw [← counter, ← counterAfter]; exact ends⟩
          rw [session, runs]
          simp only [bind, Except.bind, scheduling, schedules rounds (Nat.le_trans (Nat.le_max_left _ _) enough)]
          exact rests rounds (Nat.le_trans (Nat.le_max_right _ _) enough)

theorem mem_numbered {pid i : Nat} {script : List UInt8} (found : scripts[i]? = some script) :
    (pid + i, script) ∈ numbered pid scripts := by
  exact List.mem_map.mpr ⟨(script, pid + i), List.mk_add_mem_zipIdx_iff_getElem?.mpr found, rfl⟩

theorem range_of_mem_numbered {pid : Nat} {job : Nat × List UInt8} (member : job ∈ numbered pid scripts) :
    pid ≤ job.1 ∧ job.1 < pid + scripts.length := by
  obtain ⟨entry, inside, rfl⟩ := List.mem_map.mp member
  exact ⟨List.le_snd_of_mem_zipIdx inside, List.snd_lt_add_of_mem_zipIdx inside⟩

/-- When the frames suffice for all pages of a session, every script is executed line by line, however the schedulers take
turns: no page is thrown out, no scheduler runs on for ever, and no line is lost, repeated or made up. -/
theorem session_executes_scripts (parse : Parser World) (varmemsize framesize : Nat) (disk : CString → Option (List UInt8))
    (world : World) (commands : List (World × Command)) (batches : List (List (List UInt8)))
    (emptied : ∀ name, disk (backingStore ++ name) = none)
    (loads : List.Forall₂ (fun command scripts => Loads parse disk command.2 scripts) commands batches)
    (room : 3 * pageTotal batches.flatten ≤ framesize) :
    ∃ bound final, (∀ rounds, bound ≤ rounds → session parse rounds commands (booted varmemsize framesize disk world) = .ok (some final)) ∧
      Relation.ReflTransGen (Step parse) (booted varmemsize framesize disk world) final ∧ final.queue = [] ∧ .evicted ∉ final.trace ∧
      handed 0 final.trace = [] ∧
      ∀ i, handed (i + 1) final.trace = (batches.flatten[i]?.map texts).getD [] := by
  have start : Settled parse disk [] (booted varmemsize framesize disk world) [] 0 := by
    refine ⟨⟨rfl, ⟨fun frame inside => absurd inside (Nat.not_lt_zero _), fun _ _ _ => rfl, Nat.zero_le _⟩, Nat.zero_le _,
      fun _ none => absurd none List.not_mem_nil, fun _ none => absurd none List.not_mem_nil,
      fun _ none => absurd none List.not_mem_nil, List.nodup_nil, List.nodup_nil, fun _ none => absurd none List.not_mem_nil,
      List.not_mem_nil, fun _ none => absurd none List.not_mem_nil⟩, fun _ none => absurd none List.not_mem_nil, fun _ _ => rfl,
      fun _ _ held => held, fun name copy held => ?_, rfl⟩
    exact absurd ((emptied name).symm.trans held) (Option.some_ne_none _).symm
  obtain ⟨bound, final, more, runs, steps, ends⟩ := session_runs start rfl loads
    (by change _ ≤ framesize; rw [Nat.zero_add]; exact room)
  rw [List.nil_append] at ends
  have finished : ∀ job ∈ numbered 1 batches.flatten, handed job.1 final.trace = texts job.2 := fun job member =>
    (ends.running.done job member).resolve_left fun ⟨process, inside, _⟩ => List.not_mem_nil inside
  refine ⟨bound, final, runs, steps, ends.running.queue, ends.running.quiet, ends.untold 0 fun job member => ?_, fun i => ?_⟩
  · exact Nat.ne_of_gt (range_of_mem_numbered member).1
  · cases found : batches.flatten[i]? with
    | some script =>
        have member := @mem_numbered batches.flatten 1 i script found
        rw [Nat.add_comm]
        exact finished _ member
    | none =>
        refine ends.untold (i + 1) fun job member => ?_
        have below : job.1 < 1 + batches.flatten.length := (range_of_mem_numbered member).2
        have behind := List.getElem?_eq_none_iff.mp found
        omega

/-- Two copies of a script of two pages take turns, and a third one follows; every line sets a variable. -/
theorem session_executes_scripts_small : ∃ bound final,
    (∀ rounds, bound ≤ rounds → session (fun line _ world => ([.set line line], world)) rounds
      [((), .exec [.ofChars ['s'], .ofChars ['s']]), ((), .run (.ofChars ['s']))] (booted 2 18 (oneScript fourLines) ()) =
        .ok (some final)) ∧
      final.queue = [] ∧ .evicted ∉ final.trace ∧ ∀ i < 3, handed (i + 1) final.trace = texts fourLines := by
  have lines : fetched fourLines = [[97, 10], [98, 10], [99, 10], [100]] := by
    simp [fetched, fourLines, CString.ofChars, Proc.readLine]
  have script : Script (fun line _ (world : Unit) => ([.set line line], world)) (oneScript fourLines) (.ofChars ['s']) fourLines := by
    refine ⟨⟨by decide, by rw [lines]; decide, fun _ => by rw [lines]; decide⟩, ⟨by rw [texts, lines]; decide, ?_⟩, rfl⟩
    exact fun line _ _ _ command member => .inl ⟨line, line, List.mem_singleton.mp member⟩
  have copied : Copied (.ofChars ['s']) fourLines := ⟨by decide, by decide⟩
  obtain ⟨bound, final, runs, _, queue, quiet, _, told⟩ :=
    session_executes_scripts (fun line _ world => ([.set line line], world)) 2 18 (oneScript fourLines) ()
      [((), .exec [.ofChars ['s'], .ofChars ['s']]), ((), .run (.ofChars ['s']))] [[fourLines, fourLines], [fourLines]]
      (oneScript_emptied _) (.cons (.exec (.cons ⟨script, copied⟩ (.cons ⟨script, copied⟩ .nil)))
        (.cons (.run (by decide) script) .nil)) (by decide)
  refine ⟨bound, final, runs, queue, quiet, fun i small => ?_⟩
  rw [told i]
  obtain rfl | rfl | rfl : i = 0 ∨ i = 1 ∨ i = 2 := by omega
  all_goals rfl

end MockOS.A2
