import MockOS.A2.PagedProcesses
import Mathlib.Data.List.Nodup
import Mathlib.Logic.Relation

namespace MockOS.A2

open MockOS.Proc (Fault Outcome MemoryStruct noneStr)
open ShellMemory

variable {World : Type} {used more : Nat} {parse : Parser World}

namespace Kernel

/-- `scheduler_RR` or `scheduler_FCFS`; `none` says that it was cut off before the queue was empty. -/
def scheduler (parse : Parser World) (policy : Policy) : Nat → Kernel World → Outcome (Option (Kernel World))
  | 0, _ => .ok none
  | rounds + 1, kernel =>
      if kernel.queue.isEmpty then .ok (some kernel)
      else do scheduler parse policy rounds (← turn parse policy kernel)

end Kernel

open Kernel

/-- A process that waits, and the lines of its script that are done. -/
structure Waiting where
  pcb : Pcb
  position : Nat

/-- The line slots that are still to be executed. -/
def Waiting.work (process : Waiting) : Nat := 3 * process.pcb.pagesNeeded - process.position

/-- Every process of the queue stands somewhere in its script, has handed over the lines before and will find room for its
pages; every other process has handed over all its lines. -/
structure Running (parse : Parser World) (jobs : List (Nat × List UInt8)) (kernel : Kernel World) (live : List Waiting)
    (used : Nat) : Prop where
  queue : kernel.queue = live.map Waiting.pcb
  store : FrameStore kernel.memory used
  room : 3 * (used + (live.map fun process => process.pcb.pagesLeft).sum) ≤ kernel.memory.framesize
  here : ∀ process ∈ live, process.pcb.At kernel.memory kernel.disk used process.position
  told : ∀ process ∈ live, handed process.pcb.pid kernel.trace = (texts process.pcb.script).take process.position
  known : ∀ process ∈ live, (process.pcb.pid, process.pcb.script) ∈ jobs
  pids : (live.map fun process => process.pcb.pid).Nodup
  distinct : (jobs.map Prod.fst).Nodup
  done : ∀ job ∈ jobs, (∃ process ∈ live, process.pcb.pid = job.1) ∨ handed job.1 kernel.trace = texts job.2
  quiet : .evicted ∉ kernel.trace
  harmless : ∀ job ∈ jobs, Harmless parse job.2

variable {kernel kernelAfter : Kernel World} {jobs : List (Nat × List UInt8)} {live : List Waiting} {process : Waiting}

namespace Running

theorem pid_ne (running : Running parse jobs kernel (process :: live) used) {other : Waiting} (member : other ∈ live) :
    other.pcb.pid ≠ process.pcb.pid := fun same =>
  (List.nodup_cons.mp running.pids).1 (List.mem_map.mpr ⟨other, member, same⟩)

/-- The first process has handed over its last line. -/
theorem finish (running : Running parse jobs kernel (process :: live) used)
    (advance : Advance process.pcb.pid used used kernel kernelAfter) (queue : kernelAfter.queue = live.map Waiting.pcb)
    (told : handed process.pcb.pid kernelAfter.trace = texts process.pcb.script) : Running parse jobs kernelAfter live used where
  queue := queue
  store := advance.store
  room := by
    have room := running.room
    rw [List.map_cons, List.sum_cons] at room
    rw [advance.memory.framesize]
    omega
  here := fun other member => advance.here (running.here other (List.mem_cons_of_mem _ member))
  told := fun other member => by
    rw [advance.handed_other (running.pid_ne member)]
    exact running.told other (List.mem_cons_of_mem _ member)
  known := fun other member => running.known other (List.mem_cons_of_mem _ member)
  pids := (List.nodup_cons.mp running.pids).2
  distinct := running.distinct
  done := fun job member => by
    by_cases same : job.1 = process.pcb.pid
    · have known := running.known process List.mem_cons_self
      have script : job = (process.pcb.pid, process.pcb.script) := List.inj_on_of_nodup_map running.distinct member known same
      rw [script]
      exact .inr told
    · rw [advance.handed_other same]
      refine (running.done job member).imp (fun ⟨other, inside, pid⟩ => ⟨other, ?_, pid⟩) id
      refine (List.mem_cons.mp inside).resolve_left ?_
      rintro rfl
      exact same pid.symm
  quiet := advance.quiet running.quiet
  harmless := running.harmless

/-- The first process waits again, with more of its lines done. -/
theorem requeue {next : Pcb} {reached : Nat} (running : Running parse jobs kernel (process :: live) used)
    (advance : Advance process.pcb.pid used more kernel kernelAfter) (queue : kernelAfter.queue = live.map Waiting.pcb ++ [next])
    (here : next.At kernelAfter.memory kernelAfter.disk more reached) (pid : next.pid = process.pcb.pid)
    (script : next.script = process.pcb.script) (pages : more + next.pagesLeft = used + process.pcb.pagesLeft)
    (told : handed process.pcb.pid kernelAfter.trace = (texts process.pcb.script).take reached) :
    Running parse jobs kernelAfter (live ++ [⟨next, reached⟩]) more where
  queue := by rw [queue, List.map_append, List.map_singleton]
  store := advance.store
  room := by
    have room := running.room
    rw [List.map_cons, List.sum_cons] at room
    rw [advance.memory.framesize, List.map_append, List.sum_append, List.map_singleton, List.sum_singleton]
    dsimp only
    omega
  here := fun other member => by
    rcases List.mem_append.mp member with member | last
    · exact advance.here (running.here other (List.mem_cons_of_mem _ member))
    · rw [List.mem_singleton.mp last]
      exact here
  told := fun other member => by
    rcases List.mem_append.mp member with member | last
    · rw [advance.handed_other (running.pid_ne member)]
      exact running.told other (List.mem_cons_of_mem _ member)
    · rw [List.mem_singleton.mp last, pid, script]
      exact told
  known := fun other member => by
    rcases List.mem_append.mp member with member | last
    · exact running.known other (List.mem_cons_of_mem _ member)
    · rw [List.mem_singleton.mp last, pid, script]
      exact running.known process List.mem_cons_self
  pids := by
    have pids := running.pids
    rw [List.map_cons, List.nodup_cons] at pids
    rw [List.map_append, List.map_singleton, pid]
    exact (List.perm_append_singleton _ _).nodup_iff.mpr (List.nodup_cons.mpr pids)
  distinct := running.distinct
  done := fun job member => by
    by_cases same : job.1 = process.pcb.pid
    · exact .inl ⟨_, List.mem_append_right _ (List.mem_singleton_self _), pid.trans same.symm⟩
    · rw [advance.handed_other same]
      refine (running.done job member).imp (fun ⟨other, inside, owner⟩ => ⟨other, List.mem_append_left _ ?_, owner⟩) id
      refine (List.mem_cons.mp inside).resolve_left ?_
      rintro rfl
      exact same owner.symm
  quiet := advance.quiet running.quiet
  harmless := running.harmless

end Running

/-- The pages that the waiting processes have and will have. -/
def pagesOf (live : List Waiting) (used : Nat) : Nat := used + (live.map fun process => process.pcb.pagesLeft).sum

/-- What the processes of these jobs leave as it is. -/
structure Onward (jobs : List (Nat × List UInt8)) (kernel kernelAfter : Kernel World) : Prop where
  framesize : kernelAfter.memory.framesize = kernel.memory.framesize
  disk : kernelAfter.disk = kernel.disk
  policy : kernelAfter.policy = kernel.policy
  pidCounter : kernelAfter.pidCounter = kernel.pidCounter
  others : ∀ pid, (∀ job ∈ jobs, job.1 ≠ pid) → handed pid kernelAfter.trace = handed pid kernel.trace

namespace Onward

theorem refl (jobs : List (Nat × List UInt8)) (kernel : Kernel World) : Onward jobs kernel kernel :=
  ⟨rfl, rfl, rfl, rfl, fun _ _ => rfl⟩

theorem trans {final : Kernel World} (first : Onward jobs kernel kernelAfter) (later : Onward jobs kernelAfter final) :
    Onward jobs kernel final :=
  ⟨later.framesize.trans first.framesize, later.disk.trans first.disk, later.policy.trans first.policy,
    later.pidCounter.trans first.pidCounter, fun pid other => (later.others pid other).trans (first.others pid other)⟩

theorem of_advance {job : Nat × List UInt8} (advance : Advance job.1 used more kernel kernelAfter) (member : job ∈ jobs) :
    Onward jobs kernel kernelAfter :=
  ⟨advance.memory.framesize, advance.disk, advance.policy, advance.pidCounter,
    fun _ other => advance.handed_other (other job member).symm⟩

end Onward

/-- One round of a scheduler gets the lines of one process on. -/
theorem turn_runs (policy : Policy) (running : Running parse jobs kernel (process :: live) used) :
    ∃ kernelAfter liveAfter more, turn parse policy kernel = .ok kernelAfter ∧
      Running parse jobs kernelAfter liveAfter more ∧ Onward jobs kernel kernelAfter ∧
      pagesOf liveAfter more ≤ pagesOf (process :: live) used ∧ (liveAfter = [] → kernelAfter.inBackground = false) ∧
      (liveAfter.map Waiting.work).sum < ((process :: live).map Waiting.work).sum := by
  have known := running.known process List.mem_cons_self
  have here := running.here process List.mem_cons_self
  have room := running.room
  rw [List.map_cons, List.sum_cons] at room
  have inside := here.inside
  have quanta : 0 < Policy.quanta policy ∧ (policy = .fcfs → 150 ≤ Policy.quanta policy) := by
    cases policy <;> simp [Policy.quanta]
  obtain ⟨left, executed, more, runs, advance, yields⟩ :=
    executeProcess_runs { kernel with queue := live.map Waiting.pcb } (Policy.quanta policy) here (running.harmless _ known)
      running.store (by change 3 * (used + process.pcb.pagesLeft) ≤ kernel.memory.framesize; omega)
      (running.told process List.mem_cons_self)
  have advanced : Advance process.pcb.pid used more kernel executed :=
    ⟨advance.memory, advance.store, advance.grows, advance.disk, advance.policy, advance.pidCounter, advance.trace⟩
  have front : kernel.queue = process.pcb :: live.map Waiting.pcb := running.queue
  rw [turn, front]
  dsimp only
  rw [runs]
  have worked : 0 < process.work := by rw [Waiting.work]; omega
  rcases yields with ⟨rfl, rfl, queue, told, ended⟩ | ⟨next, reached, hereAfter, pid, script, pages, told, far, ends⟩
  · refine ⟨executed, live, more, ?_, running.finish advanced queue told, .of_advance advanced known, ?_, fun _ => ended, ?_⟩
    · cases policy <;> rfl
    · rw [pagesOf, pagesOf, List.map_cons, List.sum_cons]
      omega
    · rw [List.map_cons, List.sum_cons]
      omega
  · have same : next.pagesNeeded = process.pcb.pagesNeeded := by
      rw [hereAfter.needed, here.needed, script]
    have worksOn : Waiting.work ⟨next, reached⟩ < process.work := by
      change 3 * next.pagesNeeded - reached < 3 * process.pcb.pagesNeeded - process.position
      omega
    have less : ((live ++ [(⟨next, reached⟩ : Waiting)]).map Waiting.work).sum <
        ((process :: live).map Waiting.work).sum := by
      rw [List.map_append, List.sum_append, List.map_singleton, List.sum_singleton, List.map_cons, List.sum_cons, Nat.add_comm]
      exact Nat.add_lt_add_right worksOn _
    have total : pagesOf (live ++ [(⟨next, reached⟩ : Waiting)]) more ≤ pagesOf (process :: live) used := by
      rw [pagesOf, pagesOf, List.map_append, List.sum_append, List.map_singleton, List.sum_singleton, List.map_cons, List.sum_cons]
      dsimp only
      omega
    have waits : live ++ [(⟨next, reached⟩ : Waiting)] = [] → False := List.append_ne_nil_of_right_ne_nil _ (List.cons_ne_nil _ _)
    rcases ends with ⟨rfl, rfl, queue⟩ | ⟨rfl, queue⟩
    · cases policy with
      | fcfs =>
          -- the quantum is longer than any script
          have short := hereAfter.inside
          have few := hereAfter.needed_lt
          have long := quanta.2 rfl
          omega
      | rr =>
          have requeued : Advance process.pcb.pid used more kernel { executed with queue := executed.queue ++ [next] } :=
            ⟨advance.memory, advance.store, advance.grows, advance.disk, advance.policy, advance.pidCounter, advance.trace⟩
          exact ⟨_, _, more, rfl, running.requeue requeued (by rw [queue]) hereAfter pid script pages told, .of_advance requeued known, total,
            fun empty => (waits empty).elim, less⟩
    · exact ⟨executed, _, more, by cases policy <;> rfl, running.requeue advanced queue hereAfter pid script pages told,
        .of_advance advanced known, total, fun empty => (waits empty).elim, less⟩

/-- A scheduler stops when every process has handed over all its lines. -/
theorem scheduler_runs (policy : Policy) (running : Running parse jobs kernel live used) (idle : live = [] → kernel.inBackground = false) :
    ∃ bound final more, (∀ rounds, bound ≤ rounds → scheduler parse policy rounds kernel = .ok (some final)) ∧
      Running parse jobs final [] more ∧ Onward jobs kernel final ∧ more ≤ pagesOf live used ∧ final.inBackground = false ∧
      (kernel.policy = some policy → Relation.ReflTransGen (Step parse) kernel final) := by
  induction work : (live.map Waiting.work).sum using Nat.strongRecOn generalizing kernel live used with
  | ind work ih =>
      cases live with
      | nil =>
          have empty : kernel.queue = [] := running.queue
          refine ⟨1, kernel, used, fun rounds enough => ?_, running, .refl jobs kernel, Nat.le_add_right _ _, idle rfl, fun _ => .refl⟩
          obtain ⟨rounds, rfl⟩ := Nat.exists_eq_add_of_le enough
          rw [Nat.add_comm, scheduler, empty, if_pos List.isEmpty_nil]
      | cons process live =>
          obtain ⟨kernelAfter, liveAfter, more, turns, runningAfter, onward, fewer, ended, less⟩ := turn_runs policy running
          obtain ⟨bound, final, last, runs, stays, onwardRest, fewest, stopped, steps⟩ := ih _ (work ▸ less) runningAfter ended rfl
          have front : kernel.queue ≠ [] := by simp [running.queue]
          refine ⟨bound + 1, final, last, fun rounds enough => ?_, stays, onward.trans onwardRest, fewest.trans fewer, stopped,
            fun scheduled => .head (.turn policy scheduled front kernelAfter turns) (steps (onward.policy.trans scheduled))⟩
          obtain ⟨rounds, rfl⟩ : ∃ more, rounds = more + 1 := ⟨rounds - 1, by omega⟩
          rw [scheduler, List.isEmpty_eq_false_iff.mpr front, if_neg Bool.false_ne_true, turns]
          exact runs rounds (Nat.le_of_succ_le_succ enough)

end MockOS.A2
