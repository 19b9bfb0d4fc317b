import MockOS.Proc.PagingRefinement

namespace MockOS.Proc.Kernel

variable {World : Type} {jobs : Jobs} {paging : Paging} {kernel : Kernel World} {pid : Nat}
  {parseInput : Interpreter World}

/-- The loader finds a line for each one that was counted, and no line makes `parseInput` return 1. -/
structure Runs (jobs : Jobs) (parseInput : Interpreter World) : Prop where
  admissible : jobs.work.Admissible
  enough : ∀ pid ∈ jobs.pids, jobs.count pid ≤ (jobs.lines pid).length
  other : ∀ pid ∈ jobs.pids, ∀ line ∈ jobs.lines pid, ∀ world, (parseInput (strdup line) world).ret ≠ 1

theorem Represents.run_valid (represents : Represents jobs paging kernel) (runs : Runs jobs parseInput)
    {rest : List Nat} {steps : Nat} (turning : Paging.Turning jobs.work pid rest steps paging)
    (left : paging.done pid < jobs.count pid) (inside : paging.done pid < 3 * paging.loaded pid) :
    ∃ kernel', runLine parseInput pid kernel = .ok (0, kernel') ∧ Represents jobs (paging.execute pid) kernel' ∧
      ∀ start, Intact parseInput start jobs paging kernel → Intact parseInput start jobs (paging.execute pid) kernel' := by
  have known := turning.consistent.readyKnown pid (by simp)
  exact represents.execute known (runs.enough pid known) left (turning.present left inside) (runs.other pid known)

theorem Represents.run_fault (represents : Represents jobs paging kernel) (runs : Runs jobs parseInput)
    {rest : List Nat} {steps : Nat} (turning : Paging.Turning jobs.work pid rest steps paging)
    (left : paging.done pid < jobs.count pid) (outside : 3 * paging.loaded pid ≤ paging.done pid) :
    ∃ kernel', runLine parseInput pid kernel = .ok (1, kernel') ∧
      Represents jobs (paging.fault jobs.work pid) kernel' ∧
      ∀ start, Intact parseInput start jobs paging kernel →
        Intact parseInput start jobs (paging.fault jobs.work pid) kernel' :=
  represents.fault turning.consistent runs.admissible (turning.consistent.readyKnown pid (by simp)) left outside

/-- Each turn of the loop is a turn of the model; what holds after it is shown line by line: `Mid` while the process runs,
`End` when it gives the processor back. -/
theorem Represents.turn_induction (Mid End : Paging → Kernel World → Prop) (represents : Represents jobs paging kernel)
    (runs : Runs jobs parseInput) (settled : Paging.Settled jobs.work paging) (running : kernel.queueDone = false)
    (enter : ∀ rest, Mid (paging.withQueue rest) { kernel with queue := rest })
    (execute : ∀ {pid rest steps paging kernel kernel'}, Represents jobs paging kernel →
      Paging.Turning jobs.work pid rest steps paging → paging.done pid < jobs.count pid →
      paging.done pid < 3 * paging.loaded pid → runLine parseInput pid kernel = .ok (0, kernel') →
      Represents jobs (paging.execute pid) kernel' → Mid paging kernel → Mid (paging.execute pid) kernel')
    (fault : ∀ {pid rest steps paging kernel kernel'}, Represents jobs paging kernel →
      Paging.Turning jobs.work pid rest steps paging → paging.done pid < jobs.count pid →
      3 * paging.loaded pid ≤ paging.done pid → runLine parseInput pid kernel = .ok (1, kernel') →
      Mid paging kernel → End (paging.fault jobs.work pid) kernel')
    (leave : ∀ {paging kernel} queue other, Mid paging kernel → End (paging.withQueue queue) { kernel with queue := other }) :
    ∃ kernel' paging', rrTurn parseInput kernel = .ok kernel' ∧ Paging.Turn jobs.work paging paging' ∧
      Represents jobs paging' kernel' ∧ End paging' kernel' := by
  cases front : paging.queue with
  | nil => simp [queueDone, represents.queue, front] at running
  | cons pid rest =>
      have known := settled.consistent.readyKnown pid (by simp [front])
      have frontKernel : kernel.queue = pid :: rest := represents.queue.trans front
      have start := represents.withQueue rest
      obtain ⟨pcb, found, state⟩ := start.pcbs pid known
      have size : pcb.size = (jobs.count pid : Int) - paging.done pid := state.size
      by_cases more : paging.done pid + 1 < jobs.count pid
      · have large : pcb.size > 1 := by omega
        have left : paging.done pid < jobs.count pid := by omega
        have turning := settled.start runs.admissible front left
        by_cases inside : paging.done pid < 3 * paging.loaded pid
        · obtain ⟨kernel₁, ran, first, _⟩ := start.run_valid runs turning left inside
          have mid := execute start turning left inside ran first (enter rest)
          have turning₁ := turning.execute left inside
          have left₁ : ((paging.withQueue rest).execute pid).done pid < jobs.count pid := by simpa using more
          by_cases again : paging.done pid + 1 < 3 * paging.loaded pid
          · obtain ⟨kernel₂, ranAgain, second, _⟩ := first.run_valid runs turning₁ left₁ (by simpa using again)
            have queue : kernel₂.queue = rest := second.queue
            refine ⟨{ kernel₂ with queue := kernel₂.queue ++ [pid] }, _, ?_, .second pid rest front more again, ?_,
              leave _ _ (execute first turning₁ left₁ (by simpa using again) ranAgain second mid)⟩
            · simp only [rrTurn, frontKernel, pcb_eq found, bind, Except.bind, if_pos large, ran, ranAgain]
              rfl
            · rw [queue]
              exact second.withQueue _
          · have outside : 3 * ((paging.withQueue rest).execute pid).loaded pid ≤ ((paging.withQueue rest).execute pid).done pid := by
              simpa using Nat.le_of_not_lt again
            obtain ⟨kernel₂, ranAgain, second, _⟩ := first.run_fault runs turning₁ left₁ outside
            refine ⟨kernel₂, _, ?_, .secondFault pid rest front more inside (by omega), second,
              fault first turning₁ left₁ outside ranAgain mid⟩
            simp only [rrTurn, frontKernel, pcb_eq found, bind, Except.bind, if_pos large, ran, ranAgain]
            rfl
        · obtain ⟨kernel₁, ran, first, _⟩ := start.run_fault runs turning left (Nat.le_of_not_lt inside)
          refine ⟨kernel₁, _, ?_, .fault pid rest front left (by omega), first,
            fault start turning left (Nat.le_of_not_lt inside) ran (enter rest)⟩
          simp only [rrTurn, frontKernel, pcb_eq found, bind, Except.bind, if_pos large, ran]
          rfl
      · have small : ¬ pcb.size > 1 := by omega
        by_cases one : paging.done pid + 1 = jobs.count pid
        · have single : pcb.size = 1 := by omega
          have left : paging.done pid < jobs.count pid := by omega
          have turning := settled.start runs.admissible front left
          by_cases inside : paging.done pid < 3 * paging.loaded pid
          · obtain ⟨kernel₁, ran, first, _⟩ := start.run_valid runs turning left inside
            refine ⟨kernel₁, _, ?_, .last pid rest front one inside, first, ?_⟩
            · simp only [rrTurn, frontKernel, pcb_eq found, bind, Except.bind, if_neg small, if_pos single, ran]
            · exact leave rest kernel₁.queue (execute start turning left inside ran first (enter rest))
          · obtain ⟨kernel₁, ran, first, _⟩ := start.run_fault runs turning left (Nat.le_of_not_lt inside)
            refine ⟨kernel₁, _, ?_, .fault pid rest front left (by omega), first,
              fault start turning left (Nat.le_of_not_lt inside) ran (enter rest)⟩
            simp only [rrTurn, frontKernel, pcb_eq found, bind, Except.bind, if_neg small, if_pos single, ran]
        · have ended : ¬ pcb.size = 1 := by omega
          have left := leave rest rest (enter rest)
          refine ⟨{ kernel with queue := rest }, _, ?_, .leave pid rest front (show jobs.count pid ≤ _ by omega), start, left⟩
          simp only [rrTurn, frontKernel, pcb_eq found, bind, Except.bind, if_neg small, if_neg ended]

theorem Represents.turn (represents : Represents jobs paging kernel) (runs : Runs jobs parseInput)
    (settled : Paging.Settled jobs.work paging) (running : kernel.queueDone = false) :
    ∃ kernel' paging', rrTurn parseInput kernel = .ok kernel' ∧ Paging.Turn jobs.work paging paging' ∧
      Represents jobs paging' kernel' ∧
      ∀ start, Intact parseInput start jobs paging kernel → Intact parseInput start jobs paging' kernel' := by
  let keeps := fun (paging' : Paging) (kernel' : Kernel World) =>
    ∀ start, Intact parseInput start jobs paging kernel → Intact parseInput start jobs paging' kernel'
  refine represents.turn_induction keeps keeps runs settled running
    (fun rest start intact => intact.withQueue rest rest) ?_ ?_ (fun queue other mid start intact => (mid start intact).withQueue queue other)
  · intro pid rest steps paging kernel kernel' represents turning left inside ran _ mid start intact
    obtain ⟨same, runsTo, _, keeps⟩ := represents.run_valid runs turning left inside
    obtain rfl : same = kernel' := by simpa [runsTo] using ran
    exact keeps start (mid start intact)
  · intro pid rest steps paging kernel kernel' represents turning left outside ran mid start intact
    obtain ⟨same, runsTo, _, keeps⟩ := represents.run_fault runs turning left outside
    obtain rfl : same = kernel' := by simpa [runsTo] using ran
    exact keeps start (mid start intact)

/-- The loop ends, and then every process has run all its lines. -/
theorem Represents.rrLoop (represents : Represents jobs paging kernel) (runs : Runs jobs parseInput)
    (settled : Paging.Settled jobs.work paging) :
    ∃ fuel final paging', rrLoop parseInput fuel kernel = .ok (some final) ∧ Represents jobs paging' final ∧
      Paging.Settled jobs.work paging' ∧ ∀ pid ∈ jobs.pids, paging'.done pid = jobs.count pid := by
  obtain ⟨fuel, final, paging', ends, ⟨finalRepresents, finalSettled⟩, finished⟩ :=
    Lib.loop_terminates queueDone (rrTurn parseInput)
      (fun (paging : Paging) kernel => Represents jobs paging kernel ∧ Paging.Settled jobs.work paging)
      (fun paging => Paging.remainingWork jobs.work paging paging.queue)
      (by
        intro paging kernel ⟨represents, settled⟩ running
        obtain ⟨next, nextPaging, steps, turn, nextRepresents, _⟩ := represents.turn runs settled running
        exact ⟨next, nextPaging, steps, ⟨nextRepresents, settled.turn runs.admissible turn⟩, settled.turn_decreases turn⟩)
      paging kernel ⟨represents, settled⟩
  refine ⟨fuel, final, paging', ends, finalRepresents, finalSettled, fun pid known => ?_⟩
  by_cases queued : pid ∈ paging'.queue
  · obtain ⟨pcb, found, state⟩ := finalRepresents.pcbs pid known
    have ended := List.all_eq_true.mp finished pid (by rw [finalRepresents.queue]; exact queued)
    rw [found, Option.any_some] at ended
    exact Nat.le_antisymm (finalSettled.consistent.doneCount pid known) (state.count_le_of_done ended)
  · exact finalSettled.consistent.finished pid known queued

end MockOS.Proc.Kernel
