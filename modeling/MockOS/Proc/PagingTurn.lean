import MockOS.Proc.LruWindow

namespace MockOS.Proc.Paging

variable {work : Workload} {paging : Paging} {pid : Nat} {rest ready : List Nat}

/-- The invariant between two turns. -/
structure Settled (work : Workload) (paging : Paging) : Prop where
  consistent : Consistent work paging.queue paging
  phase : Early work paging.queue paging ∨ Late work paging.queue paging

/-- The turn of `pid` before its first fault; `before` is the state at the start of the turn. -/
structure EarlyTurn (work : Workload) (pid : Nat) (rest : List Nat) (steps : Nat) (before paging : Paging) : Prop where
  started : Early work (pid :: rest) before
  unfinished : before.done pid < work.count pid
  initial : before.done pid < 6
  others : Early work rest paging
  same : ∀ other ∈ rest, paging.done other = before.done other
  advance : paging.done pid = before.done pid + steps

/-- The invariant within the turn of `pid`, after `steps` lines of it. -/
structure Turning (work : Workload) (pid : Nat) (rest : List Nat) (steps : Nat) (paging : Paging) : Prop where
  consistent : Consistent work (pid :: rest) paging
  needed : ∀ k, Needed work paging (pid, k) → (pid, k) ∈ paging.lru
  phase : (∃ before, EarlyTurn work pid rest steps before paging) ∨
    Running work pid rest steps paging ∧ (0 < steps → ∀ k, Needed work paging (pid, k) → (pid, k) ∈ paging.lru.take 1)

theorem Early.withQueue (early : Early work ready paging) (queue : List Nat) :
    Early work ready (paging.withQueue queue) := ⟨early.1, early.2, early.3, early.4⟩

theorem Late.withQueue (late : Late work ready paging) (queue : List Nat) :
    Late work ready (paging.withQueue queue) := ⟨late.1, late.2, late.3.withQueue queue⟩

theorem Settled.start (settled : Settled work paging) (admissible : work.Admissible)
    (front : paging.queue = pid :: rest) (left : paging.done pid < work.count pid) :
    Turning work pid rest 0 (paging.withQueue rest) := by
  obtain ⟨consistent, phase⟩ := settled
  rw [front] at consistent phase
  have known := consistent.readyKnown pid (by simp)
  refine ⟨consistent.withQueue rest, ?_, ?_⟩
  · rintro k ⟨_, inside, lines⟩
    rcases phase with early | late
    · exact early.resident pid known k inside
    · exact List.mem_of_mem_take (late.window.1 k ⟨left, inside, lines⟩)
  · have running (late : Late work (pid :: rest) paging) := (late.withQueue rest).start left
    rcases phase with early | late
    · by_cases six : 6 ≤ paging.done pid
      · exact .inr ⟨running (early.late consistent admissible left six), fun steps => absurd steps (by omega)⟩
      · exact .inl ⟨paging, early, left, by omega, early.leave.withQueue rest, fun _ _ => rfl, rfl⟩
    · exact .inr ⟨running late, fun steps => absurd steps (by omega)⟩

/-- A line whose page is loaded finds this page in the cache. -/
theorem Turning.present {steps : Nat} (turning : Turning work pid rest steps paging)
    (left : paging.done pid < work.count pid) (inside : paging.done pid < 3 * paging.loaded pid) :
    (pid, paging.done pid / 3) ∈ paging.lru :=
  turning.needed _ ⟨left, by simp only; omega, by simp only; omega⟩

theorem Turning.apart {steps : Nat} (turning : Turning work pid rest steps paging) : pid ∉ rest :=
  (List.nodup_cons.mp turning.consistent.readyNodup).1

theorem Turning.execute {steps : Nat} (turning : Turning work pid rest steps paging)
    (left : paging.done pid < work.count pid) (inside : paging.done pid < 3 * paging.loaded pid) :
    Turning work pid rest (steps + 1) (paging.execute pid) := by
  have present := turning.present left inside
  have known := turning.consistent.readyKnown pid (by simp)
  refine ⟨turning.consistent.execute (by simp) left inside present, ?_, ?_⟩
  · rintro k ⟨_, loaded, lines⟩
    simp only [execute_done] at lines
    exact execute_mem (turning.needed k ⟨left, loaded, by simp only; omega⟩)
  · rcases turning.phase with ⟨before, early⟩ | ⟨running, _⟩
    · left
      refine ⟨before, early.started, early.unfinished, early.initial, early.others.execute turning.apart, ?_, ?_⟩
      · intro other member
        rw [execute_done_of_ne (ne_of_mem_of_not_mem member turning.apart)]
        exact early.same other member
      · rw [execute_done, early.advance, Nat.add_assoc]
    · right
      exact ⟨running.execute turning.apart, fun _ k needed => execute_needed (running.recentOwn left) needed⟩

/-- No fault can happen while the initial pages have lines left. -/
theorem EarlyTurn.inside {steps : Nat} {before : Paging} (early : EarlyTurn work pid rest steps before paging)
    (few : steps ≤ 1) (known : pid ∈ work.pids) (left : paging.done pid < work.count pid) :
    paging.done pid < 3 * paging.loaded pid := by
  have even := early.started.even pid (by simp) early.unfinished
  have := early.initial
  have := early.advance
  have loaded := early.others.loaded pid known
  have := work.count_le_pages pid
  simp only [Workload.initial] at loaded
  omega

theorem Turning.fault {steps : Nat} (turning : Turning work pid rest steps paging) (admissible : work.Admissible)
    (few : steps ≤ 1) (left : paging.done pid < work.count pid)
    (outside : 3 * paging.loaded pid ≤ paging.done pid) (queue : paging.queue = rest) :
    Settled work (paging.fault work pid) := by
  have known := turning.consistent.readyKnown pid (by simp)
  have whole : paging.fault work pid = (paging.fault work pid).withQueue (rest ++ [pid]) := by
    rw [Paging.fault, Paging.withQueue, queue]
  rw [whole]
  refine ⟨(turning.consistent.fault admissible (by simp) left outside).rotate _, ?_⟩
  rcases turning.phase with ⟨before, early⟩ | ⟨running, _⟩
  · exact absurd (early.inside few known left) (by omega)
  · right
    exact (running.fault turning.apart few outside).finish (by omega) (fun k => fault_needed outside) _

/-- After two lines the process goes to the end of the queue. -/
theorem Turning.rotate (turning : Turning work pid rest 2 paging) :
    Settled work (paging.withQueue (rest ++ [pid])) := by
  refine ⟨turning.consistent.rotate _, ?_⟩
  rcases turning.phase with ⟨before, early⟩ | ⟨running, head⟩
  · exact .inl (early.started.rotate early.others early.same early.advance early.unfinished _)
  · exact .inr (running.finish (Nat.le_refl 2) (head (by omega)) _)

theorem Running.leave {slack : Nat} (running : Running work pid rest slack paging) (few : slack ≤ 2) :
    Late work rest paging where
  recent := running.recent
  capacity := by
    have := running.capacity
    omega
  window := by
    have := running.capacity
    exact running.window.mono (by omega)

theorem Turning.leave {steps : Nat} (turning : Turning work pid rest steps paging) (few : steps ≤ 2)
    (ended : paging.done pid = work.count pid) (queue : paging.queue = rest) : Settled work paging := by
  subst queue
  refine ⟨turning.consistent.leave ended, ?_⟩
  rcases turning.phase with ⟨before, early⟩ | ⟨running, _⟩
  · exact .inl early.others
  · exact .inr (running.leave few)

/-- A finished process that is still in the queue drops out of it. -/
theorem Settled.leave (settled : Settled work paging) (front : paging.queue = pid :: rest)
    (ended : ¬ paging.done pid < work.count pid) : Settled work (paging.withQueue rest) := by
  obtain ⟨consistent, phase⟩ := settled
  rw [front] at consistent phase
  have most := consistent.doneCount pid (consistent.readyKnown pid (by simp))
  exact ⟨(consistent.leave (by omega)).withQueue rest,
    phase.imp (fun early => early.leave.withQueue rest) (fun late => late.leave.withQueue rest)⟩

/-- The lines and pages that a process in the queue has before it. -/
def cost (work : Workload) (paging : Paging) (pid : Nat) : Nat :=
  (work.count pid - paging.done pid) + (work.pages pid - paging.loaded pid) + 1

def remainingWork (work : Workload) (paging : Paging) (ready : List Nat) : Nat :=
  (ready.map (cost work paging)).sum

@[simp] theorem cost_withQueue {queue : List Nat} : cost work (paging.withQueue queue) = cost work paging := rfl

@[simp] theorem remainingWork_withQueue {queue : List Nat} :
    remainingWork work (paging.withQueue queue) = remainingWork work paging := rfl

theorem remainingWork_execute (apart : pid ∉ rest) :
    remainingWork work (paging.execute pid) rest = remainingWork work paging rest := by
  unfold remainingWork
  rw [List.map_congr_left]
  intro other member
  simp only [cost, execute_done_of_ne (ne_of_mem_of_not_mem member apart), execute_loaded]

theorem remainingWork_fault (apart : pid ∉ rest) :
    remainingWork work (paging.fault work pid) rest = remainingWork work paging rest := by
  unfold remainingWork
  rw [List.map_congr_left]
  intro other member
  simp only [cost, fault_done, fault_loaded_of_ne (ne_of_mem_of_not_mem member apart)]

@[simp] theorem remainingWork_cons :
    remainingWork work paging (pid :: rest) = cost work paging pid + remainingWork work paging rest := by
  simp [remainingWork]

@[simp] theorem remainingWork_append :
    remainingWork work paging (rest ++ [pid]) = remainingWork work paging rest + cost work paging pid := by
  simp [remainingWork]

theorem cost_execute (work : Workload) (paging : Paging) (pid : Nat) (left : paging.done pid < work.count pid) :
    cost work (paging.execute pid) pid + 1 = cost work paging pid := by
  simp only [cost, execute_done, execute_loaded]
  omega

theorem cost_fault (work : Workload) (paging : Paging) (pid : Nat) (left : paging.done pid < work.count pid)
    (outside : 3 * paging.loaded pid ≤ paging.done pid) :
    cost work (paging.fault work pid) pid + 1 = cost work paging pid := by
  have := work.count_le_pages pid
  simp only [cost, fault_done, fault_loaded]
  omega

/-- Every turn keeps the invariant. -/
theorem Settled.turn {next : Paging} (settled : Settled work paging) (admissible : work.Admissible)
    (turn : Turn work paging next) : Settled work next := by
  cases turn with
  | leave pid rest front ended => exact settled.leave front (by omega)
  | fault pid rest front left outside =>
      exact (settled.start admissible front left).fault admissible (by omega) left outside rfl
  | last pid rest front left inside =>
      have turning := settled.start admissible front (by omega)
      exact (turning.execute (by simp only [withQueue_done]; omega) inside).leave (by omega) (by simp [left]) rfl
  | second pid rest front left inside =>
      have turning := settled.start admissible front (by omega)
      have first := turning.execute (by simp only [withQueue_done]; omega)
        (by simp only [withQueue_done, withQueue_loaded]; omega)
      exact (first.execute (by simpa using left) (by simpa using inside)).rotate
  | secondFault pid rest front left inside outside =>
      have turning := settled.start admissible front (by omega)
      have first := turning.execute (by simp only [withQueue_done]; omega) inside
      exact first.fault admissible (by omega) (by simpa using left) (by simpa using outside) rfl

/-- Every turn brings the end nearer. -/
theorem Settled.turn_decreases {next : Paging} (settled : Settled work paging) (turn : Turn work paging next) :
    remainingWork work next next.queue < remainingWork work paging paging.queue := by
  have apart {pid : Nat} {rest : List Nat} (front : paging.queue = pid :: rest) : pid ∉ rest :=
    (List.nodup_cons.mp (front ▸ settled.consistent.readyNodup)).1
  cases turn with
  | leave pid rest front ended =>
      rw [front, remainingWork_cons, withQueue_queue, remainingWork_withQueue]
      simp only [cost]
      omega
  | fault pid rest front left outside =>
      have less := cost_fault work (paging.withQueue rest) pid left outside
      rw [front, remainingWork_cons, fault_queue, withQueue_queue, remainingWork_append,
        remainingWork_fault (apart front), remainingWork_withQueue]
      rw [cost_withQueue] at less
      omega
  | last pid rest front left inside =>
      have less := cost_execute work (paging.withQueue rest) pid (show paging.done pid < work.count pid by omega)
      rw [front, remainingWork_cons, execute_queue, withQueue_queue, remainingWork_execute (apart front),
        remainingWork_withQueue]
      rw [cost_withQueue] at less
      omega
  | second pid rest front left inside =>
      have less := cost_execute work (paging.withQueue rest) pid (show paging.done pid < work.count pid by omega)
      have lessAgain := cost_execute work ((paging.withQueue rest).execute pid) pid (by simpa using left)
      rw [front, remainingWork_cons, withQueue_queue, remainingWork_append, remainingWork_withQueue,
        remainingWork_execute (apart front), remainingWork_execute (apart front), remainingWork_withQueue,
        cost_withQueue]
      rw [cost_withQueue] at less
      omega
  | secondFault pid rest front left inside outside =>
      have less := cost_execute work (paging.withQueue rest) pid (show paging.done pid < work.count pid by omega)
      have lessAgain := cost_fault work ((paging.withQueue rest).execute pid) pid (by simpa using left) (by simpa using outside)
      rw [front, remainingWork_cons, fault_queue, execute_queue, withQueue_queue, remainingWork_append,
        remainingWork_fault (apart front), remainingWork_execute (apart front), remainingWork_withQueue]
      rw [cost_withQueue] at less
      omega

end MockOS.Proc.Paging
