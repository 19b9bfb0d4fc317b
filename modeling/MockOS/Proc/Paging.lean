import MockOS.Proc.Pcb
import Mathlib.Algebra.Order.BigOperators.Group.List
import Mathlib.Algebra.Order.Group.Nat
import Mathlib.Algebra.GroupWithZero.Nat

namespace MockOS.Proc

/-- The scripts by process id, as far as paging depends on them. -/
structure Workload where
  pids : List Nat
  count : Nat → Nat
  frames : Nat

namespace Workload

def pages (work : Workload) (pid : Nat) : Nat := pageTableSize (work.count pid)

/-- The pages that a process starts with. -/
def initial (work : Workload) (pid : Nat) : Nat := min 2 (work.pages pid)

/-- Each process has a line, and the frames hold all initial pages. -/
structure Admissible (work : Workload) : Prop where
  distinct : work.pids.Nodup
  positive : ∀ pid ∈ work.pids, 1 ≤ work.count pid
  room : (work.pids.map work.initial).sum ≤ work.frames

theorem count_le_pages (work : Workload) (pid : Nat) : work.count pid ≤ 3 * work.pages pid := by
  unfold pages pageTableSize
  split <;> omega

theorem pages_pos {work : Workload} {pid : Nat} (positive : 1 ≤ work.count pid) : 1 ≤ work.pages pid := by
  have := work.count_le_pages pid
  omega

theorem Admissible.frames_pos {work : Workload} (admissible : work.Admissible) {pid : Nat}
    (known : pid ∈ work.pids) : 1 ≤ work.frames := by
  have member : work.initial pid ∈ work.pids.map work.initial := List.mem_map_of_mem known
  have below := List.le_sum_of_mem member
  have some := pages_pos (admissible.positive pid known)
  have := admissible.room
  simp only [initial] at below
  omega

end Workload

/-- Demand paging without the memory: the lines run, the pages loaded and the resident pages by recency. -/
structure Paging where
  queue : List Nat
  lru : List PageRef
  done : Nat → Nat
  loaded : Nat → Nat

namespace Paging

/-- The next line runs and its page becomes the most recent one. -/
def execute (pid : Nat) (paging : Paging) : Paging :=
  { paging with
    lru := (pid, paging.done pid / 3) :: paging.lru.erase (pid, paging.done pid / 3)
    done := Function.update paging.done pid (paging.done pid + 1) }

/-- The pages that stay when another one comes in: all but the least recent one when every frame is taken. -/
def remaining (work : Workload) (paging : Paging) : List PageRef :=
  if paging.lru.length < work.frames then paging.lru else paging.lru.dropLast

/-- The next page comes in. -/
def fault (work : Workload) (pid : Nat) (paging : Paging) : Paging :=
  { paging with
    lru := (pid, paging.loaded pid) :: paging.remaining work
    loaded := Function.update paging.loaded pid (paging.loaded pid + 1)
    queue := paging.queue ++ [pid] }

def withQueue (queue : List Nat) (paging : Paging) : Paging := { paging with queue := queue }

/-- One turn of the front process: it leaves, faults, runs its last line, or runs two lines if the second is loaded. -/
inductive Turn (work : Workload) (paging : Paging) : Paging → Prop where
  | leave (pid : Nat) (rest : List Nat) (front : paging.queue = pid :: rest)
      (ended : work.count pid ≤ paging.done pid) : Turn work paging (paging.withQueue rest)
  | fault (pid : Nat) (rest : List Nat) (front : paging.queue = pid :: rest)
      (left : paging.done pid < work.count pid) (outside : 3 * paging.loaded pid ≤ paging.done pid) :
      Turn work paging ((paging.withQueue rest).fault work pid)
  | last (pid : Nat) (rest : List Nat) (front : paging.queue = pid :: rest)
      (left : paging.done pid + 1 = work.count pid) (inside : paging.done pid < 3 * paging.loaded pid) :
      Turn work paging ((paging.withQueue rest).execute pid)
  | second (pid : Nat) (rest : List Nat) (front : paging.queue = pid :: rest)
      (left : paging.done pid + 1 < work.count pid) (inside : paging.done pid + 1 < 3 * paging.loaded pid) :
      Turn work paging ((((paging.withQueue rest).execute pid).execute pid).withQueue (rest ++ [pid]))
  | secondFault (pid : Nat) (rest : List Nat) (front : paging.queue = pid :: rest)
      (left : paging.done pid + 1 < work.count pid) (inside : paging.done pid < 3 * paging.loaded pid)
      (outside : 3 * paging.loaded pid ≤ paging.done pid + 1) :
      Turn work paging (((paging.withQueue rest).execute pid).fault work pid)

variable {work : Workload} {paging : Paging} {pid : Nat} {ready : List Nat}

@[simp] theorem execute_done : (paging.execute pid).done pid = paging.done pid + 1 := by simp [execute]

theorem remaining_sublist : (paging.remaining work).Sublist paging.lru := by
  unfold remaining
  split
  · exact List.Sublist.refl _
  · exact List.dropLast_sublist _

theorem execute_done_of_ne {other : Nat} (different : other ≠ pid) :
    (paging.execute pid).done other = paging.done other := by simp [execute, different]

@[simp] theorem execute_loaded : (paging.execute pid).loaded = paging.loaded := rfl

@[simp] theorem execute_queue : (paging.execute pid).queue = paging.queue := rfl

@[simp] theorem fault_done : (paging.fault work pid).done = paging.done := rfl

@[simp] theorem fault_loaded : (paging.fault work pid).loaded pid = paging.loaded pid + 1 := by simp [fault]

theorem fault_loaded_of_ne {other : Nat} (different : other ≠ pid) :
    (paging.fault work pid).loaded other = paging.loaded other := by simp [fault, different]

theorem lt_loaded_of_fault {ref : PageRef} (different : ref ≠ (pid, paging.loaded pid))
    (before : ref.2 < (paging.fault work pid).loaded ref.1) : ref.2 < paging.loaded ref.1 := by
  by_cases same : ref.1 = pid
  · rw [same, fault_loaded] at before
    have apart : ref.2 ≠ paging.loaded pid := fun equal => different (Prod.ext same equal)
    rw [same]
    omega
  · rwa [fault_loaded_of_ne same] at before

@[simp] theorem fault_queue : (paging.fault work pid).queue = paging.queue ++ [pid] := rfl

@[simp] theorem withQueue_queue {queue : List Nat} : (paging.withQueue queue).queue = queue := rfl

@[simp] theorem withQueue_lru {queue : List Nat} : (paging.withQueue queue).lru = paging.lru := rfl

@[simp] theorem withQueue_done {queue : List Nat} : (paging.withQueue queue).done = paging.done := rfl

@[simp] theorem withQueue_loaded {queue : List Nat} : (paging.withQueue queue).loaded = paging.loaded := rfl

/-- What holds in every state; `ready` lists the processes that have not left the scheduler. -/
structure Consistent (work : Workload) (ready : List Nat) (paging : Paging) : Prop where
  readyNodup : ready.Nodup
  readyKnown : ∀ pid ∈ ready, pid ∈ work.pids
  lruNodup : paging.lru.Nodup
  lruKnown : ∀ page ∈ paging.lru, page.1 ∈ work.pids ∧ page.2 < paging.loaded page.1
  lruFits : paging.lru.length ≤ work.frames
  doneCount : ∀ pid ∈ work.pids, paging.done pid ≤ work.count pid
  doneLoaded : ∀ pid ∈ work.pids, paging.done pid ≤ 3 * paging.loaded pid
  loadedPages : ∀ pid ∈ work.pids, paging.loaded pid ≤ work.pages pid
  finished : ∀ pid ∈ work.pids, pid ∉ ready → paging.done pid = work.count pid

theorem Consistent.execute (state : Consistent work ready paging) (runs : pid ∈ ready)
    (left : paging.done pid < work.count pid) (inside : paging.done pid < 3 * paging.loaded pid)
    (present : (pid, paging.done pid / 3) ∈ paging.lru) : Consistent work ready (paging.execute pid) where
  readyNodup := state.readyNodup
  readyKnown := state.readyKnown
  lruNodup := List.nodup_cons.mpr ⟨state.lruNodup.not_mem_erase, state.lruNodup.erase _⟩
  lruKnown := by
    intro page member
    rcases List.mem_cons.mp member with rfl | other
    · exact state.lruKnown _ present
    · exact state.lruKnown page (List.mem_of_mem_erase other)
  lruFits := by
    have fits := state.lruFits
    have := List.length_pos_of_mem present
    simp only [Paging.execute, List.length_cons, List.length_erase_of_mem present]
    omega
  doneCount := by
    intro other known
    by_cases same : other = pid
    · subst same; rw [execute_done]; omega
    · rw [execute_done_of_ne same]; exact state.doneCount other known
  doneLoaded := by
    intro other known
    by_cases same : other = pid
    · subst same; rw [execute_done, execute_loaded]; omega
    · rw [execute_done_of_ne same]; exact state.doneLoaded other known
  loadedPages := state.loadedPages
  finished := by
    intro other known away
    have different : other ≠ pid := fun same => away (by rw [same]; exact runs)
    rw [execute_done_of_ne different]
    exact state.finished other known away

theorem Consistent.fault (state : Consistent work ready paging) (admissible : work.Admissible)
    (runs : pid ∈ ready) (left : paging.done pid < work.count pid)
    (outside : 3 * paging.loaded pid ≤ paging.done pid) : Consistent work ready (paging.fault work pid) where
  readyNodup := state.readyNodup
  readyKnown := state.readyKnown
  lruNodup := by
    refine List.nodup_cons.mpr ⟨fun member => ?_, ?_⟩
    · exact absurd (state.lruKnown _ (remaining_sublist.mem member)).2 (by simp)
    · exact state.lruNodup.sublist remaining_sublist
  lruKnown := by
    intro page member
    rcases List.mem_cons.mp member with rfl | other
    · exact ⟨state.readyKnown _ runs, by simp⟩
    · have old := remaining_sublist.mem other
      refine ⟨(state.lruKnown page old).1, ?_⟩
      by_cases same : page.1 = pid
      · have := (state.lruKnown page old).2
        rw [same] at this ⊢
        rw [fault_loaded]
        omega
      · rw [fault_loaded_of_ne same]
        exact (state.lruKnown page old).2
  lruFits := by
    have fits := state.lruFits
    have := admissible.frames_pos (state.readyKnown _ runs)
    simp only [Paging.fault, remaining, List.length_cons]
    split
    · omega
    · rw [List.length_dropLast]; omega
  doneCount := state.doneCount
  doneLoaded := by
    intro other known
    have before := state.doneLoaded other known
    by_cases same : other = pid
    · subst same; rw [fault_loaded, fault_done]; omega
    · rw [fault_loaded_of_ne same]; exact before
  loadedPages := by
    intro other known
    have before := state.loadedPages other known
    by_cases same : other = pid
    · subst same
      have := work.count_le_pages other
      rw [fault_loaded]
      omega
    · rw [fault_loaded_of_ne same]; exact before
  finished := state.finished

/-- A process leaves the scheduler when all its lines have run. -/
theorem Consistent.leave {rest : List Nat} (state : Consistent work (pid :: rest) paging)
    (ended : paging.done pid = work.count pid) : Consistent work rest paging where
  readyNodup := (List.nodup_cons.mp state.readyNodup).2
  readyKnown := fun other member => state.readyKnown other (by simp [member])
  lruNodup := state.lruNodup
  lruKnown := state.lruKnown
  lruFits := state.lruFits
  doneCount := state.doneCount
  doneLoaded := state.doneLoaded
  loadedPages := state.loadedPages
  finished := by
    intro other known away
    by_cases same : other = pid
    · rw [same, ended]
    · exact state.finished other known (by simp [same, away])

theorem Consistent.withQueue (state : Consistent work ready paging) (queue : List Nat) :
    Consistent work ready (paging.withQueue queue) :=
  ⟨state.1, state.2, state.3, state.4, state.5, state.6, state.7, state.8, state.9⟩

theorem Consistent.rotate {rest : List Nat} (state : Consistent work (pid :: rest) paging) (queue : List Nat) :
    Consistent work (rest ++ [pid]) (paging.withQueue queue) where
  readyNodup := (List.perm_append_singleton pid rest).nodup_iff.mpr state.readyNodup
  readyKnown := fun other member => state.readyKnown other ((List.perm_append_singleton pid rest).mem_iff.mp member)
  lruNodup := state.lruNodup
  lruKnown := state.lruKnown
  lruFits := state.lruFits
  doneCount := state.doneCount
  doneLoaded := state.doneLoaded
  loadedPages := state.loadedPages
  finished := fun other known away =>
    state.finished other known (fun member => away ((List.perm_append_singleton pid rest).mem_iff.mpr member))

end Paging
end MockOS.Proc
