import MockOS.Proc.Paging

namespace MockOS.Proc.Paging

variable {work : Workload} {paging : Paging} {pid : Nat} {rest ready : List Nat}

/-- A loaded page that still has lines to run. -/
def Needed (work : Workload) (paging : Paging) (page : PageRef) : Prop :=
  paging.done page.1 < work.count page.1 ∧ page.2 < paging.loaded page.1 ∧ paging.done page.1 < 3 * page.2 + 3

/-- The pages that an unfinished process makes recent in one turn. -/
def weight (work : Workload) (paging : Paging) (pid : Nat) : Nat :=
  if paging.done pid < work.count pid then 2 else 0

/-- The needed pages of a process lie among the most recent ones, up to what those ahead of it may add. -/
def Window (work : Workload) (paging : Paging) : Nat → List Nat → Prop
  | _, [] => True
  | room, pid :: rest => (∀ k, Needed work paging (pid, k) → (pid, k) ∈ paging.lru.take room) ∧
      Window work paging (room - weight work paging pid) rest

theorem Window.mono {room larger : Nat} (fits : room ≤ larger) (window : Window work paging room ready) :
    Window work paging larger ready := by
  induction ready generalizing room larger with
  | nil => trivial
  | cons pid rest ih =>
      refine ⟨fun k needed => ?_, ih (by omega) window.2⟩
      exact (List.take_sublist_take_left fits).mem (window.1 k needed)

theorem Window.of_none {room : Nat} (none : ∀ pid ∈ ready, ∀ k, ¬ Needed work paging (pid, k)) :
    Window work paging room ready := by
  induction ready generalizing room with
  | nil => trivial
  | cons pid rest ih =>
      exact ⟨fun k needed => absurd needed (none pid (by simp) k),
        ih fun other member => none other (by simp [member])⟩

theorem Window.append {room : Nat} (window : Window work paging room ready)
    (last : ∀ k, Needed work paging (pid, k) →
      (pid, k) ∈ paging.lru.take (room - (ready.map (weight work paging)).sum)) :
    Window work paging room (ready ++ [pid]) := by
  induction ready generalizing room with
  | nil => exact ⟨by simpa using last, trivial⟩
  | cons other rest ih =>
      refine ⟨window.1, ih window.2 ?_⟩
      intro k needed
      have := last k needed
      rwa [List.map_cons, List.sum_cons, ← Nat.sub_sub] at this

theorem Window.withQueue {room : Nat} (window : Window work paging room ready) (queue : List Nat) :
    Window work (paging.withQueue queue) room ready := by
  induction ready generalizing room with
  | nil => trivial
  | cons pid rest ih => exact ⟨window.1, ih window.2⟩

theorem weight_congr {other : Paging} (same : other.done pid = paging.done pid) :
    weight work other pid = weight work paging pid := by simp [weight, same]

/-- The step from one cache to another moves each of the first pages back by at most one place. -/
theorem Window.shift {room bound : Nat} {other : Paging} (window : Window work paging room ready)
    (same : ∀ pid ∈ ready, other.done pid = paging.done pid ∧ other.loaded pid = paging.loaded pid)
    (moves : ∀ n ≤ bound, ∀ page ∈ paging.lru.take n, page ∈ other.lru.take (n + 1))
    (inside : room ≤ bound) (capacity : (ready.map (weight work paging)).sum ≤ room) :
    Window work other (room + 1) ready := by
  induction ready generalizing room with
  | nil => trivial
  | cons pid rest ih =>
      obtain ⟨sameDone, sameLoaded⟩ := same pid (by simp)
      rw [List.map_cons, List.sum_cons] at capacity
      refine ⟨fun k needed => ?_, ?_⟩
      · have before : Needed work paging (pid, k) := by
          simpa only [Needed, sameDone, sameLoaded] using needed
        exact moves room inside _ (window.1 k before)
      · rw [weight_congr sameDone, show room + 1 - weight work paging pid = room - weight work paging pid + 1 by omega]
        exact ih window.2 (fun pid member => same pid (by simp [member])) (by omega) (by omega)

theorem mem_take_erase {pages : List PageRef} {page moved : PageRef} {n : Nat} (different : page ≠ moved)
    (member : page ∈ pages.take n) : page ∈ (pages.erase moved).take n := by
  induction pages generalizing n with
  | nil => simp at member
  | cons first others ih =>
      cases n with
      | zero => simp at member
      | succ n =>
          rw [List.take_succ_cons, List.mem_cons] at member
          by_cases hit : first = moved
          · subst hit
            rw [List.erase_cons_head]
            rcases member with same | later
            · exact absurd same different
            · exact (List.take_sublist_take_left (Nat.le_succ n)).mem later
          · rw [List.erase_cons_tail (by simpa using hit), List.take_succ_cons, List.mem_cons]
            exact member.imp id ih

/-- Running a line moves no page back by more than one place. -/
theorem execute_moves (n : Nat) (page : PageRef) (member : page ∈ paging.lru.take n) :
    page ∈ (paging.execute pid).lru.take (n + 1) := by
  rw [execute, List.take_succ_cons, List.mem_cons]
  by_cases same : page = (pid, paging.done pid / 3)
  · exact .inl same
  · exact .inr (mem_take_erase same member)

/-- A fault evicts none of the first `frames - 1` pages. -/
theorem fault_moves (n : Nat) (inside : n ≤ work.frames - 1) (page : PageRef) (member : page ∈ paging.lru.take n) :
    page ∈ (paging.fault work pid).lru.take (n + 1) := by
  rw [fault, List.take_succ_cons, List.mem_cons]
  right
  unfold remaining
  split
  · exact member
  · rw [List.dropLast_eq_take, List.take_take, Nat.min_eq_left (by omega)]
    exact member

/-- After the first fault each process has at most one page with lines left, and it is recent enough. -/
structure Late (work : Workload) (ready : List Nat) (paging : Paging) : Prop where
  recent : ∀ pid ∈ ready, paging.done pid < work.count pid → 3 * paging.loaded pid ≤ paging.done pid + 3
  capacity : (ready.map (weight work paging)).sum ≤ work.frames
  window : Window work paging work.frames ready

/-- The same while `pid` runs, after it has moved the pages of the others by `slack` places. -/
structure Running (work : Workload) (pid : Nat) (rest : List Nat) (slack : Nat) (paging : Paging) : Prop where
  recentOwn : paging.done pid < work.count pid → 3 * paging.loaded pid ≤ paging.done pid + 3
  recent : ∀ other ∈ rest, paging.done other < work.count other → 3 * paging.loaded other ≤ paging.done other + 3
  capacity : (rest.map (weight work paging)).sum + 2 ≤ work.frames
  window : Window work paging (work.frames - 2 + slack) rest

theorem Late.start (late : Late work (pid :: rest) paging) (left : paging.done pid < work.count pid) :
    Running work pid rest 0 paging where
  recentOwn := late.recent pid (by simp)
  recent := fun other member => late.recent other (by simp [member])
  capacity := by
    have := late.capacity
    simp only [List.map_cons, List.sum_cons, weight, if_pos left] at this ⊢
    omega
  window := by
    have := late.window.2
    rwa [weight, if_pos left] at this

theorem Late.leave (late : Late work (pid :: rest) paging) : Late work rest paging where
  recent := fun other member => late.recent other (by simp [member])
  capacity := by
    have := late.capacity
    rw [List.map_cons, List.sum_cons] at this
    omega
  window := late.window.2.mono (by omega)

theorem sum_weight_congr {other : Paging} (same : ∀ pid ∈ rest, other.done pid = paging.done pid) :
    (rest.map (weight work other)).sum = (rest.map (weight work paging)).sum := by
  rw [List.map_congr_left fun pid member => weight_congr (same pid member)]

theorem Running.execute {slack : Nat} (running : Running work pid rest slack paging) (apart : pid ∉ rest) :
    Running work pid rest (slack + 1) (paging.execute pid) := by
  have same : ∀ other ∈ rest, (paging.execute pid).done other = paging.done other :=
    fun other member => execute_done_of_ne (ne_of_mem_of_not_mem member apart)
  constructor
  case recentOwn =>
    intro left
    rw [execute_done] at left ⊢
    have := running.recentOwn (by omega)
    rw [execute_loaded]
    omega
  case recent =>
    intro other member
    rw [same other member]
    exact running.recent other member
  case capacity => rw [sum_weight_congr same]; exact running.capacity
  case window =>
    have := running.capacity
    exact running.window.shift (fun other member => ⟨same other member, rfl⟩) (fun n _ => execute_moves n)
      (Nat.le_refl _) (by omega)

theorem Running.fault {slack : Nat} (running : Running work pid rest slack paging) (apart : pid ∉ rest)
    (early : slack ≤ 1) (outside : 3 * paging.loaded pid ≤ paging.done pid) :
    Running work pid rest (slack + 1) (paging.fault work pid) := by
  constructor
  case recentOwn =>
    intro _
    rw [fault_loaded, fault_done]
    omega
  case recent =>
    intro other member
    rw [fault_done, fault_loaded_of_ne (ne_of_mem_of_not_mem member apart)]
    exact running.recent other member
  case capacity => exact running.capacity
  case window =>
    have := running.capacity
    exact running.window.shift
      (fun other member => ⟨rfl, fault_loaded_of_ne (ne_of_mem_of_not_mem member apart)⟩)
      (fun n => fault_moves n) (by omega) (by omega)

/-- What a process still needs after its turn is the page that it used last. -/
theorem execute_needed {k : Nat} (recent : 3 * paging.loaded pid ≤ paging.done pid + 3)
    (needed : Needed work (paging.execute pid) (pid, k)) : (pid, k) ∈ (paging.execute pid).lru.take 1 := by
  obtain ⟨_, inside, lines⟩ := needed
  simp only [execute_done, execute_loaded] at inside lines
  have page : k = paging.done pid / 3 := by omega
  simp [Paging.execute, page]

theorem fault_needed {k : Nat} (outside : 3 * paging.loaded pid ≤ paging.done pid)
    (needed : Needed work (paging.fault work pid) (pid, k)) : (pid, k) ∈ (paging.fault work pid).lru.take 1 := by
  obtain ⟨_, inside, lines⟩ := needed
  simp only [fault_done, fault_loaded] at inside lines
  have page : k = paging.loaded pid := by omega
  simp [Paging.fault, page]

theorem Running.finish {slack : Nat} (running : Running work pid rest slack paging) (early : slack ≤ 2)
    (head : ∀ k, Needed work paging (pid, k) → (pid, k) ∈ paging.lru.take 1) (queue : List Nat) :
    Late work (rest ++ [pid]) (paging.withQueue queue) where
  recent := by
    intro other member
    rcases List.mem_append.mp member with old | last
    · exact running.recent other old
    · rw [List.mem_singleton.mp last]; exact running.recentOwn
  capacity := by
    have capacity := running.capacity
    have own : weight work paging pid ≤ 2 := by unfold weight; split <;> omega
    rw [List.map_append, List.sum_append, List.map_singleton, List.sum_singleton]
    exact Nat.le_trans (Nat.add_le_add_left own _) capacity
  window := by
    have capacity := running.capacity
    have window : Window work paging work.frames (rest ++ [pid]) :=
      (running.window.mono (by omega)).append fun k needed =>
        (List.take_sublist_take_left (by omega)).mem (head k needed)
    exact window.withQueue queue

/-- Two processes in the queue, the first ahead of the second: neither is more than a turn in advance. -/
def Level (work : Workload) (paging : Paging) (ahead behind : Nat) : Prop :=
  (paging.done ahead ≤ paging.done behind ∨ paging.done behind = work.count behind) ∧
    (paging.done behind ≤ paging.done ahead + 2 ∨ paging.done ahead = work.count ahead)

/-- Before the first fault all initial pages are resident and the processes advance together, two lines at a time. -/
structure Early (work : Workload) (ready : List Nat) (paging : Paging) : Prop where
  loaded : ∀ pid ∈ work.pids, paging.loaded pid = work.initial pid
  resident : ∀ pid ∈ work.pids, ∀ k < paging.loaded pid, (pid, k) ∈ paging.lru
  even : ∀ pid ∈ ready, paging.done pid < work.count pid → paging.done pid % 2 = 0
  level : ready.Pairwise (Level work paging)

theorem execute_mem {page : PageRef} (member : page ∈ paging.lru) : page ∈ (paging.execute pid).lru := by
  rw [execute, List.mem_cons]
  by_cases same : page = (pid, paging.done pid / 3)
  · exact .inl same
  · exact .inr ((List.mem_erase_of_ne same).mpr member)

theorem Early.leave (early : Early work (pid :: rest) paging) : Early work rest paging where
  loaded := early.loaded
  resident := early.resident
  even := fun other member => early.even other (by simp [member])
  level := (List.pairwise_cons.mp early.level).2

/-- Running the front process leaves the others as they are. -/
theorem Early.execute (early : Early work rest paging) (apart : pid ∉ rest) :
    Early work rest (paging.execute pid) where
  loaded := early.loaded
  resident := fun other known k inside => execute_mem (early.resident other known k inside)
  even := by
    intro other member
    rw [execute_done_of_ne (ne_of_mem_of_not_mem member apart)]
    exact early.even other member
  level := by
    refine early.level.imp_of_mem ?_
    intro ahead behind first second level
    rwa [Level, execute_done_of_ne (ne_of_mem_of_not_mem first apart),
      execute_done_of_ne (ne_of_mem_of_not_mem second apart)]

/-- The front process goes to the end after two lines. -/
theorem Early.rotate {before : Paging} (early : Early work (pid :: rest) before) (later : Early work rest paging)
    (same : ∀ other ∈ rest, paging.done other = before.done other)
    (advance : paging.done pid = before.done pid + 2) (left : before.done pid < work.count pid) (queue : List Nat) :
    Early work (rest ++ [pid]) (paging.withQueue queue) where
  loaded := later.loaded
  resident := later.resident
  even := by
    intro other member
    rcases List.mem_append.mp member with old | last
    · exact later.even other old
    · rw [List.mem_singleton.mp last]
      have := early.even pid (by simp) left
      simp only [withQueue_done, advance]
      omega
  level := by
    refine List.pairwise_append.mpr ⟨later.level, List.pairwise_singleton _ _, ?_⟩
    intro other member last single
    rw [List.mem_singleton.mp single]
    obtain ⟨behind, close⟩ := (List.pairwise_cons.mp early.level).1 other member
    simp only [Level, withQueue_done, advance, same other member]
    constructor
    · left; omega
    · rcases behind with le | ended
      · left; omega
      · exact .inr ended

/-- When the front process has run its initial pages, every other one has too. -/
theorem Early.late (early : Early work (pid :: rest) paging) (state : Consistent work (pid :: rest) paging)
    (admissible : work.Admissible) (left : paging.done pid < work.count pid) (six : 6 ≤ paging.done pid) :
    Late work (pid :: rest) paging := by
  have bounds : ∀ other ∈ pid :: rest, paging.done other < work.count other →
      paging.done other = 6 ∧ paging.loaded other = 2 := by
    intro other member unfinished
    have known := state.readyKnown other member
    have most := state.doneLoaded other known
    have pages := early.loaded other known
    have ahead : 6 ≤ paging.done other := by
      rcases List.mem_cons.mp member with rfl | later
      · exact six
      · rcases ((List.pairwise_cons.mp early.level).1 other later).1 with le | ended <;> omega
    simp only [Workload.initial] at pages
    omega
  constructor
  case recent =>
    intro other member unfinished
    have := bounds other member unfinished
    omega
  case capacity =>
    have weights : ∀ other ∈ pid :: rest, weight work paging other ≤ work.initial other := by
      intro other member
      unfold weight
      split
      · next unfinished =>
          have := bounds other member unfinished
          have := early.loaded other (state.readyKnown other member)
          omega
      · exact Nat.zero_le _
    obtain ⟨chosen, perm, sublist⟩ := List.subperm_of_subset state.readyNodup state.readyKnown
    calc ((pid :: rest).map (weight work paging)).sum
        ≤ ((pid :: rest).map work.initial).sum := List.sum_le_sum weights
      _ = (chosen.map work.initial).sum := ((perm.map work.initial).sum_eq).symm
      _ ≤ (work.pids.map work.initial).sum := (sublist.map work.initial).sum_le_sum (fun _ _ => Nat.zero_le _)
      _ ≤ work.frames := admissible.room
  case window =>
    have none : ∀ other ∈ pid :: rest, ∀ k, ¬ Needed work paging (other, k) := by
      rintro other member k ⟨unfinished, inside, lines⟩
      have := bounds other member unfinished
      simp only at inside lines
      omega
    exact Window.of_none none

end MockOS.Proc.Paging
