import MockOS.Lib.Recency
import MockOS.Proc.PageFaults
import MockOS.Proc.ScriptRuns

namespace MockOS.Proc.Kernel

open Lib (ByRecency)

variable {World : Type} {parseInput : Interpreter World} {kernel kernel' : Kernel World} {pid i : Nat}

/-- A page is in memory as long as one of its lines can be read there. -/
def InMemory (kernel : Kernel World) (ref : PageRef) : Prop :=
  ref.1 ∈ kernel.allPcb ∧ ∃ page, kernel.table ref = some page ∧ ∃ j, page.validBit j = true

/-- The pages that `PCB_init` loaded, the last one first. -/
def firstLoads (loaded : Kernel World) : List PageRef :=
  (loaded.allPcb.flatMap fun pid => (List.range ((loaded.pcbs pid).elim 0 Pcb.pageLimit)).map (pid, ·)).reverse

/-- The uses of pages up to some event, the last one first, from the events in this order: a load is a use of its page,
and the n-th line that a process hands over is a use of the page `n / 3`. -/
def usesBefore (loads : List PageRef) : List Event → List PageRef
  | [] => loads
  | .handed pid _ :: before => (pid, (handedTo pid before).length / 3) :: usesBefore loads before
  | .loadPage pid i :: before => (pid, i) :: usesBefore loads before
  | .pageEvict _ _ :: before => usesBefore loads before

def uses (loads : List PageRef) (trace : List Event) : List PageRef := usesBefore loads trace.reverse

/-- The cache lists the pages in memory, each one once and at a position of its own, from the most to the least recently
used one. -/
structure LruExact (loads : List PageRef) (kernel : Kernel World) : Prop where
  listed : ∀ ref, ref ∈ kernel.lruCache ↔ kernel.InMemory ref
  once : kernel.lruCache.Nodup
  apart : (kernel.lruCache.map kernel.firstIndex).Nodup
  recency : ByRecency (uses loads kernel.trace) kernel.lruCache

/-- Each eviction of a turn takes the page in memory whose last use is the oldest. -/
def EvictsOldest (loads : List PageRef) (kernel next : Kernel World) : Prop :=
  ∃ events, next.trace = kernel.trace ++ events ∧ ∀ (before : List Event) (ref : PageRef) (after : List Event),
    events = before ++ .pageEvict ref.1 ref.2 :: after → kernel.InMemory ref ∧ ∀ other, kernel.InMemory other → other ≠ ref →
      (uses loads (kernel.trace ++ before)).idxOf other < (uses loads (kernel.trace ++ before)).idxOf ref

/-- The states of `run_proc_RR` between two turns. -/
inductive BetweenTurns (parseInput : Interpreter World) (loaded : Kernel World) : Kernel World → Prop where
  | loaded : BetweenTurns parseInput loaded loaded
  | turn {kernel next : Kernel World} (reached : BetweenTurns parseInput loaded kernel) (running : kernel.queueDone = false)
      (turns : rrTurn parseInput kernel = .ok next) : BetweenTurns parseInput loaded next

section Uses

variable {loads : List PageRef} {trace : List Event}

theorem uses_handed (line : CString) : uses loads (trace ++ [.handed pid line]) =
    (pid, (handedTo pid trace).length / 3) :: uses loads trace := by
  rw [uses, List.reverse_concat, usesBefore, handedTo, List.filterMap_reverse, List.length_reverse]
  rfl

theorem uses_loadPage : uses loads (trace ++ [.loadPage pid i]) = (pid, i) :: uses loads trace := by
  rw [uses, List.reverse_concat, usesBefore]
  rfl

theorem uses_pageEvict : uses loads (trace ++ [.pageEvict pid i]) = uses loads trace := by
  rw [uses, List.reverse_concat, usesBefore]
  rfl

end Uses

section Steps

/-- What a load leaves: the page is in the table, the other pages stay. -/
theorem loadPage_table {failed : Int} (loads : loadPage pid i kernel = .ok (failed, kernel')) :
    kernel'.lruCache = kernel.lruCache ∧ kernel'.allPcb = kernel.allPcb ∧
      ∀ ref, ref ≠ (pid, i) → kernel'.table ref = kernel.table ref := by
  simp only [loadPage, bind_eq_ok] at loads
  obtain ⟨pcb, found, page, _, loads⟩ := loads
  split at loads
  · simp only [Except.ok.injEq, Prod.mk.injEq] at loads
    obtain ⟨_, rfl⟩ := loads
    exact ⟨rfl, rfl, fun _ _ => rfl⟩
  · simp only [bind_eq_ok, Except.ok.injEq, Prod.mk.injEq] at loads
    obtain ⟨⟨pcb', memory'⟩, places, _, rfl⟩ := loads
    simp only [Pcb.placePage, bind_eq_ok, Except.ok.injEq, Prod.mk.injEq] at places
    obtain ⟨⟨page', file, memory''⟩, _, rfl, _⟩ := places
    refine ⟨rfl, rfl, fun ref different => ?_⟩
    have updated := table_setPage (kernel.log (.loadPage pid i)) pid i pcb page' file
    rw [table_setPcb_self (pcb_ok found)] at updated
    exact (congrFun updated ref).trans (Function.update_of_ne different _ _)

theorem evictVictim_table (evicts : evictVictim kernel = .ok kernel') :
    ∃ victim, kernel.lruCache.getLast? = some victim ∧ kernel'.lruCache = kernel.lruCache.dropLast ∧
      kernel'.allPcb = kernel.allPcb ∧ kernel'.trace = kernel.trace ++ [.pageEvict victim.1 victim.2] ∧
      kernel'.table = Function.update kernel.table victim (some ⟨fun _ => 0, fun _ => false⟩) := by
  unfold evictVictim at evicts
  split at evicts
  · simp at evicts
  · next victim last =>
      split at evicts
      · simp only [pageEvict, bind_eq_ok, Except.ok.injEq] at evicts
        obtain ⟨pcb, found, _, _, _, _, _, _, _, _, rfl⟩ := evicts
        refine ⟨victim, last, rfl, rfl, rfl, ?_⟩
        have updated := table_setPage ({ kernel with lruCache := kernel.lruCache.dropLast }.log (.pageEvict victim.1 victim.2))
          victim.1 victim.2 pcb ⟨fun _ => 0, fun _ => false⟩ pcb.sourceFile
        rw [table_setPcb_self (pcb_ok found)] at updated
        exact updated
      · simp at evicts

/-- A page fault loads its page, into a free frame or into that of the last page of the cache. -/
theorem pageFault_cases (faults : pageFault pid i kernel = .ok kernel') :
    kernel'.allPcb = kernel.allPcb ∧
      ((kernel'.trace = kernel.trace ++ [.loadPage pid i] ∧ kernel'.lruCache = (pid, i) :: kernel.lruCache ∧
          ∀ ref, ref ≠ (pid, i) → kernel'.table ref = kernel.table ref) ∨
        ∃ victim, kernel.lruCache.getLast? = some victim ∧
          kernel'.trace = kernel.trace ++ [.loadPage pid i] ++ [.pageEvict victim.1 victim.2] ++ [.loadPage pid i] ∧
          kernel'.lruCache = (pid, i) :: kernel.lruCache.dropLast ∧
          ∀ ref, ref ≠ (pid, i) → kernel'.table ref =
            Function.update kernel.table victim (some ⟨fun _ => 0, fun _ => false⟩) ref) := by
  simp only [pageFault, bind_eq_ok] at faults
  obtain ⟨⟨failed, kernel₁⟩, loads, faults⟩ := faults
  obtain ⟨lru₁, all₁, table₁⟩ := loadPage_table loads
  obtain ⟨trace₁, -⟩ := loadPage_trace loads
  split at faults
  · simp only [bind_eq_ok, Except.ok.injEq, exists_eq_left'] at faults
    obtain ⟨kernel₂, evicts, ⟨_, kernel₃⟩, loadsAgain, rfl⟩ := faults
    obtain ⟨victim, last, lru₂, all₂, trace₂, table₂⟩ := evictVictim_table evicts
    obtain ⟨lru₃, all₃, table₃⟩ := loadPage_table loadsAgain
    obtain ⟨trace₃, -⟩ := loadPage_trace loadsAgain
    refine ⟨all₃.trans (all₂.trans all₁), .inr ⟨victim, by rwa [lru₁] at last, by rw [trace₃, trace₂, trace₁], ?_, ?_⟩⟩
    · exact congrArg ((pid, i) :: ·) (lru₃.trans (lru₂.trans (by rw [lru₁])))
    · intro ref different
      refine (table₃ ref different).trans ?_
      rw [table₂, Function.update_apply, Function.update_apply, table₁ ref different]
  · simp only [bind_eq_ok, Except.ok.injEq, exists_eq_left'] at faults
    subst faults
    exact ⟨all₁, .inl ⟨trace₁, congrArg ((pid, i) :: ·) lru₁, table₁⟩⟩

/-- A run that does not fault hands over a line. -/
theorem runLine_handed (runs : runLine parseInput pid kernel = .ok (0, kernel')) :
    ∃ line, kernel'.trace = kernel.trace ++ [.handed pid line] ∧ kernel'.allPcb = kernel.allPcb ∧ kernel'.table = kernel.table := by
  simp only [runLine, bind_eq_ok] at runs
  obtain ⟨pcb, _, runs⟩ := runs
  simp only [runProc, bind_eq_ok] at runs
  obtain ⟨⟨code, kernel₁⟩, cpu, runs⟩ := runs
  obtain ⟨pcb, j, found, inTable, counter, outcome⟩ := cpuRun_cases cpu
  split at runs
  · simp [bind_eq_ok] at runs
  · next notFault =>
      simp only [bind_eq_ok, Except.ok.injEq, Prod.mk.injEq] at runs
      obtain ⟨kernel₂, touches, -, rfl⟩ := runs
      rcases outcome with ⟨_, faulted, _⟩ | ⟨_, line, _, _, rfl⟩
      · exact absurd faulted notFault
      · refine ⟨line, touch_trace touches, ?_, ?_⟩
        · unfold touch at touches
          simp only at touches
          split at touches
          · simp at touches
          · obtain rfl := Except.ok.inj touches
            rfl
        · funext ref
          have handed : (kernel.interpret parseInput pid line).pcbs pid = some pcb := found
          rw [table, (touch_ok touches).1]
          exact table_advance handed ref

/-- A run on a page whose line is not valid is a page fault. -/
theorem runLine_faulted {pcb : Pcb} {ret : Int} (runs : runLine parseInput pid kernel = .ok (ret, kernel'))
    (found : kernel.pcbs pid = some pcb) (invalid : ∀ j, (pcb.pageTable pcb.firstPage).validBit j = false) :
    pageFault pid pcb.firstPage kernel = .ok kernel' := by
  simp only [runLine, pcb_eq found, bind, Except.bind] at runs
  simp only [runProc, bind_eq_ok] at runs
  obtain ⟨⟨code, kernel₁⟩, cpu, runs⟩ := runs
  obtain ⟨pcb', j, found', inTable, counter, outcome⟩ := cpuRun_cases cpu
  obtain rfl : pcb = pcb' := Option.some.inj (found.symm.trans found')
  rcases outcome with ⟨_, rfl, rfl⟩ | ⟨valid, _⟩
  · simp only [if_true, bind_eq_ok, Except.ok.injEq, Prod.mk.injEq] at runs
    obtain ⟨kernel₂, faults, _, rfl⟩ := runs
    exact faults
  · rw [invalid j] at valid
    cases valid

end Steps

/-- The invariant of the cache within a turn. -/
structure RecencyKept (loads : List PageRef) (kernel : Kernel World) : Prop where
  recency : ByRecency (uses loads kernel.trace) kernel.lruCache
  held : ∀ ref, kernel.InMemory ref → ref ∈ kernel.lruCache

section Kept

variable {loads : List PageRef}

theorem RecencyKept.execute (kept : RecencyKept loads kernel) (runs : runLine parseInput pid kernel = .ok (0, kernel'))
    (moved : kernel'.lruCache = (pid, (handedTo pid kernel.trace).length / 3) ::
      kernel.lruCache.erase (pid, (handedTo pid kernel.trace).length / 3)) : RecencyKept loads kernel' := by
  obtain ⟨line, trace, all, tables⟩ := runLine_handed runs
  refine ⟨by rw [trace, moved, uses_handed]; exact kept.recency.touch _, fun ref inMemory => ?_⟩
  rw [InMemory, all, tables] at inMemory
  have before := kept.held ref inMemory
  rw [moved, List.mem_cons]
  by_cases same : ref = (pid, (handedTo pid kernel.trace).length / 3)
  · exact .inl same
  · exact .inr ((List.mem_erase_of_ne same).mpr before)

theorem RecencyKept.fault (kept : RecencyKept loads kernel) (faults : pageFault pid i kernel = .ok kernel')
    (absent : (pid, i) ∉ kernel.lruCache) : RecencyKept loads kernel' ∧
      (kernel'.trace = kernel.trace ++ [.loadPage pid i] ∨
        ∃ victim, kernel.lruCache.getLast? = some victim ∧
          kernel'.trace = kernel.trace ++ [.loadPage pid i] ++ [.pageEvict victim.1 victim.2] ++ [.loadPage pid i]) := by
  obtain ⟨all, ⟨trace, moved, tables⟩ | ⟨victim, last, trace, moved, tables⟩⟩ := pageFault_cases faults
  · refine ⟨⟨by rw [trace, moved, uses_loadPage]; exact kept.recency.load absent, fun ref ⟨owner, page, entry, valid⟩ => ?_⟩, .inl trace⟩
    rw [moved, List.mem_cons]
    by_cases same : ref = (pid, i)
    · exact .inl same
    · rw [tables ref same] at entry
      exact .inr (kept.held ref ⟨all ▸ owner, page, entry, valid⟩)
  · have fewer := kept.recency.sublist (List.dropLast_sublist kernel.lruCache)
    have absent' : (pid, i) ∉ kernel.lruCache.dropLast := fun member => absent ((List.dropLast_sublist _).mem member)
    refine ⟨⟨?_, fun ref ⟨owner, page, entry, valid⟩ => ?_⟩, .inr ⟨victim, last, trace⟩⟩
    · rw [trace, moved, uses_loadPage, uses_pageEvict, uses_loadPage]
      exact (fewer.skip absent').load absent'
    · rw [moved, List.mem_cons]
      by_cases same : ref = (pid, i)
      · exact .inl same
      · rw [tables ref same] at entry
        by_cases evicted : ref = victim
        · rw [evicted, Function.update_self] at entry
          obtain ⟨j, valid⟩ := valid
          rw [← Option.some.inj entry] at valid
          cases valid
        · rw [Function.update_of_ne evicted] at entry
          have before := kept.held ref ⟨all ▸ owner, page, entry, valid⟩
          obtain ⟨rest, split⟩ := List.getLast?_eq_some_iff.mp last
          rw [split, List.mem_append, List.mem_singleton] at before
          rw [split, List.dropLast_concat]
          exact .inr (before.resolve_right evicted)

end Kept

section Turns

variable {jobs : Jobs} {paging : Paging} {loads : List PageRef}

/-- In a list with a single marked item this item stands where it was put. -/
theorem split_unique {A : Type} (marked : A → Prop) {left right before after : List A} {first second : A}
    (same : left ++ first :: right = before ++ second :: after) (isMarked : marked second)
    (leftFree : ∀ item ∈ left, ¬ marked item) (rightFree : ∀ item ∈ right, ¬ marked item) :
    left = before ∧ first = second := by
  rcases List.append_eq_append_iff.mp same with ⟨more, rfl, tail⟩ | ⟨more, rfl, tail⟩
  · cases more with
    | nil => exact ⟨(List.append_nil left).symm, (List.cons.inj tail).1⟩
    | cons item more =>
        have inRight : second ∈ right := by rw [(List.cons.inj tail).2]; simp
        exact absurd isMarked (rightFree second inRight)
  · cases more with
    | nil => exact ⟨List.append_nil before, (List.cons.inj tail).1.symm⟩
    | cons item more =>
        have here : second = item := (List.cons.inj tail).1
        exact absurd isMarked (leftFree second (by simp [here]))

/-- The events of a turn before its page fault. -/
def HandsOnly (kernel next : Kernel World) : Prop :=
  ∃ events, next.trace = kernel.trace ++ events ∧ ∀ event ∈ events, event.isPaging = false

theorem HandsOnly.evictsOldest {next : Kernel World} (hands : HandsOnly kernel next) : EvictsOldest loads kernel next := by
  obtain ⟨events, trace, silent⟩ := hands
  refine ⟨events, trace, fun before ref after same => ?_⟩
  have member : Event.pageEvict ref.1 ref.2 ∈ events := by rw [same]; simp
  exact absurd (silent _ member) (by simp [Event.isPaging])

/-- A fault after some handed lines evicts the page with the oldest last use. -/
theorem RecencyKept.evictsOldest {middle next : Kernel World} (kept : RecencyKept loads middle) (absent : (pid, i) ∉ middle.lruCache)
    (hands : HandsOnly kernel middle) (same : ∀ ref, ref ∈ middle.lruCache ↔ kernel.InMemory ref)
    {victim : PageRef} (last : middle.lruCache.getLast? = some victim)
    (trace : next.trace = middle.trace ++ [.loadPage pid i] ++ [.pageEvict victim.1 victim.2] ++ [.loadPage pid i]) :
    EvictsOldest loads kernel next := by
  obtain ⟨lines, handed, silent⟩ := hands
  refine ⟨(lines ++ [.loadPage pid i]) ++ .pageEvict victim.1 victim.2 :: [.loadPage pid i], ?_, fun before ref after split => ?_⟩
  · simp [trace, handed]
  · have free : ∀ event ∈ lines ++ [.loadPage pid i], ¬ ∃ ref : PageRef, event = .pageEvict ref.1 ref.2 := by
      rintro event member ⟨ref, rfl⟩
      rcases List.mem_append.mp member with line | load
      · exact absurd (silent _ line) (by simp [Event.isPaging])
      · simp at load
    obtain ⟨rfl, evicted⟩ := split_unique (fun event => ∃ ref : PageRef, event = .pageEvict ref.1 ref.2) split ⟨ref, rfl⟩ free
      (by simp)
    obtain rfl : victim = ref := by
      injection evicted with owner page
      exact Prod.ext owner page
    obtain ⟨inside, older⟩ := (kept.recency.skip absent).oldest last
    have whole : kernel.trace ++ (lines ++ [.loadPage pid i]) = middle.trace ++ [.loadPage pid i] := by
      rw [handed, List.append_assoc]
    rw [whole, uses_loadPage]
    exact ⟨(same victim).mp inside, fun other member => older other ((same other).mpr member)⟩

/-- The pages of the cache are in memory. -/
theorem Represents.inMemory {ready : List Nat} (represents : Represents jobs paging kernel)
    (consistent : Paging.Consistent jobs.work ready paging) (runs : Runs jobs parseInput) {ref : PageRef}
    (member : ref ∈ kernel.lruCache) : kernel.InMemory ref := by
  obtain ⟨frame, frames, placed⟩ := represents.resident
  rw [represents.lru] at member
  obtain ⟨known, before⟩ := consistent.lruKnown ref member
  obtain ⟨page, entry, at_⟩ := placed ref member
  have pages : paging.loaded ref.1 ≤ pageTableSize (jobs.count ref.1) := consistent.loadedPages ref.1 known
  have lines := runs.enough ref.1 known
  refine ⟨represents.allPcb ▸ known, page, entry, 0, ?_⟩
  rw [at_.valid, decide_eq_true_iff, Fin.val_zero]
  rw [pageTableSize] at pages
  split at pages <;> omega

theorem Represents.lruExact {ready : List Nat} (represents : Represents jobs paging kernel)
    (consistent : Paging.Consistent jobs.work ready paging) (runs : Runs jobs parseInput) (kept : RecencyKept loads kernel) :
    LruExact loads kernel where
  listed := fun ref => ⟨represents.inMemory consistent runs, kept.held ref⟩
  once := kept.recency.nodup
  apart := kept.recency.nodup.map_on fun _ inside other member same =>
    (represents.apart inside other member same).symm
  recency := kept.recency

/-- Each turn keeps the cache in order and evicts the page with the oldest last use. -/
theorem Represents.turn_kept (represents : Represents jobs paging kernel) (runs : Runs jobs parseInput)
    (settled : Paging.Settled jobs.work paging) (running : kernel.queueDone = false) (kept : RecencyKept loads kernel) :
    ∃ kernel' paging', rrTurn parseInput kernel = .ok kernel' ∧ Paging.Turn jobs.work paging paging' ∧
      Represents jobs paging' kernel' ∧ RecencyKept loads kernel' ∧ EvictsOldest loads kernel kernel' := by
  let mid := fun (_ : Paging) (middle : Kernel World) =>
    RecencyKept loads middle ∧ HandsOnly kernel middle ∧ ∀ ref, ref ∈ middle.lruCache ↔ kernel.InMemory ref
  let final := fun (_ : Paging) (next : Kernel World) => RecencyKept loads next ∧ EvictsOldest loads kernel next
  have exact_ := represents.lruExact settled.consistent runs kept
  refine represents.turn_induction mid final runs settled running ?_ ?_ ?_ ?_
  · exact fun rest => ⟨⟨kept.recency, kept.held⟩, ⟨[], (List.append_nil _).symm, by simp⟩, exact_.listed⟩
  · intro pid rest steps paging middle next before turning left inside ran after ⟨kept, ⟨events, trace, silent⟩, same⟩
    have known := turning.consistent.readyKnown pid (by simp)
    have enough := runs.enough pid known
    have count : (handedTo pid middle.trace).length = paging.done pid := by
      rw [before.handed pid known, List.length_map, List.length_take]
      omega
    have present := turning.present left inside
    have moved : next.lruCache = (pid, (handedTo pid middle.trace).length / 3) ::
        middle.lruCache.erase (pid, (handedTo pid middle.trace).length / 3) := by
      rw [count, after.lru, before.lru]
      rfl
    obtain ⟨line, handed, -⟩ := runLine_handed ran
    refine ⟨kept.execute ran moved, ⟨events ++ [.handed pid line], by rw [handed, trace, List.append_assoc], ?_⟩, fun ref => ?_⟩
    · intro event member
      rcases List.mem_append.mp member with earlier | last
      · exact silent event earlier
      · rw [List.mem_singleton.mp last]
        rfl
    · rw [← same, moved, count]
      rw [← before.lru] at present
      exact (List.perm_cons_erase present).mem_iff.symm
  · intro pid rest steps paging middle next before turning left outside ran ⟨kept, hands, same⟩
    have known := turning.consistent.readyKnown pid (by simp)
    obtain ⟨pcb, found, state⟩ := before.pcbs pid known
    have page : pcb.firstPage = paging.loaded pid := by
      have := turning.consistent.doneLoaded pid known
      rw [state.firstPage left]
      omega
    have faults := runLine_faulted ran found fun j => state.fresh _ (by rw [page]) j
    rw [page] at faults
    have absent : (pid, paging.loaded pid) ∉ middle.lruCache := fun member =>
      absurd (turning.consistent.lruKnown _ (before.lru ▸ member)).2 (Nat.lt_irrefl _)
    obtain ⟨kept', trace | ⟨victim, last, trace⟩⟩ := kept.fault faults absent
    · obtain ⟨events, handed, silent⟩ := hands
      refine ⟨kept', events ++ [.loadPage pid (paging.loaded pid)], by rw [trace, handed, List.append_assoc], ?_⟩
      intro first ref after split
      have member : Event.pageEvict ref.1 ref.2 ∈ events ++ [.loadPage pid (paging.loaded pid)] := by rw [split]; simp
      rcases List.mem_append.mp member with line | load
      · exact absurd (silent _ line) (by simp [Event.isPaging])
      · simp at load
    · exact ⟨kept', kept.evictsOldest absent hands same last trace⟩
  · exact fun queue other ⟨kept, hands, _⟩ => ⟨⟨kept.recency, kept.held⟩, hands.evictsOldest⟩

end Turns

section Runs

variable {jobs : Jobs} {loads : List PageRef}

theorem pushPages_eq (pid : Nat) (cache : List PageRef) (count : Nat) :
    pushPages pid cache count = ((List.range count).map (pid, ·)).reverse ++ cache := by
  induction count with
  | zero => rfl
  | succ count ih => rw [pushPages_succ, ih, List.range_succ, List.map_append, List.reverse_append]; rfl

theorem start_lru (work : Workload) (pids : List Nat) :
    (Paging.start work pids).lru = (pids.flatMap fun pid => (List.range (work.initial pid)).map (pid, ·)).reverse := by
  induction pids using List.reverseRecOn with
  | nil => rfl
  | append_singleton pids pid ih =>
      rw [Paging.start_append, pushPages_eq, ih, List.flatMap_append, List.reverse_append, List.flatMap_singleton]

/-- The first loads are those in the cache. -/
theorem Represents.firstLoads_eq {loaded : Kernel World}
    (represents : Represents jobs (Paging.start jobs.work jobs.pids) loaded) : firstLoads loaded = loaded.lruCache := by
  rw [represents.lru, start_lru, firstLoads, represents.allPcb]
  congr 1
  refine List.flatMap_congr fun pid known => ?_
  obtain ⟨pcb, found, state⟩ := represents.pcbs pid known
  have limit : pcb.pageLimit = jobs.work.initial pid := by
    have pages : jobs.work.pages pid = pcb.pageTableSize := state.tableSize.symm
    rw [Pcb.pageLimit, Workload.initial, pages]
    split <;> omega
  rw [found, Option.elim_some, limit]

/-- After the loads the cache is in order. -/
theorem Represents.firstLoads_kept {loaded : Kernel World}
    (represents : Represents jobs (Paging.start jobs.work jobs.pids) loaded) (admissible : jobs.work.Admissible)
    (silent : loaded.trace = []) : RecencyKept (firstLoads loaded) loaded := by
  have same := represents.firstLoads_eq
  have nodup : loaded.lruCache.Nodup := represents.lru ▸ Paging.nodup_start admissible.distinct
  refine ⟨by rw [silent, same]; exact ByRecency.ofNodup nodup, fun ref inMemory => ?_⟩
  obtain ⟨owner, page, entry, j, valid⟩ := inMemory
  rw [represents.allPcb] at owner
  rw [represents.lru]
  obtain ⟨pcb, found, state⟩ := represents.pcbs ref.1 owner
  refine Paging.mem_start.mpr ⟨owner, ?_⟩
  by_contra beyond
  have fresh := state.fresh ref.2 (Nat.le_of_not_lt beyond) j
  have entryEq : pcb.pageTable ref.2 = page := by simpa [table, found] using entry
  rw [entryEq, valid] at fresh
  cases fresh

/-- The invariant of a run holds in every state between two turns. -/
theorem BetweenTurns.kept {loaded : Kernel World} (runs : Runs jobs parseInput)
    (represents : Represents jobs (Paging.start jobs.work jobs.pids) loaded) (silent : loaded.trace = [])
    (reached : BetweenTurns parseInput loaded kernel) : ∃ paging, Represents jobs paging kernel ∧
      Paging.Settled jobs.work paging ∧ RecencyKept (firstLoads loaded) kernel := by
  induction reached with
  | loaded =>
      exact ⟨_, represents, Paging.settled_start runs.admissible, represents.firstLoads_kept runs.admissible silent⟩
  | turn reached running turns ih =>
      obtain ⟨paging, represents, settled, kept⟩ := ih
      obtain ⟨next, paging', same, turn, after, kept', -⟩ := represents.turn_kept runs settled running kept
      obtain rfl := Except.ok.inj (turns.symm.trans same)
      exact ⟨paging', after, settled.turn runs.admissible turn, kept'⟩

end Runs

/-- Between any two turns the cache is exact, the next turn goes through, and it evicts the page with the oldest last use. -/
theorem lruCache_exact (parseInput : Interpreter World) (scripts : List Script) (first : Nat) (memory : ShellMemory)
    (world : World)
    (other : ∀ script ∈ scripts, ∀ line ∈ Script.withNewlines script.lines, ∀ world, (parseInput (strdup line) world).ret ≠ 1)
    (empty : ∀ pos < memory.frameStoreSize, (memory.slots pos).var = noneStr)
    (room : (scripts.map fun script => min 2 ((script.lines.length + 2) / 3)).sum ≤ memory.frameStoreSize / 3) :
    ∃ loaded, newProcs (scripts.map fun script => some script.file) (kernelSetup first memory world) = .ok loaded ∧
      ∀ kernel, BetweenTurns parseInput loaded kernel → LruExact (firstLoads loaded) kernel ∧
        (kernel.queueDone = false → ∃ next, rrTurn parseInput kernel = .ok next ∧
          EvictsOldest (firstLoads loaded) kernel next) := by
  obtain ⟨fits, runs⟩ := runs_scripts first other room
  obtain ⟨loaded, loads, silent, represents, _⟩ :=
    newProcs_kernelSetup (scripts.map Script.file) first memory world empty fits
  refine ⟨loaded, by rwa [List.map_map] at loads, fun kernel reached => ?_⟩
  obtain ⟨paging, represents, settled, kept⟩ := reached.kept runs represents silent
  refine ⟨represents.lruExact settled.consistent runs kept, fun running => ?_⟩
  obtain ⟨next, _, turns, _, _, _, evicts⟩ := represents.turn_kept runs settled running kept
  exact ⟨next, turns, evicts⟩

/-- One script of seven lines in a memory with two frames. -/
theorem lruCache_exact_seven : ∃ loaded : Kernel Unit,
    newProcs [some (Script.file ⟨List.replicate 7 [97], by decide, by decide⟩)] (kernelSetup 1 (ShellMemory.memInit 6 2) ()) =
      .ok loaded ∧
    ∀ kernel, BetweenTurns (fun _ world => ⟨0, [], world⟩) loaded kernel → LruExact (firstLoads loaded) kernel ∧
      (kernel.queueDone = false → ∃ next, rrTurn (fun _ world => ⟨0, [], world⟩) kernel = .ok next ∧
        EvictsOldest (firstLoads loaded) kernel next) :=
  lruCache_exact (fun _ world => ⟨0, [], world⟩) [⟨List.replicate 7 [97], by decide, by decide⟩] 1 (ShellMemory.memInit 6 2) ()
    (fun _ _ _ _ _ => by simp) (fun _ _ => rfl) (by decide)

end MockOS.Proc.Kernel
