import MockOS.Proc.RoundRobin

namespace MockOS.Proc

/-- The order in which the first pages of a process enter the cache. -/
def pushPages (pid : Nat) (cache : List PageRef) (count : Nat) : List PageRef :=
  (List.range count).foldl (fun cache i => (pid, i) :: cache) cache

theorem pushPages_succ (pid : Nat) (cache : List PageRef) (count : Nat) :
    pushPages pid cache (count + 1) = (pid, count) :: pushPages pid cache count := by
  simp [pushPages, List.range_succ]

theorem mem_pushPages {pid count : Nat} {cache : List PageRef} {ref : PageRef} :
    ref ∈ pushPages pid cache count ↔ ref ∈ cache ∨ ref.1 = pid ∧ ref.2 < count := by
  induction count with
  | zero => simp [pushPages]
  | succ count ih =>
      rw [pushPages_succ, List.mem_cons, ih, Prod.ext_iff]
      constructor
      · rintro (⟨owner, page⟩ | old | ⟨owner, page⟩)
        · exact .inr ⟨owner, by simp only at page; omega⟩
        · exact .inl old
        · exact .inr ⟨owner, by omega⟩
      · rintro (old | ⟨owner, page⟩)
        · exact .inr (.inl old)
        · rcases Nat.lt_succ_iff_lt_or_eq.mp page with less | same
          · exact .inr (.inr ⟨owner, less⟩)
          · exact .inl ⟨owner, same⟩

theorem length_pushPages (pid : Nat) (cache : List PageRef) (count : Nat) :
    (pushPages pid cache count).length = cache.length + count := by
  induction count with
  | zero => simp [pushPages]
  | succ count ih => rw [pushPages_succ, List.length_cons, ih]; omega

theorem nodup_pushPages {pid : Nat} {cache : List PageRef} (count : Nat) (nodup : cache.Nodup)
    (absent : ∀ ref ∈ cache, ref.1 ≠ pid) : (pushPages pid cache count).Nodup := by
  induction count with
  | zero => simpa [pushPages] using nodup
  | succ count ih =>
      rw [pushPages_succ, List.nodup_cons, mem_pushPages]
      refine ⟨?_, ih⟩
      rintro (old | ⟨_, page⟩)
      · exact absent _ old rfl
      · simp at page

namespace Paging

/-- The state after the loads: no line has run, and the initial pages are in the cache. -/
def start (work : Workload) (pids : List Nat) : Paging where
  queue := pids
  lru := pids.foldl (fun cache pid => pushPages pid cache (work.initial pid)) []
  done := fun _ => 0
  loaded := work.initial

variable {work : Workload}

theorem start_append (pids : List Nat) (pid : Nat) :
    (start work (pids ++ [pid])).lru = pushPages pid (start work pids).lru (work.initial pid) := by
  simp [start]

theorem mem_start {pids : List Nat} {ref : PageRef} :
    ref ∈ (start work pids).lru ↔ ref.1 ∈ pids ∧ ref.2 < work.initial ref.1 := by
  induction pids using List.reverseRecOn with
  | nil => simp [start]
  | append_singleton pids pid ih =>
      rw [start_append, mem_pushPages, ih, List.mem_append, List.mem_singleton]
      constructor
      · rintro (⟨old, page⟩ | ⟨owner, page⟩)
        · exact ⟨.inl old, page⟩
        · exact ⟨.inr owner, owner ▸ page⟩
      · rintro ⟨old | owner, page⟩
        · exact .inl ⟨old, page⟩
        · exact .inr ⟨owner, owner ▸ page⟩

theorem length_start (pids : List Nat) : (start work pids).lru.length = (pids.map work.initial).sum := by
  induction pids using List.reverseRecOn with
  | nil => rfl
  | append_singleton pids pid ih => simp [start_append, length_pushPages, ih]

theorem nodup_start {pids : List Nat} (distinct : pids.Nodup) : (start work pids).lru.Nodup := by
  induction pids using List.reverseRecOn with
  | nil => simp [start]
  | append_singleton pids pid ih =>
      obtain ⟨earlier, _, apart⟩ := List.nodup_append.mp distinct
      rw [start_append]
      refine nodup_pushPages _ (ih earlier) fun ref member => ?_
      exact apart _ (mem_start.mp member).1 _ (by simp)

/-- After the loads the invariant of the scheduler holds. -/
theorem settled_start (admissible : work.Admissible) : Settled work (start work work.pids) where
  consistent :=
    { readyNodup := admissible.distinct
      readyKnown := fun _ member => member
      lruNodup := nodup_start admissible.distinct
      lruKnown := fun _ member => mem_start.mp member
      lruFits := by rw [length_start]; exact admissible.room
      doneCount := fun _ _ => Nat.zero_le _
      doneLoaded := fun _ _ => Nat.zero_le _
      loadedPages := fun _ _ => Nat.min_le_right _ _
      finished := fun _ member away => absurd member away }
  phase := .inl
    { loaded := fun _ _ => rfl
      resident := fun _ known _ inside => mem_start.mpr ⟨known, inside⟩
      even := fun _ _ _ => rfl
      level := List.pairwise_of_forall fun _ _ => ⟨.inl (Nat.le_refl _), .inl (Nat.zero_le _)⟩ }

end Paging

namespace Kernel

open ShellMemory

variable {World : Type} {jobs : Jobs} {kernel : Kernel World} {pid : Nat}

/-- The first pages of a new process are read one after the other. -/
theorem initPages_spec {memory : ShellMemory} {lru : List PageRef} {pcb : Pcb} (i count : Nat)
    (state : PcbAt jobs pid 0 i pcb) (frameSize : memory.frameStoreSize = jobs.frameStoreSize)
    (absent : ∀ ref ∈ lru, ref.1 ≠ pid) (room : lru.length + i + count ≤ jobs.frameStoreSize / 3)
    (resident : Resident jobs (kernel.setPcb pid pcb).table memory (pushPages pid lru i)) :
    ∃ pcb' memory', Pcb.initPages pid (List.range' i count) pcb memory = .ok (pcb', memory') ∧
      PcbAt jobs pid 0 (i + count) pcb' ∧ memory'.frameStoreSize = memory.frameStoreSize ∧
      memory'.varStoreSize = memory.varStoreSize ∧
      Resident jobs (kernel.setPcb pid pcb').table memory' (pushPages pid lru (i + count)) ∧
      (∀ slot, 3 * (memory.frameStoreSize / 3) ≤ slot → memory'.slots slot = memory.slots slot) ∧
      (memory.FreeFrom (lru.length + i) → memory'.FreeFrom (lru.length + (i + count))) := by
  induction count generalizing i pcb memory with
  | zero => exact ⟨pcb, memory, rfl, state, rfl, rfl, resident, fun _ _ => rfl, id⟩
  | succ count ih =>
      have fresh : (pid, i) ∉ pushPages pid lru i := by
        rw [mem_pushPages]
        rintro (old | ⟨_, page⟩)
        · exact absent _ old rfl
        · simp at page
      obtain ⟨pos, marked, page, file, memory₁, allocated, places, left, inside, frameSize₁, varSize₁, resident₁, above₁,
          free₁⟩ := resident.place fresh (by rw [length_pushPages, frameSize]; omega) pcb state.file
      rw [← table_setPage, ← pushPages_succ] at resident₁
      rw [length_pushPages] at free₁
      obtain ⟨pcb', memory', inits, state', frameSize', varSize', resident', above', free'⟩ :=
        ih (i + 1) (state.load left fun j => frameSize ▸ inside j) (frameSize₁.trans frameSize) (by omega) resident₁
      refine ⟨pcb', memory', ?_, by rwa [Nat.add_comm count 1, ← Nat.add_assoc], frameSize'.trans frameSize₁,
        varSize'.trans varSize₁, by rwa [Nat.add_comm count 1, ← Nat.add_assoc], fun slot high => ?_, fun free => ?_⟩
      rotate_left
      · rw [above' slot (by rw [frameSize₁]; exact high), above₁ slot high]
      · rw [Nat.add_comm count 1, ← Nat.add_assoc i]
        exact free' (free₁ free)
      rw [List.range'_succ, Pcb.initPages, allocated]
      simp only [bind, Except.bind, places]
      exact inits

/-- `new_proc` loads the first pages of one more script. -/
theorem newProc_spec {pids : List Nat} {file : List UInt8}
    (represents : Represents { jobs with pids := pids } (Paging.start jobs.work pids) kernel)
    (next : kernel.pidCounter = pid) (fresh : pid ∉ pids) (silent : kernel.trace = [])
    (lines : jobs.lines pid = fetched file) (count : jobs.count pid = countLines file)
    (room : ((pids ++ [pid]).map jobs.work.initial).sum ≤ jobs.frameStoreSize / 3) :
    ∃ kernel', newProc (some file) kernel = .ok kernel' ∧ kernel'.pidCounter = pid + 1 ∧ kernel'.trace = [] ∧
      Represents { jobs with pids := pids ++ [pid] } (Paging.start jobs.work (pids ++ [pid])) kernel' ∧
      Moves kernel kernel' ∧ (kernel.memory.FreeFrom (Paging.start jobs.work pids).lru.length →
        kernel'.memory.FreeFrom (Paging.start jobs.work (pids ++ [pid])).lru.length) := by
  set pcb : Pcb := ⟨countLines file, fun _ => 0, fun _ => pageInit, pageTableSize (countLines file), file⟩ with pcbEq
  have state : PcbAt jobs pid 0 0 pcb :=
    ⟨by simp [pcbEq, count], by simp [pcbEq], by rw [count], by simp [pcbEq, lines],
      fun _ _ _ => rfl, fun _ inside => absurd inside (Nat.not_lt_zero _)⟩
  have absent : ∀ ref ∈ (Paging.start jobs.work pids).lru, ref.1 ≠ pid :=
    fun ref member => ne_of_mem_of_not_mem (Paging.mem_start.mp member).1 fresh
  have limit : pcb.pageLimit = jobs.work.initial pid := by
    simp only [Pcb.pageLimit, pcbEq, Workload.initial, Workload.pages, Jobs.work, count]
    split <;> omega
  have resident : Resident jobs (kernel.setPcb pid pcb).table kernel.memory
      (pushPages pid (Paging.start jobs.work pids).lru 0) := by
    obtain ⟨frame, frames, placed⟩ := represents.resident
    refine ⟨frame, frames, fun ref member => ?_⟩
    rw [table_setPcb, if_neg (absent ref member)]
    exact placed ref member
  obtain ⟨pcb', memory', inits, state', frameSize, varSize, resident', above, free⟩ :=
    initPages_spec 0 (jobs.work.initial pid) state represents.frameStoreSize absent
      (by rw [Paging.length_start]; simpa using room) resident
  rw [← limit, ← List.range_eq_range'] at inits
  have loads : newProc (some file) kernel = .ok { kernel.setPcb pid pcb' with
      pidCounter := pid + 1
      memory := memory'
      allPcb := kernel.allPcb ++ [pid]
      queue := kernel.queue ++ [pid]
      lruCache := pushPages pid kernel.lruCache pcb'.pageLimit } := by
    simp only [newProc, Pcb.pcbInit, next, bind, Except.bind]
    rw [← pcbEq, inits]
    rfl
  have limit' : pcb'.pageLimit = jobs.work.initial pid := by
    rw [← limit, Pcb.pageLimit, Pcb.pageLimit, state'.tableSize, state.tableSize]
  refine ⟨_, loads, rfl, silent, ?_, ⟨rfl, rfl, frameSize, varSize, above⟩, fun before => ?_⟩
  rotate_left
  · rw [Paging.start_append, length_pushPages]
    simpa using free before
  constructor
  case queue => exact congrArg (· ++ [pid]) represents.queue
  case lru =>
    rw [Paging.start_append, ← limit', ← represents.lru]
  case allPcb => exact congrArg (· ++ [pid]) represents.allPcb
  case frameStoreSize => exact frameSize.trans represents.frameStoreSize
  case varStoreSize => exact varSize.trans represents.varStoreSize
  case pcbs =>
    intro one member
    by_cases equal : one = pid
    · subst equal
      refine ⟨pcb', by simp [setPcb], ?_⟩
      simpa [Paging.start] using state'.withPids (pids ++ [one])
    · have old : one ∈ pids := by simpa [equal] using member
      obtain ⟨pcb₁, found, state₁⟩ := represents.pcbs one old
      exact ⟨pcb₁, by simpa [setPcb, equal] using found, state₁.withPids _⟩
  case resident =>
    rw [Nat.zero_add] at resident'
    rw [Paging.start_append]
    exact resident'
  case handed =>
    intro one _
    change handedTo one kernel.trace = _
    simp [silent, handedTo, Paging.start]

/-- Loading the scripts one after the other. -/
theorem newProcs_spec (files : List (List UInt8)) {pids : List Nat} {first : Nat}
    (represents : Represents { jobs with pids := pids } (Paging.start jobs.work pids) kernel)
    (next : kernel.pidCounter = first) (fresh : ∀ pid ∈ pids, pid < first) (silent : kernel.trace = [])
    (scripts : ∀ i (inside : i < files.length), jobs.lines (first + i) = fetched files[i] ∧
      jobs.count (first + i) = countLines files[i])
    (room : ((pids ++ List.range' first files.length).map jobs.work.initial).sum ≤ jobs.frameStoreSize / 3) :
    ∃ kernel', newProcs (files.map some) kernel = .ok kernel' ∧ kernel'.trace = [] ∧
      Represents { jobs with pids := pids ++ List.range' first files.length }
        (Paging.start jobs.work (pids ++ List.range' first files.length)) kernel' ∧
      Moves kernel kernel' ∧ (kernel.memory.FreeFrom (Paging.start jobs.work pids).lru.length →
        kernel'.memory.FreeFrom (Paging.start jobs.work (pids ++ List.range' first files.length)).lru.length) := by
  induction files generalizing kernel pids first with
  | nil => exact ⟨kernel, rfl, silent, by simpa using represents, ⟨rfl, rfl, rfl, rfl, fun _ _ => rfl⟩, by simp⟩
  | cons file rest ih =>
      have split : pids ++ List.range' first (rest.length + 1) =
          pids ++ [first] ++ List.range' (first + 1) rest.length := by simp [List.range'_succ]
      rw [List.length_cons, split] at room
      rw [List.length_cons, split]
      obtain ⟨lines, count⟩ := scripts 0 (by simp)
      obtain ⟨kernel₁, loads, next₁, silent₁, represents₁, moves₁, free₁⟩ := newProc_spec represents next
        (fun member => absurd (fresh first member) (Nat.lt_irrefl _)) silent (by simpa using lines)
        (by simpa using count) (by
          rw [List.map_append, List.sum_append] at room
          omega)
      obtain ⟨kernel', loadsRest, silent', represents', moves', free'⟩ := ih represents₁ next₁
        (fun pid member => by
          rcases List.mem_append.mp member with old | new
          · exact Nat.lt_succ_of_lt (fresh pid old)
          · rw [List.mem_singleton.mp new]; exact Nat.lt_succ_self _)
        silent₁
        (fun i inside => by
          have later := scripts (i + 1) (by simpa using inside)
          rw [Nat.add_assoc, Nat.add_comm 1 i]
          simpa using later)
        room
      refine ⟨kernel', ?_, silent', represents', moves₁.trans moves', fun before => free' (free₁ before)⟩
      simp only [List.map_cons, newProcs, loads, bind, Except.bind]
      exact loadsRest

end Kernel

/-- The ids that `new_proc` hands out from `first` on, and what the scripts contain. -/
def Jobs.ofScripts (first : Nat) (scripts : List (List UInt8)) (memory : ShellMemory) : Jobs where
  pids := List.range' first scripts.length
  lines := fun pid => fetched (scripts.getD (pid - first) [])
  count := fun pid => countLines (scripts.getD (pid - first) [])
  frameStoreSize := memory.frameStoreSize
  varStoreSize := memory.varStoreSize

theorem Jobs.mem_pids {first : Nat} {scripts : List (List UInt8)} {memory : ShellMemory} {pid : Nat} :
    pid ∈ (Jobs.ofScripts first scripts memory).pids ↔ ∃ i < scripts.length, pid = first + i := by
  simp only [Jobs.ofScripts, List.mem_range'_1]
  constructor
  · exact fun ⟨low, high⟩ => ⟨pid - first, by omega, by omega⟩
  · rintro ⟨i, inside, rfl⟩
    omega

namespace Kernel

variable {World : Type}

/-- The frames that the scripts need at first. -/
def initialFrames (scripts : List (List UInt8)) : Nat :=
  (scripts.map fun file => min 2 (pageTableSize (countLines file))).sum

theorem initial_sum (first : Nat) (scripts : List (List UInt8)) (memory : ShellMemory) :
    ((Jobs.ofScripts first scripts memory).pids.map (Jobs.ofScripts first scripts memory).work.initial).sum =
      initialFrames scripts := by
  unfold initialFrames
  congr 1
  refine List.ext_getElem (by simp [Jobs.ofScripts]) fun i inside _ => ?_
  have small : i < scripts.length := by simpa [Jobs.ofScripts] using inside
  simp [Jobs.ofScripts, Jobs.work, Workload.initial, Workload.pages, small]

theorem represents_kernelSetup (scripts : List (List UInt8)) (first : Nat) (memory : ShellMemory) (world : World)
    (empty : ∀ pos < memory.frameStoreSize, (memory.slots pos).var = noneStr) :
    Represents { Jobs.ofScripts first scripts memory with pids := [] }
      (Paging.start (Jobs.ofScripts first scripts memory).work []) (kernelSetup first memory world) := by
  refine ⟨rfl, rfl, rfl, rfl, rfl, by simp, ?_, by simp⟩
  refine ⟨fun _ => 0, ⟨List.nodup_nil, by simp [Paging.start], by simp [Paging.start], ?_⟩, by simp [Paging.start]⟩
  intro frame inside _ j small
  exact empty _ (by simp only [kernelSetup] at inside; omega)

/-- With an empty frame store and room for the initial pages all scripts are loaded. -/
theorem newProcs_kernelSetup (scripts : List (List UInt8)) (first : Nat) (memory : ShellMemory) (world : World)
    (empty : ∀ pos < memory.frameStoreSize, (memory.slots pos).var = noneStr)
    (room : initialFrames scripts ≤ memory.frameStoreSize / 3) :
    ∃ kernel : Kernel World, newProcs (scripts.map some) (kernelSetup first memory world) = .ok kernel ∧
      kernel.trace = [] ∧
      Represents (Jobs.ofScripts first scripts memory)
        (Paging.start (Jobs.ofScripts first scripts memory).work (Jobs.ofScripts first scripts memory).pids) kernel ∧
      ∀ parseInput : Interpreter World, Intact parseInput (world, memory) (Jobs.ofScripts first scripts memory)
        (Paging.start (Jobs.ofScripts first scripts memory).work (Jobs.ofScripts first scripts memory).pids) kernel := by
  have next : (kernelSetup first memory world).pidCounter = first := rfl
  have loaded := newProcs_spec scripts (represents_kernelSetup scripts first memory world empty) next (by simp) rfl
    (fun i inside => by simp [Jobs.ofScripts, inside])
    (by rw [List.nil_append]; exact (initial_sum first scripts memory).trans_le room)
  simp only [List.nil_append] at loaded
  obtain ⟨kernel, loads, silent, loadedRepresents, moves, free⟩ := loaded
  refine ⟨kernel, loads, silent, loadedRepresents, fun parseInput => ?_⟩
  have sizes : memory.frameStoreSize = (kernelSetup first memory world).memory.frameStoreSize := rfl
  have nothing : runLines parseInput (handedLines kernel.trace) (world, memory) = (world, memory) := by
    rw [silent]
    rfl
  refine ⟨by rw [nothing, moves.world]; rfl, ?_, fun pos high below => ?_, free ?_, fun ref known before absent => ?_⟩
  · rw [nothing]
    refine ⟨moves.frameStoreSize, moves.varStoreSize, fun pos above => moves.above pos ?_⟩
    rw [← sizes]
    change memory.frameStoreSize ≤ pos at above
    omega
  · rw [moves.frameStoreSize] at high below
    rw [moves.above pos high]
    exact empty pos below
  · intro frame inside _ j small
    exact empty _ (by rw [← sizes] at inside; omega)
  · exact absurd (Paging.mem_start.mpr ⟨known, before⟩) absent

end Kernel
end MockOS.Proc
