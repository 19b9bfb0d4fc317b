import MockOS.Proc.CleanUp
import MockOS.Proc.PageFaults

namespace MockOS.Proc

open ShellMemory

namespace Paging

variable {work : Workload} {paging next : Paging}

/-- As long as a frame is left no page has been evicted. -/
def Filled (work : Workload) (paging : Paging) : Prop :=
  work.frames ≤ paging.lru.length ∨ ∀ ref, ref.1 ∈ work.pids → ref.2 < paging.loaded ref.1 → ref ∈ paging.lru

theorem Filled.withQueue (filled : Filled work paging) (queue : List Nat) : Filled work (paging.withQueue queue) := filled

theorem Filled.execute (filled : Filled work paging) (pid : Nat) : Filled work (paging.execute pid) := by
  rcases filled with full | resident
  · left
    simp only [Paging.execute, List.length_cons, List.length_erase]
    split <;> omega
  · right
    intro ref known before
    simp only [Paging.execute, List.mem_cons]
    by_cases same : ref = (pid, paging.done pid / 3)
    · exact .inl same
    · exact .inr ((List.mem_erase_of_ne same).mpr (resident ref known before))

theorem Filled.fault (filled : Filled work paging) (pid : Nat) :
    Filled work (paging.fault work pid) := by
  by_cases room : paging.lru.length < work.frames
  · have resident := filled.resolve_left (by omega)
    right
    intro ref known before
    simp only [Paging.fault, remaining, if_pos room, List.mem_cons]
    by_cases same : ref = (pid, paging.loaded pid)
    · exact .inl same
    · exact .inr (resident ref known (lt_loaded_of_fault same before))
  · left
    simp only [Paging.fault, remaining, if_neg room, List.length_cons, List.length_dropLast]
    omega

theorem Filled.turn (filled : Filled work paging) (turn : Turn work paging next) :
    Filled work next := by
  cases turn with
  | leave pid rest front ended => exact filled
  | fault pid rest front left outside => exact (filled.withQueue rest).fault pid
  | last pid rest front left inside => exact (filled.withQueue rest).execute pid
  | second pid rest front left inside => exact ((filled.withQueue rest).execute pid).execute pid
  | secondFault pid rest front left inside outside => exact ((filled.withQueue rest).execute pid).fault pid

/-- All the pages of all the processes. -/
def allPages (work : Workload) : List PageRef :=
  work.pids.flatMap fun pid => (List.range (work.pages pid)).map (pid, ·)

theorem mem_allPages {ref : PageRef} : ref ∈ allPages work ↔ ref.1 ∈ work.pids ∧ ref.2 < work.pages ref.1 := by
  obtain ⟨owner, page⟩ := ref
  simp [allPages]

theorem length_allPages : (allPages work).length = (work.pids.map work.pages).sum := by
  simp [allPages, List.length_flatMap]

theorem nodup_allPages (distinct : work.pids.Nodup) : (allPages work).Nodup := by
  rw [allPages, List.nodup_flatMap]
  refine ⟨fun pid _ => List.nodup_range.map fun _ _ same => (Prod.ext_iff.mp same).2, ?_⟩
  refine distinct.imp fun apart => ?_
  rw [Function.onFun, List.disjoint_left]
  rintro ref first second
  obtain ⟨_, _, rfl⟩ := List.mem_map.mp first
  obtain ⟨_, _, same⟩ := List.mem_map.mp second
  exact apart (Prod.ext_iff.mp same).1.symm

/-- When everything has run, every page has been loaded. -/
theorem loaded_eq {ready : List Nat} (state : Consistent work ready paging)
    (finished : ∀ pid ∈ work.pids, paging.done pid = work.count pid) {pid : Nat} (known : pid ∈ work.pids) :
    paging.loaded pid = work.pages pid := by
  have inside := state.doneLoaded pid known
  have most := state.loadedPages pid known
  rw [finished pid known] at inside
  simp only [Workload.pages, pageTableSize] at most ⊢
  split at most <;> split <;> omega

/-- At the end every frame is in use exactly when there are as many pages. -/
theorem full_iff {ready : List Nat} (distinct : work.pids.Nodup) (state : Consistent work ready paging) (filled : Filled work paging)
    (finished : ∀ pid ∈ work.pids, paging.done pid = work.count pid) :
    paging.lru.length = work.frames ↔ work.frames ≤ (work.pids.map work.pages).sum := by
  have fits := state.lruFits
  rw [← length_allPages]
  constructor
  · intro full
    rw [← full]
    refine (List.subperm_of_subset state.lruNodup fun ref member => ?_).length_le
    obtain ⟨known, before⟩ := state.lruKnown ref member
    exact mem_allPages.mpr ⟨known, loaded_eq state finished known ▸ before⟩
  · intro many
    by_contra short
    have resident := filled.resolve_left (by omega)
    have := (List.subperm_of_subset (nodup_allPages distinct) fun ref member => by
      obtain ⟨known, before⟩ := mem_allPages.mp member
      exact resident ref known (loaded_eq state finished known ▸ before)).length_le
    omega

end Paging

namespace Kernel

variable {World : Type} {jobs : Jobs} {paging : Paging} {kernel kernel' : Kernel World} {pid : Nat}
  {parseInput : Interpreter World} {start : World × ShellMemory}

theorem Resident.length_le {table : PageRef → Option Page} {memory : ShellMemory} {lru : List PageRef}
    (resident : Resident jobs table memory lru) : lru.length ≤ memory.frameStoreSize / 3 := by
  obtain ⟨frame, frames, _⟩ := resident
  have subset : lru.map frame ⊆ List.range (memory.frameStoreSize / 3) :=
    fun place member => List.mem_range.mpr (frames.inside place member)
  simpa using (List.subperm_of_subset frames.nodup subset).length_le

theorem Resident.frameAlloc_none {table : PageRef → Option Page} {memory : ShellMemory} {lru : List PageRef}
    (resident : Resident jobs table memory lru) (full : memory.frameStoreSize / 3 ≤ lru.length) (pid : CString) :
    memory.frameAlloc pid = none := by
  obtain ⟨frame, frames, _⟩ := resident
  exact frames.frameAlloc_none pid (by rwa [List.length_map])

theorem initPages_append {pcb pcb' : Pcb} {memory memory' : ShellMemory} (pages later : List Nat)
    (inits : Pcb.initPages pid pages pcb memory = .ok (pcb', memory')) :
    Pcb.initPages pid (pages ++ later) pcb memory = Pcb.initPages pid later pcb' memory' := by
  induction pages generalizing pcb memory with
  | nil =>
      simp only [Pcb.initPages, Except.ok.injEq, Prod.mk.injEq] at inits
      obtain ⟨rfl, rfl⟩ := inits
      rfl
  | cons i rest ih =>
      rw [List.cons_append, Pcb.initPages]
      rw [Pcb.initPages] at inits
      split at inits
      · simp at inits
      · next pos memory₁ _ =>
          simp only [bind_eq_ok] at inits
          obtain ⟨⟨pcb₂, memory₂⟩, places, rest⟩ := inits
          simp only [places, bind, Except.bind]
          exact ih rest

/-- A process that is loaded found room for its first pages. -/
theorem newProc_room {pids : List Nat} {file : List UInt8}
    (represents : Represents { jobs with pids := pids } (Paging.start jobs.work pids) kernel)
    (next : kernel.pidCounter = pid) (fresh : pid ∉ pids)
    (lines : jobs.lines pid = fetched file) (count : jobs.count pid = countLines file)
    (loads : newProc (some file) kernel = .ok kernel') :
    ((pids ++ [pid]).map jobs.work.initial).sum ≤ jobs.frameStoreSize / 3 := by
  by_contra tight
  obtain ⟨⟨pcb', memory'⟩, inits⟩ : ∃ result, Pcb.pcbInit pid (some file) kernel.memory = .ok result := by
    simp only [newProc, next, bind_eq_ok] at loads
    obtain ⟨result, inits, _⟩ := loads
    exact ⟨result, inits⟩
  rw [List.map_append, List.sum_append, List.map_singleton, List.sum_singleton] at tight
  have used : (Paging.start jobs.work pids).lru.length ≤ jobs.frameStoreSize / 3 :=
    represents.frameStoreSize ▸ represents.resident.length_le
  rw [Paging.length_start] at used
  -- the first pages that still find a frame, and the one that does not
  obtain ⟨count₀, fits⟩ : ∃ count₀, (pids.map jobs.work.initial).sum + count₀ = jobs.frameStoreSize / 3 :=
    ⟨_, Nat.add_sub_of_le used⟩
  obtain ⟨more, whole⟩ : ∃ more, jobs.work.initial pid = count₀ + (more + 1) := ⟨jobs.work.initial pid - count₀ - 1, by omega⟩
  have absent : ∀ ref ∈ (Paging.start jobs.work pids).lru, ref.1 ≠ pid :=
    fun ref member => ne_of_mem_of_not_mem (Paging.mem_start.mp member).1 fresh
  set pcb : Pcb := ⟨countLines file, fun _ => 0, fun _ => pageInit, pageTableSize (countLines file), file⟩ with pcbEq
  have state : PcbAt jobs pid 0 0 pcb :=
    ⟨by simp [pcbEq, count], by simp [pcbEq], by rw [count], by simp [pcbEq, lines],
      fun _ _ _ => rfl, fun _ inside => absurd inside (Nat.not_lt_zero _)⟩
  have limit : pcb.pageLimit = jobs.work.initial pid := by
    simp only [Pcb.pageLimit, pcbEq, Workload.initial, Workload.pages, Jobs.work, count]
    split <;> omega
  have resident : Resident jobs (kernel.setPcb pid pcb).table kernel.memory
      (pushPages pid (Paging.start jobs.work pids).lru 0) := by
    obtain ⟨frame, frames, placed⟩ := represents.resident
    refine ⟨frame, frames, fun ref member => ?_⟩
    rw [table_setPcb, if_neg (absent ref member)]
    exact placed ref member
  obtain ⟨pcb₁, memory₁, first, _, frameSize, _, resident₁, _⟩ :=
    initPages_spec 0 count₀ state represents.frameStoreSize absent (by rw [Paging.length_start]; omega) resident
  have full : memory₁.frameAlloc (pidStr pid) = none := by
    refine resident₁.frameAlloc_none ?_ _
    have sizes : memory₁.frameStoreSize = jobs.frameStoreSize := frameSize.trans represents.frameStoreSize
    rw [length_pushPages, Paging.length_start, sizes]
    omega
  have parts : List.range (jobs.work.initial pid) = List.range' 0 count₀ ++ List.range' count₀ (more + 1) := by
    have joined : List.range' 0 count₀ ++ List.range' (0 + 1 * count₀) (more + 1) = List.range' 0 (count₀ + (more + 1)) :=
      List.range'_append
    rw [Nat.one_mul, Nat.zero_add] at joined
    rw [List.range_eq_range', whole, joined]
  have failed : Pcb.pcbInit pid (some file) kernel.memory = .error (.exit 99) := by
    simp only [Pcb.pcbInit, ← pcbEq]
    rw [limit, parts, initPages_append _ _ first, List.range'_succ, Pcb.initPages, full]
  rw [failed] at inits
  cases inits

/-- Scripts that are loaded found room for their first pages. -/
theorem newProcs_room (files : List (List UInt8)) {pids : List Nat} {first : Nat}
    (represents : Represents { jobs with pids := pids } (Paging.start jobs.work pids) kernel)
    (next : kernel.pidCounter = first) (fresh : ∀ pid ∈ pids, pid < first) (silent : kernel.trace = [])
    (scripts : ∀ i (inside : i < files.length), jobs.lines (first + i) = fetched files[i] ∧
      jobs.count (first + i) = countLines files[i])
    (loads : newProcs (files.map some) kernel = .ok kernel') :
    ((pids ++ List.range' first files.length).map jobs.work.initial).sum ≤ jobs.frameStoreSize / 3 := by
  induction files generalizing kernel pids first with
  | nil =>
      have used : (Paging.start jobs.work pids).lru.length ≤ jobs.frameStoreSize / 3 :=
        represents.frameStoreSize ▸ represents.resident.length_le
      rw [Paging.length_start] at used
      simpa using used
  | cons file rest ih =>
      have split : pids ++ List.range' first (rest.length + 1) =
          pids ++ [first] ++ List.range' (first + 1) rest.length := by simp [List.range'_succ]
      rw [List.length_cons, split]
      obtain ⟨lines, count⟩ := scripts 0 (by simp)
      have unused : first ∉ pids := fun member => absurd (fresh first member) (Nat.lt_irrefl _)
      simp only [List.map_cons, newProcs, bind_eq_ok] at loads
      obtain ⟨kernel₁, one, others⟩ := loads
      have room := newProc_room represents next unused (by simpa using lines) (by simpa using count) one
      obtain ⟨kernel₂, again, next₁, silent₁, represents₁, _⟩ :=
        newProc_spec represents next unused silent (by simpa using lines) (by simpa using count) room
      rw [one, Except.ok.injEq] at again
      subst again
      refine ih represents₁ next₁ (fun pid member => ?_) silent₁ (fun i inside => ?_) others
      · rcases List.mem_append.mp member with old | new
        · exact Nat.lt_succ_of_lt (fresh pid old)
        · rw [List.mem_singleton.mp new]
          exact Nat.lt_succ_self _
      · have later := scripts (i + 1) (by simpa using inside)
        rw [Nat.add_assoc, Nat.add_comm 1 i]
        simpa using later

/-- Where the scheduler stops, its state still stands for one of the paging model. -/
theorem rrLoop_represents {fuel : Nat} {final : Kernel World} (runs : Runs jobs parseInput)
    (represents : Represents jobs paging kernel) (settled : Paging.Settled jobs.work paging)
    (filled : Paging.Filled jobs.work paging) (intact : Intact parseInput start jobs paging kernel)
    (ends : rrLoop parseInput fuel kernel = .ok (some final)) :
    ∃ last, Represents jobs last final ∧ Paging.Settled jobs.work last ∧ Paging.Filled jobs.work last ∧
      Intact parseInput start jobs last final ∧ ∀ pid ∈ jobs.pids, last.done pid = jobs.count pid := by
  obtain ⟨⟨last, represents', settled', filled', intact'⟩, finished⟩ :=
    Lib.loop_invariant (fun kernel => ∃ paging, Represents jobs paging kernel ∧ Paging.Settled jobs.work paging ∧
      Paging.Filled jobs.work paging ∧ Intact parseInput start jobs paging kernel)
      (by
        rintro state next ⟨paging, represents, settled, filled, intact⟩ running steps
        obtain ⟨next', paging', steps', turn, represents', keeps⟩ := represents.turn runs settled running
        rw [steps, Except.ok.injEq] at steps'
        subst steps'
        exact ⟨paging', represents', settled.turn runs.admissible turn, filled.turn turn, keeps start intact⟩)
      fuel kernel final ⟨paging, represents, settled, filled, intact⟩ ends
  refine ⟨last, represents', settled', filled', intact', fun pid known => ?_⟩
  by_cases queued : pid ∈ last.queue
  · obtain ⟨pcb, found, state⟩ := represents'.pcbs pid known
    have ended := List.all_eq_true.mp finished pid (by rw [represents'.queue]; exact queued)
    rw [found, Option.any_some] at ended
    exact Nat.le_antisymm (settled'.consistent.doneCount pid known) (state.count_le_of_done ended)
  · exact settled'.consistent.finished pid known queued

/-- The clean-up covers the frames in use and the two slots behind each of them. -/
theorem covers_of_frame {last : Paging} (represents : Represents jobs last kernel) (settled : Paging.Settled jobs.work last)
    (intact : Intact parseInput start jobs last kernel) {place slot : Nat} (below : place < last.lru.length)
    (low : 3 * place ≤ slot) (near : slot < 3 * place + 5) :
    ∃ pid ∈ jobs.pids, ∃ pcb, kernel.pcbs pid = some pcb ∧ pcb.Covers slot := by
  obtain ⟨frame, frames, placed⟩ := represents.resident
  have packed : kernel.memory.FreeFrom (last.lru.map frame).length := by
    rw [List.length_map]
    exact intact.packed
  obtain ⟨⟨pid, i⟩, inside, rfl⟩ := List.mem_map.mp (frames.mem_of_lt packed (by rwa [List.length_map]))
  obtain ⟨known, before⟩ := settled.consistent.lruKnown _ inside
  obtain ⟨pcb, found, state⟩ := represents.pcbs pid known
  obtain ⟨page, entry, at_⟩ := placed _ inside
  have same : page = pcb.pageTable i := by simpa [table, found] using entry.symm
  rw [same] at at_
  refine ⟨pid, known, pcb, found, i, ?_, ?_⟩
  · rw [state.tableSize]
    exact Nat.lt_of_lt_of_le before (settled.consistent.loadedPages pid known)
  · rcases (show slot < 3 * frame (pid, i) + 3 ∨ 3 * frame (pid, i) + 3 ≤ slot by omega) with first | later
    · exact ⟨0, by rw [at_.index]; simp only [Fin.val_zero]; omega, by rw [at_.index]; simp only [Fin.val_zero]; omega⟩
    · exact ⟨2, by rw [at_.index]; simp only [Fin.val_two]; omega, by rw [at_.index]; simp only [Fin.val_two]; omega⟩

/-- Beyond the first frame it covers nothing else. -/
theorem frame_of_covers {last : Paging} (represents : Represents jobs last kernel) (settled : Paging.Settled jobs.work last)
    (intact : Intact parseInput start jobs last kernel) (finished : ∀ pid ∈ jobs.pids, last.done pid = jobs.count pid)
    {slot : Nat} (high : 3 ≤ slot) (covered : ∃ pid ∈ jobs.pids, ∃ pcb, kernel.pcbs pid = some pcb ∧ pcb.Covers slot) :
    ∃ place < last.lru.length, 3 * place ≤ slot ∧ slot < 3 * place + 5 := by
  obtain ⟨frame, frames, placed⟩ := represents.resident
  have packed : kernel.memory.FreeFrom (last.lru.map frame).length := by
    rw [List.length_map]
    exact intact.packed
  obtain ⟨pid, known, pcb, found, i, inTable, j, low, near⟩ := covered
  obtain ⟨pcb', found', state⟩ := represents.pcbs pid known
  rw [found, Option.some.injEq] at found'
  subst found'
  have entry : kernel.table (pid, i) = some (pcb.pageTable i) := by rw [table, found]; rfl
  by_cases inside : (pid, i) ∈ last.lru
  · obtain ⟨page, found', at_⟩ := placed _ inside
    rw [entry, Option.some.injEq] at found'
    rw [found', at_.index] at low near
    have small := j.isLt
    have first := frames.lt_of_mem packed (List.mem_map_of_mem inside)
    rw [List.length_map] at first
    exact ⟨frame (pid, i), first, by omega, by omega⟩
  · -- an evicted page covers the first three slots only
    have before : i < last.loaded pid := by
      rw [Paging.loaded_eq settled.consistent finished known]
      rwa [state.tableSize] at inTable
    obtain ⟨page, found', zero⟩ := intact.gone (pid, i) known before inside
    rw [entry, Option.some.injEq] at found'
    rw [found', zero] at near
    omega

/-- A finished run leaves every slot of the frame store free, and in the variables what the lines it ran leave there. -/
def KeepsVariables (parseInput : Interpreter World) (start : World × ShellMemory) (final : Kernel World) : Prop :=
  (∀ pos < start.2.frameStoreSize, (final.memory.slots pos).var = noneStr) ∧
    ∀ pos, start.2.frameStoreSize ≤ pos → pos < start.2.frameStoreSize + start.2.varStoreSize →
      final.memory.slots pos = (runLines parseInput (handedLines final.trace) start).2.slots pos

/-- The pages of all scripts. -/
def totalPages (scripts : List (List UInt8)) : Nat := (scripts.map fun file => pageTableSize (countLines file)).sum

theorem pages_sum (first : Nat) (scripts : List (List UInt8)) (memory : ShellMemory) :
    ((Jobs.ofScripts first scripts memory).pids.map (Jobs.ofScripts first scripts memory).work.pages).sum =
      totalPages scripts := by
  unfold totalPages
  congr 1
  refine List.ext_getElem (by simp [Jobs.ofScripts]) fun i inside _ => ?_
  have small : i < scripts.length := by simpa [Jobs.ofScripts] using inside
  simp [Jobs.ofScripts, Jobs.work, Workload.pages, small]

theorem newProcs_fits {scripts : List (List UInt8)} {first : Nat} {memory : ShellMemory} {world : World}
    (empty : ∀ pos < memory.frameStoreSize, (memory.slots pos).var = noneStr)
    (loads : newProcs (scripts.map some) (kernelSetup first memory world) = .ok kernel) :
    initialFrames scripts ≤ memory.frameStoreSize / 3 := by
  have setup := represents_kernelSetup scripts first memory world empty
  have next : (kernelSetup first memory world).pidCounter = first := rfl
  have fits := newProcs_room scripts setup next (by simp) rfl (fun i inside => by simp [Jobs.ofScripts, inside]) loads
  rw [List.nil_append] at fits
  exact (initial_sum first scripts memory).symm.trans_le fits

/-- The clean-up of a finished run. -/
theorem Represents.cleanUp_iff {last : Paging} {cleaned : Kernel World} (represents : Represents jobs last kernel)
    (settled : Paging.Settled jobs.work last) (filled : Paging.Filled jobs.work last)
    (intact : Intact parseInput start jobs last kernel) (finished : ∀ pid ∈ jobs.pids, last.done pid = jobs.count pid)
    (distinct : jobs.pids.Nodup) (some : 1 ≤ jobs.frameStoreSize / 3) (frames : start.2.frameStoreSize = jobs.frameStoreSize)
    (vars : start.2.varStoreSize = jobs.varStoreSize)
    (frees : kernel.allPcb.foldlM freePcb kernel = .ok cleaned) :
    KeepsVariables parseInput start cleaned ↔
      (jobs.pids.map jobs.work.pages).sum < jobs.frameStoreSize / 3 ∨
        ∀ pos, jobs.frameStoreSize ≤ pos → pos < 3 * (jobs.frameStoreSize / 3) + 2 →
          (runLines parseInput (handedLines cleaned.trace) start).2.slots pos = ⟨noneStr, noneStr⟩ := by
  rw [represents.allPcb] at frees
  obtain ⟨clears, trace⟩ := freePcbs_clears frees
  have full := Paging.full_iff distinct settled.consistent filled finished
  have fits := settled.consistent.lruFits
  have expected : ∀ pos, jobs.frameStoreSize ≤ pos →
      kernel.memory.slots pos = (runLines parseInput (handedLines cleaned.trace) start).2.slots pos := by
    intro pos above
    rw [trace]
    refine intact.vars.slots pos ?_
    rw [← intact.vars.frameStoreSize, represents.frameStoreSize]
    exact above
  -- the slots behind the border that are cleared
  have behind : ∀ pos, jobs.frameStoreSize ≤ pos →
      ((∃ pid ∈ jobs.pids, ∃ pcb, kernel.pcbs pid = Option.some pcb ∧ pcb.Covers pos) ↔
        jobs.frameStoreSize / 3 ≤ (jobs.pids.map jobs.work.pages).sum ∧ pos < 3 * (jobs.frameStoreSize / 3) + 2) := by
    intro pos above
    constructor
    · intro covered
      obtain ⟨place, below, low, near⟩ := frame_of_covers represents settled intact finished (by omega) covered
      have last : last.lru.length = jobs.frameStoreSize / 3 := by
        have : last.lru.length ≤ jobs.frameStoreSize / 3 := fits
        omega
      exact ⟨full.mp last, by omega⟩
    · rintro ⟨many, near⟩
      have last : last.lru.length = jobs.frameStoreSize / 3 := full.mpr many
      exact covers_of_frame represents settled intact (show jobs.frameStoreSize / 3 - 1 < _ by omega) (by omega) (by omega)
  have freed : ∀ pos < jobs.frameStoreSize, (cleaned.memory.slots pos).var = noneStr := by
    intro pos below
    by_cases covered : ∃ pid ∈ jobs.pids, ∃ pcb, kernel.pcbs pid = Option.some pcb ∧ pcb.Covers pos
    · rw [clears.cleared pos covered]
    · rw [clears.kept pos covered]
      by_cases spare : 3 * (jobs.frameStoreSize / 3) ≤ pos
      · exact intact.spare pos (by rw [represents.frameStoreSize]; exact spare) (by rw [represents.frameStoreSize]; exact below)
      · have unused : last.lru.length ≤ pos / 3 := by
          by_contra used
          exact covered (covers_of_frame represents settled intact (Nat.lt_of_not_le used) (by omega) (by omega))
        have free := intact.packed (pos / 3) (by rw [represents.frameStoreSize]; omega) unused (pos % 3) (Nat.mod_lt _ (by decide))
        rwa [Nat.div_add_mod] at free
  constructor
  · rintro ⟨_, keeps⟩
    by_cases few : (jobs.pids.map jobs.work.pages).sum < jobs.frameStoreSize / 3
    · exact .inl few
    · refine .inr fun pos above near => ?_
      have covered := (behind pos above).mpr ⟨Nat.le_of_not_lt few, near⟩
      have inside := clears.inside pos covered
      rw [represents.frameStoreSize, represents.varStoreSize] at inside
      rw [← keeps pos (by rw [frames]; exact above) (by rw [frames, vars]; exact inside), clears.cleared pos covered]
  · intro spared
    refine ⟨fun pos below => freed pos (frames ▸ below), fun pos above _ => ?_⟩
    rw [frames] at above
    by_cases covered : ∃ pid ∈ jobs.pids, ∃ pcb, kernel.pcbs pid = Option.some pcb ∧ pcb.Covers pos
    · obtain ⟨many, near⟩ := (behind pos above).mp covered
      rw [clears.cleared pos covered, spared.resolve_left (Nat.not_lt_of_le many) pos above near]
    · rw [clears.kept pos covered, expected pos above]

/-- Each script runs its own lines, and the variables keep what these leave exactly when a frame stays unused or the
one or two slots behind the last frame would be free anyway. -/
theorem runProcRR_keepsVariables_iff (parseInput : Interpreter World) (scripts : List (List UInt8)) (first : Nat)
    (memory : ShellMemory) (world : World) {loaded final : Kernel World} {fuel : Nat} (nonempty : scripts ≠ [])
    (empty : ∀ pos < memory.frameStoreSize, (memory.slots pos).var = noneStr)
    (other : ∀ file ∈ scripts, ∀ line ∈ fetched file, ∀ world, (parseInput (strdup line) world).ret ≠ 1)
    (loads : newProcs (scripts.map some) (kernelSetup first memory world) = .ok loaded)
    (ends : runProcRR parseInput fuel loaded = .ok (some final)) :
    (∀ i (inside : i < scripts.length), handedTo (first + i) final.trace =
      ((fetched scripts[i]).take (countLines scripts[i])).map strdup) ∧
      (KeepsVariables parseInput (world, memory) final ↔
        totalPages scripts < memory.frameStoreSize / 3 ∨
          ∀ pos, memory.frameStoreSize ≤ pos → pos < 3 * (memory.frameStoreSize / 3) + 2 →
            (runLines parseInput (handedLines final.trace) (world, memory)).2.slots pos = ⟨noneStr, noneStr⟩) := by
  simp only [Kernel.runProcRR, bind_eq_ok] at ends
  obtain ⟨result, loop, ends⟩ := ends
  cases result with
  | none => simp at ends
  | some last =>
      simp only [bind_eq_ok, Except.ok.injEq, Option.some.injEq] at ends
      obtain ⟨cleaned, frees, rfl⟩ := ends
      have room := newProcs_fits empty loads
      have enough : ∀ file ∈ scripts, countLines file ≤ (fetched file).length := by
        intro file member
        by_contra short
        obtain ⟨owner, count, queued, starves⟩ := newProcs_starves member (Nat.lt_of_not_le short) loads
        exact rrLoop_never_ends fuel last queued starves loop
      have runs : Runs (Jobs.ofScripts first scripts memory) parseInput := runs_ofScripts room enough other
      obtain ⟨loaded', loads', _, represents, intact⟩ := newProcs_kernelSetup scripts first memory world empty room
      rw [loads, Except.ok.injEq] at loads'
      subst loads'
      have filled : Paging.Filled (Jobs.ofScripts first scripts memory).work
          (Paging.start (Jobs.ofScripts first scripts memory).work (Jobs.ofScripts first scripts memory).pids) :=
        .inr fun ref known before => Paging.mem_start.mpr ⟨known, before⟩
      obtain ⟨paging, represents', settled, filled', intact', finished⟩ :=
        rrLoop_represents runs represents (Paging.settled_start runs.admissible) filled (intact parseInput) loop
      have positive := List.length_pos_of_ne_nil nonempty
      have head : first + 0 ∈ (Jobs.ofScripts first scripts memory).pids := Jobs.mem_pids.mpr ⟨0, positive, rfl⟩
      have frames : 1 ≤ memory.frameStoreSize / 3 := runs.admissible.frames_pos head
      have cleans := represents'.cleanUp_iff settled filled' intact' finished runs.admissible.distinct frames rfl rfl frees
      rw [pages_sum] at cleans
      refine ⟨fun i inside => ?_, cleans⟩
      have known : first + i ∈ (Jobs.ofScripts first scripts memory).pids := Jobs.mem_pids.mpr ⟨i, inside, rfl⟩
      change handedTo (first + i) cleaned.trace = _
      rw [represents'.allPcb] at frees
      rw [(freePcbs_clears frees).2, represents'.handed _ known, finished _ known]
      simp [Jobs.ofScripts, inside]

theorem settingLines_ne_nil : [CString.ofChars ['s', 'e', 't', ' ', 'y', ' ', '2'], .ofChars ['p', 'r', 'i', 'n', 't', ' ', 'y'],
    .ofChars ['s', 'e', 't', ' ', 'z', ' ', '3'], .ofChars ['e', 'c', 'h', 'o', ' ', 'a']] ≠ [] := List.cons_ne_nil _ _

theorem line_setting : ∀ line ∈ [CString.ofChars ['s', 'e', 't', ' ', 'y', ' ', '2'], .ofChars ['p', 'r', 'i', 'n', 't', ' ', 'y'],
    .ofChars ['s', 'e', 't', ' ', 'z', ' ', '3'], .ofChars ['e', 'c', 'h', 'o', ' ', 'a']],
    line ≠ [] ∧ 10 ∉ line ∧ line.length < 998 := by decide

/-- The script of the lines `set y 2`, `print y`, `set z 3` and `echo a`. -/
def settingScript : Script := ⟨_, settingLines_ne_nil, line_setting⟩

/-- A memory of three frames with the variable `x`. -/
def threeFrames : ShellMemory := (ShellMemory.memInit 9 4).memSetValue (.ofChars ['x']) (.ofChars ['1'])

/-- A script of two pages that sets variables keeps those and the one set before, where there are three frames. -/
theorem runProcRR_keepsVariables_echo : ∃ loaded : Kernel Unit, ∃ fuel final,
    newProcs [some settingScript.file] (kernelSetup 1 threeFrames ()) = .ok loaded ∧
      runProcRR emptyShell fuel loaded = .ok (some final) ∧
      handedTo 1 final.trace = [.ofChars ['s', 'e', 't', ' ', 'y', ' ', '2', '\n'], .ofChars ['p', 'r', 'i', 'n', 't', ' ', 'y', '\n'],
        .ofChars ['s', 'e', 't', ' ', 'z', ' ', '3', '\n'], .ofChars ['e', 'c', 'h', 'o', ' ', 'a']] ∧
      KeepsVariables emptyShell ((), threeFrames) final := by
  have lines : fetched settingScript.file = Script.withNewlines settingScript.lines := Script.fetched_lines settingScript.line
  have other : ∀ line ∈ Script.withNewlines settingScript.lines, ∀ world, (emptyShell (strdup line) world).ret ≠ 1 := by decide
  have empty : ∀ pos < threeFrames.frameStoreSize, (threeFrames.slots pos).var = noneStr := by decide
  obtain ⟨loaded, fuel, final, loads, ends⟩ := runProcRR_ends emptyShell [settingScript] 1 threeFrames ()
    (fun script member => List.mem_singleton.mp member ▸ other) empty (by decide) (by decide)
  obtain ⟨handed, keeps⟩ := runProcRR_keepsVariables_iff emptyShell [settingScript.file] 1 threeFrames () (List.cons_ne_nil _ _)
    empty (fun file member line inside => other line (lines ▸ List.mem_singleton.mp member ▸ inside)) loads ends
  refine ⟨loaded, fuel, final, loads, ends, (handed 0 Nat.one_pos).trans ?_, keeps.mpr (.inl (by decide))⟩
  change ((fetched settingScript.file).take (countLines settingScript.file)).map strdup = _
  rw [lines]
  decide

/-- A memory of one frame with the variable `x`. -/
def oneVariable : ShellMemory := (ShellMemory.memInit 3 2).memSetValue (.ofChars ['x']) (.ofChars ['1'])

/-- The script `echo a` deletes the variable `x`. -/
theorem runProcRR_deletes_variable : ¬ ∀ (loaded final : Kernel Unit) (fuel : Nat),
    newProcs [some (CString.ofChars ['e', 'c', 'h', 'o', ' ', 'a'])] (kernelSetup 1 oneVariable ()) = .ok loaded →
    runProcRR emptyShell fuel loaded = .ok (some final) → KeepsVariables emptyShell ((), oneVariable) final := by
  intro claim
  obtain ⟨_, keeps⟩ := claim _ _ 1 rfl rfl
  exact absurd (congrArg MemoryStruct.var (keeps 3 (by decide) (by decide))) (by decide)

end Kernel
end MockOS.Proc
