import MockOS.Proc.Variables
import MockOS.Proc.PagingTurn
import Mathlib.Data.List.Nodup

namespace MockOS.Proc

open ShellMemory

/-- The loaded scripts with the lines that `fgets` delivers and the sizes of the two stores. -/
structure Jobs where
  pids : List Nat
  lines : Nat → List (List UInt8)
  count : Nat → Nat
  frameStoreSize : Nat
  varStoreSize : Nat

def Jobs.work (jobs : Jobs) : Workload := ⟨jobs.pids, jobs.count, jobs.frameStoreSize / 3⟩

/-- A process that has run `done` lines and loaded `loaded` pages. -/
structure PcbAt (jobs : Jobs) (pid done loaded : Nat) (pcb : Pcb) : Prop where
  size : pcb.size = (jobs.count pid : Int) - done
  counters : ∀ k, pcb.programCounter k = min 3 (done - 3 * k)
  tableSize : pcb.pageTableSize = pageTableSize (jobs.count pid)
  file : fetched pcb.sourceFile = (jobs.lines pid).drop (3 * loaded)
  fresh : ∀ k, loaded ≤ k → ∀ j, (pcb.pageTable k).validBit j = false
  bounded : ∀ k < loaded, ∀ j, (pcb.pageTable k).index j < jobs.frameStoreSize

section Pcb

variable {jobs : Jobs} {pid done loaded : Nat} {pcb : Pcb}

theorem PcbAt.withPids (state : PcbAt jobs pid done loaded pcb) (pids : List Nat) :
    PcbAt { jobs with pids := pids } pid done loaded pcb :=
  ⟨state.1, state.2, state.3, state.4, state.5, state.6⟩

theorem PcbAt.count_le (state : PcbAt jobs pid done loaded pcb) : jobs.count pid ≤ 3 * pcb.pageTableSize := by
  rw [state.tableSize]
  exact jobs.work.count_le_pages pid

/-- The scan finds the page of the next line. -/
theorem PcbAt.firstPage (state : PcbAt jobs pid done loaded pcb) (left : done < jobs.count pid) :
    pcb.firstPage = done / 3 := by
  have := state.count_le
  have found : ((List.range pcb.pageTableSize).find? fun i => pcb.programCounter i != 3) = some (done / 3) := by
    rw [List.find?_range_eq_some]
    refine ⟨?_, List.mem_range.mpr (by omega), fun k before => ?_⟩
    · rw [state.counters, bne_iff_ne]
      omega
    · rw [state.counters]
      simp only [Bool.not_eq_true', bne_eq_false_iff_eq]
      omega
  rw [Pcb.firstPage, found]
  rfl

/-- A process whose counters have all reached three has run all its lines. -/
theorem PcbAt.count_le_of_done (state : PcbAt jobs pid done loaded pcb) (ended : pcb.pcbDone) :
    jobs.count pid ≤ done := by
  have := state.count_le
  by_cases none : pcb.pageTableSize = 0
  · omega
  · have last := List.all_eq_true.mp ended (pcb.pageTableSize - 1) (List.mem_range.mpr (by omega))
    rw [state.counters, beq_iff_eq] at last
    omega

theorem PcbAt.advance (state : PcbAt jobs pid done loaded pcb) :
    PcbAt jobs pid (done + 1) loaded (pcb.advance (done / 3)) where
  size := by
    simp only [Pcb.advance, state.size]
    omega
  counters := by
    intro k
    simp only [Pcb.advance, Function.update_apply, state.counters]
    split <;> omega
  tableSize := state.tableSize
  file := state.file
  fresh := state.fresh
  bounded := state.bounded

/-- The next page of the process has been read. -/
theorem PcbAt.load {page : Page} {file : List UInt8} (state : PcbAt jobs pid done loaded pcb)
    (left : fetched file = (jobs.lines pid).drop (3 * (loaded + 1)))
    (inside : ∀ j, page.index j < jobs.frameStoreSize) :
    PcbAt jobs pid done (loaded + 1) { pcb.setPage loaded page with sourceFile := file } where
  size := state.size
  counters := state.counters
  tableSize := state.tableSize
  file := left
  fresh := by
    intro k later j
    simp only [Pcb.setPage, Function.update_of_ne (show k ≠ loaded by omega)]
    exact state.fresh k (by omega) j
  bounded := by
    intro k before j
    by_cases same : k = loaded
    · subst same
      simpa [Pcb.setPage] using inside j
    · simp only [Pcb.setPage, Function.update_of_ne same]
      exact state.bounded k (by omega) j

/-- A page of the process has been evicted. -/
theorem PcbAt.evict {i : Nat} (state : PcbAt jobs pid done loaded pcb) (some : 0 < jobs.frameStoreSize) :
    PcbAt jobs pid done loaded (pcb.setPage i ⟨fun _ => 0, fun _ => false⟩) where
  size := state.size
  counters := state.counters
  tableSize := state.tableSize
  file := state.file
  fresh := by
    intro k later j
    by_cases same : k = i
    · simp [Pcb.setPage, same]
    · simpa only [Pcb.setPage, Function.update_of_ne same] using state.fresh k later j
  bounded := by
    intro k before j
    by_cases same : k = i
    · simpa [Pcb.setPage, same] using some
    · simpa only [Pcb.setPage, Function.update_of_ne same] using state.bounded k before j

end Pcb

namespace Kernel

variable {World : Type}

/-- The page table entry that a page reference stands for. -/
def table (kernel : Kernel World) (ref : PageRef) : Option Page :=
  (kernel.pcbs ref.1).map fun pcb => pcb.pageTable ref.2

theorem firstIndex_eq (kernel : Kernel World) (ref : PageRef) :
    kernel.firstIndex ref = (kernel.table ref).map fun page => page.index 0 := by
  simp [firstIndex, table, Function.comp_def]

/-- Each page of the cache lies in a frame of its own, and every other frame is free. -/
def Resident (jobs : Jobs) (table : PageRef → Option Page) (memory : ShellMemory) (lru : List PageRef) : Prop :=
  ∃ frame : PageRef → Nat, memory.Frames (lru.map frame) ∧
    ∀ ref ∈ lru, ∃ page, table ref = some page ∧ Placed (jobs.lines ref.1) memory page ref.2 (frame ref)

/-- The kernel's state stands for a state of the paging model. -/
structure Represents (jobs : Jobs) (paging : Paging) (kernel : Kernel World) : Prop where
  queue : kernel.queue = paging.queue
  lru : kernel.lruCache = paging.lru
  allPcb : kernel.allPcb = jobs.pids
  frameStoreSize : kernel.memory.frameStoreSize = jobs.frameStoreSize
  varStoreSize : kernel.memory.varStoreSize = jobs.varStoreSize
  pcbs : ∀ pid ∈ jobs.pids, ∃ pcb, kernel.pcbs pid = some pcb ∧
    PcbAt jobs pid (paging.done pid) (paging.loaded pid) pcb
  resident : Resident jobs kernel.table kernel.memory paging.lru
  handed : ∀ pid ∈ jobs.pids, handedTo pid kernel.trace = ((jobs.lines pid).take (paging.done pid)).map strdup

variable {jobs : Jobs} {paging : Paging} {kernel : Kernel World} {pid : Nat} {rest : List Nat}
  {parseInput : Interpreter World}

theorem Represents.withQueue (represents : Represents jobs paging kernel) (queue : List Nat) :
    Represents jobs (paging.withQueue queue) { kernel with queue := queue } where
  queue := rfl
  lru := represents.lru
  allPcb := represents.allPcb
  frameStoreSize := represents.frameStoreSize
  varStoreSize := represents.varStoreSize
  pcbs := represents.pcbs
  resident := represents.resident
  handed := represents.handed

/-- The variables hold what the handed lines left, the slots above the last frame are free, the frames in use are the
first ones, and a page that was evicted points at slot 0. -/
structure Intact (parseInput : Interpreter World) (start : World × ShellMemory) (jobs : Jobs) (paging : Paging)
    (kernel : Kernel World) : Prop where
  world : kernel.world = (runLines parseInput (handedLines kernel.trace) start).1
  vars : SameVariables (runLines parseInput (handedLines kernel.trace) start).2 kernel.memory
  spare : ∀ pos, 3 * (kernel.memory.frameStoreSize / 3) ≤ pos → pos < kernel.memory.frameStoreSize →
    (kernel.memory.slots pos).var = noneStr
  packed : kernel.memory.FreeFrom paging.lru.length
  gone : ∀ ref, ref.1 ∈ jobs.pids → ref.2 < paging.loaded ref.1 → ref ∉ paging.lru →
    ∃ page, kernel.table ref = some page ∧ ∀ j, page.index j = 0

/-- A step that only moves pages: the variables, the slots above the last frame and the handed lines stay. -/
structure Moves (kernel next : Kernel World) : Prop where
  world : next.world = kernel.world
  handed : handedLines next.trace = handedLines kernel.trace
  frameStoreSize : next.memory.frameStoreSize = kernel.memory.frameStoreSize
  varStoreSize : next.memory.varStoreSize = kernel.memory.varStoreSize
  above : ∀ pos, 3 * (kernel.memory.frameStoreSize / 3) ≤ pos → next.memory.slots pos = kernel.memory.slots pos

variable {start : World × ShellMemory} {next : Kernel World}

theorem Moves.trans {last : Kernel World} (first : Moves kernel next) (later : Moves next last) : Moves kernel last where
  world := later.world.trans first.world
  handed := later.handed.trans first.handed
  frameStoreSize := later.frameStoreSize.trans first.frameStoreSize
  varStoreSize := later.varStoreSize.trans first.varStoreSize
  above := fun pos high => by rw [later.above pos (by rw [first.frameStoreSize]; exact high), first.above pos high]

theorem Intact.moves {nextPaging : Paging} (intact : Intact parseInput start jobs paging kernel) (moves : Moves kernel next)
    (packed : next.memory.FreeFrom nextPaging.lru.length)
    (gone : ∀ ref, ref.1 ∈ jobs.pids → ref.2 < nextPaging.loaded ref.1 → ref ∉ nextPaging.lru →
      ∃ page, next.table ref = some page ∧ ∀ j, page.index j = 0) :
    Intact parseInput start jobs nextPaging next := by
  refine ⟨by rw [moves.world, moves.handed, intact.world], ?_, fun pos high below => ?_, packed, gone⟩
  · rw [moves.handed]
    refine intact.vars.trans ⟨moves.frameStoreSize, moves.varStoreSize, fun pos above => moves.above pos ?_⟩
    omega
  · rw [moves.frameStoreSize] at high below
    rw [moves.above pos high]
    exact intact.spare pos high below

theorem Intact.withQueue (intact : Intact parseInput start jobs paging kernel) (queue other : List Nat) :
    Intact parseInput start jobs (paging.withQueue queue) { kernel with queue := other } :=
  ⟨intact.1, intact.2, intact.3, intact.4, intact.5⟩

theorem frames_perm {memory : ShellMemory} {taken other : List Nat} (frames : memory.Frames taken)
    (perm : taken.Perm other) : memory.Frames other where
  nodup := perm.nodup_iff.mp frames.nodup
  inside := fun frame member => frames.inside frame (perm.mem_iff.mpr member)
  used := fun frame member => frames.used frame (perm.mem_iff.mpr member)
  free := fun frame inside missing => frames.free frame inside fun member => missing (perm.mem_iff.mp member)

theorem frames_same {memory other : ShellMemory} {taken : List Nat} (frames : memory.Frames taken)
    (same : SameFrames memory other) : other.Frames taken where
  nodup := frames.nodup
  inside := fun frame member => same.frameStoreSize ▸ frames.inside frame member
  used := by
    intro frame member j small
    have := frames.inside frame member
    rw [same.slots _ (by omega)]
    exact frames.used frame member j small
  free := by
    intro frame inside missing j small
    rw [same.frameStoreSize] at inside
    rw [same.slots _ (by omega)]
    exact frames.free frame inside missing j small

theorem pcb_eq {pcb : Pcb} (found : kernel.pcbs pid = some pcb) : kernel.pcb pid = .ok pcb := by
  simp [Kernel.pcb, found]

/-- A valid line is handed to `parseInput`. -/
theorem cpuRun_valid (parseInput : Interpreter World) {pcb : Pcb} {i : Nat} (j : Fin 3) (found : kernel.pcbs pid = some pcb)
    (inTable : i < pcb.pageTableSize) (counter : pcb.programCounter i = j.val)
    (valid : (pcb.pageTable i).validBit j = true)
    (bound : (pcb.pageTable i).index j < kernel.memory.frameStoreSize + kernel.memory.varStoreSize) :
    cpuRun parseInput pid i kernel =
      .ok ((parseInput (kernel.memory.slots ((pcb.pageTable i).index j)).value kernel.world).ret,
        (kernel.interpret parseInput pid (kernel.memory.slots ((pcb.pageTable i).index j)).value).setPcb pid
          (pcb.advance i)) := by
  have small : pcb.programCounter i < 3 := by omega
  have place : (⟨pcb.programCounter i, small⟩ : Fin 3) = j := Fin.ext counter
  simp only [cpuRun, pcb_eq found, Pcb.page, if_pos inTable, bind, Except.bind, dif_pos small, place, valid,
    memGetValueAt_eq bound, Bool.true_eq_false, if_false]

/-- A line whose valid bit is clear is a page fault. -/
theorem cpuRun_invalid (parseInput : Interpreter World) {pcb : Pcb} {i : Nat} (j : Fin 3) (found : kernel.pcbs pid = some pcb)
    (inTable : i < pcb.pageTableSize) (counter : pcb.programCounter i = j.val)
    (invalid : (pcb.pageTable i).validBit j = false) : cpuRun parseInput pid i kernel = .ok (1, kernel) := by
  have small : pcb.programCounter i < 3 := by omega
  have place : (⟨pcb.programCounter i, small⟩ : Fin 3) = j := Fin.ext counter
  simp only [cpuRun, pcb_eq found, Pcb.page, if_pos inTable, bind, Except.bind, dif_pos small, place, invalid,
    if_true]

/-- A search for one element finds and removes this element. -/
theorem find_erase {ref : PageRef} {cache : List PageRef} (same : PageRef → Bool) (member : ref ∈ cache)
    (only : ∀ other ∈ cache, same other ↔ other = ref) :
    cache.find? same = some ref ∧ cache.eraseP same = cache.erase ref := by
  induction cache with
  | nil => simp at member
  | cons first rest ih =>
      by_cases hit : first = ref
      · have here : same first := (only first (by simp)).mpr hit
        rw [List.find?_cons_of_pos here, List.eraseP_cons_of_pos here, hit, List.erase_cons_head]
        exact ⟨rfl, rfl⟩
      · have miss : ¬ same first := fun holds => hit ((only first (by simp)).mp holds)
        have later : ref ∈ rest := (List.mem_cons.mp member).resolve_left (Ne.symm hit)
        rw [List.find?_cons_of_neg miss, List.eraseP_cons_of_neg miss, List.erase_cons_tail (by simpa using hit)]
        obtain ⟨found, erased⟩ := ih later fun other inside => only other (by simp [inside])
        exact ⟨found, by rw [erased]⟩

/-- `remove_elem` finds the page itself when the resident pages start at different positions. -/
theorem touch_eq {ref : PageRef} (member : ref ∈ kernel.lruCache)
    (apart : ∀ other ∈ kernel.lruCache, kernel.firstIndex ref = kernel.firstIndex other → other = ref) :
    touch ref kernel = .ok { kernel with lruCache := ref :: kernel.lruCache.erase ref } := by
  obtain ⟨found, erased⟩ := find_erase (fun other => kernel.firstIndex ref == kernel.firstIndex other) member fun other inside => by
      rw [beq_iff_eq]
      exact ⟨apart other inside, fun equal => by rw [equal]⟩
  simp only [touch, found, erased]

theorem table_setPcb {pcb : Pcb} (ref : PageRef) : (kernel.setPcb pid pcb).table ref =
    if ref.1 = pid then some (pcb.pageTable ref.2) else kernel.table ref := by
  simp only [table, setPcb, Function.update_apply]
  split <;> rfl

/-- Advancing the process leaves the page tables alone. -/
theorem table_advance {kernel : Kernel World} {pcb : Pcb} {i : Nat} (found : kernel.pcbs pid = some pcb) (ref : PageRef) :
    (kernel.setPcb pid (pcb.advance i)).table ref = kernel.table ref := by
  rw [table_setPcb]
  split
  · next same => simp [table, same, found, Pcb.advance]
  · rfl

@[simp] theorem interpret_pcbs {line : CString} : (kernel.interpret parseInput pid line).pcbs = kernel.pcbs := rfl

theorem interpret_sameFrames (pid : Nat) (line : CString) :
    SameFrames kernel.memory (kernel.interpret parseInput pid line).memory := commands_sameFrames _

theorem handedTo_append (pid : Nat) (trace later : List Event) :
    handedTo pid (trace ++ later) = handedTo pid trace ++ handedTo pid later := List.filterMap_append

/-- A line leaves what its commands leave. -/
theorem Intact.execute (intact : Intact parseInput start jobs paging kernel) {pcb : Pcb} (found : kernel.pcbs pid = some pcb)
    (present : (pid, paging.done pid / 3) ∈ paging.lru) (line : CString) (i : Nat) (lru : List PageRef) :
    Intact parseInput start jobs (paging.execute pid)
      { (kernel.interpret parseInput pid line).setPcb pid (pcb.advance i) with lruCache := lru } := by
  have perm := List.perm_cons_erase present
  have same : SameFrames kernel.memory (kernel.interpret parseInput pid line).memory := interpret_sameFrames pid line
  have ran : runLines parseInput (handedLines (kernel.trace ++ [.handed pid line])) start =
      ((parseInput line kernel.world).world, (parseInput line kernel.world).commands.foldl
        (fun memory command => command.run memory) (runLines parseInput (handedLines kernel.trace) start).2) := by
    rw [handedLines_append, runLines_append, intact.world]
    rfl
  constructor
  case world => exact (congrArg Prod.fst ran).symm
  case vars =>
    change SameVariables (runLines parseInput (handedLines (kernel.trace ++ [.handed pid line])) start).2 _
    rw [ran]
    exact intact.vars.commands _
  case spare =>
    intro pos high below
    change 3 * ((kernel.interpret parseInput pid line).memory.frameStoreSize / 3) ≤ pos at high
    change pos < (kernel.interpret parseInput pid line).memory.frameStoreSize at below
    rw [same.frameStoreSize] at high below
    change ((kernel.interpret parseInput pid line).memory.slots pos).var = noneStr
    rw [same.slots pos below]
    exact intact.spare pos high below
  case packed =>
    intro frame inside beyond j small
    change frame < (kernel.interpret parseInput pid line).memory.frameStoreSize / 3 at inside
    rw [same.frameStoreSize] at inside
    change ((kernel.interpret parseInput pid line).memory.slots (3 * frame + j)).var = noneStr
    rw [same.slots _ (by omega)]
    refine intact.packed frame inside ?_ j small
    rwa [perm.length_eq]
  case gone =>
    intro ref known before absent
    obtain ⟨page, held, zero⟩ := intact.gone ref known before fun member => absent (perm.mem_iff.mp member)
    have handed : (kernel.interpret parseInput pid line).pcbs pid = some pcb := found
    exact ⟨page, (table_advance handed ref).trans held, zero⟩

/-- The resident pages start at different positions. -/
theorem Represents.apart (represents : Represents jobs paging kernel) {ref : PageRef} (member : ref ∈ kernel.lruCache) :
    ∀ other ∈ kernel.lruCache, kernel.firstIndex ref = kernel.firstIndex other → other = ref := by
  obtain ⟨frame, frames, placed⟩ := represents.resident
  rw [represents.lru] at member ⊢
  intro other inside same
  obtain ⟨page, found, at_⟩ := placed ref member
  obtain ⟨page', found', at'⟩ := placed other inside
  rw [firstIndex_eq, firstIndex_eq, found, found', Option.map_some, Option.map_some, Option.some.injEq,
    at_.index, at'.index] at same
  exact List.inj_on_of_nodup_map frames.nodup inside member (by simp only [Fin.val_zero] at same; omega)

/-- Running a loaded line does what the model says. -/
theorem Represents.execute (represents : Represents jobs paging kernel) (known : pid ∈ jobs.pids)
    (enough : jobs.count pid ≤ (jobs.lines pid).length) (left : paging.done pid < jobs.count pid)
    (present : (pid, paging.done pid / 3) ∈ paging.lru)
    (other : ∀ line ∈ jobs.lines pid, ∀ world, (parseInput (strdup line) world).ret ≠ 1) :
    ∃ kernel', runLine parseInput pid kernel = .ok (0, kernel') ∧ Represents jobs (paging.execute pid) kernel' ∧
      ∀ start, Intact parseInput start jobs paging kernel → Intact parseInput start jobs (paging.execute pid) kernel' := by
  obtain ⟨pcb, found, state⟩ := represents.pcbs pid known
  obtain ⟨frame, frames, placed⟩ := represents.resident
  obtain ⟨page, entry, at_⟩ := placed _ present
  have entryEq : pcb.pageTable (paging.done pid / 3) = page := by simpa [table, found] using entry
  have place : paging.done pid % 3 < 3 := Nat.mod_lt _ (by decide)
  have line : 3 * (paging.done pid / 3) + paging.done pid % 3 = paging.done pid := Nat.div_add_mod _ 3
  have inLines : 3 * (paging.done pid / 3) + paging.done pid % 3 < (jobs.lines pid).length := by omega
  have inFrame := frames.inside _ (List.mem_map_of_mem present)
  have index := at_.index ⟨paging.done pid % 3, place⟩
  have text := at_.text ⟨paging.done pid % 3, place⟩ inLines
  have ran := cpuRun_valid parseInput ⟨paging.done pid % 3, place⟩ found
    (show paging.done pid / 3 < _ by have := state.count_le; omega)
    (by rw [state.counters]; simp only; omega)
    (by rw [entryEq, at_.valid]; simpa using inLines) (by rw [entryEq, index]; simp only; omega)
  rw [entryEq, index, text] at ran
  set handed := strdup (jobs.lines pid)[3 * (paging.done pid / 3) + paging.done pid % 3]
  set after := (kernel.interpret parseInput pid handed).setPcb pid (pcb.advance (paging.done pid / 3)) with afterEq
  have tables : ∀ ref, after.table ref = kernel.table ref := fun ref =>
    table_advance found ref
  have same : SameFrames kernel.memory after.memory := interpret_sameFrames pid handed
  have touched : touch (pid, paging.done pid / 3) after =
      .ok { after with lruCache := (pid, paging.done pid / 3) :: after.lruCache.erase (pid, paging.done pid / 3) } := by
    have member : (pid, paging.done pid / 3) ∈ kernel.lruCache := represents.lru ▸ present
    refine touch_eq member fun other inside equal => represents.apart member other inside ?_
    rwa [firstIndex_eq, firstIndex_eq, tables, tables, ← firstIndex_eq, ← firstIndex_eq] at equal
  have returned := other _ (List.getElem_mem inLines) kernel.world
  have runs : runLine parseInput pid kernel = .ok (0, { after with
      lruCache := (pid, paging.done pid / 3) :: after.lruCache.erase (pid, paging.done pid / 3) }) := by
    simp only [runLine, pcb_eq found, bind, Except.bind, state.firstPage left, runProc, ran]
    rw [if_neg returned, touched]
  refine ⟨_, runs, ?_, fun start intact => intact.execute found present _ _ _⟩
  constructor
  case queue => exact represents.queue
  case lru => rw [Paging.execute, ← represents.lru]; rfl
  case allPcb => exact represents.allPcb
  case frameStoreSize => exact same.frameStoreSize.trans represents.frameStoreSize
  case varStoreSize => exact same.varStoreSize.trans represents.varStoreSize
  case pcbs =>
    intro one member
    by_cases equal : one = pid
    · subst equal
      refine ⟨_, by simp [after, setPcb]; rfl, ?_⟩
      rw [Paging.execute_done]
      exact state.advance
    · obtain ⟨pcb', found', state'⟩ := represents.pcbs one member
      refine ⟨pcb', ?_, ?_⟩
      · simpa [after, setPcb, equal] using found'
      · rw [Paging.execute_done_of_ne equal]
        exact state'
  case resident =>
    refine ⟨frame, ?_, ?_⟩
    · refine frames_same (frames_perm frames ?_) same
      exact (List.perm_cons_erase present).map frame
    · intro ref member
      have old : ref ∈ paging.lru := (List.perm_cons_erase present).mem_iff.mpr member
      obtain ⟨page', found', at'⟩ := placed ref old
      refine ⟨page', (tables ref).trans found', at'.congr fun j small => same.slots _ ?_⟩
      have := frames.inside _ (List.mem_map_of_mem old)
      omega
  case handed =>
    intro one member
    have before := represents.handed one member
    change handedTo one (kernel.trace ++ [.handed pid handed]) = _
    rw [handedTo_append, before]
    by_cases equal : one = pid
    · subst equal
      rw [Paging.execute_done, ← List.take_append_getElem (by omega), List.map_append]
      simp [handedTo, handed, line]
    · rw [Paging.execute_done_of_ne equal]
      simp [handedTo, Ne.symm equal]

theorem table_setPage (kernel : Kernel World) (pid i : Nat) (pcb : Pcb) (page : Page) (file : List UInt8) :
    (kernel.setPcb pid { pcb.setPage i page with sourceFile := file }).table =
      Function.update (kernel.setPcb pid pcb).table (pid, i) (some page) := by
  funext ref
  obtain ⟨owner, k⟩ := ref
  simp only [table_setPcb, Function.update_apply, Pcb.setPage, Prod.mk.injEq]
  by_cases same : owner = pid
  · by_cases here : k = i <;> simp [same, here]
  · simp [same]

theorem table_setPcb_self {pcb : Pcb} (found : kernel.pcbs pid = some pcb) :
    (kernel.setPcb pid pcb).table = kernel.table := by
  funext ref
  rw [table_setPcb]
  split
  · next same => simp [table, same, found]
  · rfl

/-- The next page of a process is read into a free frame. -/
theorem Resident.place {table : PageRef → Option Page} {memory : ShellMemory} {lru : List PageRef} {k : Nat}
    (resident : Resident jobs table memory lru) (fresh : (pid, k) ∉ lru)
    (room : lru.length < memory.frameStoreSize / 3) (pcb : Pcb)
    (file : fetched pcb.sourceFile = (jobs.lines pid).drop (3 * k)) :
    ∃ pos marked page file' memory', memory.frameAlloc (pidStr pid) = some (pos, marked) ∧
      pcb.placePage pid k pos marked = .ok ({ pcb.setPage k page with sourceFile := file' }, memory') ∧
      fetched file' = (jobs.lines pid).drop (3 * (k + 1)) ∧ (∀ j, page.index j < memory.frameStoreSize) ∧
      memory'.frameStoreSize = memory.frameStoreSize ∧ memory'.varStoreSize = memory.varStoreSize ∧
      Resident jobs (Function.update table (pid, k) (some page)) memory' ((pid, k) :: lru) ∧
      (∀ slot, 3 * (memory.frameStoreSize / 3) ≤ slot → memory'.slots slot = memory.slots slot) ∧
      (memory.FreeFrom lru.length → memory'.FreeFrom (lru.length + 1)) := by
  obtain ⟨frame, frames, placed⟩ := resident
  obtain ⟨new, inside, absent, allocated⟩ := frames.frameAlloc_some (pidStr pid) (by rw [List.length_map]; exact room)
  obtain ⟨page, file', memory', places, at_, left, frames', changed⟩ :=
    placePage_spec pcb pid k frames inside absent file
  refine ⟨_, _, page, file', memory', allocated, places, left, ?_, changed.frameStoreSize, changed.varStoreSize,
    ⟨Function.update frame (pid, k) new, ?_, ?_⟩, fun slot high => changed.slots slot (by omega), fun free => ?_⟩
  · intro j
    have := j.isLt
    rw [at_.index]
    omega
  · have others : lru.map (Function.update frame (pid, k) new) = lru.map frame :=
      List.map_congr_left fun ref member => Function.update_of_ne (ne_of_mem_of_not_mem member fresh) _ _
    rw [List.map_cons, Function.update_self, others]
    exact frames'
  · intro ref member
    rcases List.mem_cons.mp member with rfl | old
    · rw [Function.update_self, Function.update_self]
      exact ⟨page, rfl, at_⟩
    · have different := ne_of_mem_of_not_mem old fresh
      obtain ⟨page', found', at'⟩ := placed ref old
      rw [Function.update_of_ne different, Function.update_of_ne different]
      refine ⟨page', found', at'.congr fun j small => changed.slots _ ?_⟩
      have := ne_of_mem_of_not_mem (List.mem_map_of_mem old) absent
      omega
  · have following := frames.frameAlloc_next (by rwa [List.length_map]) (pidStr pid) (by rw [List.length_map]; exact room)
    rw [allocated, Option.some.injEq, Prod.mk.injEq, List.length_map] at following
    have first : new = lru.length := by omega
    intro other fits beyond j small
    rw [changed.frameStoreSize] at fits
    rw [changed.slots _ (by omega)]
    exact free other fits (by omega) j small

/-- Events other than a handed line do not count. -/
theorem Represents.log (represents : Represents jobs paging kernel) (event : Event)
    (silent : ∀ one, handedTo one [event] = []) : Represents jobs paging (kernel.log event) where
  queue := represents.queue
  lru := represents.lru
  allPcb := represents.allPcb
  frameStoreSize := represents.frameStoreSize
  varStoreSize := represents.varStoreSize
  pcbs := represents.pcbs
  resident := represents.resident
  handed := by
    intro one member
    rw [Kernel.log, handedTo_append, silent, List.append_nil]
    exact represents.handed one member

/-- With a free frame `load_PAGE` reads the next page of the process. -/
theorem Represents.load (represents : Represents jobs paging kernel) (known : pid ∈ jobs.pids)
    (inTable : paging.loaded pid < pageTableSize (jobs.count pid))
    (fresh : (pid, paging.loaded pid) ∉ paging.lru) (room : paging.lru.length < jobs.frameStoreSize / 3) :
    ∃ kernel', loadPage pid (paging.loaded pid) kernel = .ok (0, kernel') ∧
      Represents jobs { paging with
          lru := (pid, paging.loaded pid) :: paging.lru
          loaded := Function.update paging.loaded pid (paging.loaded pid + 1) }
        { kernel' with lruCache := (pid, paging.loaded pid) :: kernel'.lruCache } ∧
      Moves kernel kernel' ∧ (kernel.memory.FreeFrom paging.lru.length → kernel'.memory.FreeFrom (paging.lru.length + 1)) ∧
      ∀ ref, ref ≠ (pid, paging.loaded pid) → kernel'.table ref = kernel.table ref := by
  have logged := represents.log (.loadPage pid (paging.loaded pid)) fun _ => rfl
  set start := kernel.log (.loadPage pid (paging.loaded pid)) with startEq
  obtain ⟨pcb, found, state⟩ := logged.pcbs pid known
  obtain ⟨pos, marked, page, file, memory, allocated, places, left, inside, frameSize, varSize, resident, above, free⟩ :=
    logged.resident.place fresh (by rw [logged.frameStoreSize]; exact room) pcb state.file
  have loads : loadPage pid (paging.loaded pid) kernel = .ok (0, { start.setPcb pid
      { pcb.setPage (paging.loaded pid) page with sourceFile := file } with memory := memory }) := by
    simp only [loadPage, ← startEq, pcb_eq found, bind, Except.bind, Pcb.page,
      if_pos (show paging.loaded pid < pcb.pageTableSize by rw [state.tableSize]; exact inTable), allocated, places]
  have traced : handedLines start.trace = handedLines kernel.trace := by
    rw [startEq, Kernel.log, handedLines_append]
    exact List.append_nil _
  have updated := table_setPage start pid (paging.loaded pid) pcb page file
  rw [table_setPcb_self found] at updated
  refine ⟨_, loads, ?_, ⟨rfl, traced, frameSize, varSize, above⟩, free, fun ref different => ?_⟩
  rotate_left
  · exact (congrFun updated ref).trans (Function.update_of_ne different _ _)
  constructor
  case queue => exact represents.queue
  case lru => exact congrArg ((pid, paging.loaded pid) :: ·) represents.lru
  case allPcb => exact represents.allPcb
  case frameStoreSize => exact frameSize.trans logged.frameStoreSize
  case varStoreSize => exact varSize.trans logged.varStoreSize
  case pcbs =>
    intro one member
    by_cases equal : one = pid
    · subst equal
      refine ⟨_, by simp [setPcb]; rfl, ?_⟩
      simp only [Function.update_self]
      exact state.load left fun j => logged.frameStoreSize ▸ inside j
    · obtain ⟨pcb', found', state'⟩ := logged.pcbs one member
      refine ⟨pcb', by simpa [setPcb, equal] using found', ?_⟩
      simpa only [Function.update_of_ne equal] using state'
  case resident =>
    rw [← updated] at resident
    exact resident
  case handed => exact logged.handed

/-- Without a free frame `load_PAGE` fails. -/
theorem Represents.load_full (represents : Represents jobs paging kernel) (known : pid ∈ jobs.pids) {i : Nat}
    (inTable : i < pageTableSize (jobs.count pid)) (full : jobs.frameStoreSize / 3 ≤ paging.lru.length) :
    loadPage pid i kernel = .ok (1, kernel.log (.loadPage pid i)) := by
  obtain ⟨pcb, found, state⟩ := represents.pcbs pid known
  obtain ⟨frame, frames, placed⟩ := represents.resident
  have none : (kernel.log (.loadPage pid i)).memory.frameAlloc (pidStr pid) = none := by
    refine frames.frameAlloc_none _ ?_
    rw [List.length_map, represents.frameStoreSize]
    exact full
  have found' : (kernel.log (.loadPage pid i)).pcbs pid = some pcb := found
  simp only [loadPage, pcb_eq found', bind, Except.bind, Pcb.page,
    if_pos (show i < pcb.pageTableSize by rw [state.tableSize]; exact inTable), none]

theorem pageEvict_eq (kernel : Kernel World) {pcb : Pcb} {i : Nat} {first second third : ShellMemory} (found : kernel.pcbs pid = some pcb)
    (inTable : i < pcb.pageTableSize) (free₀ : kernel.memory.memFreeAt ((pcb.pageTable i).index 0) = .ok first)
    (free₁ : first.memFreeAt ((pcb.pageTable i).index 1) = .ok second)
    (free₂ : second.memFreeAt ((pcb.pageTable i).index 2) = .ok third) :
    pageEvict pid i kernel = .ok { (kernel.log (.pageEvict pid i)).setPcb pid
      (pcb.setPage i ⟨fun _ => 0, fun _ => false⟩) with memory := third } := by
  have logged : (kernel.log (.pageEvict pid i)).pcb pid = .ok pcb := pcb_eq found
  have sameMemory : (kernel.log (.pageEvict pid i)).memory = kernel.memory := rfl
  simp only [pageEvict, logged, bind, Except.bind, Pcb.page, if_pos inTable, sameMemory, free₀, free₁, free₂]

/-- The least recent page is evicted and its frame becomes free. -/
theorem Represents.evict (represents : Represents jobs paging kernel) (nonempty : paging.lru ≠ [])
    (lruKnown : ∀ ref ∈ paging.lru, ref.1 ∈ jobs.pids ∧ ref.2 < pageTableSize (jobs.count ref.1))
    (nodup : paging.lru.Nodup) :
    ∃ kernel' victim, evictVictim kernel = .ok kernel' ∧
      Represents jobs { paging with lru := paging.lru.dropLast } kernel' ∧ Moves kernel kernel' ∧
      paging.lru = paging.lru.dropLast ++ [victim] ∧
      kernel'.table = Function.update kernel.table victim (some ⟨fun _ => 0, fun _ => false⟩) := by
  obtain ⟨rest, victim, split⟩ : ∃ rest victim, paging.lru = rest ++ [victim] :=
    ⟨_, _, (List.dropLast_append_getLast nonempty).symm⟩
  have member : victim ∈ paging.lru := by simp [split]
  obtain ⟨known, inTable⟩ := lruKnown victim member
  obtain ⟨pcb, found, state⟩ := represents.pcbs victim.1 known
  obtain ⟨frame, frames, placed⟩ := represents.resident
  obtain ⟨page, entry, at_⟩ := placed victim member
  have entryEq : pcb.pageTable victim.2 = page := by simpa [table, found] using entry
  rw [split, List.map_append, List.map_singleton] at frames
  obtain ⟨first, second, memory, free₀, free₁, free₂, frames', changed⟩ := freePage_spec frames
  set start : Kernel World := { kernel with lruCache := kernel.lruCache.dropLast } with startEq
  have evicts : evictVictim kernel = .ok { (start.log (.pageEvict victim.1 victim.2)).setPcb victim.1
      (pcb.setPage victim.2 ⟨fun _ => 0, fun _ => false⟩) with memory := memory } := by
    have last : kernel.lruCache.getLast? = some victim := by rw [represents.lru, split, List.getLast?_concat]
    have evicted := pageEvict_eq start found (by rw [state.tableSize]; exact inTable)
      (by rw [entryEq, at_.index]; exact free₀) (by rw [entryEq, at_.index]; exact free₁)
      (by rw [entryEq, at_.index]; exact free₂)
    have inAll : victim.1 ∈ kernel.allPcb := by rw [represents.allPcb]; exact known
    simp only [evictVictim, last, if_pos inAll]
    exact evicted
  have whole : paging.lru.dropLast = rest := by rw [split, List.dropLast_concat]
  have apart : victim ∉ rest := fun inside =>
    (List.nodup_append.mp (split ▸ nodup)).2.2 victim inside victim (by simp) rfl
  have foundLog : (start.log (.pageEvict victim.1 victim.2)).pcbs victim.1 = some pcb := found
  have updated := table_setPage (start.log (.pageEvict victim.1 victim.2)) victim.1 victim.2 pcb
    ⟨fun _ => 0, fun _ => false⟩ pcb.sourceFile
  rw [table_setPcb_self foundLog] at updated
  have traced : handedLines (kernel.trace ++ [.pageEvict victim.1 victim.2]) = handedLines kernel.trace := by
    rw [handedLines_append]
    exact List.append_nil _
  have last := frames.inside (frame victim) (by simp)
  refine ⟨_, victim, evicts, ?_, ⟨rfl, traced, changed.frameStoreSize, changed.varStoreSize, fun pos high =>
    changed.slots pos (by omega)⟩, by rw [whole, split], updated⟩
  constructor
  case queue => exact represents.queue
  case lru => exact congrArg List.dropLast represents.lru
  case allPcb => exact represents.allPcb
  case frameStoreSize => exact changed.frameStoreSize.trans represents.frameStoreSize
  case varStoreSize => exact changed.varStoreSize.trans represents.varStoreSize
  case pcbs =>
    intro one inside
    by_cases equal : one = victim.1
    · subst equal
      refine ⟨_, by simp [setPcb]; rfl, state.evict ?_⟩
      have := frames.inside (frame victim) (by simp)
      have := represents.frameStoreSize
      omega
    · obtain ⟨pcb', found', state'⟩ := represents.pcbs one inside
      exact ⟨pcb', by simpa [setPcb, equal, Kernel.log] using found', state'⟩
  case resident =>
    rw [whole]
    refine ⟨frame, frames', fun ref inside => ?_⟩
    have different := ne_of_mem_of_not_mem inside apart
    have frameApart : frame ref ≠ frame victim := fun same =>
      (List.nodup_append.mp frames.nodup).2.2 _ (List.mem_map_of_mem inside) _ (by simp) same
    obtain ⟨page', found', at'⟩ := placed ref (by simp [split, inside])
    exact ⟨page', (congrFun updated ref).trans ((Function.update_of_ne different _ _).trans found'),
      at'.congr fun j small => changed.slots _ (by omega)⟩
  case handed =>
    intro one inside
    change handedTo one (kernel.trace ++ [.pageEvict victim.1 victim.2]) = _
    rw [handedTo_append, represents.handed one inside]
    simp [handedTo]

/-- A page fault does what the model says. -/
theorem Represents.fault {ready : List Nat} (represents : Represents jobs paging kernel)
    (state : Paging.Consistent jobs.work ready paging) (admissible : jobs.work.Admissible) (known : pid ∈ jobs.pids)
    (left : paging.done pid < jobs.count pid) (outside : 3 * paging.loaded pid ≤ paging.done pid) :
    ∃ kernel', runLine parseInput pid kernel = .ok (1, kernel') ∧
      Represents jobs (paging.fault jobs.work pid) kernel' ∧
      ∀ start, Intact parseInput start jobs paging kernel →
        Intact parseInput start jobs (paging.fault jobs.work pid) kernel' := by
  obtain ⟨pcb, found, at_⟩ := represents.pcbs pid known
  have done : paging.done pid = 3 * paging.loaded pid := Nat.le_antisymm (state.doneLoaded pid known) outside
  have inTable : paging.loaded pid < pageTableSize (jobs.count pid) := by
    have := jobs.work.count_le_pages pid
    simp only [Workload.pages, Jobs.work] at this
    omega
  have page : pcb.firstPage = paging.loaded pid := by rw [at_.firstPage left]; omega
  have missed : cpuRun parseInput pid (paging.loaded pid) kernel = .ok (1, kernel) :=
    cpuRun_invalid parseInput 0 found (by rw [at_.tableSize]; exact inTable)
      (by rw [at_.counters]; simp only [Fin.val_zero]; omega) (at_.fresh _ (Nat.le_refl _) 0)
  have fresh : (pid, paging.loaded pid) ∉ paging.lru := fun member =>
    absurd (state.lruKnown _ member).2 (by simp)
  have faulted : ∀ kernel', pageFault pid (paging.loaded pid) kernel = .ok kernel' →
      runLine parseInput pid kernel = .ok (1, kernel') := by
    intro kernel' faults
    simp only [runLine, pcb_eq found, bind, Except.bind, page, runProc, missed, if_true, faults]
  by_cases room : paging.lru.length < jobs.frameStoreSize / 3
  · obtain ⟨kernel', loads, after, moves, free, tables⟩ := represents.load known inTable fresh room
    have stays : paging.remaining jobs.work = paging.lru := if_pos room
    refine ⟨_, faulted { kernel' with
      lruCache := (pid, paging.loaded pid) :: kernel'.lruCache, queue := kernel'.queue ++ [pid] } ?_, ?_, fun start intact => ?_⟩
    · simp [pageFault, loads, bind, Except.bind]
    · have queued := after.withQueue (kernel'.queue ++ [pid])
      have same : kernel'.queue = paging.queue := after.queue
      simpa only [Paging.fault, stays, Paging.withQueue, same] using queued
    · refine intact.moves ⟨moves.1, moves.2, moves.3, moves.4, moves.5⟩ ?_ fun ref owner before absent => ?_
      · simpa only [Paging.fault, stays, List.length_cons] using free intact.packed
      · simp only [Paging.fault, stays, List.mem_cons, not_or] at absent
        obtain ⟨page, held, zero⟩ := intact.gone ref owner (Paging.lt_loaded_of_fault absent.1 before) absent.2
        exact ⟨page, (tables ref absent.1).trans held, zero⟩
  · have nonempty : paging.lru ≠ [] := by
      have := admissible.frames_pos known
      rintro empty
      rw [empty, List.length_nil] at room
      simp only [Jobs.work] at this
      omega
    have logged := represents.log (.loadPage pid (paging.loaded pid)) fun _ => rfl
    have failed := represents.load_full known inTable (by omega)
    obtain ⟨kernel₁, victim, evicts, evicted, movesOut, split, emptied⟩ := logged.evict nonempty
      (fun ref member => ⟨(state.lruKnown ref member).1,
        Nat.lt_of_lt_of_le (state.lruKnown ref member).2 (state.loadedPages _ (state.lruKnown ref member).1)⟩)
      state.lruNodup
    have space : paging.lru.dropLast.length < jobs.frameStoreSize / 3 := by
      have fits := state.lruFits
      have := List.length_pos_of_ne_nil nonempty
      simp only [Jobs.work] at fits
      rw [List.length_dropLast]
      omega
    obtain ⟨kernel', loads, after, movesIn, _, tables⟩ := evicted.load known inTable
      (fun member => fresh ((List.dropLast_sublist _).mem member)) space
    have stays : paging.remaining jobs.work = paging.lru.dropLast := if_neg room
    refine ⟨_, faulted { kernel' with
      lruCache := (pid, paging.loaded pid) :: kernel'.lruCache, queue := kernel'.queue ++ [pid] } ?_, ?_, fun start intact => ?_⟩
    · simp only [pageFault, failed, bind, Except.bind, if_true, evicts]
      simp only [show loadPage pid (paging.loaded pid) kernel₁ = _ from loads]
    · have queued := after.withQueue (kernel'.queue ++ [pid])
      have same : kernel'.queue = paging.queue := after.queue
      simpa only [Paging.fault, stays, Paging.withQueue, same] using queued
    · have traced : handedLines (kernel.log (.loadPage pid (paging.loaded pid))).trace = handedLines kernel.trace := by
        rw [Kernel.log, handedLines_append]
        exact List.append_nil _
      have logs : Moves kernel (kernel.log (.loadPage pid (paging.loaded pid))) := ⟨rfl, traced, rfl, rfl, fun _ _ => rfl⟩
      have moves := (logs.trans movesOut).trans movesIn
      refine intact.moves ⟨moves.1, moves.2, moves.3, moves.4, moves.5⟩ ?_ fun ref owner before absent => ?_
      · -- every frame is taken again
        intro frame inside beyond
        have length := congrArg List.length split
        have sizes : kernel'.memory.frameStoreSize = jobs.frameStoreSize := after.frameStoreSize
        simp only [Paging.fault, stays, List.length_cons] at beyond
        change frame < kernel'.memory.frameStoreSize / 3 at inside
        rw [List.length_append, List.length_singleton] at length
        omega
      · simp only [Paging.fault, stays, List.mem_cons, not_or] at absent
        have same : kernel'.table ref = kernel₁.table ref := tables ref absent.1
        by_cases out : ref = victim
        · exact ⟨_, same.trans (by rw [emptied, out]; exact Function.update_self _ _ _), fun _ => rfl⟩
        · obtain ⟨page, held, zero⟩ := intact.gone ref owner (Paging.lt_loaded_of_fault absent.1 before) fun member => by
            rw [split, List.mem_append, List.mem_singleton] at member
            exact member.elim absent.2 out
          exact ⟨page, same.trans (by rw [emptied, Function.update_of_ne out]; exact held), zero⟩

end Kernel
end MockOS.Proc
