import MockOS.A2.PagedRuns
import MockOS.A2.PageTables

namespace MockOS.A2

open MockOS.Proc (Fault Outcome MemoryStruct noneStr)
open ShellMemory Kernel

variable {World : Type} {used more pid : Nat} {parse : Parser World} {script : List UInt8} {kernel kernelAfter : Kernel World}
  {jobs : List (Nat × List UInt8)} {live : List Waiting} {next : Pcb} {filename : CString}

/-- A new process joins the queue. -/
theorem Running.add (running : Running parse jobs kernel live used) (advance : Advance pid used more kernel kernelAfter)
    (fresh : ∀ job ∈ jobs, job.1 ≠ pid) (queue : kernelAfter.queue = live.map Waiting.pcb ++ [next])
    (here : next.At kernelAfter.memory kernelAfter.disk more 0) (samePid : next.pid = pid) (own : next.script = script)
    (room : 3 * (more + (live.map fun process => process.pcb.pagesLeft).sum + next.pagesLeft) ≤ kernel.memory.framesize)
    (untold : handed pid kernelAfter.trace = []) (harmless : Harmless parse script) :
    Running parse (jobs ++ [(pid, script)]) kernelAfter (live ++ [⟨next, 0⟩]) more := by
  have different : ∀ process ∈ live, process.pcb.pid ≠ pid := fun process member =>
    fresh _ (running.known process member)
  refine ⟨?_, advance.store, ?_, fun process member => ?_, fun process member => ?_, fun process member => ?_, ?_, ?_,
    fun job member => ?_, advance.quiet running.quiet, fun job member => ?_⟩
  · rw [queue, List.map_append, List.map_singleton]
  · rw [advance.memory.framesize, List.map_append, List.sum_append, List.map_singleton, List.sum_singleton, ← Nat.add_assoc]
    exact room
  · rcases List.mem_append.mp member with member | last
    · exact advance.here (running.here process member)
    · rw [List.mem_singleton.mp last]
      exact here
  · rcases List.mem_append.mp member with member | last
    · rw [advance.handed_other (different process member)]
      exact running.told process member
    · rw [List.mem_singleton.mp last, samePid, untold, List.take_zero]
  · rcases List.mem_append.mp member with member | last
    · exact List.mem_append_left _ (running.known process member)
    · rw [List.mem_singleton.mp last, samePid, own]
      exact List.mem_append_right _ (List.mem_singleton_self _)
  · rw [List.map_append, List.map_singleton, samePid]
    refine (List.perm_append_singleton _ _).nodup_iff.mpr (List.nodup_cons.mpr ⟨fun member => ?_, running.pids⟩)
    obtain ⟨process, inside, same⟩ := List.mem_map.mp member
    exact different process inside same
  · rw [List.map_append, List.map_singleton]
    refine (List.perm_append_singleton _ _).nodup_iff.mpr (List.nodup_cons.mpr ⟨fun member => ?_, running.distinct⟩)
    obtain ⟨job, inside, same⟩ := List.mem_map.mp member
    exact fresh job inside same
  · rcases List.mem_append.mp member with member | last
    · rw [advance.handed_other (fresh job member)]
      exact (running.done job member).imp (fun ⟨process, inside, owner⟩ => ⟨process, List.mem_append_left _ inside, owner⟩) id
    · rw [List.mem_singleton.mp last]
      exact .inl ⟨_, List.mem_append_right _ (List.mem_singleton_self _), samePid⟩
  · rcases List.mem_append.mp member with member | last
    · exact running.harmless job member
    · rw [List.mem_singleton.mp last]
      exact harmless

theorem enter_self (pcb : Pcb) (entry : Int) : (pcb.enter entry).pagetable pcb.currentPage = entry := Function.update_self _ _ _

theorem enter_other {pcb : Pcb} {k : Nat} (entry : Int) (other : k ≠ pcb.currentPage) :
    (pcb.enter entry).pagetable k = pcb.pagetable k := Function.update_of_ne other _ _

/-- A script that is small enough for a page table, and whose last page gets to the end of the file. -/
structure SmallScript (script : List UInt8) : Prop where
  some_line : script ≠ []
  few : (fetched script).length ≤ 147
  aligned : (fopen script).endsNoticed = false → (fetched script).length % 3 ≠ 0

/-- The first two pages are loaded one behind the other. -/
theorem loadFirst_runs (kernel : Kernel World) (pid : Nat) (small : SmallScript script) (named : strdup filename ≠ noneStr)
    (store : FrameStore kernel.memory used) (room : 3 * (used + min 2 (countPages script)) ≤ kernel.memory.framesize) :
    ∃ pcb kernelAfter, loadFirst filename 2 (fopen script) (makePcb pid filename script) kernel = .ok (pcb, kernelAfter) ∧
      Advance pid used (used + min 2 (countPages script)) kernel kernelAfter ∧
      kernelAfter.queue = kernel.queue ∧ kernelAfter.inBackground = kernel.inBackground ∧
      handed pid kernelAfter.trace = handed pid kernel.trace ∧ pcb.pid = pid ∧
      pcb.filename = some filename ∧ pcb.script = script ∧ pcb.pagetable 0 = used + 1 ∧
      Resident kernelAfter.memory (fetched script) 0 used ∧
      (1 < countPages script → pcb.pagetable 1 = used + 2 ∧ Resident kernelAfter.memory (fetched script) 1 (used + 1)) ∧
      ∀ k, 2 ≤ k → pcb.pagetable k = -1 := by
  rw [countPages_eq script small.aligned] at room ⊢
  have length : 0 < (fetched script).length := List.length_pos_iff.mpr (mt fetched_eq_nil.mp small.some_line)
  obtain ⟨behind, count, memory, loads, stands, seen, keeps, storeAfter, resident⟩ :=
    loadPage_runs kernel (makePcb pid filename script) store (by omega) (Stream.At.fopen script) length (by decide : 0 < 50) named
  have advance : Advance pid used (used + 1) kernel { kernel.log (.loaded filename count) with memory := memory } :=
    ⟨keeps, storeAfter, Nat.le_succ used, rfl, rfl, rfl, [.loaded filename count], rfl, by simp, fun other _ => rfl⟩
  rw [loadFirst, show (fopen script).eof = false from rfl, if_neg Bool.false_ne_true, loads]
  change ∃ pcb kernelAfter, loadFirst filename 1 behind _ _ = _ ∧ _
  change behind.At ((fetched script).drop 3) at stands
  change (fetched script).length < 3 ∨ _ → _ at seen
  rw [loadFirst]
  have entered : ((makePcb pid filename script).enter (used + 1)).advancePage.pagetable 0 = used + 1 :=
    enter_self (makePcb pid filename script) _
  by_cases one : (fetched script).length ≤ 3
  · have ended : behind.eof = true := by
      have reached : behind.endsNoticed = true := by
        refine seen ?_
        by_cases full : (fetched script).length = 3
        · right
          by_contra missed
          exact small.aligned (Bool.eq_false_iff.mpr missed) (by omega)
        · exact .inl (by omega)
      rwa [Stream.endsNoticed, stands.rest, List.drop_of_length_le one] at reached
    rw [ended, if_pos rfl]
    have pages : min 2 (((fetched script).length + 2) / 3) = 1 := by omega
    rw [pages]
    refine ⟨_, _, rfl, advance, rfl, rfl, handed_loaded pid _ filename count, rfl, rfl, rfl, entered, resident,
      fun many => by omega, fun k above => enter_other _ (by change k ≠ 0; omega)⟩
  · have more : (fetched script).drop 3 ≠ [] := by
      rw [Ne, List.drop_eq_nil_iff]
      exact one
    have pages : min 2 (((fetched script).length + 2) / 3) = 2 := by omega
    obtain ⟨behindSecond, countSecond, memorySecond, loadsSecond, _, _, keepsSecond, storeSecond, residentSecond⟩ :=
      loadPage_runs { kernel.log (.loaded filename count) with memory := memory }
        ((makePcb pid filename script).enter (used + 1)).advancePage storeAfter
        (by rw [keeps.framesize]; omega) stands (by change 3 * 1 < (fetched script).length; omega) (by decide : 1 < 50) named
    rw [stands.eof more, if_neg Bool.false_ne_true, loadsSecond, pages]
    have advanceSecond : Advance pid (used + 1) (used + 2) { kernel.log (.loaded filename count) with memory := memory }
        { ({ kernel.log (.loaded filename count) with memory := memory } : Kernel World).log (.loaded filename countSecond) with
          memory := memorySecond } :=
      ⟨keepsSecond, storeSecond, Nat.le_succ _, rfl, rfl, rfl, [.loaded filename countSecond], rfl, by simp, fun other _ => rfl⟩
    refine ⟨_, _, rfl, advance.trans advanceSecond, rfl, rfl, ?_, rfl, rfl, rfl, ?_, resident.keeps keepsSecond (Nat.lt_succ_self _),
      fun _ => ⟨?_, residentSecond⟩, fun k above => ?_⟩
    · exact (handed_loaded pid _ filename countSecond).trans (handed_loaded pid _ filename count)
    · exact (enter_other ((used + 1 : Nat) + 1) (by decide : (0 : Nat) ≠ 1)).trans entered
    · refine (enter_self ((makePcb pid filename script).enter (used + 1)).advancePage ((used + 1 : Nat) + 1)).trans ?_
      exact Int.add_assoc used 1 1
    · refine (enter_other _ (by change k ≠ 1; omega)).trans ?_
      exact enter_other _ (by change k ≠ 0; omega)

/-- What a new process leaves as it is; the next one gets the next number. -/
structure Started (kernel kernelAfter : Kernel World) : Prop where
  framesize : kernelAfter.memory.framesize = kernel.memory.framesize
  disk : kernelAfter.disk = kernel.disk
  policy : kernelAfter.policy = kernel.policy
  inBackground : kernelAfter.inBackground = kernel.inBackground
  pidCounter : kernelAfter.pidCounter = kernel.pidCounter + 1
  others : ∀ pid, pid ≠ kernel.pidCounter → handed pid kernelAfter.trace = handed pid kernel.trace

/-- A kernel with the same processes and frames, whose files are at least the same. -/
theorem Running.elsewhere (running : Running parse jobs kernel live used) (memory : kernelAfter.memory = kernel.memory)
    (queue : kernelAfter.queue = kernel.queue) (trace : kernelAfter.trace = kernel.trace)
    (files : ∀ name file, kernel.disk name = some file → kernelAfter.disk name = some file) :
    Running parse jobs kernelAfter live used where
  queue := queue.trans running.queue
  store := memory ▸ running.store
  room := memory ▸ running.room
  here := fun process member => by
    have here := running.here process member
    obtain ⟨filename, name, found, named⟩ := here.file
    rw [memory]
    exact { here with file := ⟨filename, name, files _ _ found, named⟩ }
  told := trace ▸ running.told
  known := running.known
  pids := running.pids
  distinct := running.distinct
  done := trace ▸ running.done
  quiet := trace ▸ running.quiet
  harmless := running.harmless

/-- `process_initialize` puts a process before its first line to the end of the queue. -/
theorem processInitialize_runs (running : Running parse jobs kernel live used) (small : SmallScript script)
    (harmless : Harmless parse script) (found : kernel.disk filename = some script) (named : strdup filename ≠ noneStr)
    (fresh : ∀ job ∈ jobs, job.1 ≠ kernel.pidCounter) (untold : handed kernel.pidCounter kernel.trace = [])
    (room : 3 * (pagesOf live used + countPages script) ≤ kernel.memory.framesize) :
    ∃ kernelAfter liveAfter more, processInitialize filename kernel = .ok (0, kernelAfter) ∧
      Running parse (jobs ++ [(kernel.pidCounter, script)]) kernelAfter liveAfter more ∧ liveAfter ≠ [] ∧
      pagesOf liveAfter more = pagesOf live used + countPages script ∧ Started kernel kernelAfter := by
  have length : 0 < (fetched script).length := List.length_pos_iff.mpr (mt fetched_eq_nil.mp small.some_line)
  have pages := countPages_eq script small.aligned
  rw [pagesOf] at room
  obtain ⟨pcb, loaded, loads, advance, queue, background, told, samePid, name, own, entry, resident, second, later⟩ :=
    loadFirst_runs { kernel with pidCounter := kernel.pidCounter + 1 } kernel.pidCounter small named running.store
      (by change 3 * _ ≤ kernel.memory.framesize; omega)
  obtain ⟨next, nextEq⟩ : ∃ next : Pcb, next =
    { pcb with currentPage := 0, pc := loaded.memory.varmemsize + ((used : Int) + 1 - 1) * 3, pagesNeeded := countPages script } :=
    ⟨_, rfl⟩
  have finds : findPC loaded.memory { pcb with currentPage := 0 } = .ok (loaded.memory.varmemsize + ((used : Int) + 1 - 1) * 3) := by
    simp only [findPC, Pcb.frame, show (0 : Nat) < 50 by decide, if_true, entry, bind, Except.bind]
  have advanced : Advance kernel.pidCounter used (used + min 2 (countPages script))
      { kernel with pidCounter := kernel.pidCounter + 1 } { loaded with queue := loaded.queue ++ [next] } :=
    ⟨advance.memory, advance.store, advance.grows, advance.disk, advance.policy, advance.pidCounter, advance.trace⟩
  have here : next.At loaded.memory loaded.disk (used + min 2 (countPages script)) 0 := by
    have few := small.few
    subst own nextEq
    refine ⟨few, pages, ?_, rfl, ⟨used, by omega, entry, resident, ?_, fun _ many => ?_⟩,
      fun k _ above => later k above, filename, name, ?_, named⟩
    · change 0 < 3 * countPages pcb.script
      omega
    · change (loaded.memory.varmemsize : Int) + ((used : Int) + 1 - 1) * 3 = _
      omega
    · change 1 < countPages pcb.script at many
      exact ⟨by omega, second many⟩
    · rw [advance.disk]
      exact found
  have left : next.pagesLeft = countPages script - 2 := by
    rw [nextEq, Pcb.pagesLeft]
    rfl
  have ready : Running parse jobs { kernel with pidCounter := kernel.pidCounter + 1 } live used :=
    running.elsewhere rfl rfl rfl fun _ _ held => held
  refine ⟨{ loaded with queue := loaded.queue ++ [next] }, live ++ [⟨next, 0⟩], used + min 2 (countPages script), ?_,
    ready.add advanced fresh ?_ here (by rw [nextEq]; exact samePid) (by rw [nextEq]; exact own) ?_ (told.trans untold) harmless,
    List.append_ne_nil_of_right_ne_nil _ (List.cons_ne_nil _ _), ?_,
    ⟨advance.memory.framesize, advance.disk, advance.policy, background, advance.pidCounter, fun pid other => advance.handed_other other⟩⟩
  · rw [processInitialize, found]
    dsimp only
    rw [loads, nextEq]
    simp only [bind, Except.bind, finds]
  · change loaded.queue ++ [next] = _
    rw [queue, ← running.queue]
  · rw [left]
    change 3 * _ ≤ kernel.memory.framesize
    omega
  · rw [pagesOf, pagesOf, List.map_append, List.sum_append, List.map_singleton, List.sum_singleton, left]
    omega

/-- The scripts get the next numbers in turn. -/
def numbered (pid : Nat) (scripts : List (List UInt8)) : List (Nat × List UInt8) :=
  (scripts.zipIdx pid).map Prod.swap

theorem numbered_cons (pid : Nat) (script : List UInt8) (scripts : List (List UInt8)) :
    numbered pid (script :: scripts) = (pid, script) :: numbered (pid + 1) scripts := rfl

theorem numbered_append (pid : Nat) (scripts more : List (List UInt8)) :
    numbered pid (scripts ++ more) = numbered pid scripts ++ numbered (pid + scripts.length) more := by
  rw [numbered, List.zipIdx_append, List.map_append, numbered, numbered]

/-- The frames that the scripts need. -/
def pageTotal (scripts : List (List UInt8)) : Nat := (scripts.map countPages).sum

/-- A kernel between two commands: the jobs have the numbers so far, and the first files are still there. -/
structure Settled (parse : Parser World) (disk : CString → Option (List UInt8)) (jobs : List (Nat × List UInt8))
    (kernel : Kernel World) (live : List Waiting) (used : Nat) : Prop where
  running : Running parse jobs kernel live used
  numbers : ∀ job ∈ jobs, job.1 < kernel.pidCounter
  untold : ∀ pid, (∀ job ∈ jobs, job.1 ≠ pid) → handed pid kernel.trace = []
  files : ∀ name file, disk name = some file → kernel.disk name = some file
  mirrored : Mirrored kernel.disk
  front : kernel.inBackground = false

/-- A script that can be loaded again and again. -/
structure Script (parse : Parser World) (disk : CString → Option (List UInt8)) (name : CString) (script : List UInt8) : Prop where
  small : SmallScript script
  harmless : Harmless parse script
  found : disk name = some script

/-- The path of its copy fits the 50 bytes, and no byte is taken for the end of the file. -/
structure Copied (name : CString) (script : List UInt8) : Prop where
  short : (backingStore ++ name).length < 50
  text : 255 ∉ script

theorem copied_whole {file : List UInt8} (text : 255 ∉ file) : file.takeWhile (· ≠ 255) = file :=
  List.takeWhile_eq_self_iff.mpr fun byte member => by simpa using ne_of_mem_of_not_mem member text

/-- A copy of a file keeps every file and makes no new contents. -/
theorem Mirrored.update {disk : CString → Option (List UInt8)} {name : CString} {file : List UInt8} (mirrored : Mirrored disk)
    (found : disk name = some file) (text : 255 ∉ file) :
    (∀ other content, disk other = some content →
      Function.update disk (backingStore ++ name) (some file) other = some content) ∧
      Mirrored (Function.update disk (backingStore ++ name) (some file)) := by
  have whole := copied_whole text
  have stays : ∀ other content, disk other = some content →
      Function.update disk (backingStore ++ name) (some file) other = some content := by
    intro other content held
    by_cases same : other = backingStore ++ name
    · obtain ⟨source, known, copy⟩ := mirrored name content (same ▸ held)
      rw [found, Option.some.injEq] at known
      rw [same, Function.update_self, copy, ← known, whole]
    · rw [Function.update_of_ne same, held]
  refine ⟨stays, fun other copy held => ?_⟩
  by_cases same : other = name
  · rw [same, Function.update_self, Option.some.injEq] at held
    exact ⟨file, same ▸ stays name file found, by rw [whole, held]⟩
  · rw [Function.update_of_ne fun equal => same (List.append_cancel_left equal)] at held
    obtain ⟨source, known, content⟩ := mirrored other copy held
    exact ⟨source, stays other source known, content⟩

theorem backed_named (name : CString) : strdup (backingStore ++ name) ≠ noneStr := fun same => by
  have first : some (46 : UInt8) = some 110 := congrArg List.head? same
  exact absurd first (by decide)

namespace Settled

variable {disk : CString → Option (List UInt8)}

theorem start (settled : Settled parse disk jobs kernel live used) (small : SmallScript script) (harmless : Harmless parse script)
    (found : kernel.disk filename = some script) (named : strdup filename ≠ noneStr)
    (room : 3 * (pagesOf live used + countPages script) ≤ kernel.memory.framesize) :
    ∃ kernelAfter liveAfter more, processInitialize filename kernel = .ok (0, kernelAfter) ∧
      Settled parse disk (jobs ++ [(kernel.pidCounter, script)]) kernelAfter liveAfter more ∧
      pagesOf liveAfter more = pagesOf live used + countPages script ∧
      kernelAfter.pidCounter = kernel.pidCounter + 1 ∧ kernelAfter.policy = kernel.policy ∧
      kernelAfter.memory.framesize = kernel.memory.framesize := by
  obtain ⟨kernelAfter, liveAfter, more, starts, running, _, pages, started⟩ :=
    processInitialize_runs settled.running small harmless found named (fun job member => Nat.ne_of_lt (settled.numbers job member))
      (settled.untold _ fun job member => Nat.ne_of_lt (settled.numbers job member)) room
  refine ⟨kernelAfter, liveAfter, more, starts, ⟨running, fun job member => ?_, fun pid other => ?_, ?_, ?_, ?_⟩, pages,
    started.pidCounter, started.policy, started.framesize⟩
  · rw [started.pidCounter]
    rcases List.mem_append.mp member with old | new
    · exact Nat.lt_succ_of_lt (settled.numbers job old)
    · rw [List.mem_singleton.mp new]
      exact Nat.lt_succ_self _
  · rw [started.others pid (other _ (List.mem_append_right _ (List.mem_singleton_self _))).symm]
    exact settled.untold pid fun job member => other job (List.mem_append_left _ member)
  · rw [started.disk]
    exact settled.files
  · rw [started.disk]
    exact settled.mirrored
  · rw [started.inBackground]
    exact settled.front

/-- `exec` copies and loads every script. -/
theorem execLoad {names : List CString} {scripts : List (List UInt8)} (settled : Settled parse disk jobs kernel live used)
    (loads : List.Forall₂ (fun name script => Script parse disk name script ∧ Copied name script) names scripts)
    (room : 3 * (pagesOf live used + pageTotal scripts) ≤ kernel.memory.framesize) :
    ∃ kernelAfter liveAfter more, Kernel.execLoad names kernel = .ok (0, kernelAfter) ∧
      Settled parse disk (jobs ++ numbered kernel.pidCounter scripts) kernelAfter liveAfter more ∧
      pagesOf liveAfter more = pagesOf live used + pageTotal scripts ∧
      kernelAfter.pidCounter = kernel.pidCounter + scripts.length ∧ kernelAfter.policy = kernel.policy ∧
      kernelAfter.memory.framesize = kernel.memory.framesize := by
  induction loads generalizing kernel jobs live used with
  | nil => exact ⟨kernel, live, used, rfl, (List.append_nil jobs).symm ▸ settled, rfl, rfl, rfl, rfl⟩
  | @cons name script names scripts first rest ih =>
      obtain ⟨held, copied⟩ := first
      have found := settled.files _ _ held.found
      obtain ⟨stays, mirrored⟩ := settled.mirrored.update found copied.text
      have copies : copyFileBack name kernel = .ok (backingStore ++ name,
          { kernel with disk := Function.update kernel.disk (backingStore ++ name) (some script) }) := by
        rw [copyFileBack, if_pos copied.short, found]
        dsimp only
        rw [copied_whole copied.text]
      have prepared : Settled parse disk jobs
          { kernel with disk := Function.update kernel.disk (backingStore ++ name) (some script) } live used :=
        ⟨settled.running.elsewhere rfl rfl rfl stays, settled.numbers, settled.untold,
          fun other content held => stays other content (settled.files other content held), mirrored, settled.front⟩
      rw [pageTotal, List.map_cons, List.sum_cons, ← pageTotal] at room
      obtain ⟨started, liveStarted, middle, starts, settledStarted, pages, counter, policy, framesize⟩ :=
        prepared.start held.small held.harmless (Function.update_self _ _ _) (backed_named name)
          (by change 3 * _ ≤ kernel.memory.framesize; omega)
      obtain ⟨kernelAfter, liveAfter, more, runs, ends, total, counterAfter, policyAfter, framesizeAfter⟩ :=
        ih settledStarted (by rw [framesize, pages]; change 3 * _ ≤ kernel.memory.framesize; omega)
      refine ⟨kernelAfter, liveAfter, more, ?_, ?_, ?_, ?_, policyAfter.trans policy, framesizeAfter.trans framesize⟩
      · rw [Kernel.execLoad, copies]
        simp only [bind, Except.bind, starts, ne_eq, not_true_eq_false, if_false]
        exact runs
      · rw [numbered_cons, List.append_cons, ← counter]
        exact ends
      · rw [total, pages, pageTotal, pageTotal, List.map_cons, List.sum_cons, Nat.add_assoc]
      · rw [counterAfter, counter, List.length_cons]
        change kernel.pidCounter + 1 + _ = _
        omega

end Settled

end MockOS.A2
