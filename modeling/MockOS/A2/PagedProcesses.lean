import MockOS.A2.FrameStore

namespace MockOS.A2

open MockOS.Proc (Fault Outcome MemoryStruct noneStr)
open ShellMemory

variable {World : Type} {memory memoryAfter : ShellMemory} {disk : CString → Option (List UInt8)} {used more position : Nat}
  {pcb : Pcb} {script : List UInt8} {parse : Parser World}

/-- The lines of a script as they are handed to `parseInput`. -/
def texts (script : List UInt8) : List CString := (fetched script).map strdup

/-- The lines that were handed over for a process. -/
def handed (pid : Nat) (trace : List Event) : List CString :=
  trace.filterMap fun
    | .handed other line => if other = pid then some line else none
    | _ => none

theorem handed_append (pid : Nat) (trace events : List Event) : handed pid (trace ++ events) = handed pid trace ++ handed pid events :=
  List.filterMap_append

/-- No line starts a process or ends the session, and none is the mark of a free slot. -/
structure Harmless (parse : Parser World) (script : List UInt8) : Prop where
  text : noneStr ∉ texts script
  commands : ∀ line ∈ texts script, ∀ memory world, ∀ command ∈ (parse line memory world).1,
    (∃ var value, command = .set var value) ∨ command = .resetmem

/-- The process stands before a line slot of its script, and the pages that it will need without a fault are in place. -/
structure Pcb.At (pcb : Pcb) (memory : ShellMemory) (disk : CString → Option (List UInt8)) (used position : Nat) : Prop where
  few : (fetched pcb.script).length ≤ 147
  needed : pcb.pagesNeeded = ((fetched pcb.script).length + 2) / 3
  inside : position < 3 * pcb.pagesNeeded
  page : pcb.currentPage = position / 3
  entry : ∃ frame < used, pcb.pagetable pcb.currentPage = frame + 1 ∧ Resident memory (fetched pcb.script) pcb.currentPage frame ∧
    pcb.pc = memory.varmemsize + 3 * frame + position % 3 ∧
    (pcb.currentPage = 0 → 1 < pcb.pagesNeeded →
      frame + 1 < used ∧ pcb.pagetable 1 = frame + 2 ∧ Resident memory (fetched pcb.script) 1 (frame + 1))
  later : ∀ k, pcb.currentPage < k → 2 ≤ k → pcb.pagetable k = -1
  file : ∃ filename, pcb.filename = some filename ∧ disk filename = some pcb.script ∧ strdup filename ≠ noneStr

/-- The pages that are still to be loaded; the first two are loaded at the start. -/
def Pcb.pagesLeft (pcb : Pcb) : Nat := pcb.pagesNeeded - max (pcb.currentPage + 1) 2

namespace Pcb.At

theorem keeps (here : pcb.At memory disk used position) (keeps : KeepsFrames used memory memoryAfter) (grows : used ≤ more) :
    pcb.At memoryAfter disk more position := by
  obtain ⟨frame, inUse, mapped, resident, pc, second⟩ := here.entry
  refine ⟨here.few, here.needed, here.inside, here.page, ⟨frame, inUse.trans_le grows, mapped,
    resident.keeps keeps inUse, keeps.varmemsize ▸ pc, fun first many => ?_⟩, here.later, here.file⟩
  obtain ⟨nextInUse, nextMapped, nextResident⟩ := second first many
  exact ⟨nextInUse.trans_le grows, nextMapped, nextResident.keeps keeps nextInUse⟩

theorem page_lt (here : pcb.At memory disk used position) : pcb.currentPage < pcb.pagesNeeded := by
  have inside := here.inside
  rw [here.page]
  omega

theorem needed_lt (here : pcb.At memory disk used position) : pcb.pagesNeeded < 50 := by
  have few := here.few
  rw [here.needed]
  omega

/-- The line that is fetched. -/
theorem fetches (here : pcb.At memory disk used position) (store : FrameStore memory used) :
    memory.memGetValueAtLine pcb.pc = .ok (some (lineAt (fetched pcb.script) position)) := by
  obtain ⟨frame, inUse, mapped, resident, pc, _⟩ := here.entry
  have fits := store.fits
  have line := resident (position % 3) (Nat.mod_lt _ (by decide))
  rw [here.page, Nat.div_add_mod] at line
  have place : pcb.pc.toNat = memory.varmemsize + 3 * frame + position % 3 := by omega
  rw [memGetValueAtLine, if_neg (by rw [ShellMemory.length]; omega), if_neg (by rw [ShellMemory.length]; omega), place, line]

/-- Within a page the program counter moves on. -/
theorem fetch (here : pcb.At memory disk used position) (within : position % 3 < 2) :
    pcb.fetch.At memory disk used (position + 1) := by
  obtain ⟨frame, inUse, mapped, resident, pc, second⟩ := here.entry
  have inside := here.inside
  have page := here.page
  refine ⟨here.few, here.needed, ?_, ?_, ⟨frame, inUse, mapped, resident, ?_, second⟩, here.later, here.file⟩
  · change position + 1 < 3 * pcb.pagesNeeded
    omega
  · change pcb.currentPage = _
    omega
  · change pcb.pc + 1 = _
    omega

/-- The second page lies behind the first one. -/
theorem secondPage (here : pcb.At memory disk used position) (last : position % 3 = 2) (first : pcb.currentPage = 0)
    (many : 1 < pcb.pagesNeeded) : pcb.fetch.advancePage.At memory disk used (position + 1) := by
  obtain ⟨frame, inUse, mapped, resident, pc, second⟩ := here.entry
  obtain ⟨nextInUse, nextMapped, nextResident⟩ := second first many
  have page := here.page
  have current : pcb.fetch.advancePage.currentPage = 1 := by
    change pcb.currentPage + 1 = 1
    omega
  refine ⟨here.few, here.needed, ?_, ?_, ⟨frame + 1, nextInUse, ?_, ?_, ?_, ?_⟩, ?_, here.file⟩
  · change position + 1 < 3 * pcb.pagesNeeded
    omega
  · rw [current]
    omega
  · rw [current]
    change pcb.pagetable 1 = _
    rw [nextMapped]
    omega
  · rw [current]
    exact nextResident
  · change pcb.pc + 1 = _
    omega
  · rw [current]
    exact fun none => absurd none Nat.one_ne_zero
  · rw [current]
    exact fun k above _ => here.later k (by omega) (by omega)

end Pcb.At

namespace Kernel

variable {kernel middle kernelAfter : Kernel World} {pid : Nat}

theorem runCommand_harmless (kernel : Kernel World) {command : Command} (harmless : (∃ var value, command = .set var value) ∨ command = .resetmem) :
    ∃ memoryAfter, runCommand kernel command = .ok { kernel with memory := memoryAfter } ∧ SameFrames kernel.memory memoryAfter := by
  rcases harmless with ⟨var, value, rfl⟩ | rfl
  · exact ⟨_, rfl, memSetValue_sameFrames kernel.memory var value⟩
  · exact ⟨_, rfl, resetvarmem_sameFrames kernel.memory⟩

theorem runCommands_harmless (kernel : Kernel World) {commands : List Command}
    (harmless : ∀ command ∈ commands, (∃ var value, command = .set var value) ∨ command = .resetmem) :
    ∃ memoryAfter, commands.foldlM runCommand kernel = .ok { kernel with memory := memoryAfter } ∧
      SameFrames kernel.memory memoryAfter := by
  induction commands generalizing kernel with
  | nil => exact ⟨kernel.memory, rfl, .refl _⟩
  | cons command rest ih =>
      obtain ⟨between, runs, same⟩ := runCommand_harmless kernel (harmless command List.mem_cons_self)
      obtain ⟨memoryAfter, runsRest, sameRest⟩ := ih { kernel with memory := between }
        fun other inside => harmless other (List.mem_cons_of_mem _ inside)
      refine ⟨memoryAfter, ?_, same.trans sameRest⟩
      rw [List.foldlM_cons, runs]
      exact runsRest

/-- The events of a process alone, with no page thrown out, on frames that are only added to. -/
structure Advance (pid used more : Nat) (kernel kernelAfter : Kernel World) : Prop where
  memory : KeepsFrames used kernel.memory kernelAfter.memory
  store : FrameStore kernelAfter.memory more
  grows : used ≤ more
  disk : kernelAfter.disk = kernel.disk
  policy : kernelAfter.policy = kernel.policy
  pidCounter : kernelAfter.pidCounter = kernel.pidCounter
  trace : ∃ events, kernelAfter.trace = kernel.trace ++ events ∧ .evicted ∉ events ∧ ∀ other, other ≠ pid → handed other events = []

namespace Advance

theorem trans {between : Nat} (first : Advance pid used between kernel middle) (later : Advance pid between more middle kernelAfter) :
    Advance pid used more kernel kernelAfter := by
  obtain ⟨events, one, quiet, own⟩ := first.trace
  obtain ⟨eventsLater, two, quietLater, ownLater⟩ := later.trace
  refine ⟨first.memory.trans later.memory first.grows, later.store, first.grows.trans later.grows, later.disk.trans first.disk,
    later.policy.trans first.policy, later.pidCounter.trans first.pidCounter, events ++ eventsLater, ?_, ?_, ?_⟩
  · rw [two, one, List.append_assoc]
  · rw [List.mem_append]
    exact fun inside => inside.elim quiet quietLater
  · intro other different
    rw [handed_append, own other different, ownLater other different, List.append_nil]

/-- What a process does is not handed over for the others. -/
theorem handed_other {pid other : Nat} (advance : Advance pid used more kernel kernelAfter) (different : other ≠ pid) :
    handed other kernelAfter.trace = handed other kernel.trace := by
  obtain ⟨events, grows, _, own⟩ := advance.trace
  rw [grows, handed_append, own other different, List.append_nil]

theorem quiet {pid : Nat} (advance : Advance pid used more kernel kernelAfter) (quiet : .evicted ∉ kernel.trace) :
    .evicted ∉ kernelAfter.trace := by
  obtain ⟨events, grows, fresh, _⟩ := advance.trace
  rw [grows, List.mem_append]
  exact fun inside => inside.elim quiet fresh

/-- Only the flag of the background differs. -/
theorem background (advance : Advance pid used more kernel kernelAfter) (flag : Bool) :
    Advance pid used more kernel { kernelAfter with inBackground := flag } :=
  ⟨advance.memory, advance.store, advance.grows, advance.disk, advance.policy, advance.pidCounter, advance.trace⟩

end Advance

/-- A line that is handed over, if the slot holds one. -/
theorem parseLine_runs (kernel : Kernel World) (harmless : Harmless parse script) (store : FrameStore kernel.memory used) (pid position : Nat) :
    ∃ kernelAfter, parseLine parse pid (some (lineAt (fetched script) position)) kernel = .ok kernelAfter ∧
      Advance pid used used kernel kernelAfter ∧ kernelAfter.queue = kernel.queue ∧
      (handed pid kernel.trace = (texts script).take position →
        handed pid kernelAfter.trace = (texts script).take (position + 1)) := by
  have slot : (texts script)[position]? = (fetched script)[position]?.map strdup := by rw [texts, List.getElem?_map]
  rw [lineAt, ← slot, parseLine]
  cases found : (texts script)[position]? with
  | none =>
      rw [Option.getD_none, if_pos rfl]
      refine ⟨kernel, rfl, ⟨.refl _ _, store, Nat.le_refl _, rfl, rfl, rfl, [], (List.append_nil _).symm, List.not_mem_nil,
        fun _ _ => rfl⟩, rfl, fun before => ?_⟩
      have behind := List.getElem?_eq_none_iff.mp found
      rw [before, List.take_of_length_le behind, List.take_of_length_le (Nat.le_succ_of_le behind)]
  | some text =>
      have member := List.mem_of_getElem? found
      have notNone : text ≠ noneStr := fun same => harmless.text (same ▸ member)
      obtain ⟨memoryAfter, runs, same⟩ := runCommands_harmless
        { kernel.log (.handed pid text) with world := (parse text kernel.memory kernel.world).2 }
        (harmless.commands text member kernel.memory kernel.world)
      rw [Option.getD_some, if_neg notNone]
      refine ⟨_, runs, ⟨.of_sameFrames same used, store.sameFrames same, Nat.le_refl _, rfl, rfl, rfl, [.handed pid text], rfl,
        by simp, fun other different => by simp [handed, different.symm]⟩, rfl, fun before => ?_⟩
      change handed pid (kernel.trace ++ [.handed pid text]) = _
      rw [handed_append, before, List.take_add_one, found]
      simp [handed]

theorem handed_loaded (pid : Nat) (trace : List Event) (filename : CString) (count : Nat) :
    handed pid (trace ++ [.loaded filename count]) = handed pid trace := by
  rw [handed_append]
  exact List.append_nil _

/-- A page fault loads the current page and puts the process at the end of the queue. -/
theorem handlePageFault_runs (pcb : Pcb) (pid : Nat) (few : (fetched pcb.script).length ≤ 147)
    (needed : pcb.pagesNeeded = ((fetched pcb.script).length + 2) / 3) (inside : pcb.currentPage < pcb.pagesNeeded)
    (file : ∃ filename, pcb.filename = some filename ∧ kernel.disk filename = some pcb.script ∧ strdup filename ≠ noneStr)
    (beyond : 2 ≤ pcb.currentPage) (later : ∀ k, pcb.currentPage < k → pcb.pagetable k = -1)
    (store : FrameStore kernel.memory used) (room : 3 * used + 3 ≤ kernel.memory.framesize) :
    ∃ kernelAfter next, handlePageFault pcb kernel = .ok kernelAfter ∧ Advance pid used (used + 1) kernel kernelAfter ∧
      kernelAfter.queue = kernel.queue ++ [next] ∧ next.At kernelAfter.memory kernelAfter.disk (used + 1) (3 * pcb.currentPage) ∧
      next.pid = pcb.pid ∧ next.script = pcb.script ∧ next.currentPage = pcb.currentPage ∧ next.pagesNeeded = pcb.pagesNeeded ∧
      handed pid kernelAfter.trace = handed pid kernel.trace := by
  obtain ⟨filename, name, found, named⟩ := file
  have stands := (Stream.At.fopen pcb.script).skipLines (pcb.currentPage * 3)
  rw [Nat.mul_comm] at stands
  obtain ⟨behind, count, memoryAfter, loads, _, _, keeps, storeAfter, resident⟩ :=
    loadPage_runs kernel pcb store room stands (by omega) (by omega) named
  have number : (pcb.enter ((used : Int) + 1)).pagetable pcb.currentPage = used + 1 := Function.update_self _ _ _
  have finds : findPC memoryAfter (pcb.enter (used + 1)) = .ok (memoryAfter.varmemsize + ((used : Int) + 1 - 1) * 3) := by
    have low : pcb.currentPage < 50 := by omega
    simp only [findPC, Pcb.frame, show (pcb.enter ((used : Int) + 1)).currentPage = pcb.currentPage from rfl, if_pos low, number,
      bind, Except.bind]
  obtain ⟨next, nextEq⟩ : ∃ next : Pcb, next =
    { pcb.enter (used + 1) with pc := memoryAfter.varmemsize + ((used : Int) + 1 - 1) * 3 } := ⟨_, rfl⟩
  refine ⟨{ kernel.log (.loaded filename count) with memory := memoryAfter, queue := kernel.queue ++ [next] }, next, ?_,
    ⟨keeps, storeAfter, Nat.le_succ used, rfl, rfl, rfl, [.loaded filename count], rfl, by simp, fun other _ => rfl⟩, rfl, ?_,
    by rw [nextEq]; rfl, by rw [nextEq]; rfl, by rw [nextEq]; rfl, by rw [nextEq]; rfl, handed_loaded pid _ filename count⟩
  · rw [handlePageFault, name]
    dsimp only
    rw [found]
    dsimp only
    rw [Nat.mul_comm, loads, nextEq]
    simp only [bind, Except.bind, finds, log]
  · subst nextEq
    refine ⟨few, needed, ?_, ?_, ⟨used, Nat.lt_succ_self used, number, resident, ?_, ?_⟩, fun k above _ => ?_,
      filename, name, found, named⟩
    · change 3 * pcb.currentPage < 3 * pcb.pagesNeeded
      omega
    · change pcb.currentPage = _
      omega
    · change (memoryAfter.varmemsize : Int) + ((used : Int) + 1 - 1) * 3 = memoryAfter.varmemsize + 3 * used + (3 * pcb.currentPage) % 3
      omega
    · exact fun none => absurd none (by change pcb.currentPage ≠ 0; omega)
    · change pcb.currentPage < k at above
      exact (Function.update_of_ne (Nat.ne_of_gt above) _ _).trans (later k above)

theorem Advance.refl (pid : Nat) (store : FrameStore kernel.memory used) : Advance pid used used kernel kernel :=
  ⟨.refl _ _, store, Nat.le_refl _, rfl, rfl, rfl, [], (List.append_nil _).symm, List.not_mem_nil, fun _ _ => rfl⟩

theorem Advance.here (advance : Advance pid used more kernel kernelAfter)
    (here : pcb.At kernel.memory kernel.disk used position) :
    pcb.At kernelAfter.memory kernelAfter.disk more position := by
  rw [advance.disk]
  exact here.keeps advance.memory advance.grows

/-- What a process has become when it gives up the processor: it is finished, or it waits with some lines done. -/
def Yields (pcb : Pcb) (position used more quanta : Nat) (kernel kernelAfter : Kernel World)
    (left : Option Pcb) : Prop :=
  (left = none ∧ more = used ∧ kernelAfter.queue = kernel.queue ∧ handed pcb.pid kernelAfter.trace = texts pcb.script ∧
      kernelAfter.inBackground = false) ∨
    ∃ next reached, next.At kernelAfter.memory kernelAfter.disk more reached ∧ next.pid = pcb.pid ∧ next.script = pcb.script ∧
      more + next.pagesLeft = used + pcb.pagesLeft ∧ handed pcb.pid kernelAfter.trace = (texts pcb.script).take reached ∧
      position + min quanta 1 ≤ reached ∧
      (left = some next ∧ reached = position + quanta ∧ kernelAfter.queue = kernel.queue ∨
        left = none ∧ kernelAfter.queue = kernel.queue ++ [next])

/-- One more line before the rest of the quantum. -/
theorem Yields.succ {step : Pcb} {quanta : Nat} {left : Option Pcb} (yields : Yields step (position + 1) used more quanta middle
    kernelAfter left) (pid : step.pid = pcb.pid) (script : step.script = pcb.script) (pages : step.pagesLeft = pcb.pagesLeft) (queue : middle.queue = kernel.queue) :
    Yields pcb position used more (quanta + 1) kernel kernelAfter left := by
  rw [Yields, pid, script, pages, queue] at yields
  refine yields.imp id fun ⟨next, reached, here, same, own, room, told, far, ends⟩ =>
    ⟨next, reached, here, same, own, room, told, by omega, ends.imp (fun stays => ⟨stays.1, by omega, stays.2.2⟩) id⟩

/-- `execute_process` hands over the next lines of the script. -/
theorem executeProcess_runs (kernel : Kernel World) (quanta : Nat) (here : pcb.At kernel.memory kernel.disk used position)
    (harmless : Harmless parse pcb.script) (store : FrameStore kernel.memory used)
    (room : 3 * (used + pcb.pagesLeft) ≤ kernel.memory.framesize)
    (before : handed pcb.pid kernel.trace = (texts pcb.script).take position) :
    ∃ left kernelAfter more, executeProcess parse quanta pcb kernel = .ok (left, kernelAfter) ∧
      Advance pcb.pid used more kernel kernelAfter ∧ Yields pcb position used more quanta kernel kernelAfter left := by
  induction quanta generalizing pcb kernel position with
  | zero =>
      exact ⟨some pcb, kernel, used, rfl, .refl _ store,
        .inr ⟨pcb, position, here, rfl, rfl, rfl, before, Nat.le_refl _, .inl ⟨rfl, rfl, rfl⟩⟩⟩
  | succ quanta ih =>
      obtain ⟨frame, inUse, mapped, resident, pc, second⟩ := here.entry
      have low := here.page_lt.trans here.needed_lt
      have entry : pcb.frame pcb.currentPage = .ok ((frame : Int) + 1) := by rw [Pcb.frame, if_pos low, mapped]
      obtain ⟨parsed, parses, advance, queue, handedNow⟩ :=
        parseLine_runs { kernel with inBackground := true } harmless store pcb.pid position
      have advanced : Advance pcb.pid used used kernel { parsed with inBackground := false } :=
        ⟨advance.memory, advance.store, advance.grows, advance.disk, advance.policy, advance.pidCounter, advance.trace⟩
      have roomAfter : 3 * (used + pcb.pagesLeft) ≤ parsed.memory.framesize := by
        rw [advance.memory.framesize]
        exact room
      have parsesFetched : parseLine parse pcb.fetch.pid (some (lineAt (fetched pcb.script) position))
          { kernel with inBackground := true } = .ok parsed := parses
      have parsesAdvanced : parseLine parse pcb.fetch.advancePage.pid (some (lineAt (fetched pcb.script) position))
          { kernel with inBackground := true } = .ok parsed := parses
      rw [executeProcess]
      simp only [entry, here.fetches store, bind, Except.bind]
      by_cases last : position % 3 = 2
      · have page := here.page
        have inside := here.inside
        have needed := here.needed
        have below := here.needed_lt
        rw [if_pos (by change pcb.pc + 1 > _; omega)]
        have nextEntry : pcb.fetch.advancePage.frame pcb.fetch.advancePage.currentPage = .ok (pcb.pagetable (pcb.currentPage + 1)) :=
          if_pos (by change pcb.currentPage + 1 < 50; omega)
        rw [nextEntry]
        dsimp only
        by_cases ends : pcb.currentPage + 1 = pcb.pagesNeeded
        · rw [if_pos (by change pcb.currentPage + 1 + 1 > pcb.pagesNeeded; omega), parsesAdvanced]
          refine ⟨none, _, used, rfl, advanced, .inl ⟨rfl, rfl, queue, ?_, rfl⟩⟩
          have length : (texts pcb.script).length = (fetched pcb.script).length := by rw [texts, List.length_map]
          exact (handedNow before).trans (List.take_of_length_le (by omega))
        · rw [if_neg (by change ¬ pcb.currentPage + 1 + 1 > pcb.pagesNeeded; omega)]
          by_cases first : pcb.currentPage = 0
          · obtain ⟨nextInUse, nextMapped, _⟩ := second first (by omega)
            have moves := advanced.here (here.secondPage last first (by omega))
            rw [first, Nat.zero_add, nextMapped, if_neg (by omega), parsesAdvanced]
            have pages : pcb.fetch.advancePage.pagesLeft = pcb.pagesLeft := by
              change pcb.pagesNeeded - max (pcb.currentPage + 1 + 1) 2 = pcb.pagesNeeded - max (pcb.currentPage + 1) 2
              omega
            obtain ⟨left, kernelAfter, more, runs, advanceRest, yields⟩ :=
              ih _ moves harmless advance.store (by rw [pages]; exact roomAfter) (handedNow before)
            exact ⟨left, kernelAfter, more, runs, advanced.trans advanceRest, yields.succ rfl rfl pages queue⟩
          · -- the rest of the quantum is given up for a page fault
            rw [here.later _ (Nat.lt_succ_self _) (by omega), if_pos rfl, parsesAdvanced]
            have beyond : 2 ≤ pcb.fetch.advancePage.currentPage := by
              change 2 ≤ pcb.currentPage + 1
              omega
            have left : pcb.pagesLeft = pcb.pagesNeeded - (pcb.currentPage + 1) := by
              rw [Pcb.pagesLeft]
              omega
            obtain ⟨filename, name, found, named⟩ := here.file
            obtain ⟨kernelAfter, next, faults, advanceFault, queueAfter, hereAfter, samePid, sameScript, samePage, sameNeeded, told⟩ :=
              handlePageFault_runs pcb.fetch.advancePage pcb.pid here.few here.needed
                (by change pcb.currentPage + 1 < pcb.pagesNeeded; omega)
                ⟨filename, name, (advance.disk ▸ found : parsed.disk filename = some pcb.script), named⟩ beyond
                (fun k above => here.later k (by change pcb.currentPage + 1 < k at above; omega)
                  (by change pcb.currentPage + 1 < k at above; omega)) advance.store (by omega)
            dsimp only
            rw [faults]
            have onward : position + 1 = 3 * pcb.fetch.advancePage.currentPage := by
              change position + 1 = 3 * (pcb.currentPage + 1)
              omega
            have advancedParsed : Advance pcb.pid used used kernel parsed :=
              ⟨advance.memory, advance.store, advance.grows, advance.disk, advance.policy, advance.pidCounter, advance.trace⟩
            have advancedFault := advancedParsed.trans advanceFault
            refine ⟨none, kernelAfter, used + 1, rfl, advancedFault, .inr ⟨next, position + 1, onward ▸ hereAfter, samePid, sameScript, ?_,
              told.trans (handedNow before), by omega, .inr ⟨rfl, queueAfter.trans (by rw [queue])⟩⟩⟩
            rw [Pcb.pagesLeft, samePage, sameNeeded, left]
            change used + 1 + (pcb.pagesNeeded - max (pcb.currentPage + 1 + 1) 2) = _
            omega
      · have within : position % 3 < 2 := by omega
        have moves := advanced.here (here.fetch within)
        rw [if_neg (by change ¬ pcb.pc + 1 > _; omega), parsesFetched]
        obtain ⟨left, kernelAfter, more, runs, advanceRest, yields⟩ := ih _ moves harmless advance.store roomAfter (handedNow before)
        exact ⟨left, kernelAfter, more, runs, advanced.trans advanceRest, yields.succ rfl rfl rfl queue⟩

end Kernel

end MockOS.A2
