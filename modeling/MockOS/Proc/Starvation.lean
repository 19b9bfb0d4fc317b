import MockOS.Proc.Loading
import Mathlib.Algebra.BigOperators.Fin
import Mathlib.Algebra.Order.BigOperators.Group.Finset

namespace MockOS.Proc

/-- The lines of a page from `counter` on that are still to be run. -/
def Page.waiting (page : Page) (counter : Nat) : Nat :=
  ∑ j : Fin 3, if page.validBit j ∧ counter ≤ j.val then 1 else 0

theorem Page.waiting_set (page : Page) (counter : Nat) (j : Fin 3) :
    ({ page with validBit := Function.update page.validBit j true } : Page).waiting counter ≤ page.waiting counter + 1 := by
  calc ({ page with validBit := Function.update page.validBit j true } : Page).waiting counter
      ≤ ∑ i : Fin 3, ((if page.validBit i ∧ counter ≤ i.val then 1 else 0) + if i = j then 1 else 0) := by
        refine Finset.sum_le_sum fun i _ => ?_
        by_cases same : i = j
        · subst same
          split <;> split <;> simp_all
        · simp [same]
    _ = page.waiting counter + 1 := by
        rw [Finset.sum_add_distrib, Finset.sum_ite_eq' Finset.univ j]
        simp [Page.waiting]

/-- Each line that becomes valid has been taken from the file. -/
theorem fillPage_waiting {pid : CString} {js : List (Fin 3)} {page page' : Page} {file file' : List UInt8}
    {memory memory' : ShellMemory} (counter : Nat)
    (fills : Pcb.fillPage pid js page file memory = .ok (page', file', memory')) :
    page'.waiting counter + (fetched file').length ≤ page.waiting counter + (fetched file).length := by
  induction js generalizing page file memory with
  | nil =>
      simp only [Pcb.fillPage, Except.ok.injEq, Prod.mk.injEq] at fills
      obtain ⟨rfl, rfl, _⟩ := fills
      exact Nat.le_refl _
  | cons j rest ih =>
      cases read : fgets 999 file with
      | none =>
          simp only [Pcb.fillPage, read, Except.ok.injEq, Prod.mk.injEq] at fills
          obtain ⟨rfl, rfl, _⟩ := fills
          exact Nat.le_refl _
      | some result =>
          obtain ⟨line, file₁⟩ := result
          simp only [Pcb.fillPage, read, bind_eq_ok] at fills
          obtain ⟨memory₁, _, later⟩ := fills
          have rest := ih later
          have one := page.waiting_set counter j
          rw [fetched_some read, List.length_cons]
          omega

namespace Pcb

/-- The lines that have been run from a page or are still to be run from it. -/
def credit (pcb : Pcb) (k : Nat) : Nat :=
  pcb.programCounter k + (pcb.pageTable k).waiting (pcb.programCounter k)

/-- Fewer lines will ever be run than were counted. -/
structure Starved (count : Nat) (pcb : Pcb) : Prop where
  budget : ∑ k ∈ Finset.range pcb.pageTableSize, pcb.credit k + (fetched pcb.sourceFile).length < count
  size : pcb.size = (count : Int) - (∑ k ∈ Finset.range pcb.pageTableSize, pcb.programCounter k : Nat)
  table : count ≤ 3 * pcb.pageTableSize

variable {count : Nat} {pcb : Pcb}

theorem Starved.counters_lt (starved : Starved count pcb) :
    ∑ k ∈ Finset.range pcb.pageTableSize, pcb.programCounter k < count := by
  have less : ∑ k ∈ Finset.range pcb.pageTableSize, pcb.programCounter k ≤
      ∑ k ∈ Finset.range pcb.pageTableSize, pcb.credit k :=
    Finset.sum_le_sum fun k _ => Nat.le_add_right _ _
  have := starved.budget
  omega

theorem Starved.size_pos (starved : Starved count pcb) : 0 < pcb.size := by
  have := starved.counters_lt
  have := starved.size
  omega

/-- Such a process never counts as done. -/
theorem Starved.not_done (starved : Starved count pcb) : pcb.pcbDone = false := by
  by_contra ended
  rw [Bool.not_eq_false] at ended
  have three : ∑ k ∈ Finset.range pcb.pageTableSize, pcb.programCounter k = 3 * pcb.pageTableSize := by
    rw [Finset.sum_congr rfl (g := fun _ => 3)]
    · simp [Nat.mul_comm]
    · intro k inside
      exact beq_iff_eq.mp (List.all_eq_true.mp ended k (by simpa using inside))
  have := starved.counters_lt
  have := starved.table
  omega

theorem sum_update_le (f : Nat → Nat) {n i value before after : Nat} (paid : value + after ≤ f i + before)
    (less : after ≤ before) :
    ∑ k ∈ Finset.range n, Function.update f i value k + after ≤ ∑ k ∈ Finset.range n, f k + before := by
  by_cases inside : i ∈ Finset.range n
  · rw [Finset.sum_update_of_mem inside, ← Finset.add_sum_erase _ f inside, Finset.sdiff_singleton_eq_erase]
    omega
  · rw [Finset.sum_update_of_notMem inside]
    omega

/-- A change of one page that its lines pay for. -/
theorem Starved.changePage {i : Nat} {page : Page} {file : List UInt8} (starved : Starved count pcb)
    (paid : page.waiting (pcb.programCounter i) + (fetched file).length ≤
      (pcb.pageTable i).waiting (pcb.programCounter i) + (fetched pcb.sourceFile).length)
    (less : (fetched file).length ≤ (fetched pcb.sourceFile).length) :
    Starved count { pcb.setPage i page with sourceFile := file } where
  budget := by
    have credits : ({ pcb.setPage i page with sourceFile := file } : Pcb).credit =
        Function.update pcb.credit i (pcb.programCounter i + page.waiting (pcb.programCounter i)) := by
      funext k
      by_cases same : k = i
      · simp [same, credit, setPage]
      · simp [same, credit, setPage]
    rw [credits]
    refine Nat.lt_of_le_of_lt (sum_update_le _ ?_ less) starved.budget
    simp only [credit]
    omega
  size := starved.size
  table := starved.table

theorem waiting_succ {page : Page} {j : Fin 3} (valid : page.validBit j = true) :
    page.waiting (j.val + 1) + 1 ≤ page.waiting j.val := by
  have pointwise : ∀ i : Fin 3, (if page.validBit i ∧ j.val + 1 ≤ i.val then 1 else 0) + (if i = j then 1 else 0) ≤
      if page.validBit i ∧ j.val ≤ i.val then 1 else 0 := by
    intro i
    by_cases same : i = j
    · subst same
      simp [valid]
    · have apart : i.val ≠ j.val := Fin.val_ne_of_ne same
      simp only [same, if_false, Nat.add_zero]
      split <;> split <;> first | omega | simp_all; omega
  have total := Finset.sum_le_sum fun i (_ : i ∈ Finset.univ) => pointwise i
  rw [Finset.sum_add_distrib, Finset.sum_ite_eq' Finset.univ j] at total
  simpa [Page.waiting] using total

/-- Running a line uses up one that was waiting. -/
theorem Starved.advance {i : Nat} {j : Fin 3} (starved : Starved count pcb) (inTable : i < pcb.pageTableSize)
    (counter : pcb.programCounter i = j.val) (valid : (pcb.pageTable i).validBit j = true) :
    Starved count (pcb.advance i) where
  budget := by
    have credits : (pcb.advance i).credit =
        Function.update pcb.credit i (j.val + 1 + (pcb.pageTable i).waiting (j.val + 1)) := by
      funext k
      by_cases same : k = i
      · simp [same, credit, Pcb.advance, counter]
      · simp [same, credit, Pcb.advance]
    rw [credits]
    refine Nat.lt_of_le_of_lt (sum_update_le _ ?_ (Nat.le_refl _)) starved.budget
    have := waiting_succ valid
    simp only [credit, counter, Pcb.advance]
    omega
  size := by
    have sum : ∑ k ∈ Finset.range pcb.pageTableSize, (pcb.advance i).programCounter k =
        ∑ k ∈ Finset.range pcb.pageTableSize, pcb.programCounter k + 1 := by
      have member := Finset.mem_range.mpr inTable
      simp only [Pcb.advance]
      rw [Finset.sum_update_of_mem member, ← Finset.add_sum_erase _ pcb.programCounter member,
        Finset.sdiff_singleton_eq_erase]
      omega
    have size := starved.size
    change pcb.size - 1 = (count : Int) - (∑ k ∈ Finset.range pcb.pageTableSize, (pcb.advance i).programCounter k : Nat)
    rw [sum]
    omega
  table := starved.table

/-- Reading lines into a page only moves them from the file to the page. -/
theorem Starved.placePage {pcb' : Pcb} {pid i pos : Nat} {memory memory' : ShellMemory} (starved : Starved count pcb)
    (places : pcb.placePage pid i pos memory = .ok (pcb', memory')) : Starved count pcb' := by
  simp only [Pcb.placePage, bind_eq_ok, Except.ok.injEq, Prod.mk.injEq] at places
  obtain ⟨⟨page, file, memory₁⟩, fills, rfl, _⟩ := places
  have empty (counter : Nat) : (⟨fun j => pos + j.val, fun _ => false⟩ : Page).waiting counter = 0 := by
    simp [Page.waiting]
  refine starved.changePage ?_ ?_
  · have := fillPage_waiting (pcb.programCounter i) fills
    rw [empty] at this
    simp only
    omega
  · have := fillPage_waiting 0 fills
    rw [empty] at this
    simp only
    omega

theorem Starved.evict {i : Nat} (starved : Starved count pcb) :
    Starved count (pcb.setPage i ⟨fun _ => 0, fun _ => false⟩) := by
  have empty (counter : Nat) : (⟨fun _ => 0, fun _ => false⟩ : Page).waiting counter = 0 := by
    simp [Page.waiting]
  have changed : Starved count { pcb.setPage i ⟨fun _ => 0, fun _ => false⟩ with sourceFile := pcb.sourceFile } :=
    starved.changePage (by rw [empty]; omega) (Nat.le_refl _)
  exact changed

end Pcb

namespace Kernel

variable {World : Type} {parseInput : Interpreter World} {kernel kernel' : Kernel World} {owner pid i count : Nat}

/-- The process `owner` exists and can never finish. -/
def Starves (owner count : Nat) (kernel : Kernel World) : Prop :=
  ∃ pcb, kernel.pcbs owner = some pcb ∧ Pcb.Starved count pcb

/-- The size of the process, by which its turns are told apart. -/
def sizeOf (owner : Nat) (kernel : Kernel World) : Int := ((kernel.pcbs owner).map Pcb.size).getD 0

theorem pcb_ok {pcb : Pcb} (found : kernel.pcb pid = .ok pcb) : kernel.pcbs pid = some pcb := by
  unfold Kernel.pcb at found
  split at found
  · next held => rw [held]; simpa using found
  · simp at found

theorem Starves.setPcb {pcb pcb' : Pcb} (starves : Starves owner count kernel) (found : kernel.pcbs pid = some pcb)
    (keeps : Pcb.Starved count pcb → Pcb.Starved count pcb') : Starves owner count (kernel.setPcb pid pcb') := by
  obtain ⟨mine, held, starved⟩ := starves
  by_cases same : owner = pid
  · subst same
    rw [found, Option.some.injEq] at held
    exact ⟨pcb', by simp [Kernel.setPcb], keeps (held ▸ starved)⟩
  · exact ⟨mine, by simpa [Kernel.setPcb, same] using held, starved⟩

theorem page_ok {pcb : Pcb} {page : Page} (found : pcb.page i = .ok page) :
    i < pcb.pageTableSize ∧ page = pcb.pageTable i := by
  unfold Pcb.page at found
  split at found
  · next inside => exact ⟨inside, by simpa using found.symm⟩
  · simp at found

theorem memGetValueAt_ok {memory : ShellMemory} {pos : Nat} {value : CString}
    (held : memory.memGetValueAt pos = .ok value) : value = (memory.slots pos).value := by
  unfold ShellMemory.memGetValueAt ShellMemory.inBounds at held
  split at held
  · simpa [Except.map] using held.symm
  · simp [Except.map] at held

/-- `cpu_run` either reports a page fault or hands the addressed line to `parseInput`. -/
theorem cpuRun_cases {ret : Int} (runs : cpuRun parseInput pid i kernel = .ok (ret, kernel')) :
    ∃ pcb, ∃ j : Fin 3, kernel.pcbs pid = some pcb ∧ i < pcb.pageTableSize ∧ pcb.programCounter i = j.val ∧
      (((pcb.pageTable i).validBit j = false ∧ ret = 1 ∧ kernel' = kernel) ∨
        ((pcb.pageTable i).validBit j = true ∧ ∃ line,
          line = (kernel.memory.slots ((pcb.pageTable i).index j)).value ∧ ret = (parseInput line kernel.world).ret ∧
          kernel' = (kernel.interpret parseInput pid line).setPcb pid (pcb.advance i))) := by
  simp only [cpuRun, bind_eq_ok] at runs
  obtain ⟨pcb, found, page, inTable, runs⟩ := runs
  obtain ⟨inside, rfl⟩ := page_ok inTable
  split at runs
  · next small =>
      refine ⟨pcb, ⟨_, small⟩, pcb_ok found, inside, rfl, ?_⟩
      split at runs
      · next invalid =>
          simp only [Except.ok.injEq, Prod.mk.injEq] at runs
          exact .inl ⟨invalid, runs.1.symm, runs.2.symm⟩
      · next valid =>
          simp only [bind_eq_ok, Except.ok.injEq, Prod.mk.injEq] at runs
          obtain ⟨line, value, rfl, rfl⟩ := runs
          exact .inr ⟨by simpa using valid, line, memGetValueAt_ok value, rfl, rfl⟩
  · simp at runs

theorem loadPage_keeps {failed : Int} (loads : loadPage pid i kernel = .ok (failed, kernel'))
    (starves : Starves owner count kernel) : Starves owner count kernel' ∧ kernel'.queue = kernel.queue := by
  simp only [loadPage, bind_eq_ok] at loads
  obtain ⟨pcb, found, page, _, loads⟩ := loads
  split at loads
  · simp only [Except.ok.injEq, Prod.mk.injEq] at loads
    obtain ⟨_, rfl⟩ := loads
    exact ⟨starves, rfl⟩
  · simp only [bind_eq_ok, Except.ok.injEq, Prod.mk.injEq] at loads
    obtain ⟨⟨pcb', memory'⟩, places, _, rfl⟩ := loads
    have logged : Starves owner count (kernel.log (.loadPage pid i)) := starves
    exact ⟨logged.setPcb (pcb_ok found) fun starved => starved.placePage places, rfl⟩

theorem pageEvict_keeps (evicts : pageEvict pid i kernel = .ok kernel') (starves : Starves owner count kernel) :
    Starves owner count kernel' ∧ kernel'.queue = kernel.queue := by
  simp only [pageEvict, bind_eq_ok, Except.ok.injEq] at evicts
  obtain ⟨pcb, found, page, _, _, _, _, _, _, _, rfl⟩ := evicts
  have logged : Starves owner count (kernel.log (.pageEvict pid i)) := starves
  exact ⟨logged.setPcb (pcb_ok found) fun starved => starved.evict, rfl⟩

theorem evictVictim_keeps (evicts : evictVictim kernel = .ok kernel') (starves : Starves owner count kernel) :
    Starves owner count kernel' ∧ kernel'.queue = kernel.queue := by
  unfold evictVictim at evicts
  split at evicts
  · simp at evicts
  · split at evicts
    · have popped : Starves owner count { kernel with lruCache := kernel.lruCache.dropLast } := starves
      have kept := pageEvict_keeps evicts popped
      exact kept
    · simp at evicts

/-- A page fault requeues the process. -/
theorem pageFault_keeps (faults : pageFault pid i kernel = .ok kernel') (starves : Starves owner count kernel) :
    Starves owner count kernel' ∧ kernel'.queue = kernel.queue ++ [pid] := by
  simp only [pageFault, bind_eq_ok] at faults
  obtain ⟨⟨failed, kernel₁⟩, loads, faults⟩ := faults
  obtain ⟨starves₁, queue₁⟩ := loadPage_keeps loads starves
  split at faults
  · simp only [bind_eq_ok, Except.ok.injEq, exists_eq_left'] at faults
    obtain ⟨kernel₃, evicts, ⟨_, kernel₄⟩, loadsAgain, rfl⟩ := faults
    obtain ⟨starves₃, queue₃⟩ := evictVictim_keeps evicts starves₁
    obtain ⟨starves₄, queue₄⟩ := loadPage_keeps loadsAgain starves₃
    exact ⟨starves₄, congrArg (· ++ [pid]) (queue₄.trans (queue₃.trans queue₁))⟩
  · simp only [bind_eq_ok, Except.ok.injEq, exists_eq_left'] at faults
    subst faults
    exact ⟨starves₁, congrArg (· ++ [pid]) queue₁⟩

theorem touch_ok {ref : PageRef} (touches : touch ref kernel = .ok kernel') :
    kernel'.pcbs = kernel.pcbs ∧ kernel'.queue = kernel.queue := by
  unfold touch at touches
  simp only at touches
  split at touches
  · simp at touches
  · simp only [Except.ok.injEq] at touches
    subst touches
    exact ⟨rfl, rfl⟩

/-- A run of a process requeues it, or runs one of its lines. -/
theorem runProc_keeps {ret : Int} (runs : runProc parseInput pid i kernel = .ok (ret, kernel'))
    (starves : Starves owner count kernel) :
    Starves owner count kernel' ∧ (ret = 1 ∧ kernel'.queue = kernel.queue ++ [pid] ∨
      ret = 0 ∧ kernel'.queue = kernel.queue ∧ (pid = owner → sizeOf owner kernel' = sizeOf owner kernel - 1)) := by
  simp only [runProc, bind_eq_ok] at runs
  obtain ⟨⟨code, kernel₁⟩, cpu, runs⟩ := runs
  obtain ⟨pcb, j, found, inTable, counter, outcome⟩ := cpuRun_cases cpu
  have queue₁ : kernel₁.queue = kernel.queue := by
    rcases outcome with ⟨_, _, rfl⟩ | ⟨_, line, _, _, rfl⟩ <;> rfl
  have starves₁ : Starves owner count kernel₁ := by
    rcases outcome with ⟨_, _, rfl⟩ | ⟨valid, line, _, _, rfl⟩
    · exact starves
    · have handed : Starves owner count (kernel.interpret parseInput pid line) := starves
      exact handed.setPcb found fun starved => starved.advance inTable counter valid
  split at runs
  · simp only [bind_eq_ok, Except.ok.injEq, Prod.mk.injEq] at runs
    obtain ⟨kernel₂, faults, rfl, rfl⟩ := runs
    obtain ⟨starves₂, queue₂⟩ := pageFault_keeps faults starves₁
    exact ⟨starves₂, .inl ⟨rfl, by rw [queue₂, queue₁]⟩⟩
  · next other =>
      simp only [bind_eq_ok, Except.ok.injEq, Prod.mk.injEq] at runs
      obtain ⟨kernel₂, touches, rfl, rfl⟩ := runs
      obtain ⟨pcbs₂, queue₂⟩ := touch_ok touches
      refine ⟨by rwa [Starves, pcbs₂], .inr ⟨rfl, queue₂.trans queue₁, fun same => ?_⟩⟩
      subst same
      rcases outcome with ⟨_, faulted, _⟩ | ⟨_, line, _, _, rfl⟩
      · exact absurd faulted other
      · rw [sizeOf, pcbs₂, sizeOf, found]
        simp [Kernel.setPcb, Pcb.advance]

theorem runLine_keeps {ret : Int} (runs : runLine parseInput pid kernel = .ok (ret, kernel'))
    (starves : Starves owner count kernel) :
    Starves owner count kernel' ∧ (ret = 1 ∧ kernel'.queue = kernel.queue ++ [pid] ∨
      ret = 0 ∧ kernel'.queue = kernel.queue ∧ (pid = owner → sizeOf owner kernel' = sizeOf owner kernel - 1)) := by
  simp only [runLine, bind_eq_ok] at runs
  obtain ⟨pcb, _, runs⟩ := runs
  exact runProc_keeps runs starves

theorem Starves.sizeOf_pos (starves : Starves owner count kernel) : 0 < sizeOf owner kernel := by
  obtain ⟨pcb, found, starved⟩ := starves
  simpa [sizeOf, found] using starved.size_pos

/-- A starved process never leaves the queue for good. -/
theorem rrTurn_keeps (turns : rrTurn parseInput kernel = .ok kernel') (queued : owner ∈ kernel.queue)
    (starves : Starves owner count kernel) : owner ∈ kernel'.queue ∧ Starves owner count kernel' := by
  unfold rrTurn at turns
  split at turns
  · simp at turns
  · next pid rest front =>
      simp only [bind_eq_ok] at turns
      obtain ⟨pcb, held, turns⟩ := turns
      have popped : Starves owner count { kernel with queue := rest } := starves
      have others (later : pid ≠ owner) : owner ∈ rest := by
        rw [front] at queued
        exact (List.mem_cons.mp queued).resolve_left (Ne.symm later)
      have requeued : owner ∈ rest ++ [pid] := by
        rw [front] at queued
        exact (List.perm_append_singleton pid rest).mem_iff.mpr queued
      have size (same : pid = owner) : sizeOf owner kernel = pcb.size := by
        have found := pcb_ok held
        subst same
        simp [sizeOf, show kernel.pcbs pid = some pcb from found]
      split at turns
      · simp only [bind_eq_ok] at turns
        obtain ⟨⟨first, kernel₁⟩, run, turns⟩ := turns
        obtain ⟨starves₁, outcome₁⟩ := runLine_keeps run popped
        rcases outcome₁ with ⟨rfl, queue₁⟩ | ⟨rfl, queue₁, _⟩
        · simp only [if_true, Except.ok.injEq] at turns
          subst turns
          exact ⟨by rw [queue₁]; exact requeued, starves₁⟩
        · simp only [Int.zero_ne_one, if_false, bind_eq_ok] at turns
          obtain ⟨⟨second, kernel₂⟩, runAgain, turns⟩ := turns
          obtain ⟨starves₂, outcome₂⟩ := runLine_keeps runAgain starves₁
          rcases outcome₂ with ⟨rfl, queue₂⟩ | ⟨rfl, queue₂, _⟩
          · simp only [if_true, Except.ok.injEq] at turns
            subst turns
            exact ⟨by rw [queue₂, queue₁]; exact requeued, starves₂⟩
          · simp only [Int.zero_ne_one, if_false, Except.ok.injEq] at turns
            subst turns
            exact ⟨by simpa only [queue₂, queue₁] using requeued, starves₂⟩
      · split at turns
        · next single =>
            simp only [bind_eq_ok, Except.ok.injEq] at turns
            obtain ⟨⟨ret, kernel₁⟩, run, rfl⟩ := turns
            obtain ⟨starves₁, outcome₁⟩ := runLine_keeps run popped
            refine ⟨?_, starves₁⟩
            rcases outcome₁ with ⟨_, queue₁⟩ | ⟨_, queue₁, smaller⟩
            · rw [queue₁]
              exact requeued
            · rw [queue₁]
              refine others fun same => ?_
              have less := smaller same
              have := size same
              have := starves₁.sizeOf_pos
              change sizeOf owner kernel₁ = sizeOf owner kernel - 1 at less
              omega
        · next ended =>
            simp only [Except.ok.injEq] at turns
            subst turns
            refine ⟨others fun same => ?_, starves⟩
            have := starves.sizeOf_pos
            have := size same
            omega

/-- A starved process keeps the loop from ending. -/
theorem rrLoop_never_ends (fuel : Nat) (final : Kernel World) (queued : owner ∈ kernel.queue)
    (starves : Starves owner count kernel) : rrLoop parseInput fuel kernel ≠ .ok (some final) := by
  refine Lib.loop_never_finishes queueDone (rrTurn parseInput)
    (fun kernel => owner ∈ kernel.queue ∧ Starves owner count kernel) ?_ ?_ fuel kernel final ⟨queued, starves⟩
  · rintro state ⟨queued, pcb, found, starved⟩
    rw [queueDone, List.all_eq_false]
    exact ⟨owner, queued, by simp [found, starved.not_done]⟩
  · rintro state next ⟨queued, starves⟩ turns
    exact rrTurn_keeps turns queued starves

end Kernel
end MockOS.Proc
