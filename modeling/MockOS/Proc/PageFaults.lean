import MockOS.Proc.Interpreter
import MockOS.Proc.Starvation

namespace MockOS.Proc

/-- The calls that move pages. -/
def Event.isPaging : Event → Bool
  | .handed _ _ => false
  | .loadPage _ _ => true
  | .pageEvict _ _ => true

namespace Kernel

variable {World : Type} {parseInput : Interpreter World} {kernel kernel' : Kernel World} {pid i : Nat}

/-- `run_proc` loads the page and requeues the process exactly on a clear valid bit, and a handed line moves no page. -/
def FaultsExactly (valid : Bool) (pid i : Nat) (kernel kernel' : Kernel World) : Prop :=
  ∃ events, kernel'.trace = kernel.trace ++ events ∧
    (.loadPage pid i ∈ events ∧ kernel'.queue = kernel.queue ++ [pid] ↔ valid = false) ∧
    ∀ line, .handed pid line ∈ events → ∀ event ∈ events, event.isPaging = false

theorem loadPage_trace {failed : Int} (loads : loadPage pid i kernel = .ok (failed, kernel')) :
    kernel'.trace = kernel.trace ++ [.loadPage pid i] ∧ kernel'.queue = kernel.queue := by
  simp only [loadPage, bind_eq_ok] at loads
  obtain ⟨pcb, _, page, _, loads⟩ := loads
  split at loads
  · simp only [Except.ok.injEq, Prod.mk.injEq] at loads
    obtain ⟨_, rfl⟩ := loads
    exact ⟨rfl, rfl⟩
  · simp only [bind_eq_ok, Except.ok.injEq, Prod.mk.injEq] at loads
    obtain ⟨_, _, _, rfl⟩ := loads
    exact ⟨rfl, rfl⟩

theorem evictVictim_trace (evicts : evictVictim kernel = .ok kernel') :
    ∃ owner page, kernel'.trace = kernel.trace ++ [.pageEvict owner page] ∧ kernel'.queue = kernel.queue := by
  unfold evictVictim at evicts
  split at evicts
  · simp at evicts
  · next victim _ =>
      split at evicts
      · simp only [pageEvict, bind_eq_ok, Except.ok.injEq] at evicts
        obtain ⟨_, _, _, _, _, _, _, _, _, _, rfl⟩ := evicts
        exact ⟨victim.1, victim.2, rfl, rfl⟩
      · simp at evicts

/-- A page fault consists of paging calls, the load of the page among them. -/
theorem pageFault_trace (faults : pageFault pid i kernel = .ok kernel') :
    ∃ events, kernel'.trace = kernel.trace ++ .loadPage pid i :: events ∧
      (∀ event ∈ events, event.isPaging = true) ∧ kernel'.queue = kernel.queue ++ [pid] := by
  simp only [pageFault, bind_eq_ok] at faults
  obtain ⟨⟨failed, kernel₁⟩, loads, faults⟩ := faults
  obtain ⟨trace₁, queue₁⟩ := loadPage_trace loads
  split at faults
  · simp only [bind_eq_ok, Except.ok.injEq, exists_eq_left'] at faults
    obtain ⟨kernel₃, evicts, ⟨_, kernel₄⟩, loadsAgain, rfl⟩ := faults
    obtain ⟨owner, page, trace₃, queue₃⟩ := evictVictim_trace evicts
    obtain ⟨trace₄, queue₄⟩ := loadPage_trace loadsAgain
    refine ⟨[.pageEvict owner page, .loadPage pid i], ?_, by simp [Event.isPaging], ?_⟩
    · simp only [trace₄, trace₃, trace₁, List.append_assoc]
      rfl
    · exact congrArg (· ++ [pid]) (queue₄.trans (queue₃.trans queue₁))
  · simp only [bind_eq_ok, Except.ok.injEq, exists_eq_left'] at faults
    subst faults
    exact ⟨[], trace₁, by simp, congrArg (· ++ [pid]) queue₁⟩

theorem touch_trace {ref : PageRef} (touches : touch ref kernel = .ok kernel') : kernel'.trace = kernel.trace := by
  unfold touch at touches
  simp only at touches
  split at touches
  · simp at touches
  · simp only [Except.ok.injEq] at touches
    subst touches
    rfl

/-- The file commands of a shell that finds no file and no free sector; `cat` and `copy_out` do not tell that a file is missing. -/
def emptyDirectory : FileCommands Unit where
  ls := fun world => (0, world)
  cat := fun _ world => (-1, world)
  rm := fun _ world => (0, world)
  create := fun _ _ world => (0, world)
  write := fun _ _ world => (-1, world)
  read := fun _ _ world => (-1, world)
  size := fun _ world => (-1, world)
  seek := fun _ _ world => (-1, world)
  copyIn := fun _ world => (1, world)
  copyOut := fun _ world => (0, world)
  findFile := fun _ world => world
  freespace := fun world => world
  fragmentationDegree := fun world => world
  defragment := fun world => world
  recover := fun _ world => world

/-- `parseInput` of this shell. -/
def emptyShell : Interpreter Unit := fun line world =>
  (Proc.parseInput emptyDirectory line world).getD ⟨0, [], world⟩

end Kernel
end MockOS.Proc
