import MockOS.Proc.ScriptRuns

namespace MockOS.Proc

open ShellMemory

/-- The slots of `cover` are freed, and all the others stay. -/
structure ShellMemory.Clears (cover : Nat → Prop) (memory next : ShellMemory) : Prop where
  frameStoreSize : next.frameStoreSize = memory.frameStoreSize
  varStoreSize : next.varStoreSize = memory.varStoreSize
  inside : ∀ slot, cover slot → slot < memory.frameStoreSize + memory.varStoreSize
  cleared : ∀ slot, cover slot → next.slots slot = ⟨noneStr, noneStr⟩
  kept : ∀ slot, ¬ cover slot → next.slots slot = memory.slots slot

namespace ShellMemory.Clears

variable {memory next last : ShellMemory} {cover later : Nat → Prop}

theorem refl : Clears (fun _ => False) memory memory :=
  ⟨rfl, rfl, fun _ => False.elim, fun _ => False.elim, fun _ _ => rfl⟩

theorem congr (clears : Clears cover memory next) (same : ∀ slot, cover slot ↔ later slot) : Clears later memory next where
  frameStoreSize := clears.frameStoreSize
  varStoreSize := clears.varStoreSize
  inside := fun slot covered => clears.inside slot ((same slot).mpr covered)
  cleared := fun slot covered => clears.cleared slot ((same slot).mpr covered)
  kept := fun slot outside => clears.kept slot fun covered => outside ((same slot).mp covered)

theorem trans (clears : Clears cover memory next) (others : Clears later next last) :
    Clears (fun slot => cover slot ∨ later slot) memory last where
  frameStoreSize := others.frameStoreSize.trans clears.frameStoreSize
  varStoreSize := others.varStoreSize.trans clears.varStoreSize
  inside := by
    rintro slot (first | second)
    · exact clears.inside slot first
    · rw [← clears.frameStoreSize, ← clears.varStoreSize]
      exact others.inside slot second
  cleared := by
    intro slot covered
    by_cases again : later slot
    · exact others.cleared slot again
    · rw [others.kept slot again]
      exact clears.cleared slot (covered.resolve_right again)
  kept := by
    intro slot outside
    rw [others.kept slot fun second => outside (.inr second), clears.kept slot fun first => outside (.inl first)]

end ShellMemory.Clears

section Memory

variable {memory memory' : ShellMemory}

theorem memFreeAt_clears {pos : Nat} (frees : memory.memFreeAt pos = .ok memory') :
    Clears (fun slot => slot = pos) memory memory' := by
  unfold memFreeAt inBounds at frees
  split at frees
  · next inside =>
      simp only [Except.map, Except.ok.injEq] at frees
      subst frees
      exact ⟨rfl, rfl, fun _ here => here ▸ inside, fun _ here => here ▸ setSlot_same, fun _ apart => setSlot_of_ne apart⟩
  · simp [Except.map] at frees

/-- A fold of steps that clear clears what one of them does. -/
theorem foldlM_clears {Item : Type} {step : ShellMemory → Item → Outcome ShellMemory} {cover : Item → Nat → Prop}
    (clears : ∀ memory item memory', step memory item = .ok memory' → Clears (cover item) memory memory')
    (items : List Item) (ran : items.foldlM step memory = .ok memory') :
    Clears (fun slot => ∃ item ∈ items, cover item slot) memory memory' := by
  induction items generalizing memory with
  | nil =>
      simp only [List.foldlM_nil, pure, Except.pure, Except.ok.injEq] at ran
      subst ran
      exact Clears.refl.congr (by simp)
  | cons item rest ih =>
      rw [List.foldlM_cons, bind_eq_ok] at ran
      obtain ⟨middle, first, later⟩ := ran
      exact ((clears _ _ _ first).trans (ih later)).congr (by simp)

/-- `clear_frame` frees three slots from where it is told to start. -/
theorem clearFrame_clears {pos : Nat} (clears : memory.clearFrame pos = .ok memory') :
    Clears (fun slot => pos ≤ slot ∧ slot < pos + 3) memory memory' := by
  unfold clearFrame at clears
  have all := foldlM_clears (fun _ _ _ frees => memFreeAt_clears frees) _ clears
  refine all.congr fun slot => ?_
  simp [List.mem_range'_1]

end Memory

/-- The slots that `free_PCB` clears: three from each of the three positions of a page. -/
def Pcb.Covers (pcb : Pcb) (slot : Nat) : Prop :=
  ∃ i < pcb.pageTableSize, ∃ j, (pcb.pageTable i).index j ≤ slot ∧ slot < (pcb.pageTable i).index j + 3

namespace Kernel

variable {World : Type} {kernel kernel' : Kernel World}

theorem freePcb_clears {pid : Nat} (frees : freePcb kernel pid = .ok kernel') :
    ∃ pcb, kernel.pcbs pid = some pcb ∧ Clears pcb.Covers kernel.memory kernel'.memory ∧
      kernel'.pcbs = Function.update kernel.pcbs pid none ∧ kernel'.trace = kernel.trace := by
  simp only [freePcb, bind_eq_ok, Except.ok.injEq] at frees
  obtain ⟨pcb, found, memory', clears, rfl⟩ := frees
  refine ⟨pcb, pcb_ok found, ?_, rfl, rfl⟩
  have all := foldlM_clears (fun _ _ _ page => foldlM_clears (fun _ _ _ clears => clearFrame_clears clears) _ page) _ clears
  refine all.congr fun slot => ?_
  have each (k : Fin 3) : k = 0 ∨ k = 1 ∨ k = 2 := by omega
  simp only [Pcb.Covers, List.mem_range]
  constructor
  · rintro ⟨i, inside, j, _, covered⟩
    exact ⟨i, inside, j, covered⟩
  · rintro ⟨i, inside, j, covered⟩
    exact ⟨i, inside, j, by simpa using each j, covered⟩

/-- The clean-up at the end of `run_proc_RR` clears what one of the processes covers. -/
theorem freePcbs_clears {pids : List Nat} (frees : pids.foldlM freePcb kernel = .ok kernel') :
    Clears (fun slot => ∃ pid ∈ pids, ∃ pcb, kernel.pcbs pid = some pcb ∧ pcb.Covers slot) kernel.memory kernel'.memory ∧
      kernel'.trace = kernel.trace := by
  induction pids generalizing kernel with
  | nil =>
      simp only [List.foldlM_nil, pure, Except.pure, Except.ok.injEq] at frees
      subst frees
      exact ⟨Clears.refl.congr (by simp), rfl⟩
  | cons pid rest ih =>
      rw [List.foldlM_cons, bind_eq_ok] at frees
      obtain ⟨middle, first, later⟩ := frees
      obtain ⟨pcb, found, clears, pcbs, trace⟩ := freePcb_clears first
      obtain ⟨clearsRest, traceRest⟩ := ih later
      refine ⟨(clears.trans clearsRest).congr fun slot => ?_, traceRest.trans trace⟩
      rw [pcbs]
      constructor
      · rintro (covered | ⟨other, member, pcb', held, covered⟩)
        · exact ⟨pid, by simp, pcb, found, covered⟩
        · by_cases same : other = pid
          · simp [same] at held
          · exact ⟨other, by simp [member], pcb', by simpa [same] using held, covered⟩
      · rintro ⟨other, member, pcb', held, covered⟩
        by_cases same : other = pid
        · rw [same, found, Option.some.injEq] at held
          exact .inl (held ▸ covered)
        · exact .inr ⟨other, (List.mem_cons.mp member).resolve_left same, pcb', by simpa [same] using held, covered⟩

end Kernel
end MockOS.Proc
