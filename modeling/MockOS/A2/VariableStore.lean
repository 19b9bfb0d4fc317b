import MockOS.A2.ScriptLines
import MockOS.Lib.Iteration
import MockOS.Lib.SlotStore
import Mathlib.Logic.Relation

namespace MockOS.A2

open Lib
open MockOS.Proc (Fault Outcome MemoryStruct noneStr)

namespace ShellMemory

variable {memory other : ShellMemory}

/-- `mem_get_value` searches the frames too; `none` is the null pointer. -/
def memGetValue (varIn : CString) (memory : ShellMemory) : Option CString :=
  ((List.range memory.length).find? fun pos => (memory.slots pos).var == varIn).map fun pos => (memory.slots pos).value

/-- The contents of a slot as a pair. -/
def pair (memory : ShellMemory) (pos : Nat) : CString × CString := ((memory.slots pos).var, (memory.slots pos).value)

/-- The variables as a list of slots. -/
def variableSlots (memory : ShellMemory) : List (CString × CString) := (List.range memory.varmemsize).map memory.pair

/-- The frames as a list of slots. -/
def frameSlots (memory : ShellMemory) : List (CString × CString) :=
  (List.range' memory.varmemsize memory.framesize).map memory.pair

theorem pair_setSlot (pos : Nat) (slot : MemoryStruct) :
    (memory.setSlot pos slot).pair = Function.update memory.pair pos (slot.var, slot.value) := by
  funext place
  by_cases here : place = pos
  · simp [here, pair, setSlot]
  · simp [Function.update_of_ne here, pair, setSlot]

theorem find_pair (name : CString) (positions : List Nat) :
    (positions.find? fun pos => (memory.slots pos).var == name) = positions.find? fun pos => decide ((memory.pair pos).1 = name) := by
  simp only [beq_eq_decide]
  rfl

/-- A variable hides the frames. -/
theorem memGetValue_eq (var : CString) :
    memory.memGetValue var = (fetch var memory.variableSlots).or (fetch var memory.frameSlots) := by
  have parts : List.range memory.length = List.range memory.varmemsize ++ List.range' memory.varmemsize memory.framesize := by
    have joined := (List.range'_append_1 (s := 0) (m := memory.varmemsize) (n := memory.framesize)).symm
    rwa [Nat.zero_add, ← List.range_eq_range', ← List.range_eq_range'] at joined
  rw [← fetch_append, variableSlots, frameSlots, ← List.map_append, ← parts, fetch_map, memGetValue, find_pair]
  rfl

theorem variableSlots_memSetValue (var value : CString) :
    (memory.memSetValue var value).variableSlots = assign noneStr var value memory.variableSlots := by
  rw [memSetValue, find_pair, find_pair, show memory.variableSlots = (List.range memory.varmemsize).map memory.pair from rfl,
    assign_map List.nodup_range]
  cases found : (List.range memory.varmemsize).find? fun pos => decide ((memory.pair pos).1 = var) with
  | some pos =>
      have same : (memory.slots pos).var = var := by
        have hit := List.find?_some found
        exact of_decide_eq_true hit
      dsimp only
      rw [variableSlots, pair_setSlot, same]
      rfl
  | none =>
      cases (List.range memory.varmemsize).find? fun pos => decide ((memory.pair pos).1 = noneStr) with
      | some pos =>
          dsimp only
          rw [variableSlots, pair_setSlot]
          rfl
      | none => rfl

theorem foldl_setSlot_pair (positions : List Nat) (memory : ShellMemory) (slot : MemoryStruct) (pos : Nat) :
    (positions.foldl (fun current pos => current.setSlot pos slot) memory).pair pos =
      if pos ∈ positions then (slot.var, slot.value) else memory.pair pos := by
  induction positions generalizing memory with
  | nil => rfl
  | cons head rest ih =>
      rw [List.foldl_cons, ih, pair_setSlot]
      by_cases later : pos ∈ rest
      · rw [if_pos later, if_pos (List.mem_cons_of_mem _ later)]
      · by_cases here : pos = head
        · simp [here]
        · rw [if_neg later, Function.update_of_ne here, if_neg (by simp [here, later])]

theorem variableSlots_memInit (varmemsize framesize : Nat) :
    (memInit varmemsize framesize).variableSlots = List.replicate varmemsize (noneStr, noneStr) := by
  rw [variableSlots, List.eq_replicate_iff]
  refine ⟨by simp [memInit], fun slot inside => ?_⟩
  obtain ⟨pos, _, rfl⟩ := List.mem_map.mp inside
  rfl

theorem variableSlots_resetvarmem (memory : ShellMemory) :
    memory.resetvarmem.variableSlots = List.replicate memory.varmemsize (noneStr, noneStr) := by
  rw [variableSlots, (resetvarmem_sameFrames memory).varmemsize, List.eq_replicate_iff]
  refine ⟨by simp, fun slot inside => ?_⟩
  obtain ⟨pos, member, rfl⟩ := List.mem_map.mp inside
  rw [resetvarmem, foldl_setSlot_pair, if_pos member]

/-- What a load may change: the frames. -/
structure SameVariables (memory other : ShellMemory) : Prop where
  varmemsize : other.varmemsize = memory.varmemsize
  slots : ∀ pos < memory.varmemsize, other.slots pos = memory.slots pos

theorem SameVariables.refl (memory : ShellMemory) : SameVariables memory memory := ⟨rfl, fun _ _ => rfl⟩

theorem SameVariables.trans {second third : ShellMemory} (first : SameVariables memory second)
    (later : SameVariables second third) : SameVariables memory third where
  varmemsize := later.varmemsize.trans first.varmemsize
  slots := fun pos below => by rw [later.slots pos (first.varmemsize ▸ below), first.slots pos below]

theorem SameVariables.variableSlots (same : SameVariables memory other) : other.variableSlots = memory.variableSlots := by
  rw [ShellMemory.variableSlots, ShellMemory.variableSlots, same.varmemsize]
  refine List.map_congr_left fun pos inside => ?_
  rw [pair, pair, same.slots pos (List.mem_range.mp inside)]

theorem store_sameVariables {pos : Nat} {slot : MemoryStruct} (above : memory.varmemsize ≤ pos)
    (stores : memory.store pos slot = .ok other) : SameVariables memory other := by
  rw [store] at stores
  split at stores
  · obtain rfl := Except.ok.inj stores
    exact ⟨rfl, fun place below => Function.update_of_ne (by omega) _ _⟩
  · cases stores

theorem memFreeLinesFrame_sameVariables {start : Nat} (above : memory.varmemsize ≤ start)
    (frees : memory.memFreeLinesFrame start = .ok other) : SameVariables memory other := by
  have each : ∀ (positions : List Nat) (current : ShellMemory), current.varmemsize = memory.varmemsize →
      (∀ pos ∈ positions, memory.varmemsize ≤ pos) →
      positions.foldlM (fun current pos => current.store pos ⟨noneStr, noneStr⟩) current = .ok other →
      SameVariables current other := by
    intro positions
    induction positions with
    | nil =>
        intro current _ _ frees
        simp only [List.foldlM_nil, pure, Except.pure, Except.ok.injEq] at frees
        exact frees ▸ .refl current
    | cons pos rest ih =>
        intro current sizes inside frees
        simp only [List.foldlM_cons, bind_eq_ok] at frees
        obtain ⟨next, stores, frees⟩ := frees
        have first := store_sameVariables (sizes ▸ inside pos List.mem_cons_self) stores
        exact first.trans (ih next (first.varmemsize.trans sizes) (fun other member => inside other (List.mem_cons_of_mem _ member))
          frees)
  refine each _ memory rfl (fun pos member => ?_) frees
  exact above.trans (List.mem_range'_1.mp member).1

end ShellMemory

open ShellMemory

variable {memory memory' : ShellMemory}

theorem firstFree_above {index : Nat} (found : firstFree memory = some index) : memory.varmemsize ≤ index := by
  simp only [firstFree, Option.map_eq_some_iff] at found
  obtain ⟨frame, _, rfl⟩ := found
  exact Nat.le_add_right _ _

theorem findFreeFrame_sameVariables {pcb pcb' : Pcb} {index : Nat}
    (finds : findFreeFrame pcb memory = .ok (index, pcb', memory')) :
    memory.varmemsize ≤ index ∧ SameVariables memory memory' := by
  unfold findFreeFrame at finds
  split at finds
  · next place found =>
      simp only [Except.ok.injEq, Prod.mk.injEq] at finds
      obtain ⟨rfl, _, rfl⟩ := finds
      exact ⟨firstFree_above found, .refl memory⟩
  · simp only [bind_eq_ok, Except.ok.injEq, Prod.mk.injEq] at finds
    obtain ⟨_, frees, rfl, _, rfl⟩ := finds
    exact ⟨Nat.le_add_right _ _, memFreeLinesFrame_sameVariables (Nat.le_add_right _ _) frees⟩

theorem readPage_sameVariables {filename : CString} {room index lines : Nat} {fp fp' : Stream}
    (above : memory.varmemsize ≤ index) (reads : readPage filename room index fp memory = .ok (lines, fp', memory')) :
    SameVariables memory memory' := by
  obtain ⟨_, _, filled⟩ := readPage_filled reads
  exact ⟨filled.varmemsize, fun pos below => filled.outside pos (.inl (by omega))⟩

namespace Kernel

variable {World : Type} {kernel kernel' kernel'' : Kernel World}

/-- What the loads leave alone: the variables and the rest of the shell. -/
structure Untouched (kernel kernel' : Kernel World) : Prop where
  world : kernel'.world = kernel.world
  sameVariables : SameVariables kernel.memory kernel'.memory

theorem Untouched.refl (kernel : Kernel World) : Untouched kernel kernel := ⟨rfl, .refl _⟩

theorem Untouched.trans (first : Untouched kernel kernel') (later : Untouched kernel' kernel'') : Untouched kernel kernel'' :=
  ⟨later.world.trans first.world, first.sameVariables.trans later.sameVariables⟩

theorem loadPage_untouched {fp fp' : Stream} {filename : CString} {pcb pcb' : Pcb}
    (loads : loadPage fp filename pcb kernel = .ok (fp', pcb', kernel')) : Untouched kernel kernel' := by
  simp only [loadPage, bind_eq_ok] at loads
  obtain ⟨⟨index, pcb₁, memory₁⟩, finds, ⟨count, fp₁, memory₂⟩, reads, _, _, loads⟩ := loads
  simp only [Except.ok.injEq, Prod.mk.injEq] at loads
  obtain ⟨_, _, rfl⟩ := loads
  have same : (if (firstFree kernel.memory).isSome then kernel else kernel.log .evicted).memory = kernel.memory ∧
      (if (firstFree kernel.memory).isSome then kernel else kernel.log .evicted).world = kernel.world := by
    split <;> exact ⟨rfl, rfl⟩
  rw [same.1] at finds
  obtain ⟨above, found⟩ := findFreeFrame_sameVariables finds
  exact ⟨same.2, found.trans (readPage_sameVariables (found.varmemsize ▸ above) reads)⟩

theorem loadFirst_untouched {filename : CString} (rounds : Nat) {fp : Stream} {pcb pcb' : Pcb}
    (loads : loadFirst filename rounds fp pcb kernel = .ok (pcb', kernel')) : Untouched kernel kernel' := by
  induction rounds generalizing fp pcb kernel with
  | zero =>
      simp only [loadFirst, Except.ok.injEq, Prod.mk.injEq] at loads
      exact loads.2 ▸ .refl kernel
  | succ rounds ih =>
      unfold loadFirst at loads
      split at loads
      · exact ih loads
      · simp only [bind_eq_ok] at loads
        obtain ⟨⟨fp₁, pcb₁, kernel₁⟩, first, loads⟩ := loads
        exact (loadPage_untouched first).trans (ih loads)

theorem processInitialize_untouched {filename : CString} {errorCode : Int}
    (starts : processInitialize filename kernel = .ok (errorCode, kernel')) : Untouched kernel kernel' := by
  unfold processInitialize at starts
  split at starts
  · simp only [Except.ok.injEq, Prod.mk.injEq] at starts
    exact starts.2 ▸ .refl kernel
  · simp only [bind_eq_ok, Except.ok.injEq, Prod.mk.injEq] at starts
    obtain ⟨⟨pcb, kernel₁⟩, loads, pc, _, _, rfl⟩ := starts
    have loaded := loadFirst_untouched 2 loads
    exact ⟨loaded.world, loaded.sameVariables⟩

theorem handlePageFault_untouched {pcb : Pcb} (faults : handlePageFault pcb kernel = .ok kernel') : Untouched kernel kernel' := by
  unfold handlePageFault at faults
  split at faults
  · cases faults
  · split at faults
    · cases faults
    · simp only [bind_eq_ok, Except.ok.injEq] at faults
      obtain ⟨⟨fp, pcb₁, kernel₁⟩, loads, pc, _, rfl⟩ := faults
      have loaded := loadPage_untouched loads
      exact ⟨loaded.world, loaded.sameVariables⟩

theorem copyFileBack_untouched {name path : CString} (copies : copyFileBack name kernel = .ok (path, kernel')) :
    Untouched kernel kernel' := by
  unfold copyFileBack at copies
  dsimp only at copies
  split at copies
  · split at copies
    · cases copies
    · simp only [Except.ok.injEq, Prod.mk.injEq] at copies
      exact copies.2 ▸ ⟨rfl, .refl _⟩
  · cases copies

theorem execLoad_untouched {names : List CString} {errorCode : Int} (loads : execLoad names kernel = .ok (errorCode, kernel')) :
    Untouched kernel kernel' := by
  induction names generalizing kernel with
  | nil =>
      simp only [execLoad, Except.ok.injEq, Prod.mk.injEq] at loads
      exact loads.2 ▸ .refl kernel
  | cons name rest ih =>
      simp only [execLoad, bind_eq_ok] at loads
      obtain ⟨⟨path, kernel₁⟩, copies, ⟨code, kernel₂⟩, starts, loads⟩ := loads
      have loaded := (copyFileBack_untouched copies).trans (processInitialize_untouched starts)
      split at loads
      · simp only [Except.ok.injEq, Prod.mk.injEq] at loads
        exact loads.2 ▸ loaded
      · exact loaded.trans (ih loads)

theorem scheduleByPolicy_untouched (policy : Policy) : Untouched kernel (kernel.scheduleByPolicy policy) := by
  unfold scheduleByPolicy
  split <;> exact ⟨rfl, .refl _⟩

end Kernel

/-- A command as the variables see it. -/
def Command.storeCommand : Command → Option (StoreCommand CString CString)
  | .set var value => some (.assign var value)
  | .resetmem => some .reset
  | _ => none

/-- What commands do to the variables. -/
def assigns (commands : List Command) (slots : List (CString × CString)) : List (CString × CString) :=
  (commands.filterMap Command.storeCommand).foldl (StoreCommand.run noneStr noneStr) slots

theorem assigns_append (commands later : List Command) (slots : List (CString × CString)) :
    assigns (commands ++ later) slots = assigns later (assigns commands slots) := by
  rw [assigns, List.filterMap_append, List.foldl_append]
  rfl

namespace Kernel

variable {World : Type}

theorem runCommand_assigns {kernel kernel' : Kernel World} {command : Command} (runs : runCommand kernel command = .ok kernel') :
    kernel'.world = kernel.world ∧ kernel'.memory.variableSlots = assigns [command] kernel.memory.variableSlots := by
  cases command with
  | set var value =>
      simp only [runCommand, Except.ok.injEq] at runs
      exact runs ▸ ⟨rfl, variableSlots_memSetValue var value⟩
  | resetmem =>
      simp only [runCommand, Except.ok.injEq] at runs
      subst runs
      refine ⟨rfl, ?_⟩
      have size : kernel.memory.variableSlots.length = kernel.memory.varmemsize := by simp [ShellMemory.variableSlots]
      rw [variableSlots_resetvarmem, ← size]
      rfl
  | quit => cases runs
  | run script =>
      simp only [runCommand, bind_eq_ok, Except.ok.injEq] at runs
      obtain ⟨⟨code, kernel₁⟩, starts, rfl⟩ := runs
      have started := (processInitialize_untouched starts).trans (scheduleByPolicy_untouched .fcfs)
      exact ⟨started.world, started.sameVariables.variableSlots⟩
  | exec names =>
      simp only [runCommand, exec, bind_eq_ok] at runs
      obtain ⟨⟨code, kernel₁⟩, loads, runs⟩ := runs
      have loaded : Untouched kernel kernel₁ := execLoad_untouched loads
      have dangled (later : Kernel World) : Untouched later (later.dangle kernel.pidCounter) := ⟨rfl, .refl _⟩
      have started : Untouched kernel kernel' := by
        split at runs
        · exact Except.ok.inj runs ▸ loaded.trans (dangled _)
        · obtain rfl := Except.ok.inj runs
          have scheduled := loaded.trans (scheduleByPolicy_untouched .rr)
          split
          · exact scheduled.trans (dangled _)
          · exact scheduled
      exact ⟨started.world, started.sameVariables.variableSlots⟩

/-- A parser that writes its commands down, in a world that holds them. -/
def logged (parse : Parser World) : Parser (World × List Command) := fun line memory world =>
  ((parse line memory world.1).1, (parse line memory world.1).2, world.2 ++ (parse line memory world.1).1)

variable {parse : Parser World} {kernel kernel' kernel'' : Kernel (World × List Command)}

/-- The variables have been changed by the commands written down and by nothing else. -/
def Tracks (kernel kernel' : Kernel (World × List Command)) : Prop :=
  ∃ done, kernel'.world.2 = kernel.world.2 ++ done ∧
    kernel'.memory.variableSlots = assigns done kernel.memory.variableSlots

theorem Tracks.trans (first : Tracks kernel kernel') (later : Tracks kernel' kernel'') : Tracks kernel kernel'' := by
  obtain ⟨done, log, slots⟩ := first
  obtain ⟨more, log', slots'⟩ := later
  exact ⟨done ++ more, by rw [log', log, List.append_assoc], by rw [slots', slots, assigns_append]⟩

theorem Untouched.tracks (untouched : Untouched kernel kernel') : Tracks kernel kernel' :=
  ⟨[], by rw [untouched.world, List.append_nil], untouched.sameVariables.variableSlots⟩

theorem runCommands_assigns {kernel kernel' : Kernel World} {commands : List Command}
    (runs : commands.foldlM runCommand kernel = .ok kernel') : kernel'.world = kernel.world ∧
      kernel'.memory.variableSlots = assigns commands kernel.memory.variableSlots := by
  induction commands generalizing kernel with
  | nil =>
      simp only [List.foldlM_nil, pure, Except.pure, Except.ok.injEq] at runs
      exact runs ▸ ⟨rfl, rfl⟩
  | cons command rest ih =>
      simp only [List.foldlM_cons, bind_eq_ok] at runs
      obtain ⟨kernel₁, first, later⟩ := runs
      obtain ⟨world, slots⟩ := runCommand_assigns first
      obtain ⟨world', slots'⟩ := ih later
      exact ⟨world'.trans world, by rw [slots', slots, ← assigns_append, List.singleton_append]⟩

theorem parseLine_tracks {pid : Nat} {line : Option CString} (parses : parseLine (logged parse) pid line kernel = .ok kernel') :
    Tracks kernel kernel' := by
  unfold parseLine at parses
  split at parses
  · cases parses
  · next line =>
      split at parses
      · exact Except.ok.inj parses ▸ (Untouched.refl kernel).tracks
      · obtain ⟨world, slots⟩ := runCommands_assigns parses
        exact ⟨(parse line kernel.memory kernel.world.1).1, by rw [world], slots⟩

theorem executeProcess_tracks (quanta : Nat) {pcb : Pcb} {left : Option Pcb}
    (executes : executeProcess (logged parse) quanta pcb kernel = .ok (left, kernel')) : Tracks kernel kernel' := by
  induction quanta generalizing pcb kernel with
  | zero =>
      simp only [executeProcess, Except.ok.injEq, Prod.mk.injEq] at executes
      exact executes.2 ▸ (Untouched.refl kernel).tracks
  | succ quanta ih =>
      simp only [executeProcess, bind_eq_ok] at executes
      obtain ⟨frame, _, line, _, executes⟩ := executes
      have flagged (middle : Kernel (World × List Command)) (flag : Bool) : Tracks middle { middle with inBackground := flag } :=
        Untouched.tracks ⟨rfl, .refl _⟩
      split at executes
      · simp only [bind_eq_ok] at executes
        obtain ⟨entry, bound, executes⟩ := executes
        split at executes
        · simp only [bind_eq_ok, Except.ok.injEq, Prod.mk.injEq] at executes
          obtain ⟨kernel₁, parses, _, rfl⟩ := executes
          exact (flagged kernel true).trans ((parseLine_tracks parses).trans (flagged kernel₁ false))
        · split at executes
          · simp only [bind_eq_ok, Except.ok.injEq, Prod.mk.injEq] at executes
            obtain ⟨kernel₁, parses, kernel₂, faults, _, rfl⟩ := executes
            exact (flagged kernel true).trans ((parseLine_tracks parses).trans (handlePageFault_untouched faults).tracks)
          · simp only [bind_eq_ok] at executes
            obtain ⟨kernel₁, parses, executes⟩ := executes
            exact (flagged kernel true).trans ((parseLine_tracks parses).trans ((flagged kernel₁ false).trans (ih executes)))
      · simp only [bind_eq_ok] at executes
        obtain ⟨kernel₁, parses, executes⟩ := executes
        exact (flagged kernel true).trans ((parseLine_tracks parses).trans ((flagged kernel₁ false).trans (ih executes)))

theorem turn_tracks {policy : Policy} (turns : turn (logged parse) policy kernel = .ok kernel') : Tracks kernel kernel' := by
  unfold turn at turns
  split at turns
  · cases turns
  · next pcb rest front =>
      simp only [bind_eq_ok] at turns
      obtain ⟨⟨left, kernel₁⟩, executes, turns⟩ := turns
      have popped : Tracks kernel { kernel with queue := rest } := Untouched.tracks ⟨rfl, .refl _⟩
      have ran := popped.trans (executeProcess_tracks _ executes)
      have ends : Untouched kernel₁ kernel' := by
        cases policy <;> cases left <;> exact Except.ok.inj turns ▸ ⟨rfl, .refl _⟩
      exact ran.trans ends.tracks

/-- A step of a session whose commands are written down, the typed ones and those of the scripts. -/
inductive LoggedStep (parse : Parser World) (kernel : Kernel (World × List Command)) :
    Kernel (World × List Command) → Prop where
  | command (idle : kernel.policy = none) (world : World) (command : Command) (next : Kernel (World × List Command))
      (runs : runCommand { kernel with world := (world, kernel.world.2 ++ [command]) } command = .ok next) :
      LoggedStep parse kernel next
  | turn (policy : Policy) (running : kernel.policy = some policy) (waits : kernel.queue ≠ [])
      (next : Kernel (World × List Command)) (turns : kernel.turn (logged parse) policy = .ok next) :
      LoggedStep parse kernel next
  | finish (policy : Policy) (running : kernel.policy = some policy) (ended : kernel.queue = []) :
      LoggedStep parse kernel { kernel with policy := none }

theorem LoggedStep.tracks (step : LoggedStep parse kernel kernel') : Tracks kernel kernel' := by
  cases step with
  | command idle world command next runs =>
      obtain ⟨same, slots⟩ := runCommand_assigns runs
      exact ⟨[command], by rw [same], slots⟩
  | turn policy running waits next turns => exact turn_tracks turns
  | finish policy running ended => exact Untouched.tracks ⟨rfl, .refl _⟩

/-- The states of a session in which a value may be asked for: between its steps, and between the lines of a process. -/
inductive Observed (parse : Parser World) (start : Kernel (World × List Command)) : Kernel (World × List Command) → Prop where
  | between (kernel : Kernel (World × List Command)) (reached : Relation.ReflTransGen (LoggedStep parse) start kernel) :
      Observed parse start kernel
  | within (kernel seen : Kernel (World × List Command)) (reached : Relation.ReflTransGen (LoggedStep parse) start kernel)
      (policy : Policy) (running : kernel.policy = some policy) (pcb : Pcb) (rest : List Pcb) (front : kernel.queue = pcb :: rest)
      (quanta : Nat) (part : quanta ≤ Policy.quanta policy) (left : Option Pcb)
      (executes : executeProcess (logged parse) quanta pcb { kernel with queue := rest } = .ok (left, seen)) :
      Observed parse start seen

theorem Observed.tracks {start : Kernel (World × List Command)} (observed : Observed parse start kernel) :
    Tracks start kernel := by
  have session {later : Kernel (World × List Command)} (reached : Relation.ReflTransGen (LoggedStep parse) start later) :
      Tracks start later := by
    induction reached with
    | refl => exact (Untouched.refl start).tracks
    | tail _ step ih => exact ih.trans step.tracks
  cases observed with
  | between kernel reached => exact session reached
  | within kernel seen reached policy running pcb rest front quanta part left executes =>
      have popped : Tracks kernel { kernel with queue := rest } := Untouched.tracks ⟨rfl, .refl _⟩
      exact (session reached).trans (popped.trans (executeProcess_tracks quanta executes))

/-- A variable has the value set last, unless it is not set and a frame carries its name. -/
theorem session_memGetValue_iff (parse : Parser World) (varmemsize framesize : Nat) (disk : CString → Option (List UInt8))
    (world : World) (observed : Observed parse (booted varmemsize framesize disk (world, [])) kernel)
    (few : (assignedNames (kernel.world.2.filterMap Command.storeCommand)).toFinset.card ≤ varmemsize)
    (var : CString) (named : var ≠ noneStr) :
    kernel.memory.memGetValue var = fetch var (sinceReset (kernel.world.2.filterMap Command.storeCommand)) ↔
      var ∈ (sinceReset (kernel.world.2.filterMap Command.storeCommand)).map Prod.fst ∨
        ∀ pos, kernel.memory.varmemsize ≤ pos → pos < kernel.memory.length → (kernel.memory.slots pos).var ≠ var := by
  obtain ⟨done, log, slots⟩ := observed.tracks
  have start : (booted varmemsize framesize disk (world, ([] : List Command))).memory.variableSlots =
      List.replicate varmemsize (noneStr, noneStr) := variableSlots_memInit varmemsize framesize
  have wrote : kernel.world.2 = done := log
  obtain ⟨used, vacant, stores⟩ := stores_commands noneStr noneStr varmemsize (done.filterMap Command.storeCommand)
    (namesWithin_of_card (wrote ▸ few))
  rw [start, assigns] at slots
  rw [← slots] at stores
  rw [memGetValue_eq, stores.fetch_slots.1 var named, wrote, ← fetch_isSome_iff]
  have absent : fetch var kernel.memory.frameSlots = none ↔
      ∀ pos, kernel.memory.varmemsize ≤ pos → pos < kernel.memory.length → (kernel.memory.slots pos).var ≠ var := by
    rw [fetch_eq_none_iff, frameSlots, List.map_map, List.mem_map]
    simp only [List.mem_range'_1, Function.comp_apply, pair, not_exists, not_and, and_imp]
    rfl
  rw [← absent]
  cases fetch var (sinceReset (done.filterMap Command.storeCommand)) with
  | none => simp
  | some value => simp

/-- A disk with the script `x`, which is one line. -/
def scriptX : CString → Option (List UInt8) := fun name => if name = .ofChars ['x'] then some (CString.ofChars ['h', 'e', 'l', 'p']) else none

/-- The state after `run x`, at a shell whose lines do nothing. -/
theorem scriptX_runs : ∃ kernel : Kernel (Unit × List Command),
    Observed (fun _ _ world => ([], world)) (booted 2 6 scriptX ((), [])) kernel ∧ kernel.world.2 = [.run (.ofChars ['x'])] ∧
      kernel.memory.memGetValue (.ofChars ['x']) = some (.ofChars ['h', 'e', 'l', 'p']) := by
  obtain ⟨kernel, runs⟩ : ∃ kernel, runCommand { booted 2 6 scriptX ((), ([] : List Command)) with
      world := ((), [] ++ [Command.run (.ofChars ['x'])]) } (.run (.ofChars ['x'])) = .ok kernel := ⟨_, rfl⟩
  have step : LoggedStep (fun _ _ world => ([], world)) (booted 2 6 scriptX ((), ([] : List Command))) kernel :=
    .command rfl () (.run (.ofChars ['x'])) kernel runs
  refine ⟨kernel, .between kernel (.single step), ?_, ?_⟩
  · cases runs
    rfl
  · cases runs
    rfl

theorem scriptX_memGetValue_iff : ∃ kernel : Kernel (Unit × List Command),
    Observed (fun _ _ world => ([], world)) (booted 2 6 scriptX ((), [])) kernel ∧
      (kernel.memory.memGetValue (.ofChars ['x']) =
          fetch (.ofChars ['x']) (sinceReset (kernel.world.2.filterMap Command.storeCommand)) ↔
        .ofChars ['x'] ∈ (sinceReset (kernel.world.2.filterMap Command.storeCommand)).map Prod.fst ∨
          ∀ pos, kernel.memory.varmemsize ≤ pos → pos < kernel.memory.length →
            (kernel.memory.slots pos).var ≠ .ofChars ['x']) := by
  obtain ⟨kernel, observed, log, _⟩ := scriptX_runs
  exact ⟨kernel, observed, session_memGetValue_iff _ 2 6 scriptX () observed (by rw [log]; decide) (.ofChars ['x']) (by decide)⟩

/-- The name of the script reads a line of it, though no variable was set. -/
theorem scriptX_read_as_variable : ∃ kernel : Kernel (Unit × List Command),
    Observed (fun _ _ world => ([], world)) (booted 2 6 scriptX ((), [])) kernel ∧
      (assignedNames (kernel.world.2.filterMap Command.storeCommand)).toFinset.card ≤ 2 ∧
      noneStr ∉ assignedNames (kernel.world.2.filterMap Command.storeCommand) ∧
      kernel.memory.memGetValue (.ofChars ['x']) ≠
        fetch (.ofChars ['x']) (sinceReset (kernel.world.2.filterMap Command.storeCommand)) := by
  obtain ⟨kernel, observed, log, read⟩ := scriptX_runs
  refine ⟨kernel, observed, by rw [log]; decide, by rw [log]; decide, ?_⟩
  rw [read, log]
  decide

end Kernel
end MockOS.A2
