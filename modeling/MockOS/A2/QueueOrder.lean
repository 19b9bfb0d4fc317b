import MockOS.A2.ReadyQueue
import Mathlib.Data.Prod.Lex
import Mathlib.Order.BooleanAlgebra.Basic

namespace MockOS.A2.ReadyQueue

open Lib

variable {Node : Type} [DecidableEq Node] {queue : ReadyQueue Node}

@[simp] theorem setNext_pcb (node : Node) (link : Option Node) : (queue.setNext node link).pcb = queue.pcb := rfl

@[simp] theorem setNext_head (node : Node) (link : Option Node) : (queue.setNext node link).head = queue.head := rfl

@[simp] theorem setNext_next (node : Node) (link : Option Node) :
    (queue.setNext node link).next = Function.update queue.next node link := rfl

/-- The two first nodes change places, and the search from the old head finds nothing. -/
theorem swapWithNext_head {cur after : Node} {rest : List Node} (holds : queue.Holds (cur :: after :: rest)) {fuel : Nat}
    (enough : rest.length < fuel) : ∃ swapped, queue.swapWithNext fuel cur = .ok swapped ∧
      swapped.Holds (after :: cur :: rest) ∧ swapped.pcb = queue.pcb := by
  have distinct := Segment.nodup holds
  obtain ⟨start, toAfter, tail⟩ := holds
  simp only [List.nodup_cons, List.mem_cons, not_or] at distinct
  obtain ⟨⟨apart, fresh⟩, later, _⟩ := distinct
  obtain ⟨swapped, swappedEq⟩ : ∃ swapped : ReadyQueue Node, swapped =
    { (queue.setNext cur (queue.next after)).setNext after (some cur) with head := some after } := ⟨_, rfl⟩
  have curLink : swapped.next cur = queue.next after := by
    simp only [swappedEq, setNext_next, Function.update_of_ne apart, Function.update_self]
  have restHolds : Segment swapped.next (swapped.next cur) rest none := by
    rw [curLink, swappedEq]
    exact (tail.update fresh _).update later _
  have result : swapped.Holds (after :: cur :: rest) := by
    refine ⟨by rw [swappedEq], ?_, restHolds⟩
    simp only [swappedEq, setNext_next, Function.update_self]
  have missed : whileLoop (fun cur' => cur'.all fun cur' => swapped.next cur' = some cur) (advance swapped.next) fuel
      (some cur) = .ok none := by
    have walk : Segment swapped.next (some cur) (cur :: rest) none := ⟨rfl, restHolds⟩
    refine whileLoop_walk walk (fun node inside => ?_) rfl enough
    rw [Option.all_some, decide_eq_false_iff_not]
    intro back
    rcases walk.link_mem inside back with inRest | atEnd
    · exact fresh inRest
    · cases atEnd
  refine ⟨swapped, ?_, result, by rw [swappedEq]; rfl⟩
  simp only [swapWithNext, start, toAfter, if_true, deref_some, bind, Except.bind]
  rw [← swappedEq, swapBehind, missed]
  rfl

/-- Two later nodes change places behind the node that is found. -/
theorem swapWithNext_middle {before rest : List Node} {prev cur after : Node}
    (holds : queue.Holds (before ++ prev :: cur :: after :: rest)) {fuel : Nat} (enough : before.length ≤ fuel) :
    ∃ swapped, queue.swapWithNext fuel cur = .ok swapped ∧
      swapped.Holds (before ++ prev :: after :: cur :: rest) ∧ swapped.pcb = queue.pcb := by
  have distinct := Segment.nodup holds
  obtain ⟨middle, front, rfl, toCur, toAfter, tail⟩ := Segment.append_iff.mp holds
  simp only [List.nodup_append, List.nodup_cons, List.mem_cons, not_or] at distinct
  obtain ⟨_, ⟨⟨prevCur, prevAfter, prevRest⟩, ⟨curAfter, curRest⟩, afterRest, _⟩, apart⟩ := distinct
  have outside : prev ∉ before ∧ cur ∉ before ∧ after ∉ before :=
    ⟨fun inside => apart prev inside prev (.inl rfl) rfl, fun inside => apart cur inside cur (.inr (.inl rfl)) rfl,
      fun inside => apart after inside after (.inr (.inr (.inl rfl))) rfl⟩
  have notHead : queue.head ≠ some cur := by
    intro atHead
    rw [atHead] at front
    cases before with
    | nil => exact prevCur (Option.some.inj front).symm
    | cons first before => exact outside.2.1 (Option.some.inj front.1 ▸ List.mem_cons_self)
  have found : whileLoop (fun cur' => cur'.all fun cur' => queue.next cur' = some cur) (advance queue.next) fuel
      queue.head = .ok (some prev) := by
    refine whileLoop_walk front (fun node inside => ?_) (by simpa using toCur) enough
    rw [Option.all_some, decide_eq_false_iff_not]
    intro back
    rcases front.link_mem inside back with inTail | atEnd
    · exact outside.2.1 (List.mem_of_mem_tail inTail)
    · exact prevCur (Option.some.inj atEnd)
  refine ⟨((queue.setNext prev (some after)).setNext after (some cur)).setNext cur (queue.next after), ?_, ?_, rfl⟩
  · simp only [swapWithNext, if_neg notHead, swapBehind, bind, Except.bind, found, toCur, toAfter, deref_some]
  · refine Segment.append_iff.mpr ⟨some prev, ?_, rfl, ?_⟩
    · exact ((front.update outside.1 _).update outside.2.2 _).update outside.2.1 _
    · simp only [setNext_next, Function.update_of_ne prevCur, Function.update_of_ne prevAfter, Function.update_self,
        Segment.cons_iff, Function.update_of_ne (Ne.symm curAfter), true_and]
      exact ((tail.update prevRest _).update afterRest _).update curRest _

/-- A node changes places with its successor wherever it stands. -/
theorem swapWithNext_spec {before rest : List Node} {cur after : Node} (holds : queue.Holds (before ++ cur :: after :: rest))
    {fuel : Nat} (enough : (before ++ cur :: after :: rest).length ≤ fuel) :
    ∃ swapped, queue.swapWithNext fuel cur = .ok swapped ∧
      swapped.Holds (before ++ after :: cur :: rest) ∧ swapped.pcb = queue.pcb := by
  simp only [List.length_append, List.length_cons] at enough
  rcases List.eq_nil_or_concat' before with rfl | ⟨front, prev, rfl⟩
  · exact swapWithNext_head holds (by omega)
  · rw [List.append_assoc] at holds ⊢
    exact swapWithNext_middle holds (by simp only [List.length_append] at enough; omega)

/-- The priority processes first, then the smaller scores. -/
def rank (job : Job) : Bool ×ₗ Int := toLex (!job.priority, job.jobLengthScore)

theorem outOfOrder_iff (cur next : Job) : outOfOrder cur next = true ↔ rank next < rank cur := by
  rw [rank, rank, Prod.Lex.toLex_lt_toLex]
  cases first : cur.priority <;> cases second : next.priority <;> simp [outOfOrder, first, second]

/-- The inner loop is one pass of a bubble sort from the cursor on. -/
theorem sortPass_spec (sorting : Sorting Node) {before rest : List Node}
    (holds : sorting.queue.Holds (before ++ sorting.cur :: rest)) {fuel rounds : Nat}
    (enough : (before ++ sorting.cur :: rest).length ≤ fuel) (loops : rest.length ≤ rounds) :
    ∃ final front, whileLoop Sorting.atEnd (sortStep fuel) rounds sorting = .ok final ∧
      front ++ [final.cur] = before ++ sweep (fun node => rank (sorting.queue.pcb node)) sorting.cur rest ∧
      final.queue.Holds (front ++ [final.cur]) ∧ final.queue.pcb = sorting.queue.pcb := by
  induction rest generalizing sorting before rounds with
  | nil =>
      have ends : sorting.queue.next sorting.cur = none := by
        obtain ⟨_, _, rfl, ends⟩ := Segment.append_iff.mp holds
        exact ends
      refine ⟨sorting, before, whileLoop_finished (by simp [Sorting.atEnd, ends]) _, rfl, holds, rfl⟩
  | cons after rest ih =>
      obtain ⟨rounds, rfl⟩ : ∃ less, rounds = less + 1 := ⟨rounds - 1, by rw [List.length_cons] at loops; omega⟩
      have link : sorting.queue.next sorting.cur = some after := by
        obtain ⟨_, _, rfl, follows, _⟩ := Segment.append_iff.mp holds
        exact follows
      have continues : sorting.atEnd = false := by rw [Sorting.atEnd, link]; rfl
      have swaps : sorting.queue.swapNeeded sorting.cur = true ↔
          rank (sorting.queue.pcb after) < rank (sorting.queue.pcb sorting.cur) := by
        rw [swapNeeded, link]
        exact outOfOrder_iff _ _
      rw [List.length_cons, Nat.add_le_add_iff_right] at loops
      by_cases needed : sorting.queue.swapNeeded sorting.cur = true
      · obtain ⟨swapped, runs, swappedHolds, samePcb⟩ := swapWithNext_spec holds enough
        have step : sortStep fuel sorting = .ok ⟨false, sorting.cur, swapped⟩ := by
          simp only [sortStep, needed, if_true, runs, bind, Except.bind]
        rw [whileLoop_succ continues step, sweep, if_pos (swaps.mp needed)]
        have parts : (before ++ [after]) ++ sorting.cur :: rest = before ++ after :: sorting.cur :: rest := by simp
        obtain ⟨final, front, ends, order, finalHolds, finalPcb⟩ := ih ⟨false, sorting.cur, swapped⟩
          (parts ▸ swappedHolds) (by simp at enough ⊢; omega) loops
        refine ⟨final, front, ends, ?_, finalHolds, finalPcb.trans samePcb⟩
        rw [order, samePcb, List.append_assoc]
        rfl
      · have step : sortStep fuel sorting = .ok { sorting with cur := after } := by
          simp only [sortStep, needed, link, deref_some, bind, Except.bind]
          rfl
        rw [whileLoop_succ continues step, sweep, if_neg (mt swaps.mpr needed)]
        have parts : (before ++ [sorting.cur]) ++ after :: rest = before ++ sorting.cur :: after :: rest := by simp
        obtain ⟨final, front, ends, order, finalHolds, finalPcb⟩ := ih { sorting with cur := after }
          (parts ▸ holds) (by simp at enough ⊢; omega) loops
        refine ⟨final, front, ends, ?_, finalHolds, finalPcb⟩
        rw [order, List.append_assoc]
        rfl

/-- The second pass starts where the first one stopped and does nothing. -/
theorem sortReadyQueue_spec {first : Node} {rest : List Node} (holds : queue.Holds (first :: rest)) {fuel : Nat}
    (enough : (first :: rest).length < fuel) : ∃ sorted, queue.sortReadyQueue fuel = .ok sorted ∧
      sorted.Holds (sweep (fun node => rank (queue.pcb node)) first rest) ∧ sorted.pcb = queue.pcb := by
  obtain ⟨rounds, rfl⟩ : ∃ rounds, fuel = rounds + 2 := ⟨fuel - 2, by rw [List.length_cons] at enough; omega⟩
  obtain ⟨final, front, ends, order, finalHolds, samePcb⟩ := sortPass_spec ⟨true, first, queue⟩
    (show queue.Holds ([] ++ first :: rest) from holds) enough.le
    (show rest.length ≤ rounds + 2 by rw [List.length_cons] at enough; omega)
  have pass : sortPass (rounds + 2) ⟨false, first, queue⟩ = .ok final := ends
  have again : sortPass (rounds + 2) final = .ok { final with sorted := true } := by
    have atEnd : final.queue.next final.cur = none := by
      obtain ⟨_, _, _, stops⟩ := Segment.append_iff.mp finalHolds
      exact stops
    exact whileLoop_finished (by simp [Sorting.atEnd, atEnd]) _
  have loops : ∃ sorting, whileLoop Sorting.sorted (sortPass (rounds + 2)) (rounds + 2) ⟨false, first, queue⟩ = .ok sorting ∧
      sorting.queue = final.queue := by
    rw [whileLoop_succ rfl pass]
    cases settled : final.sorted with
    | true => exact ⟨final, whileLoop_finished settled _, rfl⟩
    | false =>
        rw [whileLoop_succ settled again]
        exact ⟨_, whileLoop_finished rfl _, rfl⟩
  obtain ⟨sorting, runs, same⟩ := loops
  refine ⟨final.queue, ?_, ?_, samePcb⟩
  · simp only [sortReadyQueue, holds.1, runs, bind, Except.bind, same]
  · rw [order] at finalHolds
    exact finalHolds

/-- Priority processes come before the others, and within each group the shorter jobs come first. -/
def Precedes (first second : Job) : Prop :=
  (first.priority = true ∧ second.priority = false) ∨
    (first.priority = second.priority ∧ first.jobLengthScore ≤ second.jobLengthScore)

theorem precedes_iff (first second : Job) : Precedes first second ↔ rank first ≤ rank second := by
  rw [rank, rank, Prod.Lex.toLex_le_toLex, Precedes]
  cases first.priority <;> cases second.priority <;> simp

/-- The sort stops with the nodes in order, and the pop takes a least one. -/
def Sorts (queue : ReadyQueue Node) (nodes : List Node) : Prop :=
  ∃ rounds, ∀ fuel ≥ rounds, ∃ sorted order, queue.sortReadyQueue fuel = .ok sorted ∧ sorted.Holds order ∧
    order.Perm nodes ∧ sorted.pcb = queue.pcb ∧
    order.Pairwise (fun first second => Precedes (queue.pcb first) (queue.pcb second)) ∧
    ∃ left, queue.popShortestJob fuel = .ok (order.head?, left) ∧ left.Holds order.tail ∧ left.pcb = queue.pcb ∧
      ∀ node ∈ order.head?, ∀ other ∈ nodes, Precedes (queue.pcb node) (queue.pcb other)

omit [DecidableEq Node] in
/-- The head leaves the queue, and the other nodes stay. -/
theorem popHead_spec {nodes : List Node} (holds : queue.Holds nodes) :
    queue.popHead.1 = nodes.head? ∧ queue.popHead.2.Holds nodes.tail ∧ queue.popHead.2.pcb = queue.pcb := by
  cases nodes with
  | nil =>
      have empty : queue.head = none := holds
      exact ⟨empty, by simp [popHead, Holds, empty], rfl⟩
  | cons first rest =>
      refine ⟨holds.1, ?_, rfl⟩
      have link : queue.head.bind queue.next = queue.next first := by rw [holds.1]; rfl
      change Segment queue.next (queue.head.bind queue.next) rest none
      rw [link]
      exact holds.2

/-- The single pass sorts the queue exactly when no node has to move up past two others. -/
theorem sorts_iff {nodes : List Node} (holds : queue.Holds nodes) :
    queue.Sorts nodes ↔ ∀ first second last, [first, second, last].Sublist nodes →
      ¬ (outOfOrder (queue.pcb first) (queue.pcb last) = true ∧ outOfOrder (queue.pcb second) (queue.pcb last) = true) := by
  cases nodes with
  | nil =>
      refine ⟨fun _ _ _ _ inside => by simp at inside, fun _ => ⟨0, fun fuel _ => ⟨queue, [], ?_, holds, .refl _, rfl,
        .nil, queue.popHead.2, ?_, ?_, rfl, by simp⟩⟩⟩
      · have empty : queue.head = none := holds
        simp only [sortReadyQueue, empty]
      · have empty : queue.head = none := holds
        simp only [popShortestJob, sortReadyQueue, empty, bind, Except.bind, popHead, List.head?_nil]
      · exact (popHead_spec holds).2.1
  | cons head rest =>
      set key : Node → Bool ×ₗ Int := fun node => rank (queue.pcb node) with keyEq
      have nearly : (∀ first second last, [first, second, last].Sublist (head :: rest) →
          ¬ (outOfOrder (queue.pcb first) (queue.pcb last) = true ∧ outOfOrder (queue.pcb second) (queue.pcb last) = true)) ↔
            NearlySorted key (head :: rest) := by
        simp only [outOfOrder_iff, NearlySorted, keyEq]
      have ordered : ∀ order : List Node, order.Pairwise (fun first second => Precedes (queue.pcb first) (queue.pcb second)) ↔
          order.Pairwise (fun first second => key first ≤ key second) := fun order =>
        List.Pairwise.iff fun first second => precedes_iff _ _
      rw [nearly, ← sweep_sorted_iff]
      constructor
      · rintro ⟨rounds, runs⟩
        obtain ⟨sorted, order, sorts, sortedHolds, _, _, inOrder, _⟩ := runs (rounds + (head :: rest).length + 1) (by omega)
        obtain ⟨swept, sweeps, sweptHolds, _⟩ := sortReadyQueue_spec holds
          (show (head :: rest).length < rounds + (head :: rest).length + 1 by omega)
        obtain rfl := Except.ok.inj (sorts.symm.trans sweeps)
        rw [← Segment.unique sortedHolds sweptHolds]
        exact (ordered order).mp inOrder
      · intro inOrder
        refine ⟨(head :: rest).length + 1, fun fuel enough => ?_⟩
        obtain ⟨sorted, sorts, sortedHolds, samePcb⟩ := sortReadyQueue_spec holds enough
        obtain ⟨popped, left, leftPcb⟩ := popHead_spec sortedHolds
        have perm := sweep_perm key head rest
        refine ⟨sorted, _, sorts, sortedHolds, perm, samePcb, (ordered _).mpr inOrder, sorted.popHead.2, ?_, left,
          leftPcb.trans samePcb, fun node first other inside => ?_⟩
        · rw [← popped]
          simp only [popShortestJob, sorts, bind, Except.bind]
        · obtain ⟨rest', parts⟩ := List.head?_eq_some_iff.mp first
          rw [parts] at inOrder perm
          rw [precedes_iff]
          rcases List.mem_cons.mp (perm.mem_iff.mpr inside) with rfl | later
          · exact le_rfl
          · exact (List.pairwise_cons.mp inOrder).1 other later

/-- Three jobs of the scores 3, 2 and 1. -/
def falling : ReadyQueue Nat :=
  ⟨some 0, fun node => if node < 2 then some (node + 1) else none, fun node => ⟨false, 3 - node⟩⟩

theorem falling_sorts_iff : falling.Sorts [0, 1, 2] ↔ ∀ first second last, [first, second, last].Sublist [0, 1, 2] →
    ¬ (outOfOrder (falling.pcb first) (falling.pcb last) = true ∧ outOfOrder (falling.pcb second) (falling.pcb last) = true) :=
  sorts_iff ⟨rfl, rfl, rfl, rfl⟩

theorem falling_not_sorted : falling.Holds [0, 1, 2] ∧ ¬ falling.Sorts [0, 1, 2] := by
  have holds : falling.Holds [0, 1, 2] := ⟨rfl, rfl, rfl, rfl⟩
  refine ⟨holds, ?_⟩
  rintro ⟨rounds, runs⟩
  obtain ⟨sorted, order, sorts, sortedHolds, _, _, inOrder, _⟩ := runs (rounds + 4) (by omega)
  obtain ⟨swept, sweeps, sweptHolds, _⟩ := sortReadyQueue_spec holds (show 3 < rounds + 4 by omega)
  obtain rfl := Except.ok.inj (sorts.symm.trans sweeps)
  obtain rfl := Segment.unique sortedHolds sweptHolds
  have wrong : ¬ (sweep (fun node => rank (falling.pcb node)) 0 [1, 2]).Pairwise
      (fun first second => Precedes (falling.pcb first) (falling.pcb second)) := by
    have swept : sweep (fun node => rank (falling.pcb node)) 0 [1, 2] = [1, 2, 0] := by decide
    rw [swept]
    simp [Precedes, falling]
  exact wrong inOrder

end MockOS.A2.ReadyQueue
