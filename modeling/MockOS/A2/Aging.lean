import MockOS.A2.QueueOrder
import Mathlib.Order.MinMax

namespace MockOS.A2.ReadyQueue

open Lib

variable {Node World : Type} [DecidableEq Node] {queue : ReadyQueue Node} {nodes : List Node} {fuel : Nat}

theorem addToTail_spec (holds : queue.Holds nodes) {node : Node} (fresh : node ∉ nodes) (enough : nodes.length ≤ fuel) :
    ∃ longer, queue.addToTail fuel node = .ok longer ∧ longer.Holds (nodes ++ [node]) ∧ longer.pcb = queue.pcb := by
  rcases List.eq_nil_or_concat' nodes with rfl | ⟨front, last, rfl⟩
  · have empty : queue.head = none := holds
    exact ⟨{ queue with head := some node }.setNext node none, by simp only [addToTail, empty], ⟨rfl, by simp⟩, rfl⟩
  · have distinct := Segment.nodup holds
    obtain ⟨_, toLast, rfl, ends⟩ := Segment.append_iff.mp holds
    obtain ⟨first, start⟩ : ∃ first, queue.head = some first := by
      cases front with
      | nil => exact ⟨last, toLast⟩
      | cons first rest => exact ⟨first, toLast.1⟩
    have found : whileLoop (fun cur => cur.any fun cur => (queue.next cur).isNone) (advance queue.next) fuel queue.head =
        .ok (some last) := by
      refine whileLoop_walk toLast (fun cur inside => ?_) (by simpa using ends) (by simp at enough; omega)
      obtain ⟨before, after, rfl⟩ := List.append_of_mem inside
      obtain ⟨_, _, _, follows⟩ := Segment.append_iff.mp toLast
      cases after with
      | nil => simp [show queue.next cur = some last from follows]
      | cons later after => simp [follows.1]
    simp only [List.mem_append, List.mem_singleton, not_or] at fresh
    have lastFresh : last ∉ front := fun inside => (List.nodup_append.mp distinct).2.2 last inside last (by simp) rfl
    refine ⟨(queue.setNext last (some node)).setNext node none, ?_, ?_, rfl⟩
    · rw [start] at found
      simp only [addToTail, start, found, deref_some, bind, Except.bind]
    · refine Segment.append_iff.mpr ⟨some node, Segment.append_iff.mpr ⟨some last, ?_, rfl, ?_⟩, rfl, ?_⟩
      · exact (toLast.update lastFresh _).update fresh.1 _
      · simp [Function.update_of_ne (Ne.symm fresh.2)]
      · simp

theorem addToHead_spec (holds : queue.Holds nodes) {node : Node} (fresh : node ∉ nodes) :
    (queue.addToHead node).Holds (node :: nodes) ∧ (queue.addToHead node).pcb = queue.pcb := by
  cases start : queue.head with
  | none =>
      obtain rfl : nodes = [] := Segment.unique holds (show Segment queue.next queue.head [] none from start)
      simp [addToHead, start, Holds]
  | some first =>
      refine ⟨?_, by simp [addToHead, start]⟩
      have same : Segment (Function.update queue.next node (some first)) queue.head nodes none := holds.update fresh _
      simpa [addToHead, start, Holds] using same

/-- One less, but not below zero. -/
def lessOne (job : Job) : Job := { job with jobLengthScore := if job.jobLengthScore > 0 then job.jobLengthScore - 1 else job.jobLengthScore }

theorem decrement_eq (queue : ReadyQueue Node) (cur : Node) :
    queue.decrement cur = { queue with pcb := Function.update queue.pcb cur (lessOne (queue.pcb cur)) } := by
  rw [decrement, lessOne, score]
  split
  · rfl
  · rw [Function.update_eq_self]

theorem foldl_decrement (nodes : List Node) (queue : ReadyQueue Node) (distinct : nodes.Nodup) :
    (nodes.foldl (fun queue cur => queue.decrement cur) queue).head = queue.head ∧
      (nodes.foldl (fun queue cur => queue.decrement cur) queue).next = queue.next ∧
      ∀ node, (nodes.foldl (fun queue cur => queue.decrement cur) queue).pcb node =
        if node ∈ nodes then lessOne (queue.pcb node) else queue.pcb node := by
  induction nodes generalizing queue with
  | nil => simp
  | cons cur rest ih =>
      obtain ⟨fresh, distinct⟩ := List.nodup_cons.mp distinct
      obtain ⟨sameHead, sameNext, lowered⟩ := ih (queue.decrement cur) distinct
      rw [List.foldl_cons]
      refine ⟨by rw [sameHead, decrement_eq], by rw [sameNext, decrement_eq], fun node => ?_⟩
      rw [lowered, decrement_eq]
      by_cases same : node = cur
      · simp only [same, if_neg fresh, List.mem_cons_self, if_true, Function.update_self]
      · simp only [Function.update_of_ne same, List.mem_cons, same, false_or]

theorem decrementJobLengthScore_spec (holds : queue.Holds nodes) (enough : nodes.length ≤ fuel) :
    ∃ lowered, queue.decrementJobLengthScore fuel = .ok lowered ∧ lowered.Holds nodes ∧
      ∀ node, lowered.pcb node = if node ∈ nodes then lessOne (queue.pcb node) else queue.pcb node := by
  obtain ⟨sameHead, sameNext, lowered⟩ := foldl_decrement nodes queue (Segment.nodup holds)
  have runs : whileLoop (fun state => state.1.isNone) decrementStep fuel (queue.head, queue) =
      .ok (none, nodes.foldl (fun queue cur => queue.decrement cur) queue) := by
    refine whileLoop_fold (fun store => store.next = queue.next) (fun node store same => ?_) (fun node store same => ?_)
      holds rfl enough
    · simp only [decrementStep, deref_some, bind, Except.bind, same]
    · rw [decrement_eq]
      exact same
  refine ⟨_, by rw [decrementJobLengthScore, runs]; rfl, ?_, lowered⟩
  rw [Holds, sameHead, sameNext]
  exact holds

omit [DecidableEq Node] in
theorem foldl_min (score : Node → Int) (nodes : List Node) (start : Int) :
    nodes.foldl (fun least cur => min least (score cur)) start ≤ start ∧
      (∀ node ∈ nodes, nodes.foldl (fun least cur => min least (score cur)) start ≤ score node) ∧
      (nodes.foldl (fun least cur => min least (score cur)) start = start ∨
        ∃ node ∈ nodes, score node = nodes.foldl (fun least cur => min least (score cur)) start) := by
  induction nodes generalizing start with
  | nil => simp
  | cons cur rest ih =>
      obtain ⟨most, below, reached⟩ := ih (min start (score cur))
      rw [List.foldl_cons]
      refine ⟨most.trans (min_le_left _ _), ?_, ?_⟩
      · rw [List.forall_mem_cons]
        exact ⟨most.trans (min_le_right _ _), below⟩
      · rcases reached with same | ⟨node, inside, same⟩
        · rw [same]
          rcases min_choice start (score cur) with least | least
          · exact .inl least
          · exact .inr ⟨cur, List.mem_cons_self, least.symm⟩
        · exact .inr ⟨node, List.mem_cons_of_mem _ inside, same⟩

omit [DecidableEq Node] in
/-- The smallest score, as far as it is below `MAX_INT`. -/
theorem getShortestJobScore_spec (holds : queue.Holds nodes) (enough : nodes.length ≤ fuel) :
    ∃ shortest, queue.getShortestJobScore fuel = .ok shortest ∧ (∀ node ∈ nodes, shortest ≤ queue.score node) ∧
      (shortest = maxInt ∨ ∃ node ∈ nodes, queue.score node = shortest) := by
  obtain ⟨_, below, reached⟩ := foldl_min queue.score nodes maxInt
  refine ⟨_, ?_, below, reached⟩
  have runs : whileLoop (fun state => state.1.isNone) (shortestStep queue) fuel (queue.head, maxInt) =
      .ok (none, nodes.foldl (fun least cur => min least (queue.score cur)) maxInt) := by
    refine whileLoop_fold (fun _ => True) (fun node store _ => ?_) (fun _ _ _ => trivial)
      (show Segment queue.next queue.head nodes none from holds) trivial enough
    simp only [shortestStep, deref_some, bind, Except.bind, min_def]
    congr 2
    split <;> split <;> omega
  rw [getShortestJobScore, runs]
  rfl

/-- The first node of the score comes to the head. -/
theorem promote_spec (holds : queue.Holds nodes) (enough : nodes.length ≤ fuel) {score : Int}
    (present : ∃ node ∈ nodes, queue.score node = score) :
    ∃ promoted first rest, queue.promote fuel score = .ok promoted ∧ promoted.Holds (first :: rest) ∧
      (first :: rest).Perm nodes ∧ queue.score first = score ∧ promoted.pcb = queue.pcb := by
  have distinct := Segment.nodup holds
  obtain ⟨head, tail, rfl⟩ : ∃ head tail, nodes = head :: tail := by
    obtain ⟨node, inside, _⟩ := present
    exact List.exists_cons_of_ne_nil (List.ne_nil_of_mem inside)
  by_cases already : queue.score head = score
  · refine ⟨queue, head, tail, ?_, holds, .refl _, already, rfl⟩
    simp only [promote, holds.1, deref_some, bind, Except.bind, if_pos already]
  · -- the nodes before the first one of the score, and that node
    obtain ⟨found, before, after, split, scored, others⟩ : ∃ found before after, tail = before ++ found :: after ∧
        queue.score found = score ∧ ∀ node ∈ before, queue.score node ≠ score := by
      obtain ⟨node, inside, same⟩ := present
      have later : node ∈ tail := (List.mem_cons.mp inside).resolve_left fun here => already (here ▸ same)
      cases search : tail.find? (fun node => decide (queue.score node = score)) with
      | none => exact absurd same (by simpa using List.find?_eq_none.mp search node later)
      | some found =>
          obtain ⟨scored, before, after, split, others⟩ := List.find?_eq_some_iff_append.mp search
          exact ⟨found, before, after, split, by simpa using scored, by simpa using others⟩
    subst split
    obtain ⟨front, prev, parts⟩ : ∃ front prev, head :: before = front ++ [prev] := by
      rcases List.eq_nil_or_concat' (head :: before) with empty | ⟨front, prev, parts⟩
      · cases empty
      · exact ⟨front, prev, parts⟩
    have start := holds.1
    have whole : head :: (before ++ found :: after) = front ++ prev :: found :: after := by
      rw [← List.cons_append, parts, List.append_assoc]
      rfl
    rw [whole] at holds distinct enough ⊢
    obtain ⟨_, toPrev, rfl, toFound, rest⟩ := Segment.append_iff.mp holds
    have walked : whileLoop (fun cur => cur.any fun cur => (queue.next cur).all fun next => queue.score next = score)
        (advance queue.next) fuel queue.head = .ok (some prev) := by
      refine whileLoop_walk toPrev (fun cur inside => ?_) (by simp [toFound, scored]) (by simp at enough; omega)
      obtain ⟨target, link⟩ : ∃ target, queue.next cur = some target := by
        obtain ⟨first, last, rfl⟩ := List.append_of_mem inside
        obtain ⟨_, _, _, follows⟩ := Segment.append_iff.mp toPrev
        cases last with
        | nil => exact ⟨_, follows⟩
        | cons later last => exact ⟨_, follows.1⟩
      have reached : target ∈ before := by
        have tails : before = (front ++ [prev]).tail := by rw [← parts]; rfl
        rw [tails]
        rcases toPrev.link_mem inside link with inTail | atEnd
        · cases front with
          | nil => cases inside
          | cons _ _ => exact List.mem_append_left _ inTail
        · cases front with
          | nil => cases inside
          | cons _ _ => exact List.mem_append_right _ (by simp [Option.some.inj atEnd])
      simp [link, others target reached]
    simp only [List.nodup_append, List.nodup_cons, List.mem_cons, not_or] at distinct
    obtain ⟨_, ⟨⟨prevFound, prevAfter⟩, foundAfter, _⟩, apart⟩ := distinct
    have outside : prev ∉ front ∧ found ∉ front :=
      ⟨fun inside => apart prev inside prev (.inl rfl) rfl, fun inside => apart found inside found (.inr (.inl rfl)) rfl⟩
    refine ⟨{ (queue.setNext prev (queue.next found)).setNext found queue.head with head := some found }, found,
      front ++ prev :: after, ?_, ?_, ?_, scored, rfl⟩
    · rw [start] at walked
      simp only [promote, start, deref_some, bind, Except.bind, if_neg already, walked, toFound, scored, ne_eq, not_true,
        if_false]
    · refine ⟨rfl, Segment.append_iff.mpr ⟨some prev, ?_, rfl, ?_⟩⟩
      · simp only [setNext_next, Function.update_self]
        exact (toPrev.update outside.1 _).update outside.2 _
      · simp only [setNext_next, Function.update_of_ne prevFound, Function.update_self]
        exact (rest.update prevAfter _).update foundAfter _
    · exact List.perm_middle.symm.trans (List.Perm.append_left front (.swap prev found after))

/-- A shortest job is chosen, and the other ones lose one each. -/
theorem agingChoice_spec {cur : Node} {rest : List Node} (holds : queue.Holds (cur :: rest))
    (atMost : queue.score cur ≤ maxInt) (enough : rest.length < fuel) :
    ∃ chosen others ready, queue.agingChoice fuel = .ok (chosen, ready) ∧ (chosen :: others).Perm (cur :: rest) ∧
      (∀ node ∈ cur :: rest, queue.score chosen ≤ queue.score node) ∧ ready.Holds others ∧
      ready.pcb chosen = queue.pcb chosen ∧ ∀ other ∈ others, ready.pcb other = lessOne (queue.pcb other) := by
  obtain ⟨fresh, _⟩ := List.nodup_cons.mp (Segment.nodup holds)
  obtain ⟨popped, left, leftPcb⟩ := popHead_spec holds
  obtain ⟨shortest, scans, below, reached⟩ := getShortestJobScore_spec left enough.le
  simp only [score, leftPcb] at below reached
  by_cases shorter : shortest < queue.score cur
  · obtain ⟨promoted, first, others, promotes, promotedHolds, perm, scored, promotedPcb⟩ :=
      promote_spec left enough.le (show ∃ node ∈ rest, queue.popHead.2.score node = shortest by
        simp only [score, leftPcb]
        exact reached.resolve_left (by omega))
    have absent : cur ∉ first :: others := fun inside => fresh (perm.mem_iff.mp inside)
    have sizes : (first :: others).length = rest.length := perm.length_eq
    obtain ⟨longer, appends, longerHolds, longerPcb⟩ := addToTail_spec promotedHolds absent (sizes ▸ enough.le)
    obtain ⟨again, final, finalPcb⟩ := popHead_spec longerHolds
    have remaining : (first :: others ++ [cur]).tail = others ++ [cur] := rfl
    rw [remaining] at final
    have room : (others ++ [cur]).length ≤ fuel := by simp at sizes ⊢; omega
    obtain ⟨ready, lowers, readyHolds, lowered⟩ := decrementJobLengthScore_spec final room
    have samePcb : longer.popHead.2.pcb = queue.pcb := finalPcb.trans (longerPcb.trans (promotedPcb.trans leftPcb))
    rw [samePcb] at lowered
    have kept := (List.perm_append_singleton cur (first :: others)).trans (perm.cons cur)
    have once : first ∉ others ++ [cur] := (List.nodup_cons.mp (Segment.nodup longerHolds)).1
    have firstScore : queue.score first = shortest := by rw [← scored, score, score, leftPcb]
    refine ⟨first, others ++ [cur], ready, ?_, kept, ?_, readyHolds, by rw [lowered, if_neg once],
      fun other inside => by rw [lowered, if_pos inside]⟩
    · have start : queue.popHead.1 = some cur := popped
      have next : longer.popHead.1 = some first := again
      have smaller : shortest < queue.popHead.2.score cur := by rwa [score, leftPcb]
      simp only [agingChoice, start, scans, deref_some, bind, Except.bind, if_pos smaller, promotes, appends, next, lowers]
    · rw [firstScore, List.forall_mem_cons]
      exact ⟨shorter.le, below⟩
  · obtain ⟨ready, lowers, readyHolds, lowered⟩ := decrementJobLengthScore_spec left enough.le
    rw [leftPcb] at lowered
    refine ⟨cur, rest, ready, ?_, .refl _, ?_, readyHolds, by rw [lowered]; exact if_neg fresh,
      fun other inside => by rw [lowered]; exact if_pos inside⟩
    · have start : queue.popHead.1 = some cur := popped
      have same : ¬ shortest < queue.popHead.2.score cur := by rwa [score, leftPcb]
      simp only [agingChoice, start, scans, deref_some, bind, Except.bind, if_neg same, lowers]
    · rw [List.forall_mem_cons]
      exact ⟨le_rfl, fun node inside => (not_lt.mp shorter).trans (below node inside)⟩

/-- An iteration runs a shortest job, keeps the other ones with scores reduced by one, and puts a job that is not
finished back at the head. -/
theorem agingTurn_spec (executeProcess : Node → ReadyQueue Node → World → Except Halt (Bool × ReadyQueue Node × World))
    (unfinished : ∀ node queue world after next,
      executeProcess node queue world = .ok (false, after, next) → after = queue)
    (holds : queue.Holds nodes) (nonempty : nodes ≠ [])
    (scores : ∀ node ∈ nodes, 0 ≤ queue.score node ∧ queue.score node ≤ maxInt) (world : World) :
    ∃ rounds, ∀ fuel ≥ rounds, ∃ chosen others ready,
      (∀ node ∈ nodes, queue.score chosen ≤ queue.score node) ∧ (chosen :: others).Perm nodes ∧ ready.Holds others ∧
      (∀ other ∈ others, ready.score other = max 0 (queue.score other - 1)) ∧
      ready.score chosen = queue.score chosen ∧
      (queue.agingTurn executeProcess fuel world = (executeProcess chosen ready world).map fun (finished, after, next) =>
        (if finished then after else after.addToHead chosen, next)) ∧
      ∀ after next, executeProcess chosen ready world = .ok (false, after, next) →
        ∃ final, queue.agingTurn executeProcess fuel world = .ok (final, next) ∧ final.Holds (chosen :: others) ∧
          final.pcb = ready.pcb := by
  obtain ⟨cur, rest, rfl⟩ := List.exists_cons_of_ne_nil nonempty
  refine ⟨rest.length + 1, fun fuel enough => ?_⟩
  obtain ⟨chosen, others, ready, chooses, perm, least, readyHolds, kept, lowered⟩ :=
    agingChoice_spec holds (scores cur List.mem_cons_self).2 enough
  have fresh : chosen ∉ others := (List.nodup_cons.mp (perm.nodup_iff.mpr (Segment.nodup holds))).1
  refine ⟨chosen, others, ready, least, perm, readyHolds, fun other inside => ?_, by rw [score, kept, score],
    ?_, fun after next executes => ?_⟩
  · have positive := (scores other (perm.mem_iff.mp (List.mem_cons_of_mem _ inside))).1
    rw [score, lowered other inside, lessOne]
    simp only [score] at positive ⊢
    split <;> omega
  · simp only [agingTurn, chooses, bind, Except.bind]
    rcases executeProcess chosen ready world with fault | ⟨_ | _, after, next⟩ <;> rfl
  · obtain rfl := unfinished _ _ _ _ _ executes
    obtain ⟨final, samePcb⟩ := addToHead_spec readyHolds fresh
    exact ⟨_, by simp only [agingTurn, chooses, executes, bind, Except.bind, Bool.not_false, if_true], final, samePcb⟩

/-- Jobs of the scores 2, 0 and 5. -/
def unsorted : ReadyQueue Nat :=
  ⟨some 0, fun node => if node < 2 then some (node + 1) else none, fun node => ⟨false, if node = 0 then 2 else 5 * (node - 1)⟩⟩

/-- A process that has lines left. -/
def runsOn (_ : Nat) (queue : ReadyQueue Nat) (world : Unit) : Except Halt (Bool × ReadyQueue Nat × Unit) :=
  .ok (false, queue, world)

theorem unsorted_agingTurn : ∃ rounds, ∀ fuel ≥ rounds, ∃ chosen others ready,
    (∀ node ∈ [0, 1, 2], unsorted.score chosen ≤ unsorted.score node) ∧ (chosen :: others).Perm [0, 1, 2] ∧
      ready.Holds others ∧ (∀ other ∈ others, ready.score other = max 0 (unsorted.score other - 1)) ∧
      ready.score chosen = unsorted.score chosen ∧
      (unsorted.agingTurn runsOn fuel () = (runsOn chosen ready ()).map fun (finished, after, next) =>
        (if finished then after else after.addToHead chosen, next)) ∧
      ∀ after next, runsOn chosen ready () = .ok (false, after, next) →
        ∃ final, unsorted.agingTurn runsOn fuel () = .ok (final, next) ∧ final.Holds (chosen :: others) ∧
          final.pcb = ready.pcb :=
  agingTurn_spec runsOn (fun _ _ _ _ _ same => by simp [runsOn] at same; exact same.symm)
    (show unsorted.Holds [0, 1, 2] from ⟨rfl, rfl, rfl, rfl⟩) (by decide) (by decide) ()

end MockOS.A2.ReadyQueue
