import MockOS.Lib.Iteration
import Mathlib.Data.List.Nodup
import Mathlib.Data.List.Pairwise
import Mathlib.Order.Lattice

namespace MockOS.Lib

/-- A program did something undefined, such as to follow a null pointer, or it ran out of fuel. -/
inductive Halt where
  | undefined
  | running
  deriving DecidableEq

/-- A `while` loop whose fuel has to be enough. -/
def whileLoop {State : Type} (finished : State → Bool) (step : State → Except Halt State) (fuel : Nat)
    (state : State) : Except Halt State :=
  (loop finished step fuel state).bind fun final => final.elim (.error .running) .ok

theorem whileLoop_finished {State : Type} {finished : State → Bool} {step : State → Except Halt State}
    {state : State} (stops : finished state) (fuel : Nat) : whileLoop finished step fuel state = .ok state := by
  rw [whileLoop, loop_finished stops]
  rfl

theorem whileLoop_succ {State : Type} {finished : State → Bool} {step : State → Except Halt State}
    {state next : State} (continues : finished state = false) (steps : step state = .ok next) (fuel : Nat) :
    whileLoop finished step (fuel + 1) state = whileLoop finished step fuel next := by
  rw [whileLoop, loop_succ continues steps, whileLoop]

theorem whileLoop_error {State : Type} {finished : State → Bool} {step : State → Except Halt State}
    {state : State} {halt : Halt} (continues : finished state = false) (stops : step state = .error halt) (fuel : Nat) :
    whileLoop finished step (fuel + 1) state = .error halt := by
  rw [whileLoop, loop, continues]
  simp only [Bool.false_eq_true, if_false, stops]
  rfl

variable {Node : Type}

/-- `*pointer`. -/
def deref (pointer : Option Node) : Except Halt Node := pointer.elim (.error .undefined) .ok

@[simp] theorem deref_some (node : Node) : deref (some node) = .ok node := rfl

@[simp] theorem deref_none : deref (none : Option Node) = .error .undefined := rfl

/-- `cur = cur->next`. -/
def advance (next : Node → Option Node) (cur : Option Node) : Except Halt (Option Node) := (deref cur).map next

@[simp] theorem advance_some (next : Node → Option Node) (node : Node) : advance next (some node) = .ok (next node) := rfl

/-- The nodes from one pointer up to another, along `next`. -/
def Segment (next : Node → Option Node) : Option Node → List Node → Option Node → Prop
  | first, [], last => first = last
  | first, node :: rest, last => first = some node ∧ Segment next (next node) rest last

namespace Segment

variable {next other : Node → Option Node} {first middle last : Option Node} {node : Node} {nodes before after : List Node}

@[simp] theorem nil_iff : Segment next first [] last ↔ first = last := Iff.rfl

@[simp] theorem cons_iff : Segment next first (node :: nodes) last ↔
    first = some node ∧ Segment next (next node) nodes last := Iff.rfl

theorem append_iff : Segment next first (before ++ after) last ↔
    ∃ middle, Segment next first before middle ∧ Segment next middle after last := by
  induction before generalizing first with
  | nil => simp
  | cons node rest ih => simp only [List.cons_append, cons_iff, ih, and_assoc, exists_and_left]

/-- Links outside the segment do not matter. -/
theorem congr (same : ∀ node ∈ nodes, other node = next node) (holds : Segment next first nodes last) :
    Segment other first nodes last := by
  induction nodes generalizing first with
  | nil => exact holds
  | cons node rest ih =>
      obtain ⟨start, follows⟩ := holds
      refine ⟨start, ?_⟩
      rw [same node List.mem_cons_self]
      exact ih (fun later inside => same later (List.mem_cons_of_mem _ inside)) follows

theorem update [DecidableEq Node] (outside : node ∉ nodes) (link : Option Node)
    (holds : Segment next first nodes last) : Segment (Function.update next node link) first nodes last :=
  holds.congr fun _ inside => Function.update_of_ne (ne_of_mem_of_not_mem inside outside) _ _

/-- The links decide which nodes a null-terminated list has. -/
theorem unique (holds : Segment next first nodes none) (also : Segment next first before none) : nodes = before := by
  induction nodes generalizing first before with
  | nil =>
      cases before with
      | nil => rfl
      | cons node rest => cases holds.symm.trans also.1
  | cons node rest ih =>
      cases before with
      | nil => cases also.symm.trans holds.1
      | cons node' rest' =>
          obtain rfl := Option.some.inj (holds.1.symm.trans also.1)
          rw [ih holds.2 also.2]

/-- A null-terminated list meets no node twice. -/
theorem nodup (holds : Segment next first nodes none) : nodes.Nodup := by
  induction nodes generalizing first with
  | nil => exact List.nodup_nil
  | cons node rest ih =>
      refine List.nodup_cons.mpr ⟨fun again => ?_, ih holds.2⟩
      obtain ⟨before, after, rfl⟩ := List.append_of_mem again
      obtain ⟨middle, _, tail⟩ := append_iff.mp holds.2
      have same := congrArg List.length (holds.2.unique tail.2)
      rw [List.length_append, List.length_cons] at same
      omega

/-- The nodes of a segment point at its later nodes and at its end. -/
theorem link_mem {target : Node} (holds : Segment next first nodes last) (inside : node ∈ nodes)
    (link : next node = some target) : target ∈ nodes.tail ∨ last = some target := by
  induction nodes generalizing first with
  | nil => cases inside
  | cons head rest ih =>
      obtain ⟨_, follows⟩ := holds
      rcases List.mem_cons.mp inside with rfl | later
      · rw [link] at follows
        cases rest with
        | nil => exact .inr follows.symm
        | cons second rest => exact .inl (Option.some.inj follows.1 ▸ List.mem_cons_self)
      · exact (ih follows later).imp List.mem_of_mem_tail id

end Segment

/-- A cursor that no node of the segment stops arrives at its end. -/
theorem loop_walk {Fault : Type} {next : Node → Option Node} {finished : Option Node → Bool}
    {step : Option Node → Except Fault (Option Node)} {first last : Option Node} {skipped : List Node}
    (holds : Segment next first skipped last)
    (passes : ∀ node ∈ skipped, finished (some node) = false ∧ step (some node) = .ok (next node)) (stops : finished last)
    {fuel : Nat} (enough : skipped.length ≤ fuel) : loop finished step fuel first = .ok (some last) := by
  induction skipped generalizing first fuel with
  | nil =>
      obtain rfl := holds
      exact loop_finished stops fuel
  | cons node rest ih =>
      obtain ⟨rfl, follows⟩ := holds
      obtain ⟨left, rfl⟩ : ∃ left, fuel = left + 1 := ⟨fuel - 1, by rw [List.length_cons] at enough; omega⟩
      obtain ⟨continues, steps⟩ := passes node List.mem_cons_self
      rw [loop_succ continues steps]
      exact ih follows (fun later inside => passes later (List.mem_cons_of_mem _ inside)) (by simpa using enough)

theorem whileLoop_walk {next : Node → Option Node} {finished : Option Node → Bool} {first last : Option Node}
    {skipped : List Node} (holds : Segment next first skipped last)
    (passes : ∀ node ∈ skipped, finished (some node) = false) (stops : finished last) {fuel : Nat}
    (enough : skipped.length ≤ fuel) : whileLoop finished (advance next) fuel first = .ok last := by
  rw [whileLoop, loop_walk holds (fun node inside => ⟨passes node inside, advance_some next node⟩) stops enough]
  rfl

/-- A loop that visits the nodes in order folds over them. -/
theorem whileLoop_fold {Store : Type} {next : Node → Option Node}
    {step : Option Node × Store → Except Halt (Option Node × Store)} {visit : Store → Node → Store} (valid : Store → Prop)
    (steps : ∀ node store, valid store → step (some node, store) = .ok (next node, visit store node))
    (keeps : ∀ node store, valid store → valid (visit store node)) {first : Option Node} {nodes : List Node}
    (holds : Segment next first nodes none) {store : Store} (start : valid store) {fuel : Nat}
    (enough : nodes.length ≤ fuel) :
    whileLoop (fun state => state.1.isNone) step fuel (first, store) = .ok (none, nodes.foldl visit store) := by
  induction nodes generalizing first store fuel with
  | nil =>
      obtain rfl := holds
      exact whileLoop_finished rfl fuel
  | cons node rest ih =>
      obtain ⟨rfl, follows⟩ := holds
      obtain ⟨left, rfl⟩ : ∃ left, fuel = left + 1 := ⟨fuel - 1, by rw [List.length_cons] at enough; omega⟩
      rw [whileLoop_succ rfl (steps node store start)]
      exact ih follows (keeps node store start) (by simpa using enough)

section Sweep

variable {A Key : Type} [LinearOrder Key] (key : A → Key)

/-- One pass of a bubble sort: the element in hand is put down when a larger one comes. -/
def sweep : A → List A → List A
  | hand, [] => [hand]
  | hand, value :: rest => if key value < key hand then value :: sweep hand rest else hand :: sweep value rest

theorem sweep_perm (hand : A) (list : List A) : (sweep key hand list).Perm (hand :: list) := by
  induction list generalizing hand with
  | nil => exact .refl _
  | cons value rest ih =>
      rw [sweep]
      split
      · exact ((ih hand).cons value).trans (.swap hand value rest)
      · exact (ih value).cons hand

/-- No element has two larger ones before it. -/
def NearlySorted (list : List A) : Prop :=
  ∀ first second last, [first, second, last].Sublist list → ¬ (key last < key first ∧ key last < key second)

theorem nearlySorted_cons {first second : A} {rest : List A} :
    NearlySorted key (first :: second :: rest) ↔
      (∀ last ∈ rest, ¬ (key last < key first ∧ key last < key second)) ∧
        (∀ middle last, [middle, last].Sublist rest → ¬ (key last < key first ∧ key last < key middle)) ∧
          NearlySorted key (second :: rest) := by
  constructor
  · intro nearly
    refine ⟨fun last inside => nearly first second last ?_, fun middle last inside => nearly first middle last ?_,
      fun x y z inside => nearly x y z (inside.trans (List.sublist_cons_self _ _))⟩
    · exact ((List.singleton_sublist.mpr inside).cons_cons second).cons_cons first
    · exact (inside.cons second).cons_cons first
  · rintro ⟨near, far, nearly⟩ x y z inside
    rcases List.sublist_cons_iff.mp inside with later | ⟨_, same, later⟩
    · exact nearly x y z later
    · obtain ⟨rfl, rfl⟩ := List.cons.inj same
      rcases List.sublist_cons_iff.mp later with deeper | ⟨_, same, deeper⟩
      · exact far y z deeper
      · obtain ⟨rfl, rfl⟩ := List.cons.inj same
        exact near z (List.singleton_sublist.mp deeper)

/-- One pass sorts exactly the nearly sorted lists. -/
theorem sweep_sorted_iff (hand : A) (list : List A) :
    (sweep key hand list).Pairwise (fun first second => key first ≤ key second) ↔ NearlySorted key (hand :: list) := by
  induction list generalizing hand with
  | nil =>
      refine ⟨fun _ x y z inside => ?_, fun _ => List.pairwise_singleton _ _⟩
      simpa using inside.length_le
  | cons value rest ih =>
      rw [sweep, nearlySorted_cons]
      split
      next smaller =>
        rw [List.pairwise_cons, ih hand]
        have least : (∀ later ∈ sweep key hand rest, key value ≤ key later) ↔ ∀ later ∈ rest, key value ≤ key later := by
          simp only [(sweep_perm key hand rest).mem_iff, List.forall_mem_cons, smaller.le, true_and]
        rw [least]
        constructor
        · rintro ⟨below, nearly⟩
          refine ⟨fun last inside both => (below last inside).not_gt both.2, fun middle last inside both => ?_,
            fun x y z inside both => ?_⟩
          · exact nearly hand middle last (inside.cons_cons hand) both
          · rcases List.sublist_cons_iff.mp inside with later | ⟨_, same, later⟩
            · exact nearly x y z (later.cons hand) both
            · obtain ⟨rfl, rfl⟩ := List.cons.inj same
              exact (below z (later.subset (by simp))).not_gt both.1
        · rintro ⟨near, far, nearly⟩
          refine ⟨fun last inside => ?_, fun x y z inside both => ?_⟩
          · by_contra above
            exact near last inside ⟨(not_le.mp above).trans smaller, not_le.mp above⟩
          · rcases List.sublist_cons_iff.mp inside with later | ⟨_, same, later⟩
            · exact nearly x y z (later.cons value) both
            · obtain ⟨rfl, rfl⟩ := List.cons.inj same
              exact far y z later both
      next larger =>
        have ordered : key hand ≤ key value := not_lt.mp larger
        rw [List.pairwise_cons, ih value]
        have least : (∀ later ∈ sweep key value rest, key hand ≤ key later) ↔ ∀ later ∈ rest, key hand ≤ key later := by
          simp only [(sweep_perm key value rest).mem_iff, List.forall_mem_cons, ordered, true_and]
        rw [least]
        constructor
        · rintro ⟨below, nearly⟩
          exact ⟨fun last inside both => (below last inside).not_gt both.1,
            fun middle last inside both => (below last (inside.subset (by simp))).not_gt both.1, nearly⟩
        · rintro ⟨near, _, nearly⟩
          refine ⟨fun last inside => ?_, nearly⟩
          by_contra above
          exact near last inside ⟨not_le.mp above, (not_le.mp above).trans_le ordered⟩

end Sweep

end MockOS.Lib
