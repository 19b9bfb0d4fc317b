import MockOS.Fs.ListElems

namespace MockOS.Fs

variable {A B : Type} {elems middle : ListElems} {list other : KernelList} {node elem : Nat} {link : Option Nat}
  {nodes before after : List Nat}

namespace KernelList

/-- A run of list operations. -/
def run (action : ListAction A) (elems : ListElems) : Except Lib.Halt (A × ListElems) := action elems

theorem run_bind_ok {first : ListAction A} {rest : A → ListAction B} {value : A} (ran : run first elems = .ok (value, middle)) :
    run (first >>= rest) elems = run (rest value) middle := by
  change (first elems >>= fun result => rest result.1 result.2) = _
  change first elems = _ at ran
  rw [ran]
  rfl

theorem exists_of_run_bind {first : ListAction A} {rest : A → ListAction B} {value : B}
    (ran : run (first >>= rest) elems = .ok (value, middle)) :
    ∃ given between, run first elems = .ok (given, between) ∧ run (rest given) between = .ok (value, middle) := by
  cases opening : run first elems with
  | error halt =>
      change (run first elems >>= fun result => rest result.1 result.2) = _ at ran
      rw [opening] at ran
      cases ran
  | ok result =>
      rw [run_bind_ok opening] at ran
      exact ⟨result.1, result.2, rfl, ran⟩

theorem run_pure (value : A) : run (pure value) elems = .ok (value, elems) := rfl

theorem run_get_bind (rest : ListElems → ListAction B) : run (get >>= rest) elems = run (rest elems) elems := rfl

theorem run_assert {asserted : Bool} (holds : asserted = true) : run (assert asserted) elems = .ok ((), elems) := by
  rw [assert, if_pos holds]
  rfl

theorem run_getPrev : run (getPrev (some node)) elems = .ok (elems.prev node, elems) := rfl

theorem run_getNext : run (getNext (some node)) elems = .ok (elems.next node, elems) := rfl

theorem run_setPrev : run (setPrev (some node) link) elems =
    .ok ((), { elems with prev := Function.update elems.prev node link }) := rfl

theorem run_setNext : run (setNext (some node) link) elems =
    .ok ((), { elems with next := Function.update elems.next node link }) := rfl

theorem run_callLess (less : ListLessFunc) : run (callLess less (some node) (some elem)) elems = .ok (less node elem, elems) := rfl

/-- The address at which the part `after` of a list starts. -/
def place (list : KernelList) (after : List Nat) : Nat := after.headD list.tail

end KernelList

/-- The list holds the nodes in this order between its two elements. -/
structure ListElems.Holds (elems : ListElems) (list : KernelList) (nodes : List Nat) : Prop where
  between : Lib.Between elems.next elems.prev list.head list.tail nodes
  first : elems.prev list.head = none
  last : elems.next list.tail = none

/-- `first->next = second` and `second->prev = first`. -/
def ListElems.relink (elems : ListElems) (first second : Nat) : ListElems :=
  { elems with
    next := Function.update elems.next first (some second)
    prev := Function.update elems.prev second (some first) }

/-- Links of nodes outside stay, and nothing panics. -/
structure ListElems.SameOutside (inside : Nat → Prop) (elems later : ListElems) : Prop where
  next : ∀ node, ¬ inside node → later.next node = elems.next node
  prev : ∀ node, ¬ inside node → later.prev node = elems.prev node
  panics : later.panics = elems.panics

namespace ListElems.SameOutside

variable {inside wider : Nat → Prop} {later : ListElems}

theorem refl (inside : Nat → Prop) (elems : ListElems) : elems.SameOutside inside elems :=
  ⟨fun _ _ => rfl, fun _ _ => rfl, rfl⟩

theorem trans (one : elems.SameOutside inside middle) (two : middle.SameOutside inside later) :
    elems.SameOutside inside later :=
  ⟨fun node out => (two.next node out).trans (one.next node out), fun node out => (two.prev node out).trans (one.prev node out),
    two.panics.trans one.panics⟩

theorem mono (same : elems.SameOutside inside later) (subset : ∀ node, inside node → wider node) :
    elems.SameOutside wider later :=
  ⟨fun node out => same.next node fun within => out (subset node within),
    fun node out => same.prev node fun within => out (subset node within), same.panics⟩

theorem relink {first second : Nat} (one : inside first) (two : inside second) :
    elems.SameOutside inside (elems.relink first second) :=
  ⟨fun _ out => Function.update_of_ne (fun same => out (by rwa [same])) _ _,
    fun _ out => Function.update_of_ne (fun same => out (by rwa [same])) _ _, rfl⟩

end ListElems.SameOutside

/-- The elements of a list, the two outer ones included. -/
def KernelList.elements (list : KernelList) (nodes : List Nat) : List Nat := list.head :: nodes ++ [list.tail]

namespace ListElems.Holds

open KernelList

theorem nodup (holds : elems.Holds list nodes) : (list.elements nodes).Nodup := holds.between.nodup

theorem chain (holds : elems.Holds list nodes) : Lib.DoublyLinked elems.next elems.prev nodes :=
  (List.isChain_append.mp holds.between.linked).1.tail

theorem nodup_nodes (holds : elems.Holds list nodes) : nodes.Nodup := holds.nodup.of_cons.of_append_left

/-- The two outer elements are not nodes. -/
theorem ends_apart (holds : elems.Holds list nodes) :
    list.head ∉ nodes ∧ list.tail ∉ nodes ∧ list.head ≠ list.tail := by
  have nodup := holds.nodup
  rw [elements, List.cons_append, List.nodup_cons, List.nodup_append'] at nodup
  exact ⟨fun inside => nodup.1 (List.mem_append_left _ inside), fun inside => nodup.2.2.2 inside (List.mem_singleton_self _),
    fun same => nodup.1 (same ▸ List.mem_append_right _ (List.mem_singleton_self _))⟩

/-- What stands around a place. -/
theorem exists_around (list : KernelList) (before after : List Nat) : ∃ outer rest,
    list.head :: before = outer ++ [before.getLastD list.head] ∧ after ++ [list.tail] = list.place after :: rest := by
  obtain ⟨outer, first, starts⟩ := Lib.Between.exists_before list.head before
  obtain ⟨second, rest, ends⟩ := Lib.Between.exists_behind after list.tail
  have one := congrArg List.getLast? starts
  have two := congrArg List.head? ends
  rw [List.getLast?_concat, List.getLast?_cons, Option.some.injEq] at one
  rw [List.head?_cons] at two
  refine ⟨outer, rest, ?_, ?_⟩
  · rw [List.getLastD_eq_getLast?, one, starts]
  · rw [ends, place]
    cases after with
    | nil => rw [Option.some.inj two.symm]; rfl
    | cons node after => rw [Option.some.inj two.symm]; rfl

theorem places (holds : elems.Holds list (before ++ after)) :
    elems.next (before.getLastD list.head) = some (list.place after) ∧
      elems.prev (list.place after) = some (before.getLastD list.head) := by
  obtain ⟨outer, rest, starts, ends⟩ := exists_around list before after
  have linked := holds.between.linked
  rw [Lib.Between.around starts ends, Lib.DoublyLinked.append_cons_cons_iff] at linked
  exact linked.2.1

/-- A list is not changed where its own elements are not. -/
theorem sameOutside {inside : Nat → Prop} {later : ListElems} (holds : elems.Holds list nodes)
    (same : elems.SameOutside inside later) (apart : ∀ node ∈ list.elements nodes, ¬ inside node) :
    later.Holds list nodes where
  between := holds.between.congr (fun node member => same.next node (apart node (List.mem_append_left _ member)))
    fun node member => same.prev node (apart node (List.mem_cons_of_mem _ member))
  first := (same.prev _ (apart _ (by simp [elements]))).trans holds.first
  last := (same.next _ (apart _ (by simp [elements]))).trans holds.last

theorem next_node (holds : elems.Holds list (before ++ node :: after)) : elems.next node = some (list.place after) := by
  rw [List.append_cons] at holds
  have here := holds.places.1
  rwa [List.getLastD_concat] at here

theorem prev_place (holds : elems.Holds list (before ++ after)) :
    elems.prev (list.place after) = some (before.getLastD list.head) := holds.places.2

theorem next_head (holds : elems.Holds list nodes) : elems.next list.head = some (list.place nodes) := by
  rw [← List.nil_append nodes] at holds
  exact holds.places.1

theorem next_place (holds : elems.Holds list nodes) :
    Lib.Segment elems.next (some (list.place nodes)) nodes (some list.tail) := holds.next_head ▸ holds.between.forward

theorem isInterior (holds : elems.Holds list nodes) (member : node ∈ nodes) : elems.isInterior (some node) = true := by
  obtain ⟨before, after, rfl⟩ := List.append_of_mem member
  have back : elems.prev node = _ := holds.prev_place
  rw [ListElems.isInterior, Option.any_some, back, holds.next_node]
  rfl

theorem isTail (holds : elems.Holds list nodes) : elems.isTail (some list.tail) = true := by
  rw [← List.append_nil nodes] at holds
  have back : elems.prev list.tail = _ := holds.prev_place
  rw [ListElems.isTail, Option.any_some, back, holds.last]
  rfl

/-- A place is that of a node or the end. -/
theorem place_cases (list : KernelList) (after : List Nat) :
    list.place after = list.tail ∧ after = [] ∨ list.place after ∈ after := by
  cases after with
  | nil => exact .inl ⟨rfl, rfl⟩
  | cons node after => exact .inr List.mem_cons_self

theorem place_asserted (holds : elems.Holds list (before ++ after)) :
    (elems.isInterior (some (list.place after)) || elems.isTail (some (list.place after))) = true := by
  rw [Bool.or_eq_true]
  rcases place_cases list after with ⟨same, _⟩ | member
  · exact .inr (same ▸ holds.isTail)
  · exact .inl (holds.isInterior (List.mem_append_right _ member))

/-- Two places in a list are the same only when the same nodes follow. -/
theorem place_eq_iff {part : List Nat} (holds : elems.Holds list (before ++ part ++ after)) :
    list.place (part ++ after) = list.place after ↔ part = [] := by
  constructor
  · intro same
    by_contra some_node
    obtain ⟨node, rest, rfl⟩ := List.exists_cons_of_ne_nil some_node
    have nodup := holds.nodup
    rw [elements, List.cons_append, List.nodup_cons, List.append_assoc, List.append_assoc] at nodup
    have fresh := (List.nodup_cons.mp nodup.2.of_append_right).1
    change node = list.place after at same
    rcases place_cases list after with ⟨isTail, _⟩ | member
    · exact fresh (by rw [same, isTail]; simp)
    · exact fresh (by rw [same]; simp [member])
  · rintro rfl
    rfl

theorem place_eq_listEnd_iff (holds : elems.Holds list (before ++ nodes)) :
    some (list.place nodes) = listEnd list ↔ nodes = [] := by
  rw [← List.append_nil (before ++ nodes)] at holds
  have ended := holds.place_eq_iff
  rw [List.append_nil] at ended
  rw [← ended, listEnd, Option.some.injEq]
  rfl

theorem run_listBegin (holds : elems.Holds list nodes) :
    run (listBegin list) elems = .ok (some (list.place nodes), elems) := by
  rw [listBegin, run_getNext, holds.next_head]

theorem run_listRbegin (holds : elems.Holds list nodes) :
    run (listRbegin list) elems = .ok (some (nodes.getLastD list.head), elems) := by
  rw [← List.append_nil nodes] at holds
  have back : elems.prev list.tail = _ := holds.prev_place
  rw [listRbegin, run_getPrev, back]

theorem run_listEmpty (holds : elems.Holds list nodes) : run (listEmpty list) elems = .ok (nodes.isEmpty, elems) := by
  rw [listEmpty, run_bind_ok holds.run_listBegin, run_pure]
  have same : (some (list.place nodes) == listEnd list) = nodes.isEmpty := by
    rw [Bool.eq_iff_iff, beq_iff_eq, List.isEmpty_iff]
    exact (show elems.Holds list ([] ++ nodes) from holds).place_eq_listEnd_iff
  rw [same]

theorem run_listNext (holds : elems.Holds list (before ++ node :: after)) :
    run (listNext (some node)) elems = .ok (some (list.place after), elems) := by
  have inside : node ∈ before ++ node :: after := by simp
  rw [listNext, run_get_bind, run_get_bind, run_bind_ok (run_assert (by rw [holds.isInterior inside, Bool.or_true])), run_getNext,
    holds.next_node]

theorem run_listPrev (holds : elems.Holds list (before ++ after)) :
    run (listPrev (some (list.place after))) elems = .ok (some (before.getLastD list.head), elems) := by
  rw [listPrev, run_get_bind, run_get_bind, run_bind_ok (run_assert holds.place_asserted), run_getPrev, holds.prev_place]

end ListElems.Holds

end MockOS.Fs
