import MockOS.Fs.ListOperations

namespace MockOS.Fs

open KernelList

variable {elems : ListElems} {list : KernelList} {node : Nat} {nodes before after : List Nat} {fuel : Nat}

/-- The links of some nodes are swapped. -/
def ListElems.swapped (elems : ListElems) (nodes : List Nat) : ListElems :=
  { elems with
    prev := fun node => if node ∈ nodes then elems.next node else elems.prev node
    next := fun node => if node ∈ nodes then elems.prev node else elems.next node }

theorem ListElems.swapped_cons (elems : ListElems) (fresh : node ∉ nodes) :
    ({ elems with
        prev := Function.update elems.prev node (elems.next node)
        next := Function.update elems.next node (elems.prev node) } : ListElems).swapped nodes =
      elems.swapped (node :: nodes) := by
  rw [swapped, swapped, ListElems.mk.injEq]
  refine ⟨funext fun other => ?_, funext fun other => ?_, rfl⟩
  · by_cases same : other = node
    · subst same
      rw [if_neg fresh, if_pos List.mem_cons_self]
      exact Function.update_self _ _ _
    · simp only [List.mem_cons, same, false_or, Function.update_of_ne same]
  · by_cases same : other = node
    · subst same
      rw [if_neg fresh, if_pos List.mem_cons_self]
      exact Function.update_self _ _ _
    · simp only [List.mem_cons, same, false_or, Function.update_of_ne same]

namespace ListElems.Holds

/-- The loop of `list_reverse` finds each node by the link that it swapped. -/
theorem run_swapLinks {first : Option Nat} (leads : Lib.Segment elems.next first nodes (some list.tail))
    (nodup : nodes.Nodup) (apart : list.tail ∉ nodes) (enough : nodes.length < fuel) :
    run (swapLinks list fuel first) elems = .ok ((), elems.swapped nodes) := by
  induction fuel generalizing elems nodes first with
  | zero => exact absurd enough (Nat.not_lt_zero _)
  | succ fuel ih =>
      cases nodes with
      | nil =>
          rw [swapLinks, if_pos (show first = listEnd list from leads), run_pure, swapped]
          simp only [List.not_mem_nil, if_false]
      | cons node nodes =>
          obtain ⟨rfl, follows⟩ := leads
          obtain ⟨fresh, nodupRest⟩ := List.nodup_cons.mp nodup
          have ended : some node ≠ listEnd list := fun same => apart (Option.some.inj same ▸ List.mem_cons_self)
          have different : list.tail ∉ nodes := fun inside => apart (List.mem_cons_of_mem _ inside)
          rw [swapLinks, if_neg ended, run_bind_ok run_getPrev, run_bind_ok run_getNext, run_bind_ok run_setPrev,
            run_bind_ok run_setNext, run_bind_ok run_getPrev]
          dsimp only
          rw [Function.update_self, ih (follows.update fresh _) nodupRest different (Nat.lt_of_succ_lt_succ enough),
            swapped_cons elems fresh]

/-- The links that `list_reverse` swaps run the other way. -/
theorem swapped_chain (chain : Lib.DoublyLinked elems.next elems.prev nodes) :
    Lib.DoublyLinked (elems.swapped nodes).next (elems.swapped nodes).prev nodes.reverse :=
  chain.reverse.of_same (fun _ inside => if_pos (List.mem_reverse.mp inside))
    fun _ inside => if_pos (List.mem_reverse.mp inside)

/-- What `list_reverse` does to the links of a list that is not empty. -/
theorem run_listReverse_cons {opening closing : Nat} {inner front : List Nat} (holds : elems.Holds list nodes)
    (opens : nodes = opening :: inner) (closes : nodes = front ++ [closing]) (enough : nodes.length < fuel) :
    run (listReverse fuel list) elems =
      .ok ((), ((elems.swapped nodes).relink list.head closing).relink opening list.tail) := by
  have nodup := holds.nodup
  have some_node : nodes.isEmpty = false := by rw [opens]; rfl
  have openingIn : opening ∈ nodes := opens ▸ List.mem_cons_self
  have closingIn : closing ∈ nodes := closes ▸ List.mem_append_right _ (List.mem_singleton_self closing)
  obtain ⟨headApart, tailApart, different⟩ := holds.ends_apart
  have swaps := run_swapLinks holds.next_place holds.nodup_nodes tailApart enough
  have front : (elems.swapped nodes).next list.head = some opening := by
    rw [opens] at holds
    exact (if_neg headApart).trans holds.next_head
  have back : (elems.swapped nodes).prev list.tail = some closing := by
    rw [closes, ← List.append_nil (_ ++ _)] at holds
    have linked := holds.prev_place
    rw [List.getLastD_concat] at linked
    exact (if_neg tailApart).trans linked
  have fromClosing : (elems.swapped nodes).prev closing = some list.tail := by
    rw [closes] at holds
    exact (if_pos closingIn).trans holds.next_node
  have toOpening : (elems.swapped nodes).next opening = some list.head := by
    rw [opens, ← List.nil_append (_ :: _)] at holds
    exact (if_pos openingIn).trans holds.prev_place
  have closingApart : closing ≠ list.tail := fun same => tailApart (same ▸ closingIn)
  have openingApart : opening ≠ list.head := fun same => headApart (same ▸ openingIn)
  rw [listReverse, run_bind_ok holds.run_listEmpty, some_node, if_neg Bool.false_ne_true, run_bind_ok holds.run_listBegin,
    run_bind_ok swaps, run_bind_ok run_getNext, run_bind_ok run_getPrev, run_bind_ok run_setNext, run_bind_ok run_setPrev,
    run_bind_ok run_getNext, run_bind_ok run_getPrev]
  dsimp only
  rw [Function.update_self, Function.update_self, front, back, run_bind_ok run_getPrev, run_bind_ok run_getNext]
  dsimp only
  rw [Function.update_of_ne closingApart, Function.update_of_ne openingApart, fromClosing, toOpening, run_bind_ok run_setPrev,
    run_setNext]
  generalize elems.swapped nodes = middle
  simp only [relink, Function.update_comm closingApart]

/-- `list_reverse` turns a list around. -/
theorem run_listReverse (holds : elems.Holds list nodes) (enough : nodes.length < fuel) :
    ∃ later, run (listReverse fuel list) elems = .ok ((), later) ∧ later.Holds list nodes.reverse ∧
      elems.SameOutside (· ∈ list.elements nodes) later := by
  by_cases empty : nodes = []
  · subst empty
    refine ⟨elems, ?_, holds, .refl _ _⟩
    rw [listReverse, run_bind_ok holds.run_listEmpty, if_pos List.isEmpty_nil, run_pure]
  · obtain ⟨opening, inner, opens⟩ := List.exists_cons_of_ne_nil empty
    obtain ⟨front, closing, closes⟩ : ∃ front closing, nodes = front ++ [closing] :=
      ⟨_, _, (List.dropLast_concat_getLast empty).symm⟩
    have openingIn : opening ∈ nodes := opens ▸ List.mem_cons_self
    have closingIn : closing ∈ nodes := closes ▸ List.mem_append_right _ (List.mem_singleton_self closing)
    have ofNode {node : Nat} (inside : node ∈ nodes) : node ∈ list.elements nodes :=
      List.mem_append_left _ (List.mem_cons_of_mem _ inside)
    have headIn : list.head ∈ list.elements nodes := List.mem_append_left _ List.mem_cons_self
    have tailIn : list.tail ∈ list.elements nodes := List.mem_append_right _ (List.mem_singleton_self _)
    obtain ⟨headApart, tailApart, different⟩ := holds.ends_apart
    have headClosing : list.head ≠ closing := fun same => headApart (same ▸ closingIn)
    have headOpening : list.head ≠ opening := fun same => headApart (same ▸ openingIn)
    have tailClosing : list.tail ≠ closing := fun same => tailApart (same ▸ closingIn)
    have tailOpening : list.tail ≠ opening := fun same => tailApart (same ▸ openingIn)
    have swaps : elems.SameOutside (· ∈ list.elements nodes) (elems.swapped nodes) :=
      ⟨fun _ out => if_neg fun inside => out (ofNode inside), fun _ out => if_neg fun inside => out (ofNode inside), rfl⟩
    have turned := swapped_chain holds.chain
    have first : (elems.swapped nodes).prev list.head = none := (if_neg headApart).trans holds.first
    have last : (elems.swapped nodes).next list.tail = none := (if_neg tailApart).trans holds.last
    refine ⟨_, holds.run_listReverse_cons opens closes enough, ⟨?_, ?_, ?_⟩,
      (swaps.trans (.relink headIn (ofNode closingIn))).trans (.relink (ofNode openingIn) tailIn)⟩
    · -- the chain is put between the outer elements of an empty list
      generalize elems.swapped nodes = middle at turned
      have around : Lib.Between (Function.update middle.next list.head (some list.tail))
          (Function.update middle.prev list.tail (some list.head)) list.head list.tail ([] ++ []) :=
        Lib.between_nil different (Function.update_self _ _ _) (Function.update_self _ _ _)
      have fresh : ∀ node ∈ nodes.reverse, node ∉ list.head :: ([] ++ []) ++ [list.tail] := fun node inside member => by
        rw [List.mem_reverse] at inside
        rcases List.mem_cons.mp member with rfl | isTail
        · exact headApart inside
        · exact tailApart (List.mem_singleton.mp isTail ▸ inside)
      have notHead (node : Nat) (inside : node ∈ nodes.reverse) : node ≠ list.head :=
        ne_of_mem_of_not_mem (List.mem_reverse.mp inside) headApart
      have notTail (node : Nat) (inside : node ∈ nodes.reverse) : node ≠ list.tail :=
        ne_of_mem_of_not_mem (List.mem_reverse.mp inside) tailApart
      have chain : Lib.DoublyLinked (Function.update middle.next list.head (some list.tail))
          (Function.update middle.prev list.tail (some list.head)) nodes.reverse := turned.of_same
        (fun node inside => Function.update_of_ne (notHead node inside) _ _)
        fun node inside => Function.update_of_ne (notTail node inside) _ _
      have between : Lib.Between ((middle.relink list.head closing).relink opening list.tail).next
          ((middle.relink list.head closing).relink opening list.tail).prev list.head list.tail ([] ++ nodes.reverse ++ []) := by
        refine around.paste chain (List.nodup_reverse.mpr holds.nodup_nodes) fresh (List.nil_append [list.head]).symm
          (List.nil_append [list.tail]) (show nodes.reverse = closing :: front.reverse by rw [closes, List.reverse_concat])
          (show nodes.reverse = inner.reverse ++ [opening] by rw [opens, List.reverse_cons]) ?_ (Function.update_self _ _ _)
          (fun other one two => ?_) (Function.update_self _ _ _) ?_ fun other one two => ?_
        · exact (Function.update_of_ne headOpening _ _).trans (Function.update_self _ _ _)
        · exact (Function.update_of_ne two _ _).trans
            ((Function.update_of_ne one _ _).trans (Function.update_of_ne one _ _).symm)
        · exact (Function.update_of_ne tailClosing.symm _ _).trans (Function.update_self _ _ _)
        · exact (Function.update_of_ne one _ _).trans
            ((Function.update_of_ne two _ _).trans (Function.update_of_ne one _ _).symm)
      rw [List.nil_append, List.append_nil] at between
      exact between
    · exact (Function.update_of_ne different _ _).trans ((Function.update_of_ne headClosing _ _).trans first)
    · exact (Function.update_of_ne tailOpening _ _).trans ((Function.update_of_ne different.symm _ _).trans last)

end ListElems.Holds

end MockOS.Fs
