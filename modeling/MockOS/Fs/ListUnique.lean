import MockOS.Fs.ListReverse
import MockOS.Fs.ListScans
import Mathlib.Data.List.Destutter

namespace MockOS.Fs

open KernelList

variable {less : ListLessFunc} {elems : ListElems} {list : KernelList} {duplicates : Option KernelList} {elem : Nat}
  {nodes before after dups : List Nat} {fuel : Nat}

/-- Two elements are equal when neither is less than the other. -/
def ListLessFunc.Different (less : ListLessFunc) (one two : Nat) : Prop := less one two = true ∨ less two one = true

instance (less : ListLessFunc) : DecidableRel less.Different := fun one two =>
  inferInstanceAs (Decidable (less one two = true ∨ less two one = true))

/-- The elements behind `elem` that are equal to the one that stays before them. -/
def ListLessFunc.repeats (less : ListLessFunc) : Nat → List Nat → List Nat
  | _, [] => []
  | elem, node :: nodes => if less.Different elem node then repeats less node nodes else node :: repeats less elem nodes

/-- What goes are the nodes that do not stay. -/
theorem ListLessFunc.repeats_eq_filter (less : ListLessFunc) (nodup : (elem :: nodes).Nodup) :
    less.repeats elem nodes = nodes.filter (· ∉ nodes.destutter' less.Different elem) := by
  induction nodes generalizing elem with
  | nil => rfl
  | cons node nodes ih =>
      obtain ⟨apart, nodupRest⟩ := List.nodup_cons.mp nodup
      have nodeApart := (List.nodup_cons.mp nodupRest).1
      by_cases different : less.Different elem node
      · rw [repeats, if_pos different, List.destutter'_cons_pos _ different, ih nodupRest]
        have stays := nodes.mem_destutter' less.Different node
        rw [List.filter_cons_of_neg (by simp [stays])]
        refine List.filter_congr fun other inside => ?_
        have notElem : other ≠ elem := fun same => apart (same ▸ List.mem_cons_of_mem _ inside)
        simp [notElem]
      · have goes : node ∉ nodes.destutter' less.Different elem := fun inside => by
          rcases List.mem_cons.mp ((nodes.destutter'_sublist less.Different elem).subset inside) with rfl | behind
          · exact apart List.mem_cons_self
          · exact nodeApart behind
        have nodupLeft : (elem :: nodes).Nodup :=
          List.nodup_cons.mpr ⟨fun inside => apart (List.mem_cons_of_mem _ inside), nodupRest.of_cons⟩
        rw [repeats, if_neg different, List.destutter'_cons_neg _ different, ih nodupLeft,
          List.filter_cons_of_pos (by simpa using goes)]

/-- The list of duplicates, if there is one. -/
structure ListElems.Duplicates (elems : ListElems) (list : KernelList) (nodes : List Nat) (duplicates : Option KernelList)
    (dups : List Nat) : Prop where
  holds : ∀ other ∈ duplicates, elems.Holds other dups
  apart : ∀ other ∈ duplicates, ∀ node ∈ other.elements dups, node ∉ list.elements nodes

namespace ListElems.Holds

theorem run_equalCheck (less : ListLessFunc) (elem node : Nat) (elems : ListElems) :
    run (do if ← callLess less (some elem) (some node) then pure false else pure (!(← callLess less (some node) (some elem))))
      elems = .ok (decide (¬ less.Different elem node), elems) := by
  rw [run_bind_ok (run_callLess less)]
  cases one : less elem node with
  | true => simp [run_pure, ListLessFunc.Different, one]
  | false =>
      rw [if_neg Bool.false_ne_true, run_bind_ok (run_callLess less), run_pure]
      simp [ListLessFunc.Different, one]

theorem mem_elements_concat {node : Nat} : elem ∈ list.elements (dups ++ [node]) ↔ elem = node ∨ elem ∈ list.elements dups := by
  have split : elem ∈ list.elements (dups ++ [node] ++ []) ↔ elem ∈ [node] ∨ elem ∈ list.elements (dups ++ []) := mem_elements
  rwa [List.append_nil, List.append_nil, List.mem_singleton] at split

/-- A removed element goes to the end of the list of duplicates. -/
theorem run_pushDuplicate {node : Nat} (holds : elems.Holds list nodes) (given : elems.Duplicates list nodes duplicates dups)
    (fresh : node ∉ list.elements nodes) (freshDups : ∀ other ∈ duplicates, node ∉ other.elements dups) :
    ∃ later, run (pushDuplicate duplicates (some node)) elems = .ok ((), later) ∧ later.Holds list nodes ∧
      later.Duplicates list nodes duplicates (dups ++ [node]) ∧
      elems.SameOutside (fun other => other = node ∨ ∃ list ∈ duplicates, other ∈ list.elements dups) later := by
  cases duplicates with
  | none =>
      exact ⟨elems, rfl, holds, ⟨fun _ member => (Option.not_mem_none _ member).elim,
        fun _ member => (Option.not_mem_none _ member).elim⟩, .refl _ _⟩
  | some other =>
      obtain ⟨later, ran, laterHolds, same⟩ := (given.holds other rfl).run_listPushBack (freshDups other rfl)
      have still := holds.sameOutside same fun node' member inside => by
        rcases inside with rfl | inside
        · exact fresh member
        · exact given.apart other rfl node' inside member
      refine ⟨later, ran, still, ⟨?_, ?_⟩, same.mono fun node' inside => inside.imp id fun inside => ⟨other, rfl, inside⟩⟩
      · intro other' given'
        cases given'
        exact laterHolds
      · intro other' given' node' inside
        cases given'
        rcases mem_elements_concat.mp inside with rfl | inside
        · exact fresh
        · exact given.apart other rfl node' inside

/-- The loop of `list_unique` removes what is equal to the last element that stays. -/
theorem run_uniqueFrom (less : ListLessFunc) (holds : elems.Holds list (before ++ elem :: nodes))
    (given : elems.Duplicates list (before ++ elem :: nodes) duplicates dups) (enough : nodes.length < fuel) :
    ∃ later, run (uniqueFrom less list duplicates fuel (some elem)) elems = .ok ((), later) ∧
      later.Holds list (before ++ nodes.destutter' less.Different elem) ∧
      later.Duplicates list (before ++ nodes.destutter' less.Different elem) duplicates (dups ++ less.repeats elem nodes) ∧
      elems.SameOutside (fun node => node ∈ list.elements (before ++ elem :: nodes) ∨
        ∃ other ∈ duplicates, node ∈ other.elements dups) later := by
  induction nodes generalizing elems before elem dups fuel with
  | nil =>
      cases fuel with
      | zero => exact absurd enough (Nat.not_lt_zero _)
      | succ fuel =>
          refine ⟨elems, ?_, holds, by rwa [ListLessFunc.repeats, List.append_nil], .refl _ _⟩
          rw [uniqueFrom, run_bind_ok holds.run_listNext, if_pos (show some (list.place []) = listEnd list from rfl), run_pure]
  | cons node nodes ih =>
      cases fuel with
      | zero => exact absurd enough (Nat.not_lt_zero _)
      | succ fuel =>
          have onward := holds
          rw [List.append_cons] at onward
          rw [uniqueFrom, run_bind_ok holds.run_listNext,
            if_neg fun stop => List.cons_ne_nil _ _ (onward.place_eq_listEnd_iff.mp stop)]
          rw [show list.place (node :: nodes) = node from rfl, run_bind_ok (run_equalCheck less elem node elems)]
          by_cases different : less.Different elem node
          · have stays : before ++ [elem] ++ node :: nodes = before ++ elem :: node :: nodes := by simp
            obtain ⟨later, ran, laterHolds, laterGiven, same⟩ := ih onward (by rwa [stays]) (Nat.lt_of_succ_lt_succ enough)
            rw [stays] at same
            refine ⟨later, ?_, ?_, ?_, same⟩
            · rw [decide_eq_false (not_not.mpr different), if_neg Bool.false_ne_true]
              exact ran
            · rw [List.destutter'_cons_pos _ different, List.append_cons]
              exact laterHolds
            · rw [List.destutter'_cons_pos _ different, List.append_cons, ListLessFunc.repeats, if_pos different]
              exact laterGiven
          · obtain ⟨middle, removed, middleHolds, sameMiddle⟩ := onward.run_listRemove_frame
            have stays : before ++ [elem] ++ node :: nodes = before ++ [elem] ++ [node] ++ nodes := by simp
            have nodeApart := (stays ▸ onward).parts.2 node (List.mem_singleton_self node)
            have within {other : Nat} : other ∈ list.elements (before ++ elem :: node :: nodes) ↔
                other = node ∨ other ∈ list.elements (before ++ elem :: nodes) := by
              have split : other ∈ list.elements (before ++ [elem] ++ [node] ++ nodes) ↔
                  other ∈ [node] ∨ other ∈ list.elements (before ++ [elem] ++ nodes) := mem_elements
              rwa [← stays, ← List.append_cons, ← List.append_cons, List.mem_singleton] at split
            rw [← List.append_cons] at middleHolds sameMiddle nodeApart
            have givenMiddle : middle.Duplicates list (before ++ elem :: nodes) duplicates dups :=
              ⟨fun other member => (given.holds other member).sameOutside sameMiddle fun node inside listed =>
                given.apart other member node inside (within.mpr (.inr listed)),
              fun other member node inside listed => given.apart other member node inside (within.mpr (.inr listed))⟩
            obtain ⟨_, pushed, pushedHolds, pushedGiven, samePushed⟩ :=
              middleHolds.run_pushDuplicate givenMiddle nodeApart fun other member inside =>
                given.apart other member node inside (within.mpr (.inl rfl))
            obtain ⟨later, ran, laterHolds, laterGiven, sameLater⟩ :=
              ih pushedHolds pushedGiven (Nat.lt_of_succ_lt_succ enough)
            refine ⟨later, ?_, ?_, ?_, ?_⟩
            · rw [decide_eq_true different, if_pos rfl, run_bind_ok removed, run_bind_ok pushed]
              exact ran
            · rw [List.destutter'_cons_neg _ different]
              exact laterHolds
            · rw [List.destutter'_cons_neg _ different, ListLessFunc.repeats, if_neg different, List.append_cons]
              exact laterGiven
            · refine ((sameMiddle.mono fun other inside => ?_).trans (samePushed.mono fun other inside => ?_)).trans
                (sameLater.mono fun other inside => ?_)
              · exact .inl (within.mpr (.inr inside))
              · exact inside.imp (fun same => within.mpr (.inl same)) id
              · rcases inside with inside | ⟨list', member, inside⟩
                · exact .inl (within.mpr (.inr inside))
                · rcases mem_elements_concat.mp inside with same | inside
                  · exact .inl (within.mpr (.inl same))
                  · exact .inr ⟨list', member, inside⟩

/-- `list_unique` keeps the first of equal neighbours and appends the others to the duplicates. -/
theorem run_listUnique (less : ListLessFunc) (holds : elems.Holds list nodes) (given : elems.Duplicates list nodes duplicates dups)
    (enough : nodes.length ≤ fuel) :
    ∃ later, run (listUnique fuel less list duplicates) elems = .ok ((), later) ∧
      later.Holds list (nodes.destutter less.Different) ∧
      later.Duplicates list (nodes.destutter less.Different) duplicates
        (dups ++ nodes.filter (· ∉ nodes.destutter less.Different)) ∧
      elems.SameOutside (fun node => node ∈ list.elements nodes ∨ ∃ other ∈ duplicates, node ∈ other.elements dups) later := by
  cases nodes with
  | nil =>
      refine ⟨elems, ?_, holds, by rwa [List.filter_nil, List.append_nil], .refl _ _⟩
      rw [listUnique, run_bind_ok holds.run_listEmpty, if_pos List.isEmpty_nil, run_pure]
  | cons elem nodes =>
      obtain ⟨later, ran, laterHolds, laterGiven, same⟩ :=
        run_uniqueFrom less (show elems.Holds list ([] ++ elem :: nodes) from holds) given enough
      have stays := nodes.mem_destutter' less.Different elem
      rw [List.destutter_cons', List.filter_cons_of_neg (by simp [stays]), ← less.repeats_eq_filter holds.nodup_nodes]
      refine ⟨later, ?_, laterHolds, laterGiven, same⟩
      rw [listUnique, run_bind_ok holds.run_listEmpty, List.isEmpty_cons, if_neg Bool.false_ne_true,
        run_bind_ok holds.run_listBegin]
      exact ran

end ListElems.Holds

end MockOS.Fs
