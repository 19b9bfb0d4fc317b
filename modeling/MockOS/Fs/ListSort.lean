import MockOS.Fs.ListOperations
import Mathlib.Data.Nat.Log

namespace MockOS.Fs

open KernelList

variable {less : ListLessFunc} {elems : ListElems} {list : KernelList} {elem : Nat}
  {nodes before after part first second rest : List Nat}

/-- Two elements are in nondecreasing order when the second is not less than the first. -/
def ListLessFunc.nondecreasing (less : ListLessFunc) (one two : Nat) : Bool := !less two one

theorem KernelList.mem_elements_of_perm (perm : before.Perm after) :
    elem ∈ list.elements before ↔ elem ∈ list.elements after := by
  simp [elements, perm.mem_iff]

namespace ListElems.Holds

variable {fuel : Nat}

theorem run_listPrev_behind (holds : elems.Holds list (before ++ elem :: after)) :
    run (listPrev (some (list.place after))) elems = .ok (some elem, elems) := by
  rw [List.append_cons] at holds
  rw [holds.run_listPrev, List.getLastD_concat]

/-- The loop of `is_sorted` compares each element with the one before it. -/
theorem run_sortedFrom (less : ListLessFunc) (holds : elems.Holds list (before ++ elem :: part ++ after)) (enough : part.length < fuel) :
    run (sortedFrom less (some (list.place after)) fuel (some elem)) elems =
      .ok (decide (List.IsChain (less.nondecreasing · ·) (elem :: part)), elems) := by
  induction part generalizing before elem fuel with
  | nil =>
      cases fuel with
      | zero => exact absurd enough (Nat.not_lt_zero _)
      | succ fuel =>
          have here : elems.Holds list (before ++ elem :: after) := by simpa using holds
          rw [sortedFrom, run_bind_ok here.run_listNext, if_pos rfl, run_pure]
          simp
  | cons node part ih =>
      cases fuel with
      | zero => exact absurd enough (Nat.not_lt_zero _)
      | succ fuel =>
          have whole : before ++ elem :: node :: part ++ after = before ++ elem :: (node :: part ++ after) := by simp
          have onward : before ++ elem :: node :: part ++ after = (before ++ [elem]) ++ node :: part ++ after := by simp
          have apart : some (list.place (node :: part ++ after)) ≠ some (list.place after) := fun same =>
            List.cons_ne_nil _ _ ((onward ▸ holds).place_eq_iff.mp (Option.some.inj same))
          have ahead := (whole ▸ holds).run_listNext
          have back := (whole ▸ holds).run_listPrev_behind
          rw [sortedFrom, run_bind_ok ahead, if_neg apart, run_bind_ok back]
          change run (callLess less (some node) (some elem) >>= _) elems = _
          rw [run_bind_ok (run_callLess less)]
          cases falls : less node elem with
          | true => simp [run_pure, ListLessFunc.nondecreasing, falls]
          | false =>
              have onSorted := ih (onward ▸ holds) (Nat.lt_of_succ_lt_succ enough)
              change run (sortedFrom less _ fuel (some node)) elems = _
              rw [onSorted]
              simp [ListLessFunc.nondecreasing, falls]

/-- `is_sorted` of a part of a list. -/
theorem run_isSorted (less : ListLessFunc) (holds : elems.Holds list (before ++ part ++ after)) (enough : part.length ≤ fuel) :
    run (isSorted fuel less (some (list.place (part ++ after))) (some (list.place after))) elems =
      .ok (decide (List.IsChain (less.nondecreasing · ·) part), elems) := by
  cases part with
  | nil =>
      rw [isSorted, List.nil_append, if_pos rfl, run_pure]
      simp
  | cons elem part =>
      have apart : some (list.place (elem :: part ++ after)) ≠ some (list.place after) := fun same =>
        List.cons_ne_nil _ _ (holds.place_eq_iff.mp (Option.some.inj same))
      rw [isSorted, if_neg apart]
      exact holds.run_sortedFrom less enough

/-- The loop of `find_end_of_run` stops at the first element that is less than the one before it. -/
theorem run_runFrom (less : ListLessFunc) (holds : elems.Holds list (before ++ elem :: nodes)) (enough : nodes.length < fuel) :
    ∃ part after, nodes = part ++ after ∧ List.IsChain (less.nondecreasing · ·) (elem :: part) ∧
      (∀ x ∈ (elem :: part).getLast?, ∀ y ∈ after.head?, less.nondecreasing x y = false) ∧
      run (runFrom less (listEnd list) fuel (some elem)) elems = .ok (some (list.place after), elems) := by
  induction nodes generalizing before elem fuel with
  | nil =>
      cases fuel with
      | zero => exact absurd enough (Nat.not_lt_zero _)
      | succ fuel =>
          refine ⟨[], [], rfl, by simp, by simp, ?_⟩
          rw [runFrom, run_bind_ok holds.run_listNext, if_pos (show some (list.place []) = listEnd list from rfl), run_pure]
  | cons node nodes ih =>
      cases fuel with
      | zero => exact absurd enough (Nat.not_lt_zero _)
      | succ fuel =>
          have onward : before ++ elem :: node :: nodes = (before ++ [elem]) ++ (node :: nodes) := by simp
          have apart : some (list.place (node :: nodes)) ≠ listEnd list := fun same =>
            List.cons_ne_nil _ _ ((onward ▸ holds).place_eq_listEnd_iff.mp same)
          rw [runFrom, run_bind_ok holds.run_listNext, if_neg apart, run_bind_ok holds.run_listPrev_behind]
          change ∃ part after, _ ∧ _ ∧ _ ∧ run (callLess less (some node) (some elem) >>= _) elems = _
          rw [run_bind_ok (run_callLess less)]
          cases falls : less node elem with
          | true => exact ⟨[], node :: nodes, rfl, by simp, by simp [ListLessFunc.nondecreasing, falls], run_pure _⟩
          | false =>
              obtain ⟨part, after, rfl, chain, fall, ran⟩ := ih (onward ▸ holds) (Nat.lt_of_succ_lt_succ enough)
              refine ⟨node :: part, after, rfl, ?_, ?_, ran⟩
              · simpa [ListLessFunc.nondecreasing, falls] using chain
              · rwa [List.getLast?_cons_cons]

/-- `find_end_of_run` finds a run that cannot be made longer. -/
theorem run_findEndOfRun (less : ListLessFunc) (holds : elems.Holds list (before ++ nodes)) (some_node : nodes ≠ []) (enough : nodes.length ≤ fuel) :
    ∃ part after, nodes = part ++ after ∧ part ≠ [] ∧ List.IsChain (less.nondecreasing · ·) part ∧
      (∀ x ∈ part.getLast?, ∀ y ∈ after.head?, less.nondecreasing x y = false) ∧
      run (findEndOfRun fuel less (some (list.place nodes)) (listEnd list)) elems =
        .ok (some (list.place after), elems) := by
  obtain ⟨elem, nodes, rfl⟩ := List.exists_cons_of_ne_nil some_node
  obtain ⟨part, after, rfl, chain, fall, ran⟩ := holds.run_runFrom less enough
  have apart : decide (some (list.place (elem :: (part ++ after))) ≠ listEnd list) = true := decide_eq_true fun same =>
    List.cons_ne_nil _ _ (holds.place_eq_listEnd_iff.mp same)
  refine ⟨elem :: part, after, rfl, List.cons_ne_nil _ _, chain, fall, ?_⟩
  rw [findEndOfRun, run_bind_ok (run_assert (rfl : (some (list.place (elem :: (part ++ after)))).isSome = true)),
    run_bind_ok (run_assert (rfl : (listEnd list).isSome = true)), run_bind_ok (run_assert apart)]
  exact ran

/-- The loop of `inplace_merge` keeps the merge of what is left to merge behind what is merged. -/
theorem run_mergeFrom (less : ListLessFunc) (holds : elems.Holds list (before ++ (first ++ second) ++ after))
    (enough : first.length + second.length < fuel) :
    ∃ later, run (mergeFrom less (some (list.place after)) fuel (some (list.place (first ++ second ++ after)))
        (some (list.place (second ++ after)))) elems = .ok ((), later) ∧
      later.Holds list (before ++ first.merge second less.nondecreasing ++ after) ∧
      elems.SameOutside (· ∈ list.elements (before ++ (first ++ second) ++ after)) later := by
  induction fuel generalizing elems before first second with
  | zero => exact absurd enough (Nat.not_lt_zero _)
  | succ fuel ih =>
      have noFirst : some (list.place (first ++ second ++ after)) = some (list.place (second ++ after)) ↔ first = [] := by
        have split : before ++ (first ++ second) ++ after = before ++ first ++ (second ++ after) := by simp
        rw [Option.some.injEq, List.append_assoc]
        exact (split ▸ holds).place_eq_iff
      have noSecond : some (list.place (second ++ after)) = some (list.place after) ↔ second = [] := by
        rw [← List.append_assoc] at holds
        rw [Option.some.injEq]
        exact holds.place_eq_iff
      by_cases finished : first = [] ∨ second = []
      · rw [mergeFrom, if_pos ((or_congr noFirst noSecond).mpr finished), run_pure]
        refine ⟨elems, rfl, ?_, .refl _ _⟩
        rcases finished with rfl | rfl
        · simpa using holds
        · simpa using holds
      · rw [mergeFrom, if_neg fun stop => finished ((or_congr noFirst noSecond).mp stop)]
        rw [not_or] at finished
        obtain ⟨x, first, rfl⟩ := List.exists_cons_of_ne_nil finished.1
        obtain ⟨y, second, rfl⟩ := List.exists_cons_of_ne_nil finished.2
        change ∃ later, run (callLess less (some y) (some x) >>= _) elems = _ ∧ _
        rw [run_bind_ok (run_callLess less)]
        rw [List.length_cons, List.length_cons] at enough
        cases falls : less y x with
        | true =>
            -- `y` goes before `x`
            have whole : before ++ (x :: first ++ y :: second) ++ after =
              before ++ x :: first ++ [y] ++ (second ++ after) := by simp
            have splice := whole ▸ holds
            obtain ⟨middle, spliced, middleHolds, sameMiddle⟩ := splice.run_listSplice_within
              (show before ++ x :: first ++ (second ++ after) = before ++ (x :: first ++ (second ++ after)) by simp)
            have onward : before ++ [y] ++ (x :: first ++ (second ++ after)) =
              (before ++ [y]) ++ (x :: first ++ second) ++ after := by simp
            obtain ⟨later, ran, laterHolds, sameLater⟩ := ih (onward ▸ middleHolds) (by rw [List.length_cons]; omega)
            have merged : (x :: first).merge (y :: second) less.nondecreasing =
                y :: (x :: first).merge second less.nondecreasing :=
              List.cons_merge_cons_neg _ _ _ (by rw [ListLessFunc.nondecreasing, falls]; exact Bool.false_ne_true)
            refine ⟨later, ?_, ?_, ?_⟩
            · rw [List.append_assoc _ [y]] at splice
              rw [if_pos rfl]
              change run (listNext (some y) >>= _) elems = _
              rw [run_bind_ok splice.run_listNext, run_bind_ok splice.run_listPrev_behind]
              exact (run_bind_ok spliced).trans ran
            · rw [merged]
              simpa using laterHolds
            · refine (whole ▸ sameMiddle).trans (sameLater.mono fun node inside => ?_)
              have moved : (y :: (x :: first ++ second)).Perm (x :: first ++ y :: second) := List.perm_middle.symm
              have perm := (moved.append_left before).append_right after
              rw [List.append_cons] at perm
              exact (mem_elements_of_perm perm).mp inside
        | false =>
            have onward : before ++ (x :: first ++ y :: second) ++ after =
              (before ++ [x]) ++ (first ++ y :: second) ++ after := by simp
            obtain ⟨later, ran, laterHolds, sameLater⟩ := ih (onward ▸ holds) (by rw [List.length_cons]; omega)
            have merged : (x :: first).merge (y :: second) less.nondecreasing =
                x :: first.merge (y :: second) less.nondecreasing :=
              List.cons_merge_cons_pos _ _ _ (by rw [ListLessFunc.nondecreasing, falls]; rfl)
            refine ⟨later, ?_, ?_, onward ▸ sameLater⟩
            · have here : elems.Holds list (before ++ x :: (first ++ y :: second ++ after)) := by simpa using holds
              rw [if_neg Bool.false_ne_true]
              change run (listNext (some x) >>= _) elems = _
              rw [run_bind_ok here.run_listNext]
              exact ran
            · rw [merged]
              simpa using laterHolds

/-- `inplace_merge` merges two neighbouring runs. -/
theorem run_inplaceMerge (holds : elems.Holds list (before ++ (first ++ second) ++ after))
    (sortedFirst : List.IsChain (less.nondecreasing · ·) first) (sortedSecond : List.IsChain (less.nondecreasing · ·) second)
    (enough : first.length + second.length < fuel) :
    ∃ later, run (inplaceMerge fuel less (some (list.place (first ++ second ++ after))) (some (list.place (second ++ after)))
        (some (list.place after))) elems = .ok ((), later) ∧
      later.Holds list (before ++ first.merge second less.nondecreasing ++ after) ∧
      elems.SameOutside (· ∈ list.elements (before ++ (first ++ second) ++ after)) later := by
  obtain ⟨later, ran, laterHolds, same⟩ := holds.run_mergeFrom less enough
  refine ⟨later, ?_, laterHolds, same⟩
  have firstHolds : elems.Holds list (before ++ first ++ (second ++ after)) := by simpa using holds
  have secondHolds : elems.Holds list (before ++ first ++ second ++ after) := by simpa using holds
  have checkedFirst := firstHolds.run_isSorted less (show first.length ≤ fuel by omega)
  have checkedSecond := secondHolds.run_isSorted less (show second.length ≤ fuel by omega)
  rw [inplaceMerge, run_bind_ok (run_assert (Option.isSome_some)), run_bind_ok (run_assert Option.isSome_some),
    run_bind_ok (run_assert Option.isSome_some), List.append_assoc first, run_bind_ok checkedFirst,
    run_bind_ok (run_assert (decide_eq_true sortedFirst)), run_bind_ok checkedSecond,
    run_bind_ok (run_assert (decide_eq_true sortedSecond)), ← List.append_assoc]
  exact ran

section Order

variable (trans : ∀ a b c, less.nondecreasing a b → less.nondecreasing b c → less.nondecreasing a c)

include trans

theorem pairwise_of_isChain (chain : List.IsChain (less.nondecreasing · ·) nodes) : nodes.Pairwise (less.nondecreasing · ·) :=
  haveI : IsTrans Nat (less.nondecreasing · ·) := ⟨trans⟩
  chain.pairwise

/-- A pass of `list_sort` merges the runs of the list in pairs. -/
theorem run_sortPass {inner : Nat} (outputRunCnt : Nat) (holds : elems.Holds list (before ++ nodes))
    (enoughInner : nodes.length < inner) (enough : nodes.length < fuel) :
    ∃ merged count later, Lib.MergePass less.nondecreasing nodes merged count ∧
      run (sortPass inner less list outputRunCnt fuel (some (list.place nodes))) elems = .ok (outputRunCnt + count, later) ∧
      later.Holds list (before ++ merged) ∧ elems.SameOutside (· ∈ list.elements (before ++ nodes)) later := by
  induction fuel generalizing elems before nodes outputRunCnt with
  | zero => exact absurd enough (Nat.not_lt_zero _)
  | succ fuel ih =>
      by_cases none : nodes = []
      · subst none
        refine ⟨[], 0, elems, .nil, ?_, holds, .refl _ _⟩
        rw [sortPass, if_pos (holds.place_eq_listEnd_iff.mpr rfl), run_pure]
        rfl
      · obtain ⟨first, behind, rfl, firstSome, firstChain, firstFalls, foundFirst⟩ :=
          holds.run_findEndOfRun less none (Nat.le_of_lt enoughInner)
        rw [sortPass, if_neg fun stop => none (holds.place_eq_listEnd_iff.mp stop), run_bind_ok foundFirst]
        have behindHolds : elems.Holds list (before ++ first ++ behind) := by rwa [List.append_assoc]
        rw [List.length_append] at enough enoughInner
        have firstLength := List.length_pos_iff.mpr firstSome
        by_cases last : behind = []
        · subst last
          rw [if_pos (behindHolds.place_eq_listEnd_iff.mpr rfl), run_pure, List.append_nil]
          rw [List.append_nil] at holds
          exact ⟨first, 1, elems, .single firstSome (pairwise_of_isChain trans firstChain), rfl, holds, .refl _ _⟩
        · rw [if_neg fun stop => last (behindHolds.place_eq_listEnd_iff.mp stop)]
          obtain ⟨second, rest, rfl, secondSome, secondChain, secondFalls, foundSecond⟩ :=
            behindHolds.run_findEndOfRun less last (show behind.length ≤ inner by omega)
          rw [List.length_append] at enough enoughInner
          have runs : elems.Holds list (before ++ (first ++ second) ++ rest) := by simpa using holds
          obtain ⟨middle, merged, middleHolds, sameMiddle⟩ :=
            runs.run_inplaceMerge firstChain secondChain (show _ < inner by omega)
          obtain ⟨sorted, count, later, pass, ran, laterHolds, sameLater⟩ :=
            ih (outputRunCnt + 1) middleHolds (by omega) (by omega)
          have fallsFirst : ∀ x ∈ first.getLast?, ∀ y ∈ second.head?, less.nondecreasing x y = false := by
            rwa [List.head?_append_of_ne_nil _ secondSome] at firstFalls
          refine ⟨first.merge second less.nondecreasing ++ sorted, count + 1, later, ?_, ?_, ?_, ?_⟩
          · rw [← List.append_assoc]
            exact .merge firstSome secondSome (pairwise_of_isChain trans firstChain) (pairwise_of_isChain trans secondChain) fallsFirst secondFalls pass
          · rw [run_bind_ok foundSecond, ← List.append_assoc, run_bind_ok merged, ran, Nat.add_assoc, Nat.add_comm 1]
          · rwa [← List.append_assoc]
          · rw [← List.append_assoc first, ← List.append_assoc before]
            refine sameMiddle.trans (sameLater.mono fun node inside => ?_)
            have perm : (first.merge second less.nondecreasing).Perm (first ++ second) := List.merge_perm_append _
            exact (mem_elements_of_perm ((perm.append_left before).append_right rest)).mp inside

variable (total : ∀ a b, less.nondecreasing a b || less.nondecreasing b a)

include total

/-- Each pass of `list_sort` halves the number of places where the list is out of order. -/
theorem run_sortPasses {inner : Nat} (holds : elems.Holds list nodes) (enoughInner : nodes.length < inner)
    (enough : Nat.log 2 (Lib.descents less.nondecreasing nodes) < fuel) :
    ∃ sorted later, run (sortPasses inner less list fuel) elems = .ok ((), later) ∧ later.Holds list sorted ∧
      sorted.Perm nodes ∧ sorted.Pairwise (less.nondecreasing · ·) ∧
      (∀ chosen : List Nat, chosen.Sublist nodes → chosen.Pairwise (less.nondecreasing · ·) → chosen.Sublist sorted) ∧
      elems.SameOutside (· ∈ list.elements nodes) later := by
  induction fuel generalizing elems nodes with
  | zero => exact absurd enough (Nat.not_lt_zero _)
  | succ fuel ih =>
      obtain ⟨merged, count, middle, pass, ran, middleHolds, sameMiddle⟩ :=
        run_sortPass trans 0 (show elems.Holds list ([] ++ nodes) from holds) enoughInner enoughInner
      rw [Nat.zero_add] at ran
      rw [List.nil_append] at middleHolds
      rw [sortPasses, run_bind_ok holds.run_listBegin, run_bind_ok ran]
      by_cases many : 1 < count
      · have before := pass.descents_before
        have after := pass.descents_after trans total
        have halved : Lib.descents less.nondecreasing merged ≤ Lib.descents less.nondecreasing nodes / 2 := by omega
        have fewer : Nat.log 2 (Lib.descents less.nondecreasing merged) < fuel := by
          have smaller := Nat.log_mono_right (b := 2) halved
          have positive := Nat.log_pos Nat.one_lt_two (show 2 ≤ Lib.descents less.nondecreasing nodes by omega)
          rw [Nat.log_div_base] at smaller
          omega
        obtain ⟨sorted, later, ranLater, laterHolds, perm, inOrder, stable, sameLater⟩ :=
          ih middleHolds (pass.perm.length_eq ▸ enoughInner) fewer
        refine ⟨sorted, later, ?_, laterHolds, perm.trans pass.perm, inOrder, fun chosen part ordered =>
          stable chosen (pass.stable trans part ordered) ordered, sameMiddle.trans (sameLater.mono fun node inside => ?_)⟩
        · rwa [if_pos many]
        · exact (mem_elements_of_perm pass.perm).mp inside
      · refine ⟨merged, middle, ?_, middleHolds, pass.perm, pass.sorted trans total (Nat.le_of_not_lt many), fun chosen part =>
          pass.stable trans part, sameMiddle⟩
        rw [if_neg many, run_pure]

/-- `list_sort` leaves what a merge sort computes. -/
theorem run_listSort (holds : elems.Holds list nodes) (enough : nodes.length < fuel) :
    ∃ later, run (listSort fuel less list) elems = .ok ((), later) ∧ later.Holds list (nodes.mergeSort less.nondecreasing) ∧
      elems.SameOutside (· ∈ list.elements nodes) later := by
  have few := (Nat.log_le_self 2 _).trans (Lib.descents_le_length less.nondecreasing nodes)
  obtain ⟨sorted, later, ran, laterHolds, perm, inOrder, stable, same⟩ := holds.run_sortPasses trans total enough
    (Nat.lt_of_le_of_lt few enough)
  have merge := Lib.eq_mergeSort trans total holds.nodup_nodes perm inOrder stable
  refine ⟨later, ?_, merge ▸ laterHolds, same⟩
  have whole : later.Holds list ([] ++ sorted ++ []) := by simpa using laterHolds
  have checked := whole.run_isSorted less (show sorted.length ≤ fuel by rw [perm.length_eq]; exact Nat.le_of_lt enough)
  rw [List.append_nil] at checked
  rw [listSort, run_bind_ok ran, run_bind_ok laterHolds.run_listBegin]
  exact (run_bind_ok checked).trans (run_assert (decide_eq_true inOrder.isChain))

/-- `list_sort` sorts stably in place, in a number of passes that is logarithmic in the length of the list. -/
theorem sortPasses_logarithmic {inner : Nat} (holds : elems.Holds list nodes) (enough : nodes.length < inner) :
    ∃ later, run (sortPasses inner less list (Nat.log 2 nodes.length + 1)) elems = .ok ((), later) ∧
      later.Holds list (nodes.mergeSort less.nondecreasing) ∧ elems.SameOutside (· ∈ list.elements nodes) later := by
  have few := Nat.log_mono_right (b := 2) (Lib.descents_le_length less.nondecreasing nodes)
  obtain ⟨sorted, later, ran, laterHolds, perm, inOrder, stable, same⟩ :=
    holds.run_sortPasses trans total enough (Nat.lt_succ_of_le few)
  have merge := Lib.eq_mergeSort trans total holds.nodup_nodes perm inOrder stable
  exact ⟨later, ran, merge ▸ laterHolds, same⟩

end Order

theorem sortPasses_logarithmic_small : ∃ later,
    run (sortPasses 3 (fun a b => decide (b < a)) ⟨0, 1⟩ (Nat.log 2 2 + 1))
        ⟨fun node => [none, some 3, some 0, some 2].getD node none, fun node => [some 2, none, some 3, some 1].getD node none, 0⟩ =
      .ok ((), later) ∧ later.Holds ⟨0, 1⟩ ([2, 3].mergeSort fun a b => !decide (a < b)) := by
  have holds : ListElems.Holds ⟨fun node => [none, some 3, some 0, some 2].getD node none,
      fun node => [some 2, none, some 3, some 1].getD node none, 0⟩ ⟨0, 1⟩ [2, 3] :=
    ⟨⟨by simp [Lib.DoublyLinked], by simp⟩, rfl, rfl⟩
  have trans (a b c : Nat) : (!decide (a < b)) = true → (!decide (b < c)) = true → (!decide (a < c)) = true := by
    simp only [Bool.not_eq_true', decide_eq_false_iff_not]
    omega
  have total (a b : Nat) : (!decide (a < b) || !decide (b < a)) = true := by
    simp only [Bool.or_eq_true, Bool.not_eq_true', decide_eq_false_iff_not]
    omega
  obtain ⟨later, ran, sorted, _⟩ := sortPasses_logarithmic trans total holds (show 2 < 3 by decide)
  exact ⟨later, ran, sorted⟩

end ListElems.Holds

end MockOS.Fs
