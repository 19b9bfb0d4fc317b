import Mathlib.Data.List.Chain
import Mathlib.Data.List.Nodup
import Mathlib.Tactic.Common

namespace MockOS.Lib

variable {A : Type*} {le : A → A → Bool} {first second rest merged whole chosen : List A} {count : Nat} {a b : A}

theorem pair_sublist_or (one : a ∈ whole) (two : b ∈ whole) (different : a ≠ b) :
    [a, b].Sublist whole ∨ [b, a].Sublist whole := by
  induction whole with
  | nil => cases one
  | cons x xs ih =>
      rcases List.mem_cons.mp one with rfl | behind
      · have inside := (List.mem_cons.mp two).resolve_left different.symm
        exact .inl ((List.singleton_sublist.mpr inside).cons_cons _)
      · rcases List.mem_cons.mp two with rfl | alsoBehind
        · exact .inr ((List.singleton_sublist.mpr behind).cons_cons _)
        · exact (ih behind alsoBehind).imp (fun part => part.cons _) fun part => part.cons _

theorem pair_sublist_asymm (nodup : whole.Nodup) (one : [a, b].Sublist whole) : ¬ [b, a].Sublist whole := by
  intro two
  induction whole with
  | nil => cases one
  | cons x xs ih =>
      obtain ⟨fresh, nodupRest⟩ := List.nodup_cons.mp nodup
      cases one with
      | cons _ one =>
          cases two with
          | cons _ two => exact ih nodupRest one two
          | cons_cons => exact fresh (one.subset (by simp))
      | cons_cons _ one =>
          cases two with
          | cons _ two => exact fresh (two.subset (by simp))
          | cons_cons => exact fresh (one.subset (by simp))

section Order

variable (trans : ∀ a b c, le a b → le b c → le a c) (total : ∀ a b, le a b || le b a)

include trans total

/-- A sorted permutation that keeps the order of the items that were in order is the result of a merge sort. -/
theorem eq_mergeSort {sorted : List A} (nodup : whole.Nodup) (perm : sorted.Perm whole) (ordered : sorted.Pairwise (le · ·))
    (stable : ∀ chosen : List A, chosen.Sublist whole → chosen.Pairwise (le · ·) → chosen.Sublist sorted) :
    sorted = whole.mergeSort le := by
  have nodupSort : (whole.mergeSort le).Nodup := (List.mergeSort_perm whole le).nodup_iff.mpr nodup
  have orderedSort : (whole.mergeSort le).Pairwise (le · ·) := List.pairwise_mergeSort trans total whole
  have pairsSort : (whole.mergeSort le).Pairwise fun a b => [a, b].Sublist (whole.mergeSort le) :=
    List.pairwise_iff_forall_sublist.mpr fun part => part
  suffices pairs : sorted.Pairwise fun a b => [a, b].Sublist (whole.mergeSort le) from
    List.Perm.eq_of_pairwise (fun a b _ _ one two => absurd two (pair_sublist_asymm nodupSort one)) pairs pairsSort
      (perm.trans (List.mergeSort_perm whole le).symm)
  refine List.pairwise_iff_forall_sublist.mpr fun {a b} part => ?_
  have inOrder := List.pairwise_iff_forall_sublist.mp ordered part
  have different : a ≠ b := by
    rintro rfl
    exact pair_sublist_asymm (perm.nodup_iff.mpr nodup) part part
  have one : a ∈ whole := perm.subset (part.subset (by simp))
  have two : b ∈ whole := perm.subset (part.subset (by simp))
  rcases pair_sublist_or one two different with before | behind
  · exact List.pair_sublist_mergeSort trans total inOrder before
  · refine (pair_sublist_or (List.mem_mergeSort.mpr one) (List.mem_mergeSort.mpr two) different).resolve_right fun back => ?_
    have sorted := stable [b, a] behind (List.pairwise_pair.mpr (List.pairwise_iff_forall_sublist.mp orderedSort back))
    exact pair_sublist_asymm (perm.nodup_iff.mpr nodup) part sorted

omit total in
/-- A merge keeps the order of the items that were in order. -/
theorem sublist_merge (ordered : first.Pairwise (le · ·)) (chosenOrdered : chosen.Pairwise (le · ·))
    (part : chosen.Sublist (first ++ second)) : chosen.Sublist (first.merge second le) := by
  induction first generalizing second chosen with
  | nil => simpa using part
  | cons x xs ihLeft =>
      induction second generalizing chosen with
      | nil => simpa using part
      | cons y ys ihRight =>
          obtain ⟨before, orderedLeft⟩ := List.pairwise_cons.mp ordered
          by_cases keeps : le x y = true
          · rw [List.cons_merge_cons_pos _ _ _ keeps]
            cases part with
            | cons _ part => exact (ihLeft orderedLeft chosenOrdered part).cons _
            | cons_cons _ part => exact (ihLeft orderedLeft (List.pairwise_cons.mp chosenOrdered).2 part).cons_cons _
          · rw [List.cons_merge_cons_neg _ _ _ keeps]
            obtain ⟨left, right, rfl, inLeft, inRight⟩ := List.sublist_append_iff.mp part
            cases inRight with
            | cons _ inRight => exact (ihRight chosenOrdered (inLeft.append inRight)).cons _
            | @cons_cons right _ _ inRight =>
                -- an item of the left run before `y` would make `x` at most `y`
                have empty : left = [] := by
                  by_contra some_item
                  obtain ⟨z, inside⟩ := List.exists_mem_of_ne_nil left some_item
                  have atMost := (List.pairwise_append.mp chosenOrdered).2.2 z inside y List.mem_cons_self
                  rcases List.mem_cons.mp (inLeft.subset inside) with rfl | behind
                  · exact keeps atMost
                  · exact keeps (trans _ _ _ (before z behind) atMost)
                subst empty
                have restOrdered := (List.pairwise_cons.mp chosenOrdered).2
                exact (ihRight restOrdered ((List.nil_sublist _).append inRight)).cons_cons _

end Order

/-- The number of neighbours that are out of order. -/
def descents (le : A → A → Bool) : List A → Nat
  | [] => 0
  | [_] => 0
  | x :: y :: rest => (if le x y then 0 else 1) + descents le (y :: rest)

theorem descents_of_sorted (sorted : whole.Pairwise (le · ·)) : descents le whole = 0 := by
  induction whole with
  | nil => rfl
  | cons x xs ih =>
      obtain ⟨before, rest⟩ := List.pairwise_cons.mp sorted
      cases xs with
      | nil => rfl
      | cons y ys => rw [descents, if_pos (before y List.mem_cons_self), ih rest]

theorem descents_le_length (le : A → A → Bool) (whole : List A) : descents le whole ≤ whole.length := by
  induction whole with
  | nil => exact Nat.le_refl 0
  | cons x xs ih =>
      cases xs with
      | nil => exact Nat.zero_le _
      | cons y ys =>
          rw [descents, List.length_cons]
          split <;> omega

theorem descents_append_le (le : A → A → Bool) (first second : List A) :
    descents le (first ++ second) ≤ descents le first + 1 + descents le second := by
  induction first with
  | nil => rw [List.nil_append]; omega
  | cons x xs ih =>
      cases xs with
      | nil =>
          cases second with
          | nil => simp [descents]
          | cons y ys =>
              rw [List.singleton_append, descents, descents]
              split <;> omega
      | cons y ys =>
          rw [List.cons_append, List.cons_append, descents, descents]
          rw [List.cons_append] at ih
          omega

/-- Where the last item of one list is above the first of the next there is one descent more. -/
theorem descents_append (falls : ∀ x ∈ first.getLast?, ∀ y ∈ second.head?, le x y = false) (one : first ≠ [])
    (two : second ≠ []) : descents le (first ++ second) = descents le first + 1 + descents le second := by
  induction first with
  | nil => exact absurd rfl one
  | cons x xs ih =>
      cases xs with
      | nil =>
          cases second with
          | nil => exact absurd rfl two
          | cons y ys =>
              have fall : le x y = false := falls x (by simp) y (by simp)
              rw [List.singleton_append, descents, descents, fall]
              simp
      | cons y ys =>
          rw [List.cons_append, List.cons_append, descents, descents]
          rw [List.cons_append] at ih
          rw [ih (by simpa using falls) (List.cons_ne_nil _ _)]
          omega

/-- A pass of the natural merge sort: the maximal runs are merged in pairs; the number is that of the runs it leaves. -/
inductive MergePass (le : A → A → Bool) : List A → List A → Nat → Prop
  | nil : MergePass le [] [] 0
  | single {run : List A} (nonempty : run ≠ []) (sorted : run.Pairwise (le · ·)) : MergePass le run run 1
  | merge {first second rest merged : List A} {count : Nat} (one : first ≠ []) (two : second ≠ [])
      (sortedFirst : first.Pairwise (le · ·)) (sortedSecond : second.Pairwise (le · ·))
      (fallsFirst : ∀ x ∈ first.getLast?, ∀ y ∈ second.head?, le x y = false)
      (fallsSecond : ∀ x ∈ second.getLast?, ∀ y ∈ rest.head?, le x y = false) (pass : MergePass le rest merged count) :
      MergePass le (first ++ second ++ rest) (first.merge second le ++ merged) (count + 1)

namespace MergePass

theorem perm (pass : MergePass le whole merged count) : merged.Perm whole := by
  induction pass with
  | nil => exact .nil
  | single => exact .refl _
  | merge _ _ _ _ _ _ _ ih => exact (List.merge_perm_append le).append ih

theorem count_eq_zero (pass : MergePass le whole merged count) (empty : whole = []) : count = 0 := by
  cases pass with
  | nil => rfl
  | single nonempty => exact absurd empty nonempty
  | merge one =>
      rw [List.append_eq_nil_iff, List.append_eq_nil_iff] at empty
      exact absurd empty.1.1 one

theorem eq_nil (pass : MergePass le whole merged count) (none : count = 0) : whole = [] ∧ merged = [] := by
  cases pass with
  | nil => exact ⟨rfl, rfl⟩
  | single => cases none
  | merge => cases none

/-- At least two runs go into each of the runs that a pass leaves, but for the last one. -/
theorem descents_before (pass : MergePass le whole merged count) : 2 * (count - 1) ≤ descents le whole := by
  induction pass with
  | nil => exact Nat.zero_le _
  | single => exact Nat.zero_le _
  | @merge first second rest merged count one two _ _ fallsFirst fallsSecond pass ih =>
      by_cases last : rest = []
      · rw [pass.count_eq_zero last]
        exact Nat.zero_le _
      · have falls : ∀ x ∈ (first ++ second).getLast?, ∀ y ∈ rest.head?, le x y = false := by
          rw [List.getLast?_append_of_ne_nil _ two]
          exact fallsSecond
        rw [descents_append falls (List.append_ne_nil_of_left_ne_nil one _) last, descents_append fallsFirst one two]
        omega

section Order

variable (trans : ∀ a b c, le a b → le b c → le a c) (total : ∀ a b, le a b || le b a)

include trans

theorem stable (pass : MergePass le whole merged count) (part : chosen.Sublist whole)
    (ordered : chosen.Pairwise (le · ·)) : chosen.Sublist merged := by
  induction pass generalizing chosen with
  | nil => exact part
  | single => exact part
  | merge _ _ sortedFirst _ _ _ _ ih =>
      obtain ⟨left, right, rfl, inLeft, inRight⟩ := List.sublist_append_iff.mp part
      obtain ⟨leftOrdered, rightOrdered, _⟩ := List.pairwise_append.mp ordered
      exact (sublist_merge trans sortedFirst leftOrdered inLeft).append (ih inRight rightOrdered)

include total

theorem sorted (pass : MergePass le whole merged count) (few : count ≤ 1) : merged.Pairwise (le · ·) := by
  cases pass with
  | nil => exact .nil
  | single _ sorted => exact sorted
  | @merge _ _ _ _ count _ _ sortedFirst sortedSecond _ _ pass =>
      rw [(pass.eq_nil (by omega)).2, List.append_nil]
      exact List.pairwise_merge trans total _ _ sortedFirst sortedSecond

theorem descents_after (pass : MergePass le whole merged count) : descents le merged ≤ count - 1 := by
  induction pass with
  | nil => exact Nat.le_refl 0
  | single _ sorted => rw [descents_of_sorted sorted]
  | @merge first second rest merged count _ _ sortedFirst sortedSecond _ _ pass ih =>
      have run := descents_of_sorted (List.pairwise_merge trans total _ _ sortedFirst sortedSecond)
      by_cases none : count = 0
      · rw [(pass.eq_nil none).2, List.append_nil, run]
        exact Nat.zero_le _
      · have more := descents_append_le le (first.merge second le) merged
        omega

end Order

end MergePass

end MockOS.Lib
