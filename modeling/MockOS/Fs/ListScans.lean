import MockOS.Fs.ListSort

namespace MockOS.Fs

open KernelList

variable {less : ListLessFunc} {elems : ListElems} {list : KernelList} {elem : Nat} {nodes before after : List Nat} {fuel : Nat}

namespace ListElems.Holds

/-- The loop of `list_size` counts the nodes that are left. -/
theorem run_countFrom (holds : elems.Holds list (before ++ nodes)) (count : Nat) (enough : nodes.length < fuel) :
    run (countFrom list count fuel (some (list.place nodes))) elems = .ok (count + nodes.length, elems) := by
  induction nodes generalizing before count fuel with
  | nil =>
      cases fuel with
      | zero => exact absurd enough (Nat.not_lt_zero _)
      | succ fuel =>
          rw [countFrom, if_pos (holds.place_eq_listEnd_iff.mpr rfl), run_pure]
          rfl
  | cons node nodes ih =>
      cases fuel with
      | zero => exact absurd enough (Nat.not_lt_zero _)
      | succ fuel =>
          rw [countFrom, if_neg fun stop => List.cons_ne_nil _ _ (holds.place_eq_listEnd_iff.mp stop)]
          change run (listNext (some node) >>= _) elems = _
          rw [run_bind_ok holds.run_listNext]
          rw [List.append_cons] at holds
          rw [ih holds (count + 1) (Nat.lt_of_succ_lt_succ enough), List.length_cons, Nat.add_assoc, Nat.add_comm 1]

theorem run_listSize (holds : elems.Holds list nodes) (enough : nodes.length < fuel) :
    run (listSize fuel list) elems = .ok (nodes.length, elems) := by
  rw [listSize, run_bind_ok holds.run_listBegin, run_countFrom (show elems.Holds list ([] ++ nodes) from holds) 0 enough,
    Nat.zero_add]

/-- The loop of `list_insert_ordered` stops where a merge with one element would put it. -/
theorem run_placeFrom (less : ListLessFunc) (elem : Nat) (holds : elems.Holds list (before ++ nodes)) (enough : nodes.length < fuel) :
    ∃ part rest, nodes = part ++ rest ∧ nodes.merge [elem] less.nondecreasing = part ++ elem :: rest ∧
      run (placeFrom less list (some elem) fuel (some (list.place nodes))) elems = .ok (some (list.place rest), elems) := by
  induction nodes generalizing before fuel with
  | nil =>
      cases fuel with
      | zero => exact absurd enough (Nat.not_lt_zero _)
      | succ fuel =>
          refine ⟨[], [], rfl, List.nil_merge _, ?_⟩
          rw [placeFrom, if_pos (holds.place_eq_listEnd_iff.mpr rfl), run_pure]
  | cons node nodes ih =>
      cases fuel with
      | zero => exact absurd enough (Nat.not_lt_zero _)
      | succ fuel =>
          rw [placeFrom, if_neg fun stop => List.cons_ne_nil _ _ (holds.place_eq_listEnd_iff.mp stop)]
          change ∃ part rest, _ ∧ _ ∧ run (callLess less (some elem) (some node) >>= _) elems = _
          rw [run_bind_ok (run_callLess less)]
          cases goesBefore : less elem node with
          | true =>
              refine ⟨[], node :: nodes, rfl, ?_, run_pure _⟩
              rw [List.cons_merge_cons_neg _ _ _ (by rw [ListLessFunc.nondecreasing, goesBefore]; exact Bool.false_ne_true)]
              simp
          | false =>
              have onward := holds
              rw [List.append_cons] at onward
              obtain ⟨part, rest, rfl, merged, ran⟩ := ih onward (Nat.lt_of_succ_lt_succ enough)
              refine ⟨node :: part, rest, rfl, ?_, ?_⟩
              · rw [List.cons_merge_cons_pos _ _ _ (by rw [ListLessFunc.nondecreasing, goesBefore]; rfl), merged]
                rfl
              · change run (listNext (some node) >>= _) elems = _
                rw [run_bind_ok holds.run_listNext, ran]

/-- `list_insert_ordered` merges a new element into a list. -/
theorem run_listInsertOrdered (less : ListLessFunc) (holds : elems.Holds list nodes) (fresh : elem ∉ list.elements nodes)
    (enough : nodes.length < fuel) :
    ∃ later, run (listInsertOrdered fuel less list (some elem)) elems = .ok ((), later) ∧
      later.Holds list (nodes.merge [elem] less.nondecreasing) ∧
      elems.SameOutside (fun node => node = elem ∨ node ∈ list.elements nodes) later := by
  obtain ⟨part, rest, rfl, merged, ran⟩ := run_placeFrom less elem (show elems.Holds list ([] ++ nodes) from holds) enough
  obtain ⟨inserted, insertedHolds⟩ := holds.run_listInsert fresh
  refine ⟨_, ?_, merged ▸ insertedHolds, .trans (.relink (.inr (getLastD_mem list part rest)) (.inl rfl))
    (.relink (.inl rfl) (.inr (place_mem list part rest)))⟩
  rw [listInsertOrdered, run_bind_ok (run_assert Option.isSome_some), run_bind_ok holds.run_listBegin, run_bind_ok ran, inserted]

/-- In a list that is in order the new element goes where a stable sort would put it. -/
theorem run_listInsertOrdered_sorted
    (trans : ∀ a b c, less.nondecreasing a b → less.nondecreasing b c → less.nondecreasing a c)
    (total : ∀ a b, less.nondecreasing a b || less.nondecreasing b a) (holds : elems.Holds list nodes)
    (sorted : nodes.Pairwise (less.nondecreasing · ·)) (fresh : elem ∉ list.elements nodes) (enough : nodes.length < fuel) :
    ∃ later, run (listInsertOrdered fuel less list (some elem)) elems = .ok ((), later) ∧
      later.Holds list ((nodes ++ [elem]).mergeSort less.nondecreasing) ∧
      elems.SameOutside (fun node => node = elem ∨ node ∈ list.elements nodes) later := by
  obtain ⟨later, ran, laterHolds, same⟩ := holds.run_listInsertOrdered less fresh enough
  have apart : elem ∉ nodes := fun inside => fresh (List.mem_append_left _ (List.mem_cons_of_mem _ inside))
  have nodup : (nodes ++ [elem]).Nodup :=
    List.nodup_append'.mpr ⟨holds.nodup_nodes, List.nodup_singleton elem, List.disjoint_singleton.mpr apart⟩
  have merge := Lib.eq_mergeSort trans total nodup (List.merge_perm_append _)
    (List.pairwise_merge trans total _ _ sorted (List.pairwise_singleton _ elem))
    fun chosen part ordered => Lib.sublist_merge trans sorted ordered part
  exact ⟨later, ran, merge ▸ laterHolds, same⟩

/-- The loop of `list_max` keeps the larger of two elements, and the first of equal ones. -/
theorem run_maxFrom (less : ListLessFunc) (max : Nat) (holds : elems.Holds list (before ++ nodes))
    (enough : nodes.length < fuel) : run (maxFrom less list fuel (some max) (some (list.place nodes))) elems =
      .ok (some (nodes.foldl (fun max e => if less max e then e else max) max), elems) := by
  induction nodes generalizing before max fuel with
  | nil =>
      cases fuel with
      | zero => exact absurd enough (Nat.not_lt_zero _)
      | succ fuel => rw [maxFrom, if_pos (holds.place_eq_listEnd_iff.mpr rfl), run_pure, List.foldl_nil]
  | cons node nodes ih =>
      cases fuel with
      | zero => exact absurd enough (Nat.not_lt_zero _)
      | succ fuel =>
          rw [maxFrom, if_neg fun stop => List.cons_ne_nil _ _ (holds.place_eq_listEnd_iff.mp stop)]
          change run (callLess less (some max) (some node) >>= _) elems = _
          rw [run_bind_ok (run_callLess less)]
          have next := holds.run_listNext
          rw [List.append_cons] at holds
          cases larger : less max node with
          | true =>
              change run (listNext (some node) >>= _) elems = _
              rw [run_bind_ok next, List.foldl_cons, larger]
              exact ih node holds (Nat.lt_of_succ_lt_succ enough)
          | false =>
              change run (listNext (some node) >>= _) elems = _
              rw [run_bind_ok next, List.foldl_cons, larger]
              exact ih max holds (Nat.lt_of_succ_lt_succ enough)

end ListElems.Holds

/-- There is only one first among the largest elements. -/
theorem firstLargest_unique {front back front' back' : List Nat} {node node' : Nat}
    (same : front ++ node :: back = front' ++ node' :: back') (smaller : ∀ other ∈ front, less other node = true)
    (notLarger : ∀ other ∈ back, less node other = false) (smaller' : ∀ other ∈ front', less other node' = true)
    (notLarger' : ∀ other ∈ back', less node' other = false) : node = node' := by
  have clash {one two : Nat} (yes : less one two = true) (no : less one two = false) : False :=
    Bool.false_ne_true (no.symm.trans yes)
  rcases List.append_eq_append_iff.mp same with ⟨between, rfl, behind⟩ | ⟨between, rfl, behind⟩
  · cases between with
    | nil => exact (List.cons.inj behind).1
    | cons first rest =>
        obtain ⟨rfl, rfl⟩ := List.cons.inj behind
        exact (clash (smaller' node (by simp)) (notLarger node' (by simp))).elim
  · cases between with
    | nil => exact (List.cons.inj behind).1.symm
    | cons first rest =>
        obtain ⟨rfl, rfl⟩ := List.cons.inj behind
        exact (clash (smaller node' (by simp)) (notLarger' node (by simp))).elim

section Order

variable (trans : ∀ a b c, less.nondecreasing a b → less.nondecreasing b c → less.nondecreasing a c)
  (total : ∀ a b, less.nondecreasing a b || less.nondecreasing b a)

include trans

theorem ListLessFunc.less_of_not_less {a b c : Nat} (one : less a b = false) (two : less a c = true) : less b c = true := by
  by_contra notLess
  have chain := trans c b a (by simpa [nondecreasing] using notLess) (by simp [nondecreasing, one])
  simp [nondecreasing, two] at chain

include total

theorem ListLessFunc.less_trans {a b c : Nat} (one : less a b = true) (two : less b c = true) : less a c = true := by
  have either := total a b
  rw [nondecreasing, nondecreasing, one, Bool.not_true, Bool.or_false, Bool.not_eq_true'] at either
  by_contra notLess
  have chain := trans c a b (by simpa [nondecreasing] using notLess) (by simp [nondecreasing, either])
  simp [nondecreasing, two] at chain

/-- What was seen before the largest element is smaller, and what was seen behind it is not larger. -/
theorem foldl_max (max : Nat) (smaller : ∀ node ∈ before, less node max = true) (notLarger : ∀ node ∈ after, less max node = false) :
    ∃ front back, before ++ max :: after ++ nodes =
        front ++ nodes.foldl (fun max e => if less max e then e else max) max :: back ∧
      (∀ node ∈ front, less node (nodes.foldl (fun max e => if less max e then e else max) max) = true) ∧
      ∀ node ∈ back, less (nodes.foldl (fun max e => if less max e then e else max) max) node = false := by
  induction nodes generalizing before max after with
  | nil => exact ⟨before, after, by rw [List.append_nil, List.foldl_nil], smaller, notLarger⟩
  | cons e nodes ih =>
      rw [List.foldl_cons]
      cases larger : less max e with
      | true =>
          have smallerNow : ∀ node ∈ before ++ max :: after, less node e = true := fun node inside => by
            rcases List.mem_append.mp inside with inside | inside
            · exact ListLessFunc.less_trans trans total (smaller node inside) larger
            · rcases List.mem_cons.mp inside with rfl | inside
              · exact larger
              · exact ListLessFunc.less_of_not_less trans (notLarger node inside) larger
          obtain ⟨front, back, same, ends⟩ := ih e smallerNow fun node inside => absurd inside List.not_mem_nil
          refine ⟨front, back, ?_, ends⟩
          rw [if_pos rfl, ← same]
          simp
      | false =>
          have notLargerNow : ∀ node ∈ after ++ [e], less max node = false := fun node inside => by
            rcases List.mem_append.mp inside with inside | inside
            · exact notLarger node inside
            · rw [List.mem_singleton.mp inside, larger]
          obtain ⟨front, back, same, ends⟩ := ih max smaller notLargerNow
          refine ⟨front, back, ?_, ends⟩
          rw [if_neg Bool.false_ne_true, ← same]
          simp

/-- `list_max` finds the first of the largest elements. -/
theorem ListElems.Holds.run_listMax (holds : elems.Holds list nodes) (some_node : nodes ≠ []) (enough : nodes.length ≤ fuel) :
    ∃ front max back, nodes = front ++ max :: back ∧ run (listMax fuel less list) elems = .ok (some max, elems) ∧
      (∀ node ∈ front, less node max = true) ∧ ∀ node ∈ back, less max node = false := by
  obtain ⟨node, nodes, rfl⟩ := List.exists_cons_of_ne_nil some_node
  obtain ⟨front, back, same, ends⟩ := foldl_max trans total node (fun node inside => absurd inside List.not_mem_nil)
    fun node inside => absurd inside List.not_mem_nil
  have apart : some (list.place (node :: nodes)) ≠ listEnd list := fun stop =>
    List.cons_ne_nil _ _ ((show elems.Holds list ([] ++ node :: nodes) from holds).place_eq_listEnd_iff.mp stop)
  have next := (show elems.Holds list ([] ++ node :: nodes) from holds).run_listNext
  refine ⟨front, _, back, same, ?_, ends⟩
  rw [listMax, run_bind_ok holds.run_listBegin, if_neg apart]
  change run (listNext (some node) >>= _) elems = _
  rw [run_bind_ok next]
  exact (show elems.Holds list ([node] ++ nodes) from holds).run_maxFrom less node enough

/-- `list_max` of a list whose first largest element is known. -/
theorem ListElems.Holds.run_listMax_of {front back : List Nat} (holds : elems.Holds list (front ++ elem :: back))
    (smaller : ∀ other ∈ front, less other elem = true) (notLarger : ∀ other ∈ back, less elem other = false)
    (enough : (front ++ elem :: back).length ≤ fuel) : run (listMax fuel less list) elems = .ok (some elem, elems) := by
  obtain ⟨front', max, back', same, ran, ends⟩ := holds.run_listMax trans total (by simp) enough
  rw [firstLargest_unique same smaller notLarger ends.1 ends.2]
  exact ran

end Order

theorem ListElems.Holds.run_listMax_nil (less : ListLessFunc) (holds : elems.Holds list []) (fuel : Nat) :
    run (listMax fuel less list) elems = .ok (some list.tail, elems) := by
  rw [listMax, run_bind_ok holds.run_listBegin, if_pos (show some (list.place []) = listEnd list from rfl), run_pure]
  rfl

theorem KernelList.callLess_swap (less : ListLessFunc) (a b : Option Nat) :
    callLess (fun a b => less b a) a b = callLess less b a := by
  cases a with
  | none => cases b <;> rfl
  | some a => cases b <;> rfl

/-- `list_min` is `list_max` for the other order. -/
theorem KernelList.listMin_eq (less : ListLessFunc) (list : KernelList) (fuel : Nat) :
    listMin fuel less list = listMax fuel (fun a b => less b a) list := by
  have loops (fuel : Nat) (min e : Option Nat) : minFrom less list fuel min e = maxFrom (fun a b => less b a) list fuel min e := by
    induction fuel generalizing min e with
    | zero => rfl
    | succ fuel ih => simp only [minFrom, maxFrom, callLess_swap, ih]
  simp only [listMin, listMax, loops]

/-- `list_min` of a list whose first smallest element is known. -/
theorem ListElems.Holds.run_listMin_of {front back : List Nat}
    (trans : ∀ a b c, less.nondecreasing a b → less.nondecreasing b c → less.nondecreasing a c)
    (total : ∀ a b, less.nondecreasing a b || less.nondecreasing b a) (holds : elems.Holds list (front ++ elem :: back))
    (larger : ∀ other ∈ front, less elem other = true) (notSmaller : ∀ other ∈ back, less other elem = false)
    (enough : (front ++ elem :: back).length ≤ fuel) : run (listMin fuel less list) elems = .ok (some elem, elems) := by
  rw [listMin_eq]
  exact holds.run_listMax_of (fun a b c one two => trans c b a two one) (fun a b => total b a) larger notSmaller enough

end MockOS.Fs
