import MockOS.Fs.ListSpecs

namespace MockOS.Fs

open KernelList

variable {elems middle : ListElems} {list source target : KernelList} {node elem opening closing : Nat}
  {nodes before after part inner front outer rest : List Nat}

/-- A part stands anywhere among the elements. -/
theorem KernelList.elements_perm (list : KernelList) (before part after : List Nat) :
    (list.elements (before ++ part ++ after)).Perm (part ++ list.elements (before ++ after)) := by
  have whole : list.elements (before ++ part ++ after) = (list.head :: before) ++ (part ++ (after ++ [list.tail])) := by
    simp [elements]
  have left : list.elements (before ++ after) = (list.head :: before) ++ (after ++ [list.tail]) := by
    simp [elements]
  rw [whole, left]
  exact List.perm_append_comm_assoc _ _ _

theorem KernelList.mem_elements : node ∈ list.elements (before ++ part ++ after) ↔
    node ∈ part ∨ node ∈ list.elements (before ++ after) := by
  rw [(list.elements_perm before part after).mem_iff, List.mem_append]

namespace ListElems.Holds

/-- A part and the other elements are nodes of their own. -/
theorem parts (holds : elems.Holds list (before ++ part ++ after)) :
    part.Nodup ∧ ∀ node ∈ part, node ∉ list.elements (before ++ after) := by
  have nodup := (list.elements_perm before part after).nodup_iff.mp holds.nodup
  exact ⟨nodup.of_append_left, fun node inside member => (List.nodup_append'.mp nodup).2.2 inside member⟩

theorem place_mem (list : KernelList) (before after : List Nat) : list.place after ∈ list.elements (before ++ after) := by
  rcases place_cases list after with ⟨same, _⟩ | member
  · simp [same, elements]
  · simp [elements, member]

theorem getLastD_mem (list : KernelList) (before after : List Nat) :
    before.getLastD list.head ∈ list.elements (before ++ after) := by
  obtain ⟨outer, rest, starts, _⟩ := exists_around list before after
  rw [elements, ← List.cons_append, starts]
  simp

theorem place_ne_head (holds : elems.Holds list (before ++ after)) : list.place after ≠ list.head := by
  intro same
  have linked := holds.places.2
  rw [same, holds.first] at linked
  cases linked

theorem getLastD_ne_tail (holds : elems.Holds list (before ++ after)) : before.getLastD list.head ≠ list.tail := by
  intro same
  have linked := holds.places.1
  rw [same, holds.last] at linked
  cases linked

theorem ne_getLastD (holds : elems.Holds list (before ++ after)) (behind : node ∈ after) :
    node ≠ before.getLastD list.head := by
  obtain ⟨outer, rest, starts, ends⟩ := exists_around list before after
  have nodup := holds.nodup
  rw [elements, ← List.cons_append, starts, List.append_assoc, List.nodup_append'] at nodup
  rintro rfl
  exact nodup.2.2 (List.mem_append_right _ (List.mem_singleton_self _)) (List.mem_append_left _ behind)

/-- The nodes of a part are no longer in the list, and still linked to each other. -/
theorem cut (holds : elems.Holds list (before ++ part ++ after)) :
    (elems.relink (before.getLastD list.head) (list.place after)).Holds list (before ++ after) ∧
      Lib.DoublyLinked (elems.relink (before.getLastD list.head) (list.place after)).next
        (elems.relink (before.getLastD list.head) (list.place after)).prev part := by
  obtain ⟨outer, rest, starts, ends⟩ := exists_around list before after
  obtain ⟨between, chain⟩ := holds.between.cut starts ends (Function.update_self _ _ _)
    (fun other different => Function.update_of_ne different _ _) (Function.update_self _ _ _)
    fun other different => Function.update_of_ne different _ _
  refine ⟨⟨between, ?_, ?_⟩, chain⟩
  · exact (Function.update_of_ne holds.place_ne_head.symm _ _).trans holds.first
  · rw [List.append_assoc] at holds
    exact (Function.update_of_ne holds.getLastD_ne_tail.symm _ _).trans holds.last

/-- A chain of other nodes comes into the list. -/
theorem paste (holds : elems.Holds list (before ++ after)) (chain : Lib.DoublyLinked elems.next elems.prev part)
    (nodup : part.Nodup) (fresh : ∀ node ∈ part, node ∉ list.elements (before ++ after)) (opens : part = opening :: inner)
    (closes : part = front ++ [closing]) :
    ((elems.relink (before.getLastD list.head) opening).relink closing (list.place after)).Holds list
      (before ++ part ++ after) := by
  obtain ⟨outer, rest, starts, ends⟩ := exists_around list before after
  have openingFresh := fresh opening (opens ▸ List.mem_cons_self)
  have closingFresh := fresh closing (closes ▸ List.mem_append_right _ (List.mem_singleton_self closing))
  have firstMember := getLastD_mem list before after
  have secondMember := place_mem list before after
  refine ⟨holds.between.paste chain nodup fresh starts ends opens closes ?_ (Function.update_self _ _ _)
    (fun other one two => ?_) (Function.update_self _ _ _) ?_ fun other one two => ?_, ?_, ?_⟩
  · exact (Function.update_of_ne (ne_of_mem_of_not_mem firstMember closingFresh) _ _).trans (Function.update_self _ _ _)
  · exact (Function.update_of_ne two _ _).trans (Function.update_of_ne one _ _)
  · exact (Function.update_of_ne (ne_of_mem_of_not_mem secondMember openingFresh).symm _ _).trans (Function.update_self _ _ _)
  · exact (Function.update_of_ne one _ _).trans (Function.update_of_ne two _ _)
  · have head : list.head ∈ list.elements (before ++ after) := by simp [elements]
    exact (Function.update_of_ne holds.place_ne_head.symm _ _).trans
      ((Function.update_of_ne (ne_of_mem_of_not_mem head openingFresh) _ _).trans holds.first)
  · have tail : list.tail ∈ list.elements (before ++ after) := by simp [elements]
    exact (Function.update_of_ne (ne_of_mem_of_not_mem tail closingFresh) _ _).trans
      ((Function.update_of_ne holds.getLastD_ne_tail.symm _ _).trans holds.last)

/-- `list_insert` puts a node at a place. -/
theorem run_listInsert (holds : elems.Holds list (before ++ after)) (fresh : elem ∉ list.elements (before ++ after)) :
    run (listInsert (some (list.place after)) (some elem)) elems =
        .ok ((), (elems.relink (before.getLastD list.head) elem).relink elem (list.place after)) ∧
      ((elems.relink (before.getLastD list.head) elem).relink elem (list.place after)).Holds list
        (before ++ elem :: after) := by
  have placeApart := ne_of_mem_of_not_mem (place_mem list before after) fresh
  have firstApart := ne_of_mem_of_not_mem (getLastD_mem list before after) fresh
  have given : (some elem).isSome = true := rfl
  constructor
  · rw [listInsert, run_get_bind, run_get_bind, run_bind_ok (run_assert holds.place_asserted), run_bind_ok (run_assert given),
      run_bind_ok run_getPrev, holds.prev_place, run_bind_ok run_setPrev, run_bind_ok run_setNext, run_bind_ok run_getPrev]
    dsimp only
    rw [Function.update_of_ne placeApart, holds.prev_place, run_bind_ok run_setNext, run_setPrev]
    simp only [relink, Function.update_comm firstApart]
  · have inserted := holds.paste (.singleton elem) (List.nodup_singleton elem)
      (fun node member => by rwa [List.mem_singleton.mp member]) (rfl : [elem] = elem :: [])
      (List.nil_append [elem]).symm
    rwa [List.append_assoc] at inserted

/-- `list_remove` takes a node out and returns what follows it. -/
theorem run_listRemove (holds : elems.Holds list (before ++ node :: after)) :
    run (listRemove (some node)) elems =
        .ok (some (list.place after), elems.relink (before.getLastD list.head) (list.place after)) ∧
      (elems.relink (before.getLastD list.head) (list.place after)).Holds list (before ++ after) := by
  have inside : node ∈ before ++ node :: after := by simp
  have back : elems.prev node = some (before.getLastD list.head) := holds.prev_place
  have apart : node ≠ before.getLastD list.head := holds.ne_getLastD List.mem_cons_self
  constructor
  · rw [listRemove, run_get_bind, run_bind_ok (run_assert (holds.isInterior inside)), run_bind_ok run_getPrev,
      run_bind_ok run_getNext, back, holds.next_node, run_bind_ok run_setNext, run_bind_ok run_getNext, run_bind_ok run_getPrev]
    dsimp only
    rw [Function.update_of_ne apart, holds.next_node, back, run_bind_ok run_setPrev, run_getNext]
    dsimp only
    rw [Function.update_of_ne apart, holds.next_node]
    rfl
  · rw [List.append_cons] at holds
    exact holds.cut.1

/-- `list_remove` changes no other list. -/
theorem run_listRemove_frame (holds : elems.Holds list (before ++ node :: after)) :
    ∃ later, run (listRemove (some node)) elems = .ok (some (list.place after), later) ∧
      later.Holds list (before ++ after) ∧ elems.SameOutside (· ∈ list.elements (before ++ after)) later :=
  ⟨_, holds.run_listRemove.1, holds.run_listRemove.2, .relink (getLastD_mem list before after) (place_mem list before after)⟩

/-- `list_init` makes an empty list of whatever its elements were. -/
theorem run_listInit (elems : ListElems) (different : list.head ≠ list.tail) :
    ∃ later, run (listInit list) elems = .ok ((), later) ∧ later.Holds list [] ∧
      elems.SameOutside (· ∈ list.elements []) later := by
  have head : list.head ∈ list.elements [] := List.mem_cons_self
  have tail : list.tail ∈ list.elements [] := List.mem_append_right _ (List.mem_singleton_self _)
  refine ⟨_, rfl, ⟨Lib.between_nil different ?_ (Function.update_self _ _ _), ?_, Function.update_self _ _ _⟩,
    ⟨fun node out => ?_, fun node out => ?_, rfl⟩⟩
  · exact (Function.update_of_ne different _ _).trans (Function.update_self _ _ _)
  · exact (Function.update_of_ne different _ _).trans (Function.update_self _ _ _)
  · exact (Function.update_of_ne (ne_of_mem_of_not_mem tail out).symm _ _).trans
      (Function.update_of_ne (ne_of_mem_of_not_mem head out).symm _ _)
  · exact (Function.update_of_ne (ne_of_mem_of_not_mem tail out).symm _ _).trans
      (Function.update_of_ne (ne_of_mem_of_not_mem head out).symm _ _)

/-- `list_insert` changes no other list. -/
theorem run_listInsert_frame (holds : elems.Holds list (before ++ after)) (fresh : elem ∉ list.elements (before ++ after)) :
    ∃ later, run (listInsert (some (list.place after)) (some elem)) elems = .ok ((), later) ∧
      later.Holds list (before ++ elem :: after) ∧
      elems.SameOutside (fun node => node = elem ∨ node ∈ list.elements (before ++ after)) later :=
  ⟨_, (holds.run_listInsert fresh).1, (holds.run_listInsert fresh).2,
    .trans (.relink (.inr (getLastD_mem list before after)) (.inl rfl))
      (.relink (.inl rfl) (.inr (place_mem list before after)))⟩

/-- `list_push_front` puts a node at the start and changes no other list. -/
theorem run_listPushFront (holds : elems.Holds list nodes) (fresh : elem ∉ list.elements nodes) :
    ∃ later, run (listPushFront list (some elem)) elems = .ok ((), later) ∧ later.Holds list (elem :: nodes) ∧
      elems.SameOutside (fun node => node = elem ∨ node ∈ list.elements nodes) later := by
  rw [listPushFront, run_bind_ok holds.run_listBegin]
  exact (show elems.Holds list ([] ++ nodes) from holds).run_listInsert_frame fresh

/-- `list_push_back` puts a node at the end and changes no other list. -/
theorem run_listPushBack (holds : elems.Holds list nodes) (fresh : elem ∉ list.elements nodes) :
    ∃ later, run (listPushBack list (some elem)) elems = .ok ((), later) ∧ later.Holds list (nodes ++ [elem]) ∧
      elems.SameOutside (fun node => node = elem ∨ node ∈ list.elements nodes) later := by
  rw [← List.append_nil nodes] at holds fresh
  have inserted := holds.run_listInsert_frame fresh
  rwa [List.append_nil] at inserted

theorem run_listFront (holds : elems.Holds list (node :: nodes)) :
    run (listFront list) elems = .ok (some node, elems) := by
  rw [listFront, run_bind_ok holds.run_listEmpty, run_bind_ok (run_assert (by rfl)), run_getNext, holds.next_head]
  rfl

theorem run_listBack (holds : elems.Holds list (nodes ++ [node])) :
    run (listBack list) elems = .ok (some node, elems) := by
  have some_node : (nodes ++ [node]).isEmpty = false := by simp
  rw [listBack, run_bind_ok holds.run_listEmpty, run_bind_ok (run_assert (by rw [some_node]; rfl)), run_getPrev]
  rw [← List.append_nil (_ ++ _)] at holds
  have linked : elems.prev list.tail = _ := holds.prev_place
  rw [linked, List.getLastD_concat]

/-- `list_pop_front` takes the first node. -/
theorem run_listPopFront (holds : elems.Holds list (node :: nodes)) :
    ∃ later, run (listPopFront list) elems = .ok (some node, later) ∧ later.Holds list nodes ∧
      elems.SameOutside (· ∈ list.elements nodes) later := by
  obtain ⟨later, removed, laterHolds, same⟩ :=
    (show elems.Holds list ([] ++ node :: nodes) from holds).run_listRemove_frame
  exact ⟨later, by rw [listPopFront, run_bind_ok holds.run_listFront, run_bind_ok removed, run_pure], laterHolds, same⟩

/-- `list_pop_back` takes the last node. -/
theorem run_listPopBack (holds : elems.Holds list (nodes ++ [node])) :
    ∃ later, run (listPopBack list) elems = .ok (some node, later) ∧ later.Holds list nodes ∧
      elems.SameOutside (· ∈ list.elements nodes) later := by
  obtain ⟨later, removed, laterHolds, same⟩ := holds.run_listRemove_frame
  rw [List.append_nil] at laterHolds same
  exact ⟨later, by rw [listPopBack, run_bind_ok holds.run_listBack, run_bind_ok removed, run_pure], laterHolds, same⟩

/-- The link back of a neighbour makes a pair of links whole. -/
theorem run_setPrev_relink (elems : ListElems) (first second : Nat) :
    run (setPrev (some second) (some first)) { elems with next := Function.update elems.next first (some second) } =
      .ok ((), elems.relink first second) := rfl

/-- `list_splice` moves a part to a place of the list that is left when the part is gone, or of another list. -/
theorem run_listSplice (holds : elems.Holds source (before ++ part ++ after)) (opens : part = opening :: inner)
    (closes : part = front ++ [closing])
    (asserted : (elems.isInterior (some (target.place rest)) || elems.isTail (some (target.place rest))) = true)
    (into : (elems.relink (before.getLastD source.head) (source.place after)).Holds target (outer ++ rest))
    (fresh : ∀ node ∈ part, node ∉ target.elements (outer ++ rest)) :
    run (listSplice (some (target.place rest)) (some opening) (some (source.place after))) elems =
      .ok ((), ((elems.relink (before.getLastD source.head) (source.place after)).relink (outer.getLastD target.head)
        opening).relink closing (target.place rest)) := by
  have openingIn : opening ∈ part := opens ▸ List.mem_cons_self
  have closingIn : closing ∈ part := closes ▸ List.mem_append_right _ (List.mem_singleton_self closing)
  have apart : some opening ≠ some (source.place after) := fun same => by
    have empty := holds.place_eq_iff.mp (by rw [opens]; exact Option.some.inj same)
    exact List.cons_ne_nil _ _ (opens.symm.trans empty)
  have placeApart := ne_of_mem_of_not_mem (place_mem target outer rest) (fresh opening openingIn)
  have firstApart := ne_of_mem_of_not_mem (getLastD_mem target outer rest) (fresh closing closingIn)
  have last := holds.run_listPrev
  rw [closes, ← List.append_assoc, List.getLastD_concat] at last
  have interior (node : Nat) (inside : node ∈ part) : elems.isInterior (some node) = true :=
    holds.isInterior (by simp [inside])
  have ahead : elems.next closing = some (source.place after) := by
    rw [closes, ← List.append_assoc, List.append_assoc _ [closing]] at holds
    exact holds.next_node
  have back : elems.prev opening = some (before.getLastD source.head) := by
    rw [opens, List.append_assoc] at holds
    exact holds.prev_place
  have behind : closing ≠ before.getLastD source.head := by
    rw [List.append_assoc] at holds
    exact holds.ne_getLastD (List.mem_append_left _ closingIn)
  rw [listSplice, run_get_bind, run_get_bind, run_bind_ok (run_assert asserted), if_neg apart, run_bind_ok last, run_get_bind,
    run_bind_ok (run_assert (interior opening openingIn)), run_get_bind, run_bind_ok (run_assert (interior closing closingIn)),
    run_bind_ok run_getPrev, run_bind_ok run_getNext, back, ahead, run_bind_ok run_setNext, run_bind_ok run_getNext,
    run_bind_ok run_getPrev]
  dsimp only
  rw [Function.update_of_ne behind, ahead, back, run_bind_ok (run_setPrev_relink _ _ _), run_bind_ok run_getPrev,
    into.prev_place, run_bind_ok run_setPrev, run_bind_ok run_setNext, run_bind_ok run_getPrev]
  dsimp only
  rw [Function.update_of_ne placeApart, into.prev_place, run_bind_ok run_setNext, run_setPrev]
  generalize elems.relink _ _ = cutElems
  simp only [relink, Function.update_comm firstApart]

/-- `list_splice` within a list moves the part to any place of what is left. -/
theorem run_listSplice_within (holds : elems.Holds list (before ++ part ++ after)) (left : before ++ after = outer ++ rest) :
    ∃ later, run (listSplice (some (list.place rest)) (some (list.place (part ++ after))) (some (list.place after))) elems =
        .ok ((), later) ∧ later.Holds list (outer ++ part ++ rest) ∧
      elems.SameOutside (· ∈ list.elements (before ++ part ++ after)) later := by
  have asserted : (elems.isInterior (some (list.place rest)) || elems.isTail (some (list.place rest))) = true := by
    rcases place_cases list rest with ⟨same, _⟩ | member
    · rw [same, holds.isTail, Bool.or_true]
    · have inside : list.place rest ∈ before ++ after := left ▸ List.mem_append_right _ member
      rw [holds.isInterior (by simp only [List.mem_append] at inside ⊢; tauto), Bool.true_or]
  cases part with
  | nil =>
      rw [List.append_nil] at holds
      refine ⟨elems, ?_, by rwa [List.append_nil, ← left], .refl _ _⟩
      rw [listSplice, run_get_bind, run_get_bind, run_bind_ok (run_assert asserted), List.nil_append, if_pos rfl, run_pure]
  | cons opening inner =>
      obtain ⟨front, closing, closes⟩ : ∃ front closing, opening :: inner = front ++ [closing] :=
        ⟨_, _, (List.dropLast_concat_getLast (List.cons_ne_nil opening inner)).symm⟩
      have openingIn : opening ∈ opening :: inner := List.mem_cons_self
      have closingIn : closing ∈ opening :: inner := closes ▸ List.mem_append_right _ (List.mem_singleton_self closing)
      obtain ⟨nodup, fresh⟩ := holds.parts
      have outside := holds.cut
      rw [left] at outside fresh
      have within {node : Nat} (member : node ∈ list.elements (outer ++ rest)) :
          node ∈ list.elements (before ++ (opening :: inner) ++ after) := mem_elements.mpr (.inr (left ▸ member))
      refine ⟨_, holds.run_listSplice rfl closes asserted outside.1 fresh, outside.1.paste outside.2 nodup fresh rfl closes, ?_⟩
      exact ((SameOutside.relink (mem_elements.mpr (.inr (getLastD_mem list before after)))
        (mem_elements.mpr (.inr (place_mem list before after)))).trans
        (.relink (within (getLastD_mem list outer rest)) (mem_elements.mpr (.inl openingIn)))).trans
        (.relink (mem_elements.mpr (.inl closingIn)) (within (place_mem list outer rest)))

/-- `list_splice` from one list to another moves the part to any place of the other. -/
theorem run_listSplice_across (holds : elems.Holds source (before ++ part ++ after)) (into : elems.Holds target (outer ++ rest))
    (apart : ∀ node ∈ source.elements (before ++ part ++ after), node ∉ target.elements (outer ++ rest)) :
    ∃ later, run (listSplice (some (target.place rest)) (some (source.place (part ++ after))) (some (source.place after)))
        elems = .ok ((), later) ∧ later.Holds source (before ++ after) ∧ later.Holds target (outer ++ part ++ rest) ∧
      elems.SameOutside (fun node => node ∈ source.elements (before ++ part ++ after) ∨
        node ∈ target.elements (outer ++ rest)) later := by
  cases part with
  | nil =>
      rw [List.append_nil] at holds
      refine ⟨elems, ?_, holds, by rwa [List.append_nil], .refl _ _⟩
      rw [listSplice, run_get_bind, run_get_bind, run_bind_ok (run_assert into.place_asserted), List.nil_append, if_pos rfl,
        run_pure]
  | cons opening inner =>
      obtain ⟨front, closing, closes⟩ : ∃ front closing, opening :: inner = front ++ [closing] :=
        ⟨_, _, (List.dropLast_concat_getLast (List.cons_ne_nil opening inner)).symm⟩
      have openingIn : opening ∈ opening :: inner := List.mem_cons_self
      have closingIn : closing ∈ opening :: inner := closes ▸ List.mem_append_right _ (List.mem_singleton_self closing)
      have ofSource {node : Nat} (member : node ∈ source.elements (before ++ after)) :
          node ∈ source.elements (before ++ (opening :: inner) ++ after) := mem_elements.mpr (.inr member)
      have ofPart {node : Nat} (member : node ∈ opening :: inner) :
          node ∈ source.elements (before ++ (opening :: inner) ++ after) := mem_elements.mpr (.inl member)
      obtain ⟨nodup, fresh⟩ := holds.parts
      obtain ⟨left, chain⟩ := holds.cut
      have first := getLastD_mem source before after
      have second := place_mem source before after
      have untouched : elems.SameOutside (· ∈ source.elements (before ++ after))
          (elems.relink (before.getLastD source.head) (source.place after)) := .relink first second
      have still := into.sameOutside untouched fun node member inside => apart node (ofSource inside) member
      have freshInto : ∀ node ∈ opening :: inner, node ∉ target.elements (outer ++ rest) := fun node member =>
        apart node (ofPart member)
      refine ⟨_, holds.run_listSplice rfl closes into.place_asserted still freshInto, ?_,
        still.paste chain nodup freshInto rfl closes, ?_⟩
      · have outside : (elems.relink (before.getLastD source.head) (source.place after)).SameOutside
            (fun node => node ∈ opening :: inner ∨ node ∈ target.elements (outer ++ rest)) _ :=
          .trans (.relink (.inr (getLastD_mem target outer rest)) (.inl openingIn))
            (.relink (.inl closingIn) (.inr (place_mem target outer rest)))
        refine left.sameOutside outside fun node member inside => ?_
        rcases inside with inPart | inTarget
        · exact fresh node inPart member
        · exact apart node (ofSource member) inTarget
      · exact ((SameOutside.relink (.inl (ofSource first)) (.inl (ofSource second))).trans
          (.relink (.inr (getLastD_mem target outer rest)) (.inl (ofPart openingIn)))).trans
          (.relink (.inl (ofPart closingIn)) (.inr (place_mem target outer rest)))

end ListElems.Holds

end MockOS.Fs
