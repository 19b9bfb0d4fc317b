import MockOS.Fs.ListUnique
import MockOS.Lib.Simulation

namespace MockOS.Fs

open KernelList

/-- The functions of the list library, on lists that have names. -/
inductive ListCommand (I : Type) where
  | init (list : I)
  | begin (list : I)
  | rbegin (list : I)
  | next (elem : Nat)
  | prev (elem : Nat)
  | insert (before elem : Nat)
  | splice (before first last : Nat)
  | pushFront (list : I) (elem : Nat)
  | pushBack (list : I) (elem : Nat)
  | remove (elem : Nat)
  | popFront (list : I)
  | popBack (list : I)
  | front (list : I)
  | back (list : I)
  | size (list : I)
  | empty (list : I)
  | reverse (list : I)
  | sort (less : ListLessFunc) (list : I)
  | insertOrdered (less : ListLessFunc) (list : I) (elem : Nat)
  | unique (less : ListLessFunc) (list : I) (duplicates : Option I)
  | max (less : ListLessFunc) (list : I)
  | min (less : ListLessFunc) (list : I)

/-- What a function returns. -/
inductive ListAnswer where
  | done
  | elem (node : Option Nat)
  | count (size : Nat)
  | flag (holds : Bool)
  deriving DecidableEq

variable {I : Type}

/-- A call, with the fuel for its loops. -/
def ListCommand.call (lists : I → KernelList) (fuel : Nat) : ListCommand I → ListAction ListAnswer
  | .init list => do listInit (lists list); pure .done
  | .begin list => do pure (.elem (← listBegin (lists list)))
  | .rbegin list => do pure (.elem (← listRbegin (lists list)))
  | .next elem => do pure (.elem (← listNext (some elem)))
  | .prev elem => do pure (.elem (← listPrev (some elem)))
  | .insert before elem => do listInsert (some before) (some elem); pure .done
  | .splice before first last => do listSplice (some before) (some first) (some last); pure .done
  | .pushFront list elem => do listPushFront (lists list) (some elem); pure .done
  | .pushBack list elem => do listPushBack (lists list) (some elem); pure .done
  | .remove elem => do pure (.elem (← listRemove (some elem)))
  | .popFront list => do pure (.elem (← listPopFront (lists list)))
  | .popBack list => do pure (.elem (← listPopBack (lists list)))
  | .front list => do pure (.elem (← listFront (lists list)))
  | .back list => do pure (.elem (← listBack (lists list)))
  | .size list => do pure (.count (← listSize fuel (lists list)))
  | .empty list => do pure (.flag (← listEmpty (lists list)))
  | .reverse list => do listReverse fuel (lists list); pure .done
  | .sort less list => do listSort fuel less (lists list); pure .done
  | .insertOrdered less list elem => do listInsertOrdered fuel less (lists list) (some elem); pure .done
  | .unique less list duplicates => do listUnique fuel less (lists list) (duplicates.map lists); pure .done
  | .max less list => do pure (.elem (← listMax fuel less (lists list)))
  | .min less list => do pure (.elem (← listMin fuel less (lists list)))

/-- `less` orders the elements: what is not less is in nondecreasing order. -/
structure ListLessFunc.Orders (less : ListLessFunc) : Prop where
  trans : ∀ a b c, less.nondecreasing a b → less.nondecreasing b c → less.nondecreasing a c
  total : ∀ a b, less.nondecreasing a b || less.nondecreasing b a

/-- The nodes of each list that is in use. -/
abbrev ListContents (I : Type) := I → Option (List Nat)

/-- The element is in none of the lists. -/
def ListContents.Free (contents : ListContents I) (lists : I → KernelList) (elem : Nat) : Prop :=
  ∀ i nodes, contents i = some nodes → elem ∉ (lists i).elements nodes

section

variable [DecidableEq I]

/-- What each function is for, on the nodes of the lists, where it may be called. -/
inductive ListStep (lists : I → KernelList) (contents : ListContents I) : ListCommand I × ListAnswer → ListContents I → Prop
  | init {i : I} (different : (lists i).head ≠ (lists i).tail)
      (headFree : ∀ j nodes, j ≠ i → contents j = some nodes → (lists i).head ∉ (lists j).elements nodes)
      (tailFree : ∀ j nodes, j ≠ i → contents j = some nodes → (lists i).tail ∉ (lists j).elements nodes) :
      ListStep lists contents (.init i, .done) (Function.update contents i (some []))
  | begin {i : I} {nodes : List Nat} (found : contents i = some nodes) :
      ListStep lists contents (.begin i, .elem (some ((lists i).place nodes))) contents
  | rbegin {i : I} {nodes : List Nat} (found : contents i = some nodes) :
      ListStep lists contents (.rbegin i, .elem (some (nodes.getLastD (lists i).head))) contents
  | next {i : I} {before after : List Nat} {node : Nat} (found : contents i = some (before ++ node :: after)) :
      ListStep lists contents (.next node, .elem (some ((lists i).place after))) contents
  | prev {i : I} {before after : List Nat} (found : contents i = some (before ++ after)) :
      ListStep lists contents (.prev ((lists i).place after), .elem (some (before.getLastD (lists i).head))) contents
  | insert {i : I} {before after : List Nat} {elem : Nat} (found : contents i = some (before ++ after))
      (free : contents.Free lists elem) :
      ListStep lists contents (.insert ((lists i).place after) elem, .done)
        (Function.update contents i (some (before ++ elem :: after)))
  | move {i : I} {before part after outer rest : List Nat} (found : contents i = some (before ++ part ++ after))
      (left : before ++ after = outer ++ rest) :
      ListStep lists contents
        (.splice ((lists i).place rest) ((lists i).place (part ++ after)) ((lists i).place after), .done)
        (Function.update contents i (some (outer ++ part ++ rest)))
  | transfer {i j : I} {before part after outer rest : List Nat} (different : i ≠ j)
      (found : contents i = some (before ++ part ++ after)) (into : contents j = some (outer ++ rest)) :
      ListStep lists contents
        (.splice ((lists j).place rest) ((lists i).place (part ++ after)) ((lists i).place after), .done)
        (Function.update (Function.update contents i (some (before ++ after))) j (some (outer ++ part ++ rest)))
  | pushFront {i : I} {nodes : List Nat} {elem : Nat} (found : contents i = some nodes) (free : contents.Free lists elem) :
      ListStep lists contents (.pushFront i elem, .done) (Function.update contents i (some (elem :: nodes)))
  | pushBack {i : I} {nodes : List Nat} {elem : Nat} (found : contents i = some nodes) (free : contents.Free lists elem) :
      ListStep lists contents (.pushBack i elem, .done) (Function.update contents i (some (nodes ++ [elem])))
  | remove {i : I} {before after : List Nat} {node : Nat} (found : contents i = some (before ++ node :: after)) :
      ListStep lists contents (.remove node, .elem (some ((lists i).place after)))
        (Function.update contents i (some (before ++ after)))
  | popFront {i : I} {nodes : List Nat} {node : Nat} (found : contents i = some (node :: nodes)) :
      ListStep lists contents (.popFront i, .elem (some node)) (Function.update contents i (some nodes))
  | popBack {i : I} {nodes : List Nat} {node : Nat} (found : contents i = some (nodes ++ [node])) :
      ListStep lists contents (.popBack i, .elem (some node)) (Function.update contents i (some nodes))
  | front {i : I} {nodes : List Nat} {node : Nat} (found : contents i = some (node :: nodes)) :
      ListStep lists contents (.front i, .elem (some node)) contents
  | back {i : I} {nodes : List Nat} {node : Nat} (found : contents i = some (nodes ++ [node])) :
      ListStep lists contents (.back i, .elem (some node)) contents
  | size {i : I} {nodes : List Nat} (found : contents i = some nodes) :
      ListStep lists contents (.size i, .count nodes.length) contents
  | empty {i : I} {nodes : List Nat} (found : contents i = some nodes) :
      ListStep lists contents (.empty i, .flag nodes.isEmpty) contents
  | reverse {i : I} {nodes : List Nat} (found : contents i = some nodes) :
      ListStep lists contents (.reverse i, .done) (Function.update contents i (some nodes.reverse))
  | sort {less : ListLessFunc} {i : I} {nodes : List Nat} (orders : less.Orders) (found : contents i = some nodes) :
      ListStep lists contents (.sort less i, .done) (Function.update contents i (some (nodes.mergeSort less.nondecreasing)))
  | insertOrdered {less : ListLessFunc} {i : I} {nodes : List Nat} {elem : Nat} (found : contents i = some nodes)
      (free : contents.Free lists elem) :
      ListStep lists contents (.insertOrdered less i elem, .done)
        (Function.update contents i (some (nodes.merge [elem] less.nondecreasing)))
  | unique {less : ListLessFunc} {i : I} {nodes : List Nat} (found : contents i = some nodes) :
      ListStep lists contents (.unique less i none, .done)
        (Function.update contents i (some (nodes.destutter less.Different)))
  | collect {less : ListLessFunc} {i j : I} {nodes dups : List Nat} (different : i ≠ j) (found : contents i = some nodes)
      (into : contents j = some dups) :
      ListStep lists contents (.unique less i (some j), .done)
        (Function.update (Function.update contents i (some (nodes.destutter less.Different))) j
          (some (dups ++ nodes.filter (· ∉ nodes.destutter less.Different))))
  | max {less : ListLessFunc} {i : I} {front back : List Nat} {node : Nat} (orders : less.Orders)
      (found : contents i = some (front ++ node :: back)) (smaller : ∀ other ∈ front, less other node = true)
      (notLarger : ∀ other ∈ back, less node other = false) :
      ListStep lists contents (.max less i, .elem (some node)) contents
  | min {less : ListLessFunc} {i : I} {front back : List Nat} {node : Nat} (orders : less.Orders)
      (found : contents i = some (front ++ node :: back)) (larger : ∀ other ∈ front, less node other = true)
      (notSmaller : ∀ other ∈ back, less other node = false) :
      ListStep lists contents (.min less i, .elem (some node)) contents
  | maxEmpty {less : ListLessFunc} {i : I} (found : contents i = some []) :
      ListStep lists contents (.max less i, .elem (some (lists i).tail)) contents
  | minEmpty {less : ListLessFunc} {i : I} (found : contents i = some []) :
      ListStep lists contents (.min less i, .elem (some (lists i).tail)) contents

end

/-- The lists are linked in memory as they should be, and share no element. -/
structure ListElems.Represents (elems : ListElems) (lists : I → KernelList) (contents : ListContents I) : Prop where
  holds : ∀ i nodes, contents i = some nodes → elems.Holds (lists i) nodes
  apart : ∀ i j here there, i ≠ j → contents i = some here → contents j = some there →
    ∀ node ∈ (lists i).elements here, node ∉ (lists j).elements there

theorem KernelList.mem_elements_iff {list : KernelList} {nodes : List Nat} {node : Nat} :
    node ∈ list.elements nodes ↔ node = list.head ∨ node ∈ nodes ∨ node = list.tail := by
  simp [elements]

namespace ListElems.Represents

variable {elems later : ListElems} {lists : I → KernelList} {contents : ListContents I} {i j : I}
  {nodes nodesAfter : List Nat}

/-- Before any list is initialised every memory represents what there is. -/
theorem unused (elems : ListElems) (lists : I → KernelList) : elems.Represents lists fun _ => none :=
  ⟨fun _ _ found => (Option.some_ne_none _ found.symm).elim, fun _ _ _ _ _ found => (Option.some_ne_none _ found.symm).elim⟩

/-- A change of the elements of one list and of elements in no other list. -/
theorem changed [DecidableEq I] {extra : Nat → Prop} (represents : elems.Represents lists contents)
    (now : later.Holds (lists i) nodesAfter) (same : elems.SameOutside extra later)
    (others : ∀ j there, j ≠ i → contents j = some there → ∀ node ∈ (lists j).elements there,
      ¬ extra node ∧ node ∉ (lists i).elements nodesAfter) :
    later.Represents lists (Function.update contents i (some nodesAfter)) where
  holds := fun j there found => by
    by_cases here : j = i
    · subst here
      rw [Function.update_self] at found
      cases found
      exact now
    · rw [Function.update_of_ne here] at found
      exact (represents.holds j there found).sameOutside same fun node member => (others j there here found node member).1
  apart := fun j k here there different foundHere foundThere node member => by
    by_cases jSame : j = i
    · subst jSame
      rw [Function.update_self] at foundHere
      rw [Function.update_of_ne different.symm] at foundThere
      cases foundHere
      exact fun inside => (others k there different.symm foundThere node inside).2 member
    · rw [Function.update_of_ne jSame] at foundHere
      by_cases kSame : k = i
      · subst kSame
        rw [Function.update_self] at foundThere
        cases foundThere
        exact (others j here jSame foundHere node member).2
      · rw [Function.update_of_ne kSame] at foundThere
        exact represents.apart j k here there different foundHere foundThere node member

/-- A change of the elements of one list to elements that were in it or in none. -/
theorem changedWithin [DecidableEq I] {extra : Nat → Prop} (represents : elems.Represents lists contents)
    (found : contents i = some nodes) (now : later.Holds (lists i) nodesAfter)
    (same : elems.SameOutside (fun node => extra node ∨ node ∈ (lists i).elements nodes) later)
    (free : ∀ node, extra node → contents.Free lists node)
    (within : ∀ node ∈ nodesAfter, extra node ∨ node ∈ nodes) :
    later.Represents lists (Function.update contents i (some nodesAfter)) := by
  have elementsWithin (node : Nat) (member : node ∈ (lists i).elements nodesAfter) :
      extra node ∨ node ∈ (lists i).elements nodes := by
    rcases mem_elements_iff.mp member with isHead | inside | isTail
    · exact .inr (mem_elements_iff.mpr (.inl isHead))
    · exact (within node inside).imp id fun inside => mem_elements_iff.mpr (.inr (.inl inside))
    · exact .inr (mem_elements_iff.mpr (.inr (.inr isTail)))
  have away {j : I} {there : List Nat} {node : Nat} (different : j ≠ i) (foundThere : contents j = some there)
      (member : node ∈ (lists j).elements there) : ¬ (extra node ∨ node ∈ (lists i).elements nodes) := fun inside => by
    rcases inside with isExtra | inside
    · exact free node isExtra j there foundThere member
    · exact represents.apart i j nodes there different.symm found foundThere node inside member
  exact represents.changed now same fun j there different foundThere node member =>
    ⟨away different foundThere member, fun inside => away different foundThere member (elementsWithin node inside)⟩

/-- A change of the elements of one list to some of them. -/
theorem changedOwn [DecidableEq I] (represents : elems.Represents lists contents) (found : contents i = some nodes)
    (now : later.Holds (lists i) nodesAfter) (same : elems.SameOutside (· ∈ (lists i).elements nodes) later)
    (within : ∀ node ∈ nodesAfter, node ∈ nodes) :
    later.Represents lists (Function.update contents i (some nodesAfter)) :=
  represents.changedWithin found now (same.mono fun _ inside => .inr inside) (fun _ never => False.elim never)
    fun node inside => .inr (within node inside)

theorem forget [DecidableEq I] (represents : elems.Represents lists contents) (j : I) :
    elems.Represents lists (Function.update contents j none) where
  holds := fun i nodes found => by
    by_cases same : i = j
    · subst same
      rw [Function.update_self] at found
      cases found
    · rw [Function.update_of_ne same] at found
      exact represents.holds i nodes found
  apart := fun i k here there different foundHere foundThere => by
    by_cases one : i = j
    · subst one
      rw [Function.update_self] at foundHere
      cases foundHere
    · by_cases two : k = j
      · subst two
        rw [Function.update_self] at foundThere
        cases foundThere
      · rw [Function.update_of_ne one] at foundHere
        rw [Function.update_of_ne two] at foundThere
        exact represents.apart i k here there different foundHere foundThere

/-- Nodes go from one list to another. -/
theorem changedBoth [DecidableEq I] {there thereAfter : List Nat} (represents : elems.Represents lists contents)
    (different : i ≠ j) (found : contents i = some nodes) (foundThere : contents j = some there)
    (now : later.Holds (lists i) nodesAfter) (nowThere : later.Holds (lists j) thereAfter)
    (same : elems.SameOutside (fun node => node ∈ (lists i).elements nodes ∨ node ∈ (lists j).elements there) later)
    (within : ∀ node ∈ nodesAfter, node ∈ nodes)
    (moved : ∀ node ∈ thereAfter, node ∈ there ∨ node ∈ nodes ∧ node ∉ nodesAfter) :
    later.Represents lists (Function.update (Function.update contents i (some nodesAfter)) j (some thereAfter)) := by
  have away {k : I} {others : List Nat} {node : Nat} (notHere : k ≠ i) (notThere : k ≠ j) (foundOthers : contents k = some others)
      (member : node ∈ (lists k).elements others) :
      ¬ (node ∈ (lists i).elements nodes ∨ node ∈ (lists j).elements there) := fun inside => by
    rcases inside with inside | inside
    · exact represents.apart i k nodes others notHere.symm found foundOthers node inside member
    · exact represents.apart j k there others notThere.symm foundThere foundOthers node inside member
  have elementsWithin (node : Nat) (member : node ∈ (lists i).elements nodesAfter) : node ∈ (lists i).elements nodes := by
    rcases mem_elements_iff.mp member with isHead | inside | isTail
    · exact mem_elements_iff.mpr (.inl isHead)
    · exact mem_elements_iff.mpr (.inr (.inl (within node inside)))
    · exact mem_elements_iff.mpr (.inr (.inr isTail))
  have elementsMoved (node : Nat) (member : node ∈ (lists j).elements thereAfter) :
      (node ∈ (lists i).elements nodes ∨ node ∈ (lists j).elements there) ∧ node ∉ (lists i).elements nodesAfter := by
    have stayed (inside : node ∈ (lists j).elements there) : (node ∈ (lists i).elements nodes ∨ node ∈ (lists j).elements there) ∧
        node ∉ (lists i).elements nodesAfter :=
      ⟨.inr inside, fun listed => represents.apart i j nodes there different found foundThere node (elementsWithin node listed) inside⟩
    rcases mem_elements_iff.mp member with isHead | inside | isTail
    · exact stayed (mem_elements_iff.mpr (.inl isHead))
    · rcases moved node inside with inside | ⟨inside, gone⟩
      · exact stayed (mem_elements_iff.mpr (.inr (.inl inside)))
      · obtain ⟨headApart, tailApart, _⟩ := (represents.holds i nodes found).ends_apart
        refine ⟨.inl (mem_elements_iff.mpr (.inr (.inl inside))), fun listed => ?_⟩
        rcases mem_elements_iff.mp listed with rfl | listed | rfl
        · exact headApart inside
        · exact gone listed
        · exact tailApart inside
    · exact stayed (mem_elements_iff.mpr (.inr (.inr isTail)))
  have one : later.Represents lists (Function.update (Function.update contents j none) i (some nodesAfter)) := by
    refine (represents.forget j).changed now same fun k others notHere foundOthers node member => ?_
    by_cases notThere : k = j
    · subst notThere
      rw [Function.update_self] at foundOthers
      cases foundOthers
    · rw [Function.update_of_ne notThere] at foundOthers
      have outside := away notHere notThere foundOthers member
      exact ⟨outside, fun inside => outside (.inl (elementsWithin node inside))⟩
  have both := one.changed nowThere (.refl (fun _ => False) later) fun k others notThere foundOthers node member => by
    refine ⟨id, fun inside => ?_⟩
    by_cases notHere : k = i
    · subst notHere
      rw [Function.update_self] at foundOthers
      cases foundOthers
      exact (elementsMoved node inside).2 member
    · rw [Function.update_of_ne notHere, Function.update_of_ne notThere] at foundOthers
      exact away notHere notThere foundOthers member (elementsMoved node inside).1
  rwa [Function.update_comm different.symm, Function.update_idem] at both

end ListElems.Represents

variable [DecidableEq I] {lists : I → KernelList} {contents after : ListContents I}

/-- Every function does to the memory what it is for, and nothing panics. -/
theorem ListStep.refined {command : ListCommand I} {answer : ListAnswer} (step : ListStep lists contents (command, answer) after) :
    ∃ bound, ∀ fuel, bound ≤ fuel → ∀ elems : ListElems, elems.Represents lists contents →
      ∃ later, run (command.call lists fuel) elems = .ok (answer, later) ∧ later.Represents lists after ∧
        later.panics = elems.panics := by
  cases step with
  | @init i different headFree tailFree =>
      refine ⟨0, fun fuel _ elems represents => ?_⟩
      obtain ⟨later, ran, holds, same⟩ := ListElems.Holds.run_listInit elems different
      refine ⟨later, ?_, represents.changed holds same fun j there notHere found node member => ?_, same.panics⟩
      · rw [ListCommand.call, run_bind_ok ran, run_pure]
      · have outside : node ∉ (lists i).elements [] := fun inside => by
          rcases mem_elements_iff.mp inside with rfl | inside | rfl
          · exact headFree j there notHere found member
          · exact List.not_mem_nil inside
          · exact tailFree j there notHere found member
        exact ⟨outside, outside⟩
  | begin found =>
      refine ⟨0, fun fuel _ elems represents => ⟨elems, ?_, represents, rfl⟩⟩
      rw [ListCommand.call, run_bind_ok (represents.holds _ _ found).run_listBegin, run_pure]
  | rbegin found =>
      refine ⟨0, fun fuel _ elems represents => ⟨elems, ?_, represents, rfl⟩⟩
      rw [ListCommand.call, run_bind_ok (represents.holds _ _ found).run_listRbegin, run_pure]
  | next found =>
      refine ⟨0, fun fuel _ elems represents => ⟨elems, ?_, represents, rfl⟩⟩
      rw [ListCommand.call, run_bind_ok (represents.holds _ _ found).run_listNext, run_pure]
  | prev found =>
      refine ⟨0, fun fuel _ elems represents => ⟨elems, ?_, represents, rfl⟩⟩
      rw [ListCommand.call, run_bind_ok (represents.holds _ _ found).run_listPrev, run_pure]
  | insert found free =>
      refine ⟨0, fun fuel _ elems represents => ?_⟩
      obtain ⟨later, ran, holds, same⟩ := (represents.holds _ _ found).run_listInsert_frame (free _ _ found)
      refine ⟨later, ?_, represents.changedWithin found holds same (fun node is => is ▸ free) ?_, same.panics⟩
      · rw [ListCommand.call, run_bind_ok ran, run_pure]
      · simp only [List.mem_append, List.mem_cons]
        tauto
  | move found left =>
      refine ⟨0, fun fuel _ elems represents => ?_⟩
      obtain ⟨later, ran, holds, same⟩ := (represents.holds _ _ found).run_listSplice_within left
      refine ⟨later, ?_, represents.changedOwn found holds same fun node inside => ?_, same.panics⟩
      · rw [ListCommand.call, run_bind_ok ran, run_pure]
      · have rest := congrArg (node ∈ ·) left
        simp only [List.mem_append, eq_iff_iff] at inside rest ⊢
        tauto
  | @transfer i j before part after outer rest different found into =>
      refine ⟨0, fun fuel _ elems represents => ?_⟩
      obtain ⟨later, ran, holds, holdsThere, same⟩ := (represents.holds _ _ found).run_listSplice_across
        (represents.holds _ _ into) (represents.apart i j _ _ different found into)
      refine ⟨later, ?_, represents.changedBoth different found into holds holdsThere same ?_ fun node inside => ?_, same.panics⟩
      · rw [ListCommand.call, run_bind_ok ran, run_pure]
      · simp only [List.mem_append]
        tauto
      · have gone (inPart : node ∈ part) : node ∉ before ++ after := fun inside =>
          (represents.holds _ _ found).parts.2 node inPart (mem_elements_iff.mpr (.inr (.inl inside)))
        simp only [List.mem_append] at inside gone ⊢
        tauto
  | pushFront found free =>
      refine ⟨0, fun fuel _ elems represents => ?_⟩
      obtain ⟨later, ran, holds, same⟩ := (represents.holds _ _ found).run_listPushFront (free _ _ found)
      refine ⟨later, ?_, represents.changedWithin found holds same (fun node is => is ▸ free) ?_, same.panics⟩
      · rw [ListCommand.call, run_bind_ok ran, run_pure]
      · simp only [List.mem_cons]
        tauto
  | pushBack found free =>
      refine ⟨0, fun fuel _ elems represents => ?_⟩
      obtain ⟨later, ran, holds, same⟩ := (represents.holds _ _ found).run_listPushBack (free _ _ found)
      refine ⟨later, ?_, represents.changedWithin found holds same (fun node is => is ▸ free) ?_, same.panics⟩
      · rw [ListCommand.call, run_bind_ok ran, run_pure]
      · simp only [List.mem_append, List.mem_singleton]
        tauto
  | remove found =>
      refine ⟨0, fun fuel _ elems represents => ?_⟩
      obtain ⟨later, ran, holds, same⟩ := (represents.holds _ _ found).run_listRemove_frame
      refine ⟨later, ?_, represents.changedOwn found holds ?_ ?_, same.panics⟩
      · rw [ListCommand.call, run_bind_ok ran, run_pure]
      · refine same.mono fun node inside => ?_
        simp only [mem_elements_iff, List.mem_append, List.mem_cons] at inside ⊢
        tauto
      · simp only [List.mem_append, List.mem_cons]
        tauto
  | popFront found =>
      refine ⟨0, fun fuel _ elems represents => ?_⟩
      obtain ⟨later, ran, holds, same⟩ := (represents.holds _ _ found).run_listPopFront
      refine ⟨later, ?_, represents.changedOwn found holds ?_ ?_, same.panics⟩
      · rw [ListCommand.call, run_bind_ok ran, run_pure]
      · refine same.mono fun node inside => ?_
        simp only [mem_elements_iff, List.mem_cons] at inside ⊢
        tauto
      · exact fun node inside => List.mem_cons_of_mem _ inside
  | popBack found =>
      refine ⟨0, fun fuel _ elems represents => ?_⟩
      obtain ⟨later, ran, holds, same⟩ := (represents.holds _ _ found).run_listPopBack
      refine ⟨later, ?_, represents.changedOwn found holds ?_ ?_, same.panics⟩
      · rw [ListCommand.call, run_bind_ok ran, run_pure]
      · refine same.mono fun node inside => ?_
        simp only [mem_elements_iff, List.mem_append] at inside ⊢
        tauto
      · exact fun node inside => List.mem_append_left _ inside
  | front found =>
      refine ⟨0, fun fuel _ elems represents => ⟨elems, ?_, represents, rfl⟩⟩
      rw [ListCommand.call, run_bind_ok (represents.holds _ _ found).run_listFront, run_pure]
  | back found =>
      refine ⟨0, fun fuel _ elems represents => ⟨elems, ?_, represents, rfl⟩⟩
      rw [ListCommand.call, run_bind_ok (represents.holds _ _ found).run_listBack, run_pure]
  | @size _ nodes found =>
      refine ⟨nodes.length + 1, fun fuel enough elems represents => ⟨elems, ?_, represents, rfl⟩⟩
      rw [ListCommand.call, run_bind_ok ((represents.holds _ _ found).run_listSize enough), run_pure]
  | empty found =>
      refine ⟨0, fun fuel _ elems represents => ⟨elems, ?_, represents, rfl⟩⟩
      rw [ListCommand.call, run_bind_ok (represents.holds _ _ found).run_listEmpty, run_pure]
  | @reverse _ nodes found =>
      refine ⟨nodes.length + 1, fun fuel enough elems represents => ?_⟩
      obtain ⟨later, ran, holds, same⟩ := (represents.holds _ _ found).run_listReverse enough
      refine ⟨later, ?_, represents.changedOwn found holds same fun node => List.mem_reverse.mp, same.panics⟩
      rw [ListCommand.call, run_bind_ok ran, run_pure]
  | @sort less _ nodes orders found =>
      refine ⟨nodes.length + 1, fun fuel enough elems represents => ?_⟩
      obtain ⟨later, ran, holds, same⟩ := (represents.holds _ _ found).run_listSort orders.trans orders.total enough
      refine ⟨later, ?_, represents.changedOwn found holds same fun node => List.mem_mergeSort.mp, same.panics⟩
      rw [ListCommand.call, run_bind_ok ran, run_pure]
  | @insertOrdered less _ nodes elem found free =>
      refine ⟨nodes.length + 1, fun fuel enough elems represents => ?_⟩
      obtain ⟨later, ran, holds, same⟩ := (represents.holds _ _ found).run_listInsertOrdered less (free _ _ found) enough
      refine ⟨later, ?_, represents.changedWithin found holds same (fun node is => is ▸ free) ?_, same.panics⟩
      · rw [ListCommand.call, run_bind_ok ran, run_pure]
      · simp only [List.mem_merge, List.mem_singleton]
        tauto
  | @unique less i nodes found =>
      refine ⟨nodes.length, fun fuel enough elems represents => ?_⟩
      have none : elems.Duplicates (lists i) nodes none [] :=
        ⟨fun _ given => (Option.not_mem_none _ given).elim, fun _ given => (Option.not_mem_none _ given).elim⟩
      obtain ⟨later, ran, holds, _, same⟩ := (represents.holds _ _ found).run_listUnique less none enough
      refine ⟨later, ?_, represents.changedOwn found holds (same.mono fun node inside => ?_) ?_, same.panics⟩
      · rw [ListCommand.call]
        exact run_bind_ok ran
      · exact inside.resolve_right fun given => (Option.not_mem_none _ given.choose_spec.1).elim
      · exact fun node inside => (List.destutter_sublist _ nodes).subset inside
  | @collect less i j nodes dups different found into =>
      refine ⟨nodes.length, fun fuel enough elems represents => ?_⟩
      have given : elems.Duplicates (lists i) nodes (some (lists j)) dups := by
        refine ⟨fun other given => ?_, fun other given node inside => ?_⟩
        · cases given
          exact represents.holds _ _ into
        · cases given
          exact represents.apart j i _ _ different.symm into found node inside
      obtain ⟨later, ran, holds, givenLater, same⟩ := (represents.holds _ _ found).run_listUnique less given enough
      refine ⟨later, ?_, represents.changedBoth different found into holds (givenLater.holds _ rfl)
        (same.mono fun node inside => ?_) ?_ fun node inside => ?_, same.panics⟩
      · rw [ListCommand.call]
        exact run_bind_ok ran
      · rcases inside with inside | ⟨other, isGiven, inside⟩
        · exact .inl inside
        · cases isGiven
          exact .inr inside
      · exact fun node inside => (List.destutter_sublist _ nodes).subset inside
      · rw [List.mem_append, List.mem_filter, decide_eq_true_iff] at inside
        exact inside
  | @max less i front back node orders found smaller notLarger =>
      refine ⟨(front ++ node :: back).length, fun fuel enough elems represents => ⟨elems, ?_, represents, rfl⟩⟩
      rw [ListCommand.call, run_bind_ok ((represents.holds _ _ found).run_listMax_of orders.trans orders.total smaller notLarger
        enough), run_pure]
  | @min less i front back node orders found larger notSmaller =>
      refine ⟨(front ++ node :: back).length, fun fuel enough elems represents => ⟨elems, ?_, represents, rfl⟩⟩
      rw [ListCommand.call, run_bind_ok ((represents.holds _ _ found).run_listMin_of orders.trans orders.total larger notSmaller
        enough), run_pure]
  | @maxEmpty less i found =>
      refine ⟨0, fun fuel _ elems represents => ⟨elems, ?_, represents, rfl⟩⟩
      rw [ListCommand.call, run_bind_ok ((represents.holds _ _ found).run_listMax_nil less fuel), run_pure]
  | @minEmpty less i found =>
      refine ⟨0, fun fuel _ elems represents => ⟨elems, ?_, represents, rfl⟩⟩
      rw [ListCommand.call, listMin_eq, run_bind_ok ((represents.holds _ _ found).run_listMax_nil _ fuel), run_pure]

/-- The calls of a run one after another, with their answers. -/
def callAll (lists : I → KernelList) (fuel : Nat) : List (ListCommand I) → ListAction (List ListAnswer)
  | [] => pure []
  | command :: commands => do
      let answer ← command.call lists fuel
      pure (answer :: (← callAll lists fuel commands))

omit [DecidableEq I] in
theorem callAll_append {elems middle later : ListElems} {fuel : Nat} {commands : List (ListCommand I)} {command : ListCommand I}
    {answers : List ListAnswer} {answer : ListAnswer} (one : run (callAll lists fuel commands) elems = .ok (answers, middle))
    (two : run (command.call lists fuel) middle = .ok (answer, later)) :
    run (callAll lists fuel (commands ++ [command])) elems = .ok (answers ++ [answer], later) := by
  induction commands generalizing elems answers with
  | nil =>
      cases one
      rw [List.nil_append, callAll, run_bind_ok two]
      rfl
  | cons first rest ih =>
      obtain ⟨given, between, opens, follows⟩ := exists_of_run_bind one
      obtain ⟨others, middle', ranRest, ends⟩ := exists_of_run_bind follows
      cases ends
      rw [List.cons_append, callAll, run_bind_ok opens, run_bind_ok (ih ranRest), run_pure]
      rfl

/-- Any run of the list functions on any number of lists does what the functions are for. -/
theorem calls_refine_lists {events : List (ListCommand I × ListAnswer)} (runs : Lib.Runs (ListStep lists) contents events after) :
    ∃ bound, ∀ fuel, bound ≤ fuel → ∀ elems : ListElems, elems.Represents lists contents →
      ∃ later, run (callAll lists fuel (events.map Prod.fst)) elems = .ok (events.map Prod.snd, later) ∧
        later.Represents lists after ∧ later.panics = elems.panics := by
  induction runs with
  | start => exact ⟨0, fun fuel _ elems represents => ⟨elems, rfl, represents, rfl⟩⟩
  | @step events _ _ event runs step ih =>
      obtain ⟨before, ranBefore⟩ := ih
      obtain ⟨bound, ranStep⟩ := step.refined
      refine ⟨max before bound, fun fuel enough elems represents => ?_⟩
      obtain ⟨middle, one, representsMiddle, quiet⟩ := ranBefore fuel (le_trans (le_max_left _ _) enough) elems represents
      obtain ⟨later, two, representsLater, quietLater⟩ := ranStep fuel (le_trans (le_max_right _ _) enough) middle representsMiddle
      refine ⟨later, ?_, representsLater, quietLater.trans quiet⟩
      rw [List.map_append, List.map_append]
      exact callAll_append one two

theorem calls_refine_lists_small : ∃ fuel later,
    run (callAll (fun _ : Unit => ⟨0, 1⟩) fuel [.init (), .pushBack () 3, .pushBack () 2, .reverse (), .popFront ()])
      ⟨fun _ => none, fun _ => none, 0⟩ = .ok ([.done, .done, .done, .done, .elem (some 2)], later) ∧ later.panics = 0 := by
  have free (elem : Nat) (nodes : List Nat) (outside : elem ∉ KernelList.elements ⟨0, 1⟩ nodes) :
      ListContents.Free (Function.update (fun _ : Unit => none) () (some nodes)) (fun _ => ⟨0, 1⟩) elem := fun i there found => by
    cases found
    exact outside
  have runs : Lib.Runs (ListStep fun _ : Unit => ⟨0, 1⟩) (fun _ => none)
      [(.init (), .done), (.pushBack () 3, .done), (.pushBack () 2, .done), (.reverse (), .done), (.popFront (), .elem (some 2))] _ :=
    (((((Lib.Runs.start.step (.init (by decide) (by simp) (by simp))).step (.pushBack rfl (free 3 [] (by decide)))).step
      (.pushBack rfl (free 2 [3] (by decide)))).step (.reverse rfl)).step (.popFront rfl))
  obtain ⟨bound, ran⟩ := calls_refine_lists runs
  obtain ⟨later, called, _, quiet⟩ := ran bound (Nat.le_refl _) _ (.unused ⟨fun _ => none, fun _ => none, 0⟩ _)
  exact ⟨bound, later, called, quiet⟩

end MockOS.Fs
