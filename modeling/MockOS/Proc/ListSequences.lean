import Mathlib.Data.List.Perm.Subperm
import MockOS.Proc.LinkedList

namespace MockOS.Proc

open Lib (Segment Between DoublyLinked loop_walk)

variable {Data : Type}

/-- The functions of the list that change it. -/
inductive ListOperation (Data : Type) where
  | addHead (data : Data)
  | addTail (data : Data)
  | popHead
  | popTail
  | removeElem (data : Data)
  | listClear

inductive Returned (Data : Type) where
  | nothing
  | status (value : Int)
  | data (value : Data)

namespace ListOperation

def perform (list : LinkedList Data) (heap : NodeHeap Data) :
    ListOperation Data → Outcome (Returned Data × LinkedList Data × NodeHeap Data)
  | addHead data => (list.addHead data heap).map fun result => (.status result.1, result.2)
  | addTail data => (list.addTail data heap).map fun result => (.status result.1, result.2)
  | popHead => (list.popHead heap).map fun result => (.data result.1, result.2)
  | popTail => (list.popTail heap).map fun result => (.data result.1, result.2)
  | removeElem data => (list.removeElem data heap).map fun result => (.data result.1, result.2)
  | listClear => (list.listClear heap).map fun result => (.nothing, result)

def performAll : List (ListOperation Data) → LinkedList Data → NodeHeap Data →
    Outcome (List (Returned Data) × LinkedList Data × NodeHeap Data)
  | [], list, heap => .ok ([], list, heap)
  | operation :: rest, list, heap => do
      let (value, list, heap) ← operation.perform list heap
      let (values, list, heap) ← performAll rest list heap
      .ok (value :: values, list, heap)

/-- The operation on a sequence; there is nothing to pop from an empty one, nor to remove where no element is equal. -/
def onSequence (equal : Data → Data → Bool) (contents : List Data) : ListOperation Data → Option (Returned Data × List Data)
  | addHead data => some (.status 0, data :: contents)
  | addTail data => some (.status 0, contents ++ [data])
  | popHead => contents.head?.map fun data => (.data data, contents.tail)
  | popTail => contents.getLast?.map fun data => (.data data, contents.dropLast)
  | removeElem target => (contents.find? (equal target)).map fun data => (.data data, contents.eraseP (equal target))
  | listClear => some (.nothing, [])

def allOnSequence (equal : Data → Data → Bool) :
    List (ListOperation Data) → List Data → Option (List (Returned Data) × List Data)
  | [], contents => some ([], contents)
  | operation :: rest, contents => do
      let (value, contents) ← operation.onSequence equal contents
      let (values, contents) ← allOnSequence equal rest contents
      some (value :: values, contents)

end ListOperation

/-- The nodes of a list with its sentinels. -/
def LinkedList.ring (list : LinkedList Data) (nodes : List Nat) : List Nat := list.dummyHead :: nodes ++ [list.dummyTail]

/-- The list holds the contents in these nodes. -/
structure LinkedList.Holds (list : LinkedList Data) (heap : NodeHeap Data) (nodes : List Nat) (contents : List Data) : Prop where
  between : Between heap.next heap.prev list.dummyHead list.dummyTail nodes
  old : ∀ node ∈ list.ring nodes, node < heap.nextNode
  contents : nodes.map heap.data = contents
  size : list.size = nodes.length

/-- The nodes of other lists stay as they are. -/
structure NodeHeap.Keeps (own : List Nat) (heap final : NodeHeap Data) : Prop where
  later : heap.nextNode ≤ final.nextNode
  data : ∀ node < heap.nextNode, node ∉ own → final.data node = heap.data node
  next : ∀ node < heap.nextNode, node ∉ own → final.next node = heap.next node
  prev : ∀ node < heap.nextNode, node ∉ own → final.prev node = heap.prev node

namespace NodeHeap

variable {heap : NodeHeap Data} {node : Nat}

theorem deref_old (old : node < heap.nextNode) : heap.deref (some node) = .ok node := if_pos old

end NodeHeap

namespace LinkedList

open NodeHeap

variable {list : LinkedList Data} {heap final : NodeHeap Data} {nodes before after outer rest : List Nat}
  {first second node : Nat} {contents : List Data}

/-- Two links are set. -/
theorem update_pair {one two : Nat} (links : Nat → Option Nat) (first second : Option Nat) (different : one ≠ two) :
    Function.update (Function.update links one first) two second one = first ∧
      Function.update (Function.update links one first) two second two = second ∧
        ∀ other, other ≠ one → other ≠ two →
          Function.update (Function.update links one first) two second other = links other := by
  refine ⟨?_, Function.update_self _ _ _, fun other notOne notTwo => ?_⟩
  · rw [Function.update_of_ne different, Function.update_self]
  · rw [Function.update_of_ne notTwo, Function.update_of_ne notOne]

theorem mem_ring {other : Nat} : other ∈ list.ring nodes ↔ other = list.dummyHead ∨ other ∈ nodes ∨ other = list.dummyTail := by
  rw [ring, List.mem_append, List.mem_cons, List.mem_singleton, or_assoc]

theorem ring_around (starts : list.dummyHead :: before = outer ++ [first]) (ends : after ++ [list.dummyTail] = second :: rest) :
    list.ring (before ++ after) = outer ++ first :: second :: rest := Between.around starts ends

theorem run_addTail (tailOld : list.dummyTail < heap.nextNode) (firstOld : first < heap.nextNode)
    (link : heap.prev list.dummyTail = some first) (data : Data) :
    list.addTail data heap = .ok (0, { list with size := list.size + 1 },
      { nextNode := heap.nextNode + 1
        data := Function.update heap.data heap.nextNode data
        next := Function.update (Function.update heap.next first (some heap.nextNode)) heap.nextNode (some list.dummyTail)
        prev := Function.update (Function.update heap.prev heap.nextNode (some first)) list.dummyTail (some heap.nextNode) }) := by
  have tail : list.dummyTail < heap.nextNode + 1 := Nat.lt_succ_of_lt tailOld
  have neighbour : first < heap.nextNode + 1 := Nat.lt_succ_of_lt firstOld
  have new : heap.nextNode < heap.nextNode + 1 := Nat.lt_succ_self _
  simp only [addTail, malloc, setData, setNext, setPrev, deref, bind, Except.bind, tail, neighbour, new, link, if_true]

theorem run_addHead (headOld : list.dummyHead < heap.nextNode) (secondOld : second < heap.nextNode)
    (link : heap.next list.dummyHead = some second) (data : Data) :
    list.addHead data heap = .ok (0, { list with size := list.size + 1 },
      { nextNode := heap.nextNode + 1
        data := Function.update heap.data heap.nextNode data
        next := Function.update (Function.update heap.next heap.nextNode (some second)) list.dummyHead (some heap.nextNode)
        prev := Function.update (Function.update heap.prev second (some heap.nextNode)) heap.nextNode (some list.dummyHead) }) := by
  have head : list.dummyHead < heap.nextNode + 1 := Nat.lt_succ_of_lt headOld
  have neighbour : second < heap.nextNode + 1 := Nat.lt_succ_of_lt secondOld
  have new : heap.nextNode < heap.nextNode + 1 := Nat.lt_succ_self _
  simp only [addHead, malloc, setData, setNext, setPrev, deref, bind, Except.bind, head, neighbour, new, link, if_true]

theorem run_unlink (nodeOld : node < heap.nextNode) (firstOld : first < heap.nextNode) (secondOld : second < heap.nextNode)
    (forth : heap.next node = some second) (back : heap.prev node = some first) (different : first ≠ node) :
    list.unlink (some node) heap = .ok (heap.data node, { list with size := list.size - 1 },
      { heap with
        next := Function.update heap.next first (some second)
        prev := Function.update heap.prev second (some first) }) := by
  simp only [unlink, setNext, setPrev, deref, bind, Except.bind, nodeOld, firstOld, secondOld, forth, back, if_true,
    Function.update_of_ne different.symm]

namespace Holds

theorem fresh (holds : list.Holds heap nodes contents) : heap.nextNode ∉ list.ring nodes :=
  fun inside => Nat.lt_irrefl _ (holds.old _ inside)

/-- A new node is linked between two neighbours. -/
theorem insert (holds : list.Holds heap (before ++ after) contents) (final : NodeHeap Data) (value : Data)
    (starts : list.dummyHead :: before = outer ++ [first]) (ends : after ++ [list.dummyTail] = second :: rest)
    (nextNode : final.nextNode = heap.nextNode + 1) (data : final.data = Function.update heap.data heap.nextNode value)
    (toNode : final.next first = some heap.nextNode) (fromNode : final.next heap.nextNode = some second)
    (sameNext : ∀ other, other ≠ first → other ≠ heap.nextNode → final.next other = heap.next other)
    (backToNode : final.prev second = some heap.nextNode) (backFromNode : final.prev heap.nextNode = some first)
    (samePrev : ∀ other, other ≠ second → other ≠ heap.nextNode → final.prev other = heap.prev other) :
    Holds { list with size := list.size + 1 } final (before ++ heap.nextNode :: after)
        (before.map heap.data ++ value :: after.map heap.data) ∧
      heap.Keeps (list.ring (before ++ after)) final := by
  have fresh := holds.fresh
  have same : ∀ {other : Nat}, other ≠ heap.nextNode → final.data other = heap.data other := by
    intro other different
    rw [data, Function.update_of_ne different]
  have kept : ∀ {part : List Nat}, part ⊆ before ++ after → part.map final.data = part.map heap.data := by
    intro part inside
    refine List.map_congr_left fun other member => same ?_
    rintro rfl
    exact fresh (mem_ring.mpr (.inr (.inl (inside member))))
  refine ⟨⟨?_, fun other inside => ?_, ?_, ?_⟩, ?_⟩
  · exact holds.between.insert fresh starts ends toNode fromNode sameNext backToNode backFromNode samePrev
  · rw [nextNode]
    have split : other = heap.nextNode ∨ other ∈ list.ring (before ++ after) := by
      have inside : other ∈ list.ring (before ++ heap.nextNode :: after) := inside
      rw [mem_ring, List.mem_append, List.mem_cons] at inside
      rw [mem_ring, List.mem_append]
      tauto
    rcases split with rfl | member
    · exact Nat.lt_succ_self _
    · exact Nat.lt_succ_of_lt (holds.old other member)
  · rw [List.map_append, List.map_cons, kept (List.subset_append_left _ _), kept (List.subset_append_right _ _), data,
      Function.update_self]
  · change list.size + 1 = _
    rw [holds.size, List.length_append, List.length_append, List.length_cons]
    push_cast
    omega
  · rw [ring_around starts ends]
    have apart : ∀ other, other ∉ outer ++ first :: second :: rest → other ≠ first ∧ other ≠ second := by
      intro other outside
      simp only [List.mem_append, List.mem_cons, not_or] at outside
      exact ⟨outside.2.1, outside.2.2.1⟩
    exact ⟨by omega, fun other old _ => same (Nat.ne_of_lt old),
      fun other old outside => sameNext other (apart other outside).1 (Nat.ne_of_lt old),
      fun other old outside => samePrev other (apart other outside).2 (Nat.ne_of_lt old)⟩

/-- A node is taken out from between its neighbours. -/
theorem unlink (holds : list.Holds heap (before ++ node :: after) contents) : ∃ final,
    list.unlink (some node) heap = .ok (heap.data node, { list with size := list.size - 1 }, final) ∧
      Holds { list with size := list.size - 1 } final (before ++ after) (before.map heap.data ++ after.map heap.data) ∧
      heap.Keeps (list.ring (before ++ node :: after)) final := by
  obtain ⟨outer, first, starts⟩ := Between.exists_before list.dummyHead before
  obtain ⟨second, rest, ends⟩ := Between.exists_behind after list.dummyTail
  have whole : list.ring (before ++ node :: after) = outer ++ first :: node :: second :: rest :=
    ring_around starts (by rw [List.cons_append, ends])
  have nodup : (list.ring (before ++ node :: after)).Nodup := holds.between.nodup
  rw [whole] at nodup
  have member : ∀ {other : Nat}, other ∈ first :: node :: second :: rest → other ∈ list.ring (before ++ node :: after) :=
    fun inside => whole ▸ List.mem_append_right _ inside
  have firstOld := holds.old first (member (by simp))
  have nodeOld := holds.old node (member (by simp))
  have secondOld := holds.old second (member (by simp))
  obtain ⟨⟨_, back⟩, forth, _⟩ := holds.between.neighbours starts ends
  have different : first ≠ node := by
    rintro rfl
    exact (List.nodup_cons.mp (nodup.sublist (List.sublist_append_right _ _))).1 List.mem_cons_self
  refine ⟨_, run_unlink nodeOld firstOld secondOld forth back different, ⟨?_, fun other inside => ?_, ?_, ?_⟩, ?_⟩
  · exact holds.between.remove starts ends (Function.update_self _ _ _) (fun other => (Function.update_of_ne · _ _))
      (Function.update_self _ _ _) fun other => (Function.update_of_ne · _ _)
  · refine holds.old other ?_
    have inside : other ∈ list.ring (before ++ after) := inside
    rw [mem_ring, List.mem_append] at inside
    rw [mem_ring, List.mem_append, List.mem_cons]
    tauto
  · rw [List.map_append]
  · change list.size - 1 = _
    rw [holds.size, List.length_append, List.length_append, List.length_cons]
    push_cast
    omega
  · refine ⟨Nat.le_refl _, fun _ _ _ => rfl, fun other _ outside => Function.update_of_ne ?_ _ _,
      fun other _ outside => Function.update_of_ne ?_ _ _⟩
    · rintro rfl
      exact outside (member (by simp))
    · rintro rfl
      exact outside (member (by simp))

theorem addHead (holds : list.Holds heap nodes contents) (data : Data) : ∃ final,
    list.addHead data heap = .ok (0, { list with size := list.size + 1 }, final) ∧
      Holds { list with size := list.size + 1 } final (heap.nextNode :: nodes) (data :: contents) ∧
      heap.Keeps (list.ring nodes) final := by
  have starts : list.dummyHead :: [] = [] ++ [list.dummyHead] := rfl
  obtain ⟨second, rest, ends⟩ := Between.exists_behind nodes list.dummyTail
  have whole : list.ring nodes = list.dummyHead :: second :: rest := ring_around starts ends
  have fresh := holds.fresh
  have linked : DoublyLinked heap.next heap.prev (list.ring nodes) := holds.between.linked
  have headOld := holds.old list.dummyHead (whole ▸ List.mem_cons_self)
  have secondOld := holds.old second (whole ▸ List.mem_cons_of_mem _ List.mem_cons_self)
  rw [whole] at linked
  have ran := run_addHead headOld secondOld (List.isChain_cons_cons.mp linked).1.1 data
  obtain ⟨fromNode, toNode, sameNext⟩ := update_pair heap.next (some second) (some heap.nextNode) (Nat.ne_of_gt headOld)
  obtain ⟨backToNode, backFromNode, samePrev⟩ :=
    update_pair heap.prev (some heap.nextNode) (some list.dummyHead) (Nat.ne_of_lt secondOld)
  rw [← List.nil_append nodes] at holds
  have inserted := holds.insert ⟨heap.nextNode + 1, _, _, _⟩ data starts ends rfl rfl toNode fromNode
    (fun other one two => sameNext other two one) backToNode backFromNode samePrev
  rw [← holds.contents]
  exact ⟨_, ran, inserted⟩

theorem addTail (holds : list.Holds heap nodes contents) (data : Data) : ∃ final,
    list.addTail data heap = .ok (0, { list with size := list.size + 1 }, final) ∧
      Holds { list with size := list.size + 1 } final (nodes ++ [heap.nextNode]) (contents ++ [data]) ∧
      heap.Keeps (list.ring nodes) final := by
  have ends : [] ++ [list.dummyTail] = list.dummyTail :: [] := rfl
  obtain ⟨outer, first, starts⟩ := Between.exists_before list.dummyHead nodes
  rw [← List.append_nil nodes] at holds
  have whole : list.ring (nodes ++ []) = outer ++ first :: list.dummyTail :: [] := ring_around starts ends
  have linked : DoublyLinked heap.next heap.prev (list.ring (nodes ++ [])) := holds.between.linked
  have firstOld := holds.old first (whole ▸ List.mem_append_right _ List.mem_cons_self)
  have tailOld := holds.old list.dummyTail (mem_ring.mpr (.inr (.inr rfl)))
  rw [whole] at linked
  have ran := run_addTail tailOld firstOld (DoublyLinked.append_cons_cons_iff.mp linked).2.1.2 data
  obtain ⟨toNode, fromNode, sameNext⟩ := update_pair heap.next (some heap.nextNode) (some list.dummyTail) (Nat.ne_of_lt firstOld)
  obtain ⟨backFromNode, backToNode, samePrev⟩ :=
    update_pair heap.prev (some first) (some heap.nextNode) (Nat.ne_of_gt tailOld)
  have inserted := holds.insert ⟨heap.nextNode + 1, _, _, _⟩ data starts ends rfl rfl toNode fromNode sameNext
    backToNode backFromNode fun other one two => samePrev other two one
  have contents := holds.contents
  rw [List.append_nil] at contents inserted
  rw [← contents]
  exact ⟨_, ran, inserted⟩

theorem popHead (holds : list.Holds heap (node :: nodes) contents) : ∃ final,
    list.popHead heap = .ok (heap.data node, { list with size := list.size - 1 }, final) ∧
      Holds { list with size := list.size - 1 } final nodes (nodes.map heap.data) ∧
      heap.Keeps (list.ring (node :: nodes)) final := by
  have front : list.Holds heap ([] ++ node :: nodes) contents := holds
  obtain ⟨final, ran, after, keeps⟩ := front.unlink
  refine ⟨final, ?_, after, keeps⟩
  have size := holds.size
  rw [List.length_cons] at size
  have linked := holds.between.forward
  rw [LinkedList.popHead, if_neg (by omega), deref_old (holds.old list.dummyHead (mem_ring.mpr (.inl rfl)))]
  change list.unlink (heap.next list.dummyHead) heap = _
  rw [linked.1, ran]

theorem popTail (holds : list.Holds heap (nodes ++ [node]) contents) : ∃ final,
    list.popTail heap = .ok (heap.data node, { list with size := list.size - 1 }, final) ∧
      Holds { list with size := list.size - 1 } final nodes (nodes.map heap.data) ∧
      heap.Keeps (list.ring (nodes ++ [node])) final := by
  obtain ⟨final, ran, after, keeps⟩ := holds.unlink
  rw [List.append_nil, List.map_nil, List.append_nil] at after
  refine ⟨final, ?_, after, keeps⟩
  have size := holds.size
  rw [List.length_append, List.length_singleton] at size
  have linked := holds.between.backward
  rw [List.reverse_append, List.reverse_singleton, List.singleton_append] at linked
  rw [LinkedList.popTail, if_neg (by omega), deref_old (holds.old list.dummyTail (mem_ring.mpr (.inr (.inr rfl))))]
  change list.unlink (heap.prev list.dummyTail) heap = _
  rw [linked.1, ran]

theorem getNodeByValue (holds : list.Holds heap (before ++ node :: after) contents) {target : Data}
    (equal : list.equal target (heap.data node)) (different : ∀ other ∈ before, list.equal target (heap.data other) = false) :
    list.getNodeByValue target heap = .ok (some node) := by
  have inRing : ∀ other ∈ before ++ node :: after, other < heap.nextNode := fun other inside =>
    holds.old other (mem_ring.mpr (.inr (.inl inside)))
  have few : before.length ≤ heap.nextNode := by
    have nodup : before.Nodup := by
      have nodup : (list.ring (before ++ node :: after)).Nodup := holds.between.nodup
      exact nodup.sublist (((List.sublist_append_left _ _).trans (List.sublist_cons_self _ _)).trans
        (List.sublist_append_left _ _))
    have smaller : before ⊆ List.range heap.nextNode := fun other inside =>
      List.mem_range.mpr (inRing other (List.mem_append_left _ inside))
    have bound := (List.Nodup.subperm nodup smaller).length_le
    rwa [List.length_range] at bound
  obtain ⟨middle, walked, follows⟩ := Segment.append_iff.mp holds.between.forward
  obtain ⟨rfl, _⟩ := follows
  have search : Lib.loop (list.found target heap) (fun curr => do .ok (heap.next (← heap.deref curr))) heap.nextNode
      (heap.next list.dummyHead) = .ok (some (some node)) := by
    refine loop_walk walked (fun other inside => ?_) ?_ few
    · have old := inRing other (List.mem_append_left _ inside)
      constructor
      · simp [found, old, different other inside]
      · rw [deref_old old]
        rfl
    · have old := inRing node (List.mem_append_right _ List.mem_cons_self)
      simp [found, old, equal]
  rw [LinkedList.getNodeByValue, deref_old (holds.old list.dummyHead (mem_ring.mpr (.inl rfl)))]
  change (Lib.loop _ _ _ _ >>= _) = _
  rw [search]
  rfl

/-- The first node with an equal value is removed. -/
theorem removeElem (holds : list.Holds heap nodes contents) {target value : Data}
    (member : contents.find? (list.equal target) = some value) : ∃ final nodesAfter,
    list.removeElem target heap = .ok (value, { list with size := list.size - 1 }, final) ∧
      Holds { list with size := list.size - 1 } final nodesAfter (contents.eraseP (list.equal target)) ∧
      heap.Keeps (list.ring nodes) final ∧ nodesAfter ⊆ nodes := by
  obtain ⟨equal, front, back, split, different⟩ := List.find?_eq_some_iff_append.mp member
  have contentsEq := holds.contents
  rw [split] at contentsEq
  obtain ⟨before, later, rfl, rfl, laterEq⟩ := List.map_eq_append_iff.mp contentsEq
  obtain ⟨node, after, rfl, rfl, rfl⟩ := List.map_eq_cons_iff.mp laterEq
  obtain ⟨final, ran, holdsAfter, keeps⟩ := holds.unlink
  have others : ∀ other ∈ before, list.equal target (heap.data other) = false := fun other inside => by
    simpa using different _ (List.mem_map_of_mem inside)
  refine ⟨final, before ++ after, ?_, ?_, keeps, ?_⟩
  · rw [LinkedList.removeElem, holds.getNodeByValue equal others]
    exact ran
  · have passed : ∀ data ∈ before.map heap.data, ¬ list.equal target data := fun data inside => by
      simpa using different data inside
    rw [split, List.eraseP_append_right _ passed, List.eraseP_cons_of_pos equal]
    exact holdsAfter
  · exact List.append_subset.mpr ⟨List.subset_append_left _ _, fun other inside =>
      List.mem_append_right _ (List.mem_cons_of_mem _ inside)⟩

theorem listClear (holds : list.Holds heap nodes contents) : ∃ final,
    list.listClear heap = .ok ({ list with size := 0 }, final) ∧ Holds { list with size := 0 } final [] [] ∧
      heap.Keeps (list.ring nodes) final := by
  have headOld := holds.old list.dummyHead (mem_ring.mpr (.inl rfl))
  have tailOld := holds.old list.dummyTail (mem_ring.mpr (.inr (.inr rfl)))
  have different : list.dummyHead ≠ list.dummyTail := by
    have nodup := holds.between.nodup
    rw [List.cons_append, List.nodup_cons] at nodup
    exact (ne_of_mem_of_not_mem (List.mem_append_right _ List.mem_cons_self) nodup.1).symm
  refine ⟨{ heap with
    next := Function.update heap.next list.dummyHead (some list.dummyTail)
    prev := Function.update heap.prev list.dummyTail (some list.dummyHead) }, ?_, ⟨?_, fun node inside => ?_, rfl, rfl⟩, ?_⟩
  · simp only [LinkedList.listClear, setNext, setPrev, deref, bind, Except.bind, headOld, tailOld, if_true]
  · exact Lib.between_nil different (Function.update_self _ _ _) (Function.update_self _ _ _)
  · rcases mem_ring.mp inside with rfl | impossible | rfl
    · exact headOld
    · cases impossible
    · exact tailOld
  · refine ⟨Nat.le_refl _, fun _ _ _ => rfl, fun other _ outside => Function.update_of_ne ?_ _ _,
      fun other _ outside => Function.update_of_ne ?_ _ _⟩
    · rintro rfl
      exact outside (mem_ring.mpr (.inl rfl))
    · rintro rfl
      exact outside (mem_ring.mpr (.inr (.inr rfl)))

/-- An operation that the contents allow does on the nodes what it does on the contents. -/
theorem perform (holds : list.Holds heap nodes contents) (operation : ListOperation Data) {value : Returned Data}
    {contentsAfter : List Data} (allowed : operation.onSequence list.equal contents = some (value, contentsAfter)) :
    ∃ size final nodesAfter, operation.perform list heap = .ok (value, { list with size := size }, final) ∧
      Holds { list with size := size } final nodesAfter contentsAfter ∧ heap.Keeps (list.ring nodes) final ∧
        ∀ node ∈ nodesAfter, node ∈ nodes ∨ heap.nextNode ≤ node := by
  cases operation with
  | addHead data =>
      obtain ⟨rfl, rfl⟩ := Prod.mk.inj (Option.some.inj allowed)
      obtain ⟨final, ran, after, keeps⟩ := holds.addHead data
      refine ⟨_, final, _, by rw [ListOperation.perform, ran]; rfl, after, keeps, fun node inside => ?_⟩
      exact (List.mem_cons.mp inside).symm.imp id fun same => Nat.le_of_eq same.symm
  | addTail data =>
      obtain ⟨rfl, rfl⟩ := Prod.mk.inj (Option.some.inj allowed)
      obtain ⟨final, ran, after, keeps⟩ := holds.addTail data
      refine ⟨_, final, _, by rw [ListOperation.perform, ran]; rfl, after, keeps, fun node inside => ?_⟩
      exact (List.mem_append.mp inside).imp id fun last => Nat.le_of_eq (List.mem_singleton.mp last).symm
  | popHead =>
      have same := holds.contents
      cases nodes with
      | nil =>
          subst same
          cases allowed
      | cons node rest =>
          subst same
          obtain ⟨rfl, rfl⟩ := Prod.mk.inj (Option.some.inj allowed)
          obtain ⟨final, ran, after, keeps⟩ := holds.popHead
          exact ⟨_, final, rest, by rw [ListOperation.perform, ran]; rfl, after, keeps,
            fun other inside => .inl (List.mem_cons_of_mem _ inside)⟩
  | popTail =>
      have same := holds.contents
      rcases List.eq_nil_or_concat nodes with rfl | ⟨front, node, rfl⟩
      · subst same
        cases allowed
      · rw [List.concat_eq_append] at *
        rw [List.map_append, List.map_singleton] at same
        rw [← same, ListOperation.onSequence, List.getLast?_concat, List.dropLast_concat] at allowed
        obtain ⟨rfl, rfl⟩ := Prod.mk.inj (Option.some.inj allowed)
        obtain ⟨final, ran, after, keeps⟩ := holds.popTail
        exact ⟨_, final, front, by rw [ListOperation.perform, ran]; rfl, after, keeps,
          fun other inside => .inl (List.mem_append_left _ inside)⟩
  | removeElem target =>
      obtain ⟨found, member, same⟩ := Option.map_eq_some_iff.mp allowed
      obtain ⟨rfl, rfl⟩ := Prod.mk.inj same
      obtain ⟨final, nodesAfter, ran, after, keeps, subset⟩ := holds.removeElem member
      exact ⟨_, final, nodesAfter, by rw [ListOperation.perform, ran]; rfl, after, keeps, fun other inside => .inl (subset inside)⟩
  | listClear =>
      obtain ⟨rfl, rfl⟩ := Prod.mk.inj (Option.some.inj allowed)
      obtain ⟨final, ran, after, keeps⟩ := holds.listClear
      exact ⟨_, final, [], by rw [ListOperation.perform, ran]; rfl, after, keeps, fun other impossible => by cases impossible⟩

theorem performAll (operations : List (ListOperation Data)) (holds : list.Holds heap nodes contents)
    {values : List (Returned Data)} {contentsAfter : List Data}
    (allowed : ListOperation.allOnSequence list.equal operations contents = some (values, contentsAfter)) :
    ∃ size final nodesAfter, ListOperation.performAll operations list heap = .ok (values, { list with size := size }, final) ∧
      Holds { list with size := size } final nodesAfter contentsAfter := by
  induction operations generalizing list heap nodes contents values with
  | nil =>
      obtain ⟨rfl, rfl⟩ := Prod.mk.inj (Option.some.inj allowed)
      exact ⟨list.size, heap, nodes, rfl, holds⟩
  | cons operation rest ih =>
      obtain ⟨⟨value, between⟩, first, allowed⟩ := Option.bind_eq_some_iff.mp allowed
      obtain ⟨⟨others, last⟩, second, same⟩ := Option.bind_eq_some_iff.mp allowed
      obtain ⟨rfl, rfl⟩ := Prod.mk.inj (Option.some.inj same)
      obtain ⟨size, middle, nodesBetween, ran, holdsBetween, _⟩ := holds.perform operation first
      obtain ⟨sizeAfter, final, nodesAfter, ranRest, holdsAfter⟩ := ih holdsBetween second
      refine ⟨sizeAfter, final, nodesAfter, ?_, holdsAfter⟩
      rw [ListOperation.performAll, ran]
      change (ListOperation.performAll rest _ middle >>= _) = _
      rw [ranRest]
      rfl

end Holds

/-- A new list is empty, whatever the memory held. -/
theorem listInit_holds (equal : Data → Data → Bool) (heap : NodeHeap Data) : ∃ list final,
    listInit equal heap = .ok (list, final) ∧ list.equal = equal ∧ list.Holds final [] [] ∧ heap.Keeps [] final ∧
      ∀ node ∈ list.ring [], heap.nextNode ≤ node := by
  have different : heap.nextNode ≠ heap.nextNode + 1 := Nat.ne_of_lt (Nat.lt_succ_self _)
  have headOld : heap.nextNode < heap.nextNode + 1 + 1 := by omega
  have tailOld : heap.nextNode + 1 < heap.nextNode + 1 + 1 := by omega
  refine ⟨⟨0, heap.nextNode, heap.nextNode + 1, equal⟩, { heap with
    nextNode := heap.nextNode + 1 + 1
    next := Function.update (Function.update heap.next (heap.nextNode + 1) none) heap.nextNode (some (heap.nextNode + 1))
    prev := Function.update heap.prev (heap.nextNode + 1) (some heap.nextNode) }, ?_, rfl,
    ⟨?_, fun node inside => ?_, rfl, rfl⟩, ⟨by dsimp only; omega, fun _ _ _ => rfl, fun node old _ => ?_, fun node old _ => ?_⟩,
    fun node inside => ?_⟩
  · simp only [listInit, malloc, setNext, setPrev, deref, bind, Except.bind, headOld, tailOld, if_true]
  · exact Lib.between_nil different (Function.update_self _ _ _) (Function.update_self _ _ _)
  · rcases mem_ring.mp inside with rfl | impossible | rfl
    · exact headOld
    · cases impossible
    · exact tailOld
  · exact (update_pair heap.next none (some (heap.nextNode + 1)) different.symm).2.2 node (by omega) (by omega)
  · exact Function.update_of_ne (by omega) _ _
  · rcases mem_ring.mp inside with rfl | impossible | rfl
    · exact Nat.le_refl _
    · cases impossible
    · exact Nat.le_succ _

end LinkedList

/-- From `list_init` on, the operations that a sequence allows return what they return on it, and the links lead through
its elements in both directions. -/
theorem linkedList_isSequence (equal : Data → Data → Bool) (heap : NodeHeap Data) (operations : List (ListOperation Data))
    {values : List (Returned Data)} {contents : List Data}
    (allowed : ListOperation.allOnSequence equal operations [] = some (values, contents)) :
    ∃ (list : LinkedList Data) (final : NodeHeap Data) (nodes : List Nat), (do
        let (list, heap) ← LinkedList.listInit equal heap
        ListOperation.performAll operations list heap) = .ok (values, list, final) ∧
      Segment final.next (final.next list.dummyHead) nodes (some list.dummyTail) ∧
      Segment final.prev (final.prev list.dummyTail) nodes.reverse (some list.dummyHead) ∧
      list.size = nodes.length ∧ nodes.map final.data = contents := by
  obtain ⟨list, start, created, rfl, holds, _⟩ := LinkedList.listInit_holds equal heap
  obtain ⟨size, final, nodes, ran, after⟩ := holds.performAll operations allowed
  refine ⟨_, final, nodes, ?_, after.between.forward, after.between.backward, after.size, after.contents⟩
  rw [created]
  exact ran

/-- Seven operations in a memory full of other pointers. -/
theorem linkedList_isSequence_seven : ∃ (list : LinkedList Nat) (final : NodeHeap Nat) (nodes : List Nat), (do
      let (list, heap) ← LinkedList.listInit (· == ·) ⟨5, fun _ => 9, fun _ => some 3, fun _ => some 4⟩
      ListOperation.performAll [.addTail 1, .addTail 2, .addHead 1, .removeElem 1, .addTail 8, .popTail, .popHead] list heap) =
        .ok ([.status 0, .status 0, .status 0, .data 1, .status 0, .data 8, .data 1], list, final) ∧
      Segment final.next (final.next list.dummyHead) nodes (some list.dummyTail) ∧
      Segment final.prev (final.prev list.dummyTail) nodes.reverse (some list.dummyHead) ∧
      list.size = nodes.length ∧ nodes.map final.data = [2] :=
  linkedList_isSequence (· == ·) ⟨5, fun _ => 9, fun _ => some 3, fun _ => some 4⟩ _ rfl

end MockOS.Proc
