import MockOS.Proc.ListSequences

namespace MockOS.Proc

variable {Data : Type}

namespace LinkedList.Holds

variable {list : LinkedList Data} {heap final : NodeHeap Data} {nodes own : List Nat} {contents : List Data}

/-- A list is not touched by an operation on other nodes. -/
theorem keep (holds : list.Holds heap nodes contents) (keeps : heap.Keeps own final)
    (apart : ∀ node ∈ list.ring nodes, node ∉ own) : list.Holds final nodes contents := by
  have inside : ∀ {part : List Nat}, part ⊆ list.ring nodes → ∀ node ∈ part, node < heap.nextNode ∧ node ∉ own :=
    fun subset node member => ⟨holds.old node (subset member), apart node (subset member)⟩
  have front : list.dummyHead :: nodes ⊆ list.ring nodes := List.subset_append_left _ _
  have back : nodes ++ [list.dummyTail] ⊆ list.ring nodes := List.subset_cons_self _ _
  refine ⟨holds.between.congr (fun node member => ?_) fun node member => ?_, fun node member => ?_, ?_, holds.size⟩
  · obtain ⟨old, outside⟩ := inside front node member
    exact keeps.next node old outside
  · obtain ⟨old, outside⟩ := inside back node member
    exact keeps.prev node old outside
  · exact Nat.lt_of_lt_of_le (holds.old node member) keeps.later
  · rw [← holds.contents]
    refine List.map_congr_left fun node member => ?_
    obtain ⟨old, outside⟩ := inside front node (List.mem_cons_of_mem _ member)
    exact keeps.data node old outside

end LinkedList.Holds

/-- The lists that the kernel keeps in the same memory. -/
inductive KernelList where
  | queue
  | lruCache
  | allPcb
  deriving DecidableEq

/-- `kernel_setup`, with the functions that compare processes and pages. -/
def kernelSetup (pcbEqual pageEqual : Data → Data → Bool) (heap : NodeHeap Data) :
    Outcome ((KernelList → LinkedList Data) × NodeHeap Data) := do
  let (queue, heap) ← LinkedList.listInit pcbEqual heap
  let (lruCache, heap) ← LinkedList.listInit pageEqual heap
  let (allPcb, heap) ← LinkedList.listInit pcbEqual heap
  .ok (fun
    | .queue => queue
    | .lruCache => lruCache
    | .allPcb => allPcb, heap)

namespace KernelList

/-- Calls on the lists, each on one of them. -/
def performAll : List (KernelList × ListOperation Data) → (KernelList → LinkedList Data) → NodeHeap Data →
    Outcome (List (Returned Data) × (KernelList → LinkedList Data) × NodeHeap Data)
  | [], lists, heap => .ok ([], lists, heap)
  | (name, operation) :: rest, lists, heap => do
      let (value, list, heap) ← operation.perform (lists name) heap
      let (values, lists, heap) ← performAll rest (Function.update lists name list) heap
      .ok (value :: values, lists, heap)

/-- The same calls on one sequence for each list. -/
def allOnSequences (equal : KernelList → Data → Data → Bool) :
    List (KernelList × ListOperation Data) → (KernelList → List Data) → Option (List (Returned Data) × (KernelList → List Data))
  | [], contents => some ([], contents)
  | (name, operation) :: rest, contents => do
      let (value, changed) ← operation.onSequence (equal name) (contents name)
      let (values, contents) ← allOnSequences equal rest (Function.update contents name changed)
      some (value :: values, contents)

/-- Every list holds its contents, in nodes of its own. -/
structure Hold (lists : KernelList → LinkedList Data) (heap : NodeHeap Data) (nodes : KernelList → List Nat)
    (contents : KernelList → List Data) : Prop where
  holds : ∀ name, (lists name).Holds heap (nodes name) (contents name)
  apart : ∀ one two, one ≠ two → ∀ node ∈ (lists one).ring (nodes one), node ∉ (lists two).ring (nodes two)

variable {lists : KernelList → LinkedList Data} {heap final : NodeHeap Data} {nodes : KernelList → List Nat}
  {contents : KernelList → List Data}

theorem Hold.perform (hold : Hold lists heap nodes contents) (name : KernelList) (operation : ListOperation Data)
    {value : Returned Data} {changed : List Data}
    (allowed : operation.onSequence (lists name).equal (contents name) = some (value, changed)) :
    ∃ size final nodesAfter, operation.perform (lists name) heap = .ok (value, { lists name with size := size }, final) ∧
      Hold (Function.update lists name { lists name with size := size }) final nodesAfter
        (Function.update contents name changed) := by
  obtain ⟨size, final, own, ran, holds, keeps, origin⟩ := (hold.holds name).perform operation allowed
  have ringOld : ∀ node ∈ (lists name).ring own, node ∈ (lists name).ring (nodes name) ∨ heap.nextNode ≤ node := by
    intro node member
    rcases LinkedList.mem_ring.mp member with head | inside | tail
    · exact .inl (LinkedList.mem_ring.mpr (.inl head))
    · exact (origin node inside).imp (fun inside => LinkedList.mem_ring.mpr (.inr (.inl inside))) id
    · exact .inl (LinkedList.mem_ring.mpr (.inr (.inr tail)))
  have others : ∀ other, other ≠ name → ∀ node ∈ (lists other).ring (nodes other), node ∉ (lists name).ring own := by
    intro other different node member inside
    rcases ringOld node inside with old | new
    · exact hold.apart other name different node member old
    · exact absurd ((hold.holds other).old node member) (Nat.not_lt.mpr new)
  refine ⟨size, final, Function.update nodes name own, ran, fun other => ?_, fun one two different node member => ?_⟩
  · by_cases same : other = name
    · subst same
      rw [Function.update_self, Function.update_self, Function.update_self]
      exact holds
    · rw [Function.update_of_ne same, Function.update_of_ne same, Function.update_of_ne same]
      exact (hold.holds other).keep keeps (hold.apart other name same)
  · by_cases isOne : one = name
    · subst isOne
      rw [Function.update_self, Function.update_self] at member
      rw [Function.update_of_ne different.symm, Function.update_of_ne different.symm]
      exact fun inside => others two different.symm node inside member
    · rw [Function.update_of_ne isOne, Function.update_of_ne isOne] at member
      by_cases isTwo : two = name
      · subst isTwo
        rw [Function.update_self, Function.update_self]
        exact others one isOne node member
      · rw [Function.update_of_ne isTwo, Function.update_of_ne isTwo]
        exact hold.apart one two different node member

theorem Hold.performAll (equal : KernelList → Data → Data → Bool) (operations : List (KernelList × ListOperation Data))
    (hold : Hold lists heap nodes contents) (equals : ∀ name, (lists name).equal = equal name)
    {values : List (Returned Data)} {contentsAfter : KernelList → List Data}
    (allowed : allOnSequences equal operations contents = some (values, contentsAfter)) :
    ∃ listsAfter final nodesAfter, KernelList.performAll operations lists heap = .ok (values, listsAfter, final) ∧
      Hold listsAfter final nodesAfter contentsAfter := by
  induction operations generalizing lists heap nodes contents values with
  | nil =>
      obtain ⟨rfl, rfl⟩ := Prod.mk.inj (Option.some.inj allowed)
      exact ⟨lists, heap, nodes, rfl, hold⟩
  | cons step rest ih =>
      obtain ⟨name, operation⟩ := step
      obtain ⟨⟨value, between⟩, first, allowed⟩ := Option.bind_eq_some_iff.mp allowed
      obtain ⟨⟨others, last⟩, second, same⟩ := Option.bind_eq_some_iff.mp allowed
      obtain ⟨rfl, rfl⟩ := Prod.mk.inj (Option.some.inj same)
      rw [← equals name] at first
      obtain ⟨size, middle, nodesBetween, ran, holdBetween⟩ := hold.perform name operation first
      obtain ⟨listsAfter, final, nodesAfter, ranRest, holdAfter⟩ := ih holdBetween (fun other => by
        by_cases here : other = name
        · subst here
          rw [Function.update_self]
          exact equals other
        · rw [Function.update_of_ne here]
          exact equals other) second
      refine ⟨listsAfter, final, nodesAfter, ?_, holdAfter⟩
      rw [KernelList.performAll, ran]
      change (KernelList.performAll rest _ middle >>= _) = _
      rw [ranRest]
      rfl

/-- `kernel_setup` makes three empty lists, whatever the memory held. -/
theorem kernelSetup_hold (pcbEqual pageEqual : Data → Data → Bool) (heap : NodeHeap Data) : ∃ lists final nodes,
    kernelSetup pcbEqual pageEqual heap = .ok (lists, final) ∧ Hold lists final nodes (fun _ => []) ∧
      (lists .queue).equal = pcbEqual ∧ (lists .lruCache).equal = pageEqual ∧ (lists .allPcb).equal = pcbEqual := by
  obtain ⟨queue, heap₁, ran₁, equal₁, holds₁, _⟩ := LinkedList.listInit_holds pcbEqual heap
  obtain ⟨lruCache, heap₂, ran₂, equal₂, holds₂, keeps₂, new₂⟩ := LinkedList.listInit_holds pageEqual heap₁
  obtain ⟨allPcb, heap₃, ran₃, equal₃, holds₃, keeps₃, new₃⟩ := LinkedList.listInit_holds pcbEqual heap₂
  obtain ⟨lists, listsEq⟩ : ∃ lists : KernelList → LinkedList Data, lists = fun
    | .queue => queue
    | .lruCache => lruCache
    | .allPcb => allPcb := ⟨_, rfl⟩
  have queueEq : lists .queue = queue := by rw [listsEq]
  have lruCacheEq : lists .lruCache = lruCache := by rw [listsEq]
  have allPcbEq : lists .allPcb = allPcb := by rw [listsEq]
  have place : ∀ name, ∀ node ∈ (lists name).ring [], match name with
      | .queue => node < heap₁.nextNode
      | .lruCache => heap₁.nextNode ≤ node ∧ node < heap₂.nextNode
      | .allPcb => heap₂.nextNode ≤ node := by
    intro name node member
    cases name with
    | queue => exact holds₁.old node (queueEq ▸ member)
    | lruCache => exact ⟨new₂ node (lruCacheEq ▸ member), holds₂.old node (lruCacheEq ▸ member)⟩
    | allPcb => exact new₃ node (allPcbEq ▸ member)
  refine ⟨lists, heap₃, fun _ => [], ?_, ⟨fun name => ?_, fun one two different node member inside => ?_⟩,
    by rw [queueEq, equal₁], by rw [lruCacheEq, equal₂], by rw [allPcbEq, equal₃]⟩
  · rw [kernelSetup, ran₁]
    change (LinkedList.listInit pageEqual heap₁ >>= _) = _
    rw [ran₂]
    change (LinkedList.listInit pcbEqual heap₂ >>= _) = _
    rw [ran₃, listsEq]
    rfl
  · cases name with
    | queue =>
        rw [queueEq]
        exact (holds₁.keep keeps₂ fun _ _ => List.not_mem_nil).keep keeps₃ fun _ _ => List.not_mem_nil
    | lruCache =>
        rw [lruCacheEq]
        exact holds₂.keep keeps₃ fun _ _ => List.not_mem_nil
    | allPcb =>
        rw [allPcbEq]
        exact holds₃
  · have later := keeps₂.later
    have placeOne := place one node member
    have placeTwo := place two node inside
    cases one <;> cases two <;> first
      | exact different rfl
      | dsimp only at placeOne placeTwo; omega

/-- From `kernel_setup` on, the calls on the three lists do to each of them what they do on a sequence of its own. -/
theorem lists_areSequences (equal : KernelList → Data → Data → Bool) (sameEqual : equal .allPcb = equal .queue)
    (heap : NodeHeap Data) (operations : List (KernelList × ListOperation Data)) {values : List (Returned Data)}
    {contents : KernelList → List Data} (allowed : allOnSequences equal operations (fun _ => []) = some (values, contents)) :
    ∃ (lists : KernelList → LinkedList Data) (final : NodeHeap Data) (nodes : KernelList → List Nat), (do
        let (lists, heap) ← kernelSetup (equal .queue) (equal .lruCache) heap
        performAll operations lists heap) = .ok (values, lists, final) ∧ Hold lists final nodes contents := by
  obtain ⟨lists, start, nodes, created, hold, queueEq, lruCacheEq, allPcbEq⟩ :=
    kernelSetup_hold (equal .queue) (equal .lruCache) heap
  obtain ⟨listsAfter, final, nodesAfter, ran, after⟩ := hold.performAll equal operations (fun name => by
    cases name with
    | queue => exact queueEq
    | lruCache => exact lruCacheEq
    | allPcb => rw [allPcbEq, sameEqual]) allowed
  refine ⟨listsAfter, final, nodesAfter, ?_, after⟩
  rw [created]
  exact ran

end KernelList

end MockOS.Proc
