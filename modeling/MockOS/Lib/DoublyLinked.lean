import MockOS.Lib.LinkedList
import Mathlib.Data.List.Chain
import Mathlib.Logic.Function.Basic

namespace MockOS.Lib

variable {Node : Type} {next prev nextAfter prevAfter : Node → Option Node}
  {head tail first second node : Node} {nodes before after outer rest : List Node}

/-- Every node points at the one behind it, which points back. -/
def DoublyLinked (next prev : Node → Option Node) (nodes : List Node) : Prop :=
  nodes.IsChain fun first second => next first = some second ∧ prev second = some first

namespace DoublyLinked

theorem reverse (linked : DoublyLinked next prev nodes) : DoublyLinked prev next nodes.reverse :=
  List.isChain_reverse.mpr (linked.imp fun _ _ links => links.symm)

theorem append_cons_cons_iff : DoublyLinked next prev (before ++ first :: second :: after) ↔
    DoublyLinked next prev (before ++ [first]) ∧ (next first = some second ∧ prev second = some first) ∧
      DoublyLinked next prev (second :: after) := List.isChain_append_cons_cons

/-- The last node's `next` and the first node's `prev` do not matter. -/
theorem congr (linked : DoublyLinked next prev nodes)
    (sameNext : ∀ node ∈ nodes.dropLast, nextAfter node = next node)
    (samePrev : ∀ node ∈ nodes.tail, prevAfter node = prev node) : DoublyLinked nextAfter prevAfter nodes := by
  induction linked with
  | nil => exact .nil
  | singleton node => exact .singleton node
  | @cons_cons first second rest links _ ih =>
      rw [List.dropLast_cons_cons] at sameNext
      refine .cons_cons ⟨?_, ?_⟩ (ih (fun node inside => sameNext node (List.mem_cons_of_mem _ inside))
        fun node inside => samePrev node (List.mem_cons_of_mem _ inside))
      · rw [sameNext first List.mem_cons_self, links.1]
      · rw [samePrev second List.mem_cons_self, links.2]

/-- The two parts of a list on which only the link between them changes. -/
theorem relink (left : DoublyLinked next prev (outer ++ [first])) (right : DoublyLinked next prev (second :: rest))
    (nodup : (outer ++ first :: second :: rest).Nodup)
    (sameNext : ∀ other ∈ outer ++ first :: second :: rest, other ≠ first → nextAfter other = next other)
    (samePrev : ∀ other ∈ outer ++ first :: second :: rest, other ≠ second → prevAfter other = prev other) :
    DoublyLinked nextAfter prevAfter (outer ++ [first]) ∧ DoublyLinked nextAfter prevAfter (second :: rest) := by
  rw [List.nodup_append', List.nodup_cons, List.nodup_cons] at nodup
  obtain ⟨_, ⟨firstApart, secondApart, _⟩, disjoint⟩ := nodup
  have inRight : ∀ {other}, other ∈ second :: rest → other ∈ outer ++ first :: second :: rest := fun inside =>
    List.mem_append_right _ (List.mem_cons_of_mem _ inside)
  have inLeft : ∀ {other}, other ∈ outer ++ [first] → other ∈ outer ++ first :: second :: rest ∧ other ≠ second := by
    intro other inside
    rcases List.mem_append.mp inside with inside | inside
    · refine ⟨List.mem_append_left _ inside, ?_⟩
      rintro rfl
      exact disjoint inside (List.mem_cons_of_mem _ List.mem_cons_self)
    · rw [List.mem_singleton.mp inside]
      exact ⟨List.mem_append_right _ List.mem_cons_self, (ne_of_mem_of_not_mem List.mem_cons_self firstApart).symm⟩
  constructor
  · refine left.congr (fun other inside => ?_) fun other inside => ?_
    · rw [List.dropLast_concat] at inside
      refine sameNext other (List.mem_append_left _ inside) ?_
      rintro rfl
      exact disjoint inside List.mem_cons_self
    · obtain ⟨here, different⟩ := inLeft (List.mem_of_mem_tail inside)
      exact samePrev other here different
  · refine right.congr (fun other inside => ?_) fun other inside => ?_
    · have inside := List.dropLast_subset _ inside
      exact sameNext other (inRight inside) (ne_of_mem_of_not_mem inside firstApart)
    · exact samePrev other (inRight (List.mem_cons_of_mem _ inside)) (ne_of_mem_of_not_mem inside secondApart)

/-- The links lead from the first node to the last. -/
theorem segment (linked : DoublyLinked next prev (head :: nodes ++ [tail])) :
    Segment next (next head) nodes (some tail) := by
  induction nodes generalizing head with
  | nil =>
      obtain ⟨links, _⟩ := List.isChain_cons_cons.mp linked
      exact links.1
  | cons node rest ih =>
      obtain ⟨links, follows⟩ := List.isChain_cons_cons.mp linked
      exact ⟨links.1, ih follows⟩

end DoublyLinked

/-- The nodes between two sentinels. -/
structure Between (next prev : Node → Option Node) (head tail : Node) (nodes : List Node) : Prop where
  linked : DoublyLinked next prev (head :: nodes ++ [tail])
  nodup : (head :: nodes ++ [tail]).Nodup

theorem between_nil (different : head ≠ tail) (forward : next head = some tail) (backward : prev tail = some head) :
    Between next prev head tail [] :=
  ⟨.cons_cons ⟨forward, backward⟩ (.singleton tail), by simpa using different⟩

namespace Between

theorem forward (between : Between next prev head tail nodes) : Segment next (next head) nodes (some tail) :=
  between.linked.segment

theorem backward (between : Between next prev head tail nodes) : Segment prev (prev tail) nodes.reverse (some head) := by
  have reversed := between.linked.reverse
  rw [List.reverse_append, List.reverse_singleton, List.reverse_cons] at reversed
  exact DoublyLinked.segment reversed

/-- Links of other nodes, the way out of the last sentinel and into the first one do not matter. -/
theorem congr (between : Between next prev head tail nodes)
    (sameNext : ∀ node ∈ head :: nodes, nextAfter node = next node)
    (samePrev : ∀ node ∈ nodes ++ [tail], prevAfter node = prev node) : Between nextAfter prevAfter head tail nodes := by
  refine ⟨between.linked.congr (fun node inside => sameNext node ?_) samePrev, between.nodup⟩
  rwa [List.dropLast_concat] at inside

/-- What stands before a place: the first sentinel or a node. -/
theorem exists_before (head : Node) (before : List Node) : ∃ outer first, head :: before = outer ++ [first] :=
  ⟨_, _, (List.dropLast_append_getLast (List.cons_ne_nil head before)).symm⟩

/-- What stands behind a place: a node or the last sentinel. -/
theorem exists_behind (after : List Node) (tail : Node) : ∃ second rest, after ++ [tail] = second :: rest := by
  cases after with
  | nil => exact ⟨tail, [], rfl⟩
  | cons node rest => exact ⟨node, rest ++ [tail], rfl⟩

theorem around (starts : head :: before = outer ++ [first]) (ends : after ++ [tail] = second :: rest) :
    head :: (before ++ after) ++ [tail] = outer ++ first :: second :: rest := by
  rw [← List.cons_append, List.append_assoc, ends, starts, List.append_assoc, List.singleton_append]

/-- A node is put between two others, each of which may be a sentinel. -/
theorem insert (between : Between next prev head tail (before ++ after)) (fresh : node ∉ head :: (before ++ after) ++ [tail])
    (starts : head :: before = outer ++ [first]) (ends : after ++ [tail] = second :: rest)
    (toNode : nextAfter first = some node) (fromNode : nextAfter node = some second)
    (sameNext : ∀ other, other ≠ first → other ≠ node → nextAfter other = next other)
    (backToNode : prevAfter second = some node) (backFromNode : prevAfter node = some first)
    (samePrev : ∀ other, other ≠ second → other ≠ node → prevAfter other = prev other) :
    Between nextAfter prevAfter head tail (before ++ node :: after) := by
  have longer : head :: (before ++ node :: after) ++ [tail] = outer ++ first :: node :: second :: rest :=
    around starts (by rw [List.cons_append, ends])
  obtain ⟨linked, nodup⟩ := between
  rw [around starts ends] at linked nodup fresh
  obtain ⟨left, _, right⟩ := DoublyLinked.append_cons_cons_iff.mp linked
  obtain ⟨leftAfter, rightAfter⟩ := left.relink right nodup
    (fun other inside different => sameNext other different (ne_of_mem_of_not_mem inside fresh))
    fun other inside different => samePrev other different (ne_of_mem_of_not_mem inside fresh)
  constructor
  · rw [longer, DoublyLinked.append_cons_cons_iff]
    exact ⟨leftAfter, ⟨toNode, backFromNode⟩, .cons_cons ⟨fromNode, backToNode⟩ rightAfter⟩
  · rw [longer, List.append_cons]
    rw [List.append_cons] at nodup fresh
    exact List.perm_middle.nodup_iff.mpr (List.nodup_cons.mpr ⟨fresh, nodup⟩)

theorem neighbours (between : Between next prev head tail (before ++ node :: after))
    (starts : head :: before = outer ++ [first]) (ends : after ++ [tail] = second :: rest) :
    (next first = some node ∧ prev node = some first) ∧ next node = some second ∧ prev second = some node := by
  have linked := between.linked
  rw [around starts (show node :: after ++ [tail] = node :: second :: rest by rw [List.cons_append, ends]),
    DoublyLinked.append_cons_cons_iff] at linked
  exact ⟨linked.2.1, (List.isChain_cons_cons.mp linked.2.2).1⟩

/-- A node is taken out when its neighbours point at each other. -/
theorem remove (between : Between next prev head tail (before ++ node :: after))
    (starts : head :: before = outer ++ [first]) (ends : after ++ [tail] = second :: rest)
    (forth : nextAfter first = some second) (sameNext : ∀ other, other ≠ first → nextAfter other = next other)
    (back : prevAfter second = some first) (samePrev : ∀ other, other ≠ second → prevAfter other = prev other) :
    Between nextAfter prevAfter head tail (before ++ after) := by
  obtain ⟨linked, nodup⟩ := between
  rw [around starts (show node :: after ++ [tail] = node :: second :: rest by rw [List.cons_append, ends])]
    at linked nodup
  obtain ⟨left, _, inner⟩ := DoublyLinked.append_cons_cons_iff.mp linked
  obtain ⟨_, right⟩ := List.isChain_cons_cons.mp inner
  have less : (outer ++ first :: second :: rest).Nodup :=
    nodup.sublist (((List.sublist_cons_self node _).cons_cons first).append_left outer)
  obtain ⟨leftAfter, rightAfter⟩ := left.relink right less (fun other _ => sameNext other) fun other _ => samePrev other
  constructor
  · rw [around starts ends, DoublyLinked.append_cons_cons_iff]
    exact ⟨leftAfter, ⟨forth, back⟩, rightAfter⟩
  · rw [around starts ends]
    exact less

end Between

end MockOS.Lib
