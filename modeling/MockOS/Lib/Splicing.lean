import MockOS.Lib.DoublyLinked

namespace MockOS.Lib

variable {Node : Type} {next prev nextAfter prevAfter : Node → Option Node} {head tail first second opening closing : Node}
  {before after outer rest part inner front : List Node}

namespace DoublyLinked

/-- Two chains whose ends point at each other are one. -/
theorem join (left : DoublyLinked next prev (before ++ [first])) (right : DoublyLinked next prev (second :: after))
    (forth : next first = some second) (back : prev second = some first) :
    DoublyLinked next prev (before ++ first :: second :: after) :=
  append_cons_cons_iff.mpr ⟨left, ⟨forth, back⟩, right⟩

/-- Links that leave a chain do not matter. -/
theorem of_same (linked : DoublyLinked next prev part) (sameNext : ∀ node ∈ part, nextAfter node = next node)
    (samePrev : ∀ node ∈ part, prevAfter node = prev node) : DoublyLinked nextAfter prevAfter part :=
  linked.congr (fun node inside => sameNext node (List.dropLast_subset _ inside))
    fun node inside => samePrev node (List.mem_of_mem_tail inside)

end DoublyLinked

namespace Between

/-- A part is cut out when what stands around it points at each other. -/
theorem cut (between : Between next prev head tail (before ++ part ++ after)) (starts : head :: before = outer ++ [first])
    (ends : after ++ [tail] = second :: rest) (forth : nextAfter first = some second)
    (sameNext : ∀ other, other ≠ first → nextAfter other = next other) (back : prevAfter second = some first)
    (samePrev : ∀ other, other ≠ second → prevAfter other = prev other) :
    Between nextAfter prevAfter head tail (before ++ after) ∧ DoublyLinked nextAfter prevAfter part := by
  obtain ⟨linked, nodup⟩ := between
  have whole : head :: (before ++ part ++ after) ++ [tail] = (outer ++ [first]) ++ part ++ second :: rest := by
    rw [← starts, ← ends]
    simp
  rw [whole] at linked nodup
  obtain ⟨leftLinked, rightLinked, _⟩ := List.isChain_append.mp linked
  obtain ⟨outerLinked, partLinked, _⟩ := List.isChain_append.mp leftLinked
  have less : (outer ++ first :: second :: rest).Nodup := by
    refine nodup.sublist ?_
    rw [List.append_cons]
    exact (List.sublist_append_left _ part).append (.refl _)
  have firstApart : first ∉ part := fun inside => by
    rw [List.append_assoc, List.nodup_append'] at nodup
    exact nodup.2.2 (by simp) (List.mem_append_left _ inside)
  have secondApart : second ∉ part := fun inside => by
    rw [List.nodup_append'] at nodup
    exact nodup.2.2 (List.mem_append_right _ inside) List.mem_cons_self
  obtain ⟨leftAfter, rightAfter⟩ := DoublyLinked.relink outerLinked rightLinked less (fun other _ => sameNext other)
    fun other _ => samePrev other
  refine ⟨⟨?_, ?_⟩, DoublyLinked.of_same partLinked (fun node inside => sameNext node (ne_of_mem_of_not_mem inside firstApart))
    fun node inside => samePrev node (ne_of_mem_of_not_mem inside secondApart)⟩
  · rw [around starts ends]
    exact leftAfter.join rightAfter forth back
  · rw [around starts ends]
    exact less

/-- A chain of other nodes is put between two neighbours. -/
theorem paste (between : Between next prev head tail (before ++ after)) (chain : DoublyLinked next prev part)
    (nodup : part.Nodup) (fresh : ∀ node ∈ part, node ∉ head :: (before ++ after) ++ [tail])
    (starts : head :: before = outer ++ [first]) (ends : after ++ [tail] = second :: rest)
    (opens : part = opening :: inner) (closes : part = front ++ [closing])
    (toOpening : nextAfter first = some opening) (fromClosing : nextAfter closing = some second)
    (sameNext : ∀ other, other ≠ first → other ≠ closing → nextAfter other = next other)
    (backToClosing : prevAfter second = some closing) (backFromOpening : prevAfter opening = some first)
    (samePrev : ∀ other, other ≠ second → other ≠ opening → prevAfter other = prev other) :
    Between nextAfter prevAfter head tail (before ++ part ++ after) := by
  obtain ⟨linked, nodupWhole⟩ := between
  rw [around starts ends] at linked nodupWhole fresh
  obtain ⟨left, _, right⟩ := DoublyLinked.append_cons_cons_iff.mp linked
  have openingIn : opening ∈ part := opens ▸ List.mem_cons_self
  have closingIn : closing ∈ part := closes ▸ List.mem_append_right _ (List.mem_singleton_self closing)
  obtain ⟨leftAfter, rightAfter⟩ := left.relink right nodupWhole
    (fun other inside different => sameNext other different fun same => fresh closing closingIn (same ▸ inside))
    fun other inside different => samePrev other different fun same => fresh opening openingIn (same ▸ inside)
  have chainAfter : DoublyLinked nextAfter prevAfter part := by
    refine chain.congr (fun node inside => ?_) fun node inside => ?_
    · refine sameNext node (fun same => fresh node (List.dropLast_subset _ inside) (by simp [same])) ?_
      rintro rfl
      rw [closes, List.dropLast_concat] at inside
      rw [closes, List.nodup_append'] at nodup
      exact nodup.2.2 inside (List.mem_singleton_self _)
    · refine samePrev node (fun same => fresh node (List.mem_of_mem_tail inside) (by simp [same])) ?_
      rintro rfl
      rw [opens, List.tail_cons] at inside
      rw [opens, List.nodup_cons] at nodup
      exact nodup.1 inside
  have whole : head :: (before ++ part ++ after) ++ [tail] = (outer ++ [first]) ++ (part ++ second :: rest) := by
    rw [← starts, ← ends]
    simp
  constructor
  · rw [whole]
    refine List.isChain_append.mpr ⟨leftAfter, List.isChain_append.mpr ⟨chainAfter, rightAfter, ?_⟩, ?_⟩
    · rw [closes]
      simpa using ⟨fromClosing, backToClosing⟩
    · rw [opens]
      simpa using ⟨toOpening, backFromOpening⟩
  · rw [whole]
    refine List.Perm.nodup_iff ?_ |>.mp (List.nodup_append'.mpr ⟨nodup, nodupWhole, fun node inside member =>
      fresh node inside member⟩)
    rw [List.append_cons outer first]
    exact List.perm_append_comm_assoc _ _ _

end Between

end MockOS.Lib
