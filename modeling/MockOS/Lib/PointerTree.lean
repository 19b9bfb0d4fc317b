import Mathlib.Data.List.FinRange
import Mathlib.Data.List.Nodup
import Mathlib.Tactic.Common
import Mathlib.Algebra.Group.Nat.Defs

namespace MockOS.Lib

/-- A tree of fixed fan-out whose nodes are addresses in a store; the null address has no node. -/
structure PointerTree (Address Block : Type) (fan : Nat) where
  null : Address
  children : Block → Fin fan → Address

namespace PointerTree

variable {Address Block : Type} [DecidableEq Address] {fan : Nat} (tree : PointerTree Address Block fan)

def child (store : Address → Block) (entry : Address) (index : Fin fan) : Address :=
  if entry = tree.null then tree.null else tree.children (store entry) index

/-- The node at the end of a path. -/
def follow (store : Address → Block) (entry : Address) : List (Fin fan) → Address
  | [] => entry
  | index :: path => follow store (tree.child store entry index) path

@[simp] theorem follow_nil (store : Address → Block) (entry : Address) : tree.follow store entry [] = entry := rfl

@[simp] theorem follow_cons (store : Address → Block) (entry : Address) (index : Fin fan)
    (path : List (Fin fan)) : tree.follow store entry (index :: path) =
      tree.follow store (tree.child store entry index) path := rfl

@[simp] theorem child_null (store : Address → Block) (index : Fin fan) :
    tree.child store tree.null index = tree.null := by simp [child]

@[simp] theorem follow_null (store : Address → Block) (path : List (Fin fan)) :
    tree.follow store tree.null path = tree.null := by
  induction path with
  | nil => rfl
  | cons index path ih => rw [follow_cons, child_null, ih]

theorem child_of_ne {store : Address → Block} {entry : Address} (present : entry ≠ tree.null)
    (index : Fin fan) : tree.child store entry index = tree.children (store entry) index := by
  rw [child, if_neg present]

/-- A node below the root exists only when the root does. -/
theorem root_of_follow {store : Address → Block} {entry : Address} {path : List (Fin fan)}
    (present : tree.follow store entry path ≠ tree.null) : entry ≠ tree.null := by
  intro absent
  rw [absent, follow_null] at present
  exact present rfl

/-- Stores that agree on the inner nodes have the same tree. -/
theorem follow_congr {store other : Address → Block} (level : Nat) {entry : Address}
    (agree : ∀ path, path.length < level → tree.follow store entry path ≠ tree.null →
      other (tree.follow store entry path) = store (tree.follow store entry path))
    {path : List (Fin fan)} (within : path.length ≤ level) :
    tree.follow other entry path = tree.follow store entry path := by
  induction path generalizing entry level with
  | nil => rfl
  | cons index path ih =>
      obtain ⟨level, rfl⟩ : ∃ below, level = below + 1 := ⟨level - 1, by simp at within; omega⟩
      have same : tree.child other entry index = tree.child store entry index := by
        by_cases absent : entry = tree.null
        · rw [absent, child_null, child_null]
        · rw [child_of_ne tree absent, child_of_ne tree absent]
          rw [show other entry = store entry from agree [] (by simp) absent]
      rw [follow_cons, follow_cons, same]
      apply ih level
      · intro path small present
        exact agree (index :: path) (by simpa using small) present
      · simpa using within

/-- Stores that agree on the nodes above a node lead to the same node. -/
theorem follow_congr_path {store other : Address → Block} {entry : Address} {path : List (Fin fan)}
    (agree : ∀ first second, path = first ++ second → second ≠ [] →
      other (tree.follow store entry first) = store (tree.follow store entry first)) :
    tree.follow other entry path = tree.follow store entry path := by
  induction path generalizing entry with
  | nil => rfl
  | cons index path ih =>
      have same : tree.child other entry index = tree.child store entry index := by
        rw [child, child, show other entry = store entry from agree [] (index :: path) rfl (by simp)]
      rw [follow_cons, follow_cons, same]
      apply ih
      intro first second split longer
      exact agree (index :: first) second (by rw [split]; rfl) longer

end PointerTree

/-- The places that a loop over some entries visits: each entry takes at most `unit` of the leaves. -/
def entryPlaces {fan count : Nat} (below : Nat → List (List (Fin fan))) (unit : Nat) :
    List (Fin count) → Nat → List (Fin count × List (Fin fan))
  | [], _ => []
  | index :: rest, leaves =>
      (below (min leaves unit)).map (fun path => (index, path)) ++
        entryPlaces below unit rest (leaves - min leaves unit)

/-- The nodes needed for the first leaves of a tree, each before the nodes below it. -/
def places (fan : Nat) : Nat → Nat → List (List (Fin fan))
  | 0, _ => [[]]
  | level + 1, leaves => [] :: (entryPlaces (places fan level) (fan ^ level)
      ((List.finRange fan).take ((leaves + fan ^ level - 1) / fan ^ level)) leaves).map fun place =>
        place.1 :: place.2

section EntryPlaces

variable {fan count : Nat} {below : Nat → List (List (Fin fan))} {unit : Nat}

theorem entryPlaces_index {indices : List (Fin count)} {leaves : Nat} {place : Fin count × List (Fin fan)}
    (member : place ∈ entryPlaces below unit indices leaves) :
    place.1 ∈ indices ∧ ∃ leaves, place.2 ∈ below (min leaves unit) := by
  induction indices generalizing leaves with
  | nil => cases member
  | cons index rest ih =>
      rcases List.mem_append.mp member with here | later
      · obtain ⟨path, inside, rfl⟩ := List.mem_map.mp here
        exact ⟨List.mem_cons_self, leaves, inside⟩
      · obtain ⟨found, inside⟩ := ih later
        exact ⟨List.mem_cons_of_mem _ found, inside⟩

theorem entryPlaces_nodup {indices : List (Fin count)} (leaves : Nat) (distinct : indices.Nodup)
    (belowDistinct : ∀ leaves, (below leaves).Nodup) : (entryPlaces below unit indices leaves).Nodup := by
  induction indices generalizing leaves with
  | nil => exact List.nodup_nil
  | cons index rest ih =>
      obtain ⟨absent, restDistinct⟩ := List.nodup_cons.mp distinct
      apply List.nodup_append'.mpr
      refine ⟨(belowDistinct _).map fun first second same => (Prod.mk.inj same).2, ih _ restDistinct, ?_⟩
      intro place here later
      obtain ⟨path, _, rfl⟩ := List.mem_map.mp here
      exact absent (entryPlaces_index later).1

/-- On the lowest level there is one node for each entry. -/
theorem entryPlaces_leaves (indices : List (Fin count)) (leaves : Nat) :
    entryPlaces (places fan 0) unit indices leaves = indices.map fun index => (index, []) := by
  induction indices generalizing leaves with
  | nil => rfl
  | cons index rest ih =>
      rw [entryPlaces, ih]
      rfl

/-- Consecutive entries divide the leaves among them. -/
theorem mem_entryPlaces {indices : List (Fin count)} {start leaves : Nat}
    (consecutive : indices.map Fin.val = List.range' start indices.length) (index : Fin count)
    (path : List (Fin fan)) : (index, path) ∈ entryPlaces below unit indices leaves ↔
      index ∈ indices ∧ path ∈ below (min (leaves - (index.val - start) * unit) unit) := by
  induction indices generalizing start leaves with
  | nil => simp [entryPlaces]
  | cons first rest ih =>
      rw [List.map_cons, List.length_cons, List.range'_succ, List.cons.injEq] at consecutive
      obtain ⟨rfl, restConsecutive⟩ := consecutive
      have later : ∀ other ∈ rest, first.val < other.val := by
        intro other member
        have := restConsecutive ▸ List.mem_map_of_mem (f := Fin.val) member
        have := List.mem_range'_1.mp this
        omega
      rw [entryPlaces, List.mem_append, ih restConsecutive, List.mem_cons]
      simp only [List.mem_map, Prod.mk.injEq]
      constructor
      · rintro (⟨path, inside, rfl, rfl⟩ | ⟨member, inside⟩)
        · exact ⟨.inl rfl, by simpa using inside⟩
        · have := later index member
          refine ⟨.inr member, ?_⟩
          rw [show leaves - min leaves unit - (index.val - (first.val + 1)) * unit =
            leaves - (index.val - first.val) * unit from ?_] at inside
          · exact inside
          · obtain ⟨gap, ge⟩ : ∃ gap, index.val - first.val = gap + 1 := ⟨index.val - first.val - 1, by omega⟩
            rw [ge, show index.val - (first.val + 1) = gap from by omega, Nat.succ_mul]
            omega
      · rintro ⟨rfl | member, inside⟩
        · exact .inl ⟨path, by simpa using inside, rfl, rfl⟩
        · have := later index member
          refine .inr ⟨member, ?_⟩
          rw [show leaves - min leaves unit - (index.val - (first.val + 1)) * unit =
            leaves - (index.val - first.val) * unit from ?_]
          · exact inside
          · obtain ⟨gap, ge⟩ : ∃ gap, index.val - first.val = gap + 1 := ⟨index.val - first.val - 1, by omega⟩
            rw [ge, show index.val - (first.val + 1) = gap from by omega, Nat.succ_mul]
            omega

end EntryPlaces

theorem take_finRange_consecutive {count : Nat} (taken : Nat) :
    ((List.finRange count).take taken).map Fin.val =
      List.range' 0 ((List.finRange count).take taken).length := by
  rw [List.map_take, List.length_take, List.length_finRange]
  apply List.ext_getElem
  · simp
  · intro index small _
    simp

theorem mem_take_finRange {count taken : Nat} (index : Fin count) :
    index ∈ (List.finRange count).take taken ↔ index.val < taken := by
  rw [List.mem_take_iff_getElem]
  constructor
  · rintro ⟨position, small, rfl⟩
    simp at small ⊢
    omega
  · intro small
    exact ⟨index.val, by simp; omega, by simp⟩

section Places

variable {fan : Nat}

theorem mem_places_succ {level leaves : Nat} {path : List (Fin fan)} :
    path ∈ places fan (level + 1) leaves ↔ path = [] ∨ ∃ index below, path = index :: below ∧
      index.val < (leaves + fan ^ level - 1) / fan ^ level ∧
      below ∈ places fan level (min (leaves - index.val * fan ^ level) (fan ^ level)) := by
  rw [places, List.mem_cons]
  apply or_congr Iff.rfl
  simp only [List.mem_map, Prod.exists]
  constructor
  · rintro ⟨index, below, member, rfl⟩
    obtain ⟨small, inside⟩ := (mem_entryPlaces (take_finRange_consecutive _) index below).mp member
    exact ⟨index, below, rfl, (mem_take_finRange index).mp small, by simpa using inside⟩
  · rintro ⟨index, below, rfl, small, inside⟩
    refine ⟨index, below, ?_, rfl⟩
    exact (mem_entryPlaces (take_finRange_consecutive _) index below).mpr
      ⟨(mem_take_finRange index).mpr small, by simpa using inside⟩

theorem length_of_mem_places {level leaves : Nat} {path : List (Fin fan)} (member : path ∈ places fan level leaves) :
    path.length ≤ level := by
  induction level generalizing leaves path with
  | zero =>
      rw [List.mem_singleton.mp member]
      simp
  | succ level ih =>
      rcases mem_places_succ.mp member with rfl | ⟨index, below, rfl, _, inside⟩
      · simp
      · simpa using ih inside

theorem places_nodup (level leaves : Nat) : (places fan level leaves).Nodup := by
  induction level generalizing leaves with
  | zero => exact List.nodup_singleton _
  | succ level ih =>
      rw [places, List.nodup_cons]
      constructor
      · simp
      · apply (entryPlaces_nodup leaves ((List.nodup_finRange fan).sublist (List.take_sublist _ _)) ih).map
        rintro ⟨first, rest⟩ ⟨other, others⟩ same
        obtain ⟨rfl, rfl⟩ := List.cons.inj same
        rfl

theorem root_mem_places (level leaves : Nat) : ([] : List (Fin fan)) ∈ places fan level leaves := by
  cases level <;> simp [places]

/-- More leaves need the same places and others. -/
theorem places_mono {level few many : Nat} {path : List (Fin fan)} (positive : 0 < fan) (more : few ≤ many)
    (member : path ∈ places fan level few) : path ∈ places fan level many := by
  induction level generalizing few many path with
  | zero => exact member
  | succ level ih =>
      have unitPositive : 0 < fan ^ level := Nat.pow_pos positive
      rcases mem_places_succ.mp member with rfl | ⟨index, below, rfl, small, inside⟩
      · exact root_mem_places _ _
      · have rounded : (few + fan ^ level - 1) / fan ^ level ≤ (many + fan ^ level - 1) / fan ^ level :=
          Nat.div_le_div_right (by omega)
        exact mem_places_succ.mpr (.inr ⟨index, below, rfl, Nat.lt_of_lt_of_le small rounded, ih (by omega) inside⟩)

/-- With a place its ancestors are needed. -/
theorem places_prefix {level leaves : Nat} {first second : List (Fin fan)}
    (member : first ++ second ∈ places fan level leaves) : first ∈ places fan level leaves := by
  induction level generalizing leaves first with
  | zero =>
      rw [List.append_eq_nil_iff.mp (List.mem_singleton.mp member) |>.1]
      exact List.mem_singleton_self _
  | succ level ih =>
      cases first with
      | nil => exact root_mem_places _ _
      | cons index first =>
          rcases mem_places_succ.mp member with impossible | ⟨other, below, same, small, inside⟩
          · cases impossible
          · obtain ⟨rfl, rfl⟩ := List.cons.inj same
            exact mem_places_succ.mpr (.inr ⟨index, first, rfl, small, ih inside⟩)

/-- The nodes below some entries are counted by the leaves and the nodes at the entries. -/
theorem length_entryPlaces {count unit : Nat} {below : Nat → List (List (Fin fan))}
    (lengths : ∀ leaves ≤ unit, (below leaves).length = leaves + 1) {indices : List (Fin count)} {leaves : Nat}
    (enough : leaves ≤ indices.length * unit) :
    (entryPlaces below unit indices leaves).length = leaves + indices.length := by
  induction indices generalizing leaves with
  | nil =>
      rw [List.length_nil, Nat.zero_mul, Nat.le_zero] at enough
      rw [enough]
      rfl
  | cons index rest ih =>
      rw [List.length_cons, Nat.succ_mul] at enough
      rw [entryPlaces, List.length_append, List.length_map, lengths _ (Nat.min_le_right _ _), ih (by omega),
        List.length_cons]
      omega

/-- Entries before another have all their leaves. -/
theorem getElem?_entryPlaces {count unit : Nat} {below : Nat → List (List (Fin fan))} {indices : List (Fin count)}
    {first leaves rank : Nat} {index : Fin count} {path : List (Fin fan)} (there : indices[first]? = some index)
    (more : first * unit < leaves) (inside : (below (min (leaves - first * unit) unit))[rank]? = some path) :
    (entryPlaces below unit indices leaves)[first * (below unit).length + rank]? = some (index, path) := by
  induction indices generalizing first leaves with
  | nil => cases there
  | cons head rest ih =>
      cases first with
      | zero =>
          rw [List.getElem?_cons_zero, Option.some.injEq] at there
          rw [Nat.zero_mul, Nat.sub_zero] at inside
          obtain ⟨small, _⟩ := List.getElem?_eq_some_iff.mp inside
          rw [entryPlaces, Nat.zero_mul, Nat.zero_add, List.getElem?_append_left (by rwa [List.length_map]),
            List.getElem?_map, inside, there]
          rfl
      | succ first =>
          rw [List.getElem?_cons_succ] at there
          rw [Nat.succ_mul] at more inside
          have full : min leaves unit = unit := Nat.min_eq_right (by omega)
          have shifted : (first + 1) * (below unit).length + rank - (below unit).length =
              first * (below unit).length + rank := by
            rw [Nat.succ_mul]
            omega
          rw [entryPlaces, full, List.getElem?_append_right (by rw [List.length_map, Nat.succ_mul]; omega),
            List.length_map, shifted]
          apply ih there (by omega)
          rwa [Nat.sub_sub, Nat.add_comm unit]

theorem places_one {leaves : Nat} : places fan 1 leaves = [] :: ((List.finRange fan).take leaves).map fun index => [index] := by
  rw [places, entryPlaces_leaves, List.map_map, Nat.pow_zero, Nat.add_sub_cancel, Nat.div_one]
  rfl

theorem length_places_one {leaves : Nat} (fits : leaves ≤ fan) : (places fan 1 leaves).length = leaves + 1 := by
  rw [places_one, List.length_cons, List.length_map, List.length_take, List.length_finRange, Nat.min_eq_left fits]

theorem length_places_two {leaves : Nat} (fits : leaves ≤ fan * fan) :
    (places fan 2 leaves).length = leaves + (leaves + fan - 1) / fan + 1 := by
  have taken : min ((leaves + fan - 1) / fan) fan = (leaves + fan - 1) / fan := by
    rcases Nat.eq_zero_or_pos fan with rfl | positive
    · simp
    · apply Nat.min_eq_left
      rw [Nat.div_le_iff_le_mul_add_pred positive]
      omega
  have enough : leaves ≤ (leaves + fan - 1) / fan * fan := by
    rcases Nat.eq_zero_or_pos fan with rfl | positive
    · simpa using fits
    · have division := Nat.div_add_mod (leaves + fan - 1) fan
      have small := Nat.mod_lt (leaves + fan - 1) positive
      rw [Nat.mul_comm fan] at division
      omega
  have counted : ∀ {indices : List (Fin fan)}, indices.length = (leaves + fan - 1) / fan →
      (entryPlaces (places fan 1) fan indices leaves).length = leaves + (leaves + fan - 1) / fan := by
    intro indices length
    rw [length_entryPlaces (fun _ => length_places_one) (by rwa [length]), length]
  rw [places, List.length_cons, List.length_map, Nat.pow_one, counted]
  rw [List.length_take, List.length_finRange, taken]

/-- A leaf of a tree of one level is behind its root and the leaves before it. -/
theorem getElem?_places_one {leaf leaves : Nat} (inside : leaf < fan) (wanted : leaf < leaves) :
    (places fan 1 leaves)[1 + leaf]? = some [⟨leaf, inside⟩] := by
  rw [places_one, Nat.add_comm, List.getElem?_cons_succ, List.getElem?_map, List.getElem?_take_of_lt wanted,
    List.getElem?_eq_getElem (by rwa [List.length_finRange]), List.getElem_finRange]
  rfl

/-- A leaf of a tree of two levels is also behind the inner nodes up to its own. -/
theorem getElem?_places_two {leaf leaves : Nat} (inside : leaf < fan * fan) (wanted : leaf < leaves) (positive : 0 < fan) :
    (places fan 2 leaves)[1 + (leaf / fan * (fan + 1) + (1 + leaf % fan))]? =
      some [⟨leaf / fan, Nat.div_lt_of_lt_mul inside⟩, ⟨leaf % fan, Nat.mod_lt _ positive⟩] := by
  have split := Nat.div_add_mod leaf fan
  have small := Nat.mod_lt leaf positive
  have low : leaf / fan * fan < leaves := by
    rw [Nat.mul_comm]
    omega
  have first : leaf / fan < (leaves + fan - 1) / fan := by
    rw [Nat.lt_div_iff_mul_lt positive]
    omega
  have there : ((List.finRange fan).take ((leaves + fan ^ 1 - 1) / fan ^ 1))[leaf / fan]? =
      some ⟨leaf / fan, Nat.div_lt_of_lt_mul inside⟩ := by
    rw [Nat.pow_one, List.getElem?_take_of_lt first,
      List.getElem?_eq_getElem (by rw [List.length_finRange]; exact Nat.div_lt_of_lt_mul inside), List.getElem_finRange]
    rfl
  have here : (places fan 1 (min (leaves - leaf / fan * fan ^ 1) (fan ^ 1)))[1 + leaf % fan]? =
      some [⟨leaf % fan, Nat.mod_lt _ positive⟩] := by
    apply getElem?_places_one
    rw [Nat.pow_one, Nat.mul_comm]
    omega
  have found := getElem?_entryPlaces there (by rwa [Nat.pow_one]) here
  rw [Nat.pow_one, length_places_one (Nat.le_refl fan)] at found
  rw [places, Nat.add_comm 1, List.getElem?_cons_succ, List.getElem?_map, Nat.pow_one, found]
  rfl

/-- The path to a leaf has the digits of its number. -/
def leafPath (positive : 0 < fan) : Nat → Nat → List (Fin fan)
  | 0, _ => []
  | level + 1, leaf => ⟨leaf / fan ^ level % fan, Nat.mod_lt _ positive⟩ :: leafPath positive level (leaf % fan ^ level)

theorem length_leafPath (positive : 0 < fan) (level leaf : Nat) : (leafPath positive level leaf).length = level := by
  induction level generalizing leaf with
  | zero => rfl
  | succ level ih => simp [leafPath, ih]

theorem leafPath_mem_places (positive : 0 < fan) {level leaf leaves : Nat} (inside : leaf < fan ^ level)
    (wanted : leaf < leaves) : leafPath positive level leaf ∈ places fan level leaves := by
  induction level generalizing leaf leaves with
  | zero => exact List.mem_singleton_self _
  | succ level ih =>
      have unitPositive : 0 < fan ^ level := Nat.pow_pos positive
      have digit : leaf / fan ^ level < fan := by
        rw [Nat.div_lt_iff_lt_mul unitPositive, Nat.mul_comm]
        simpa [Nat.pow_succ] using inside
      have below := Nat.div_mul_le_self leaf (fan ^ level)
      have split := Nat.div_add_mod' leaf (fan ^ level)
      have small := Nat.mod_lt leaf unitPositive
      apply mem_places_succ.mpr
      refine .inr ⟨_, _, rfl, ?_, ?_⟩
      · simp only [Nat.mod_eq_of_lt digit]
        rw [Nat.lt_iff_add_one_le, Nat.le_div_iff_mul_le unitPositive, Nat.succ_mul]
        omega
      · simp only [Nat.mod_eq_of_lt digit]
        apply ih small
        omega

/-- The places needed for some leaves are the nodes on the ways to them. -/
theorem mem_places_iff (positive : 0 < fan) {level leaves : Nat} {path : List (Fin fan)} (some : 0 < leaves)
    (fits : leaves ≤ fan ^ level) :
    path ∈ places fan level leaves ↔ ∃ leaf < leaves, path <+: leafPath positive level leaf := by
  constructor
  · intro member
    induction level generalizing leaves path with
    | zero =>
        rw [List.mem_singleton.mp member]
        exact ⟨0, some, List.nil_prefix⟩
    | succ level ih =>
        have unitPositive : 0 < fan ^ level := Nat.pow_pos positive
        rcases mem_places_succ.mp member with rfl | ⟨index, below, rfl, small, inside⟩
        · exact ⟨0, some, List.nil_prefix⟩
        · have before : index.val * fan ^ level < leaves := by
            have upTo := (Nat.le_div_iff_mul_le unitPositive).mp (Nat.succ_le_of_lt small)
            rw [Nat.succ_mul] at upTo
            omega
          obtain ⟨leaf, leafSmall, isPrefix⟩ := ih (by omega) (Nat.min_le_right _ _) inside
          obtain ⟨leafBefore, leafInside⟩ := Nat.lt_min.mp leafSmall
          refine ⟨index.val * fan ^ level + leaf, by omega, ?_⟩
          have quotient : (index.val * fan ^ level + leaf) / fan ^ level % fan = index.val := by
            rw [Nat.add_comm, Nat.add_mul_div_right _ _ unitPositive, Nat.div_eq_of_lt leafInside, Nat.zero_add,
              Nat.mod_eq_of_lt index.isLt]
          have remainder : (index.val * fan ^ level + leaf) % fan ^ level = leaf := by
            rw [Nat.add_comm, Nat.add_mul_mod_self_right, Nat.mod_eq_of_lt leafInside]
          rw [leafPath, List.cons_prefix_cons, remainder]
          exact ⟨Fin.ext quotient.symm, isPrefix⟩
  · rintro ⟨leaf, small, rest, same⟩
    apply places_prefix
    rw [same]
    exact leafPath_mem_places positive (Nat.lt_of_lt_of_le small fits) small

end Places

end MockOS.Lib
