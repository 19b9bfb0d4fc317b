import Mathlib.Data.List.Nodup
import Mathlib.Tactic.Common

namespace MockOS.Lib

variable {A : Type} [BEq A] {uses cache : List A} {item : A}

/-- A cache from the most to the least recently used item; `uses` lists all uses, the last one first. -/
structure ByRecency (uses cache : List A) : Prop where
  used : ∀ item ∈ cache, item ∈ uses
  ordered : cache.Pairwise fun newer older => uses.idxOf newer < uses.idxOf older

namespace ByRecency

theorem nodup (recency : ByRecency uses cache) : cache.Nodup :=
  recency.ordered.imp fun before same => absurd before (by rw [same]; exact Nat.lt_irrefl _)

theorem sublist {fewer : List A} (recency : ByRecency uses cache) (part : fewer.Sublist cache) : ByRecency uses fewer :=
  ⟨fun item member => recency.used item (part.mem member), recency.ordered.sublist part⟩

/-- The last item is the one whose last use is the oldest. -/
theorem oldest {victim : A} (recency : ByRecency uses cache) (last : cache.getLast? = some victim) :
    victim ∈ cache ∧ ∀ other ∈ cache, other ≠ victim → uses.idxOf other < uses.idxOf victim := by
  obtain ⟨rest, rfl⟩ := List.getLast?_eq_some_iff.mp last
  refine ⟨List.mem_append_right _ (List.mem_singleton_self victim), fun other member different => ?_⟩
  rcases List.mem_append.mp member with earlier | same
  · exact (List.pairwise_append.mp recency.ordered).2.2 other earlier victim (List.mem_singleton_self victim)
  · exact absurd (List.mem_singleton.mp same) different

variable [LawfulBEq A]

theorem idxOf_cons_of_mem (absent : item ∉ cache) {other : A} (member : other ∈ cache) :
    (item :: uses).idxOf other = uses.idxOf other + 1 :=
  List.idxOf_cons_ne _ (Ne.symm (ne_of_mem_of_not_mem member absent))

/-- Items that were used once each. -/
theorem ofNodup (distinct : uses.Nodup) : ByRecency uses uses where
  used := fun _ member => member
  ordered := by
    refine List.pairwise_iff_getElem.mpr fun i j first second before => ?_
    rw [distinct.idxOf_getElem i first, distinct.idxOf_getElem j second]
    exact before

/-- The use of an item outside of the cache leaves the order alone. -/
theorem skip (recency : ByRecency uses cache) (absent : item ∉ cache) : ByRecency (item :: uses) cache where
  used := fun other member => List.mem_cons_of_mem _ (recency.used other member)
  ordered := by
    refine recency.ordered.imp_of_mem fun first second before => ?_
    rw [idxOf_cons_of_mem absent first, idxOf_cons_of_mem absent second]
    exact Nat.succ_lt_succ before

theorem load (recency : ByRecency uses cache) (absent : item ∉ cache) : ByRecency (item :: uses) (item :: cache) where
  used := fun other member => by
    rcases List.mem_cons.mp member with rfl | inside
    · exact List.mem_cons_self
    · exact List.mem_cons_of_mem _ (recency.used other inside)
  ordered := by
    refine List.pairwise_cons.mpr ⟨fun other member => ?_, (recency.skip absent).ordered⟩
    rw [List.idxOf_cons_self, idxOf_cons_of_mem absent member]
    exact Nat.succ_pos _

/-- A used item moves to the front. -/
theorem touch (recency : ByRecency uses cache) (item : A) : ByRecency (item :: uses) (item :: cache.erase item) :=
  (recency.sublist List.erase_sublist).load recency.nodup.not_mem_erase

end ByRecency
end MockOS.Lib
