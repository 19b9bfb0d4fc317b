import MockOS.Fs.Allocation
import MockOS.Fs.Respects

namespace MockOS.Fs

/-- The sectors were taken from the lowest free one upwards, unless an allocation failed. -/
structure FirstFit (world next : World) : Prop where
  limit : next.limit = world.limit
  failures : world.mem.allocationFailures ≤ next.mem.allocationFailures
  used : next.mem.allocationFailures = world.mem.allocationFailures → ∀ sector, world.used sector → next.used sector
  first : next.mem.allocationFailures = world.mem.allocationFailures → ∀ taken other, next.used taken →
    ¬ world.used taken → other.toNat < world.limit → ¬ next.used other → taken.toNat < other.toNat

variable {world middle next : World} {sector : BlockSector}

instance : IsPreorder World FirstFit where
  refl _ := ⟨rfl, Nat.le_refl _, fun _ _ used => used, fun _ _ _ used unused => absurd used unused⟩
  trans before between after one two := by
    have ordered := one.failures
    have later := two.failures
    refine ⟨two.limit.trans one.limit, Nat.le_trans ordered later, fun same sector used => ?_,
      fun same taken other used unused inside isFree => ?_⟩
    · exact two.used (by omega) sector (one.used (by omega) sector used)
    · by_cases here : between.used taken
      · exact one.first (by omega) taken other here unused inside fun still => isFree (two.used (by omega) other still)
      · exact two.first (by omega) taken other used here (one.limit ▸ inside) isFree

/-- A step that leaves the free map. -/
theorem FirstFit.of_freeMap (map : next.mem.freeMap = world.mem.freeMap)
    (failures : next.mem.allocationFailures = world.mem.allocationFailures) : FirstFit world next := by
  refine ⟨by rw [World.limit, map, World.limit], failures.ge, fun _ sector used => ?_, fun _ taken _ used unused => ?_⟩
  · rwa [World.used, map]
  · rw [World.used, map] at used
    exact absurd used unused

/-- The lowest free bit is set. -/
theorem firstFit_mark {index : Nat} {bitmap : Bitmap} (found : world.mem.freeMap.bitmapScan 0 1 false = some index)
    (marked : world.mem.freeMap.bitmapSetMultiple index 1 true = some bitmap) :
    FirstFit world ⟨{ world.mem with freeMap := bitmap }, world.disk⟩ := by
  rw [Bitmap.bitmapSetMultiple_one true (Bitmap.bitmapScan_some found).1, Option.some.injEq] at marked
  subst marked
  refine ⟨rfl, Nat.le_refl _, fun _ sector used => ?_, fun _ taken other used unused inside isFree => ?_⟩
  · change (world.mem.freeMap.mark index true).bits sector.toNat = true
    rw [Bitmap.mark_bits]
    split_ifs
    · rfl
    · exact used
  · change (world.mem.freeMap.mark index true).bits taken.toNat = true at used
    change ¬ (world.mem.freeMap.mark index true).bits other.toNat = true at isFree
    rw [Bitmap.mark_bits] at used isFree
    split_ifs at used isFree with here there there
    · exact absurd rfl isFree
    · rw [here]
      exact Nat.lt_of_le_of_ne (Bitmap.bitmapScan_first found (Bool.not_eq_true _ ▸ isFree)) fun same => there same.symm
    · exact absurd rfl isFree
    · exact absurd used unused

/-- An allocation that goes back fails. -/
theorem firstFit_allocate {writeAt : WriteAt} (writes : ∀ pointer buffer size offset,
    Respects FirstFit (writeAt pointer buffer size offset)) : Respects FirstFit (freeMapAllocateBy writeAt 1) := by
  have failed : ∀ world : World, FirstFit world world.failed := fun world =>
    ⟨rfl, Nat.le_succ _, fun _ _ used => used, fun _ _ _ used unused => absurd used unused⟩
  intro world value next ran
  rw [freeMapAllocateBy, run_bind, run_get, Option.bind_some] at ran
  cases found : world.mem.freeMap.bitmapScan 0 1 false with
  | none =>
      simp only [found, run_allocationFailed, Option.some.injEq, Prod.mk.injEq] at ran
      exact ran.2 ▸ failed world
  | some index =>
      have marked := Bitmap.bitmapSetMultiple_one true (Bitmap.bitmapScan_some found).1
      have taken := firstFit_mark found marked
      simp only [found, marked, run_bind, run_setFreeMap, Option.bind_some] at ran
      split_ifs at ran with closed
      · rw [run_pure, Option.some.injEq, Prod.mk.injEq] at ran
        exact ran.2 ▸ taken
      · obtain ⟨written, stored, ranWrite, rest⟩ := run_bind_some.mp ran
        have same := trans_of FirstFit taken (respects_bitmapWrite writes _ _ _ ranWrite)
        split_ifs at rest with complete
        · rw [run_pure, Option.some.injEq, Prod.mk.injEq] at rest
          exact rest.2 ▸ same
        · obtain ⟨mem, _, ranMem, rest⟩ := run_bind_some.mp rest
          rw [run_get, Option.some.injEq, Prod.mk.injEq] at ranMem
          obtain ⟨rfl, rfl⟩ := ranMem
          obtain ⟨_, freed, ranFree, rest⟩ := run_bind_some.mp rest
          rw [setFreeMap] at ranFree
          obtain ⟨bitmap, _, ranBits, ranSet⟩ := run_bind_some.mp ranFree
          obtain ⟨cleared, rfl⟩ := run_deref_eq ranBits
          rw [run_modify, Option.some.injEq, Prod.mk.injEq] at ranSet
          obtain ⟨-, rfl⟩ := ranSet
          rw [run_allocationFailed, Option.some.injEq, Prod.mk.injEq] at rest
          obtain ⟨-, rfl⟩ := rest
          have counted := same.failures
          refine ⟨(Bitmap.bitmapSetMultiple_bitCnt cleared).trans same.limit, Nat.le_succ_of_le counted,
            fun equal => ?_, fun equal => ?_⟩
          · exact absurd equal (Nat.lt_succ_of_le counted).ne'
          · exact absurd equal (Nat.lt_succ_of_le counted).ne'

theorem firstFit_steps : WriteSteps FirstFit where
  write _ _ world _ _ ran := by
    obtain ⟨-, rfl⟩ := Prod.mk.inj (Option.some.inj ran)
    exact .of_freeMap rfl rfl
  setInode _ same ran := by
    obtain ⟨-, rfl⟩ := Prod.mk.inj (Option.some.inj ran)
    refine trans_of FirstFit same ?_
    exact .of_freeMap rfl rfl
  allocate writes := firstFit_allocate writes

/-- The free sectors are all the sectors from `m` on. -/
def World.FreeFrom (world : World) (m : Nat) : Prop :=
  ∀ sector : BlockSector, sector.toNat < world.limit → (world.used sector ↔ sector.toNat < m)

/-- What is taken from the lowest sector on leaves the rest. -/
theorem FirstFit.freeFrom (fit : FirstFit world next)
    (failures : next.mem.allocationFailures = world.mem.allocationFailures) {m : Nat} (freeFrom : world.FreeFrom m) :
    ∃ m', next.FreeFrom m' := by
  by_cases room : ∃ index, ∃ other : BlockSector, other.toNat = index ∧ index < next.limit ∧ ¬ next.used other
  · classical
    obtain ⟨lowest, same, inside, isFree⟩ := Nat.find_spec room
    refine ⟨Nat.find room, fun sector small => ⟨fun isUsed => ?_, fun below => ?_⟩⟩
    · by_cases before : world.used sector
      · rw [← same]
        by_contra above
        rw [fit.limit] at small
        have low := (freeFrom sector small).mp before
        have alsoUsed := (freeFrom lowest (by omega)).mpr (by omega)
        exact isFree (fit.used failures lowest alsoUsed)
      · rw [← same] at inside ⊢
        exact fit.first failures sector lowest isUsed before (fit.limit ▸ inside) isFree
    · by_contra unused
      exact Nat.find_min room below ⟨sector, rfl, small, unused⟩
  · refine ⟨next.limit, fun sector small => ⟨fun _ => small, fun _ => ?_⟩⟩
    by_contra unused
    exact room ⟨sector.toNat, sector, rfl, small, unused⟩

end MockOS.Fs
