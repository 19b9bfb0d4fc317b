import MockOS.Fs.Sector
import MockOS.Lib.StoreProgram
import Mathlib.Data.Finset.Card
import Mathlib.Data.Fintype.Basic

namespace MockOS.Fs

/-- This is `struct buffer_cache_entry_t`. -/
structure CacheEntry where
  occupied : Bool
  diskSector : BlockSector
  buffer : Sector
  dirty : Bool
  access : Bool

/-- The `BUFFER_CACHE_SIZE` slots, the clock hand of `buffer_cache_evict` and the block device behind them. -/
structure Cache where
  entries : Fin 64 → CacheEntry
  clock : Fin 64
  device : BlockSector → Sector

namespace Cache

def setEntry (cache : Cache) (slot : Fin 64) (entry : CacheEntry) : Cache :=
  { cache with entries := Function.update cache.entries slot entry }

/-- Only the two flags are reset: `access` and the clock hand keep what they held. -/
def bufferCacheInit (cache : Cache) : Cache :=
  { cache with entries := fun slot => { cache.entries slot with occupied := false, dirty := false } }

def bufferCacheFlush (cache : Cache) (slot : Fin 64) : Cache :=
  if (cache.entries slot).dirty then
    { (cache.setEntry slot { cache.entries slot with dirty := false }) with
      device := Function.update cache.device (cache.entries slot).diskSector (cache.entries slot).buffer }
  else cache

/-- The body of the loop of `buffer_cache_close`. -/
def bufferCacheCloseSlot (cache : Cache) (slot : Fin 64) : Cache :=
  if (cache.entries slot).occupied then cache.bufferCacheFlush slot else cache

@[irreducible] def bufferCacheClose (cache : Cache) : Cache :=
  (List.finRange 64).foldl bufferCacheCloseSlot cache

def bufferCacheLookup (cache : Cache) (sector : BlockSector) : Option (Fin 64) :=
  (List.finRange 64).find? fun slot =>
    (cache.entries slot).occupied && (cache.entries slot).diskSector == sector

/-- The clock loop for at most `fuel` rounds; `none` says that it has not stopped by then. -/
def bufferCacheEvictLoop : Nat → Cache → Option (Fin 64 × Cache)
  | 0, _ => none
  | fuel + 1, cache =>
      let entry := cache.entries cache.clock
      if !entry.occupied then
        some (cache.clock, cache)
      else if entry.access then
        -- give a second chance
        bufferCacheEvictLoop fuel
          { (cache.setEntry cache.clock { entry with access := false }) with clock := cache.clock + 1 }
      else
        let flushed := if entry.dirty then cache.bufferCacheFlush cache.clock else cache
        some (cache.clock,
          flushed.setEntry cache.clock { flushed.entries cache.clock with occupied := false })

/-- One round for each slot and one more are enough: `evictLoop_stops` below. -/
def bufferCacheEvict (cache : Cache) : Option (Fin 64 × Cache) :=
  bufferCacheEvictLoop 65 cache

/-- The miss path that `buffer_cache_read` and `buffer_cache_write` share. -/
def bufferCacheFill (cache : Cache) (sector : BlockSector) : Option (Fin 64 × Cache) :=
  match cache.bufferCacheLookup sector with
  | some slot => some (slot, cache)
  | none =>
      (cache.bufferCacheEvict).map fun (slot, evicted) =>
        (slot, evicted.setEntry slot { evicted.entries slot with
          occupied := true, diskSector := sector, dirty := false, buffer := evicted.device sector })

def bufferCacheRead (cache : Cache) (sector : BlockSector) : Option (Sector × Cache) :=
  (cache.bufferCacheFill sector).map fun (slot, filled) =>
    ((filled.entries slot).buffer, filled.setEntry slot { filled.entries slot with access := true })

def bufferCacheWrite (cache : Cache) (sector : BlockSector) (source : Sector) : Option Cache :=
  (cache.bufferCacheFill sector).map fun (slot, filled) =>
    filled.setEntry slot { filled.entries slot with access := true, dirty := true, buffer := source }

/-- No two occupied slots hold the same sector. -/
def Distinct (cache : Cache) : Prop :=
  ∀ first second, (cache.entries first).occupied → (cache.entries second).occupied →
    (cache.entries first).diskSector = (cache.entries second).diskSector → first = second

/-- The cache invariant: slots are distinct, and a clean slot agrees with the device. -/
structure Coherent (cache : Cache) : Prop where
  distinct : cache.Distinct
  clean : ∀ slot, (cache.entries slot).occupied → (cache.entries slot).dirty = false →
    (cache.entries slot).buffer = cache.device (cache.entries slot).diskSector

/-- The sector contents as seen through the cache. -/
def view (cache : Cache) (sector : BlockSector) : Sector :=
  match cache.bufferCacheLookup sector with
  | some slot => (cache.entries slot).buffer
  | none => cache.device sector

@[simp] theorem setEntry_device (cache : Cache) (slot : Fin 64) (entry : CacheEntry) :
    (cache.setEntry slot entry).device = cache.device := rfl

@[simp] theorem setEntry_clock (cache : Cache) (slot : Fin 64) (entry : CacheEntry) :
    (cache.setEntry slot entry).clock = cache.clock := rfl

@[simp] theorem setEntry_same (cache : Cache) (slot : Fin 64) (entry : CacheEntry) :
    (cache.setEntry slot entry).entries slot = entry := by simp [setEntry]

theorem setEntry_other (cache : Cache) {slot other : Fin 64} (entry : CacheEntry) (different : other ≠ slot) :
    (cache.setEntry slot entry).entries other = cache.entries other := by simp [setEntry, different]

/-- A hit names an occupied slot that holds the sector. -/
theorem bufferCacheLookup_some {cache : Cache} {sector : BlockSector} {slot : Fin 64}
    (hit : cache.bufferCacheLookup sector = some slot) :
    (cache.entries slot).occupied ∧ (cache.entries slot).diskSector = sector := by
  simpa using List.find?_some hit

theorem bufferCacheLookup_none {cache : Cache} {sector : BlockSector} :
    cache.bufferCacheLookup sector = none ↔
      ∀ slot, (cache.entries slot).occupied → (cache.entries slot).diskSector ≠ sector := by
  simp [bufferCacheLookup, List.find?_eq_none]

theorem bufferCacheLookup_of_slot {cache : Cache} (distinct : cache.Distinct) {slot : Fin 64}
    (occupied : (cache.entries slot).occupied) :
    cache.bufferCacheLookup (cache.entries slot).diskSector = some slot := by
  cases found : cache.bufferCacheLookup (cache.entries slot).diskSector with
  | none => exact absurd rfl (bufferCacheLookup_none.mp found slot occupied)
  | some other =>
      have hit := bufferCacheLookup_some found
      rw [distinct other slot hit.1 occupied hit.2]

/-- An occupied slot shows its buffer. -/
theorem view_of_slot {cache : Cache} (distinct : cache.Distinct) (slot : Fin 64) {sector : BlockSector}
    (occupied : (cache.entries slot).occupied) (same : (cache.entries slot).diskSector = sector) :
    cache.view sector = (cache.entries slot).buffer := by
  rw [view, ← same, bufferCacheLookup_of_slot distinct occupied]

/-- A sector in no slot shows the device. -/
theorem view_of_absent {cache : Cache} {sector : BlockSector}
    (absent : ∀ slot, (cache.entries slot).occupied → (cache.entries slot).diskSector ≠ sector) :
    cache.view sector = cache.device sector := by
  rw [view, bufferCacheLookup_none.mpr absent]

end Cache
end MockOS.Fs
