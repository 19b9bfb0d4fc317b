import MockOS.Fs.Cache

namespace MockOS.Fs.Cache

/-- Two caches with the same slot contents and device, whatever their access bits and clock hands. -/
structure SameSlots (first second : Cache) : Prop where
  occupied : ∀ slot, (first.entries slot).occupied = (second.entries slot).occupied
  diskSector : ∀ slot, (first.entries slot).diskSector = (second.entries slot).diskSector
  buffer : ∀ slot, (first.entries slot).buffer = (second.entries slot).buffer
  dirty : ∀ slot, (first.entries slot).dirty = (second.entries slot).dirty
  device : first.device = second.device

theorem SameSlots.view {first second : Cache} (same : first.SameSlots second) :
    first.view = second.view := by
  funext sector
  have lookups : first.bufferCacheLookup sector = second.bufferCacheLookup sector := by
    simp only [bufferCacheLookup, same.occupied, same.diskSector]
  simp only [Cache.view, lookups, same.buffer, same.device]

theorem SameSlots.coherent {first second : Cache} (same : first.SameSlots second)
    (coherent : second.Coherent) : first.Coherent where
  distinct := by
    intro i j
    simp only [same.occupied, same.diskSector]
    exact coherent.distinct i j
  clean := by
    intro slot
    simp only [same.occupied, same.diskSector, same.buffer, same.dirty, same.device]
    exact coherent.clean slot

/-- Changing the access bit of one slot and the clock hand shows nothing. -/
theorem sameSlots_access (cache : Cache) (slot clock : Fin 64) (bit : Bool) :
    SameSlots { (cache.setEntry slot { cache.entries slot with access := bit }) with clock := clock } cache where
  occupied other := by by_cases h : other = slot <;> simp [setEntry, h]
  diskSector other := by by_cases h : other = slot <;> simp [setEntry, h]
  buffer other := by by_cases h : other = slot <;> simp [setEntry, h]
  dirty other := by by_cases h : other = slot <;> simp [setEntry, h]
  device := rfl

/-- The slots whose access bit is set: the measure of the clock loop. -/
def accessed (cache : Cache) : Finset (Fin 64) :=
  Finset.univ.filter fun slot => (cache.entries slot).access

theorem mem_accessed {cache : Cache} {slot : Fin 64} : slot ∈ cache.accessed ↔ (cache.entries slot).access := by
  rw [accessed, Finset.mem_filter]
  exact ⟨And.right, fun set => ⟨Finset.mem_univ slot, set⟩⟩

theorem accessed_card_le (cache : Cache) : cache.accessed.card ≤ 64 :=
  (Finset.card_le_univ _).trans_eq (Fintype.card_fin 64)

/-- A second chance takes one slot out of the measure. -/
theorem accessed_secondChance (cache : Cache) (slot clock : Fin 64) (set : (cache.entries slot).access) :
    (accessed { (cache.setEntry slot { cache.entries slot with access := false }) with
      clock := clock }).card < cache.accessed.card := by
  apply Finset.card_lt_card
  rw [Finset.ssubset_iff_of_subset]
  · exact ⟨slot, mem_accessed.mpr set, by rw [mem_accessed]; simp⟩
  · intro other member
    rw [mem_accessed] at member ⊢
    by_cases h : other = slot
    · rwa [h]
    · simpa [setEntry, h] using member

/-- Flushing one occupied slot keeps the view and cleans the slot. -/
theorem bufferCacheFlush_spec {cache : Cache} (coherent : cache.Coherent) (slot : Fin 64)
    (occupied : (cache.entries slot).occupied) :
    (cache.bufferCacheFlush slot).Coherent ∧ (cache.bufferCacheFlush slot).view = cache.view ∧
      ((cache.bufferCacheFlush slot).entries slot).dirty = false ∧
      (∀ other, ((cache.bufferCacheFlush slot).entries other).occupied = (cache.entries other).occupied) ∧
      (∀ other, ((cache.bufferCacheFlush slot).entries other).diskSector = (cache.entries other).diskSector) ∧
      ∀ other, (cache.entries other).dirty = false →
        ((cache.bufferCacheFlush slot).entries other).dirty = false := by
  by_cases dirty : (cache.entries slot).dirty
  · have slots : ∀ other, ((cache.bufferCacheFlush slot).entries other).occupied = (cache.entries other).occupied ∧
        ((cache.bufferCacheFlush slot).entries other).diskSector = (cache.entries other).diskSector ∧
        ((cache.bufferCacheFlush slot).entries other).buffer = (cache.entries other).buffer := by
      intro other
      by_cases h : other = slot <;> simp [bufferCacheFlush, dirty, setEntry, h]
    have device : (cache.bufferCacheFlush slot).device =
        Function.update cache.device (cache.entries slot).diskSector (cache.entries slot).buffer := by
      simp [bufferCacheFlush, dirty]
    have lookups (sector : BlockSector) :
        (cache.bufferCacheFlush slot).bufferCacheLookup sector = cache.bufferCacheLookup sector := by
      simp only [bufferCacheLookup, fun other => (slots other).1, fun other => (slots other).2.1]
    refine ⟨⟨?_, ?_⟩, ?_, by simp [bufferCacheFlush, dirty], fun other => (slots other).1,
      fun other => (slots other).2.1, ?_⟩
    · intro i j
      simp only [slots]
      exact coherent.distinct i j
    · intro other otherOccupied otherClean
      simp only [slots] at otherOccupied ⊢
      rw [device]
      by_cases h : other = slot
      · rw [h, Function.update_self]
      · rw [Function.update_of_ne fun same => h (coherent.distinct other slot otherOccupied occupied same)]
        exact coherent.clean other otherOccupied (by
          simpa [bufferCacheFlush, dirty, setEntry, h] using otherClean)
    · funext sector
      simp only [view, lookups, device]
      cases found : cache.bufferCacheLookup sector with
      | some other => exact (slots other).2.2
      | none => exact Function.update_of_ne (bufferCacheLookup_none.mp found slot occupied).symm _ _
    · intro other clean
      by_cases h : other = slot <;> simp [bufferCacheFlush, dirty, setEntry, h, clean]
  · have same : cache.bufferCacheFlush slot = cache := by simp [bufferCacheFlush, dirty]
    rw [same]
    exact ⟨coherent, rfl, by simpa using dirty, fun _ => rfl, fun _ => rfl, fun _ => id⟩

/-- The slot was emptied, everything seen through the cache stayed and no slot took a new sector. -/
structure Freed (cache : Cache) (slot : Fin 64) (after : Cache) : Prop where
  empty : (after.entries slot).occupied = false
  coherent : after.Coherent
  view : after.view = cache.view
  fewer : ∀ other, (after.entries other).occupied → (cache.entries other).occupied ∧
    (after.entries other).diskSector = (cache.entries other).diskSector

/-- A clean occupied slot can be dropped: the device holds the same bytes. -/
theorem freed_clean {cache : Cache} (coherent : cache.Coherent) (slot : Fin 64)
    (occupied : (cache.entries slot).occupied) (clean : (cache.entries slot).dirty = false) :
    Freed cache slot (cache.setEntry slot { cache.entries slot with occupied := false }) := by
  have fewer : ∀ other, ((cache.setEntry slot { cache.entries slot with occupied := false }).entries other).occupied →
      other ≠ slot := by
    intro other otherOccupied same
    simp [same] at otherOccupied
  have kept : ∀ other, other ≠ slot →
      (cache.setEntry slot { cache.entries slot with occupied := false }).entries other = cache.entries other :=
    fun other different => setEntry_other cache _ different
  have distinct : (cache.setEntry slot { cache.entries slot with occupied := false }).Distinct := by
    intro i j iOccupied jOccupied
    have iOther := fewer i iOccupied
    have jOther := fewer j jOccupied
    rw [kept i iOther] at iOccupied ⊢
    rw [kept j jOther] at jOccupied ⊢
    exact coherent.distinct i j iOccupied jOccupied
  refine ⟨by simp, ⟨distinct, ?_⟩, ?_, ?_⟩
  · intro other otherOccupied
    have different := fewer other otherOccupied
    rw [kept other different] at otherOccupied ⊢
    exact coherent.clean other otherOccupied
  · funext sector
    cases found : cache.bufferCacheLookup sector with
    | none =>
        have absent := bufferCacheLookup_none.mp found
        rw [view_of_absent absent, view_of_absent]
        · rfl
        · intro other otherOccupied
          have different := fewer other otherOccupied
          rw [kept other different] at otherOccupied ⊢
          exact absent other otherOccupied
    | some other =>
        have hit := bufferCacheLookup_some found
        rw [view_of_slot coherent.distinct _ hit.1 hit.2]
        by_cases h : other = slot
        · subst h
          rw [view_of_absent, coherent.clean other occupied clean, hit.2]
          · rfl
          · intro third thirdOccupied same
            have different := fewer third thirdOccupied
            rw [kept third different] at thirdOccupied same
            exact different (coherent.distinct third other thirdOccupied occupied (same.trans hit.2.symm))
        · rw [view_of_slot distinct other (by rw [kept other h]; exact hit.1)
            (by rw [kept other h]; exact hit.2), kept other h]
  · intro other otherOccupied
    have different := fewer other otherOccupied
    rw [kept other different] at otherOccupied ⊢
    exact ⟨otherOccupied, rfl⟩

/-- The clock loop stops once every set access bit has been cleared, with an empty slot. -/
theorem evictLoop_stops (fuel : Nat) (cache : Cache) (coherent : cache.Coherent)
    (enough : cache.accessed.card < fuel) :
    ∃ slot after, bufferCacheEvictLoop fuel cache = some (slot, after) ∧ Freed cache slot after := by
  induction fuel generalizing cache with
  | zero => omega
  | succ fuel ih =>
      by_cases occupied : (cache.entries cache.clock).occupied
      · by_cases access : (cache.entries cache.clock).access
        · have same := sameSlots_access cache cache.clock (cache.clock + 1) false
          have smaller := accessed_secondChance cache cache.clock (cache.clock + 1) access
          obtain ⟨slot, after, stopped, freed⟩ := ih _ (same.coherent coherent) (by omega)
          refine ⟨slot, after, ?_, freed.empty, freed.coherent, freed.view.trans same.view, ?_⟩
          · simpa [bufferCacheEvictLoop, occupied, access] using stopped
          · intro other otherOccupied
            have fewer := freed.fewer other otherOccupied
            rwa [same.occupied, same.diskSector] at fewer
        · obtain ⟨flushCoherent, flushView, clean, flushOccupied, flushSector, _⟩ :=
            bufferCacheFlush_spec coherent cache.clock occupied
          have freed := freed_clean flushCoherent cache.clock (by rw [flushOccupied]; exact occupied) clean
          refine ⟨cache.clock, _, ?_, freed.empty, freed.coherent, freed.view.trans flushView, ?_⟩
          · have flushed : (if (cache.entries cache.clock).dirty then cache.bufferCacheFlush cache.clock else cache) =
                cache.bufferCacheFlush cache.clock := by
              split
              · rfl
              · simp_all [bufferCacheFlush]
            simp only [bufferCacheEvictLoop, occupied, access, flushed, Bool.not_true, Bool.false_eq_true, if_false]
          · intro other otherOccupied
            have fewer := freed.fewer other otherOccupied
            rwa [flushOccupied, flushSector] at fewer
      · refine ⟨cache.clock, cache, by simp [bufferCacheEvictLoop, occupied], by simpa using occupied, coherent,
          rfl, fun other otherOccupied => ⟨otherOccupied, rfl⟩⟩

/-- The miss path always finds a slot for the sector and shows the same sectors as before. -/
theorem bufferCacheFill_spec {cache : Cache} (coherent : cache.Coherent) (sector : BlockSector) :
    ∃ slot after, cache.bufferCacheFill sector = some (slot, after) ∧ after.Coherent ∧
      after.view = cache.view ∧ (after.entries slot).occupied ∧ (after.entries slot).diskSector = sector := by
  cases found : cache.bufferCacheLookup sector with
  | some slot =>
      have hit := bufferCacheLookup_some found
      exact ⟨slot, cache, by simp [bufferCacheFill, found], coherent, rfl, hit⟩
  | none =>
      have absent := bufferCacheLookup_none.mp found
      obtain ⟨slot, evicted, stopped, freed⟩ := evictLoop_stops 65 cache coherent
        (Nat.lt_succ_of_le cache.accessed_card_le)
      have missing : ∀ other, (evicted.entries other).occupied → (evicted.entries other).diskSector ≠ sector := by
        intro other occupied same
        have fewer := freed.fewer other occupied
        exact absent other fewer.1 (fewer.2.symm.trans same)
      have emptied : ∀ other, (evicted.entries other).occupied → other ≠ slot := by
        intro other occupied same
        rw [same, freed.empty] at occupied
        exact absurd occupied (by decide)
      let entry : CacheEntry := { evicted.entries slot with
        occupied := true, diskSector := sector, dirty := false, buffer := evicted.device sector }
      have here : (evicted.setEntry slot entry).entries slot = entry := setEntry_same _ _ _
      have there : ∀ other, other ≠ slot → (evicted.setEntry slot entry).entries other = evicted.entries other :=
        fun other different => setEntry_other evicted entry different
      have distinct : (evicted.setEntry slot entry).Distinct := by
        intro i j iOccupied jOccupied same
        by_cases hi : i = slot <;> by_cases hj : j = slot
        · rw [hi, hj]
        · rw [there j hj] at jOccupied same
          rw [hi, here] at same
          exact absurd same.symm (missing j jOccupied)
        · rw [there i hi] at iOccupied same
          rw [hj, here] at same
          exact absurd same (missing i iOccupied)
        · rw [there i hi] at iOccupied same
          rw [there j hj] at jOccupied same
          exact freed.coherent.distinct i j iOccupied jOccupied same
      refine ⟨slot, evicted.setEntry slot entry, ?_, ⟨distinct, ?_⟩, ?_, by rw [here], by rw [here]⟩
      · simp [bufferCacheFill, found, bufferCacheEvict, stopped, entry]
      · intro other occupied clean
        by_cases h : other = slot
        · rw [h, here]
          rfl
        · rw [there other h] at occupied clean ⊢
          exact freed.coherent.clean other occupied clean
      · rw [← freed.view]
        funext shown
        by_cases same : shown = sector
        · rw [view_of_slot distinct slot (by rw [here]) (by rw [here, same]), here, same,
            view_of_absent missing]
        · cases held : evicted.bufferCacheLookup shown with
          | some other =>
              have hit := bufferCacheLookup_some held
              have different := emptied other hit.1
              rw [view_of_slot freed.coherent.distinct _ hit.1 hit.2, view_of_slot distinct other
                (by rw [there other different]; exact hit.1) (by rw [there other different]; exact hit.2),
                there other different]
          | none =>
              have nowhere := bufferCacheLookup_none.mp held
              rw [view_of_absent nowhere, view_of_absent]
              · rfl
              · intro other occupied
                by_cases h : other = slot
                · rw [h, here]
                  exact fun eq => same eq.symm
                · rw [there other h] at occupied ⊢
                  exact nowhere other occupied

/-- A read returns what the view shows and changes nothing that is seen. -/
theorem bufferCacheRead_spec {cache : Cache} (coherent : cache.Coherent) (sector : BlockSector) :
    ∃ after, cache.bufferCacheRead sector = some (cache.view sector, after) ∧ after.Coherent ∧
      after.view = cache.view := by
  obtain ⟨slot, filled, found, filledCoherent, same, occupied, holds⟩ := bufferCacheFill_spec coherent sector
  have slots : SameSlots (filled.setEntry slot { filled.entries slot with access := true }) filled :=
    sameSlots_access filled slot filled.clock true
  refine ⟨_, ?_, slots.coherent filledCoherent, slots.view.trans same⟩
  rw [bufferCacheRead, found, Option.map_some, ← same, view_of_slot filledCoherent.distinct _ occupied holds]

/-- A write changes the view at its own sector only. -/
theorem bufferCacheWrite_spec {cache : Cache} (coherent : cache.Coherent) (sector : BlockSector)
    (source : Sector) :
    ∃ after, cache.bufferCacheWrite sector source = some after ∧ after.Coherent ∧
      after.view = Function.update cache.view sector source := by
  obtain ⟨slot, filled, found, filledCoherent, same, occupied, holds⟩ := bufferCacheFill_spec coherent sector
  let entry : CacheEntry := { filled.entries slot with access := true, dirty := true, buffer := source }
  have here : (filled.setEntry slot entry).entries slot = entry := setEntry_same _ _ _
  have there : ∀ other, other ≠ slot → (filled.setEntry slot entry).entries other = filled.entries other :=
    fun other different => setEntry_other filled entry different
  have slots : ∀ other, ((filled.setEntry slot entry).entries other).occupied = (filled.entries other).occupied ∧
      ((filled.setEntry slot entry).entries other).diskSector = (filled.entries other).diskSector := by
    intro other
    by_cases h : other = slot
    · rw [h, here]
      exact ⟨rfl, rfl⟩
    · rw [there other h]
      exact ⟨rfl, rfl⟩
  have distinct : (filled.setEntry slot entry).Distinct := by
    intro i j
    simp only [slots]
    exact filledCoherent.distinct i j
  have lookups (shown : BlockSector) :
      (filled.setEntry slot entry).bufferCacheLookup shown = filled.bufferCacheLookup shown := by
    simp only [bufferCacheLookup, slots]
  refine ⟨_, by rw [bufferCacheWrite, found, Option.map_some], ⟨distinct, ?_⟩, ?_⟩
  · intro other otherOccupied clean
    by_cases h : other = slot
    · rw [h] at clean
      simp at clean
    · change ((filled.setEntry slot entry).entries other).occupied at otherOccupied
      change ((filled.setEntry slot entry).entries other).dirty = false at clean
      change ((filled.setEntry slot entry).entries other).buffer =
        filled.device ((filled.setEntry slot entry).entries other).diskSector
      rw [there other h] at otherOccupied clean ⊢
      exact filledCoherent.clean other otherOccupied clean
  · funext shown
    by_cases h : shown = sector
    · rw [h, Function.update_self, view_of_slot distinct slot (by rw [here]; exact occupied)
        (by rw [here]; exact holds), here]
    · rw [Function.update_of_ne h, ← same, view, lookups, view]
      cases held : filled.bufferCacheLookup shown with
      | none => rfl
      | some other =>
          have different : other ≠ slot := by
            intro eq
            exact h ((bufferCacheLookup_some held).2.symm.trans (eq ▸ holds))
          change ((filled.setEntry slot entry).entries other).buffer = (filled.entries other).buffer
          rw [there other different]

/-- Closing slots one after the other cleans them and never makes a clean slot dirty. -/
theorem closeSlots_spec (slots : List (Fin 64)) (cache : Cache) (coherent : cache.Coherent) :
    (slots.foldl bufferCacheCloseSlot cache).Coherent ∧
      (slots.foldl bufferCacheCloseSlot cache).view = cache.view ∧
      (∀ slot, ((slots.foldl bufferCacheCloseSlot cache).entries slot).occupied = (cache.entries slot).occupied) ∧
      (∀ slot, (cache.entries slot).dirty = false →
        ((slots.foldl bufferCacheCloseSlot cache).entries slot).dirty = false) ∧
      ∀ slot ∈ slots, (cache.entries slot).occupied →
        ((slots.foldl bufferCacheCloseSlot cache).entries slot).dirty = false := by
  induction slots generalizing cache with
  | nil => exact ⟨coherent, rfl, fun _ => rfl, fun _ => id, by simp⟩
  | cons head rest ih =>
      rw [List.foldl_cons]
      by_cases occupied : (cache.entries head).occupied
      · obtain ⟨flushed, sameView, clean, sameOccupied, _, cleaner⟩ :=
          bufferCacheFlush_spec coherent head occupied
        obtain ⟨after, afterView, afterOccupied, afterClean, passed⟩ := ih _ flushed
        rw [bufferCacheCloseSlot, if_pos occupied]
        refine ⟨after, afterView.trans sameView, fun slot => (afterOccupied slot).trans (sameOccupied slot),
          fun slot was => afterClean slot (cleaner slot was), ?_⟩
        intro slot member slotOccupied
        rcases List.mem_cons.mp member with rfl | later
        · exact afterClean _ clean
        · exact passed slot later (by rwa [sameOccupied])
      · obtain ⟨after, afterView, afterOccupied, afterClean, passed⟩ := ih _ coherent
        rw [bufferCacheCloseSlot, if_neg occupied]
        refine ⟨after, afterView, afterOccupied, afterClean, ?_⟩
        intro slot member slotOccupied
        rcases List.mem_cons.mp member with rfl | later
        · exact absurd slotOccupied occupied
        · exact passed slot later slotOccupied

/-- The loop of `buffer_cache_close` passes every slot. -/
theorem bufferCacheClose_slots (cache : Cache) : ∃ slots : List (Fin 64), (∀ slot, slot ∈ slots) ∧
    cache.bufferCacheClose = slots.foldl bufferCacheCloseSlot cache := by
  refine ⟨List.finRange 64, fun slot => List.mem_finRange slot, ?_⟩
  unfold bufferCacheClose
  rfl

/-- Closing the cache leaves on the device what the cache showed. -/
theorem bufferCacheClose_spec {cache : Cache} (coherent : cache.Coherent) :
    cache.bufferCacheClose.Coherent ∧ cache.bufferCacheClose.view = cache.view ∧
      cache.bufferCacheClose.device = cache.view := by
  obtain ⟨slots, every, closing⟩ := bufferCacheClose_slots cache
  rw [closing]
  obtain ⟨closed, sameView, sameOccupied, _, cleaned⟩ := closeSlots_spec slots cache coherent
  refine ⟨closed, sameView, ?_⟩
  rw [← sameView]
  generalize slots.foldl bufferCacheCloseSlot cache = after at closed sameOccupied cleaned ⊢
  funext sector
  cases found : after.bufferCacheLookup sector with
  | none => rw [view_of_absent (bufferCacheLookup_none.mp found)]
  | some slot =>
      have hit := bufferCacheLookup_some found
      have clean := cleaned slot (every slot) (by rw [← sameOccupied]; exact hit.1)
      rw [view_of_slot closed.distinct _ hit.1 hit.2, closed.clean slot hit.1 clean, hit.2]

/-- After initialisation every slot is empty and the view is the device. -/
theorem bufferCacheInit_spec (cache : Cache) :
    cache.bufferCacheInit.Coherent ∧ cache.bufferCacheInit.view = cache.device := by
  refine ⟨⟨?_, ?_⟩, ?_⟩
  · intro i j impossible
    exact absurd impossible (by simp [bufferCacheInit])
  · intro slot impossible
    exact absurd impossible (by simp [bufferCacheInit])
  · funext sector
    exact view_of_absent fun slot impossible => absurd impossible (by simp [bufferCacheInit])

/-- One request to the cache. -/
inductive CacheOp where
  | read (sector : BlockSector)
  | write (sector : BlockSector) (source : Sector)

/-- The cache serves the requests in order and collects what the reads return. -/
def serve : List CacheOp → Cache → Option (List Sector × Cache)
  | [], cache => some ([], cache)
  | .read sector :: rest, cache =>
      (cache.bufferCacheRead sector).bind fun (bytes, after) =>
        (serve rest after).map fun (answers, final) => (bytes :: answers, final)
  | .write sector source :: rest, cache =>
      (cache.bufferCacheWrite sector source).bind fun after => serve rest after

/-- The source of the last write to the sector, if there was one. -/
def lastWrite (sector : BlockSector) : List CacheOp → Option Sector
  | [] => none
  | .read _ :: rest => lastWrite sector rest
  | .write target source :: rest =>
      (lastWrite sector rest).or (if target = sector then some source else none)

/-- What the reads must return: the last write before them, or the initial bytes of the device. -/
def expectedReads (device : BlockSector → Sector) : List CacheOp → List CacheOp → List Sector
  | _, [] => []
  | before, .read sector :: rest =>
      ((lastWrite sector before).getD (device sector)) ::
        expectedReads device (before ++ [.read sector]) rest
  | before, .write sector source :: rest =>
      expectedReads device (before ++ [.write sector source]) rest

/-- The device after all the writes, made directly and in order. -/
def applyWrites (device : BlockSector → Sector) : List CacheOp → BlockSector → Sector
  | [] => device
  | .read _ :: rest => applyWrites device rest
  | .write sector source :: rest => applyWrites (Function.update device sector source) rest

theorem applyWrites_append (device : BlockSector → Sector) (first second : List CacheOp) :
    applyWrites device (first ++ second) = applyWrites (applyWrites device first) second := by
  induction first generalizing device with
  | nil => rfl
  | cons op rest ih => cases op <;> exact ih _

/-- A sector holds its last write. -/
theorem applyWrites_lastWrite (device : BlockSector → Sector) (ops : List CacheOp) (sector : BlockSector) :
    applyWrites device ops sector = (lastWrite sector ops).getD (device sector) := by
  induction ops generalizing device with
  | nil => rfl
  | cons op rest ih =>
      cases op with
      | read other => exact ih device
      | write target source =>
          rw [applyWrites, ih, lastWrite]
          cases later : lastWrite sector rest with
          | some value => rfl
          | none =>
              by_cases h : target = sector
              · simp [h]
              · simp [h, Function.update_of_ne (Ne.symm h)]

/-- A coherent cache serves any requests as the flat store it shows. -/
theorem serve_spec (device : BlockSector → Sector) (before ops : List CacheOp) (cache : Cache)
    (coherent : cache.Coherent) (shows : cache.view = applyWrites device before) :
    ∃ final, serve ops cache = some (expectedReads device before ops, final) ∧ final.Coherent ∧
      final.view = applyWrites device (before ++ ops) := by
  induction ops generalizing before cache with
  | nil => exact ⟨cache, rfl, coherent, by rw [List.append_nil, shows]⟩
  | cons op rest ih =>
      cases op with
      | read sector =>
          obtain ⟨after, answered, afterCoherent, same⟩ := bufferCacheRead_spec coherent sector
          obtain ⟨final, served, finalCoherent, finalView⟩ := ih (before ++ [.read sector]) after afterCoherent
            (by rw [same, shows, applyWrites_append]; rfl)
          refine ⟨final, ?_, finalCoherent, by rw [finalView, List.append_assoc]; rfl⟩
          simp only [serve, answered, served, Option.bind_some, Option.map_some, expectedReads, shows,
            applyWrites_lastWrite]
      | write sector source =>
          obtain ⟨after, answered, afterCoherent, same⟩ := bufferCacheWrite_spec coherent sector source
          obtain ⟨final, served, finalCoherent, finalView⟩ := ih (before ++ [.write sector source]) after
            afterCoherent (by rw [same, shows, applyWrites_append]; rfl)
          refine ⟨final, ?_, finalCoherent, by rw [finalView, List.append_assoc]; rfl⟩
          simp only [serve, answered, served, Option.bind_some, expectedReads]

/-- From initialisation on, every run is served, reads return the last write, no sector is cached twice, and
closing leaves the device as if the writes had gone to it directly. -/
theorem bufferCache_transparent (start : Cache) (ops : List CacheOp) :
    ∃ final, serve ops start.bufferCacheInit = some (expectedReads start.device [] ops, final) ∧
      final.Distinct ∧ final.bufferCacheClose.device = applyWrites start.device ops := by
  obtain ⟨coherent, shows⟩ := bufferCacheInit_spec start
  obtain ⟨final, served, finalCoherent, finalView⟩ := serve_spec start.device [] ops _ coherent shows
  refine ⟨final, served, finalCoherent.distinct, ?_⟩
  rw [(bufferCacheClose_spec finalCoherent).2.2, finalView]
  rfl

/-- The cache as a machine for block programs. -/
def machine : Lib.StoreMachine BlockSector Sector Cache where
  read sector cache := cache.bufferCacheRead sector
  write sector source cache := cache.bufferCacheWrite sector source
  flush := bufferCacheClose

/-- Every program over the cache behaves as over the flat store that the cache shows. -/
theorem machine_transparent : machine.Transparent Coherent view where
  read sector cache coherent := by
    obtain ⟨after, answered, afterCoherent, same⟩ := bufferCacheRead_spec coherent sector
    exact ⟨after, answered, afterCoherent, same⟩
  write sector source cache coherent := by
    obtain ⟨after, answered, afterCoherent, same⟩ := bufferCacheWrite_spec coherent sector source
    exact ⟨after, answered, afterCoherent, same⟩
  flush cache coherent := by
    obtain ⟨closed, same, _⟩ := bufferCacheClose_spec coherent
    exact ⟨closed, same⟩

end MockOS.Fs.Cache
