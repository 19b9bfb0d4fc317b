import MockOS.Fs.BlockAccounting

namespace MockOS.Fs

open Lib (places)

/-- The number of sectors of a file with this many data blocks, its index blocks included. -/
def need (blocks : Nat) : Nat :=
  blocks + (if blocks > 123 then 1 else 0) + (if blocks > 251 then 1 + (blocks - 251 + 127) / 128 else 0)

theorem length_inodePlaces {blocks : Nat} (small : blocks ≤ maxBlocks) : (inodePlaces blocks).length = need blocks := by
  have maximum : maxBlocks = 16635 := rfl
  rw [inodePlaces, List.length_append, List.length_append, List.length_map, List.length_take, List.length_finRange, need]
  have single : (if blocks > 123 then (places 128 1 (min (blocks - 123) 128)).map fun path => ((123, path) : Place)
      else []).length = if blocks > 123 then min (blocks - 123) 128 + 1 else 0 := by
    split
    · rw [List.length_map, Lib.length_places_one (by omega)]
    · rfl
  have double : (if blocks > 251 then (places 128 2 (min (blocks - 251) (128 * 128))).map fun path =>
      ((124, path) : Place) else []).length =
        if blocks > 251 then blocks - 251 + (blocks - 251 + 127) / 128 + 1 else 0 := by
    split
    · rw [List.length_map, Lib.length_places_two (by omega), show min (blocks - 251) (128 * 128) = blocks - 251 by omega,
        show blocks - 251 + 128 - 1 = blocks - 251 + 127 by omega]
    · rfl
  rw [single, double]
  split_ifs <;> omega

theorem need_mono {few many : Nat} (more : few ≤ many) : need few ≤ need many := by
  unfold need
  split_ifs <;> omega

/-- The places of these blocks are filled and no others. -/
def Filled (store : BlockSector → Sector) (data : InodeDisk) (blocks : Nat) : Prop :=
  ∀ place : Place, place.within → (sectorAt store data place ≠ 0 ↔ place ∈ inodePlaces blocks)

/-- The missing blocks are those between the two lengths. -/
theorem Filled.length_inodeDemand {store : BlockSector → Sector} {data : InodeDisk} {few many : Nat}
    (filled : Filled store data few) (more : few ≤ many) (small : many ≤ maxBlocks) :
    (inodeDemand store data many).length = need many - need few := by
  have there : ∀ place ∈ inodePlaces many, decide (sectorAt store data place = 0) = !decide (place ∈ inodePlaces few) := by
    intro place member
    rw [← decide_not, decide_eq_decide, ← filled place (within_of_mem_inodePlaces member), not_not]
  have kept : ((inodePlaces many).filter fun place => place ∈ inodePlaces few).length = (inodePlaces few).length := by
    apply List.Perm.length_eq
    refine (List.perm_ext_iff_of_nodup ((inodePlaces_nodup many).filter _) (inodePlaces_nodup few)).mpr fun place => ?_
    rw [List.mem_filter, decide_eq_true_eq]
    exact ⟨fun both => both.2, fun member => ⟨inodePlaces_mono more member, member⟩⟩
  have split := List.length_eq_length_filter_add (l := inodePlaces many) fun place => decide (place ∈ inodePlaces few)
  rw [inodeDemand, List.length_map, List.filter_congr there, ← length_inodePlaces small,
    ← length_inodePlaces (Nat.le_trans more small)]
  omega

variable {own : Owners} {shared : BlockSector → Prop} {nodes : Nodes} {world : World} {sector : BlockSector}
  {data : InodeDisk}

/-- The blocks of an inode that were taken since some state are those of its length. -/
theorem Accounted.filled {before : BlockSector → Prop} {limit : Nat} (accounted : Accounted before limit sector world)
    (volume : Volume own shared nodes world) (present : nodes sector = some data) :
    Filled world.disk data (blocksOf data.length) := by
  have node := volume.node sector data present
  have here := volume.inodeData_eq present
  intro place within
  constructor
  · intro there
    have owned := node.owned place within there
    obtain ⟨used, inside⟩ := volume.sound.used _ (by rw [owned]; exact Option.some_ne_none _)
    have fresh := accounted.blocks place within (by rwa [here])
    rw [here] at fresh
    rw [accounted.sameLimit] at inside
    have member := (accounted.taken _ inside used).resolve_left fresh
    rw [volume.inodeSectors_eq present] at member
    rcases List.mem_cons.mp member with self | member
    · rw [self, node.self] at owned
      cases owned
    · obtain ⟨other, needed, same⟩ := List.mem_map.mp member
      have unique := node.owned.place_unique within (within_of_mem_inodePlaces needed) there same.symm
      rwa [unique]
  · exact node.complete place

/-- An extension of an inode without spare blocks takes the sectors between the two lengths, if they are free. -/
theorem inodeReserve_filled (volume : Volume own shared nodes world) (present : nodes sector = some data)
    (nonzero : sector ≠ 0) (filled : Filled world.disk data (blocksOf data.length)) {length : Int}
    (longer : data.length ≤ length) (fits : length ≤ 512 * maxBlocks) :
    ∃ success dataAfter next, run (inodeReserve (freeMapAllocate 1) data length) world =
        some ((success, dataAfter), next) ∧
      (success = true ↔ need (blocksOf length) - need (blocksOf data.length) ≤ world.free) ∧
      next.free = world.free - (need (blocksOf length) - need (blocksOf data.length)) := by
  have maximum : maxBlocks = 16635 := rfl
  have node := volume.node sector data present
  have low := node.low
  have blocks : bytesToSectors length = blocksOf length := bytesToSectors_eq (by omega) fits
  have more : blocksOf data.length ≤ blocksOf length := by
    unfold blocksOf
    omega
  have small : blocksOf length ≤ maxBlocks := by
    unfold blocksOf
    omega
  obtain ⟨success, dataAfter, next, after, ran, effect, _⟩ :=
    inodeReserve_spec 1 (by omega : (0 : Int) ≤ length) volume.sound volume.ready (.inr nonzero) node.owned
  have demand := filled.length_inodeDemand more small
  rw [← blocks] at demand
  refine ⟨success, dataAfter, next, ?_, ?_, ?_⟩
  · rw [blocks, decide_eq_true small, Bool.and_true] at ran
    exact ran
  · rw [effect.outcome, decide_eq_true_eq, demand, blocks]
  · rw [effect.free, demand, blocks]

section Format

variable {deviceSize : UInt32} {garbage : Nat → UInt8} {disk : BlockSector → Sector} {session : Session}

/-- After any calls of the inode layer on a freshly formatted device: where an inode has the blocks of its length and no
others, `inode_reserve` succeeds exactly when the additional sectors are free, and takes them. The inode is one that was
created or that of the root directory; that of the free map is not extended by any code. -/
theorem inodeReserve_exact (fits : FormatFits deviceSize)
    (formatted : run (filesysInit true) ⟨.boot deviceSize garbage, disk⟩ = some ((), world)) {calls : List InodeCall}
    {replies : List InodeReply} (performed : (Session.start world).performAll calls = some (replies, session))
    (live : session.handles sector ≠ none ∨ sector = 1)
    (filled : Filled session.world.disk (session.world.inodeData sector)
      (blocksOf (session.world.inodeData sector).length)) {length : Int}
    (longer : (session.world.inodeData sector).length ≤ length) (possible : length ≤ (123 + 128 + 128 * 128) * 512) :
    ∃ success dataAfter next,
      run (inodeReserve (freeMapAllocate 1) (session.world.inodeData sector) length) session.world =
        some ((success, dataAfter), next) ∧
      (success = true ↔
        need (blocksOf length) - need (blocksOf (session.world.inodeData sector).length) ≤ session.world.free) ∧
      (success = true → next.free +
        (need (blocksOf length) - need (blocksOf (session.world.inodeData sector).length)) = session.world.free) := by
  have maximum : maxBlocks = 16635 := rfl
  obtain ⟨files, root, rootBytes, own, shared, nodes, represents⟩ := performAll_represents fits formatted performed
  have nonzero : sector ≠ 0 := by
    rintro rfl
    rcases live with held | impossible
    · exact held (represents.reserved 0 (.inl rfl)).2
    · cases impossible
  obtain ⟨data, present⟩ := Option.ne_none_iff_exists'.mp (represents.present (.inr live.symm))
  rw [represents.volume.inodeData_eq present] at filled longer ⊢
  obtain ⟨success, dataAfter, next, ran, enough, free⟩ :=
    inodeReserve_filled represents.volume present nonzero filled longer (by omega)
  refine ⟨success, dataAfter, next, ran, enough, fun done => ?_⟩
  have available := enough.mp done
  omega

/-- A new file of two blocks on a device of 300 sectors can be extended by a third. -/
theorem inodeReserve_exact_small : ∃ world sector replies session,
    run (filesysInit true) ⟨.boot 300 fun _ => 0, fun _ => zeros⟩ = some ((), world) ∧
      (Session.start world).performAll [.create 600] = some (replies, session) ∧
      (session.world.inodeData sector).length = 600 ∧
      ∃ success dataAfter next,
        run (inodeReserve (freeMapAllocate 1) (session.world.inodeData sector) 1200) session.world =
          some ((success, dataAfter), next) ∧
        (success = true ↔ need (blocksOf 1200) - need (blocksOf (session.world.inodeData sector).length) ≤
          session.world.free) ∧
        (success = true → next.free +
          (need (blocksOf 1200) - need (blocksOf (session.world.inodeData sector).length)) = session.world.free) := by
  obtain ⟨world, root, rootBytes, own, shared, nodes, sector, next, formatted, represents, creates⟩ := create_small
  obtain ⟨accounted, held⟩ := represents.accounted_create creates
  obtain ⟨reply, session, files, _, nodesCreated, _, _, again, allowed, representsCreated, _⟩ :=
    represents.perform (.create 600)
  rw [creates, Option.some.injEq, Prod.mk.injEq] at again
  obtain ⟨rfl, rfl⟩ := again
  obtain ⟨data, present⟩ := Option.ne_none_iff_exists'.mp (representsCreated.present (.inr (.inr held)))
  have here := representsCreated.volume.inodeData_eq present
  have low := (representsCreated.volume.node sector data present).low
  have length : data.length = 600 := by
    cases allowed with
    | created valid nonnegative absent =>
        have bytes := congrArg List.length (representsCreated.inodeBytes (Function.update_self _ _ _))
        rw [World.inodeBytes, here, fileBytes, length_bytesAt, List.length_replicate] at bytes
        omega
  have performed : (Session.start world).performAll [.create 600] =
      some ([.created (some sector)], (Session.start world).setHandle sector (some none) next) := by
    simp only [Session.performAll, creates]
    rfl
  have filled := accounted.filled representsCreated.volume present
  refine ⟨world, sector, _, _, formatted, performed, by rw [here, length], ?_⟩
  rw [← here] at filled length
  exact inodeReserve_exact formatFits_small formatted performed (.inl held) filled (by omega) (by omega)

end Format

end MockOS.Fs
