import Mathlib.Data.List.DropRight
import MockOS.Fs.FragmentationCounts
import MockOS.Fs.SectorRecovery

namespace MockOS.Fs

/-- As many bytes as are not zero, taken from the second one on, are not the bytes up to the last one that is not zero. -/
theorem take_countP_tail_ne {bytes : List UInt8} (hidden : bytes.rdropWhile (· = 0) ≠ [])
    (room : bytes.countP (· ≠ 0) < bytes.length) :
    (bytes.drop 1).take (bytes.countP (· ≠ 0)) ≠ bytes.rdropWhile (· = 0) := by
  intro same
  have whole : bytes.rdropWhile (· = 0) ++ bytes.rtakeWhile (· = 0) = bytes := List.rdropWhile_append_rtakeWhile
  have zeros : ∀ byte ∈ bytes.rtakeWhile (· = 0), byte = 0 := fun byte member => by
    simpa using List.mem_rtakeWhile_imp member
  have last := List.rdropWhile_last_not _ _ hidden
  obtain ⟨count, countEq⟩ : ∃ count, count = bytes.countP (· ≠ 0) := ⟨_, rfl⟩
  rw [← countEq] at same room
  have length : (bytes.rdropWhile (· = 0)).length = count := by
    rw [← same, List.length_take, List.length_drop]
    omega
  have positive : 0 < count := by
    rw [← length]
    exact List.length_pos_iff.mpr hidden
  -- the last byte would be one of the zeros behind it
  have byte : bytes[count]? = some ((bytes.rdropWhile (· = 0)).getLast hidden) := by
    rw [List.getLast_eq_getElem, ← List.getElem?_eq_getElem, length, ← same, List.getElem?_take_of_lt (by omega),
      List.getElem?_drop]
    congr 1
    omega
  have zero : (bytes.rtakeWhile (· = 0))[0]? = bytes[count]? := by
    conv_rhs => rw [← whole]
    rw [List.getElem?_append_right (by omega), length, Nat.sub_self]
  rw [byte] at zero
  exact last (decide_eq_true (zeros _ (List.mem_of_getElem? zero)))

variable {own : Owners} {shared : BlockSector → Prop} {world next : World} {nodes nodesAfter : Nodes}
  {sector : BlockSector} {pointer dir file inode : Pointer} {root data : InodeDisk} {entries : List DirEntry}
  {name : CString} {slot : Nat} {host : Host}

namespace World

/-- The bytes behind the end of a file in its last sector. -/
def lastBytes (world : World) (sector : BlockSector) : List UInt8 :=
  match (world.dataSectors sector).getLast? with
  | none => []
  | some last => (world.disk last).bytes.drop (((world.inodeData sector).length - 1) % 512 + 1).toNat

/-- The hidden data of a file, up to its last byte that is not zero. -/
def hiddenTail (world : World) (sector : BlockSector) : List UInt8 := (world.lastBytes sector).rdropWhile (· = 0)

/-- The files of the host that hold the hidden data. -/
def tailFiles (world : World) : List (CString × List UInt8) := world.files.filterMap fun entry =>
  if world.hiddenTail entry.inodeSector = [] then none
  else some (tailFileName entry.fname, world.hiddenTail entry.inodeSector)

/-- `recover` with the flag 2 writes the hidden data of each file, on a host that lets all files be created. -/
def RecoversTails (world : World) : Prop := ∀ host : Host, (∀ name, host.creates name = true) →
  ∃ next, run (recoverTails host) world =
    some (world.tailFiles.foldl (fun host file => host.store file.1 file.2) host, next)

end World

theorem World.lastBytes_congr (disk : next.disk = world.disk)
    (length : (next.inodeData sector).length = (world.inodeData sector).length)
    (sectors : next.dataSectors sector = world.dataSectors sector) : next.lastBytes sector = world.lastBytes sector := by
  rw [World.lastBytes, World.lastBytes, sectors, length, disk]

/-- What `recover` writes for a file with hidden data. -/
def World.tailWritten (world : World) (name : CString) (sector : BlockSector) : Option (CString × List UInt8) :=
  if world.hiddenTail sector = [] then none
  else some (tailFileName name, ((world.lastBytes sector).drop 1).take ((world.lastBytes sector).countP (· ≠ 0)))

/-- The file has a last sector, and not all the bytes behind its end are hidden data. -/
def World.tailFits (world : World) (sector : BlockSector) : Prop :=
  0 < (world.inodeData sector).length ∧
    (world.hiddenTail sector ≠ [] → (world.lastBytes sector).countP (· ≠ 0) < (world.lastBytes sector).length)

theorem hiddenTail_ne_nil : world.hiddenTail sector ≠ [] ↔ (world.lastBytes sector).any (· ≠ 0) = true := by
  rw [World.hiddenTail, ne_eq, List.rdropWhile_eq_nil_iff, List.any_eq_true]
  simp

/-- The data sectors of a file end with that of its last block. -/
theorem Volume.lastBytes_eq (volume : Volume own shared nodes world) (present : nodes sector = some data)
    (positive : 0 < data.length) : ∃ last, (world.dataSectors sector)[blocksOf data.length - 1]? = some last ∧
      world.lastBytes sector =
        (world.disk last).bytes.drop (data.length - (blocksOf data.length - 1 : Nat) * 512).toNat := by
  have blocks : 0 < blocksOf data.length ∧ (data.length - (blocksOf data.length - 1 : Nat) * 512).toNat =
      ((data.length - 1) % 512 + 1).toNat := by
    unfold blocksOf
    omega
  have inside : blocksOf data.length - 1 < (world.dataSectors sector).length := by
    rw [World.dataSectors, volume.inodeData_eq present, List.length_map, List.length_range]
    omega
  refine ⟨(world.dataSectors sector)[blocksOf data.length - 1], List.getElem?_eq_getElem inside, ?_⟩
  have last : (world.dataSectors sector).getLast? = some (world.dataSectors sector)[blocksOf data.length - 1] := by
    rw [List.getLast?_eq_getElem?, ← List.getElem?_eq_getElem inside]
    congr 1
    rw [World.dataSectors, volume.inodeData_eq present, List.length_map, List.length_range]
  rw [World.lastBytes, last, volume.inodeData_eq present, blocks.2]

theorem DirScan.run_recoverTail {mem : Mem} {disk : BlockSector → Sector} {pos : Int}
    (scan : DirScan own shared nodes root entries ⟨mem, disk⟩ dir pointer slot) (opened : Opened ⟨mem, disk⟩ sector inode data)
    (present : nodes sector = some data) (object : mem.files file = some ⟨inode, pos, false⟩) (host : Host) (name : CString) :
    run (recoverTail host name file) ⟨mem, disk⟩ =
      run (lastTail host name data.length (World.dataSectors ⟨mem, disk⟩ sector)) ⟨mem, disk⟩ := by
  have node := scan.volume.node sector data present
  have sectors := run_getInodeDataSectors opened.object node.low node.high
  change run (getInodeDataSectors inode) ⟨mem, disk⟩ =
    some ((List.range (blocksOf data.length)).map (lookedUp disk data), ⟨mem, disk⟩) at sectors
  rw [recoverTail, run_bind, run_getFile object, Option.bind_some, run_bind, run_getInode opened.object,
    Option.bind_some, run_bind, sectors, node.lookedUp_eq, Option.bind_some,
    if_neg (show ¬ (Inode.live sector data).data.length < 0 from Int.not_lt.mpr node.low), World.dataSectors,
    scan.volume.inodeData_eq present]
  rfl

/-- What `recover` writes for a file, or that it leaves its arrays. -/
theorem Volume.run_lastTail (volume : Volume own shared nodes world) (present : nodes sector = some data)
    (creates : ∀ name, host.creates name = true) (name : CString) :
    (world.tailFits sector → run (lastTail host name data.length (world.dataSectors sector)) world =
      some (world.tailWritten name sector, world)) ∧
    (¬ world.tailFits sector → run (lastTail host name data.length (world.dataSectors sector)) world = none) := by
  have node := volume.node sector data present
  have maximum : maxBlocks = 16635 := rfl
  have inodeData := volume.inodeData_eq present
  rw [lastTail, bytesToSectors_eq node.low node.high]
  by_cases positive : 0 < data.length
  · obtain ⟨last, found, bytes⟩ := volume.lastBytes_eq present positive
    have nonzero : blocksOf data.length ≠ 0 ∧ (data.length - (blocksOf data.length - 1 : Nat) * 512).toNat ≤ 512 := by
      unfold blocksOf
      omega
    rw [if_neg nonzero.1, found, run_bind, run_deref_some, Option.bind_some, run_bind, run_bufferCacheRead,
      Option.bind_some]
    obtain ⟨start, startEq⟩ : ∃ start, start = (data.length - (blocksOf data.length - 1 : Nat) * 512).toNat := ⟨_, rfl⟩
    rw [← startEq] at bytes nonzero ⊢
    have later : (world.disk last).bytes.drop (start + 1) = (world.lastBytes sector).drop 1 := by
      rw [bytes, List.drop_drop]
    have length : (world.lastBytes sector).length = 512 - start := by
      rw [bytes, List.length_drop, length_bytes]
    have fits : world.tailFits sector ↔
        (world.hiddenTail sector ≠ [] → start + 1 + (world.lastBytes sector).countP (· ≠ 0) ≤ 512) := by
      rw [World.tailFits, inodeData, and_iff_right positive, length]
      refine imp_congr_right fun _ => ?_
      omega
    rw [writeTail, ← bytes, later, creates, fits, World.tailWritten]
    by_cases hidden : world.hiddenTail sector = []
    · have none : (world.lastBytes sector).any (· ≠ 0) = false := by
        rw [Bool.eq_false_iff]
        exact fun some => hiddenTail_ne_nil.mpr some hidden
      rw [if_pos hidden, if_neg (by rw [none]; simp)]
      exact ⟨fun _ => rfl, fun notFits => absurd (fun some => absurd hidden some) notFits⟩
    · rw [if_neg hidden, if_pos ⟨hiddenTail_ne_nil.mp hidden, rfl⟩]
      split_ifs with room
      · exact ⟨fun _ => rfl, fun notFits => absurd (fun _ => room) notFits⟩
      · exact ⟨fun all => absurd (all hidden) room, fun _ => rfl⟩
  · have zero : blocksOf data.length = 0 := by
      unfold blocksOf
      omega
    refine ⟨fun fits => absurd fits.1 (inodeData ▸ positive), fun _ => ?_⟩
    rw [if_pos zero]
    rfl

theorem respects_recoverTail {related : World → World → Prop} [IsPreorder World related] (host : Host) (name : CString)
    (file : Pointer) : Respects related (recoverTail host name file) := by
  have writes : ∀ start buffer, Respects related (writeTail host name start buffer) := by
    intro start buffer
    unfold writeTail
    dsimp only
    split_ifs
    · exact respects_pure _
    · exact respects_undefined
    · exact respects_pure _
  refine respects_bind (respects_getFile _) fun _ => respects_bind (respects_getInode _) fun _ =>
    respects_bind (respects_getInodeDataSectors _) fun _ => ?_
  split_ifs
  · exact respects_pure _
  · exact respects_bind (respects_deref _) fun _ => respects_bind (respects_read _) fun _ => writes _ _

/-- `recover` with the flag 2 writes something for each file, or leaves its arrays or the root directory at one of them. -/
theorem Rooted.recoverTails (rooted : Rooted own shared nodes root entries world) (creates : ∀ name, host.creates name = true) :
    (∀ entry ∈ world.files, NoDots entry.fname ∧ world.tailFits entry.inodeSector) ∧
        (∃ next, run (recoverTails host) world = some ((world.files.filterMap fun entry =>
          world.tailWritten entry.fname entry.inodeSector).foldl (fun host file => host.store file.1 file.2) host, next)) ∨
      ¬ (∀ entry ∈ world.files, NoDots entry.fname ∧ world.tailFits entry.inodeSector) ∧
        run (recoverTails host) world = none := by
  have all := rooted.overFiles (respects_recoverTail host) world.tailWritten (fun _ sector => world.tailFits sector)
    (fun {_ _ _ _ _ _ _ _ _ name sector} scan kept named opened there object => by
      obtain ⟨_, _, _, data, present⟩ := rooted.live _ _ named
      obtain ⟨length, sectors⟩ := kept.2.dataSectors rooted.volume scan.volume kept.1 present
      have written := scan.volume.run_lastTail there creates name
      rw [← scan.run_recoverTail opened there object, World.tailFits, World.tailWritten, World.hiddenTail,
        World.lastBytes_congr kept.1 length sectors, length] at written
      exact written)
    fun written => (written.filterMap id).foldl (fun host file => host.store file.1 file.2) host
  rw [List.filterMap_map] at all
  exact all

/-- Files of the host that have different names are all there in the end. -/
theorem files_foldl_store {writes : List (CString × List UInt8)} (distinct : (writes.map Prod.fst).Nodup)
    {file : CString × List UInt8} (member : file ∈ writes) (host : Host) :
    (writes.foldl (fun host file => host.store file.1 file.2) host).files file.1 = some file.2 := by
  have kept : ∀ (rest : List (CString × List UInt8)) (host : Host), file.1 ∉ rest.map Prod.fst →
      (rest.foldl (fun host file => host.store file.1 file.2) host).files file.1 = host.files file.1 := by
    intro rest
    induction rest with
    | nil => exact fun _ _ => rfl
    | cons first rest ih =>
        intro host absent
        obtain ⟨notFirst, notRest⟩ := not_or.mp (List.mem_cons.not.mp absent)
        rw [List.foldl_cons, ih _ notRest]
        exact Function.update_of_ne notFirst _ _
  induction writes generalizing host with
  | nil => cases member
  | cons first rest ih =>
      obtain ⟨absent, restDistinct⟩ := List.nodup_cons.mp distinct
      rw [List.foldl_cons]
      rcases List.mem_cons.mp member with rfl | member
      · rw [kept rest _ absent]
        exact Function.update_self _ _ _
      · exact ih restDistinct member _

/-- The keys of some of the elements are keys of the elements. -/
theorem keys_filterMap {A K V : Type} {pick : A → Option (K × V)} {key : A → K}
    (keys : ∀ element pair, pick element = some pair → pair.1 = key element) (elements : List A) :
    ((elements.filterMap pick).map Prod.fst).Sublist (elements.map key) := by
  induction elements with
  | nil => exact .slnil
  | cons first rest ih =>
      cases picked : pick first with
      | none =>
          rw [List.filterMap_cons_none picked, List.map_cons]
          exact ih.cons _
      | some pair =>
          rw [List.filterMap_cons_some picked, List.map_cons, List.map_cons, keys first pair picked]
          exact ih.cons_cons _

/-- The files of a root directory have different names on the host. -/
theorem Rooted.nodup_tailFileNames (rooted : Rooted own shared nodes root entries world) :
    (world.files.map fun entry => tailFileName entry.fname).Nodup := by
  have names : (world.files.map (·.fname)).Nodup := by
    rw [← rooted.names_eq]
    exact rooted.tidy.nodup_namesOf
  have injective : Function.Injective tailFileName := fun _ _ same =>
    List.append_cancel_left (List.append_cancel_right same)
  have mapped := names.map injective
  rwa [List.map_map] at mapped

/-- The hidden data is recovered exactly when there is none, and every file has a last sector and a name other than those
of the root directory itself. -/
theorem recoversTails_iff (rooted : Rooted own shared nodes root entries world) :
    world.RecoversTails ↔ ∀ entry ∈ world.files, NoDots entry.fname ∧ 0 < (world.inodeData entry.inodeSector).length ∧
      world.hiddenTail entry.inodeSector = [] := by
  constructor
  · intro recovers
    obtain ⟨next, ran⟩ := recovers ⟨fun _ => none, fun _ => true⟩ fun _ => rfl
    rcases rooted.recoverTails (show ∀ name, Host.creates ⟨fun _ => none, fun _ => true⟩ name = true from fun _ => rfl) with
      ⟨fits, last, ran'⟩ | ⟨_, none⟩
    swap
    · rw [none] at ran
      cases ran
    intro entry listed
    refine ⟨(fits entry listed).1, (fits entry listed).2.1, ?_⟩
    by_contra hidden
    rw [ran, Option.some.injEq, Prod.mk.injEq] at ran'
    have written : (tailFileName entry.fname, ((world.lastBytes entry.inodeSector).drop 1).take
        ((world.lastBytes entry.inodeSector).countP (· ≠ 0))) ∈
        world.files.filterMap fun entry => world.tailWritten entry.fname entry.inodeSector :=
      List.mem_filterMap.mpr ⟨entry, listed, if_neg hidden⟩
    have wanted : (tailFileName entry.fname, world.hiddenTail entry.inodeSector) ∈ world.tailFiles :=
      List.mem_filterMap.mpr ⟨entry, listed, if_neg hidden⟩
    have distinct := rooted.nodup_tailFileNames
    have keys : ∀ (entry : DirEntry) pair, world.tailWritten entry.fname entry.inodeSector = some pair →
        pair.1 = tailFileName entry.fname := by
      intro entry pair picked
      unfold World.tailWritten at picked
      split_ifs at picked
      exact (congrArg Prod.fst (Option.some.inj picked)).symm
    have writtenKeys := distinct.sublist (keys_filterMap keys world.files)
    have wantedKeys : (world.tailFiles.map Prod.fst).Nodup := by
      refine distinct.sublist (keys_filterMap (fun entry pair picked => ?_) world.files)
      split_ifs at picked
      exact (congrArg Prod.fst (Option.some.inj picked)).symm
    have here := files_foldl_store writtenKeys written ⟨fun _ => none, fun _ => true⟩
    rw [← ran'.1, files_foldl_store wantedKeys wanted, Option.some.injEq] at here
    exact take_countP_tail_ne hidden ((fits entry listed).2.2 hidden) here.symm
  · intro good host creates
    have noTails : world.tailFiles = [] := by
      rw [World.tailFiles, List.filterMap_eq_nil_iff]
      exact fun entry listed => if_pos (good entry listed).2.2
    have noWrites : (world.files.filterMap fun entry => world.tailWritten entry.fname entry.inodeSector) = [] := by
      rw [List.filterMap_eq_nil_iff]
      exact fun entry listed => if_pos (good entry listed).2.2
    rcases rooted.recoverTails creates with ⟨_, next, ran⟩ | ⟨bad, _⟩
    · rw [noWrites] at ran
      rw [noTails]
      exact ⟨next, ran⟩
    · exact absurd (fun entry listed => ⟨(good entry listed).1, (good entry listed).2.1, fun hidden =>
        absurd (good entry listed).2.2 hidden⟩) bad

/-- A file whose sectors are zero behind its end has no hidden data. -/
theorem Volume.hiddenTail_eq_nil (volume : Volume own shared nodes world) (present : nodes sector = some data)
    (tail : TailZero world.disk data) (positive : 0 < data.length) : world.hiddenTail sector = [] := by
  have node := volume.node sector data present
  have maximum : maxBlocks = 16635 := rfl
  have high := node.high
  have wanted : blocksOf data.length - 1 < blocksOf data.length ∧ blocksOf data.length - 1 < maxBlocks ∧
      data.length ≤ 512 * (blocksOf data.length - 1 : Nat) + (data.length - (blocksOf data.length - 1 : Nat) * 512).toNat := by
    unfold blocksOf
    omega
  obtain ⟨last, found, bytes⟩ := volume.lastBytes_eq present positive
  rw [World.dataSectors, volume.inodeData_eq present, List.getElem?_map, List.getElem?_range wanted.1, Option.map_some,
    Option.some.injEq] at found
  subst found
  by_contra hidden
  obtain ⟨byte, member, nonzero⟩ := List.any_eq_true.mp (hiddenTail_ne_nil.mp hidden)
  rw [bytes] at member
  obtain ⟨index, found⟩ := List.mem_iff_getElem?.mp member
  rw [List.getElem?_drop, getElem?_bytes] at found
  split_ifs at found with inside
  · have behind := tail _ wanted.2.1 (node.complete.block wanted.1 wanted.2.1) ⟨_, inside⟩ (by
      have start := wanted.2.2
      dsimp only
      omega)
    rw [behind] at found
    exact of_decide_eq_true nonzero (Option.some.inj found).symm

/-- After commands of every kind the files a, b and d have no hidden data. -/
theorem recoversTails_iff_small : ∃ start world first second third,
    run (filesysInit true) ⟨.boot 300 fun _ => 0, fun _ => zeros⟩ = some ((), start) ∧
      Lib.Runs World.RoomyStep start usedCommands world ∧
      (∀ name sector, Named world.rootEntries name sector ↔
        name = [97] ∧ sector = first ∨ name = [98] ∧ sector = second ∨ name = [100] ∧ sector = third) ∧
      (world.inodeData first).length = 512 ∧ (world.inodeData second).length = 1400 ∧ (world.inodeData third).length = 600 ∧
      world.RecoversTails := by
  obtain ⟨start, world, shared, first, second, third, formatted, runs, _, names, firstLength, secondLength, thirdLength, _⟩ :=
    used_small
  obtain ⟨_, rest⟩ := plainRun_atRest formatFits_small formatted .start
  have reached := ((roomyRun_of_runs runs).plainRun rest).safeRun rest
  obtain ⟨_, _, _, _, _, prompt, rootNames⟩ := safeRun_rootNames formatFits_small formatted reached
  have rootEntries := prompt.toMounted.rootEntries
  have rooted := prompt.rooted rootNames
  refine ⟨start, world, first, second, third, formatted, runs, names, firstLength, secondLength, thirdLength,
    (recoversTails_iff rooted).mpr fun entry listed => ?_⟩
  have isEntry := named_of_mem_files rooted.rootEntries listed
  obtain ⟨_, _, _, data, present, _, tail⟩ := prompt.regular _ _ isEntry
  have lengths : NoDots entry.fname ∧ 0 < (world.inodeData entry.inodeSector).length := by
    rcases (names _ _).mp (rootEntries ▸ isEntry) with ⟨isName, sector⟩ | ⟨isName, sector⟩ | ⟨isName, sector⟩
    · rw [isName, sector, firstLength]
      decide
    · rw [isName, sector, secondLength]
      decide
    · rw [isName, sector, thirdLength]
      decide
  refine ⟨lengths.1, lengths.2, prompt.volume.hiddenTail_eq_nil present tail ?_⟩
  rw [← prompt.toMounted.inodeData present]
  exact lengths.2

/-- The sectors of an empty file are indexed before the first one. -/
theorem recoverTails_empty : ∃ start world,
    run (filesysInit true) ⟨.boot 300 fun _ => 0, fun _ => zeros⟩ = some ((), start) ∧
      start.command (.create [97] 0) = some world ∧ ¬ world.RecoversTails := by
  obtain ⟨start, own, shared, nodes, root, formatted, limit, freeFrom, _, prompt⟩ := format_small_freeFrom
  have none : (inodePlaces (blocksOf 0)).length = 0 := by decide
  obtain ⟨world, own', nodes', root', sector, ran, prompt', _, _, _, _, length, _⟩ :=
    prompt.create_room freeFrom (by decide : (0 : UInt8) ∉ [97]) (by decide) (by decide)
      (not_named_newEntries _ _ _) freeSlot_newEntries (by decide : (0 : Int) ≤ 0) (by decide) (by omega)
  have creates : start.command (.create [97] 0) = some world := World.command_create (by decide) (by decide) ran
  refine ⟨start, world, formatted, creates, fun recovers => ?_⟩
  have named := (prompt.tidy.named_new (by decide : (0 : UInt8) ∉ fileName [97]) (by decide) sector _ _).mpr (.inr ⟨rfl, rfl⟩)
  have valid : ShellCommand.Valid (.create [97] 0) := show (0 : UInt8) ∉ ([97] : CString) by decide
  have names := prompt.rootNames (rootNames_newEntries 1000) valid trivial creates
  rw [prompt'.toMounted.rootEntries] at names
  have rooted := prompt'.rooted names
  obtain ⟨entry, listed, _, same⟩ := mem_files_of_named rooted.rootEntries named
  obtain ⟨next, ends⟩ := recovers ⟨fun _ => Option.none, fun _ => true⟩ fun _ => rfl
  rcases rooted.recoverTails (show ∀ name, Host.creates ⟨fun _ => Option.none, fun _ => true⟩ name = true from fun _ => rfl) with
    ⟨fits, _⟩ | ⟨_, undefined⟩
  · have positive := (fits entry listed).2.1
    rw [same, length] at positive
    exact absurd positive (by decide)
  · rw [undefined] at ends
    cases ends

end MockOS.Fs
