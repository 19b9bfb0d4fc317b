import MockOS.Device.Partition

namespace MockOS.Device

open Fs (Sector BlockSector)

/-- The bytes of a sector in the image of a disk. -/
def DiskFile.sector (file : DiskFile) (sector : BlockSector) : Sector := fun byte => file (512 * sector.toNat + byte.val)

namespace PartitionTableEntry

/-- The entry names another table. -/
def isLink (e : PartitionTableEntry) : Bool := !e.isEmpty && e.isExtended

/-- What an entry of the table in a sector stands for: a partition, or all that a nested table stands for. -/
def stands (e : PartitionTableEntry) (sector : BlockSector) (nested : List Found) : List Found :=
  if e.isEmpty then [] else if e.isExtended then nested else [⟨e.type, e.offset + sector, e.size⟩]

/-- The sector of the nested table, and the primary extended partition it belongs to. -/
def nestedTable (e : PartitionTableEntry) (sector primary : BlockSector) : BlockSector × BlockSector :=
  if sector = 0 then (e.offset, e.offset) else (e.offset + primary, primary)

end PartitionTableEntry

/-- The partitions that the entries of a table stand for. -/
def tableStands (pt : Sector) (sector : BlockSector) (nested : Fin 4 → List Found) : List Found :=
  (List.finRange 4).flatMap fun i => (partitions pt i).stands sector (nested i)

/-- The valid tables of a disk from one sector on, each in a sector of its own; the chain of extended partitions ends. -/
inductive Decodes (block : Block) (file : DiskFile) : BlockSector → BlockSector → List Found → Prop
  | table {sector primary : BlockSector} {nested : Fin 4 → List Found} : sector < blockSize block →
      signatureValid (file.sector sector) →
      (∀ i, (partitions (file.sector sector) i).isLink →
        Decodes block file ((partitions (file.sector sector) i).nestedTable sector primary).1
          ((partitions (file.sector sector) i).nestedTable sector primary).2 (nested i)) →
      Decodes block file sector primary (tableStands (file.sector sector) sector nested)

variable {block : Block} {file : DiskFile} {sector primary : BlockSector} {scan after : Scan}
  {nested : BlockSector → BlockSector → Scan → Option Scan}

theorem Decodes.inside {calls : List Found} (decodes : Decodes block file sector primary calls) :
    sector < blockSize block := by
  cases decodes
  assumption

section Entries

variable {A : Type} {step : Scan → A → Option Scan}

theorem foldlM_calls {stands : A → List Found}
    (steps : ∀ item scan after, step scan item = some after → after.calls = scan.calls ++ stands item) {items : List A}
    (folded : items.foldlM step scan = some after) : after.calls = scan.calls ++ items.flatMap stands := by
  induction items generalizing scan with
  | nil =>
      obtain rfl : scan = after := Option.some.inj folded
      simp
  | cons item rest ih =>
      rw [List.foldlM_cons] at folded
      obtain ⟨middle, here, later⟩ := Option.bind_eq_some_iff.mp folded
      rw [ih later, steps item scan middle here, List.flatMap_cons, List.append_assoc]

theorem foldlM_returns (steps : ∀ item scan, (step scan item).isSome) (items : List A) (scan : Scan) :
    (items.foldlM step scan).isSome := by
  induction items generalizing scan with
  | nil => rfl
  | cons item rest ih =>
      obtain ⟨middle, here⟩ := Option.isSome_iff_exists.mp (steps item scan)
      rw [List.foldlM_cons, here]
      exact ih middle

/-- A fold that returns has returned from each of its steps. -/
theorem foldlM_step {items : List A} {item : A} (member : item ∈ items) (returned : (items.foldlM step scan).isSome) :
    ∃ scan, (step scan item).isSome := by
  induction items generalizing scan with
  | nil => cases member
  | cons first rest ih =>
      rw [List.foldlM_cons] at returned
      obtain ⟨after, folded⟩ := Option.isSome_iff_exists.mp returned
      obtain ⟨middle, here, later⟩ := Option.bind_eq_some_iff.mp folded
      rcases List.mem_cons.mp member with rfl | member
      · exact ⟨scan, by rw [here]; rfl⟩
      · exact ih member (by rw [later]; rfl)

end Entries

theorem readEntry_link {e : PartitionTableEntry} (link : e.isLink) : readEntry block nested sector primary e scan =
    nested (e.nestedTable sector primary).1 (e.nestedTable sector primary).2 scan := by
  obtain ⟨full, extended⟩ := Bool.and_eq_true_iff.mp link
  rw [readEntry, if_neg (by simpa using full), if_pos extended, PartitionTableEntry.nestedTable]
  split <;> rfl

theorem readEntry_other {e : PartitionTableEntry} (other : ¬ e.isLink) (below : List Found) :
    ∃ hardDrive, readEntry block nested sector primary e scan =
      some ⟨scan.calls ++ e.stands sector below, hardDrive⟩ := by
  unfold readEntry PartitionTableEntry.stands
  by_cases empty : e.isEmpty
  · exact ⟨scan.hardDrive, by simp [empty]⟩
  · have plain : ¬ e.isExtended := fun extended => other (by simp [PartitionTableEntry.isLink, empty, extended])
    exact ⟨_, by rw [if_neg empty, if_neg plain, if_neg empty, if_neg plain]⟩

theorem PartitionTableEntry.stands_link {e : PartitionTableEntry} (link : e.isLink) (below : List Found) :
    e.stands sector below = below := by
  obtain ⟨full, extended⟩ := Bool.and_eq_true_iff.mp link
  rw [PartitionTableEntry.stands, if_neg (by simpa using full), if_pos extended]

section Disk

variable {size : BlockSector}

@[simp] theorem blockSize_disk (size : BlockSector) : blockSize (.disk size) = size := rfl

theorem blockRead_zero : blockRead (.disk size) 0 file = file.sector 0 := rfl

/-- The code parses the table of sector 0 at every sector of the device. -/
theorem readPartitionTable_succ (inside : sector < size) (valid : signatureValid (file.sector 0)) (fuel : Nat) :
    readPartitionTable (.disk size) file (fuel + 1) sector primary scan =
      (List.finRange 4).foldlM (fun scan i => readEntry (.disk size) (readPartitionTable (.disk size) file fuel) sector
        primary (partitions (file.sector 0) i) scan) scan := by
  rw [readPartitionTable, blockSize_disk, if_neg (UInt32.not_le.mpr inside), blockRead_zero]
  dsimp only
  rw [if_neg (by simp [valid])]

theorem readPartitionTable_past (past : size ≤ sector) (fuel : Nat) :
    readPartitionTable (.disk size) file (fuel + 1) sector primary scan = some scan := by
  rw [readPartitionTable, blockSize_disk, if_pos past]

/-- A call that returns within a number of nested calls. -/
def Returns (size : BlockSector) (file : DiskFile) (fuel : Nat) (table : BlockSector × BlockSector) : Prop :=
  ∃ scan, (readPartitionTable (.disk size) file fuel table.1 table.2 scan).isSome

/-- It has returned from the call for each extended partition of sector 0. -/
theorem Returns.below {fuel : Nat} {i : Fin 4} (returns : Returns size file fuel (sector, primary))
    (inside : sector < size) (valid : signatureValid (file.sector 0)) (link : (partitions (file.sector 0) i).isLink) :
    ∃ less, fuel = less + 1 ∧ Returns size file less ((partitions (file.sector 0) i).nestedTable sector primary) := by
  obtain ⟨scan, returned⟩ := returns
  cases fuel with
  | zero => cases returned
  | succ less =>
      rw [readPartitionTable_succ inside valid] at returned
      obtain ⟨scan, returned⟩ := foldlM_step (List.mem_finRange i) returned
      rw [readEntry_link link] at returned
      exact ⟨less, rfl, scan, returned⟩

variable (valid : signatureValid (file.sector 0))

include valid

/-- Where the sum of two extended offsets is on the device, the calls go round in a circle. -/
theorem not_returns {i j : Fin 4} (first : (partitions (file.sector 0) i).isLink)
    (second : (partitions (file.sector 0) j).isLink) (inside : (partitions (file.sector 0) i).offset < size)
    (sum : (partitions (file.sector 0) j).offset + (partitions (file.sector 0) i).offset < size) (fuel : Nat) :
    ¬ Returns size file fuel ((partitions (file.sector 0) i).offset, (partitions (file.sector 0) i).offset) := by
  induction fuel using Nat.strongRecOn with
  | ind fuel ih =>
      intro returns
      by_cases zero : (partitions (file.sector 0) i).offset = 0
      · obtain ⟨less, rfl, again⟩ := returns.below inside valid first
        rw [PartitionTableEntry.nestedTable, if_pos zero] at again
        exact ih less (Nat.lt_succ_self _) again
      · obtain ⟨less, rfl, below⟩ := returns.below inside valid second
        rw [PartitionTableEntry.nestedTable, if_neg zero] at below
        by_cases back : (partitions (file.sector 0) j).offset + (partitions (file.sector 0) i).offset = 0
        · obtain ⟨lesser, rfl, again⟩ := below.below sum valid first
          rw [PartitionTableEntry.nestedTable, if_pos back] at again
          exact ih lesser (by omega) again
        · clear ih returns
          induction less with
          | zero => exact below.elim fun _ impossible => by cases impossible
          | succ less again =>
              obtain ⟨_, same, next⟩ := below.below sum valid second
              rw [PartitionTableEntry.nestedTable, if_neg back, ← Nat.succ_inj.mp same] at next
              exact again next

/-- A table whose extended partitions are past the end of the device. -/
theorem readPartitionTable_flat (inside : sector < size)
    (past : ∀ i, (partitions (file.sector 0) i).isLink →
      size ≤ ((partitions (file.sector 0) i).nestedTable sector primary).1) (fuel : Nat) :
    (∀ scan after, readPartitionTable (.disk size) file (fuel + 1) sector primary scan = some after →
      after.calls = scan.calls ++ tableStands (file.sector 0) sector fun _ => []) ∧
    ∀ scan, (readPartitionTable (.disk size) file (fuel + 2) sector primary scan).isSome := by
  constructor
  · intro scan after returned
    rw [readPartitionTable_succ inside valid] at returned
    refine foldlM_calls (fun i scan after here => ?_) returned
    by_cases link : (partitions (file.sector 0) i).isLink
    · rw [readEntry_link link] at here
      cases fuel with
      | zero => cases here
      | succ less =>
          rw [readPartitionTable_past (past i link), Option.some.injEq] at here
          rw [PartitionTableEntry.stands_link link, List.append_nil, here]
    · obtain ⟨hardDrive, same⟩ := readEntry_other link []
      rw [same, Option.some.injEq] at here
      rw [← here]
  · intro scan
    rw [readPartitionTable_succ inside valid]
    refine foldlM_returns (fun i scan => ?_) _ scan
    by_cases link : (partitions (file.sector 0) i).isLink
    · rw [readEntry_link link, readPartitionTable_past (past i link)]
      rfl
    · obtain ⟨hardDrive, same⟩ := readEntry_other link []
      rw [same]
      rfl

/-- The partitions that a disk has when each extended partition of sector 0 holds a copy of that table without nested
tables of its own. -/
def repeatedTable (file : DiskFile) : List Found :=
  tableStands (file.sector 0) 0 fun i =>
    tableStands (file.sector 0) (partitions (file.sector 0) i).offset fun _ => []

omit valid in
theorem tableStands_congr {pt : Sector} {first second : Fin 4 → List Found}
    (same : ∀ i, (partitions pt i).isLink → first i = second i) :
    tableStands pt sector first = tableStands pt sector second := by
  apply List.flatMap_congr
  intro i _
  by_cases link : (partitions pt i).isLink
  · rw [same i link]
  · unfold PartitionTableEntry.isLink at link
    unfold PartitionTableEntry.stands
    split_ifs with empty extended
    · rfl
    · simp [empty, extended] at link
    · rfl

/-- Where no two extended offsets add up to a sector of the device, the calls end two levels down. -/
theorem partitionScan_repeated (inside : 0 < size)
    (links : ∀ i, (partitions (file.sector 0) i).isLink → (partitions (file.sector 0) i).offset < size)
    (past : ∀ i j, (partitions (file.sector 0) i).isLink → (partitions (file.sector 0) j).isLink →
      size ≤ (partitions (file.sector 0) j).offset + (partitions (file.sector 0) i).offset) :
    (∀ fuel after, partitionScan (.disk size) file fuel = some after → after.calls = repeatedTable file) ∧
      (partitionScan (.disk size) file 3).isSome := by
  have flat : ∀ i, (partitions (file.sector 0) i).isLink → ∀ fuel, _ := fun i link fuel =>
    readPartitionTable_flat valid (links i link) (fun j other => by
      have nonzero : (partitions (file.sector 0) i).offset ≠ 0 := by
        intro zero
        have sum := past i i link link
        rw [zero] at sum
        exact absurd inside (UInt32.not_lt.mpr sum)
      rw [PartitionTableEntry.nestedTable, if_neg nonzero]
      exact past i j link other) fuel
  constructor
  · intro fuel after returned
    cases fuel with
    | zero => cases returned
    | succ fuel =>
        rw [partitionScan, readPartitionTable_succ inside valid] at returned
        rw [← List.nil_append (repeatedTable file), repeatedTable]
        refine foldlM_calls (fun i scan after here => ?_) returned
        by_cases link : (partitions (file.sector 0) i).isLink
        · rw [readEntry_link link, PartitionTableEntry.nestedTable, if_pos rfl] at here
          rw [PartitionTableEntry.stands_link link]
          cases fuel with
          | zero => cases here
          | succ less => exact (flat i link less).1 scan after here
        · obtain ⟨hardDrive, same⟩ := readEntry_other link
            (tableStands (file.sector 0) (partitions (file.sector 0) i).offset fun _ => [])
          rw [same, Option.some.injEq] at here
          rw [← here]
  · rw [partitionScan, readPartitionTable_succ inside valid]
    refine foldlM_returns (fun i scan => ?_) _ _
    by_cases link : (partitions (file.sector 0) i).isLink
    · rw [readEntry_link link, PartitionTableEntry.nestedTable, if_pos rfl]
      exact (flat i link 0).2 scan
    · obtain ⟨hardDrive, same⟩ := readEntry_other link []
      rw [same]
      rfl

end Disk

/-- On a disk with valid partition tables the scan ends and finds each partition once if and only if sector 0 has no
extended partition, or no two of its extended offsets add up to a sector of the device and the nested tables describe
what copies of the table of sector 0 would. -/
theorem partitionScan_decodes_iff {stSize : Nat} {file : DiskFile} {expected : List Found}
    (decodes : Decodes (identifyAtaDevice stSize) file 0 0 expected) :
    (∃ fuel scan, partitionScan (identifyAtaDevice stSize) file fuel = some scan ∧ scan.calls.Perm expected) ↔
      (∀ i, ¬ (partitions (file.sector 0) i).isLink) ∨
        (∀ i j, (partitions (file.sector 0) i).isLink → (partitions (file.sector 0) j).isLink →
          blockSize (identifyAtaDevice stSize) ≤
            (partitions (file.sector 0) j).offset + (partitions (file.sector 0) i).offset) ∧
          (repeatedTable file).Perm expected := by
  obtain ⟨size, sizeEq⟩ : ∃ size, identifyAtaDevice stSize = .disk size := ⟨_, rfl⟩
  rw [sizeEq] at decodes ⊢
  obtain ⟨inside, valid, nested⟩ := decodes
  rename_i below
  have links : ∀ i, (partitions (file.sector 0) i).isLink → (partitions (file.sector 0) i).offset < size := by
    intro i link
    have table := nested i link
    rw [PartitionTableEntry.nestedTable, if_pos rfl] at table
    exact table.inside
  constructor
  · rintro ⟨fuel, scan, returned, same⟩
    right
    have past : ∀ i j, (partitions (file.sector 0) i).isLink → (partitions (file.sector 0) j).isLink →
        size ≤ (partitions (file.sector 0) j).offset + (partitions (file.sector 0) i).offset := by
      intro i j first second
      by_contra sum
      have returns : Returns size file fuel (0, 0) := ⟨_, by rw [partitionScan] at returned; rw [returned]; rfl⟩
      obtain ⟨less, _, again⟩ := returns.below inside valid first
      rw [PartitionTableEntry.nestedTable, if_pos rfl] at again
      exact not_returns valid first second (links i first) (UInt32.not_le.mp sum) less again
    refine ⟨past, ?_⟩
    rwa [← (partitionScan_repeated valid inside links past).1 fuel scan returned]
  · intro condition
    have past : ∀ i j, (partitions (file.sector 0) i).isLink → (partitions (file.sector 0) j).isLink →
        size ≤ (partitions (file.sector 0) j).offset + (partitions (file.sector 0) i).offset := by
      rcases condition with none | ⟨past, _⟩
      · exact fun i _ link => absurd link (none i)
      · exact past
    obtain ⟨calls, returns⟩ := partitionScan_repeated valid inside links past
    obtain ⟨scan, returned⟩ := Option.isSome_iff_exists.mp returns
    refine ⟨3, scan, returned, ?_⟩
    rw [calls 3 scan returned]
    rcases condition with none | ⟨_, same⟩
    · rw [repeatedTable, tableStands_congr fun i link => absurd link (none i)]
    · exact same

/-- A disk whose sector 0 has an extended partition at sector 2, with a single Linux partition in it. -/
def nestedDisk : DiskFile := fun position =>
  match position with
  | 450 => 0x05
  | 454 => 2
  | 458 => 10
  | 510 => 0x55
  | 511 => 0xaa
  | 1474 => 0x83
  | 1478 => 1
  | 1482 => 5
  | 1534 => 0x55
  | 1535 => 0xaa
  | _ => 0

theorem nestedDisk_decodes : Decodes (identifyAtaDevice 51200) nestedDisk 0 0 [⟨0x83, 3, 5⟩] := by
  have inner : Decodes (identifyAtaDevice 51200) nestedDisk 2 2 [⟨0x83, 3, 5⟩] := by
    have stands : tableStands (nestedDisk.sector 2) 2 (fun _ => []) = [⟨0x83, 3, 5⟩] := by decide
    rw [← stands]
    refine .table (by decide) (by decide) fun i link => absurd link ?_
    revert i
    decide
  have stands : tableStands (nestedDisk.sector 0) 0 (fun _ => [⟨0x83, 3, 5⟩]) = [⟨0x83, 3, 5⟩] := by decide
  rw [← stands]
  refine .table (by decide) (by decide) fun i link => ?_
  have isFirst : i = 0 := by
    revert i
    decide
  subst isFirst
  exact inner

theorem partitionScan_decodes_iff_nested :
    (∃ fuel scan, partitionScan (identifyAtaDevice 51200) nestedDisk fuel = some scan ∧
        scan.calls.Perm [⟨0x83, 3, 5⟩]) ↔
      (∀ i, ¬ (partitions (nestedDisk.sector 0) i).isLink) ∨
        (∀ i j, (partitions (nestedDisk.sector 0) i).isLink → (partitions (nestedDisk.sector 0) j).isLink →
          blockSize (identifyAtaDevice 51200) ≤
            (partitions (nestedDisk.sector 0) j).offset + (partitions (nestedDisk.sector 0) i).offset) ∧
          (repeatedTable nestedDisk).Perm [⟨0x83, 3, 5⟩] := partitionScan_decodes_iff nestedDisk_decodes

/-- The nested table is never read, and the scan of this disk does not end. -/
theorem partitionScan_endless : ∃ stSize file expected, Decodes (identifyAtaDevice stSize) file 0 0 expected ∧
    ¬ ∃ fuel scan, partitionScan (identifyAtaDevice stSize) file fuel = some scan ∧ scan.calls.Perm expected := by
  refine ⟨51200, nestedDisk, _, nestedDisk_decodes, ?_⟩
  rintro ⟨fuel, scan, returned, _⟩
  have valid : signatureValid (nestedDisk.sector 0) := by decide
  have link : (partitions (nestedDisk.sector 0) 0).isLink := by decide
  have returns : Returns 100 nestedDisk fuel (0, 0) := ⟨_, Option.isSome_iff_exists.mpr ⟨scan, returned⟩⟩
  obtain ⟨less, _, again⟩ := returns.below (by decide) valid link
  exact not_returns valid link link (by decide) (by decide) less again

end MockOS.Device
