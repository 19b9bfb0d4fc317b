import Mathlib.Data.List.Range
import MockOS.Fs.Format
import MockOS.Fs.Recover

namespace MockOS.Fs

/-- The number of elements that are not zero covers a list exactly when they come first. -/
theorem take_countP_padded (list : List UInt8) :
    list.take (list.countP (· ≠ 0)) ++ List.replicate (list.length - (list.countP (· ≠ 0))) 0 = list ↔
      ∀ (i j : Nat) (one two : UInt8), i < j → list[i]? = some one → list[j]? = some two → two ≠ 0 → one ≠ 0 := by
  induction list with
  | nil => simp
  | cons first rest ih =>
      have bound : rest.countP (· ≠ 0) ≤ rest.length := List.countP_le_length
      by_cases zero : first = 0
      · subst zero
        rw [List.countP_cons_of_neg (by simp), List.length_cons]
        constructor
        · intro padded i j one two less here there nonzero
          exfalso
          obtain ⟨j, rfl⟩ : ∃ before, j = before + 1 := ⟨j - 1, by omega⟩
          rw [List.getElem?_cons_succ] at there
          have counted : 0 < rest.countP (· ≠ 0) :=
            List.countP_pos_iff.mpr ⟨two, List.mem_of_getElem? there, by simpa using nonzero⟩
          obtain ⟨count, same⟩ := Nat.exists_eq_succ_of_ne_zero (Nat.ne_of_gt counted)
          rw [same, List.take_succ_cons, List.cons_append, List.cons.injEq] at padded
          -- fewer elements are kept than are not zero
          have fewer := congrArg (List.countP (· ≠ 0)) padded.2
          have kept : (rest.take count).countP (· ≠ 0) ≤ (rest.take count).length := List.countP_le_length
          rw [List.countP_append, List.countP_replicate, same, if_neg (by simp)] at fewer
          rw [List.length_take] at kept
          omega
        · intro ordered
          have empty : ∀ byte ∈ rest, byte = 0 := by
            intro byte member
            obtain ⟨index, there⟩ := List.mem_iff_getElem?.mp member
            by_contra nonzero
            exact ordered 0 (index + 1) 0 byte (Nat.succ_pos _) rfl (by simpa using there) nonzero rfl
          have none : rest.countP (· ≠ 0) = 0 := by
            rw [List.countP_eq_zero]
            intro byte member
            simp [empty byte member]
          rw [none, List.take_zero, List.nil_append, Nat.sub_zero, List.replicate_succ, List.cons.injEq]
          exact ⟨rfl, (List.eq_replicate_of_mem empty).symm⟩
      · rw [List.countP_cons_of_pos (by simpa using zero), List.take_succ_cons, List.length_cons, Nat.add_sub_add_right,
          List.cons_append, List.cons.injEq, and_iff_right rfl, ih]
        constructor
        · intro ordered i j one two less here there nonzero
          obtain ⟨j, rfl⟩ : ∃ before, j = before + 1 := ⟨j - 1, by omega⟩
          rw [List.getElem?_cons_succ] at there
          cases i with
          | zero =>
              rw [List.getElem?_cons_zero, Option.some.injEq] at here
              exact here ▸ zero
          | succ i =>
              rw [List.getElem?_cons_succ] at here
              exact ordered i j one two (by omega) here there nonzero
        · intro ordered i j one two less here there nonzero
          exact ordered (i + 1) (j + 1) one two (by omega) (by simpa using here) (by simpa using there) nonzero

/-- The names of the recovered sectors are different. -/
theorem sectorFileName_injective {first second : Nat} (firstSmall : first < 2147483648) (secondSmall : second < 2147483648)
    (same : sectorFileName first = sectorFileName second) : first = second := by
  have short : ∀ number < 2147483648, (decimal number).length ≤ 10 := by
    intro number small
    rw [decimal, CString.ofChars, List.length_map, Nat.length_toDigits_le_iff (by decide) (by decide)]
    omega
  have whole : ∀ number < 2147483648, sectorFileName number =
      [114, 101, 99, 111, 118, 101, 114, 101, 100, 49, 45] ++ decimal number ++ [46, 116, 120, 116] := by
    intro number small
    have := short number small
    apply List.take_of_length_le
    simp only [List.length_append, List.length_cons, List.length_nil]
    omega
  rw [whole first firstSmall, whole second secondSmall] at same
  exact ofChars_toDigits_injective (List.append_cancel_left (List.append_cancel_right same))

variable {world : World} {host : Host} {sector : Nat}

/-- The bytes that are written for a sector. -/
def Sector.recovered (block : Sector) : Option (List UInt8) :=
  if block.bytes.any (· ≠ 0) then some (block.bytes.take (block.bytes.countP (· ≠ 0))) else none

/-- The host after a sector was looked at. -/
def Host.recovered (disk : BlockSector → Sector) (host : Host) (sector : Nat) : Host :=
  match (disk (UInt32.ofNat sector)).recovered with
  | some bytes => host.write (sectorFileName sector) bytes
  | none => host

theorem run_recoverSector : run (recoverSector host sector) world = some (host.recovered world.disk sector, world) := by
  rw [recoverSector, run_bind, run_bufferCacheRead, Option.bind_some, Host.recovered, Sector.recovered]
  split_ifs <;> rfl

/-- The sectors up to the number of free ones are looked at. -/
theorem run_recoverSectorsFrom (rounds : Nat) (enough : world.mem.freeMap.free - sector < rounds) :
    run (recoverSectorsFrom rounds sector host) world =
      some ((List.range' sector (world.mem.freeMap.free - sector)).foldl (Host.recovered world.disk) host, world) := by
  induction rounds generalizing sector host with
  | zero => exact absurd enough (Nat.not_lt_zero _)
  | succ rounds ih =>
      have counted : run numFreeSectors world = some (world.mem.freeMap.free, world) := rfl
      rw [recoverSectorsFrom, run_bind, counted, Option.bind_some]
      by_cases more : sector < world.mem.freeMap.free
      · rw [if_pos more, run_bind, run_recoverSector, Option.bind_some, ih (by omega)]
        rw [show world.mem.freeMap.free - sector = (world.mem.freeMap.free - (sector + 1)) + 1 from by omega,
          List.range'_succ, List.foldl_cons]
      · rw [if_neg more, run_pure, Nat.sub_eq_zero_of_le (by omega)]
        rfl

theorem creates_recovered (disk : BlockSector → Sector) (host : Host) (sector : Nat) :
    (host.recovered disk sector).creates = host.creates := by
  rw [Host.recovered]
  cases (disk (UInt32.ofNat sector)).recovered with
  | none => rfl
  | some bytes =>
      simp only [Host.write]
      split_ifs <;> rfl

section Creates

variable {disk : BlockSector → Sector} (creates : ∀ name, host.creates name = true)

include creates

theorem files_recovered (name : CString) : (host.recovered disk sector).files name =
    if name = sectorFileName sector then (disk (UInt32.ofNat sector)).recovered.or (host.files name)
    else host.files name := by
  rw [Host.recovered]
  cases (disk (UInt32.ofNat sector)).recovered with
  | none => simp
  | some bytes => simp only [Host.write, creates, if_true, Host.store, Function.update_apply, Option.some_or]

/-- Each sector of the list that is not empty has its file. -/
theorem files_foldl_recovered {sectors : List Nat} (small : ∀ number ∈ sectors, number < 2147483648)
    (sectorSmall : sector < 2147483648) :
    (sectors.foldl (Host.recovered disk) host).files (sectorFileName sector) =
      if sector ∈ sectors then (disk (UInt32.ofNat sector)).recovered.or (host.files (sectorFileName sector))
      else host.files (sectorFileName sector) := by
  induction sectors generalizing host with
  | nil => simp
  | cons first rest ih =>
      have createsAfter : ∀ name, (host.recovered disk first).creates name = true := by
        rw [creates_recovered]
        exact creates
      have named : sectorFileName sector = sectorFileName first ↔ sector = first :=
        ⟨sectorFileName_injective sectorSmall (small first List.mem_cons_self), fun same => same ▸ rfl⟩
      rw [List.foldl_cons, ih createsAfter fun number member => small number (List.mem_cons_of_mem _ member),
        files_recovered creates]
      simp only [List.mem_cons, named]
      by_cases same : sector = first
      · subst same
        cases (disk (UInt32.ofNat sector)).recovered <;> simp
      · simp only [same, if_false, false_or]

end Creates

/-- `recover` with the flag 1 gives every sector from the fourth on that is not empty a file of the host that holds
it, and no other sector, on a host that lets all files be created. -/
def World.RecoversSectors (world : World) : Prop :=
  ∀ host : Host, (∀ name, host.creates name = true) → ∃ after next, run (recoverSectors host) world = some (after, next) ∧
    ∀ sector, 4 ≤ sector → sector < world.mem.freeMap.bitCnt →
      (world.disk (UInt32.ofNat sector) = zeros →
        after.files (sectorFileName sector) = host.files (sectorFileName sector)) ∧
      (world.disk (UInt32.ofNat sector) ≠ zeros → ∃ bytes, after.files (sectorFileName sector) = some bytes ∧
        bytes ++ List.replicate (512 - bytes.length) 0 = (world.disk (UInt32.ofNat sector)).bytes)

theorem length_bytes (block : Sector) : block.bytes.length = 512 := by
  unfold Sector.bytes
  exact List.length_ofFn

theorem getElem?_bytes (block : Sector) (index : Nat) :
    block.bytes[index]? = if small : index < 512 then some (block ⟨index, small⟩) else none := by
  unfold Sector.bytes
  exact List.getElem?_ofFn

theorem mem_bytes {block : Sector} {byte : UInt8} : byte ∈ block.bytes ↔ ∃ index, block index = byte := by
  unfold Sector.bytes
  exact List.mem_ofFn

theorem any_nonzero {block : Sector} : block.bytes.any (· ≠ 0) = true ↔ block ≠ zeros := by
  rw [List.any_eq_true]
  constructor
  · rintro ⟨byte, member, nonzero⟩ rfl
    obtain ⟨index, rfl⟩ := mem_bytes.mp member
    simp [zeros] at nonzero
  · intro different
    obtain ⟨index, nonzero⟩ := Function.ne_iff.mp different
    exact ⟨block index, mem_bytes.mpr ⟨index, rfl⟩, by simpa [zeros] using nonzero⟩

theorem recovered_zeros : zeros.recovered = none := if_neg (any_nonzero.not_left.mpr rfl)

theorem recovered_nonzero {block : Sector} (nonzero : block ≠ zeros) :
    block.recovered = some (block.bytes.take (block.bytes.countP (· ≠ 0))) := if_pos (any_nonzero.mpr nonzero)

/-- The bytes of a sector that are not zero come first. -/
def Sector.ZerosLast (block : Sector) : Prop := ∀ i j : Fin 512, i < j → block j ≠ 0 → block i ≠ 0

theorem zerosLast_iff (block : Sector) : block.ZerosLast ↔
    block.bytes.take (block.bytes.countP (· ≠ 0)) ++
      List.replicate (512 - block.bytes.countP (· ≠ 0)) 0 = block.bytes := by
  have padded := take_countP_padded block.bytes
  rw [length_bytes] at padded
  rw [padded, Sector.ZerosLast]
  constructor
  · intro ordered i j one two less here there nonzero
    rw [getElem?_bytes] at here there
    split_ifs at here there with iSmall jSmall
    · rw [← Option.some.inj here]
      exact ordered ⟨i, iSmall⟩ ⟨j, jSmall⟩ less (by rwa [Option.some.inj there])
  · intro ordered i j less nonzero
    refine ordered i.val j.val (block i) (block j) less ?_ ?_ nonzero
    · rw [getElem?_bytes, dif_pos i.isLt]
    · rw [getElem?_bytes, dif_pos j.isLt]

theorem free_le_bitCnt (bitmap : Bitmap) : bitmap.free ≤ bitmap.bitCnt := by
  rw [Bitmap.free_eq]
  exact List.countP_le_length.trans_eq List.length_range

theorem run_recoverSectors (host : Host) : run (recoverSectors host) world =
    some ((List.range' 4 (world.mem.freeMap.free - 4)).foldl (Host.recovered world.disk) host, world) := by
  have counted : run numFreeSectors world = some (world.mem.freeMap.free, world) := rfl
  rw [recoverSectors, run_bind, counted, Option.bind_some]
  exact run_recoverSectorsFrom _ (Nat.lt_succ_of_le (Nat.sub_le _ _))

section Bounded

variable (bounded : world.mem.freeMap.bitCnt < 2147483648)

include bounded

theorem small_of_looked (number : Nat) (member : number ∈ List.range' 4 (world.mem.freeMap.free - 4)) :
    number < 2147483648 := by
  have below := free_le_bitCnt world.mem.freeMap
  rw [List.mem_range'_1] at member
  omega

/-- A sector that is recovered was looked at, and nothing of it was cut off. -/
theorem World.RecoversSectors.covers (recovers : world.RecoversSectors) (low : 4 ≤ sector)
    (high : sector < world.mem.freeMap.bitCnt) (nonzero : world.disk (UInt32.ofNat sector) ≠ zeros) :
    sector < world.mem.freeMap.free ∧ (world.disk (UInt32.ofNat sector)).ZerosLast := by
  obtain ⟨after, next, ran, right⟩ := recovers ⟨fun _ => none, fun _ => true⟩ fun _ => rfl
  rw [run_recoverSectors, Option.some.injEq, Prod.mk.injEq] at ran
  obtain ⟨bytes, written, whole⟩ := (right sector low high).2 nonzero
  rw [← ran.1, files_foldl_recovered (fun _ => rfl) (small_of_looked bounded) (by omega),
    recovered_nonzero nonzero] at written
  split_ifs at written with looked
  rw [List.mem_range'_1] at looked
  rw [Option.some_or, Option.some.injEq] at written
  refine ⟨by omega, (zerosLast_iff _).mpr ?_⟩
  have length : bytes.length = (world.disk (UInt32.ofNat sector)).bytes.countP (· ≠ 0) := by
    rw [← written, List.length_take]
    exact Nat.min_eq_left List.countP_le_length
  rw [length, ← written] at whole
  exact whole

/-- All sectors are recovered exactly when those that are not empty lie below the number of free ones and hold their
zero bytes last. -/
theorem recoversSectors_iff :
    world.RecoversSectors ↔ ∀ sector, 4 ≤ sector → sector < world.mem.freeMap.bitCnt →
      world.disk (UInt32.ofNat sector) ≠ zeros →
        sector < world.mem.freeMap.free ∧ (world.disk (UInt32.ofNat sector)).ZerosLast := by
  constructor
  · intro recovers sector low high nonzero
    exact recovers.covers bounded low high nonzero
  · intro good host creates
    refine ⟨_, world, run_recoverSectors host, fun sector low high => ?_⟩
    rw [files_foldl_recovered creates (small_of_looked bounded) (by omega)]
    constructor
    · intro empty
      rw [empty, recovered_zeros, Option.none_or, ite_self]
    · intro nonzero
      obtain ⟨below, last⟩ := good sector low high nonzero
      rw [if_pos (by rw [List.mem_range'_1]; omega), recovered_nonzero nonzero, Option.some_or]
      refine ⟨_, rfl, ?_⟩
      rw [List.length_take, Nat.min_eq_left List.countP_le_length]
      exact (zerosLast_iff _).mp last

end Bounded

/-- A device of eight free sectors; sector 4 holds one byte behind a zero byte. -/
def World.oneByte : World :=
  ⟨{ Mem.boot 9 fun _ => 0 with freeMap := Bitmap.bitmapCreate 8 },
    fun sector => if sector = 4 then Function.update zeros 1 65 else zeros⟩

theorem recoversSectors_iff_oneByte : World.oneByte.RecoversSectors ↔ ∀ sector, 4 ≤ sector → sector < 8 →
    World.oneByte.disk (UInt32.ofNat sector) ≠ zeros →
      sector < World.oneByte.mem.freeMap.free ∧ (World.oneByte.disk (UInt32.ofNat sector)).ZerosLast :=
  recoversSectors_iff (by decide)

/-- The byte behind the zero byte is lost. -/
theorem recovers_first_byte : ¬ World.oneByte.RecoversSectors := by
  intro recovers
  have nonzero : World.oneByte.disk (UInt32.ofNat 4) ≠ zeros := fun empty => absurd (congrFun empty 1) (by decide)
  exact (recovers.covers (by decide) (by decide : 4 ≤ 4) (by decide) nonzero).2 0 1 (by decide) (by decide) (by decide)

end MockOS.Fs
