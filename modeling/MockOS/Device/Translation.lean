import MockOS.Device.Partition

namespace MockOS.Device

open Fs (Sector BlockSector)

/-- A read of the sector depends on the byte at the position, or a write can change it. -/
def Touches (block : Block) (sector : BlockSector) (position : Nat) : Prop :=
  (∃ (file : DiskFile) (value : UInt8),
    blockRead block sector (Function.update file position value) ≠ blockRead block sector file) ∨
  ∃ (buffer : Sector) (file : DiskFile), blockWrite block sector buffer file position ≠ file position

/-- The driver reads and writes the 512 bytes from its seek position on. -/
theorem touches_disk (size : BlockSector) {sector : BlockSector} {position : Nat} : Touches (.disk size) sector position ↔
    seekPosition sector ≤ position ∧ position < seekPosition sector + 512 := by
  constructor
  · rintro (⟨file, value, read⟩ | ⟨buffer, file, written⟩)
    · by_contra outside
      apply read
      funext byte
      have inside := byte.isLt
      exact Function.update_of_ne (by omega) _ _
    · by_contra outside
      exact written (dif_neg outside)
  · intro inside
    refine .inr ⟨fun _ => 1, fun _ => 0, ?_⟩
    rw [blockWrite, ideWrite, dif_pos inside]
    change (1 : UInt8) ≠ 0
    decide

/-- The first byte of a sector of a partition. -/
theorem touches_partition {capacity size start sector : BlockSector} {position : Nat} :
    Touches (.partition size start (.disk capacity)) sector position ↔
      512 * ((start + sector + 1).toNat % 8388608) ≤ position ∧
        position < 512 * ((start + sector + 1).toNat % 8388608) + 512 := by
  have seek : seekPosition (start + sector + 1) = 512 * ((start + sector + 1).toNat % 8388608) := by
    rw [seekPosition, UInt32.toNat_mul, show (512 : UInt32).toNat = 512 from rfl]
    omega
  rw [← seek]
  exact touches_disk capacity

/-- Each sector of a partition that the free map can hand out has bytes of its own inside the partition. -/
structure ExactTranslation (block : Block) (start : BlockSector) : Prop where
  confined : ∀ sector : BlockSector, sector.toNat < (blockSize block).toNat - 1 → ∀ position, Touches block sector position →
    512 * start.toNat ≤ position ∧ position < 512 * (start.toNat + (blockSize block).toNat)
  disjoint : ∀ first second : BlockSector, first.toNat < (blockSize block).toNat - 1 →
    second.toNat < (blockSize block).toNat - 1 → first ≠ second → ∀ position, Touches block first position →
      ¬ Touches block second position

/-- A registered partition lies on the device. -/
theorem foundPartition_spec {capacity : BlockSector} {partType : UInt8} {start size : BlockSector} {block : Block}
    (found : foundPartition (.disk capacity) partType start size = some block) :
    block = .partition size start (.disk capacity) ∧ start.toNat + size.toNat < 4294967296 := by
  unfold foundPartition at found
  split_ifs at found with past wraps
  simp only [Bool.or_eq_true, decide_eq_true_eq, not_or, UInt32.not_lt, UInt32.le_iff_toNat_le, UInt32.toNat_add] at wraps
  have bound := size.toNat_lt
  exact ⟨(Option.some.inj found).symm, by omega⟩

/-- The translation of a registered partition is exact when its last sector lies below 4 GiB, and otherwise in two cases
only: a partition of a single sector, and one from sector 0 on that just reaches over the limit. -/
theorem exactTranslation_iff {stSize : Nat} {partType : UInt8} {start size : BlockSector} {block : Block}
    (found : foundPartition (identifyAtaDevice stSize) partType start size = some block) :
    ExactTranslation block start ↔
      start.toNat + size.toNat ≤ 8388608 ∨ size.toNat ≤ 1 ∨ start.toNat = 0 ∧ size.toNat = 8388609 := by
  obtain ⟨rfl, fits⟩ := foundPartition_spec found
  have number : ∀ sector : BlockSector, sector.toNat < size.toNat - 1 →
      (start + sector + 1).toNat = start.toNat + sector.toNat + 1 := by
    intro sector small
    rw [UInt32.toNat_add, UInt32.toNat_add, show (1 : UInt32).toNat = 1 from rfl]
    omega
  have first : ∀ sector : BlockSector, Touches (.partition size start (.disk (UInt32.ofNat (stSize / 512)))) sector
      (512 * ((start + sector + 1).toNat % 8388608)) := fun sector =>
    touches_partition.mpr ⟨Nat.le_refl _, by omega⟩
  have made : ∀ value < 4294967296, (UInt32.ofNat value).toNat = value := fun value small => by
    rw [UInt32.toNat_ofNat', Nat.mod_eq_of_lt small]
  constructor
  · intro exact
    by_contra beyond
    -- the sector at the limit is found at the start of the disk
    obtain ⟨sector, sectorEq⟩ : ∃ sector : BlockSector, sector.toNat = max start.toNat 8388607 - start.toNat :=
      ⟨_, made _ (by omega)⟩
    have inside := (exact.confined sector (by change _ < size.toNat - 1; omega) _ (first sector)).1
    rw [number sector (by omega)] at inside
    by_cases zero : start.toNat = 0
    · -- the next sector is found where sector 0 of the partition is
      obtain ⟨next, nextEq⟩ : ∃ next : BlockSector, next.toNat = 8388608 := ⟨_, made _ (by omega)⟩
      have clash := exact.disjoint 0 next (by change 0 < size.toNat - 1; omega) (by change _ < size.toNat - 1; omega)
        (by rintro rfl; cases nextEq) _ (first 0)
      apply clash
      rw [touches_partition, number 0 (by change 0 < _; omega), number next (by omega), show (0 : UInt32).toNat = 0 from rfl]
      omega
    · omega
  · intro cases
    constructor
    · intro sector small position touched
      change sector.toNat < size.toNat - 1 at small
      rw [touches_partition, number sector small] at touched
      change _ ∧ position < 512 * (start.toNat + size.toNat)
      omega
    · intro one two oneSmall twoSmall different position inOne inTwo
      change one.toNat < size.toNat - 1 at oneSmall
      change two.toNat < size.toNat - 1 at twoSmall
      rw [touches_partition, number one oneSmall] at inOne
      rw [touches_partition, number two twoSmall] at inTwo
      exact different (UInt32.toNat_inj.mp (by omega))

theorem exactTranslation_small : ∃ block, foundPartition (identifyAtaDevice 153600) 0x83 1 299 = some block ∧
    (ExactTranslation block 1 ↔ 1 + 299 ≤ 8388608 ∨ 299 ≤ 1 ∨ (1 : Nat) = 0 ∧ 299 = 8388609) :=
  ⟨_, rfl, exactTranslation_iff (show foundPartition (identifyAtaDevice 153600) 0x83 1 299 = some _ from rfl)⟩

/-- On a disk of 8 GiB, sectors 0 and 8388608 of a partition that starts at sector 2048 are the same bytes. -/
theorem partition_sectors_alias : ∃ block, foundPartition (identifyAtaDevice 8589934592) 0x83 2048 8390000 = some block ∧
    ¬ ExactTranslation block 2048 := by
  refine ⟨.partition 8390000 2048 (identifyAtaDevice 8589934592), rfl, fun exact => ?_⟩
  have apart := exact.disjoint 0 8388608 (by decide) (by decide) (by decide) 1049088
  rw [identifyAtaDevice, touches_partition, touches_partition] at apart
  exact apart (by decide) (by decide)

end MockOS.Device
