import Mathlib.Algebra.GroupWithZero.Nat
import Mathlib.Logic.Function.Basic
import Mathlib.Tactic.Common
import Mathlib.Data.Fintype.Pi

namespace MockOS.Fs

/-- A sector is `BLOCK_SECTOR_SIZE` bytes. -/
abbrev Sector := Fin 512 → UInt8

@[instance] theorem sectorBytes : NeZero 512 := ⟨by decide⟩

/-- This is `block_sector_t`. -/
abbrev BlockSector := UInt32

/-- A sector of zero bytes. -/
def zeros : Sector := fun _ => 0

/-- An index block reads its sector as 128 little-endian sector numbers. -/
def Sector.words (sector : Sector) (index : Fin 128) : UInt32 :=
  UInt32.ofNat ((sector ⟨4 * index.val, by omega⟩).toNat +
    256 * (sector ⟨4 * index.val + 1, by omega⟩).toNat +
    65536 * (sector ⟨4 * index.val + 2, by omega⟩).toNat +
    16777216 * (sector ⟨4 * index.val + 3, by omega⟩).toNat)

/-- The bytes of 128 little-endian words. -/
def Sector.ofWords (words : Fin 128 → UInt32) : Sector := fun byte =>
  UInt8.ofNat ((words ⟨byte.val / 4, by omega⟩).toNat / 256 ^ (byte.val % 4))

theorem Sector.ofWords_byte (words : Fin 128 → UInt32) (index : Fin 128) (lane : Nat) (small : lane < 4) :
    (Sector.ofWords words ⟨4 * index.val + lane, by omega⟩).toNat =
      (words index).toNat / 256 ^ lane % 256 := by
  have quotient : (⟨(4 * index.val + lane) / 4, by omega⟩ : Fin 128) = index := by
    apply Fin.ext
    dsimp only
    omega
  have remainder : (4 * index.val + lane) % 4 = lane := by omega
  simp only [ofWords, quotient, remainder, UInt8.toNat_ofNat']

/-- Storing an index block and reading it back gives the same words. -/
@[simp] theorem Sector.words_ofWords (words : Fin 128 → UInt32) :
    (Sector.ofWords words).words = words := by
  funext index
  have first := ofWords_byte words index 0 (by omega)
  have second := ofWords_byte words index 1 (by omega)
  have third := ofWords_byte words index 2 (by omega)
  have fourth := ofWords_byte words index 3 (by omega)
  have bound := (words index).toNat_lt
  apply UInt32.toNat_inj.mp
  simp only [Nat.add_zero] at first
  simp only [Sector.words, first, second, third, fourth, UInt32.toNat_ofNat']
  omega

/-- A zero sector is an index block without entries. -/
@[simp] theorem Sector.words_zeros (index : Fin 128) : Sector.words zeros index = 0 := by
  simp [Sector.words, zeros]

/-- Copying `bytes` over a sector from byte `start` on leaves the other bytes. -/
def Sector.splice (sector : Sector) (start : Nat) (bytes : Nat → UInt8) (count : Nat) : Sector := fun byte =>
  if start ≤ byte.val ∧ byte.val < start + count then bytes (byte.val - start) else sector byte

end MockOS.Fs
