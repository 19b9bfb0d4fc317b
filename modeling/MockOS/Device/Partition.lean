import MockOS.Fs.Sector

namespace MockOS.Device

open Fs (Sector BlockSector)

/-- The file on the host that holds the disk. -/
abbrev DiskFile := Nat → UInt8

/-- The position that `ide_read` and `ide_write` seek; the product is computed in 32 bits. -/
def seekPosition (secNo : BlockSector) : Nat := (secNo * 512).toNat

def ideRead (secNo : BlockSector) (file : DiskFile) : Sector := fun byte => file (seekPosition secNo + byte.val)

def ideWrite (secNo : BlockSector) (buffer : Sector) (file : DiskFile) : DiskFile := fun position =>
  if inside : seekPosition secNo ≤ position ∧ position < seekPosition secNo + 512 then
    buffer ⟨position - seekPosition secNo, by omega⟩
  else file position

/-- A block device is the disk or a partition of another device. -/
inductive Block where
  | disk (size : BlockSector)
  | partition (size start : BlockSector) (block : Block)

def blockSize : Block → BlockSector
  | .disk size => size
  | .partition size _ _ => size

/-- The disk of a file with `stSize` bytes, as `identify_ata_device` registers it. -/
def identifyAtaDevice (stSize : Nat) : Block := .disk (UInt32.ofNat (stSize / 512))

/-- A sector past the end of the device is reported and then read all the same. -/
def blockRead : Block → BlockSector → DiskFile → Sector
  | .disk _, sector, file => ideRead sector file
  | .partition _ start block, sector, file => blockRead block (start + sector + 1) file

def blockWrite : Block → BlockSector → Sector → DiskFile → DiskFile
  | .disk _, sector, buffer, file => ideWrite sector buffer file
  | .partition _ start block, sector, buffer, file => blockWrite block (start + sector + 1) buffer file

/-- A little-endian number in a sector. -/
def littleEndian (sector : Sector) (offset : Fin 509) : UInt32 :=
  UInt32.ofNat ((sector ⟨offset.val, by omega⟩).toNat + 256 * (sector ⟨offset.val + 1, by omega⟩).toNat +
    65536 * (sector ⟨offset.val + 2, by omega⟩).toNat + 16777216 * (sector ⟨offset.val + 3, by omega⟩).toNat)

structure PartitionTableEntry where
  type : UInt8
  offset : UInt32
  size : UInt32

/-- The entries lie behind the 446 bytes of the loader. -/
def partitions (pt : Sector) (i : Fin 4) : PartitionTableEntry :=
  ⟨pt ⟨446 + 16 * i.val + 4, by omega⟩, littleEndian pt ⟨446 + 16 * i.val + 8, by omega⟩,
    littleEndian pt ⟨446 + 16 * i.val + 12, by omega⟩⟩

/-- The signature is 0xaa55. -/
def signatureValid (pt : Sector) : Bool := pt 510 = 0x55 && pt 511 = 0xaa

namespace PartitionTableEntry

def isEmpty (e : PartitionTableEntry) : Bool := e.size = 0 || e.type = 0

def isExtended (e : PartitionTableEntry) : Bool := e.type = 0x05 || e.type = 0x0f || e.type = 0x85 || e.type = 0xc5

end PartitionTableEntry

/-- A partition that lies on the device is registered. -/
def foundPartition (block : Block) (_partType : UInt8) (start size : BlockSector) : Option Block :=
  if blockSize block ≤ start then none
  else if start + size < start || blockSize block < start + size then none
  else some (.partition size start block)

/-- The arguments of a call of `found_partition`. -/
structure Found where
  partType : UInt8
  start : BlockSector
  size : BlockSector
  deriving DecidableEq

/-- The calls of `found_partition` so far, and the device that the last one registered. -/
structure Scan where
  calls : List Found
  hardDrive : Block

/-- One entry of the table in a sector. The offset of an extended partition is absolute in sector 0, and counts from the
primary extended partition in every other table. -/
def readEntry (block : Block) (nested : BlockSector → BlockSector → Scan → Option Scan)
    (sector primaryExtendedSector : BlockSector) (e : PartitionTableEntry) (scan : Scan) : Option Scan :=
  if e.isEmpty then some scan
  else if e.isExtended then
    if sector = 0 then nested e.offset e.offset scan
    else nested (e.offset + primaryExtendedSector) primaryExtendedSector scan
  else some ⟨scan.calls ++ [⟨e.type, e.offset + sector, e.size⟩],
    (foundPartition block e.type (e.offset + sector) e.size).getD scan.hardDrive⟩

/-- The table is read from sector 0 whatever `sector` is; `none` says that the nested calls went on after so many. -/
def readPartitionTable (block : Block) (file : DiskFile) : Nat → BlockSector → BlockSector → Scan → Option Scan
  | 0, _, _, _ => none
  | fuel + 1, sector, primaryExtendedSector, scan =>
      if blockSize block ≤ sector then some scan
      else
        let pt := blockRead block 0 file
        if !signatureValid pt then some scan
        else (List.finRange 4).foldlM (fun scan i => readEntry block (readPartitionTable block file fuel) sector
          primaryExtendedSector (partitions pt i) scan) scan

def partitionScan (block : Block) (file : DiskFile) (fuel : Nat) : Option Scan :=
  readPartitionTable block file fuel 0 0 ⟨[], block⟩

end MockOS.Device
