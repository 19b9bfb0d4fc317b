import MockOS.Fs.Bitmap

namespace MockOS.Fs

/-- The 512 bytes of a `struct inode_disk`, as little-endian words. -/
def InodeDisk.toSector (disk : InodeDisk) : Sector := Sector.ofWords fun index =>
  if small : index.val < 123 then disk.directBlocks ⟨index.val, small⟩
  else if index.val = 123 then disk.indirectBlock
  else if index.val = 124 then disk.doublyIndirectBlock
  else if index.val = 125 then (if disk.isDir then 1 else 0)
  else if index.val = 126 then UInt32.ofNat (disk.length % 4294967296).toNat
  else disk.magic

def InodeDisk.ofSector (sector : Sector) : InodeDisk where
  directBlocks index := sector.words ⟨index.val, by omega⟩
  indirectBlock := sector.words 123
  doublyIndirectBlock := sector.words 124
  isDir := sector.words 125 % 256 != 0
  length := wrap32 (sector.words 126).toNat
  magic := sector.words 127

/-- The bytes of a sector give back the inode that was written to it. -/
theorem InodeDisk.ofSector_toSector {disk : InodeDisk} (low : -2147483648 ≤ disk.length)
    (high : disk.length < 2147483648) : InodeDisk.ofSector disk.toSector = disk := by
  have lengthBack : wrap32 (UInt32.ofNat (disk.length % 4294967296).toNat).toNat = disk.length := by
    rw [UInt32.toNat_ofNat', Nat.mod_eq_of_lt (by omega)]
    unfold wrap32
    omega
  obtain ⟨direct, indirect, doubly, isDir, length, magic⟩ := disk
  simp only [ofSector, toSector, Sector.words_ofWords, mk.injEq]
  refine ⟨?_, rfl, rfl, ?_, lengthBack, rfl⟩
  · funext index
    simp
  · cases isDir <;> rfl

/-- This is `bytes_to_sectors`. -/
def bytesToSectors (size : Int) : Nat := ((wrap32 (size + 511)).tdiv 512 % 18446744073709551616).toNat

theorem bytesToSectors_of_range {size : Int} (low : 0 ≤ size) (high : size ≤ 2147483136) :
    bytesToSectors size = ((size + 511) / 512).toNat := by
  rw [bytesToSectors, wrap32_of_range (by omega) (by omega), Int.tdiv_eq_ediv_of_nonneg (by omega)]
  omega

/-- `DIV_ROUND_UP` on sizes. -/
def divRoundUp (value step : Nat) : Nat := (value + step - 1) / step

/-- The result -1 of the lookups is converted to `block_sector_t`. -/
def noSector : BlockSector := 4294967295

theorem doubly_lt (index : Nat) : (index - 251) % 128 < 128 := Nat.mod_lt _ (by decide)

def indexToSector (disk : InodeDisk) (index : Nat) : Action BlockSector :=
  if direct : index < 123 then pure (disk.directBlocks ⟨index, direct⟩)
  else if indirect : index - 123 < 128 then do
    let block ← bufferCacheRead disk.indirectBlock
    pure (block.words ⟨index - 123, indirect⟩)
  else if doubly : (index - 251) / 128 < 128 then do
    let first ← bufferCacheRead disk.doublyIndirectBlock
    let second ← bufferCacheRead (first.words ⟨(index - 251) / 128, doubly⟩)
    pure (second.words ⟨(index - 251) % 128, doubly_lt index⟩)
  else pure noSector

def byteToSector (disk : InodeDisk) (pos : Int) : Action BlockSector :=
  if 0 ≤ pos ∧ pos < disk.length then indexToSector disk (pos / 512).toNat else pure noSector

/-- The chunk that a round of the read and write loops takes: the offset in its sector, the bytes left there and
the size. -/
def chunk (length size offset : Int) : Int × Int × Int :=
  let sectorOfs := offset.tmod 512
  let inodeLeft := wrap32 (length - offset)
  let sectorLeft := 512 - sectorOfs
  let minLeft := if inodeLeft < sectorLeft then inodeLeft else sectorLeft
  (sectorOfs, sectorLeft, if size < minLeft then size else minLeft)

/-- The loop of `inode_read_at`. Each round takes at least one byte, so `size` rounds are enough. -/
def readLoop (disk : InodeDisk) : Nat → Int → Int → Action (List UInt8)
  | 0, _, _ => pure []
  | rounds + 1, size, offset =>
      if size ≤ 0 then pure []
      else do
        -- the unsigned sector number is never below zero
        let sectorIdx ← byteToSector disk offset
        let (sectorOfs, _, chunkSize) := chunk disk.length size offset
        if chunkSize ≤ 0 then pure []
        else do
          let sector ← bufferCacheRead sectorIdx
          -- `memcpy` from an address before the bounce buffer
          if sectorOfs < 0 then undefined
          else do
            let rest ← readLoop disk rounds (size - chunkSize) (wrap32 (offset + chunkSize))
            pure (((List.ofFn sector).drop sectorOfs.toNat).take chunkSize.toNat ++ rest)

/-- `inode_read_at` returns the bytes that it stored in the buffer. -/
def inodeReadAt (inode : Pointer) (size offset : Int) : Action (List UInt8) := do
  readLoop (← getInode inode).data size.toNat size offset

/-- A round of the loop of `inode_write_at` stores a whole sector, or a part of one through the bounce buffer. -/
def writeChunk (sectorIdx : BlockSector) (sectorOfs sectorLeft chunkSize : Int) (source : Nat → UInt8) :
    Action Unit :=
  if sectorOfs = 0 ∧ chunkSize = 512 then bufferCacheWrite sectorIdx fun byte => source byte.val
  else do
    let bounce ← (if sectorOfs > 0 ∨ chunkSize < sectorLeft then bufferCacheRead sectorIdx else pure zeros)
    -- `memcpy` to an address before the bounce buffer
    if sectorOfs < 0 then undefined
    else bufferCacheWrite sectorIdx (bounce.splice sectorOfs.toNat source chunkSize.toNat)

/-- The loop of `inode_write_at`, which returns the number of bytes written. -/
def writeLoop (disk : InodeDisk) (buffer : Nat → UInt8) : Nat → Int → Int → Int → Action Int
  | 0, _, _, bytesWritten => pure bytesWritten
  | rounds + 1, size, offset, bytesWritten =>
      if size ≤ 0 then pure bytesWritten
      else do
        let sectorIdx ← byteToSector disk offset
        let (sectorOfs, sectorLeft, chunkSize) := chunk disk.length size offset
        if chunkSize ≤ 0 then pure bytesWritten
        else do
          writeChunk sectorIdx sectorOfs sectorLeft chunkSize fun index => buffer (bytesWritten.toNat + index)
          writeLoop disk buffer rounds (size - chunkSize) (wrap32 (offset + chunkSize)) (bytesWritten + chunkSize)

/-- An inode, a buffer, a size and an offset: the arguments of `inode_write_at`. -/
abbrev WriteAt := Pointer → (Nat → UInt8) → Int → Int → Action Int

def setFreeMap (bitmap : Option Bitmap) : Action Unit := do
  let bitmap ← deref bitmap
  modify fun mem => { mem with freeMap := bitmap }

/-- `bitmap_write` of the free map, through `file_write_at`. -/
def bitmapWrite (writeAt : WriteAt) : Action Bool := do
  let mem ← get
  let size : Int := Bitmap.byteCnt mem.freeMap.bitCnt
  let file ← getFile (← deref mem.freeMapFile)
  let written ← writeAt file.inode mem.freeMap.byte size 0
  pure (written == size)

def allocationFailed : Action (Option BlockSector) := do
  modify fun mem => { mem with allocationFailures := mem.allocationFailures + 1 }
  pure none

def freeMapAllocateBy (writeAt : WriteAt) (cnt : Nat) : Action (Option BlockSector) := do
  let mem ← get
  match mem.freeMap.bitmapScan 0 cnt false with
  | none => allocationFailed
  | some sector =>
      setFreeMap (mem.freeMap.bitmapSetMultiple sector cnt true)
      if mem.freeMapFile.isNone then pure (some (UInt32.ofNat sector))
      else do
        if ← bitmapWrite writeAt then pure (some (UInt32.ofNat sector))
        else do
          setFreeMap ((← get).freeMap.bitmapSetMultiple sector cnt false)
          allocationFailed

section Reserve

variable (allocate : Action (Option BlockSector))

/-- A missing data block is allocated and cleared. -/
def reserveBlock (entry : BlockSector) : Action (Bool × BlockSector) :=
  if entry = 0 then do
    match ← allocate with
    | none => pure (false, entry)
    | some sector =>
        bufferCacheWrite sector zeros
        pure (true, sector)
  else pure (true, entry)

/-- A missing index block is allocated and cleared; the result of this allocation is not checked. -/
def reserveIndexBlock (entry : BlockSector) : Action BlockSector :=
  if entry = 0 then do
    let entry := (← allocate).getD entry
    bufferCacheWrite entry zeros
    pure entry
  else pure entry

/-- The loops over an array of entries stop at the first that fails. -/
def reserveEntries {count : Nat} (reserve : BlockSector → Nat → Action (Bool × BlockSector)) (unit : Nat) :
    List (Fin count) → (Fin count → BlockSector) → Nat → Action (Bool × (Fin count → BlockSector))
  | [], entries, _ => pure (true, entries)
  | index :: rest, entries, numSectors => do
      let subsize := min numSectors unit
      let (success, entry) ← reserve (entries index) subsize
      let entries := Function.update entries index entry
      if success then reserveEntries reserve unit rest entries (numSectors - subsize) else pure (false, entries)

/-- The loop of `inode_reserve_indirect` over an index block, which is written back only after a success. -/
def reserveBelow (reserve : BlockSector → Nat → Action (Bool × BlockSector)) (unit : Nat) (entry : BlockSector)
    (numSectors : Nat) : Action (Bool × BlockSector) := do
  let block ← bufferCacheRead entry
  let l := divRoundUp numSectors unit
  let (success, blocks) ← reserveEntries reserve unit ((List.finRange 128).take l) block.words numSectors
  if success then do
    bufferCacheWrite entry (Sector.ofWords blocks)
    pure (true, entry)
  else pure (false, entry)

/-- The result holds the value that `*p_entry` has in the end. -/
def inodeReserveIndirect : Nat → BlockSector → Nat → Action (Bool × BlockSector)
  | 0, entry, _ => reserveBlock allocate entry
  | level + 1, entry, numSectors => do
      let entry ← reserveIndexBlock allocate entry
      let unit := if level + 1 = 1 then 1 else 128
      reserveBelow (inodeReserveIndirect level) unit entry numSectors

/-- The result holds the inode as the function leaves it, in memory. -/
def inodeReserve (disk : InodeDisk) (length : Int) : Action (Bool × InodeDisk) :=
  if length < 0 then pure (false, disk)
  else do
    let numSectors := bytesToSectors length
    -- (1) direct blocks
    let l := min numSectors 123
    let (success, direct) ← reserveEntries (fun entry _ => reserveBlock allocate entry) 1
      ((List.finRange 123).take l) disk.directBlocks l
    let disk := { disk with directBlocks := direct }
    let numSectors := numSectors - l
    if !success then pure (false, disk)
    else if numSectors = 0 then pure (true, disk)
    else do
      -- (2) a single indirect block
      let l := min numSectors 128
      let (success, indirect) ← inodeReserveIndirect allocate 1 disk.indirectBlock l
      let disk := { disk with indirectBlock := indirect }
      let numSectors := numSectors - l
      if !success then pure (false, disk)
      else if numSectors = 0 then pure (true, disk)
      else do
        -- (3) a single doubly indirect block
        let l := min numSectors (128 * 128)
        let (success, doubly) ← inodeReserveIndirect allocate 2 disk.doublyIndirectBlock l
        let disk := { disk with doublyIndirectBlock := doubly }
        let numSectors := numSectors - l
        if !success then pure (false, disk)
        else if numSectors = 0 then pure (true, disk)
        else pure (false, disk)

end Reserve

/-- `inode_write_at` extends a file through the free map, whose file is written by `inode_write_at` again. Past the
given depth of this recursion the model says nothing. -/
def inodeWriteAtWithin : Nat → WriteAt
  | 0, _, _, _, _ => undefined
  | depth + 1, pointer, buffer, size, offset => do
      let inode ← getInode pointer
      if inode.denyWriteCnt ≠ 0 then pure 0
      else do
        let last ← byteToSector inode.data (wrap32 (wrap32 (offset + size) - 1))
        if last = noSector then do
          -- beyond the EOF: extend the file
          let length := wrap32 (offset + size)
          let (success, data) ← inodeReserve (freeMapAllocateBy (inodeWriteAtWithin depth) 1) inode.data length
          if success then do
            let data := { data with length := length }
            setInode pointer { inode with data := data }
            bufferCacheWrite inode.sector data.toSector
            writeLoop data buffer size.toNat size offset 0
          else do
            setInode pointer { inode with data := data }
            pure 0
        else writeLoop inode.data buffer size.toNat size offset 0

/-- The free map file is never extended by its own writes, so the recursion stops after two calls. -/
def inodeWriteAt : WriteAt := inodeWriteAtWithin 2

def freeMapAllocate (cnt : Nat) : Action (Option BlockSector) := freeMapAllocateBy inodeWriteAt cnt

def freeMapRelease (sector : BlockSector) (cnt : Nat) : Action Unit := do
  setFreeMap ((← get).freeMap.bitmapSetMultiple sector.toNat cnt false)
  let _ ← bitmapWrite inodeWriteAt

def numFreeSectors : Action Nat := do pure (← get).freeMap.free

def inodeInit : Action Unit := modify fun mem => { mem with openInodes := [] }

def inodeMagic : UInt32 := 0x494e4f44

def inodeCreate (sector : BlockSector) (length : Int) (isDir : Bool) : Action Bool := do
  let disk : InodeDisk := ⟨fun _ => 0, 0, 0, isDir, length, inodeMagic⟩
  let (success, disk) ← inodeReserve (freeMapAllocate 1) disk disk.length
  if success then do
    bufferCacheWrite sector disk.toSector
    pure true
  else pure false

/-- The search of `inode_open` in the list of open inodes. -/
def findOpen (sector : BlockSector) : List Pointer → Action (Option Pointer)
  | [] => pure none
  | pointer :: rest => do
      if (← getInode pointer).sector = sector then pure (some pointer) else findOpen sector rest

def inodeReopen (inode : Pointer) : Action Pointer := pure inode

def inodeOpen (sector : BlockSector) : Action Pointer := do
  match ← findOpen sector (← get).openInodes with
  | some inode => inodeReopen inode
  | none => do
      let inode ← malloc
      modify fun mem => { mem with openInodes := inode :: mem.openInodes }
      let block ← bufferCacheRead sector
      setInode inode ⟨sector, 1, false, 0, .ofSector block⟩
      pure inode

def deallocateEntries {count : Nat} (deallocate : BlockSector → Nat → Action Unit) (unit : Nat) :
    List (Fin count) → (Fin count → BlockSector) → Nat → Action Unit
  | [], _, _ => pure ()
  | index :: rest, entries, numSectors => do
      let subsize := min numSectors unit
      deallocate (entries index) subsize
      deallocateEntries deallocate unit rest entries (numSectors - subsize)

def inodeDeallocateIndirect : Nat → BlockSector → Nat → Action Unit
  | 0, entry, _ => freeMapRelease entry 1
  | level + 1, entry, numSectors => do
      let block ← bufferCacheRead entry
      let unit := if level + 1 = 1 then 1 else 128
      let l := divRoundUp numSectors unit
      deallocateEntries (inodeDeallocateIndirect level) unit ((List.finRange 128).take l) block.words numSectors
      freeMapRelease entry 1

/-- A part of the tree without data blocks is skipped. -/
def deallocatePart (level : Nat) (entry : BlockSector) (l : Nat) : Action Unit :=
  if l > 0 then inodeDeallocateIndirect level entry l else pure ()

def inodeDeallocate (disk : InodeDisk) : Action Bool :=
  if disk.length < 0 then pure false
  else do
    let numSectors := bytesToSectors disk.length
    let l := min numSectors 123
    deallocateEntries (fun entry _ => freeMapRelease entry 1) 1 ((List.finRange 123).take l) disk.directBlocks l
    let numSectors := numSectors - l
    let l := min numSectors 128
    deallocatePart 1 disk.indirectBlock l
    let numSectors := numSectors - l
    let l := min numSectors (128 * 128)
    deallocatePart 2 disk.doublyIndirectBlock l
    pure true

def freeInode (pointer : Pointer) : Action Unit :=
  modify fun mem => { mem with inodes := Function.update mem.inodes pointer none }

/-- The blocks of a removed inode are released with its last reference. -/
def releaseRemoved (inode : Inode) : Action Unit :=
  if inode.removed then do
    freeMapRelease inode.sector 1
    let _ ← inodeDeallocate inode.data
  else pure ()

/-- A null pointer is ignored. -/
def inodeClose : Option Pointer → Action Unit
  | none => pure ()
  | some pointer => do
      let inode ← getInode pointer
      let inode := { inode with openCnt := inode.openCnt - 1 }
      setInode pointer inode
      if inode.openCnt = 0 then do
        modify fun mem => { mem with openInodes := mem.openInodes.erase pointer }
        releaseRemoved inode
        freeInode pointer

def inodeRemove (pointer : Pointer) : Action Unit := do
  setInode pointer { (← getInode pointer) with removed := true }

def inodeAllowWrite (pointer : Pointer) : Action Unit := do
  let inode ← getInode pointer
  setInode pointer { inode with denyWriteCnt := inode.denyWriteCnt - 1 }

def inodeLength (pointer : Pointer) : Action Int := do pure (← getInode pointer).data.length

def inodeIsDirectory (pointer : Pointer) : Action Bool := do pure (← getInode pointer).data.isDir

def inodeIsRemoved (pointer : Pointer) : Action Bool := do pure (← getInode pointer).removed

end MockOS.Fs
