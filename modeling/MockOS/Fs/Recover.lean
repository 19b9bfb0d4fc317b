import MockOS.Fs.HostFiles

namespace MockOS.Fs

/-- The entries of an index block, for the first data blocks. -/
def blockSectors (entry : BlockSector) (l : Nat) : Action (List BlockSector) := do
  let indirectBlock ← bufferCacheRead entry
  pure (((List.finRange 128).take l).map indirectBlock.words)

/-- The loop of `get_inode_data_sectors` over the doubly indirect block. -/
def doublySectors : List BlockSector → Nat → Action (List BlockSector)
  | [], _ => pure []
  | entry :: rest, numSectors => do
      let subsize := min numSectors 128
      let sectors ← blockSectors entry subsize
      pure (sectors ++ (← doublySectors rest (numSectors - subsize)))

def getInodeDataSectors (inode : Pointer) : Action (List BlockSector) := do
  let disk := (← getInode inode).data
  if disk.length < 0 then pure []
  else do
    let numSectors := bytesToSectors disk.length
    -- (1) direct blocks
    let l := min numSectors 123
    let direct := ((List.finRange 123).take l).map disk.directBlocks
    let numSectors := numSectors - l
    -- (2) a single indirect block
    let l := min numSectors 128
    let indirect ← (if l > 0 then blockSectors disk.indirectBlock l else pure [])
    let numSectors := numSectors - l
    -- (3) a single doubly indirect block
    let l := min numSectors (128 * 128)
    let doubly ← (if l > 0 then do
        let entries ← blockSectors disk.doublyIndirectBlock (divRoundUp l 128)
        doublySectors entries l
      else pure [])
    pure (direct ++ indirect ++ doubly)

/-- The distance of two sectors is taken in unsigned arithmetic. -/
def isFragmented : List BlockSector → Bool
  | first :: second :: rest => decide (second - first > 3) || isFragmented (second :: rest)
  | _ => false

/-- A loop of `fsutil2.c` that opens each file of the root directory, uses it and closes it. -/
def visitFiles {A : Type} (dir : Pointer) (use : CString → Pointer → Action A) : Nat → Action (List A)
  | 0 => undefined
  | rounds + 1 => do
      match ← dirReaddir dir with
      | none => pure []
      | some name => do
          let f ← filesysOpen name
          let found ← (match f with
            | some file => do pure [← use name file]
            | none => pure [])
          fileClose f
          pure (found ++ (← visitFiles dir use rounds))

/-- `strstr` reads up to the null character, which the buffer may lack. -/
def strstr (buffer : List UInt8) (pattern : CString) : Action Bool :=
  if 0 ∈ buffer then pure (decide (pattern <:+: strdup buffer)) else undefined

/-- The name is printed when the contents of its file have the pattern; the buffer is not initialised before it is
read into. -/
def searchFile (pattern : CString) (name : CString) (file : Pointer) : Action (Option CString) := do
  let fSize ← fileLength file
  if fSize > 0 then do
    let (_, bytes) ← fsutilRead name fSize
    let garbage := (← get).garbage
    let buffer := (List.range (fSize.toNat + 1)).map fun index => bytes.getD index (garbage index)
    if ← strstr buffer pattern then pure (some name) else pure none
  else pure none

/-- The names that `find_file` prints. -/
def findFile (pattern : CString) : Action (List CString) := do
  let dir ← deref (← dirOpenRoot)
  let found ← visitFiles dir (searchFile pattern) (← entryRounds (← dirGetInode dir))
  dirClose (some dir)
  pure (found.filterMap id)

/-- Whether the file can be fragmented, and whether it is. -/
def measureFile (_ : CString) (file : Pointer) : Action (Bool × Bool) := do
  let fSize ← fileLength file
  if fSize > 512 then do
    let sectors ← getInodeDataSectors (← getFile file).inode
    pure (true, isFragmented sectors)
  else pure (false, false)

/-- The two counts that `fragmentation_degree` divides. -/
def fragmentationDegree : Action (Nat × Nat) := do
  let dir ← deref (← dirOpenRoot)
  let measured ← visitFiles dir measureFile (← entryRounds (← dirGetInode dir))
  dirClose (some dir)
  pure (measured.countP (·.2), measured.countP (·.1))

/-- A decimal number, as `snprintf` writes it. -/
def decimal (number : Nat) : CString := .ofChars (Nat.toDigits 10 number)

/-- The name `recovered0-` with the number of the sector, cut to the size of the buffer. -/
def recoveredName (bit : Nat) : CString :=
  ([114, 101, 99, 111, 118, 101, 114, 101, 100, 48, 45] ++ decimal bit).take 30

/-- A deleted inode gets an entry of the root directory again. -/
def recoverInode (bit : Nat) : Action Unit := do
  let dir ← deref (← dirOpenRoot)
  setFreeMap ((← get).freeMap.bitmapSet bit true)
  let _ ← dirAdd dir (recoveredName bit) (UInt32.ofNat bit) false
  dirClose (some dir)

/-- A free sector is looked at, and recovered when it holds an inode. -/
def recoverBit (bit : Nat) : Action Unit := do
  if (← get).freeMap.bits bit then pure ()
  else do
    let inodeBuff ← bufferCacheRead (UInt32.ofNat bit)
    if (InodeDisk.ofSector inodeBuff).magic = inodeMagic then recoverInode bit else pure ()

/-- `recover` with the flag 0 goes through the bits of the free map. -/
def recover : List Nat → Action Unit
  | [] => pure ()
  | bit :: rest => do
      recoverBit bit
      recover rest

/-- The loop reads the number of bits once. -/
def recoverDeleted : Action Unit := do recover (List.range (← get).freeMap.bitCnt)

/-- The name `recovered1-` with the number of the sector and `.txt`, cut to the size of the buffer. -/
def sectorFileName (sector : Nat) : CString :=
  ([114, 101, 99, 111, 118, 101, 114, 101, 100, 49, 45] ++ decimal sector ++ [46, 116, 120, 116]).take 30

/-- A file of the host is written when it can be created. -/
def Host.write (host : Host) (name : CString) (bytes : List UInt8) : Host :=
  if host.creates name then host.store name bytes else host

@[irreducible] def Sector.bytes (sector : Sector) : List UInt8 := List.ofFn sector

/-- A sector that is not empty goes to a file of the host, with as many bytes as are not zero. -/
def recoverSector (host : Host) (sector : Nat) : Action Host := do
  let buffer ← bufferCacheRead (UInt32.ofNat sector)
  let size := buffer.bytes.countP (· ≠ 0)
  if buffer.bytes.any (· ≠ 0) then pure (host.write (sectorFileName sector) (buffer.bytes.take size))
  else pure host

/-- The loop of `recover` with the flag 1 ends at the number of free sectors. -/
def recoverSectorsFrom : Nat → Nat → Host → Action Host
  | 0, _, _ => undefined
  | rounds + 1, sector, host => do
      if sector < (← numFreeSectors) then do
        let host ← recoverSector host sector
        recoverSectorsFrom rounds (sector + 1) host
      else pure host

/-- The loop starts at sector 4, and its bound does not change. -/
def recoverSectors (host : Host) : Action Host := do
  recoverSectorsFrom ((← numFreeSectors) + 1) 4 host

/-- The name `recovered2-` with the name of the file and `.txt`. -/
def tailFileName (name : CString) : CString :=
  [114, 101, 99, 111, 118, 101, 114, 101, 100, 50, 45] ++ name ++ [46, 116, 120, 116]

/-- The hidden data behind the end of a file goes to a file of the host; `fwrite` starts one byte behind the end of the
file and may run past the buffer. -/
def writeTail (host : Host) (name : CString) (start : Nat) (buffer : Sector) : Action (Option (CString × List UInt8)) :=
  let hidden := (buffer.bytes.drop start).any (· ≠ 0)
  let size := (buffer.bytes.drop start).countP (· ≠ 0)
  if hidden = true ∧ host.creates (tailFileName name) = true then
    if start + 1 + size ≤ 512 then pure (some (tailFileName name, (buffer.bytes.drop (start + 1)).take size))
    else undefined
  else pure none

/-- The hidden data is in the last sector; an array without elements has none. -/
def lastTail (host : Host) (name : CString) (length : Int) (sectors : List BlockSector) :
    Action (Option (CString × List UInt8)) := do
  let nbrSectors := bytesToSectors length
  let lastSector ← deref (if nbrSectors = 0 then none else sectors[nbrSectors - 1]?)
  let buffer ← bufferCacheRead lastSector
  writeTail host name (length - (nbrSectors - 1 : Nat) * 512).toNat buffer

/-- The file of the host that `recover` writes for a file; there is no array for a negative length. -/
def recoverTail (host : Host) (name : CString) (file : Pointer) : Action (Option (CString × List UInt8)) := do
  let inode := (← getFile file).inode
  let length := (← getInode inode).data.length
  let sectors ← getInodeDataSectors inode
  if length < 0 then pure none else lastTail host name length sectors

/-- `recover` with the flag 2. -/
def recoverTails (host : Host) : Action Host := do
  let dir ← deref (← dirOpenRoot)
  let written ← visitFiles dir (recoverTail host) (← entryRounds (← dirGetInode dir))
  dirClose (some dir)
  pure ((written.filterMap id).foldl (fun host file => host.store file.1 file.2) host)

end MockOS.Fs
