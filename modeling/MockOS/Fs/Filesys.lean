import MockOS.Fs.Directory

namespace MockOS.Fs

def doFormat : Action Unit := do
  freeMapCreate
  let created ← dirCreate 1 1000
  if created then pure () else panic
  freeMapClose

/-- `buffer_cache_init` empties the cache before the first request. -/
def filesysInit (format : Bool) : Action Unit := do
  inodeInit
  freeMapInit
  if format then doFormat else pure ()
  freeMapOpen
  initFileTable

def filesysDone : Action Unit := do
  freeMapClose
  bufferCacheClose
  freeFileTable

/-- The steps of `filesys_create` in the root directory: the sector taken for the inode and the success. -/
def createIn (dir : Pointer) (fileName : CString) (initialSize : Int) (isDir : Bool) :
    Action (Option BlockSector × Bool) := do
  match ← freeMapAllocate 1 with
  | none => pure (none, false)
  | some inodeSector => do
      if ← inodeCreate inodeSector initialSize isDir then do
        let success ← dirAdd dir fileName inodeSector isDir
        pure (some inodeSector, success)
      else pure (some inodeSector, false)

/-- The arrays `directory` and `file_name` have `strlen(path)` bytes, one too few for a path without a slash; the names
are taken to be stored all the same, as in the arrays of `filesys_open`. -/
def filesysCreate (path : CString) (initialSize : Int) (isDir : Bool) : Action Bool := do
  let (_, fileName) := splitPathFilename path
  let dir ← deref (← dirOpenRoot)
  let (inodeSector, success) ← createIn dir fileName initialSize isDir
  match inodeSector with
  | some sector => if success = false ∧ sector ≠ 0 then freeMapRelease sector 1 else pure ()
  | none => pure ()
  dirClose (some dir)
  pure success

/-- A removed file is not opened. -/
def openInode (inode : Option Pointer) : Action (Option Pointer) := do
  match inode with
  | none => pure none
  | some inode => if ← inodeIsRemoved inode then pure none else fileOpen (some inode)

def filesysOpen (name : CString) : Action (Option Pointer) := do
  if name = [] then pure none
  else do
    let (_, fileName) := splitPathFilename name
    let dir ← deref (← dirOpenRoot)
    if fileName = [] then do
      -- empty filename: just return the directory
      openInode (some (← dirGetInode dir))
    else do
      let inode ← dirLookup dir fileName
      dirClose (some dir)
      openInode inode

/-- The arrays are one byte short here too. -/
def filesysRemove (name : CString) : Action Bool := do
  let (directory, fileName) := splitPathFilename name
  match ← dirOpenPath directory with
  | none => pure false
  | some dir => do
      let success ← dirRemove dir fileName
      dirClose (some dir)
      pure success

end MockOS.Fs
