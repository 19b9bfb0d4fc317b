import MockOS.Fs.FreeMap

namespace MockOS.Fs

/-- This is `struct dir_entry`. -/
structure DirEntry where
  inodeSector : BlockSector
  name : List UInt8
  inUse : Bool
  deriving DecidableEq

/-- The 36 bytes of an entry. -/
def DirEntry.toBytes (entry : DirEntry) : List UInt8 :=
  (List.range 4).map (fun lane => UInt8.ofNat (entry.inodeSector.toNat / 256 ^ lane)) ++ entry.name ++
    [if entry.inUse then 1 else 0]

def DirEntry.ofBytes (bytes : List UInt8) : DirEntry where
  inodeSector := UInt32.ofNat ((bytes.getD 0 0).toNat + 256 * (bytes.getD 1 0).toNat +
    65536 * (bytes.getD 2 0).toNat + 16777216 * (bytes.getD 3 0).toNat)
  name := (bytes.drop 4).take 31
  inUse := bytes.getD 35 0 != 0

/-- The name as a C string. -/
def DirEntry.fname (entry : DirEntry) : CString := strdup entry.name

def newDir (dir : Dir) : Action Pointer := do
  let pointer ← malloc
  setDir pointer dir
  pure pointer

/-- The first entry is for the parent directory. -/
def dirOpen : Option Pointer → Action (Option Pointer)
  | some inode => do
      let pointer ← newDir ⟨inode, 36, 1⟩
      pure (some pointer)
  | none => do
      inodeClose none
      pure none

def setCwd (dir : Option Pointer) : Action Unit := modify fun mem => { mem with cwd := dir }

def dirOpenRoot : Action (Option Pointer) := do
  match (← get).cwd with
  | none => do
      let dir ← dirOpen (some (← inodeOpen 1))
      setCwd dir
      pure dir
  | some cwd => do
      let dir ← getDir cwd
      setDir cwd { dir with openCnt := dir.openCnt + 1 }
      pure (some cwd)

def dirReopen (pointer : Pointer) : Action (Option Pointer) := do
  dirOpen (some (← inodeReopen (← getDir pointer).inode))

def freeDir (pointer : Pointer) : Action Unit :=
  modify fun mem => { mem with dirs := Function.update mem.dirs pointer none }

/-- The last reference to any directory resets the current directory. -/
def dirClose : Option Pointer → Action Unit
  | none => pure ()
  | some pointer => do
      let dir ← getDir pointer
      let dir := { dir with openCnt := dir.openCnt - 1 }
      setDir pointer dir
      if dir.openCnt = 0 then do
        inodeClose (some dir.inode)
        freeDir pointer
        setCwd none
      else pure ()

def dirGetInode (pointer : Pointer) : Action Pointer := do pure (← getDir pointer).inode

/-- A read of an entry succeeds when it returns all bytes. -/
def readEntry (inode : Pointer) (ofs : Int) : Action (Option DirEntry) := do
  let bytes ← inodeReadAt inode 36 ofs
  pure (if bytes.length = 36 then some (.ofBytes bytes) else none)

/-- A write of an entry succeeds when it stores all bytes. -/
def writeEntry (inode : Pointer) (entry : DirEntry) (ofs : Int) : Action Bool := do
  let written ← inodeWriteAt inode (fun index => entry.toBytes.getD index 0) 36 ofs
  pure (written == 36)

/-- A loop over the entries of a directory reads one more than it has. -/
def entryRounds (inode : Pointer) : Action Nat := do pure ((← inodeLength inode).toNat / 36 + 1)

/-- The loops over the entries stop at the first that is wanted; `none` stands for the end of the directory. -/
def scanEntries (inode : Pointer) (wanted : DirEntry → Bool) : Nat → Int → Action (Option DirEntry × Int)
  | 0, _ => undefined
  | rounds + 1, ofs => do
      match ← readEntry inode ofs with
      | none => pure (none, ofs)
      | some entry => if wanted entry then pure (some entry, ofs) else scanEntries inode wanted rounds (ofs + 36)

/-- The entry with the name and its offset. -/
def lookup (dir : Pointer) (name : CString) : Action (Option (DirEntry × Int)) := do
  let inode ← dirGetInode dir
  let (found, ofs) ← scanEntries inode (fun entry => entry.inUse && entry.fname == name) (← entryRounds inode) 36
  pure (found.map fun entry => (entry, ofs))

def dirIsEmpty (dir : Pointer) : Action Bool := do
  let inode ← dirGetInode dir
  let (found, _) ← scanEntries inode (fun entry => entry.inUse) (← entryRounds inode) 36
  pure found.isNone

def dirLookup (dir : Pointer) (name : CString) : Action (Option Pointer) := do
  let inode ← dirGetInode dir
  if name = [46] then do
    -- current directory
    pure (some (← inodeReopen inode))
  else if name = [46, 46] then do
    -- parent directory
    let entry ← deref (← readEntry inode 0)
    pure (some (← inodeOpen entry.inodeSector))
  else do
    match ← lookup dir name with
    | some (entry, _) => pure (some (← inodeOpen entry.inodeSector))
    | none => pure none

/-- The child gets an entry for its parent, whose name is never set. -/
def linkParent (dir : Pointer) (inodeSector : BlockSector) : Action Bool := do
  let childDir ← deref (← dirOpen (some (← inodeOpen inodeSector)))
  let parent ← getInode (← dirGetInode dir)
  let name := (List.range 31).map (← get).garbage
  let success ← writeEntry (← dirGetInode childDir) ⟨parent.sector, name, true⟩ 0
  dirClose (some childDir)
  pure success

def dirAdd (dir : Pointer) (name : CString) (inodeSector : BlockSector) (isDir : Bool) : Action Bool :=
  if name = [] ∨ name.length > 30 then pure false
  else do
    if (← lookup dir name).isSome then pure false
    else do
      let linked ← (if isDir then linkParent dir inodeSector else pure true)
      if !linked then pure false
      else do
        let inode ← dirGetInode dir
        let (_, ofs) ← scanEntries inode (fun entry => !entry.inUse) (← entryRounds inode) 0
        writeEntry inode ⟨inodeSector, strncpy name 31, true⟩ ofs

/-- Only an empty directory can be removed. -/
def removable (inode : Pointer) : Action Bool := do
  if ← inodeIsDirectory inode then do
    let target ← deref (← dirOpen (some inode))
    let isEmpty ← dirIsEmpty target
    dirClose (some target)
    pure isEmpty
  else pure true

def dirRemove (dir : Pointer) (name : CString) : Action Bool := do
  match ← lookup dir name with
  | none => do
      inodeClose none
      pure false
  | some (entry, ofs) => do
      let inode ← inodeOpen entry.inodeSector
      if ← removable inode then do
        -- erase the directory entry
        if ← writeEntry (← dirGetInode dir) { entry with inUse := false } ofs then do
          inodeRemove inode
          inodeClose (some inode)
          pure true
        else do
          inodeClose (some inode)
          pure false
      else do
        inodeClose (some inode)
        pure false

/-- The rounds of `dir_readdir` advance the position of the directory. -/
def readdirLoop (pointer : Pointer) : Nat → Action (Option CString)
  | 0 => undefined
  | rounds + 1 => do
      let dir ← getDir pointer
      match ← readEntry dir.inode dir.pos with
      | none => pure none
      | some entry => do
          setDir pointer { dir with pos := wrap32 (dir.pos + 36) }
          if entry.inUse then pure (some entry.fname) else readdirLoop pointer rounds

def dirReaddir (pointer : Pointer) : Action (Option CString) := do
  readdirLoop pointer (← entryRounds (← dirGetInode pointer))

def dirCreate (sector : BlockSector) (entryCnt : Nat) : Action Bool := do
  if ← inodeCreate sector (entryCnt * 36) true then do
    let dir ← deref (← dirOpen (some (← inodeOpen sector)))
    let success ← writeEntry (← dirGetInode dir) ⟨sector, List.replicate 31 0, true⟩ 0
    dirClose (some dir)
    pure success
  else pure false

/-- The tokens that `strtok_r` finds between slashes. -/
def pathTokens (path : CString) : List CString := (path.splitOn 47).filter (· ≠ [])

/-- The directory and the file name. With its NUL the file name of a path without a slash is one byte longer than the
path, as is the directory of the path `/`; `filesys_create` and `filesys_remove` have arrays of the path's length. -/
def splitPathFilename (path : CString) : CString × CString :=
  ((if path.head? = some 47 then [47] else []) ++ (pathTokens path).dropLast.flatMap (· ++ [47]),
    ((pathTokens path).getLast?).getD [])

/-- The loop of `dir_open_path` over the tokens. -/
def walkPath : List CString → Pointer → Action (Option Pointer)
  | [], curr => pure (some curr)
  | token :: rest, curr => do
      match ← dirLookup curr token with
      | none => do
          dirClose (some curr)
          pure none
      | some inode => do
          match ← dirOpen (some inode) with
          | none => do
              dirClose (some curr)
              pure none
          | some next => do
              dirClose (some curr)
              walkPath rest next

/-- A relative path starts at the current directory. -/
def startDir (path : CString) : Action (Option Pointer) := do
  if path.head? = some 47 then dirOpenRoot
  else do
    match (← get).cwd with
    | none => dirOpenRoot
    | some cwd => dirReopen cwd

def dirOpenPath (path : CString) : Action (Option Pointer) := do
  let curr ← deref (← startDir path)
  match ← walkPath (pathTokens path) curr with
  | none => pure none
  | some curr => do
      if ← inodeIsRemoved (← dirGetInode curr) then do
        dirClose (some curr)
        pure none
      else pure (some curr)

end MockOS.Fs
