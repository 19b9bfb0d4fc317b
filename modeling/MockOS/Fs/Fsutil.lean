import MockOS.Fs.Filesys

namespace MockOS.Fs

/-- The loop of `fsutil_ls` over the names. -/
def readNames (dir : Pointer) : Nat → Action (List CString)
  | 0 => undefined
  | rounds + 1 => do
      match ← dirReaddir dir with
      | none => pure []
      | some name => do pure (name :: (← readNames dir rounds))

/-- The names that `fsutil_ls` prints. -/
def fsutilLs : Action (List CString) := do
  let dir ← deref (← dirOpenRoot)
  let names ← readNames dir (← entryRounds (← dirGetInode dir))
  dirClose (some dir)
  pure names

/-- The file of a command: from the file table, or opened and added to it. -/
def commandFile (fileName : CString) : Action (Option Pointer) := do
  match ← getFileByFname fileName with
  | some file => pure (some file)
  | none => do
      match ← filesysOpen fileName with
      | none => pure none
      | some file => do
          addToFileTable file fileName
          pure (some file)

/-- The reads of `fsutil_cat` go on until one returns no byte. -/
def catLoop (file : Pointer) (fileSize : Int) : Nat → Action Unit
  | 0 => undefined
  | rounds + 1 => do
      let bytes ← fileRead file fileSize
      if bytes = [] then pure () else catLoop file fileSize rounds

def fsutilCat (fileName : CString) : Action Int := do
  let opened := (← getFileByFname fileName).isNone
  match ← commandFile fileName with
  | none => pure (-1)
  | some file => do
      let curOffset := (← getFile file).pos
      fileSeek file 0
      let fileSize ← fileLength file
      catLoop file fileSize (fileSize.toNat + 1)
      fileSeek file curOffset
      if opened then do
        let _ ← removeFromFileTable fileName
        pure 0
      else pure 0

def fsutilRm (fileName : CString) : Action Int := do
  let _ ← removeFromFileTable fileName
  let removed ← filesysRemove fileName
  pure (if removed then 1 else 0)

/-- The size is passed on as a signed number. -/
def fsutilCreate (fname : CString) (isize : Int) : Action Int :=
  if fname.length = 0 ∨ fname.length ≥ 255 then pure 0
  else do
    let created ← filesysCreate fname (wrap32 isize) false
    pure (if created then 1 else 0)

def fsutilWrite (fileName : CString) (buffer : Nat → UInt8) (size : Int) : Action Int := do
  match ← commandFile fileName with
  | none => pure (-1)
  | some file => fileWrite file buffer (wrap32 size)

/-- The result and the bytes stored in the buffer. -/
def fsutilRead (fileName : CString) (size : Int) : Action (Int × List UInt8) := do
  match ← commandFile fileName with
  | none => pure (-1, [])
  | some file => do
      let bytes ← fileRead file (wrap32 size)
      pure (bytes.length, bytes)

def fsutilSize (fileName : CString) : Action Int := do
  match ← commandFile fileName with
  | none => pure (-1)
  | some file => do
      let curOffset := (← getFile file).pos
      let length ← fileLength file
      fileSeek file curOffset
      pure length

def fsutilSeek (fileName : CString) (offset : Int) : Action Int := do
  match ← commandFile fileName with
  | none => pure (-1)
  | some file => do
      fileSeek file offset
      pure 0

def fsutilClose (fileName : CString) : Action Unit := do
  let _ ← removeFromFileTable fileName

def fsutilFreespace : Action Int := do pure (← numFreeSectors)

end MockOS.Fs
