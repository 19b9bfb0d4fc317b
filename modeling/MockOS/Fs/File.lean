import MockOS.Fs.Inode

namespace MockOS.Fs

def newFile (file : File) : Action Pointer := do
  let pointer ← malloc
  setFile pointer file
  pure pointer

/-- A null inode opens no file. -/
def fileOpen : Option Pointer → Action (Option Pointer)
  | some inode => do
      let pointer ← newFile ⟨inode, 0, false⟩
      pure (some pointer)
  | none => do
      inodeClose none
      pure none

def fileAllowWrite (pointer : Pointer) : Action Unit := do
  let file ← getFile pointer
  if file.denyWrite then do
    setFile pointer { file with denyWrite := false }
    inodeAllowWrite file.inode
  else pure ()

def freeFile (pointer : Pointer) : Action Unit :=
  modify fun mem => { mem with files := Function.update mem.files pointer none }

def fileClose : Option Pointer → Action Unit
  | none => pure ()
  | some pointer => do
      fileAllowWrite pointer
      inodeClose (← getFile pointer).inode
      freeFile pointer

/-- `file_read` returns the bytes that it stored in the buffer. -/
def fileRead (pointer : Pointer) (size : Int) : Action (List UInt8) := do
  let file ← getFile pointer
  let bytes ← inodeReadAt file.inode size file.pos
  setFile pointer { file with pos := wrap32 (file.pos + bytes.length) }
  pure bytes

def fileReadAt (pointer : Pointer) (size fileOfs : Int) : Action (List UInt8) := do
  inodeReadAt (← getFile pointer).inode size fileOfs

/-- The last byte of the buffer is replaced by the null terminator. -/
def terminated (buffer : Nat → UInt8) (size : Int) : Nat → UInt8 :=
  Function.update buffer (size - 1).toNat 0

def fileWrite (pointer : Pointer) (buffer : Nat → UInt8) (size : Int) : Action Int :=
  -- the terminator is stored before the buffer
  if size < 1 then undefined
  else do
    let file ← getFile pointer
    let bytesWritten ← inodeWriteAt file.inode (terminated buffer size) size file.pos
    let file ← getFile pointer
    setFile pointer { file with pos := wrap32 (file.pos + (bytesWritten - 2)) }
    pure bytesWritten

def fileLength (pointer : Pointer) : Action Int := do inodeLength (← getFile pointer).inode

def fileSeek (pointer : Pointer) (newPos : Int) : Action Unit := do
  setFile pointer { (← getFile pointer) with pos := newPos }

def fileTell (pointer : Pointer) : Action Int := do pure (← getFile pointer).pos

def initFileTable : Action Unit := modify fun mem => { mem with fileTable := [] }

/-- The entries are closed from the first to the last. -/
def closeEntries : List (CString × Pointer) → Action Unit
  | [] => pure ()
  | (_, file) :: rest => do
      modify fun mem => { mem with fileTable := rest }
      fileClose (some file)
      closeEntries rest

def freeFileTable : Action Unit := do closeEntries (← get).fileTable

def getFileByFname (fname : CString) : Action (Option Pointer) := do
  pure (((← get).fileTable.find? fun entry => entry.1 == fname).map fun entry => entry.2)

def addToFileTable (file : Pointer) (fname : CString) : Action Unit := do
  match ← getFileByFname fname with
  | some _ => pure ()
  | none => modify fun mem => { mem with fileTable := mem.fileTable ++ [(fname, file)] }

def removeFromFileTable (fname : CString) : Action Bool := do
  match (← get).fileTable.find? fun entry => entry.1 == fname with
  | none => pure false
  | some entry => do
      fileClose (some entry.2)
      modify fun mem => { mem with fileTable := mem.fileTable.erase entry }
      pure true

end MockOS.Fs
