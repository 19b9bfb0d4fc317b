import MockOS.Fs.Fsutil

namespace MockOS.Fs

/-- The loop of `file_count`. -/
def countNames (dir : Pointer) : Nat → Action Nat
  | 0 => undefined
  | rounds + 1 => do
      match ← dirReaddir dir with
      | none => pure 0
      | some _ => do pure ((← countNames dir rounds) + 1)

def fileCount : Action Nat := do
  let dir ← deref (← dirOpenRoot)
  let count ← countNames dir (← entryRounds (← dirGetInode dir))
  dirClose (some dir)
  pure count

/-- This is `struct file_store`. -/
structure FileStore where
  filename : CString
  size : Int
  contents : Nat → UInt8

/-- A file is stored when it has bytes; the buffer is not initialised before it is read into. -/
def storeFile (name : CString) : Action (Option FileStore) := do
  match ← filesysOpen name with
  | none => pure none
  | some file => do
      let fSize ← fileLength file
      if fSize > 0 then do
        let (_, bytes) ← fsutilRead name fSize
        let garbage := (← get).garbage
        fileClose (some file)
        pure (some ⟨name, fSize, fun index => bytes.getD index (garbage index)⟩)
      else pure none

/-- Loop 1 stores the files and their data. -/
def storeFiles (dir : Pointer) : Nat → Action (List FileStore)
  | 0 => undefined
  | rounds + 1 => do
      match ← dirReaddir dir with
      | none => pure []
      | some name => do
          let stored ← storeFile name
          pure (stored.toList ++ (← storeFiles dir rounds))

/-- Loop 2 removes the files. -/
def removeFiles (dir : Pointer) : Nat → Action Unit
  | 0 => undefined
  | rounds + 1 => do
      match ← dirReaddir dir with
      | none => pure ()
      | some name => do
          let _ ← fsutilRm name
          removeFiles dir rounds

/-- Loop 3 creates `total_files` files; the elements after the stored ones were never set. -/
def recreateFiles : Nat → List FileStore → Action Unit
  | 0, _ => pure ()
  | _ + 1, [] => undefined
  | count + 1, file :: files => do
      let _ ← fsutilCreate file.filename file.size
      let _ ← fsutilWrite file.filename file.contents file.size
      recreateFiles count files

def defragment : Action Int := do
  let totalFiles ← fileCount
  let dir ← deref (← dirOpenRoot)
  let files ← storeFiles dir (← entryRounds (← dirGetInode dir))
  dirClose (some dir)
  let dir ← deref (← dirOpenRoot)
  removeFiles dir (← entryRounds (← dirGetInode dir))
  dirClose (some dir)
  let dir ← deref (← dirOpenRoot)
  recreateFiles totalFiles files
  dirClose (some dir)
  pure 0

end MockOS.Fs
