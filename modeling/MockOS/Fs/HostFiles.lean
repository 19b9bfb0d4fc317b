import MockOS.Fs.Fsutil

namespace MockOS.Fs

/-- The files of the host, and the names under which it can create one. -/
structure Host where
  files : CString → Option (List UInt8)
  creates : CString → Bool

/-- The host with a file of these bytes. -/
def Host.store (host : Host) (name : CString) (bytes : List UInt8) : Host :=
  { host with files := Function.update host.files name (some bytes) }

/-- The error codes of the copies. -/
inductive Error where
  | noError
  | fileDoesNotExist
  | fileCreationError
  | fileWriteError
  | fileReadError
  deriving DecidableEq

def fileSectors (size : Nat) : Nat := size / 512 + if size % 512 ≠ 0 then 1 else 0

/-- The bytes to write of a file that has more sectors than are free. -/
def truncatedSize (freeSectors : Nat) : Nat :=
  (if freeSectors ≤ 123 then freeSectors * 512
  else if freeSectors ≤ 123 + 128 then (freeSectors - 2) * 512
  else
    let additional := (freeSectors - 3 - 1 - 128) / 128
    (freeSectors - (additional + 3)) * 512) % 2 ^ 32

/-- The variable `write` of `copy_in`, whose `size` has 32 bits. -/
def copyInWrite (length freeSectors : Nat) : Nat :=
  if fileSectors (length % 2 ^ 32) > freeSectors then truncatedSize freeSectors else 0

/-- Each `fread` asks for 8 elements of 8 bytes and stores them at the start of the buffer; it fails when it reads no
whole element, and it is the last one when it reaches the end of the file. -/
def readChunks : Nat → List UInt8 → List UInt8 → Action (Option (List UInt8))
  | 0, _, _ => undefined
  | rounds + 1, file, buffer =>
      let chunk := file.take 64
      if buffer.length < chunk.length then undefined
      else if chunk.length < 8 then pure none
      else if chunk.length < 64 then pure (some (chunk ++ buffer.drop chunk.length))
      else readChunks rounds (file.drop 64) (chunk ++ buffer.drop chunk.length)

/-- The file is read into a buffer of zeros and written from it. -/
def readAndWrite (fname : CString) (file : List UInt8) (bufferSize writeSize : Nat) : Action Error := do
  match ← readChunks (file.length + 1) file (List.replicate bufferSize 0) with
  | none => pure .fileReadError
  | some buffer => do
      if (← fsutilWrite fname (fun index => buffer.getD index 0) writeSize) = 0 then pure .fileWriteError
      else do
        let _ ← fsutilSeek fname 0
        pure .noError

def createAndWrite (fname : CString) (file : List UInt8) (initialSize bufferSize writeSize : Nat) : Action Error := do
  if (← fsutilCreate fname initialSize) = 0 then pure .fileCreationError
  else readAndWrite fname file bufferSize writeSize

def copyIn (host : Host) (fname : CString) : Action Error := do
  match host.files fname with
  | none => pure .fileDoesNotExist
  | some file => do
      let size := file.length % 2 ^ 32
      let freeSectors ← numFreeSectors
      let write := copyInWrite file.length freeSectors
      if fileSectors size > freeSectors then createAndWrite fname file 1 (write + 1) write
      else createAndWrite fname file size ((size + 1) % 2 ^ 32) ((size + 1) % 2 ^ 32)

/-- `fputs` writes the bytes before the first zero, and runs past a buffer that has none. -/
def fputs (buffer : List UInt8) : Action CString :=
  if 0 ∈ buffer then pure (strdup buffer) else undefined

def copyOut (host : Host) (fname : CString) : Action (Error × Host) := do
  let size ← fsutilSize fname
  let _ ← fsutilSeek fname 0
  let (count, bytes) ← fsutilRead fname size
  if count = 0 then pure (.fileReadError, host)
  else if host.creates fname then do
    -- the buffer had `size + 1` zeros before the bytes were read into it
    let text ← fputs (bytes ++ List.replicate ((size + 1).toNat - bytes.length) 0)
    pure (.noError, host.store fname text)
  else pure (.fileDoesNotExist, host)

end MockOS.Fs
