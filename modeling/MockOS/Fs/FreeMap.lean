import MockOS.Fs.File

namespace MockOS.Fs

def freeMapInit : Action Unit := do
  let deviceSize := (← get).deviceSize
  let bitmap := Bitmap.bitmapCreate (deviceSize - 1).toNat
  setFreeMap ((bitmap.bitmapSet 0 true).bind fun bitmap => bitmap.bitmapSet 1 true)

/-- `bitmap_read` into the free map. -/
def bitmapRead : Action Bool := do
  let mem ← get
  if mem.freeMap.bitCnt > 0 then do
    let size : Int := Bitmap.byteCnt mem.freeMap.bitCnt
    let bytes ← fileReadAt (← deref mem.freeMapFile) size 0
    modify fun mem => { mem with freeMap := mem.freeMap.load bytes }
    pure (bytes.length == size)
  else pure true

/-- The free map file is open from here on. -/
def openFreeMapFile : Action Unit := do
  let inode ← inodeOpen 0
  let file ← fileOpen (some inode)
  modify fun mem => { mem with freeMapFile := file }
  if file.isNone then panic else pure ()

def freeMapOpen : Action Unit := do
  openFreeMapFile
  if ← bitmapRead then pure () else panic

def freeMapClose : Action Unit := do fileClose (← get).freeMapFile

/-- After a failure the function goes on: `PANIC` returns. -/
def freeMapCreate : Action Unit := do
  let size : Int := Bitmap.byteCnt (← get).freeMap.bitCnt
  let created ← inodeCreate 0 size false
  if created then pure () else panic
  openFreeMapFile
  if ← bitmapWrite inodeWriteAt then pure () else panic

end MockOS.Fs
