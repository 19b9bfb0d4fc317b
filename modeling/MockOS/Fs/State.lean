import MockOS.Fs.Sector
import MockOS.Lib.CString
import MockOS.Lib.StoreProgram

namespace MockOS.Fs

/-- A heap object has an address, which is not used again after it is freed. -/
abbrev Pointer := Nat

/-- Signed 32-bit arithmetic wraps around. -/
def wrap32 (value : Int) : Int := (value + 2147483648) % 4294967296 - 2147483648

theorem wrap32_of_range {value : Int} (low : -2147483648 ≤ value) (high : value < 2147483648) :
    wrap32 value = value := by
  unfold wrap32
  omega

/-- This is `struct inode_disk`. -/
structure InodeDisk where
  directBlocks : Fin 123 → BlockSector
  indirectBlock : BlockSector
  doublyIndirectBlock : BlockSector
  isDir : Bool
  length : Int
  magic : UInt32

/-- `struct inode` without its list link. -/
structure Inode where
  sector : BlockSector
  openCnt : Int
  removed : Bool
  denyWriteCnt : Int
  data : InodeDisk

/-- This is `struct file`. -/
structure File where
  inode : Pointer
  pos : Int
  denyWrite : Bool

/-- This is `struct dir`. -/
structure Dir where
  inode : Pointer
  pos : Int
  openCnt : Int

/-- The elements of a `struct bitmap` hold one bit after the other. -/
structure Bitmap where
  bitCnt : Nat
  bits : Nat → Bool

/-- The memory of the file system: its globals and the objects on the heap. -/
structure Mem where
  deviceSize : UInt32
  freeMap : Bitmap
  freeMapFile : Option Pointer
  openInodes : List Pointer
  cwd : Option Pointer
  fileTable : List (CString × Pointer)
  inodes : Pointer → Option Inode
  files : Pointer → Option File
  dirs : Pointer → Option Dir
  nextPointer : Pointer
  /-- What the bytes of uninitialised memory hold. -/
  garbage : Nat → UInt8
  /-- How often `PANIC` printed. -/
  panics : Nat
  /-- How often `free_map_allocate` returned false. -/
  allocationFailures : Nat

/-- A part of the file system changes the memory and issues requests to the buffer cache. -/
abbrev Action := StateT Mem (Lib.StoreProgram BlockSector Sector)

/-- The memory and the sectors as they are seen through the buffer cache. -/
structure World where
  mem : Mem
  disk : BlockSector → Sector

variable {A B : Type}

/-- A run ends with a result, or in undefined behaviour. -/
def run (action : Action A) (world : World) : Option (A × World) :=
  (Lib.StoreProgram.exec (action world.mem) world.disk).map fun result => (result.1.1, ⟨result.1.2, result.2⟩)

def undefined : Action A := fun _ => .undefined

def bufferCacheRead (sector : BlockSector) : Action Sector := fun mem =>
  .read sector fun block => .done (block, mem)

def bufferCacheWrite (sector : BlockSector) (block : Sector) : Action Unit := fun mem =>
  .write sector block (.done ((), mem))

/-- This is `buffer_cache_close`. -/
def bufferCacheClose : Action Unit := fun mem => .flush (.done ((), mem))

/-- `PANIC` prints a message and returns. -/
def panic : Action Unit := modify fun mem => { mem with panics := mem.panics + 1 }

/-- A null pointer and a freed object cannot be used. -/
def deref (object : Option A) : Action A :=
  match object with
  | some value => pure value
  | none => undefined

def getInode (pointer : Pointer) : Action Inode := do deref ((← get).inodes pointer)

def setInode (pointer : Pointer) (inode : Inode) : Action Unit :=
  modify fun mem => { mem with inodes := Function.update mem.inodes pointer (some inode) }

def getFile (pointer : Pointer) : Action File := do deref ((← get).files pointer)

def setFile (pointer : Pointer) (file : File) : Action Unit :=
  modify fun mem => { mem with files := Function.update mem.files pointer (some file) }

def getDir (pointer : Pointer) : Action Dir := do deref ((← get).dirs pointer)

def setDir (pointer : Pointer) (dir : Dir) : Action Unit :=
  modify fun mem => { mem with dirs := Function.update mem.dirs pointer (some dir) }

/-- `malloc` returns an address that was not used before. -/
def malloc : Action Pointer := do
  let mem ← get
  set { mem with nextPointer := mem.nextPointer + 1 }
  pure mem.nextPointer

@[simp] theorem run_pure (value : A) (world : World) : run (pure value) world = some (value, world) := rfl

@[simp] theorem run_bind (action : Action A) (next : A → Action B) (world : World) :
    run (action >>= next) world = (run action world).bind fun result => run (next result.1) result.2 := by
  unfold run
  change (Lib.StoreProgram.exec (action world.mem >>= fun result => next result.1 result.2) world.disk).map _ = _
  rw [Lib.StoreProgram.exec_bind]
  cases Lib.StoreProgram.exec (action world.mem) world.disk <;> rfl

@[simp] theorem run_map (action : Action A) (next : A → B) (world : World) :
    run (next <$> action) world = (run action world).map fun result => (next result.1, result.2) := by
  change run (action >>= fun value => pure (next value)) world = _
  rw [run_bind]
  cases run action world <;> rfl

@[simp] theorem run_get (world : World) : run get world = some (world.mem, world) := rfl

@[simp] theorem run_set (mem : Mem) (world : World) : run (set mem) world = some ((), ⟨mem, world.disk⟩) := rfl

@[simp] theorem run_modify (change : Mem → Mem) (world : World) :
    run (modify change) world = some ((), ⟨change world.mem, world.disk⟩) := rfl

@[simp] theorem run_undefined (world : World) : run (undefined : Action A) world = none := rfl

@[simp] theorem run_bufferCacheRead (sector : BlockSector) (world : World) :
    run (bufferCacheRead sector) world = some (world.disk sector, world) := rfl

@[simp] theorem run_bufferCacheWrite (sector : BlockSector) (block : Sector) (world : World) :
    run (bufferCacheWrite sector block) world =
      some ((), ⟨world.mem, Function.update world.disk sector block⟩) := rfl

@[simp] theorem run_bufferCacheClose (world : World) : run bufferCacheClose world = some ((), world) := rfl

@[simp] theorem run_panic (world : World) :
    run panic world = some ((), ⟨{ world.mem with panics := world.mem.panics + 1 }, world.disk⟩) := rfl

@[simp] theorem run_deref_some (value : A) (world : World) : run (deref (some value)) world = some (value, world) :=
  rfl

@[simp] theorem run_deref_none (world : World) : run (deref (none : Option A)) world = none := rfl

/-- The sectors that an action reads and writes, in order. -/
def accessed (action : Action A) (world : World) : List BlockSector :=
  Lib.StoreProgram.accesses (action world.mem) world.disk

/-- The blocks that an action writes, in order. -/
def written (action : Action A) (world : World) : List (BlockSector × Sector) :=
  Lib.StoreProgram.writes (action world.mem) world.disk

theorem written_bind (action : Action A) (next : A → Action B) (world : World) :
    written (action >>= next) world =
      written action world ++ (run action world).elim [] fun result => written (next result.1) result.2 := by
  change Lib.StoreProgram.writes (action world.mem >>= fun result => next result.1 result.2) world.disk = _
  rw [Lib.StoreProgram.writes_bind, run]
  cases Lib.StoreProgram.exec (action world.mem) world.disk <;> rfl

theorem run_getInode {pointer : Pointer} {inode : Inode} {world : World}
    (live : world.mem.inodes pointer = some inode) : run (getInode pointer) world = some (inode, world) := by
  simp [getInode, live]

theorem run_getFile {pointer : Pointer} {file : File} {world : World}
    (live : world.mem.files pointer = some file) : run (getFile pointer) world = some (file, world) := by
  simp [getFile, live]

theorem run_getDir {pointer : Pointer} {dir : Dir} {world : World}
    (live : world.mem.dirs pointer = some dir) : run (getDir pointer) world = some (dir, world) := by
  simp [getDir, live]

@[simp] theorem run_setInode (pointer : Pointer) (inode : Inode) (world : World) :
    run (setInode pointer inode) world = some ((), ⟨{ world.mem with
      inodes := Function.update world.mem.inodes pointer (some inode) }, world.disk⟩) := rfl

@[simp] theorem run_setFile (pointer : Pointer) (file : File) (world : World) :
    run (setFile pointer file) world = some ((), ⟨{ world.mem with
      files := Function.update world.mem.files pointer (some file) }, world.disk⟩) := rfl

@[simp] theorem run_setDir (pointer : Pointer) (dir : Dir) (world : World) :
    run (setDir pointer dir) world = some ((), ⟨{ world.mem with
      dirs := Function.update world.mem.dirs pointer (some dir) }, world.disk⟩) := rfl

@[simp] theorem run_malloc (world : World) : run malloc world = some (world.mem.nextPointer,
    ⟨{ world.mem with nextPointer := world.mem.nextPointer + 1 }, world.disk⟩) := rfl

end MockOS.Fs
