import MockOS.Fs.Format

namespace MockOS.Fs

/-- What a client of the inode layer calls; its inodes are named by their sectors. -/
inductive InodeCall where
  | create (length : Int)
  | openInode (sector : BlockSector)
  | readAt (sector : BlockSector) (size offset : Int)
  | writeAt (sector : BlockSector) (buffer : Nat → UInt8) (size offset : Int)
  | close (sector : BlockSector)
  | remove (sector : BlockSector)

inductive InodeReply where
  /-- The client does not make the call. -/
  | refused
  | created (sector : Option BlockSector)
  | opened
  | bytes (bytes : List UInt8)
  | wrote (size : Int)
  | closed
  | removed
  deriving DecidableEq

/-- The arguments of type `offset_t`. -/
def isOffset (value : Int) : Bool := -2147483648 ≤ value && value < 2147483648

/-- A client opens each of its inodes at most once at a time. -/
structure Session where
  world : World
  /-- The inodes that were created and not removed, with the objects of the open ones. -/
  handles : BlockSector → Option (Option Pointer)

/-- An inode is created on a sector that was just taken from the free map. -/
def createInode (length : Int) : Action (Option BlockSector) := do
  match ← freeMapAllocate 1 with
  | none => pure none
  | some sector => if ← inodeCreate sector length false then pure (some sector) else pure none

namespace Session

def start (world : World) : Session := ⟨world, fun _ => none⟩

def setHandle (session : Session) (sector : BlockSector) (handle : Option (Option Pointer)) (world : World) : Session :=
  ⟨world, Function.update session.handles sector handle⟩

/-- A call on an open inode. -/
def onHandle (session : Session) (sector : BlockSector) (valid : Bool)
    (call : Pointer → Option (InodeReply × Session)) : Option (InodeReply × Session) :=
  match session.handles sector with
  | some (some pointer) => if valid then call pointer else some (.refused, session)
  | _ => some (.refused, session)

/-- A call runs to its reply, or into undefined behaviour. -/
def perform (session : Session) : InodeCall → Option (InodeReply × Session)
  | .create length =>
      if isOffset length then
        (run (createInode length) session.world).map fun result =>
          match result.1 with
          | some sector => (.created (some sector), session.setHandle sector (some none) result.2)
          | none => (.created none, { session with world := result.2 })
      else some (.refused, session)
  | .openInode sector =>
      if session.handles sector = some none then
        (run (inodeOpen sector) session.world).map fun result =>
          (.opened, session.setHandle sector (some (some result.1)) result.2)
      else some (.refused, session)
  | .readAt sector size offset =>
      session.onHandle sector (isOffset size && isOffset offset && 0 ≤ offset) fun pointer =>
        (run (inodeReadAt pointer size offset) session.world).map fun result =>
          (.bytes result.1, { session with world := result.2 })
  | .writeAt sector buffer size offset =>
      session.onHandle sector (isOffset size && isOffset offset && 0 ≤ offset && 1 ≤ size) fun pointer =>
        (run (inodeWriteAt pointer buffer size offset) session.world).map fun result =>
          (.wrote result.1, { session with world := result.2 })
  | .close sector =>
      session.onHandle sector true fun pointer =>
        (run (inodeClose (some pointer)) session.world).map fun result =>
          (.closed, session.setHandle sector (some none) result.2)
  | .remove sector =>
      session.onHandle sector true fun pointer =>
        (run (do inodeRemove pointer; inodeClose (some pointer)) session.world).map fun result =>
          (.removed, session.setHandle sector none result.2)

/-- A sequence of calls with their replies. -/
def performAll (session : Session) : List InodeCall → Option (List InodeReply × Session)
  | [] => some ([], session)
  | call :: rest => do
      let (reply, session) ← session.perform call
      let (replies, session) ← session.performAll rest
      pure (reply :: replies, session)

theorem performAll_cons {session next last : Session} {call : InodeCall} {calls : List InodeCall} {reply : InodeReply}
    {replies : List InodeReply} (ran : session.perform call = some (reply, next))
    (rest : next.performAll calls = some (replies, last)) :
    session.performAll (call :: calls) = some (reply :: replies, last) := by
  rw [performAll, ran]
  change ((next.performAll calls).bind _) = _
  rw [rest]
  rfl

end Session

/-- A file of the abstract map: a growable array of bytes. -/
structure ByteFile where
  bytes : List UInt8
  isOpen : Bool

/-- What the inode layer is for: a map from inodes to arrays of bytes. -/
abbrev ByteFiles := BlockSector → Option ByteFile

namespace ByteFiles

/-- The calls that a client makes. -/
def Allows (files : ByteFiles) : InodeCall → Prop
  | .create length => isOffset length
  | .openInode sector => ∃ bytes, files sector = some ⟨bytes, false⟩
  | .readAt sector size offset => (∃ bytes, files sector = some ⟨bytes, true⟩) ∧ isOffset size ∧ isOffset offset ∧ 0 ≤ offset
  | .writeAt sector _ size offset =>
      (∃ bytes, files sector = some ⟨bytes, true⟩) ∧ isOffset size ∧ isOffset offset ∧ 0 ≤ offset ∧ 1 ≤ size
  | .close sector => ∃ bytes, files sector = some ⟨bytes, true⟩
  | .remove sector => ∃ bytes, files sector = some ⟨bytes, true⟩

/-- The results that the map allows: a creation and an extension can fail, and then nothing changes. -/
inductive Step : ByteFiles → InodeCall → InodeReply → ByteFiles → Prop
  | refused {files call} : ¬ files.Allows call → Step files call .refused files
  | created {files length sector} : files.Allows (.create length) → 0 ≤ length → files sector = none →
      Step files (.create length) (.created (some sector))
        (Function.update files sector (some ⟨List.replicate length.toNat 0, false⟩))
  | notCreated {files length} : files.Allows (.create length) → Step files (.create length) (.created none) files
  | opened {files sector bytes} : files sector = some ⟨bytes, false⟩ →
      Step files (.openInode sector) .opened (Function.update files sector (some ⟨bytes, true⟩))
  | bytes {files sector size offset bytes} : files.Allows (.readAt sector size offset) →
      files sector = some ⟨bytes, true⟩ →
      Step files (.readAt sector size offset) (.bytes ((bytes.drop offset.toNat).take size.toNat)) files
  | wrote {files sector buffer size offset bytes} : files.Allows (.writeAt sector buffer size offset) →
      files sector = some ⟨bytes, true⟩ →
      Step files (.writeAt sector buffer size offset) (.wrote size)
        (Function.update files sector (some ⟨overwrite bytes offset.toNat size.toNat buffer, true⟩))
  | notWritten {files sector buffer size offset} : files.Allows (.writeAt sector buffer size offset) →
      Step files (.writeAt sector buffer size offset) (.wrote 0) files
  | closed {files sector bytes} : files sector = some ⟨bytes, true⟩ →
      Step files (.close sector) .closed (Function.update files sector (some ⟨bytes, false⟩))
  | removed {files sector bytes} : files sector = some ⟨bytes, true⟩ →
      Step files (.remove sector) .removed (Function.update files sector none)

inductive Run : ByteFiles → List InodeCall → List InodeReply → ByteFiles → Prop
  | nil {files} : Run files [] [] files
  | cons {files middle final call calls reply replies} : Step files call reply middle → Run middle calls replies final →
      Run files (call :: calls) (reply :: replies) final

end ByteFiles

/-- The `struct inode_disk` of an inode: that of the open object, else the copy on the disk. -/
def World.inodeData (world : World) (sector : BlockSector) : InodeDisk :=
  (world.mem.openInodes.findSome? fun pointer => (world.mem.inodes pointer).bind fun inode =>
    if inode.sector = sector then some inode.data else none).getD (.ofSector (world.disk sector))

def World.inodeBytes (world : World) (sector : BlockSector) : List UInt8 :=
  fileBytes world.disk (world.inodeData sector)

end MockOS.Fs
