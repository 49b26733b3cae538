import Minidox.Foundation.Attempt
import Minidox.Foundation.ByteMap
import Minidox.Fuse.Directory

/-!
# FUSE requests

`handle_request` of `virtio-devices/src/in_process_fs.rs`: a request of the guest is a header
with its length, and a body that each operation reads in its own way. A backend is any
implementation of `InProcessFsBackend`. The calls that are made to it are recorded.
-/

set_option autoImplicit false

namespace Minidox.Fuse

open Foundation Attempt

def maxBufferSize : Nat := 2 ^ 20

def EIO : BitVec 32 := 5#32
def EINVAL : BitVec 32 := 22#32
def ENOSYS : BitVec 32 := 38#32

/-- An `io::Error`, by its `raw_os_error`. -/
structure FsError where
  rawOsError : Option (BitVec 32)
  deriving DecidableEq, Repr

structure FsNodeAttr where
  inode : Nat
  size : Nat
  blocks : Nat
  atime : Nat × Nat
  mtime : Nat × Nat
  ctime : Nat × Nat
  mode : Nat
  links : Nat
  uid : Nat
  gid : Nat
  deriving DecidableEq, Repr

/-- The operations of `InProcessFsBackend` that requests use. `read` gets the length of a buffer,
and returns what the buffer holds afterwards and a count. -/
structure Backend (State : Type) where
  lookup : Nat → String → Attempt State FsError FsNodeAttr
  getattr : Nat → Attempt State FsError FsNodeAttr
  openNode : Nat → Attempt State FsError Unit
  close : Nat → Attempt State FsError Unit
  read : Nat → Nat → Nat → Attempt State FsError (ByteMap × Nat)
  write : Nat → Nat → List UInt8 → Attempt State FsError Nat
  sync : Nat → Attempt State FsError Unit
  entries : Nat → Attempt State FsError (List FsDirEntry)
  setupMapping : Nat → Nat → Nat → Bool → Nat → Attempt State FsError Unit
  removeMapping : Nat → Nat → Attempt State FsError Unit

/-- A call of the backend with its arguments. -/
inductive Call where
  | lookup (parent : Nat) (name : String)
  | getattr (inode : Nat)
  | openNode (inode : Nat)
  | close (inode : Nat)
  | read (inode offset capacity : Nat)
  | write (inode offset : Nat) (data : List UInt8)
  | sync (inode : Nat)
  | entries (inode : Nat)
  | setupMapping (inode fileOffset len : Nat) (writable : Bool) (windowOffset : Nat)
  | removeMapping (windowOffset len : Nat)
  deriving DecidableEq, Repr

/-- How a step of a request ends without a value: with an error, or in a panic because an index
is out of range. -/
inductive Stop where
  | failed (error : FsError)
  | outOfRange
  deriving DecidableEq, Repr

/-- The state of the backend and the calls made to it. -/
abbrev FsM (State : Type) := Attempt (State × List Call) Stop

section Requests

variable {State α : Type}

def osError (errno : BitVec 32) : Stop := .failed { rawOsError := some errno }

def perform (call : Call) (operation : Attempt State FsError α) : FsM State α := do
  modify fun (state, calls) => (state, calls ++ [call])
  within Prod.fst (fun state pair => (state, pair.2)) .failed operation

/-- `bytes[start..stop]`. -/
def slice (start stop : Nat) (bytes : List UInt8) : FsM State (List UInt8) := do
  require (start ≤ stop ∧ stop ≤ bytes.length) .outOfRange
  pure ((bytes.take stop).drop start)

/-- The fields of a structure at the head of some bytes, and the bytes behind it. -/
def readStruct (widths : List Nat) (bytes : List UInt8) : FsM State (List Nat × List UInt8) := do
  require (widths.sum ≤ bytes.length) (osError EINVAL)
  let rest ← slice widths.sum bytes.length bytes
  pure (Records.decode widths bytes, rest)

/-!
## Replies
-/

/-- `size_of::<OutHeader>()`. -/
def outHeaderSize : Nat := 16

def outHeader (len : Nat) (error : BitVec 32) (unique : Nat) : List UInt8 :=
  Records.encode [(4, len), (4, error.toNat), (8, unique)]

def dataReply (unique : Nat) (data : List UInt8) : List UInt8 :=
  outHeader (outHeaderSize + data.length) 0#32 unique ++ data

def structReply (unique : Nat) (fields : List (Nat × Nat)) : List UInt8 :=
  outHeader (outHeaderSize + (fields.map Prod.fst).sum) 0#32 unique ++ Records.encode fields

def emptyReply (unique : Nat) : List UInt8 := structReply unique []

/-- The absolute value of the least number is that number. -/
def replyError (unique : Nat) (errno : BitVec 32) : List UInt8 :=
  outHeader outHeaderSize (-errno.abs) unique

def attrFields (attr : FsNodeAttr) : List (Nat × Nat) :=
  [(8, attr.inode), (8, attr.size), (8, attr.blocks), (8, attr.atime.1), (8, attr.mtime.1),
    (8, attr.ctime.1), (4, attr.atime.2), (4, attr.mtime.2), (4, attr.ctime.2), (4, attr.mode),
    (4, attr.links), (4, attr.uid), (4, attr.gid), (4, 0), (4, 4096), (4, 0)]

def entryOut (attr : FsNodeAttr) : List (Nat × Nat) :=
  [(8, attr.inode), (8, 0), (8, 1), (8, 1), (4, 0), (4, 0)] ++ attrFields attr

def attrOut (attr : FsNodeAttr) : List (Nat × Nat) := [(8, 1), (4, 0), (4, 0)] ++ attrFields attr

def openOut (fh : Nat) : List (Nat × Nat) := [(8, fh), (4, 0), (4, 0)]

def writeOut (written : Nat) : List (Nat × Nat) := [(4, written), (4, 0)]

def statfsOut : List (Nat × Nat) :=
  [(8, 8192), (8, 4096), (8, 4096), (8, 1024), (8, 1024), (4, 4096), (4, 255), (4, 4096), (4, 0)] ++
    List.replicate 6 (4, 0)

/-- The fields of `InitOut` that are not constant. -/
def initOut (maxReadahead flags maxBackground congestionThreshold maxWrite timeGran maxPages
    flags2 : Nat) : List (Nat × Nat) :=
  [(4, 7), (4, 38), (4, maxReadahead), (4, flags), (2, maxBackground), (2, congestionThreshold),
    (4, maxWrite), (4, timeGran), (2, maxPages), (2, 0), (4, flags2)] ++ List.replicate 7 (4, 0)

/-!
## Operations
-/

/-- The fields of the header of a request that are used. -/
structure InHeader where
  len : Nat
  opcode : Nat
  unique : Nat
  nodeid : Nat
  deriving DecidableEq, Repr

namespace InHeader

def widths : List Nat := [4, 4, 8, 8, 4, 4, 4, 4]

/-- `size_of::<InHeader>()`. -/
def size : Nat := 40

def ofFields (fields : List Nat) : InHeader where
  len := fields.getD 0 0
  opcode := fields.getD 1 0
  unique := fields.getD 2 0
  nodeid := fields.getD 3 0

end InHeader

/-- The operations by their codes. -/
inductive Opcode where
  | lookup | forget | getattr | openFile | read | write | statfs | release | fsync | flush | init
  | opendir | readdir | releasedir | fsyncdir | access | destroy | setupmapping | removemapping
  | unknown
  deriving DecidableEq, Repr

def Opcode.ofCode : Nat → Opcode
  | 1 => .lookup
  | 2 => .forget
  | 3 => .getattr
  | 14 => .openFile
  | 15 => .read
  | 16 => .write
  | 17 => .statfs
  | 18 => .release
  | 20 => .fsync
  | 25 => .flush
  | 26 => .init
  | 27 => .opendir
  | 28 => .readdir
  | 29 => .releasedir
  | 30 => .fsyncdir
  | 34 => .access
  | 38 => .destroy
  | 48 => .setupmapping
  | 49 => .removemapping
  | _ => .unknown

/-- The name before the first zero byte, unless it is empty or no UTF-8. -/
def lookupName (body : List UInt8) : FsM State String := do
  let length ← orThrow (osError EINVAL)
    ((body.findIdx? fun byte => byte = 0).filter fun length => 0 < length)
  let name ← slice 0 length body
  orThrow (osError EINVAL) (String.fromUTF8? ⟨name.toArray⟩)

/-- The widths of `ReadIn` and of `WriteIn`. -/
def readInWidths : List Nat := [8, 8, 4, 4, 8, 4, 4]

/-- The flags behind the first ones, if the guest has announced them by `FUSE_INIT_EXT`. -/
def initFlags2 (flags : Nat) (rest : List UInt8) : FsM State Nat :=
  if flags &&& 2 ^ 30 ≠ 0 then do
    let (extension, _) ← readStruct (4 :: List.replicate 11 4) rest
    pure (extension.getD 0 0)
  else pure 0

/-- The flags that are both announced and supported: `FUSE_ASYNC_READ`, `FUSE_BIG_WRITES`,
`FUSE_AUTO_INVAL_DATA`, `FUSE_PARALLEL_DIROPS`, `FUSE_MAX_PAGES` and `FUSE_INIT_EXT`. -/
def initEnabled (flags flags2 : Nat) : Nat :=
  (flags ||| flags2 <<< 32) &&&
    (2 ^ 0 ||| 2 ^ 5 ||| 2 ^ 12 ||| 2 ^ 18 ||| 2 ^ 22 ||| 2 ^ 30)

def initReply (unique : Nat) (body : List UInt8) : FsM State (List UInt8) := do
  let (input, rest) ← readStruct [4, 4, 4, 4] body
  if input.getD 0 0 ≠ 7 then pure (structReply unique (initOut 0 0 0 0 0 0 0 0))
  else do
    let flags2 ← initFlags2 (input.getD 3 0) rest
    let enabled := initEnabled (input.getD 3 0) flags2
    pure (structReply unique (initOut (input.getD 2 0) (enabled % 2 ^ 32) 65535 (65535 / 4 * 3)
      maxBufferSize 1 256 (enabled >>> 32)))

/-- The loop of `remove_mapping`. -/
def removeMappings (backend : Backend State) : Nat → List UInt8 → FsM State Unit
  | 0, _ => pure ()
  | count + 1, body => do
    let (mapping, rest) ← readStruct [8, 8] body
    perform (.removeMapping (mapping.getD 0 0) (mapping.getD 1 0))
      (backend.removeMapping (mapping.getD 0 0) (mapping.getD 1 0))
    removeMappings backend count rest

def removeMapping (backend : Backend State) (unique : Nat) (body : List UInt8) :
    FsM State (List UInt8) := do
  let (input, rest) ← readStruct [4] body
  removeMappings backend (input.getD 0 0) rest
  pure (emptyReply unique)

def readFile (backend : Backend State) (header : InHeader) (body : List UInt8) :
    FsM State (List UInt8) := do
  let (input, _) ← readStruct readInWidths body
  let capacity := min (input.getD 2 0) maxBufferSize
  let (buffer, count) ← perform (.read header.nodeid (input.getD 1 0) capacity)
    (backend.read header.nodeid (input.getD 1 0) capacity)
  let data ← slice 0 count (buffer.read 0 capacity)
  pure (dataReply header.unique data)

def writeFile (backend : Backend State) (header : InHeader) (body : List UInt8) :
    FsM State (List UInt8) := do
  let (input, rest) ← readStruct readInWidths body
  let data ← slice 0 (min (input.getD 2 0) rest.length) rest
  let written ← perform (.write header.nodeid (input.getD 1 0) data)
    (backend.write header.nodeid (input.getD 1 0) data)
  pure (structReply header.unique (writeOut written))

/-- The file is closed also when `sync` fails. -/
def releaseFile (backend : Backend State) (header : InHeader) : FsM State (List UInt8) := do
  let sync : Except Stop Unit ← settle (perform (.sync header.nodeid) (backend.sync header.nodeid))
  let close : Except Stop Unit ← settle
    (perform (.close header.nodeid) (backend.close header.nodeid))
  Attempt.ofExcept sync
  Attempt.ofExcept close
  pure (emptyReply header.unique)

def readDirectoryPage (backend : Backend State) (header : InHeader) (body : List UInt8) :
    FsM State (List UInt8) := do
  let (input, _) ← readStruct readInWidths body
  let entries ← perform (.entries header.nodeid) (backend.entries header.nodeid)
  pure (dataReply header.unique (directoryReply (UInt64.ofNat header.nodeid) (input.getD 1 0)
    (input.getD 2 0) entries))

def setupMapping (backend : Backend State) (header : InHeader) (body : List UInt8) :
    FsM State (List UInt8) := do
  let (input, _) ← readStruct [8, 8, 8, 8, 8] body
  perform (.setupMapping header.nodeid (input.getD 1 0) (input.getD 2 0)
      (decide (input.getD 3 0 &&& 1 ≠ 0)) (input.getD 4 0))
    (backend.setupMapping header.nodeid (input.getD 1 0) (input.getD 2 0)
      (decide (input.getD 3 0 &&& 1 ≠ 0)) (input.getD 4 0))
  pure (emptyReply header.unique)

/-- The reply to a request, or its error. -/
def dispatch (backend : Backend State) (header : InHeader) (body : List UInt8) :
    FsM State (List UInt8) :=
  match Opcode.ofCode header.opcode with
  | .lookup => do
    let name ← lookupName body
    let attr ← perform (.lookup header.nodeid name) (backend.lookup header.nodeid name)
    pure (structReply header.unique (entryOut attr))
  | .getattr => do
    let attr ← perform (.getattr header.nodeid) (backend.getattr header.nodeid)
    pure (structReply header.unique (attrOut attr))
  | .openFile | .opendir => do
    perform (.openNode header.nodeid) (backend.openNode header.nodeid)
    pure (structReply header.unique (openOut header.nodeid))
  | .read => readFile backend header body
  | .write => writeFile backend header body
  | .release | .releasedir => releaseFile backend header
  | .fsync | .fsyncdir | .flush => do
    perform (.sync header.nodeid) (backend.sync header.nodeid)
    pure (emptyReply header.unique)
  | .statfs => pure (structReply header.unique statfsOut)
  | .init => initReply header.unique body
  | .readdir => readDirectoryPage backend header body
  | .access => pure (emptyReply header.unique)
  | .setupmapping => setupMapping backend header body
  | .removemapping => removeMapping backend header.unique body
  | .forget | .destroy => pure []
  | .unknown => throw (osError ENOSYS)

/-- An error becomes a reply. One that is not of the operating system is `EIO`. -/
def replyOr (unique : Nat) (operation : FsM State (List UInt8)) : FsM State (List UInt8) := do
  match ← settle operation with
  | .ok reply => pure reply
  | .error (.failed error) => pure (replyError unique (error.rawOsError.getD EIO).abs)
  | .error .outOfRange => throw .outOfRange

/-- The declared length is that of a header at least, and not longer than the request. -/
def Declared (request : List UInt8) (header : InHeader) : Prop :=
  header.len ≤ request.length ∧ InHeader.size ≤ header.len

instance (request : List UInt8) (header : InHeader) : Decidable (Declared request header) :=
  inferInstanceAs (Decidable (_ ∧ _))

def headerOf (request : List UInt8) : InHeader := .ofFields (Records.decode InHeader.widths request)

def handleRequest (backend : Backend State) (request : List UInt8) : FsM State (List UInt8) := do
  match ← settle (readStruct InHeader.widths request : FsM State _) with
  | .error _ => pure []
  | .ok (fields, _) =>
    let header := InHeader.ofFields fields
    if Declared request header then do
      let body ← slice InHeader.size header.len request
      replyOr header.unique (dispatch backend header body)
    else pure (replyError header.unique EINVAL)

end Requests

end Minidox.Fuse
