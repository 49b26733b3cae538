import Minidox.Cache.Shared.WholeCalls

/-!
# A virtio-fs device and its DAX window

`VirtioFsBranch` of `virtiofs.rs`: a branch of a shared cache together with the pages of it
that are mapped into the DAX window of a guest. The requests of the guest and the operations
of the supervisor are attempts on the device and the cache that it shares. Of the window only
the table is modelled: which page of the cache is at which offset. The requests that only ask
the store (`lookup`, `getattr`, `entries`) are left out.
-/

set_option autoImplicit false

namespace Minidox.Virtiofs

open Foundation Attempt
open Cache
open Std (ExtTreeMap ExtTreeSet)

structure MappingSpec where
  inode : NodeId
  fileOffset : Nat
  writable : Bool
  deriving DecidableEq, Repr

def MappingSpec.flags (spec : MappingSpec) : MapFlags :=
  if spec.writable then .READ_WRITE else .READ

theorem MappingSpec.write_flags (spec : MappingSpec) : spec.flags.write = spec.writable := by
  unfold MappingSpec.flags
  cases spec.writable <;> rfl

/-- The `State` behind the mutex of a `VirtioFsBranch`, without the shared cache. A window has
a host address and a length. -/
structure VirtioFsBranch where
  lineage : Nat
  branch : CacheBranchId
  window : Option (Nat × Nat)
  specs : ExtTreeMap Nat MappingSpec
  active : ExtTreeMap Nat DaxPageMapping

structure VirtioFsSnapshot (Filesystem : Type) where
  lineage : Nat
  filesystem : Filesystem
  mappings : List (Nat × MappingSpec)

/-- A device with the cache that it shares, and the failures of `mmap` still to come. -/
structure Device (World Store Identity : Type) [Ord Identity] where
  cache : SharedPageCache World Store Identity
  state : VirtioFsBranch
  mmaps : Faults

/-- An error of the host, or one of the cache. -/
inductive FsError where
  | io (error : IoError)
  | cache (error : CacheError)
  deriving DecidableEq, Repr

/-- `Error::Backend`: what was being done, and the error that it met. -/
structure BackendError where
  operation : String
  cause : FsError
  deriving DecidableEq, Repr

/-- Stores whose state can be saved, as `RedoxBranch::durable_state` does. -/
class DurableStore (World Store : Type) (Filesystem : outParam Type) where
  durableState : Attempt (World × Store) IoError Filesystem

def enoent : Nat := 2

def ebusy : Nat := 16

def enodev : Nat := 19

def einval : Nat := 22

def eoverflow : Nat := 75

def nodeId (inode : Nat) : Except FsError NodeId :=
  if inode < 2 ^ 32 then .ok inode else .error (.io (.os eoverflow))

def cacheIoError : CacheError → FsError
  | .io error => .io error
  | error => .cache error

section Operations

variable {World Store Identity : Type} [Ord Identity] {Error α : Type}

abbrev FsM (World Store Identity : Type) [Ord Identity] :=
  Attempt (Device World Store Identity) FsError

abbrev BackendM (World Store Identity : Type) [Ord Identity] :=
  Attempt (Device World Store Identity) BackendError

namespace Device

def onCache (translate : CacheError → Error) (operation : SharedM World Store Identity α) :
    Attempt (Device World Store Identity) Error α :=
  within Device.cache (fun cache device => { device with cache }) translate operation

def modifyState (change : VirtioFsBranch → VirtioFsBranch) :
    Attempt (Device World Store Identity) Error Unit :=
  modify fun device => { device with state := change device.state }

/-- `Error::backend` of an operation that returns an `io::Result`. -/
def backend (name : String) (operation : FsM World Store Identity α) :
    BackendM World Store Identity α :=
  within id (fun device _ => device) (BackendError.mk name) operation

/-- `Error::backend` of a call of the cache. -/
def backendCache (name : String) (operation : SharedM World Store Identity α) :
    BackendM World Store Identity α :=
  onCache (fun error => ⟨name, .cache error⟩) operation

def mmap : FsM World Store Identity Unit := do
  let device ← get
  set { device with mmaps := device.mmaps.tail }
  match device.mmaps.head?.join with
  | none => pure ()
  | some fault => throw (.io fault.error)

variable [ForkableNodeStore World Store Identity] [Std.TransOrd Identity] [DecidableEq Identity]

/-- The part of `remove_offset` for an offset that has a mapping. -/
def deactivate (offset : Nat) (mapping : DaxPageMapping) : FsM World Store Identity Unit := do
  modifyState fun state => { state with active := state.active.erase offset }
  let device ← get
  let _ ← orThrow (.io (.os enodev)) device.state.window
  match ← settle mmap with
  | .error error =>
    modifyState fun state => { state with active := state.active.insert offset mapping }
    throw error
  | .ok _ => onCache cacheIoError (SharedPageCache.unmap device.state.branch mapping)

def removeOffset (offset : Nat) (removeSpec : Bool) : FsM World Store Identity Unit := do
  let device ← get
  match device.state.active[offset]? with
  | some mapping => deactivate offset mapping
  | none => require (offset ∈ device.state.specs) (.io (.os enoent))
  onlyIf removeSpec (modifyState fun state => { state with specs := state.specs.erase offset })

def suspendMappings : FsM World Store Identity Unit := do
  let device ← get
  forM (device.state.active.toList.map Prod.fst) fun offset => removeOffset offset false

/-- The part of `activate_offsets` for a spec whose page is inside its file. -/
def activatePage (offset : Nat) (spec : MappingSpec) : FsM World Store Identity Unit := do
  let device ← get
  let mapping ← onCache cacheIoError
    (SharedPageCache.mapPage device.state.branch spec.inode spec.fileOffset spec.flags)
  match ← settle mmap with
  | .error error =>
    onCache cacheIoError (SharedPageCache.unmap device.state.branch mapping)
    throw error
  | .ok _ => modifyState fun state => { state with active := state.active.insert offset mapping }

/-- The closure of `activate_offsets`: whether the offset got a mapping. It does not when its
page starts behind the end of the file. -/
def activateOffset (windowLen offset : Nat) : FsM World Store Identity Bool := do
  let device ← get
  -- an offset without a spec would panic; there is none among the keys of `specs`
  let spec ← orThrow (.io (.os enoent)) device.state.specs[offset]?
  require (offset + pageSize ≤ windowLen) (.io (.os einval))
  let length ← onCache cacheIoError
    (SharedPageCache.askStore device.state.branch fun store => NodeStore.len World store spec.inode)
  if spec.fileOffset ≥ length then pure false
  else
    activatePage offset spec
    pure true

/-- `let _ = remove_offset(..)` for each of the offsets. -/
def rollBack : List Nat → FsM World Store Identity Unit
  | [] => pure ()
  | offset :: rest => do
    let _ ← settle (removeOffset offset false : FsM World Store Identity Unit)
    rollBack rest

/-- The loop of `activate_offsets`. The offsets that it has activated, last one first, are
given up again when one fails. -/
def activateAll (windowLen : Nat) : List Nat → List Nat → FsM World Store Identity Unit
  | [], _ => pure ()
  | offset :: rest, activated => do
    let device ← get
    if offset ∈ device.state.active then activateAll windowLen rest activated
    else
      match ← settle (activateOffset windowLen offset) with
      | .ok true => activateAll windowLen rest (offset :: activated)
      | .ok false => activateAll windowLen rest activated
      | .error error =>
        rollBack activated
        throw error

def activateOffsets (offsets : List Nat) : FsM World Store Identity Unit :=
  if offsets.isEmpty then pure ()
  else do
    let device ← get
    let window ← orThrow (.io (.os enodev)) device.state.window
    activateAll window.2 offsets []

def resumeMappings : FsM World Store Identity Unit := do
  let device ← get
  activateOffsets (device.state.specs.toList.map Prod.fst)

end Device

/-!
## Requests of the guest
-/

namespace InProcessFsBackend

open Device

variable [ForkableNodeStore World Store Identity] [Std.TransOrd Identity] [DecidableEq Identity]

def openNode (inode : Nat) : FsM World Store Identity Unit := do
  let device ← get
  let node ← Attempt.ofExcept (nodeId inode)
  onCache cacheIoError (SharedPageCache.openNode device.state.branch node)

def close (inode : Nat) : FsM World Store Identity Unit := do
  let device ← get
  let node ← Attempt.ofExcept (nodeId inode)
  onCache cacheIoError (SharedPageCache.close device.state.branch node)

def read (inode offset capacity : Nat) : FsM World Store Identity (List UInt8) := do
  let device ← get
  let node ← Attempt.ofExcept (nodeId inode)
  onCache cacheIoError (SharedPageCache.read device.state.branch node offset capacity)

def write (inode offset : Nat) (data : List UInt8) : FsM World Store Identity Nat := do
  let device ← get
  let node ← Attempt.ofExcept (nodeId inode)
  onCache cacheIoError (SharedPageCache.write device.state.branch node offset data)

def sync (inode : Nat) : FsM World Store Identity Unit := do
  let device ← get
  let node ← Attempt.ofExcept (nodeId inode)
  onCache cacheIoError (SharedPageCache.sync device.state.branch node)

def attachDaxWindow (hostAddress len : Nat) : FsM World Store Identity Unit := do
  let device ← get
  require device.state.window.isNone (.io (.alreadyExists "DAX window is already attached"))
  modifyState fun state => { state with window := some (hostAddress, len) }
  match ← settle resumeMappings with
  | .error error =>
    modifyState fun state => { state with window := none }
    throw error
  | .ok _ => pure ()

def detachDaxWindow (hostAddress len : Nat) : FsM World Store Identity Unit := do
  let device ← get
  onlyIf (device.state.window = some (hostAddress, len)) do
    suspendMappings
    modifyState fun state => { state with window := none }

def newSpecs (inode : NodeId) (fileOffset len : Nat) (writable : Bool) (windowOffset : Nat) :
    List (Nat × MappingSpec) :=
  (pageOffsets 0 len).map fun delta =>
    (windowOffset + delta, ⟨inode, fileOffset + delta, writable⟩)

/-- The window already has a page in the range. -/
def overlaps (specs : ExtTreeMap Nat MappingSpec) (windowOffset stop : Nat) : Bool :=
  specs.any fun offset _ =>
    offset < stop && (windowOffset ≤ offset || windowOffset < offset + pageSize)

/-- The end of the range in the window, when it is inside. -/
def windowEnd (windowLen windowOffset len : Nat) : Option Nat :=
  (Word64.checkedAdd windowOffset len).filter fun stop => stop ≤ windowLen

def setupMapping (inode fileOffset len : Nat) (writable : Bool) (windowOffset : Nat) :
    FsM World Store Identity Unit := do
  require (¬ (len = 0 ∨ fileOffset % pageSize ≠ 0 ∨ windowOffset % pageSize ≠ 0 ∨
    len % pageSize ≠ 0)) (.io (.os einval))
  let device ← get
  let window ← orThrow (.io (.os enodev)) device.state.window
  let stop ← orThrow (.io (.os einval)) (windowEnd window.2 windowOffset len)
  let _ ← orThrow (.io (.os einval)) (Word64.checkedAdd fileOffset len)
  require (¬ overlaps device.state.specs windowOffset stop) (.io (.os ebusy))
  let node ← Attempt.ofExcept (nodeId inode)
  let inserted := newSpecs node fileOffset len writable windowOffset
  modifyState fun state => { state with specs := TreeMap.insertAll state.specs inserted }
  match ← settle (activateOffsets (inserted.map Prod.fst)) with
  | .error error =>
    modifyState fun state =>
      { state with specs := TreeMap.eraseAll state.specs (inserted.map Prod.fst) }
    throw error
  | .ok _ => pure ()

def removeMapping (windowOffset len : Nat) : FsM World Store Identity Unit := do
  require (¬ (len = 0 ∨ windowOffset % pageSize ≠ 0 ∨ len % pageSize ≠ 0)) (.io (.os einval))
  forM (pageOffsets 0 len) fun delta => removeOffset (windowOffset + delta) true

end InProcessFsBackend

/-!
## Operations of the supervisor
-/

namespace VirtioFsBranch

open Device

variable [ForkableNodeStore World Store Identity] [Std.TransOrd Identity] [DecidableEq Identity]

def specNodes (specs : ExtTreeMap Nat MappingSpec) : List NodeId :=
  (ExtTreeSet.ofList ((TreeMap.values specs).map MappingSpec.inode)).toList

/-- A new device over a branch of the cache: a handle is opened for every node with a spec. -/
def fromParts (lineage : Nat) (branch : CacheBranchId) (specs : ExtTreeMap Nat MappingSpec) :
    BackendM World Store Identity VirtioFsBranch := do
  forM (specNodes specs) fun inode =>
    backendCache "restore DAX file handle" (SharedPageCache.openNode branch inode)
  pure { lineage, branch, window := none, specs, active := ∅ }

/-- The end of `fork`, with what came of the fork of the cache branch. -/
def finishFork (lineage : Nat) (specs : ExtTreeMap Nat MappingSpec)
    (child : Except BackendError CacheBranchId) :
    BackendM World Store Identity VirtioFsBranch := do
  let resume ← settle (backend "resume DAX mappings" resumeMappings :
    BackendM World Store Identity Unit)
  let branch ← Attempt.ofExcept child
  Attempt.ofExcept resume
  fromParts lineage branch specs

def fork : BackendM World Store Identity VirtioFsBranch := do
  backend "suspend DAX mappings" suspendMappings
  let device ← get
  let child ← settle (backendCache "fork RedoxFS/DAX branch"
    (SharedPageCache.fork device.state.branch) : BackendM World Store Identity CacheBranchId)
  finishFork device.state.lineage device.state.specs child

def durableSnapshot {Filesystem : Type} [DurableStore World Store Filesystem] :
    BackendM World Store Identity (VirtioFsSnapshot Filesystem) := do
  backend "suspend DAX mappings for checkpoint" suspendMappings
  let device ← get
  let result ← settle (do
    backendCache "sync DAX pages for checkpoint" (SharedPageCache.syncAll device.state.branch)
    let filesystem ← backendCache "snapshot RedoxFS branch"
      (SharedPageCache.withStoreMut device.state.branch DurableStore.durableState)
    pure { lineage := device.state.lineage, filesystem, mappings := device.state.specs.toList } :
    BackendM World Store Identity (VirtioFsSnapshot Filesystem))
  let resume ← settle (backend "resume DAX mappings after checkpoint" resumeMappings :
    BackendM World Store Identity Unit)
  let snapshot ← Attempt.ofExcept result
  Attempt.ofExcept resume
  pure snapshot

def createFile [FileMaker World Store] (name : String) (size : Nat) :
    BackendM World Store Identity NodeId := do
  let device ← get
  backendCache "create RedoxFS file" (SharedPageCache.createFile device.state.branch name size)

def read (node offset len : Nat) : BackendM World Store Identity (List UInt8) := do
  let device ← get
  backendCache "open cached file" (SharedPageCache.openNode device.state.branch node)
  let result ← settle (backendCache "read cached file"
    (SharedPageCache.read device.state.branch node offset len) :
    BackendM World Store Identity (List UInt8))
  let close ← settle (backendCache "close cached file"
    (SharedPageCache.close device.state.branch node) : BackendM World Store Identity Unit)
  let bytes ← Attempt.ofExcept result
  Attempt.ofExcept close
  pure bytes

/-- The closure of `write`, between the suspension and the resumption of the mappings. -/
def writeSuspended (branch : CacheBranchId) (node offset : Nat) (bytes : List UInt8) :
    BackendM World Store Identity Unit := do
  backendCache "open cached file" (SharedPageCache.openNode branch node)
  let write ← settle (backendCache "write cached file" (do
    let _ ← SharedPageCache.write branch node offset bytes
    SharedPageCache.sync branch node) : BackendM World Store Identity Unit)
  let close ← settle (backendCache "close cached file" (SharedPageCache.close branch node) :
    BackendM World Store Identity Unit)
  Attempt.ofExcept write
  Attempt.ofExcept close

def write (node offset : Nat) (bytes : List UInt8) : BackendM World Store Identity Unit := do
  backend "suspend DAX mappings for write" suspendMappings
  let device ← get
  let result ← settle (writeSuspended device.state.branch node offset bytes :
    BackendM World Store Identity Unit)
  let resume ← settle (backend "resume DAX mappings after write" resumeMappings :
    BackendM World Store Identity Unit)
  Attempt.ofExcept result
  Attempt.ofExcept resume

/-- `let _ = cache.unmap(..)` for each of the mappings. -/
def unmapAll (branch : CacheBranchId) : List DaxPageMapping → SharedM World Store Identity Unit
  | [] => pure ()
  | mapping :: rest => do
    let _ ← settle (SharedPageCache.unmap branch mapping : SharedM World Store Identity Unit)
    unmapAll branch rest

/-- `Drop for VirtioFsBranch`, with what came of the removal of the cache branch. -/
def drop : BackendM World Store Identity (Except CacheError Unit) := do
  let device ← get
  modifyState fun state => { state with active := ∅ }
  let removed ← settle (onCache id (do
    unmapAll device.state.branch (TreeMap.values device.state.active)
    SharedPageCache.removeBranch device.state.branch) :
    Attempt (Device World Store Identity) CacheError Unit)
  pure removed

end VirtioFsBranch

end Operations

end Minidox.Virtiofs
