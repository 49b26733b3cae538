import Minidox.Virtiofs.Requests

/-!
# The devices of a lineage

Several devices over one shared cache, each with a guest of its own. They start as one device
over a new file system; a fork adds one, and a device that is dropped is gone. Requests are
served one after the other, by whichever device gets one.
-/

set_option autoImplicit false

namespace Minidox.Virtiofs

open Foundation Attempt
open Cache
open Std (ExtTreeMap)

/-- A request of the guest, a store of the guest through its window, or an operation of the
supervisor. `hostRead` and `hostWrite` are the inherent `read` and `write`. -/
inductive Request where
  | openNode (inode : Nat)
  | close (inode : Nat)
  | read (inode offset capacity : Nat)
  | write (inode offset : Nat) (data : List UInt8)
  | sync (inode : Nat)
  | attachDaxWindow (hostAddress len : Nat)
  | detachDaxWindow (hostAddress len : Nat)
  | setupMapping (inode fileOffset len : Nat) (writable : Bool) (windowOffset : Nat)
  | removeMapping (windowOffset len : Nat)
  | store (offset place : Nat) (data : List UInt8)
  | createFile (name : String) (size : Nat)
  | hostRead (node offset len : Nat)
  | hostWrite (node offset : Nat) (bytes : List UInt8)
  | fork
  | durableSnapshot
  | drop
  deriving DecidableEq, Repr

inductive Answer (Filesystem : Type) where
  | done
  | refused
  | failed (error : FsError)
  | backendFailed (error : BackendError)
  | bytes (bytes : List UInt8)
  | count (count : Nat)
  | created (node : NodeId)
  | forked (child : VirtioFsBranch)
  | saved (snapshot : VirtioFsSnapshot Filesystem)
  | dropped (removed : Except CacheError Unit)

variable {World Store Identity Filesystem : Type} [Ord Identity]

namespace Device

section Serve

variable {Error α : Type}

def answer (operation : Attempt (Device World Store Identity) Error α)
    (failed : Error → Answer Filesystem) (returned : α → Answer Filesystem)
    (device : Device World Store Identity) : Device World Store Identity × Answer Filesystem :=
  match operation.exec device with
  | (.ok value, after) => (after, returned value)
  | (.error error, after) => (after, failed error)

/-- A store of the guest into a page of its window. The guest has the page with the access
that its mapping was asked with. -/
def store (device : Device World Store Identity) (offset place : Nat) (data : List UInt8) :
    Device World Store Identity × Answer Filesystem :=
  match device.state.active[offset]? with
  | some mapping =>
    if mapping.flags.write ∧ place + data.length ≤ pageSize then
      ({ device with cache := device.cache.storeThrough mapping place data }, .done)
    else (device, .refused)
  | none => (device, .refused)

variable [ForkableNodeStore World Store Identity] [Std.TransOrd Identity] [DecidableEq Identity]
  [FileMaker World Store] [DurableStore World Store Filesystem]

def serve (device : Device World Store Identity) :
    Request → Device World Store Identity × Answer Filesystem
  | .openNode inode =>
    answer (InProcessFsBackend.openNode inode) .failed (fun _ => .done) device
  | .close inode => answer (InProcessFsBackend.close inode) .failed (fun _ => .done) device
  | .read inode offset capacity =>
    answer (InProcessFsBackend.read inode offset capacity) .failed .bytes device
  | .write inode offset data =>
    answer (InProcessFsBackend.write inode offset data) .failed .count device
  | .sync inode => answer (InProcessFsBackend.sync inode) .failed (fun _ => .done) device
  | .attachDaxWindow hostAddress len =>
    answer (InProcessFsBackend.attachDaxWindow hostAddress len) .failed (fun _ => .done) device
  | .detachDaxWindow hostAddress len =>
    answer (InProcessFsBackend.detachDaxWindow hostAddress len) .failed (fun _ => .done) device
  | .setupMapping inode fileOffset len writable windowOffset =>
    answer (InProcessFsBackend.setupMapping inode fileOffset len writable windowOffset) .failed
      (fun _ => .done) device
  | .removeMapping windowOffset len =>
    answer (InProcessFsBackend.removeMapping windowOffset len) .failed (fun _ => .done) device
  | .store offset place data => device.store offset place data
  | .createFile name size =>
    answer (VirtioFsBranch.createFile name size) .backendFailed .created device
  | .hostRead node offset len =>
    answer (VirtioFsBranch.read node offset len) .backendFailed .bytes device
  | .hostWrite node offset bytes =>
    answer (VirtioFsBranch.write node offset bytes) .backendFailed (fun _ => .done) device
  | .fork => answer VirtioFsBranch.fork .backendFailed .forked device
  | .durableSnapshot => answer VirtioFsBranch.durableSnapshot .backendFailed .saved device
  | .drop => answer VirtioFsBranch.drop .backendFailed .dropped device

/-- The page files serve what the request copies. The inherent operations copy after they
have opened the file. -/
def Served (device : Device World Store Identity) : Request → Prop
  | .read inode offset capacity =>
    device.Serves (.read capacity) device.state.branch inode offset
  | .write inode offset data => device.Serves (.write data) device.state.branch inode offset
  | .hostRead node offset len =>
    Ends (backendCache "open cached file" (SharedPageCache.openNode device.state.branch node))
      device fun result after =>
        result = .ok () → after.Serves (.read len) device.state.branch node offset
  | .hostWrite node offset bytes =>
    Ends (do
      backend "suspend DAX mappings for write" suspendMappings
      backendCache "open cached file" (SharedPageCache.openNode device.state.branch node))
      device fun result after =>
        result = .ok () → after.Serves (.write bytes) device.state.branch node offset
  | _ => True

end Serve

end Device

structure Devices (World Store Identity : Type) [Ord Identity] where
  cache : SharedPageCache World Store Identity
  mmaps : Faults
  devices : ExtTreeMap Nat VirtioFsBranch
  next : Nat

namespace Devices

/-- `VirtioFsBranch::create`, over a file system that has just been made. -/
def create (lineage nextPageId : Nat) (world : World) (faults : Faults) (store : Store) :
    Devices World Store Identity where
  cache := SharedPageCache.ofStores lineage nextPageId world faults [store]
  mmaps := []
  devices := (∅ : ExtTreeMap Nat VirtioFsBranch).insert 0
    { lineage, branch := 1, window := none, specs := ∅, active := ∅ }
  next := 1

def device (system : Devices World Store Identity) (state : VirtioFsBranch) :
    Device World Store Identity :=
  { cache := system.cache, state, mmaps := system.mmaps }

def settle (system : Devices World Store Identity) (index : Nat)
    (after : Device World Store Identity) : Answer Filesystem → Devices World Store Identity
  | .forked child =>
    { cache := after.cache
      mmaps := after.mmaps
      devices := (system.devices.insert index after.state).insert system.next child
      next := system.next + 1 }
  | .dropped _ =>
    { system with
      cache := after.cache
      mmaps := after.mmaps
      devices := system.devices.erase index }
  | _ =>
    { system with
      cache := after.cache
      mmaps := after.mmaps
      devices := system.devices.insert index after.state }

variable [ForkableNodeStore World Store Identity] [Std.TransOrd Identity] [DecidableEq Identity]
  [FileMaker World Store] [DurableStore World Store Filesystem]

def step (system : Devices World Store Identity) (request : Nat × Request) :
    Devices World Store Identity × Answer Filesystem :=
  match system.devices[request.1]? with
  | none => (system, .refused)
  | some state =>
    match (system.device state).serve request.2 with
    | (after, answer) => (system.settle request.1 after answer, answer)

def after (system : Devices World Store Identity) (requests : List (Nat × Request)) :
    Devices World Store Identity :=
  run (fun system request => (system.step request).1) system requests

def Serves (system : Devices World Store Identity) (request : Nat × Request) : Prop :=
  ∀ state ∈ system.devices[request.1]?, (system.device state).Served request.2

end Devices

end Minidox.Virtiofs
