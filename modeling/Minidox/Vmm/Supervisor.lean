import Minidox.Foundation.Attempt
import Minidox.Foundation.TreeMap
import Minidox.Foundation.Word64

/-!
# The KVM supervisor

`KvmSupervisor` keeps the virtual machines of a fork forest and pauses them around every
operation on their memory and files. The hypervisors, memories and filesystems it drives are
parameters: each of their calls may succeed or fail, and change what they hold, in any way.
-/

set_option autoImplicit false

namespace Minidox.Vmm

open Foundation Attempt
open Std (ExtTreeMap)

abbrev KvmVmId := Nat

def ramSlot : Nat := 0

def ramGpa : Nat := 0

def manifestVersion : Nat := 1

structure FsConfig where
  inProcessBackendId : Option Nat
  daxWindowSize : Nat

structure VmConfig where
  fs : Option (List FsConfig)

/-- Guest-physical ranges, each with its length. -/
abbrev MemoryRangeTable := List (Nat × Nat)

structure VmForkStateCapture (Snapshot : Type) where
  config : VmConfig
  snapshot : Snapshot
  dirtyMemory : MemoryRangeTable
  dirtyRamPages : List Nat

inductive DurableBackend (Snapshot : Type) where
  | raw
  | cloud (config : VmConfig) (snapshot : Snapshot) (dirtyMemory : MemoryRangeTable)
      (inProcessFilesystems : List Nat)

structure VmManifest (Snapshot RamState FsSnapshot : Type) where
  id : KvmVmId
  backend : DurableBackend Snapshot
  ram : RamState
  filesystem : FsSnapshot

structure ForestManifest (Snapshot RamState FsSnapshot : Type) where
  version : Nat
  nextVm : Nat
  nextLineage : Nat
  vms : List (VmManifest Snapshot RamState FsSnapshot)

/-- What a supervisor drives. Values of these types are handles, and `World` is everything
that the calls behind them can change. -/
structure Parts where
  (World Failure RawVm CloudVm Ram Filesystem Node : Type)
  (Snapshot Preparation RamBranch RamState FsSnapshot : Type)
  createVm : Attempt World Failure RawVm
  (pauseRaw resumeRaw : RawVm → Attempt World Failure Unit)
  startCloud : Attempt World Failure CloudVm
  (pauseCloud resumeCloud beginForkTracking : CloudVm → Attempt World Failure Unit)
  takeDirtyRamPages : CloudVm → Attempt World Failure (List Nat)
  captureForkState : CloudVm → Attempt World Failure (VmForkStateCapture Snapshot)
  restoreForkState : CloudVm → VmForkStateCapture Snapshot → Ram → Attempt World Failure Unit
  writeRam : Ram → Nat → List UInt8 → Attempt World Failure Unit
  readRam : Ram → Nat → Nat → Attempt World Failure (List UInt8)
  forkRam : Ram → RawVm → Nat → Nat → Attempt World Failure Ram
  (register unregister sealForCheckpoint : Ram → RawVm → Nat → Nat → Attempt World Failure Unit)
  prepareFork : Ram → List Nat → Attempt World Failure Preparation
  finishPreparedBranch : Ram → Preparation → List Nat → Attempt World Failure RamBranch
  materialize : RamBranch → Attempt World Failure Ram
  sealDirtyPages : Ram → List Nat → Attempt World Failure Unit
  durableState : Ram → String → Attempt World Failure RamState
  createFile : Filesystem → String → Nat → Attempt World Failure Node
  writeFile : Filesystem → Node → Nat → List UInt8 → Attempt World Failure Unit
  readFile : Filesystem → Node → Nat → Nat → Attempt World Failure (List UInt8)
  forkFilesystem : Filesystem → Attempt World Failure Filesystem
  durableSnapshot : Filesystem → Attempt World Failure FsSnapshot
  (backendId daxWindowSize : Filesystem → Nat)
  writeTemporary : String → ForestManifest Snapshot RamState FsSnapshot → Attempt World Failure Unit
  (persistTemporary syncStorage : String → Attempt World Failure Unit)

variable {parts : Parts} {α : Type}

abbrev Parts.Manifest (parts : Parts) :=
  ForestManifest parts.Snapshot parts.RamState parts.FsSnapshot

abbrev Parts.SavedVm (parts : Parts) := VmManifest parts.Snapshot parts.RamState parts.FsSnapshot

inductive VmBackend (parts : Parts) where
  | raw (vm : parts.RawVm)
  | cloud (vm : parts.CloudVm)

structure SupervisedVm (parts : Parts) where
  backend : VmBackend parts
  ram : parts.Ram
  filesystem : parts.Filesystem

/-- What the supervisor has asked of machines, with how it went, and what it has saved. A
child that is resumed for the first time has no number yet, and no pause came before. -/
inductive Call (parts : Parts) where
  | pause (vm : KvmVmId) (succeeded : Bool)
  | resume (vm : KvmVmId) (succeeded : Bool)
  | resumeChild (succeeded : Bool)
  | captured (vm : parts.SavedVm)
  | published (manifest : parts.Manifest)

inductive SupervisorError (Failure : Type) where
  | vmNotFound (id : KvmVmId)
  | part (failure : Failure)
  | durabilityRequired
  | backend (operation : String) (failure : Failure)

/-- The supervisor, what it drives, and the calls it has made so far. -/
structure KvmSupervisor (parts : Parts) where
  nextVm : Nat
  nextLineage : Nat
  vms : ExtTreeMap KvmVmId (SupervisedVm parts)
  storage : Option String
  world : parts.World
  calls : List (Call parts)

abbrev SupervisorM (parts : Parts) :=
  Attempt (KvmSupervisor parts) (SupervisorError parts.Failure)

def ask (call : Attempt parts.World parts.Failure α) : SupervisorM parts α :=
  within (·.world) (fun world supervisor => { supervisor with world }) .part call

/-- A call whose failure is reported under the name of the operation. -/
def askTo (operation : String) (call : Attempt parts.World parts.Failure α) :
    SupervisorM parts α :=
  within (·.world) (fun world supervisor => { supervisor with world }) (.backend operation) call

def record (call : Call parts) : SupervisorM parts Unit :=
  modify fun supervisor => { supervisor with calls := supervisor.calls ++ [call] }

/-- Write down how a call went. -/
def noting (call : Bool → Call parts) (operation : SupervisorM parts Unit) :
    SupervisorM parts Unit := do
  let result ← settle operation
  record (call result.isOk)
  Attempt.ofExcept result

namespace VmBackend

def pause (backend : VmBackend parts) (id : KvmVmId) : SupervisorM parts Unit :=
  noting (.pause id) <| match backend with
    | .raw vm => askTo "pause KVM VM" (parts.pauseRaw vm)
    | .cloud vm => ask (parts.pauseCloud vm)

def resume (backend : VmBackend parts) (id : KvmVmId) : SupervisorM parts Unit :=
  noting (.resume id) <| match backend with
    | .raw vm => askTo "resume KVM VM" (parts.resumeRaw vm)
    | .cloud vm => ask (parts.resumeCloud vm)

end VmBackend

namespace KvmSupervisor

def vm (id : KvmVmId) : SupervisorM parts (SupervisedVm parts) := do
  orThrow (.vmNotFound id) (← get).vms[id]?

/-- Pause a machine, do something, and resume the machine whether or not that failed. -/
def between (pause resume : SupervisorM parts Unit) (body : SupervisorM parts α) :
    SupervisorM parts (Except (SupervisorError parts.Failure) α ×
      Except (SupervisorError parts.Failure) Unit) := do
  pause
  let result ← settle body
  let resumeResult ← settle resume
  pure (result, resumeResult)

/-- The shape that the operations on one machine share: the failure of what was done comes
before the failure to resume. -/
def whilePaused (id : KvmVmId) (vm : SupervisedVm parts) (body : SupervisorM parts α) :
    SupervisorM parts α := do
  let (result, resumeResult) ← between (vm.backend.pause id) (vm.backend.resume id) body
  let value ← Attempt.ofExcept result
  Attempt.ofExcept resumeResult
  pure value

def createFile (id : KvmVmId) (name : String) (size : Nat) : SupervisorM parts parts.Node := do
  let vm ← vm id
  whilePaused id vm (ask (parts.createFile vm.filesystem name size))

def writeMemory (id : KvmVmId) (guestAddress : Nat) (bytes : List UInt8) :
    SupervisorM parts Unit := do
  let vm ← vm id
  whilePaused id vm (ask (parts.writeRam vm.ram guestAddress bytes))

def readMemory (id : KvmVmId) (guestAddress len : Nat) : SupervisorM parts (List UInt8) := do
  let vm ← vm id
  whilePaused id vm (ask (parts.readRam vm.ram guestAddress len))

def writeFile (id : KvmVmId) (node : parts.Node) (offset : Nat) (bytes : List UInt8) :
    SupervisorM parts Unit := do
  let vm ← vm id
  whilePaused id vm (ask (parts.writeFile vm.filesystem node offset bytes))

def readFile (id : KvmVmId) (node : parts.Node) (offset len : Nat) :
    SupervisorM parts (List UInt8) := do
  let vm ← vm id
  whilePaused id vm (ask (parts.readFile vm.filesystem node offset len))

def insertVm (vm : SupervisedVm parts) : SupervisorM parts KvmVmId := do
  let supervisor ← get
  set { supervisor with
    nextVm := Word64.wrappingAdd supervisor.nextVm 1
    vms := supervisor.vms.insert supervisor.nextVm vm }
  pure supervisor.nextVm

def forkRawVm (id : KvmVmId) (source : SupervisedVm parts) (backend : parts.RawVm) :
    SupervisorM parts KvmVmId := do
  let childVm ← askTo "create child KVM VM" parts.createVm
  let (forkResult, resumeResult) ← between
    (noting (.pause id) (askTo "pause source KVM VM" (parts.pauseRaw backend)))
    (noting (.resume id) (askTo "resume source KVM VM" (parts.resumeRaw backend))) do
      let childFilesystem ← ask (parts.forkFilesystem source.filesystem)
      let childRam ← ask (parts.forkRam source.ram backend ramSlot ramGpa)
      ask (parts.register childRam childVm ramSlot ramGpa)
      pure (childRam, childFilesystem)
  let (childRam, childFilesystem) ← Attempt.ofExcept forkResult
  match resumeResult with
  | .error error => do
    let _ ← settle
      (ask (parts.unregister childRam childVm ramSlot ramGpa))
    throw error
  | .ok _ => insertVm { backend := .raw childVm, ram := childRam, filesystem := childFilesystem }

/-- Point the filesystems of a captured machine that run in this process at the child's. -/
def retarget (filesystem : parts.Filesystem) (config : VmConfig) : VmConfig where
  fs := config.fs.map fun filesystems => filesystems.map fun configured =>
    if configured.inProcessBackendId.isSome then
      { inProcessBackendId := some (parts.backendId filesystem)
        daxWindowSize := parts.daxWindowSize filesystem }
    else configured

def forkCloudVm (id : KvmVmId) (source : SupervisedVm parts) (backend : parts.CloudVm) :
    SupervisorM parts KvmVmId := do
  let dirtyBeforeCopy ← ask (parts.takeDirtyRamPages backend)
  let preparation ← ask (parts.prepareFork source.ram dirtyBeforeCopy)
  let (capture, childRamBranch, childFilesystem) ← whilePaused id source do
    let capture ← ask (parts.captureForkState backend)
    let childFilesystem ← ask (parts.forkFilesystem source.filesystem)
    let childRamBranch ←
      ask (parts.finishPreparedBranch source.ram preparation capture.dirtyRamPages)
    pure ({ capture with config := retarget childFilesystem capture.config }, childRamBranch,
      childFilesystem)
  let childRam ← ask (parts.materialize childRamBranch)
  let childBackend ← ask parts.startCloud
  ask (parts.restoreForkState childBackend capture childRam)
  ask (parts.beginForkTracking childBackend)
  noting .resumeChild (ask (parts.resumeCloud childBackend))
  insertVm { backend := .cloud childBackend, ram := childRam, filesystem := childFilesystem }

def forkVm (source : KvmVmId) : SupervisorM parts KvmVmId := do
  let vm ← vm source
  match vm.backend with
  | .raw backend => forkRawVm source vm backend
  | .cloud backend => forkCloudVm source vm backend

/-- The machines in the order of their numbers. -/
abbrev Numbered (parts : Parts) := List (KvmVmId × SupervisedVm parts)

/-- Resume machines whatever comes of it, and report the first failure. -/
def resumeAll : Numbered parts → Except (SupervisorError parts.Failure) Unit →
    SupervisorM parts (Except (SupervisorError parts.Failure) Unit)
  | [], outcome => pure outcome
  | entry :: rest, outcome => do
    let result ← settle (entry.2.backend.resume entry.1)
    resumeAll rest (if outcome.isOk then result else outcome)

/-- Pause machines one by one. When one cannot be paused, those that were are resumed in
reverse. -/
def pauseAll : Numbered parts → Numbered parts → SupervisorM parts Unit
  | _, [] => pure ()
  | paused, entry :: rest => do
    match ← settle (entry.2.backend.pause entry.1) with
    | .ok _ => pauseAll (paused ++ [entry]) rest
    | .error error => do
      let _ ← resumeAll paused.reverse (.ok ())
      throw error

/-- The places of the filesystems that run in this process. -/
def inProcessFilesystems (config : VmConfig) : List Nat :=
  (config.fs.getD []).zipIdx.filterMap fun configured =>
    configured.1.inProcessBackendId.map fun _ => configured.2

def durableBackend (vm : SupervisedVm parts) :
    SupervisorM parts (DurableBackend parts.Snapshot) :=
  match vm.backend with
  | .raw raw => do
    ask (parts.sealForCheckpoint vm.ram raw ramSlot ramGpa)
    pure .raw
  | .cloud cloud => do
    let capture ← ask (parts.captureForkState cloud)
    ask (parts.sealDirtyPages vm.ram capture.dirtyRamPages)
    pure (.cloud capture.config capture.snapshot capture.dirtyMemory
      (inProcessFilesystems capture.config))

def saveVm (storage : String) (entry : KvmVmId × SupervisedVm parts) :
    SupervisorM parts parts.SavedVm := do
  let backend ← durableBackend entry.2
  let filesystem ← ask (parts.durableSnapshot entry.2.filesystem)
  let ram ← ask (parts.durableState entry.2.ram (storage ++ "/ram/generations"))
  pure { id := entry.1, backend, ram, filesystem }

def saveAll (storage : String) : Numbered parts → SupervisorM parts (List parts.SavedVm)
  | [] => pure []
  | entry :: rest => do
    let saved ← saveVm storage entry
    record (.captured saved)
    let others ← saveAll storage rest
    pure (saved :: others)

def manifest (supervisor : KvmSupervisor parts) (vms : List parts.SavedVm) : parts.Manifest where
  version := manifestVersion
  nextVm := supervisor.nextVm
  nextLineage := supervisor.nextLineage
  vms := vms

/-- A manifest is published when its file takes the name of the last one. -/
def publishManifest (storage : String) (manifest : parts.Manifest) : SupervisorM parts Unit := do
  ask (parts.writeTemporary storage manifest)
  ask (parts.persistTemporary storage)
  record (.published manifest)
  ask (parts.syncStorage storage)

/-- What is left when the machines run again: the failure to save them comes before the
failure to resume them, and either one keeps the last manifest. -/
def publishResult (storage : String)
    (checkpointResult : Except (SupervisorError parts.Failure) parts.Manifest)
    (resumeResult : Except (SupervisorError parts.Failure) Unit) : SupervisorM parts Unit := do
  let manifest ← Attempt.ofExcept checkpointResult
  Attempt.ofExcept resumeResult
  publishManifest storage manifest

def checkpoint : SupervisorM parts Unit := do
  let supervisor ← get
  let storage ← orThrow .durabilityRequired supervisor.storage
  pauseAll [] supervisor.vms.toList
  let saved ← settle (saveAll storage supervisor.vms.toList)
  let resumeResult ← resumeAll supervisor.vms.toList.reverse (.ok ())
  publishResult storage (saved.map supervisor.manifest) resumeResult

end KvmSupervisor

end Minidox.Vmm
