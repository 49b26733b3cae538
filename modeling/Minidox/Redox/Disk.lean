import Minidox.Foundation.Pages
import Minidox.Redox.Layers

/-!
# Copy-on-write disks

`CowDisk` of `minidox-redoxfs/src/branching.rs`: the block device under a RedoxFS
branch. A fork shares all blocks written so far; each branch then writes blocks of
its own, and appends them to its overlay when the disk is durable.
-/

set_option autoImplicit false

namespace Minidox.Redox

open Foundation Attempt
open Cache (IoError)

/-- Blocks by address, zero where nothing was written. -/
abbrev Image := Nat → BlockBytes

structure CowDisk where
  size : Nat
  base : List BlockMap
  writes : BlockMap
  durable : Option DurableCowDisk

abbrev DiskM := Attempt (RedoxWorld × CowDisk) IoError

namespace CowDisk

variable {α : Type}

def new (size : Nat) : CowDisk := { size, base := [], writes := ∅, durable := none }

def createDurable (directory : DirectoryPath) (size : Nat) : HostM CowDisk := do
  let durable ← DurableCowDisk.create directory
  pure { size, base := [], writes := ∅, durable := some durable }

def onDurable (durable : DurableCowDisk) (translate : IoError → IoError)
    (operation : DurableM α) : DiskM α :=
  within (fun pair => (pair.1, durable))
    (fun inner pair => (inner.1, { pair.2 with durable := some inner.2 })) translate operation

/-- The blocks written since the last fork or checkpoint become shared. -/
def sealWrites (disk : CowDisk) : CowDisk :=
  { disk with base := Overlay.push disk.writes disk.base, writes := ∅ }

def fork : DiskM CowDisk := do
  let (_, disk) ← get
  let childDurable ← match disk.durable with
    | none => pure none
    | some durable => do
      let child ← onDurable durable id (DurableCowDisk.fork (!disk.writes.isEmpty))
      pure (some child)
  modify fun (world, disk) => (world, disk.sealWrites)
  let (_, disk) ← get
  pure { size := disk.size, base := disk.base, writes := ∅, durable := childDurable }

def visibleBlock (disk : CowDisk) (address : Nat) : Option Block :=
  Overlay.lookup (disk.writes :: disk.base) address

def visibleBlocks (disk : CowDisk) : BlockMap := Overlay.flatten (disk.writes :: disk.base)

def image (disk : CowDisk) : Image := fun address =>
  ((disk.visibleBlock address).map Block.bytes).getD BlockBytes.zero

def content (disk : CowDisk) : ByteMap :=
  Pages.joined blockSize fun address => ByteMap.ofList (disk.image address).bytes

def checkRange (disk : CowDisk) (block len : Nat) : Except IoError Unit :=
  match (Word64.checkedMul block blockSize).bind fun offset => Word64.checkedAdd offset len with
  | none => .error (.os Host.eio)
  | some stop => if stop > disk.size then .error (.os Host.eio) else .ok ()

def durableState : DiskM DurableDiskState := do
  let (_, disk) ← get
  match disk.durable with
  | none => throw (.other "filesystem branch is not durable")
  | some durable =>
    let state ← onDurable durable id
      (DurableCowDisk.checkpoint disk.size (!disk.writes.isEmpty))
    modify fun (world, disk) => (world, disk.sealWrites)
    pure state

def readAt (disk : CowDisk) (block len : Nat) : Except IoError (List UInt8) := do
  disk.checkRange block len
  .ok ((List.range ((len + blockSize - 1) / blockSize)).flatMap fun index =>
    (disk.image (block + index)).bytes.take (min blockSize (len - index * blockSize)))

/-- One chunk of `write_at`. -/
def writeBlock (address : Nat) (chunk : List UInt8) : DiskM Unit := do
  let (world, disk) ← get
  let block : Block :=
    { id := world.nextBlockId, bytes := (disk.image address).overwrite chunk }
  set ({ world with nextBlockId := Word64.wrappingAdd world.nextBlockId 1 },
    { disk with writes := disk.writes.insert address block })
  match disk.durable with
  | none => pure ()
  | some durable =>
    onDurable durable (fun _ => .os Host.eio) (DurableCowDisk.append address block)

def writeAt (block : Nat) (buffer : List UInt8) : DiskM Nat := do
  let (_, disk) ← get
  Attempt.ofExcept (disk.checkRange block buffer.length)
  forM (Words.chunks blockSize buffer).zipIdx fun (chunk, index) =>
    writeBlock (block + index) chunk
  pure buffer.length

/-- The disk of one state in `restore_lineage`. -/
def restore (directory : DirectoryPath) (state : DurableDiskState) (objects : BlockMap) :
    HostM (CowDisk × BlockMap) := do
  let (durable, blocks, objects) ← DurableCowDisk.restore directory state objects
  pure ({ size := state.size, base := [blocks], writes := ∅, durable := some durable }, objects)

/-- The disks of several states, which share their block objects. -/
def restoreAll (directory : DirectoryPath) : List DurableDiskState → BlockMap →
    HostM (List CowDisk)
  | [], _ => pure []
  | state :: rest, objects => do
    let (disk, objects) ← restore directory state objects
    let disks ← restoreAll directory rest objects
    pure (disk :: disks)

end CowDisk

end Minidox.Redox
