import Minidox.Foundation.Transition
import Minidox.Redox.Disk

/-!
# Lineages of durable disks

The disks that share layer directories, with the states that their checkpoints
returned. A process restart drops all disks and lets the counters start again;
states can be restored at any time and in any selection.
-/

set_option autoImplicit false

namespace Minidox.Redox

open Foundation Attempt

/-- A state that a checkpoint returned, and the blocks that were visible then. -/
structure Taken where
  directory : DirectoryPath
  state : DurableDiskState
  blocks : BlockMap

structure DiskLineage where
  world : RedoxWorld
  nextDisk : Nat
  disks : Nat → Option CowDisk
  taken : List Taken

inductive DiskAction where
  | create (directory : DirectoryPath) (size : Nat)
  | write (disk block : Nat) (buffer : List UInt8)
  | fork (disk : Nat)
  | checkpoint (disk : Nat)
  | drop (disk : Nat)
  | restore (directory : DirectoryPath) (states : List Nat)
  | restart
  deriving DecidableEq, Repr

namespace RedoxWorld

/-- The counters of a new process. The files stay. -/
def restart (world : RedoxWorld) : RedoxWorld :=
  { world with
    nextBlockId := 1, nextFileObjectId := 1, nextPageVersion := 1, nextDurableLayerId := 1 }

def initial : RedoxWorld where
  nextBlockId := 1
  nextFileObjectId := 1
  nextPageVersion := 1
  nextDurableLayerId := 1
  directories _ := Directory.empty
  faults := []

end RedoxWorld

namespace DiskLineage

def initial : DiskLineage :=
  { world := RedoxWorld.initial, nextDisk := 0, disks := fun _ => none, taken := [] }

def put (lineage : DiskLineage) (index : Nat) (disk : CowDisk) : DiskLineage :=
  { lineage with disks := Function.update lineage.disks index (some disk) }

def add (lineage : DiskLineage) (disk : CowDisk) : DiskLineage :=
  { lineage.put lineage.nextDisk disk with nextDisk := lineage.nextDisk + 1 }

def drop (lineage : DiskLineage) (index : Nat) : DiskLineage :=
  { lineage with disks := Function.update lineage.disks index none }

def inWorld (lineage : DiskLineage) (world : RedoxWorld) : DiskLineage := { lineage with world }

def take (lineage : DiskLineage) (entry : Taken) : DiskLineage :=
  { lineage with taken := lineage.taken ++ [entry] }

def select (lineage : DiskLineage) (directory : DirectoryPath) (states : List Nat) : List Taken :=
  (states.filterMap fun index => lineage.taken[index]?).filter fun entry =>
    entry.directory = directory

def restore (lineage : DiskLineage) (directory : DirectoryPath) (states : List DurableDiskState) :
    DiskLineage :=
  match (CowDisk.restoreAll directory states ∅).exec lineage.world with
  | (.ok disks, world) => disks.foldl add (lineage.inWorld world)
  | (.error _, world) => lineage.inWorld world

/-- A call on one disk of the lineage; `next` is what follows from its result. -/
def call {α : Type} (lineage : DiskLineage) (index : Nat) (operation : DiskM α)
    (next : CowDisk → α → DiskLineage → DiskLineage) : DiskLineage :=
  match lineage.disks index with
  | none => lineage
  | some disk =>
    match operation.exec (lineage.world, disk) with
    | (.ok value, world, after) => next disk value ((lineage.inWorld world).put index after)
    | (.error _, world, after) => (lineage.inWorld world).put index after

def step (lineage : DiskLineage) : DiskAction → DiskLineage
  | .create directory size =>
    match (CowDisk.createDurable directory size).exec lineage.world with
    | (.ok disk, world) => (lineage.inWorld world).add disk
    | (.error _, world) => lineage.inWorld world
  | .write index block buffer =>
    lineage.call index (CowDisk.writeAt block buffer) fun _ _ after => after
  | .fork index => lineage.call index CowDisk.fork fun _ child after => after.add child
  | .checkpoint index =>
    lineage.call index CowDisk.durableState fun disk state after =>
      match disk.durable with
      | none => after
      | some durable => after.take ⟨durable.directory, state, disk.visibleBlocks⟩
  | .drop index => lineage.drop index
  | .restore directory states =>
    lineage.restore directory ((lineage.select directory states).map Taken.state)
  | .restart => { lineage.inWorld lineage.world.restart with disks := fun _ => none }

end DiskLineage

end Minidox.Redox
