import Minidox.Redox.Disk
import Minidox.Redox.Identity

/-!
# RedoxFS branches

`RedoxBranch` of `minidox-redoxfs/src/branching.rs`: a filesystem on a copy-on-write disk,
with the identities of its files and pages. The filesystem itself is the crate `redoxfs`.
It is a parameter here: what it makes of the bytes of a disk, and which blocks its
transactions write.
-/

set_option autoImplicit false

namespace Minidox.Redox

open Foundation Attempt
open Cache (IoError NodeId)

/-- The blocks that a transaction writes, in order: an address and the bytes. -/
abbrev BlockWrites := List (Nat × List UInt8)

/-- What a transaction computes from a mounted filesystem and the bytes of its disk: an
error number, or the blocks to write, the filesystem after the commit, and a value. -/
abbrev Transaction (Mount α : Type) := Mount → ByteMap → Except Nat (BlockWrites × Mount × α)

/-- The functions of the crate `redoxfs` that a branch calls. A value of `Mount` is what a
`FileSystem` keeps in memory. -/
class RedoxFs (Mount : Type) where
  /-- `FileSystem::create` on a new disk of the given size. -/
  create : Nat → Except Nat (BlockWrites × Mount)
  /-- `FileSystem::open` at a header block. -/
  mount : ByteMap → Nat → Except Nat Mount
  /-- The header block. -/
  block : Mount → Nat
  len : Mount → ByteMap → NodeId → Except Nat Nat
  readNode : Mount → ByteMap → NodeId → Nat → Nat → Except Nat (List UInt8)
  writeNode : NodeId → Nat → List UInt8 → Transaction Mount Nat
  /-- A new file of the root directory, with a name and a size. -/
  createNode : String → Nat → Transaction Mount NodeId
  onOpenNode : NodeId → Transaction Mount Unit
  onCloseNode : NodeId → Transaction Mount Unit

/-- `TreePtr::root().id()`. -/
def rootNode : NodeId := 1

structure RedoxBranch (Mount : Type) where
  disk : CowDisk
  mount : Mount
  identities : IdentityBranch

structure RedoxBranchState where
  disk : DurableDiskState
  headerBlock : Nat
  identities : IdentityState
  deriving DecidableEq, Repr

abbrev BranchM (Mount : Type) := Attempt (RedoxWorld × RedoxBranch Mount) IoError

/-- `io_error`. -/
def orErrno {State α : Type} : Except Nat α → Attempt State IoError α
  | .ok value => pure value
  | .error errno => throw (.os errno)

namespace RedoxBranch

variable {Mount α : Type}

def onDisk (operation : DiskM α) : BranchM Mount α :=
  within (fun pair => (pair.1, pair.2.disk))
    (fun inner pair => (inner.1, { pair.2 with disk := inner.2 })) id operation

def onIdentities (operation : IdentityM α) : BranchM Mount α :=
  within (fun pair => (pair.1, pair.2.identities))
    (fun inner pair => (inner.1, { pair.2 with identities := inner.2 })) id operation

/-- One block of a commit. -/
def commitBlock (write : Nat × List UInt8) : DiskM Unit := do
  let _ ← CowDisk.writeAt write.1 write.2

def writeBlocks (writes : BlockWrites) : DiskM Unit := forM writes commitBlock

/-- `FileSystem::tx`: when a block cannot be written, the filesystem in memory stays at its
last commit. -/
def tx (transaction : Transaction Mount α) : BranchM Mount α := do
  let (_, branch) ← get
  let (writes, mount, value) ← orErrno (transaction branch.mount branch.disk.content)
  onDisk (writeBlocks writes)
  modify fun (world, branch) => (world, { branch with mount })
  pure value

section Calls

variable [RedoxFs Mount]

/-- A new filesystem, whose root directory has an identity. -/
def format (disk : CowDisk) : HostM (RedoxBranch Mount) := do
  let (writes, mount) ← orErrno (RedoxFs.create disk.size)
  let ((), disk) ← withLocal disk (writeBlocks writes)
  let ((), identities) ← withLocal IdentityBranch.new (IdentityBranch.createFile rootNode)
  pure { disk, mount, identities }

def create (size : Nat) : HostM (RedoxBranch Mount) := format (CowDisk.new size)

def createDurable (directory : DirectoryPath) (size : Nat) : HostM (RedoxBranch Mount) := do
  let disk ← CowDisk.createDurable directory size
  format disk

def createFile (name : String) (size : Nat) : BranchM Mount NodeId := do
  let node ← tx (RedoxFs.createNode name size)
  onIdentities (IdentityBranch.createFile node)
  pure node

def read (branch : RedoxBranch Mount) (node offset len : Nat) : Except IoError (List UInt8) :=
  (RedoxFs.readNode branch.mount branch.disk.content node offset len).mapError .os

def fork : BranchM Mount (RedoxBranch Mount) := do
  let childDisk ← onDisk CowDisk.fork
  let (_, branch) ← get
  modify fun (world, branch) => (world, { branch with identities := branch.identities.fork.1 })
  let mount ← orErrno (RedoxFs.mount childDisk.content (RedoxFs.block branch.mount))
  pure { disk := childDisk, mount, identities := branch.identities.fork.2 }

def durableState : BranchM Mount RedoxBranchState := do
  let disk ← onDisk CowDisk.durableState
  let (_, branch) ← get
  pure
    { disk
      headerBlock := RedoxFs.block branch.mount
      identities := branch.identities.state }

/-!
The calls of a cache.
-/

def len (branch : RedoxBranch Mount) (node : NodeId) : Except IoError Nat :=
  (RedoxFs.len branch.mount branch.disk.content node).mapError .os

def writeNode (node offset : Nat) (bytes : List UInt8) : BranchM Mount Nat :=
  tx (RedoxFs.writeNode node offset bytes)

def onOpenNode (node : NodeId) : BranchM Mount Unit := tx (RedoxFs.onOpenNode node)

def onCloseNode (node : NodeId) : BranchM Mount Unit := tx (RedoxFs.onCloseNode node)

def preparePageWrite (node offset : Nat) : BranchM Mount RedoxPageIdentity :=
  onIdentities (IdentityBranch.preparePageWrite node offset)

end Calls

end RedoxBranch

end Minidox.Redox
