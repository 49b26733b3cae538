import Minidox.Cache.Shared.WholeCalls
import Minidox.Fork.Forest

/-!
# The supervisor

`Supervisor` of `minidox-fork/src/lib.rs`: every VM has a page branch for its memory and a
branch of a shared page cache for its files. VMs that were forked from one another share
the cache. A filesystem lives in host files of its own, so that each cache carries its
world with it.
-/

set_option autoImplicit false

namespace Minidox.Fork

open Foundation Attempt
open Cache
open Std (ExtTreeMap)

structure SupervisedVm where
  memory : PageBranch
  filesystemCache : Nat
  filesystemBranch : CacheBranchId

structure Supervisor (World Store Identity : Type) [Ord Identity] where
  nextPage : Nat
  vms : ExtTreeMap VmId SupervisedVm
  filesystems : ExtTreeMap Nat (SharedPageCache World Store Identity)

abbrev SupervisorM (World Store Identity : Type) [Ord Identity] :=
  Attempt (Supervisor World Store Identity) Error

namespace Supervisor

variable {World Store Identity : Type} [Ord Identity]

def lookupVm (vm : VmId) : SupervisorM World Store Identity SupervisedVm := do
  let supervisor ← get
  orThrow (.vmNotFound vm) supervisor.vms[vm]?

def writeMemory (vm : VmId) (guestAddress : Nat) (bytes : List UInt8) :
    SupervisorM World Store Identity Unit := do
  let state ← lookupVm vm
  within (fun supervisor => (state.memory, supervisor.nextPage))
    (fun pair supervisor => { supervisor with
      nextPage := pair.2
      vms := supervisor.vms.insert vm { state with memory := pair.1 } })
    id (PageBranch.write "" guestAddress bytes)

def readMemory (vm : VmId) (guestAddress len : Nat) :
    SupervisorM World Store Identity (List UInt8) := do
  let state ← lookupVm vm
  Attempt.ofExcept (state.memory.read "" guestAddress len)

end Supervisor

end Minidox.Fork
