import Minidox.Redox.BranchStore
import Minidox.Virtiofs.Requests

/-!
# Devices over RedoxFS

Saving the state of a RedoxFS branch changes nothing that the branch shows.
-/

set_option autoImplicit false

namespace Minidox.Redox.MountedBranch

open Foundation Attempt
open Cache Virtiofs

variable {Mount : Type} [RedoxFs Mount] [RedoxFiles Mount] [LawfulRedoxFs Mount]

instance : DurableStore RedoxWorld (MountedBranch Mount) RedoxBranchState where
  durableState := call RedoxBranch.durableState keeps_durableState

instance : LawfulDurableStore RedoxWorld (MountedBranch Mount) RedoxPageIdentity where
  durableState_untouched _ branch :=
    ends_call keeps_durableState ((RedoxBranch.ends_durableState branch.2).mono
      fun _ _ unchanged _ => untouched unchanged)

end Minidox.Redox.MountedBranch
