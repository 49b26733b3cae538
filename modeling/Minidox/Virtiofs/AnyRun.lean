import Minidox.Virtiofs.Restoring

/-!
# Every run of the devices

The states that the devices of a lineage reach when any request may come and anything may
fail: page files under the cache and `mmap` under the tables.
-/

set_option autoImplicit false

namespace Minidox.Virtiofs

open Foundation Attempt
open Cache
open Std (ExtTreeMap)

variable {World Store Identity Filesystem : Type} [Ord Identity] [Std.TransOrd Identity]
  [ForkableNodeStore World Store Identity] [FileView Store] [IdentityLedger World Identity]

namespace Device

variable {others : List DaxPageMapping} {device : Device World Store Identity}

theorem strayed_answer {Holds : List DaxPageMapping → Device World Store Identity → Prop}
    (holds : Holds others device) {Error α : Type}
    {operation : Attempt (Device World Store Identity) Error α} {failed : Error → Answer Filesystem}
    {returned : α → Answer Filesystem} (moves : Moves (Straying Holds) operation) :
    Strayed Holds others device (answer operation failed returned device).1 :=
  reaches_answer ((moves device).mono fun _ _ strays => strays others holds)

variable [StoreLedger World Store] [Std.LawfulEqOrd Identity] [DecidableEq Identity]
  [LawfulForkableStore World Store Identity] [FileMaker World Store]
  [LawfulFileMaker World Store Identity] [DurableStore World Store Filesystem]
  [LawfulDurableStore World Store Identity]

theorem answered_serve (counted : Counted others device) {request : Request}
    (stays : request ≠ .drop) : Answered (Strayed Counted others device) device
      (device.serve request : Device World Store Identity × Answer Filesystem) := by
  refine answered_serve_of stays (fun single => ?_) ((VirtioFsBranch.ends_fork_any counted).mono
    fun _ _ ends => ⟨ends.1 others counted, ends.2⟩)
  cases request with
  | openNode inode => exact strayed_answer counted (InProcessFsBackend.moves_openNode inode)
  | close inode => exact strayed_answer counted (InProcessFsBackend.moves_close inode)
  | read inode offset capacity =>
    exact strayed_answer counted (InProcessFsBackend.strays_read inode offset capacity)
  | write inode offset data =>
    exact strayed_answer counted (InProcessFsBackend.strays_write inode offset data)
  | sync inode => exact strayed_answer counted (InProcessFsBackend.moves_sync inode)
  | attachDaxWindow hostAddress len =>
    exact strayed_answer counted (InProcessFsBackend.strays_attachDaxWindow hostAddress len)
  | detachDaxWindow hostAddress len =>
    exact strayed_answer counted (InProcessFsBackend.strays_detachDaxWindow hostAddress len)
  | setupMapping inode fileOffset len writable windowOffset =>
    exact strayed_answer counted
      (InProcessFsBackend.strays_setupMapping inode fileOffset len writable windowOffset)
  | removeMapping windowOffset len =>
    exact strayed_answer counted (InProcessFsBackend.strays_removeMapping windowOffset len)
  | store offset place data =>
    exact reaches_store counted.good ⟨[], counted, Std.Refl.refl _, rfl⟩
      (fun _ good outlived => ⟨[], counted.setCache good outlived, outlived, rfl⟩)
      offset place data
  | createFile name size => exact strayed_answer counted (VirtioFsBranch.moves_createFile name size)
  | hostRead node offset len =>
    exact strayed_answer counted (VirtioFsBranch.strays_read node offset len)
  | hostWrite node offset bytes =>
    exact strayed_answer counted
      (VirtioFsBranch.strays_write_of strays_suspendMappings strays_resumeMappings
      node offset bytes)
  | durableSnapshot =>
    exact strayed_answer counted (VirtioFsBranch.moves_durableSnapshot strays_suspendMappings
      strays_resumeMappings)
  | fork => exact absurd rfl single
  | drop => exact absurd rfl stays

end Device

namespace Devices

variable [StoreLedger World Store]

theorem lasting_listed : Lasting Device.Listed where
  live listed := listed.live
  outlive outlived listed := by
    obtain ⟨files, live⟩ := listed.live
    obtain ⟨later, liveLater, -⟩ := outlived _ files live
    exact ⟨listed.own, ⟨later, liveLater⟩, listed.specs⟩
  congr same listed := ⟨listed.own, same ▸ listed.live, listed.specs⟩
  child listed made := by
    refine ⟨fun offset mapping active => ?_, made.live, made.specs ▸ listed.specs⟩
    rw [made.active, ExtTreeMap.getElem?_empty] at active
    cases active

/-- The devices have their tables, and the cache counts nothing beside them but strays. -/
def Settled (system : Devices World Store Identity) : Prop :=
  ∃ strays, Hosted Device.Listed strays system

theorem Settled.counted {system : Devices World Store Identity} (settled : Settled system)
    {index : Nat} {state : VirtioFsBranch} (found : system.devices[index]? = some state) :
    ∃ others, Device.Counted others (system.device state) := by
  obtain ⟨strays, hosted⟩ := settled
  exact ⟨_, hosted.fits index state found, hosted.good_device found⟩

/-- The devices on a host whose `mmap` fails as listed. -/
def onHost (system : Devices World Store Identity) (mmaps : Faults) :
    Devices World Store Identity :=
  { system with mmaps }

theorem Fresh.listed {copies : CacheBranchId → Option Files} {state : VirtioFsBranch}
    (fresh : Fresh copies state) : Device.Listed copies state := by
  refine ⟨fun offset mapping active => ?_, fresh.live, fresh.specs⟩
  rw [fresh.active, ExtTreeMap.getElem?_empty] at active
  cases active

variable [Std.LawfulEqOrd Identity] [DecidableEq Identity]
  [LawfulForkableStore World Store Identity] [FileMaker World Store]
  [LawfulFileMaker World Store Identity] [DurableStore World Store Filesystem]
  [LawfulDurableStore World Store Identity]

theorem Settled.step {system : Devices World Store Identity} (settled : Settled system)
    (request : Nat × Request) : Settled (system.step request).1 := by
  obtain ⟨strays, hosted⟩ := settled
  have stepped : ∃ more, True ∧ Hosted Device.Listed (more ++ strays) (system.step request).1 ∧
      True := by
    refine hosted.step (fun _ => True) (fun _ => True) lasting_listed
      (fun listed offset mapping active =>
      (listed.own offset mapping active).1) trivial trivial request fun state found last => ?_
    have counted : Device.Counted (strays ++ heldBy (system.devices.erase request.1))
        (system.device state) := ⟨hosted.fits _ state found, hosted.good_device found⟩
    obtain ⟨⟨more, after, outlived, branch⟩, child, stays⟩ := Device.answered_serve counted last
    exact ⟨⟨more, trivial, after.good, after.toListed, outlived, branch, trivial⟩, child, stays⟩
  obtain ⟨_, -, hosted, -⟩ := stepped
  exact ⟨_, hosted⟩

theorem settled_after {start : Devices World Store Identity} (begun : Begun start) (mmaps : Faults)
    (requests : List (Nat × Request)) : Settled ((start.onHost mmaps).after requests) := by
  refine run_invariant_all Settled (fun _ request settled => settled.step request) ?_ requests
  obtain ⟨strays, hosted, -⟩ := begun.hosted fun _ _ fresh => fresh.listed
  exact ⟨strays, hosted.good, hosted.fits, hosted.apart, hosted.fresh⟩

end Devices

end Minidox.Virtiofs
