import Minidox.Redox.DiskLineageProperties

/-!
# Durable disks on a host that fails

Writes, forks and checkpoints of a lineage while the host fails. A failed fork or checkpoint leaves
the disk what its files say. A failed write does so when its last record got into the overlay as a
whole, or when there was nothing of it and nothing new in it.
-/

set_option autoImplicit false

namespace Minidox.Redox

open Foundation Attempt
open Cache (Faults)

def RedoxWorld.arm (world : RedoxWorld) (faults : Faults) : RedoxWorld := { world with faults }

/-- The disk is read back from its layers and its overlay. -/
def CowDisk.ReadBack (agree : BlockMap → BlockMap → Prop) (world : RedoxWorld) (disk : CowDisk) :
    Prop :=
  ∃ durable, disk.durable = some durable ∧
    (world.directories durable.directory).Readable durable.names ∧
    agree disk.visibleBlocks ((world.directories durable.directory).replay durable.names)

namespace DiskLineage

/-- An action, and how the host fails while a disk is written, forked or checkpointed. -/
def attempt (lineage : DiskLineage) : DiskAction × Faults → DiskLineage
  | (.write index block buffer, faults) => disarmed faults (.write index block buffer)
  | (.fork index, faults) => disarmed faults (.fork index)
  | (.checkpoint index, faults) => disarmed faults (.checkpoint index)
  | (action, _) => lineage.step action
where
  disarmed (faults : Faults) (action : DiskAction) : DiskLineage :=
    let after := (lineage.inWorld (lineage.world.arm faults)).step action
    after.inWorld (after.world.arm [])

/-- The host does not fail in writes. -/
def WritesSucceed (_ : DiskLineage) : DiskAction × Faults → Prop
  | (.write _ _ _, faults) => faults = []
  | _ => True

/-- A write that fails spares the file or the block. -/
def WritesSpare (lineage : DiskLineage) : DiskAction × Faults → Prop
  | (.write index block buffer, faults) => ∀ disk ∈ lineage.disks index,
      Spares block disk.image (Words.chunks blockSize buffer).zipIdx faults
  | _ => True

def AttemptsFresh (lineage : DiskLineage) (attempted : DiskAction × Faults) : Prop :=
  lineage.HandsOutFresh attempted.1

instance decidableAttemptsFresh (lineage : DiskLineage) (attempted : DiskAction × Faults) :
    Decidable (lineage.AttemptsFresh attempted) :=
  inferInstanceAs (Decidable (lineage.HandsOutFresh attempted.1))

instance decidableWritesSucceed (lineage : DiskLineage) :
    (attempted : DiskAction × Faults) → Decidable (lineage.WritesSucceed attempted)
  | (.write _ _ _, faults) => inferInstanceAs (Decidable (faults = []))
  | (.create _ _, _) | (.fork _, _) | (.checkpoint _, _) | (.drop _, _) | (.restore _ _, _)
  | (.restart, _) => inferInstanceAs (Decidable True)

instance decidableWritesSpare (lineage : DiskLineage) :
    (attempted : DiskAction × Faults) → Decidable (lineage.WritesSpare attempted)
  | (.write index block buffer, faults) => inferInstanceAs (Decidable
      (∀ disk ∈ lineage.disks index,
        Spares block disk.image (Words.chunks blockSize buffer).zipIdx faults))
  | (.create _ _, _) | (.fork _, _) | (.checkpoint _, _) | (.drop _, _) | (.restore _ _, _)
  | (.restart, _) => inferInstanceAs (Decidable True)

section Attempt

variable {agree : BlockMap → BlockMap → Prop} {lineage : DiskLineage}

theorem Exact.arm (kept : lineage.Exact agree) (faults : Faults) :
    (lineage.inWorld (lineage.world.arm faults)).Exact agree :=
  { kept with }

theorem Exact.readBack (kept : lineage.Exact agree) {index : Nat} {disk : CowDisk}
    (found : lineage.disks index = some disk) : disk.ReadBack agree lineage.world := by
  obtain ⟨durable, side, live⟩ := kept.live index disk found
  exact ⟨durable, side, live.readable, live.visible⟩

theorem keeps_attempt [Agreement agree] (kept : lineage.Exact agree)
    (quiet : lineage.world.faults = []) (action : DiskAction) (faults : Faults)
    (ready : ∀ index block buffer, action = .write index block buffer →
      (lineage.inWorld (lineage.world.arm faults)).Ready agree action) :
    Keeps agree lineage action (lineage.attempt (action, faults)) := by
  have disarmed : (lineage.inWorld (lineage.world.arm faults)).Ready agree action →
      Keeps agree lineage action (attempt.disarmed lineage faults action) := by
    intro prepared
    have keeps := keeps_step (kept.arm faults) prepared
    refine ⟨keeps.exact.arm [], fun uniform fresh => keeps.uniform uniform ?_, fun _ => rfl⟩
    cases action with
    | write index block buffer => exact fresh
    | _ => trivial
  have calm := keeps_step kept (ready_of_quiet agree quiet action)
  cases action with
  | write index block buffer => exact disarmed (ready index block buffer rfl)
  | fork index => exact disarmed trivial
  | checkpoint index => exact disarmed trivial
  | create path size => exact calm
  | drop index => exact calm
  | restore path states => exact calm
  | restart => exact calm

end Attempt

/-- Forks and checkpoints tolerate failures. A disk is read back from its layers and its overlay
in every run, also after forks and checkpoints that failed, and after one more that fails it shows
the blocks that it showed before. The states that checkpoints returned stay what they were. -/
theorem failed_forks_leave_blocks {actions : List (DiskAction × Faults)}
    (calm : Admitted attempt WritesSucceed initial actions) :
    (∀ index disk, (run attempt initial actions).disks index = some disk →
      disk.ReadBack Eq (run attempt initial actions).world ∧
      ∀ faults error after,
        CowDisk.fork.exec ((run attempt initial actions).world.arm faults, disk) =
            (.error error, after) ∨
          CowDisk.durableState.exec ((run attempt initial actions).world.arm faults, disk) =
            (.error error, after) →
        after.2.visibleBlocks = disk.visibleBlocks ∧ after.2.ReadBack Eq after.1) ∧
    ∀ entry ∈ (run attempt initial actions).taken,
      ((run attempt initial actions).world.directories entry.directory).Readable
        entry.state.names ∧
      entry.blocks = ((run attempt initial actions).world.directories entry.directory).replay
        entry.state.names := by
  have kept : (run attempt initial actions).Exact Eq ∧
      (run attempt initial actions).world.faults = [] := by
    refine run_invariant (fun lineage : DiskLineage => lineage.Exact Eq ∧ lineage.world.faults = [])
      (fun lineage attempted both succeeds => ?_) ⟨exact_initial, rfl⟩ calm
    obtain ⟨action, faults⟩ := attempted
    have keeps := keeps_attempt both.1 both.2 action faults fun index block buffer same =>
      ready_of_quiet Eq (by subst same; exact succeeds) action
    exact ⟨keeps.exact, keeps.quiet both.2⟩
  refine ⟨fun index disk found => ⟨kept.1.readBack found, fun faults error after failed => ?_⟩,
    kept.1.held⟩
  obtain ⟨durable, side, live⟩ := kept.1.live index disk found
  have stays : ∀ next later, Proceeds Eq
      ((run attempt initial actions).world.directories durable.directory) next
      ((run attempt initial actions).world.arm faults) disk durable after later →
      after.2.visibleBlocks = disk.visibleBlocks ∧ after.2.ReadBack Eq after.1 := by
    intro next later proceeds
    refine ⟨proceeds.visible, later, proceeds.side, ?_⟩
    rw [proceeds.home, proceeds.became.directory]
    exact ⟨proceeds.live.readable, proceeds.live.visible⟩
  have here : ((run attempt initial actions).world.arm faults).directories durable.directory =
      (run attempt initial actions).world.directories durable.directory := rfl
  cases failed with
  | inl forked =>
    obtain ⟨next, later, proceeds, -⟩ :=
      (ends_fork here (kept.1.sound _) side live).of_exec forked
    exact stays next later proceeds
  | inr saved =>
    obtain ⟨next, later, proceeds, -⟩ :=
      (ends_durableState here (kept.1.sound _) side live).of_exec saved
    exact stays next later proceeds

/-- A fork that fails when the overlay is a layer already, a checkpoint that cannot be synced, and
both of them once more. -/
def failedForkRun : List (DiskAction × Faults) :=
  [(.create 0 8192, []), (.write 0 0 [1], []), (.fork 0, [none, some ⟨.os 28, 0⟩]),
    (.write 0 1 [2], []), (.fork 0, []), (.write 1 0 [3], []),
    (.checkpoint 1, [none, none, none, none, none, none, none, some ⟨.os 5, 0⟩]),
    (.checkpoint 1, [])]

set_option maxRecDepth 2000 in
theorem failed_forks_leave_blocks_retried :
    ((run attempt initial (failedForkRun.take 3)).nextDisk = 1 ∧
      (run attempt initial (failedForkRun.take 7)).taken.length = 0 ∧
      (run attempt initial failedForkRun).nextDisk = 2 ∧
      (run attempt initial failedForkRun).taken.length = 1) ∧
      (∀ index disk, (run attempt initial failedForkRun).disks index = some disk →
        disk.ReadBack Eq (run attempt initial failedForkRun).world) ∧
      ∀ entry ∈ (run attempt initial failedForkRun).taken,
        entry.blocks = ((run attempt initial failedForkRun).world.directories
          entry.directory).replay entry.state.names :=
  ⟨by decide +kernel,
    fun index disk found => ((failed_forks_leave_blocks (by decide +kernel)).1 index disk found).1,
    fun entry taken => ((failed_forks_leave_blocks (by decide +kernel)).2 entry taken).2⟩

theorem Exact.run {lineage : DiskLineage} (kept : lineage.Exact SameImage)
    (quiet : lineage.world.faults = []) {actions : List (DiskAction × Faults)}
    (spared : Admitted attempt WritesSpare lineage actions) :
    (Foundation.run attempt lineage actions).Exact SameImage ∧
      (Foundation.run attempt lineage actions).world.faults = [] ∧
      (lineage.OneBlock → Admitted attempt AttemptsFresh lineage actions →
        (Foundation.run attempt lineage actions).OneBlock) := by
  induction actions generalizing lineage with
  | nil => exact ⟨kept, quiet, fun uniform _ => uniform⟩
  | cons attempted rest ih =>
    obtain ⟨action, faults⟩ := attempted
    obtain ⟨first, later⟩ := spared
    have keeps := keeps_attempt kept quiet action faults fun index block buffer same => by
      subst same
      exact ⟨fun _ => forgiving_sameImage, first⟩
    obtain ⟨exact, still, uniform⟩ := ih keeps.exact (keeps.quiet quiet) later
    exact ⟨exact, still, fun before fresh => uniform (keeps.uniform before fresh.1) fresh.2⟩

/-- Writes whose failures spare the file or the block leave memory and log in agreement: every disk
shows what its layers and its overlay hold, and a state that is restored shows what its disk showed
when it was taken. Restoring succeeds when no write hands out a block id of the directory. -/
theorem spared_writes_stay_readable {actions : List (DiskAction × Faults)}
    (spared : Admitted attempt WritesSpare initial actions) :
    (∀ index disk, (run attempt initial actions).disks index = some disk →
      disk.ReadBack SameImage (run attempt initial actions).world) ∧
    ∀ path indices result world,
      (CowDisk.restoreAll path (((run attempt initial actions).select path indices).map Taken.state)
        ∅).exec (run attempt initial actions).world = (result, world) →
      (Admitted attempt AttemptsFresh initial actions → ∃ disks, result = .ok disks) ∧
      ∀ disks, result = .ok disks → disks.map CowDisk.image =
        ((run attempt initial actions).select path indices).map fun entry =>
          imageOf entry.blocks := by
  obtain ⟨exact, quiet, uniform⟩ := exact_initial.run rfl spared
  refine ⟨fun index disk found => exact.readBack found, fun path indices result world done => ?_⟩
  obtain ⟨succeeds, -, returned⟩ := (exact.restoreAll quiet
    ((run attempt initial actions).select path indices) (fun _ member => mem_select member)
    (fun _ recorded => recorded) (knows_empty _)).of_exec done
  refine ⟨fun fresh => succeeds (uniform oneBlock_initial fresh path), fun disks ok => ?_⟩
  rw [← List.forall₂_eq_eq_eq, List.forall₂_map_left_iff, List.forall₂_map_right_iff]
  refine (returned disks ok).1.flip.imp fun disk entry same => ?_
  rw [← imageOf_visibleBlocks]
  exact same.symm

/-- A write that fails with all of its record in the overlay, one that fails with nothing of a block
that it does not change, and a checkpoint. -/
def sparedRun : List (DiskAction × Faults) :=
  [(.create 0 8192, []), (.write 0 0 [1], [none, none, some ⟨.os 28, 4096⟩]),
    (.write 0 0 [1], [some ⟨.os 28, 0⟩]), (.write 0 1 [2], []), (.checkpoint 0, [])]

set_option maxRecDepth 2000 in
theorem spared_writes_stay_readable_after_two_failures :
    (run attempt initial sparedRun).taken.length = 1 ∧
      (∀ index disk, (run attempt initial sparedRun).disks index = some disk →
        disk.ReadBack SameImage (run attempt initial sparedRun).world) ∧
      ∃ disks world, (CowDisk.restoreAll 0 (((run attempt initial sparedRun).select 0 [0]).map
          Taken.state) ∅).exec (run attempt initial sparedRun).world = (.ok disks, world) ∧
        disks.map CowDisk.image = ((run attempt initial sparedRun).select 0 [0]).map fun entry =>
          imageOf entry.blocks := by
  have spared : Admitted attempt WritesSpare initial sparedRun := by decide +kernel
  have fresh : Admitted attempt AttemptsFresh initial sparedRun := by decide +kernel
  have taken : (run attempt initial sparedRun).taken.length = 1 := by decide +kernel
  obtain ⟨readable, restored⟩ := spared_writes_stay_readable spared
  -- the run is evaluated above; what follows is about any lineage
  generalize run attempt initial sparedRun = lineage at taken readable restored ⊢
  obtain ⟨succeeds, images⟩ := restored 0 [0] _ _ rfl
  obtain ⟨disks, returned⟩ := succeeds fresh
  exact ⟨taken, readable, disks, _, Prod.ext returned rfl, images disks returned⟩

/-- A write of which nothing got into the overlay, and one of which three bytes did. -/
def lostRun : List (DiskAction × Faults) :=
  [(.create 0 8192, []), (.write 0 0 [1], [some ⟨.os 28, 0⟩]), (.checkpoint 0, []),
    (.create 1 8192, []), (.write 1 0 [2], [some ⟨.os 28, 3⟩]), (.checkpoint 1, [])]

set_option maxRecDepth 2000 in
/-- The disk shows the block that was not written, and its state is restored without it. The
state of the second disk cannot be restored. -/
theorem lost_writes_stay_visible :
    ((run attempt initial lostRun).disks 0).map (fun disk => (disk.image 0).bytes.head?) =
        some (some 1) ∧
      ((CowDisk.restoreAll 0 (((run attempt initial lostRun).select 0 [0]).map Taken.state)
        ∅).exec (run attempt initial lostRun).world).1.toOption.map
          (List.map fun disk => (disk.image 0).bytes.head?) = some [some 0] ∧
      (CowDisk.restoreAll 1 (((run attempt initial lostRun).select 1 [1]).map Taken.state) ∅).error?
        (run attempt initial lostRun).world =
        some (.invalidData "filesystem layer 1/overlay-4 ends with a partial block record") := by
  decide +kernel

end DiskLineage

end Minidox.Redox
