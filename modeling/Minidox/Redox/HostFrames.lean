import Minidox.Redox.Disk

/-!
# What the calls of a disk leave of the process

The calls of a durable disk take faults, numbers and block ids and change directories.
Whatever does not depend on these is the same after every call, whether it failed or not.
-/

set_option autoImplicit false

namespace Minidox.Redox

open Foundation Attempt
open Cache (IoError)

/-- A relation that the primitive changes of a disk's calls respect. -/
class HostFrame (relation : RedoxWorld → RedoxWorld → Prop) : Prop extends
    Std.Refl relation, IsTrans RedoxWorld relation where
  fault : ∀ world, relation world { world with faults := world.faults.tail }
  directory : ∀ world directories, relation world { world with directories := directories }
  number : ∀ world next, relation world { world with nextDurableLayerId := next }
  block : ∀ world next, relation world { world with nextBlockId := next }

variable {relation : RedoxWorld → RedoxWorld → Prop} [HostFrame relation] {α : Type}

namespace Host

theorem frame_nextFault : Moves relation nextFault := fun world => HostFrame.fault world

theorem frame_probe : Moves relation probe := by
  refine moves_bind frame_nextFault fun fault => ?_
  cases fault with
  | none => exact moves_pure _
  | some fault => exact moves_throw _

theorem frame_lookup (path : DirectoryPath) (kind : FileKind) (id : Nat) :
    Moves relation (lookup path kind id) := by
  refine moves_bind frame_probe fun _ => moves_bind moves_get fun world => ?_
  cases ((world.directories path).entries kind)[id]? with
  | none => exact moves_throw _
  | some inode => exact moves_pure _

theorem frame_modifyDirectory (path : DirectoryPath) (change : Directory → Directory) :
    Moves relation (modifyDirectory path change) :=
  moves_modify fun world => HostFrame.directory world _

theorem frame_createNew (path : DirectoryPath) (kind : FileKind) (id : Nat) :
    Moves relation (createNew path kind id) :=
  moves_bind frame_probe fun _ => moves_bind moves_get fun _ =>
    moves_bind moves_require fun _ => moves_bind (frame_modifyDirectory _ _) fun _ => moves_pure _

theorem frame_hardLink (path : DirectoryPath) (source : Nat) (kind : FileKind) (id : Nat) :
    Moves relation (hardLink path source kind id) :=
  moves_bind (frame_lookup path .overlay source) fun _ => moves_bind moves_get fun _ =>
    moves_bind moves_require fun _ => frame_modifyDirectory _ _

theorem frame_writeAll (path : DirectoryPath) (inode : Inode) (data : List UInt8) :
    Moves relation (writeAll path inode data) := by
  refine moves_bind frame_nextFault fun fault => ?_
  cases fault with
  | none => exact frame_modifyDirectory _ _
  | some fault => exact moves_bind (frame_modifyDirectory _ _) fun _ => moves_throw _

theorem frame_syncFile (path : DirectoryPath) (kind : FileKind) (id : Nat) :
    Moves relation (syncFile path kind id) :=
  moves_bind (frame_lookup path kind id) fun _ => frame_probe

theorem frame_syncDirectory : Moves relation syncDirectory :=
  moves_bind frame_probe fun _ => frame_probe

theorem frame_numbered {make : Nat → HostM α} (makes : ∀ id, Moves relation (make id))
    (fuel : Nat) : Moves relation (numbered make fuel) := by
  induction fuel with
  | zero => exact moves_throw _
  | succ fuel ih =>
    have number : Moves relation nextDurableId := fun world => HostFrame.number world _
    refine moves_bind number fun id => moves_bind (moves_settle (makes id)) fun made => ?_
    cases made with
    | ok value => exact moves_pure _
    | error error => exact moves_ite ih (moves_throw _)

theorem frame_createNumberedFile (path : DirectoryPath) (kind : FileKind) :
    Moves relation (createNumberedFile path kind) :=
  moves_bind (moves_bind moves_get fun _ => moves_pure _) fun _ =>
    frame_numbered (frame_createNew path kind) _

theorem frame_linkNumberedFile (path : DirectoryPath) (kind : FileKind) (source : Nat) :
    Moves relation (linkNumberedFile path kind source) :=
  moves_bind (moves_bind moves_get fun _ => moves_pure _) fun _ =>
    moves_bind (frame_numbered (frame_hardLink path source kind) _) fun _ => moves_pure _

end Host

def Behind {Inner : Type} (relation : RedoxWorld → RedoxWorld → Prop)
    (before after : RedoxWorld × Inner) : Prop := relation before.1 after.1

instance {Inner : Type} : Std.Refl (@Behind Inner relation) :=
  ⟨fun pair => Std.Refl.refl pair.1⟩

instance {Inner : Type} : IsTrans (RedoxWorld × Inner) (Behind relation) :=
  ⟨fun _ _ _ before after => IsTrans.trans (r := relation) _ _ _ before after⟩

namespace DurableCowDisk

omit [HostFrame relation] in
theorem frame_host {operation : HostM α} (moves : Moves relation operation) :
    Moves (Behind relation) (host operation) := by
  intro pair
  unfold host
  rw [ends_within]
  exact moves pair.1

theorem frame_modify (change : RedoxWorld × DurableCowDisk → RedoxWorld × DurableCowDisk)
    (same : ∀ pair, (change pair).1 = pair.1) :
    Moves (Behind relation) (modify change : DurableM Unit) := by
  refine moves_modify fun pair => ?_
  unfold Behind
  rw [same pair]
  exact Std.Refl.refl _

theorem frame_fork (sealOverlay : Bool) : Moves (Behind relation) (fork sealOverlay) := by
  have sealing : Moves (Behind relation) sealLayer :=
    moves_bind moves_get fun _ => moves_bind (frame_host (Host.frame_linkNumberedFile _ _ _))
      fun _ => frame_modify _ fun _ => rfl
  have renewing : Moves (Behind relation) renewOverlay :=
    moves_bind moves_get fun _ => moves_bind (frame_host (Host.frame_createNumberedFile _ _))
      fun _ => frame_modify _ fun _ => rfl
  exact moves_bind (moves_onlyIf sealing) fun _ => moves_bind moves_get fun _ =>
    moves_bind (moves_onlyIf renewing) fun _ =>
      moves_bind (frame_host (Host.frame_createNumberedFile _ _)) fun _ => moves_pure _

theorem frame_append (address : Nat) (block : Block) :
    Moves (Behind relation) (append address block) :=
  moves_bind moves_get fun _ => moves_bind (frame_host (Host.frame_writeAll _ _ _)) fun _ =>
    moves_bind (frame_host (Host.frame_writeAll _ _ _)) fun _ =>
      frame_host (Host.frame_writeAll _ _ _)

theorem frame_linkLayer (directory : DirectoryPath) (overlayId : Nat) :
    Moves relation (linkLayer directory overlayId) :=
  moves_bind (Host.frame_linkNumberedFile _ _ _) fun _ => moves_bind (Host.frame_syncFile _ _ _)
    fun _ => moves_pure _

theorem frame_checkpoint (size : Nat) (sealOverlay : Bool) :
    Moves (Behind relation) (checkpoint size sealOverlay) := by
  have layer : ∀ disk : DurableCowDisk, Moves relation (disk.checkpointLayer sealOverlay) :=
    fun disk => moves_ite (moves_bind (frame_linkLayer _ _) fun _ => moves_pure _) (moves_pure _)
  exact moves_bind moves_get fun _ =>
    moves_bind (frame_host (moves_forM fun _ _ => Host.frame_syncFile _ _ _)) fun _ =>
    moves_bind (frame_host Host.frame_probe) fun _ => moves_bind (frame_host (layer _)) fun _ =>
    moves_bind (frame_host (Host.frame_createNumberedFile _ _)) fun _ =>
    moves_bind (frame_host Host.frame_syncDirectory) fun _ =>
    moves_bind (frame_modify _ fun _ => rfl) fun _ => moves_pure _

end DurableCowDisk

namespace CowDisk

omit [HostFrame relation] in
theorem frame_onDurable (durable : DurableCowDisk) (translate : IoError → IoError)
    {operation : DurableM α} (moves : Moves (Behind relation) operation) :
    Moves (Behind relation) (onDurable durable translate operation) := by
  intro pair
  unfold onDurable
  rw [ends_within]
  exact moves (pair.1, durable)

theorem frame_sealWrites : Moves (Behind relation)
    (modify fun (world, disk) => (world, disk.sealWrites) : DiskM Unit) :=
  moves_modify fun pair => Std.Refl.refl pair.1

theorem frame_fork : Moves (Behind relation) fork := by
  refine moves_bind moves_get fun pair => ?_
  obtain ⟨world, disk⟩ := pair
  have rest : ∀ childDurable, Moves (Behind relation) (do
      modify fun (world, disk) => (world, disk.sealWrites)
      let (_, disk) ← get
      pure { size := disk.size, base := disk.base, writes := ∅, durable := childDurable } :
        DiskM CowDisk) :=
    fun _ => moves_bind frame_sealWrites fun _ => moves_bind moves_get fun _ => moves_pure _
  cases side : disk.durable with
  | none =>
    simp only [side]
    exact moves_bind (moves_pure none) rest
  | some durable =>
    simp only [side]
    exact moves_bind (frame_onDurable durable id (DurableCowDisk.frame_fork _)) fun _ =>
      moves_bind (moves_pure _) rest

theorem frame_durableState : Moves (Behind relation) durableState := by
  refine moves_bind moves_get fun pair => ?_
  obtain ⟨world, disk⟩ := pair
  cases side : disk.durable with
  | none =>
    simp only [side]
    exact moves_throw _
  | some durable =>
    simp only [side]
    exact moves_bind (frame_onDurable durable id (DurableCowDisk.frame_checkpoint _ _)) fun _ =>
      moves_bind frame_sealWrites fun _ => moves_pure _

theorem frame_writeBlock (address : Nat) (chunk : List UInt8) :
    Moves (Behind relation) (writeBlock address chunk) := by
  intro pair
  obtain ⟨world, disk⟩ := pair
  simp only [writeBlock, ends_bind, ends_get, ends_set]
  have block : relation world
      { world with nextBlockId := Word64.wrappingAdd world.nextBlockId 1 } :=
    HostFrame.block world _
  cases disk.durable with
  | none => exact block
  | some durable =>
    have append : ∀ block, Moves (Behind relation) (DurableCowDisk.append address block) :=
      DurableCowDisk.frame_append address
    refine (frame_onDurable durable _ (append _) _).mono ?_
    intro _ after moved
    exact IsTrans.trans (r := relation) _ _ _ block moved

theorem frame_writeAt (block : Nat) (buffer : List UInt8) :
    Moves (Behind relation) (writeAt block buffer) :=
  moves_bind moves_get fun _ => moves_bind (moves_ofExcept _) fun _ =>
    moves_bind (moves_forM fun _ _ => frame_writeBlock _ _) fun _ => moves_pure _

end CowDisk

/-!
## Two such relations
-/

def StaysQuiet (before after : RedoxWorld) : Prop := before.faults = [] → after.faults = []

instance : HostFrame StaysQuiet where
  refl _ quiet := quiet
  trans _ _ _ before after quiet := after (before quiet)
  fault world quiet := by rw [quiet]; rfl
  directory _ _ quiet := quiet
  number _ _ quiet := quiet
  block _ _ quiet := quiet

def SameIdentityCounters (before after : RedoxWorld) : Prop :=
  after.nextFileObjectId = before.nextFileObjectId ∧ after.nextPageVersion = before.nextPageVersion

instance : HostFrame SameIdentityCounters where
  refl _ := ⟨rfl, rfl⟩
  trans _ _ _ before after := ⟨after.1.trans before.1, after.2.trans before.2⟩
  fault _ := ⟨rfl, rfl⟩
  directory _ _ := ⟨rfl, rfl⟩
  number _ _ := ⟨rfl, rfl⟩
  block _ _ := ⟨rfl, rfl⟩

end Minidox.Redox
