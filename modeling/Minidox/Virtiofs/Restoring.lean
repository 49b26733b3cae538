import Minidox.Virtiofs.Hosting
import Minidox.Virtiofs.Strays

/-!
# Where devices start

`VirtioFsBranch::restore_lineage`: the devices of a lineage are made again from their
snapshots. A run of the devices begins with a new file system, or with a restored lineage.
The file systems that `RedoxBranch::restore_lineage` gives are those that the cache is made
over.
-/

set_option autoImplicit false

namespace Minidox.Virtiofs

open Foundation Attempt
open Cache
open Std (ExtTreeMap)

variable {World Store Identity Filesystem : Type} [Ord Identity]
  [ForkableNodeStore World Store Identity]

namespace VirtioFsBranch

def ofSnapshot (snapshot : VirtioFsSnapshot Filesystem) (branch : CacheBranchId) :
    VirtioFsBranch :=
  { lineage := snapshot.lineage
    branch
    window := none
    specs := TreeMap.insertAll ∅ snapshot.mappings
    active := ∅ }

/-- A device for each of the snapshots. The first one that cannot be made ends it. -/
def fromSnapshots : List (VirtioFsSnapshot Filesystem × CacheBranchId) →
    BackendM World Store Identity (List VirtioFsBranch)
  | [] => pure []
  | (snapshot, branch) :: rest => do
    let made ← fromParts snapshot.lineage branch (TreeMap.insertAll ∅ snapshot.mappings)
    let others ← fromSnapshots rest
    pure (made :: others)

theorem ends_fromSnapshots {device : Device World Store Identity}
    (snapshots : List (VirtioFsSnapshot Filesystem × CacheBranchId)) :
    Ends (fromSnapshots snapshots) device fun result _ => ∀ devices, result = .ok devices →
      devices = snapshots.map fun snapshot => ofSnapshot snapshot.1 snapshot.2 := by
  induction snapshots generalizing device with
  | nil =>
    rintro devices ⟨⟩
    rfl
  | cons first rest ih =>
    obtain ⟨snapshot, branch⟩ := first
    simp only [fromSnapshots, ends_bind]
    refine (ends_fromParts snapshot.lineage branch _ device).mono fun result middle made => ?_
    cases result with
    | error error => exact not_ok
    | ok state =>
      refine ih.mono fun result after others => ?_
      cases result with
      | error error => exact not_ok
      | ok devices =>
        rintro all ⟨⟩
        rw [List.map_cons, ← others devices rfl, made state rfl]
        rfl

end VirtioFsBranch

namespace Devices

/-- `restore_lineage`, after the file systems have been restored. Nothing of the device that
the attempt starts from is used. -/
def restoreLineage (cacheId nextPageId : Nat) (world : World) (faults : Faults)
    (stores : List Store) (snapshots : List (VirtioFsSnapshot Filesystem)) :
    Except BackendError (Devices World Store Identity) :=
  match SharedPageCache.restore cacheId nextPageId world faults stores with
  | .error error => .error ⟨"restore shared filesystem cache", .cache error⟩
  | .ok (cache, branches) =>
    match (VirtioFsBranch.fromSnapshots (snapshots.zip branches)).exec
      { cache, state := ⟨0, 0, none, ∅, ∅⟩, mmaps := [] } with
    | (.error error, _) => .error error
    | (.ok devices, after) => .ok
        { cache := after.cache
          mmaps := after.mmaps
          devices := ExtTreeMap.ofList (devices.mapIdx Prod.mk)
          next := devices.length }

end Devices

variable [Std.TransOrd Identity] [Std.LawfulEqOrd Identity] [DecidableEq Identity]
  [FileView Store] [IdentityLedger World Identity] [StoreLedger World Store]
  [LawfulForkableStore World Store Identity] [FileMaker World Store]
  [LawfulFileMaker World Store Identity]

def Saved (snapshot : VirtioFsSnapshot Filesystem) : Prop :=
  ∀ entry ∈ snapshot.mappings, Placed entry.1 ∧ entry.2.fileOffset % pageSize = 0

namespace VirtioFsBranch

open Device

theorem strays_fromSnapshots {Holds : List DaxPageMapping → Device World Store Identity → Prop}
    [OverCache Holds] (snapshots : List (VirtioFsSnapshot Filesystem × CacheBranchId)) :
    Moves (Straying Holds)
      (fromSnapshots snapshots : BackendM World Store Identity (List VirtioFsBranch)) := by
  induction snapshots with
  | nil => exact moves_pure []
  | cons first rest ih =>
    exact moves_bind (moves_fromParts _ _ _) fun _ => moves_bind ih fun _ => moves_pure _

end VirtioFsBranch

namespace Devices

/-- The devices of a new file system, or those of a lineage that has been restored from what
its devices saved. -/
inductive Begun : Devices World Store Identity → Prop where
  | create {world : World} {store : Store} (coherent : Coherent world [store])
      (lineage nextPageId : Nat) (faults : Faults) :
      Begun (create lineage nextPageId world faults store)
  | restore {world : World} {stores : List Store} (coherent : Coherent world stores)
      {cacheId nextPageId : Nat} {faults : Faults} {Filesystem : Type}
      {snapshots : List (VirtioFsSnapshot Filesystem)}
        (saved : ∀ snapshot ∈ snapshots, Saved snapshot)
      {system : Devices World Store Identity}
      (restored : restoreLineage cacheId nextPageId world faults stores snapshots = .ok system) :
      Begun system

structure Fresh (copies : CacheBranchId → Option Files) (state : VirtioFsBranch) : Prop where
  live : ∃ files, copies state.branch = some files
  window : state.window = none
  active : state.active = ∅
  specs : ∀ (offset : Nat) (spec : MappingSpec), state.specs[offset]? = some spec →
    Placed offset ∧ spec.fileOffset % pageSize = 0

structure Making (held : List DaxPageMapping) (device : Device World Store Identity) : Prop where
  good : SharedPageCache.Good held device.cache
  active : device.state.active = ∅
  mmaps : device.mmaps = []

instance : Device.OverCache
    (Making : List DaxPageMapping → Device World Store Identity → Prop) where
  good making := by
    rw [making.active, TreeMap.values_empty, List.append_nil]
    exact making.good
  setCache making good _ := by
    rw [making.active, TreeMap.values_empty, List.append_nil] at good
    exact ⟨good, making.active, making.mmaps⟩

theorem ends_fromSnapshots_making {device : Device World Store Identity} (making : Making [] device)
    (snapshots : List (VirtioFsSnapshot Filesystem × CacheBranchId)) :
    Ends (VirtioFsBranch.fromSnapshots snapshots) device fun result after =>
      (∀ devices, result = .ok devices →
        devices = snapshots.map fun snapshot => VirtioFsBranch.ofSnapshot snapshot.1 snapshot.2) ∧
      ∃ strays, Making strays after ∧ Outlived device.cache.copies after.cache.copies := by
  have moves : Moves (Device.Straying Making) (VirtioFsBranch.fromSnapshots snapshots :
      BackendM World Store Identity (List VirtioFsBranch)) :=
    VirtioFsBranch.strays_fromSnapshots snapshots
  refine ((VirtioFsBranch.ends_fromSnapshots snapshots).and (moves device)).mono ?_
  rintro result after ⟨listed, strays⟩
  obtain ⟨strays, makingAfter, outlived, -⟩ := strays [] making
  exact ⟨listed, strays ++ [], makingAfter, outlived⟩

theorem getElem?_numbered (devices : List VirtioFsBranch) (index : Nat) :
    (ExtTreeMap.ofList (devices.mapIdx Prod.mk) : ExtTreeMap Nat VirtioFsBranch)[index]? =
      devices[index]? := by
  have numbered : (ExtTreeMap.ofList (devices.mapIdx fun index state => (index + 0, state)) :
      ExtTreeMap Nat VirtioFsBranch)[index]? = _ :=
    TreeMap.getElem?_ofList_mapIdx (fun state => state) 0 index
  rw [if_neg (Nat.not_lt_zero _), Option.map_id', Nat.sub_zero] at numbered
  exact numbered

theorem lookup_restored {count index : Nat} {snapshots : List (VirtioFsSnapshot Filesystem)}
    {state : VirtioFsBranch}
    (found : (ExtTreeMap.ofList
      (((snapshots.zip ((List.range count).map fun index => index + 1)).map
      fun snapshot => VirtioFsBranch.ofSnapshot snapshot.1 snapshot.2).mapIdx
        Prod.mk) : ExtTreeMap Nat VirtioFsBranch)[index]? = some state) :
    index < count ∧ ∃ snapshot ∈ snapshots,
      state = VirtioFsBranch.ofSnapshot snapshot (index + 1) := by
  rw [getElem?_numbered, List.getElem?_map] at found
  obtain ⟨⟨snapshot, branch⟩, located, rfl⟩ := Option.map_eq_some_iff.mp found
  obtain ⟨there, numbered⟩ := List.getElem?_zip_eq_some.mp located
  rw [List.getElem?_map] at numbered
  obtain ⟨position, inRange, rfl⟩ := Option.map_eq_some_iff.mp numbered
  obtain ⟨inside, rfl⟩ := List.getElem?_eq_some_iff.mp inRange
  rw [List.length_range] at inside
  exact ⟨inside, snapshot, List.mem_of_getElem? there, by rw [List.getElem_range]⟩

theorem fresh_ofSnapshot {copies : CacheBranchId → Option Files} {branch : CacheBranchId}
    {snapshot : VirtioFsSnapshot Filesystem} (saved : Saved snapshot)
    (live : ∃ files, copies branch = some files) :
    Fresh copies (VirtioFsBranch.ofSnapshot snapshot branch) := by
  refine ⟨live, rfl, rfl, fun offset spec found => ?_⟩
  cases TreeMap.mem_or_of_getElem?_insertAll found with
  | inl member => exact saved _ member
  | inr empty =>
    rw [ExtTreeMap.getElem?_empty] at empty
    cases empty

variable {Fits : (CacheBranchId → Option Files) → VirtioFsBranch → Prop}

theorem hosted_restored (fits : ∀ copies state, Fresh copies state → Fits copies state)
    {world : World} {stores : List Store} {cacheId nextPageId : Nat} {faults : Faults}
    {snapshots : List (VirtioFsSnapshot Filesystem)} {system : Devices World Store Identity}
    (coherent : Coherent world stores) (saved : ∀ snapshot ∈ snapshots, Saved snapshot)
    (restored : restoreLineage cacheId nextPageId world faults stores snapshots = .ok system) :
    ∃ strays, Hosted Fits strays system ∧ system.mmaps = [] := by
  unfold restoreLineage SharedPageCache.restore at restored
  split at restored
  next => cases restored
  next cache branches made =>
    split at made
    next => cases made
    split at made
    next => cases made
    cases made
    have begins : Making [] ({
        cache := SharedPageCache.ofStores cacheId nextPageId world faults stores
        state := ⟨0, 0, none, ∅, ∅⟩
        mmaps := [] } : Device World Store Identity) :=
      ⟨SharedPageCache.good_ofStores coherent cacheId nextPageId faults, rfl, rfl⟩
    have ends := ends_fromSnapshots_making begins
      (snapshots.zip ((List.range stores.length).map fun index => index + 1))
    rw [Ends] at ends
    split at restored
    next => cases restored
    next devices after executed =>
      rw [executed] at ends
      obtain ⟨listed, strays, making, outlived⟩ := ends
      cases restored
      obtain rfl := listed devices rfl
      refine ⟨strays, ⟨?_, ?_, ?_, ?_⟩, making.mmaps⟩
      · rw [heldBy_eq_nil, List.append_nil]
        · exact making.good
        · intro index state found
          obtain ⟨-, snapshot, -, rfl⟩ := lookup_restored found
          rfl
      · intro index state found
        obtain ⟨inside, snapshot, member, rfl⟩ := lookup_restored found
        have live : (SharedPageCache.ofStores cacheId nextPageId world faults stores :
            SharedPageCache World Store Identity).branches[index + 1]? = _ :=
          SharedPageCache.branches_ofStores cacheId nextPageId world faults stores (index + 1)
        rw [if_neg (Nat.succ_ne_zero index), Nat.add_sub_cancel,
          List.getElem?_eq_getElem inside] at live
        obtain ⟨later, liveLater, -⟩ := outlived _ _
          (Lineage.copies_of_found (SharedPageCache.branches_lineageOf live))
        exact fits _ _ (fresh_ofSnapshot (saved snapshot member) ⟨later, liveLater⟩)
      · intro left right leftState rightState foundLeft foundRight same
        obtain ⟨-, _, -, rfl⟩ := lookup_restored foundLeft
        obtain ⟨-, _, -, rfl⟩ := lookup_restored foundRight
        exact Nat.succ.inj same
      · intro index state found
        rw [getElem?_numbered] at found
        exact (List.getElem?_eq_some_iff.mp found).1

/-- Whatever holds of a device that has done nothing holds of the devices that a run begins
with. -/
theorem Begun.hosted (fits : ∀ copies state, Fresh copies state → Fits copies state)
    {system : Devices World Store Identity} (begun : Begun system) :
    ∃ strays, Hosted Fits strays system ∧ system.mmaps = [] := by
  cases begun with
  | create coherent lineage nextPageId faults =>
    refine ⟨[], hosted_create coherent lineage nextPageId faults [] fun copies files live =>
      fits _ _ ⟨⟨files, live⟩, rfl, rfl, fun offset spec found => ?_⟩, rfl⟩
    rw [ExtTreeMap.getElem?_empty] at found
    cases found
  | restore coherent saved restored => exact hosted_restored fits coherent saved restored

end Devices

end Minidox.Virtiofs
