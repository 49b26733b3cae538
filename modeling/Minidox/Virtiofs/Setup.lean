import Minidox.Cache.Shared.FailedCalls
import Minidox.Virtiofs.AnyRun
import Minidox.Virtiofs.Properties

/-!
# Mapping a range into the window

`setup_mapping` enters the specs of a range and activates those whose page starts inside the
file. When a page fails, the pages before it are given back and the specs are taken out again.
-/

set_option autoImplicit false

namespace Minidox.Virtiofs

open Foundation Attempt
open Cache
open Std (ExtTreeMap)

variable {World Store Identity Filesystem : Type} [Ord Identity] [Std.TransOrd Identity]
  [ForkableNodeStore World Store Identity] [FileView Store] [IdentityLedger World Identity]
  [StoreLedger World Store]

/-!
## What holds on a host whose `mmap` does not fail
-/

namespace Device

variable {others : List DaxPageMapping} {device : Device World Store Identity} {Error α : Type}

instance : OverCache (Attached : List DaxPageMapping → Device World Store Identity → Prop) where
  good attached := attached.good
  setCache attached good outlived := ⟨good, attached.table.outlive outlived, attached.mmaps⟩

theorem straying_of_remaps {operation : Attempt (Device World Store Identity) Error α}
    (moves : ∀ others, Moves (Remaps others) operation) : Moves (Straying Attached) operation := by
  intro device others attached
  obtain ⟨attachedAfter, outlived, same⟩ := moves others device attached
  exact ⟨[], attachedAfter, outlived, by rw [same]⟩

end Device

namespace Devices

structure Fitted (copies : CacheBranchId → Option Files) (state : VirtioFsBranch) : Prop where
  table : Table copies state
  listed : Device.Listed copies state

theorem lasting_fitted : Lasting Fitted where
  live fitted := fitted.table.live
  outlive outlived fitted :=
    ⟨lasting_table.outlive outlived fitted.table, lasting_listed.outlive outlived fitted.listed⟩
  congr same fitted :=
    ⟨lasting_table.congr same fitted.table, lasting_listed.congr same fitted.listed⟩
  child fitted made :=
    ⟨lasting_table.child fitted.table made, lasting_listed.child fitted.listed made⟩

/-- What holds when `mmap` does not fail, whatever page files do. -/
structure Tabled (system : Devices World Store Identity) : Prop where
  hosted : ∃ strays, Hosted Fitted strays system
  mmaps : system.mmaps = []

theorem Tabled.attached {system : Devices World Store Identity} (tabled : Tabled system)
    {index : Nat} {state : VirtioFsBranch} (found : system.devices[index]? = some state) :
    ∃ others, Attached others (system.device state) ∧
      Device.Counted others (system.device state) := by
  obtain ⟨strays, hosted⟩ := tabled.hosted
  have fitted := hosted.fits index state found
  have good := hosted.good_device found
  exact ⟨_, ⟨good, fitted.table, tabled.mmaps⟩, ⟨fitted.listed, good⟩⟩

theorem Fresh.table {copies : CacheBranchId → Option Files} {state : VirtioFsBranch}
    (fresh : Fresh copies state) : Table copies state :=
  .ofInactive fresh.live (fun offset spec listed => (fresh.specs offset spec listed).1.aligned)
    fun _ => by rw [fresh.active, ExtTreeMap.getElem?_empty]

end Devices

/-!
## The request
-/

namespace InProcessFsBackend

open Device

/-- What a request must be like to be granted. -/
structure Grantable (state : VirtioFsBranch) (fileOffset len windowOffset : Nat) : Prop where
  positive : len ≠ 0
  whole : len % pageSize = 0
  fileAligned : fileOffset % pageSize = 0
  windowAligned : windowOffset % pageSize = 0
  inWindow : ∃ address windowLen, state.window = some (address, windowLen) ∧
    windowOffset + len ≤ windowLen
  free : ∀ offset ∈ state.specs, offset + pageSize ≤ windowOffset ∨ windowOffset + len ≤ offset

def specAt (node fileOffset : Nat) (writable : Bool) (windowOffset offset : Nat) : MappingSpec :=
  ⟨node, fileOffset + (offset - windowOffset), writable⟩

/-- Exactly the specs of the range are new, and of its pages those are active that start
inside the file. -/
structure Installed (before after : Device World Store Identity) (node fileOffset len : Nat)
    (writable : Bool) (windowOffset : Nat) : Prop where
  state : after.state =
    { before.state with specs := after.state.specs, active := after.state.active }
  specs : ∀ offset, after.state.specs[offset]? =
    if offset ∈ pagesIn windowOffset len then
      some (specAt node fileOffset writable windowOffset offset)
    else before.state.specs[offset]?
  others : ∀ offset ∉ pagesIn windowOffset len,
    after.state.active[offset]? = before.state.active[offset]?
  activated : ∀ offset ∈ pagesIn windowOffset len, offset ∈ after.state.active ↔
    InFile before.cache.copies before.state.branch
      (specAt node fileOffset writable windowOffset offset)
  mapped : ∀ offset ∈ pagesIn windowOffset len, ∀ mapping,
    after.state.active[offset]? = some mapping →
    mapping.branch = before.state.branch ∧
    mapping.key = (node, fileOffset + (offset - windowOffset)) ∧ mapping.flags.write = writable

/-- The sums of the request and of the activation of its pages are 64-bit words, once the
checks before them have passed. The last one is the address of a page on the host. -/
structure SumsFit (state : VirtioFsBranch) (fileOffset len windowOffset : Nat) : Prop where
  listed : ∀ offset ∈ state.specs, offset + pageSize < Word64.bound
  window : ∀ stop, Word64.checkedAdd windowOffset len = some stop → len % pageSize = 0 →
    ∀ delta ∈ pageOffsets 0 len, windowOffset + delta + pageSize < Word64.bound
  file : ∀ stop, Word64.checkedAdd fileOffset len = some stop →
    ∀ delta ∈ pageOffsets 0 len, fileOffset + delta < Word64.bound
  host : ∀ address windowLen, state.window = some (address, windowLen) →
    address + windowLen ≤ Word64.bound → windowOffset + len ≤ windowLen →
    ∀ delta ∈ pageOffsets 0 len, address + (windowOffset + delta) < Word64.bound

variable {others : List DaxPageMapping} {device : Device World Store Identity}

theorem sumsFit (counted : Counted others device) (fileOffset len windowOffset : Nat) :
    SumsFit device.state fileOffset len windowOffset := by
  refine ⟨fun offset listed => ?_, fun stop added whole delta member => ?_,
    fun stop added delta member => ?_, fun address windowLen _ bounded inside delta member => ?_⟩
  · obtain ⟨spec, found⟩ := TreeMap.exists_of_mem listed
    exact (counted.specs offset spec found).1.bounded
  · have bounded := Word64.checkedAdd_lt added
    rw [Word64.checkedAdd_eq_some added] at bounded
    have last := (add_le_of_mem_pageOffsets (by rw [Nat.sub_zero]; exact whole) member).2
    omega
  · have bounded := Word64.checkedAdd_lt added
    rw [Word64.checkedAdd_eq_some added] at bounded
    obtain ⟨index, rfl, last⟩ := mem_pageOffsets.mp member
    omega
  · obtain ⟨index, rfl, last⟩ := mem_pageOffsets.mp member
    omega

theorem not_overlaps_iff {specs : ExtTreeMap Nat MappingSpec} {windowOffset stop : Nat} :
    ¬ overlaps specs windowOffset stop ↔
      ∀ offset ∈ specs, offset + pageSize ≤ windowOffset ∨ stop ≤ offset := by
  rw [overlaps, TreeMap.any_iff]
  constructor
  · intro free offset listed
    obtain ⟨spec, found⟩ := TreeMap.exists_of_mem listed
    refine Decidable.byContradiction fun meets => free ⟨offset, spec, found, ?_⟩
    simp only [Bool.and_eq_true, Bool.or_eq_true, decide_eq_true_eq]
    omega
  · rintro apart ⟨offset, spec, found, meets⟩
    simp only [Bool.and_eq_true, Bool.or_eq_true, decide_eq_true_eq] at meets
    have := apart offset (TreeMap.mem_of_getElem? found)
    unfold pageSize at *
    omega

theorem getElem?_insertAll_newSpecs (specs : ExtTreeMap Nat MappingSpec) (node : NodeId)
    (fileOffset len : Nat) (writable : Bool) (windowOffset offset : Nat) :
    (TreeMap.insertAll specs (newSpecs node fileOffset len writable windowOffset))[offset]? =
      if offset ∈ pagesIn windowOffset len then
        some (specAt node fileOffset writable windowOffset offset)
      else specs[offset]? := by
  split
  next member =>
    refine TreeMap.getElem?_insertAll_of_mem ?_ ?_
    · rw [newSpecs_offsets]
      exact pagesIn_nodup windowOffset len
    · obtain ⟨delta, listed, rfl⟩ := List.mem_map.mp member
      refine List.mem_map.mpr ⟨delta, listed, ?_⟩
      rw [specAt, Nat.add_sub_cancel_left]
  next absent =>
    refine TreeMap.getElem?_insertAll_of_not_mem ?_
    rw [newSpecs_offsets]
    exact absent

def withSpecs (device : Device World Store Identity) (inserted : List (Nat × MappingSpec)) :
    Device World Store Identity :=
  { device with state :=
      { device.state with specs := TreeMap.insertAll device.state.specs inserted } }

variable [Std.LawfulEqOrd Identity] [DecidableEq Identity]
  [LawfulForkableStore World Store Identity]

/-- A request is granted as a whole, or the device and what its branches have are as before. -/
def ExactOrNothing (device : Device World Store Identity) (inode fileOffset len : Nat)
    (writable : Bool) (windowOffset : Nat) : Prop :=
  Ends (setupMapping inode fileOffset len writable windowOffset) device fun result after =>
    match result with
    | .ok _ => Grantable device.state fileOffset len windowOffset ∧
        Installed device after inode fileOffset len writable windowOffset
    | .error _ => after.state = device.state ∧ after.cache.copies = device.cache.copies ∧
        ∀ branch, after.cache.activePages branch = device.cache.activePages branch

/-- The pages of the new specs are activated, or none of them is. -/
theorem ends_activateNew (attached : Attached others device) {node fileOffset len : Nat}
    {writable : Bool} {windowOffset : Nat} (aligned : windowOffset % pageSize = 0)
    (fresh : ∀ offset ∈ pagesIn windowOffset len, device.state.specs[offset]? = none) :
    Ends (activateOffsets (pagesIn windowOffset len))
      (withSpecs device (newSpecs node fileOffset len writable windowOffset))
      fun result after => Attached others after ∧ after.cache.copies = device.cache.copies ∧
        (result = .ok () → Installed device after node fileOffset len writable windowOffset) ∧
        ∀ error, result = .error error → after.state =
          (withSpecs device (newSpecs node fileOffset len writable windowOffset)).state := by
  have offsets := newSpecs_offsets node fileOffset len writable windowOffset
  have installed : Attached others
      (withSpecs device (newSpecs node fileOffset len writable windowOffset)) := by
    refine Attached.insertSpecs attached (fun offset member => ?_) (by rwa [offsets])
    rw [(mem_newSpecs member).2.2, aligned]
  refine (ends_activateOffsets installed _).mono fun result after ends => ?_
  obtain ⟨attachedAfter, copies, state, exactly, lost⟩ := ends
  have specs : ∀ offset : Nat, after.state.specs[offset]? =
      if offset ∈ pagesIn windowOffset len then
        some (specAt node fileOffset writable windowOffset offset)
      else device.state.specs[offset]? := by
    intro offset
    rw [state]
    exact getElem?_insertAll_newSpecs _ node fileOffset len writable windowOffset offset
  have branch : after.state.branch = device.state.branch := by rw [state]; rfl
  refine ⟨attachedAfter, copies, fun returned => ?_, fun error failed => ?_⟩
  · obtain ⟨outside, inside⟩ := exactly (pagesIn_nodup windowOffset len)
      (fun offset member => attached.table.inactive (fresh offset member)) returned
    refine ⟨by rw [state]; rfl, specs, outside, fun offset member => ?_,
      fun offset member mapping active => ?_⟩
    · obtain ⟨spec, listed, activated⟩ := inside offset member
      have same := getElem?_insertAll_newSpecs device.state.specs node fileOffset len writable
        windowOffset offset
      rw [if_pos member] at same
      cases listed.symm.trans same
      exact activated
    · obtain ⟨spec, entry⟩ := attachedAfter.table.entry offset mapping active
      have listed := entry.listed
      rw [specs, if_pos member] at listed
      cases listed
      refine ⟨entry.branch.trans branch, entry.key, ?_⟩
      rw [entry.flags, MappingSpec.write_flags]
      rfl
  · rw [state, lost error failed]

theorem exactOrNothing (attached : Attached others device) (inode fileOffset len : Nat)
    (writable : Bool) (windowOffset : Nat) :
    ExactOrNothing device inode fileOffset len writable windowOffset := by
  have unchanged : device.state = device.state ∧ device.cache.copies = device.cache.copies ∧
      ∀ branch, device.cache.activePages branch = device.cache.activePages branch :=
    ⟨rfl, rfl, fun _ => rfl⟩
  simp only [ExactOrNothing, setupMapping, modifyState, ends_bind, ends_get, ends_modify,
      ends_settle]
  refine ends_require.mpr ⟨fun shape => ?_, fun _ => unchanged⟩
  refine ends_orThrow (fun window found => ?_) fun _ => unchanged
  refine ends_orThrow (fun stop inside => ?_) fun _ => unchanged
  refine ends_orThrow (fun _ _ => ?_) fun _ => unchanged
  refine ends_require.mpr ⟨fun free => ?_, fun _ => unchanged⟩
  rw [ends_ofExcept]
  cases converted : nodeId inode with
  | error error => exact unchanged
  | ok node =>
    obtain ⟨added, within⟩ := Option.filter_eq_some_iff.mp inside
    obtain rfl := Word64.checkedAdd_eq_some added
    obtain rfl := nodeId_eq_ok converted
    have grantable : Grantable device.state fileOffset len windowOffset :=
      ⟨by omega, by omega, by omega, by omega,
        ⟨window.1, window.2, found, of_decide_eq_true within⟩, not_overlaps_iff.mp free⟩
    have offsets := newSpecs_offsets node fileOffset len writable windowOffset
    have fresh : ∀ offset ∈ pagesIn windowOffset len, device.state.specs[offset]? = none := by
      intro offset member
      rw [← offsets] at member
      obtain ⟨lower, upper, -⟩ := mem_newSpecs member
      exact not_overlaps free lower upper
    simp only [offsets]
    refine (ends_activateNew attached grantable.windowAligned fresh).mono
      fun result after ends => ?_
    obtain ⟨attachedAfter, copies, installed, kept⟩ := ends
    cases result with
    | ok value => exact ⟨grantable, installed rfl⟩
    | error error =>
      have erased : { after.state with
          specs := TreeMap.eraseAll after.state.specs (pagesIn windowOffset len) } =
          device.state := by
        rw [kept error rfl, ← offsets]
        simp only [withSpecs, TreeMap.eraseAll_insertAll (offsets ▸ fresh)]
      have active : after.state.active = device.state.active := by rw [kept error rfl]; rfl
      have good := attachedAfter.good
      rw [active] at good
      exact ⟨erased, copies, attached.good.activePages_of_copies good copies⟩

end InProcessFsBackend

/-!
## Every run
-/

variable [Std.LawfulEqOrd Identity] [DecidableEq Identity]
  [LawfulForkableStore World Store Identity] [FileMaker World Store]
  [LawfulFileMaker World Store Identity] [DurableStore World Store Filesystem]
  [LawfulDurableStore World Store Identity]

namespace Device

variable {others : List DaxPageMapping} {device : Device World Store Identity}

theorem attached_serve (attached : Attached others device) {request : Request}
    (stays : request ≠ .drop) : Answered (Strayed Attached others device) device
      (device.serve request : Device World Store Identity × Answer Filesystem) := by
  have kept : device.Served request → Strayed Attached others device
      (device.serve request : Device World Store Identity × Answer Filesystem).1 :=
    fun served => ⟨[], (kept_serve attached served stays).reaches attached⟩
  refine answered_serve_of stays (fun _ => ?_) ((VirtioFsBranch.ends_fork attached).mono
    fun _ _ ends => ⟨⟨[], ends.1.follows attached⟩, ends.2⟩)
  cases request with
  | read inode offset capacity =>
    exact strayed_answer attached (InProcessFsBackend.strays_read inode offset capacity)
  | write inode offset data =>
    exact strayed_answer attached (InProcessFsBackend.strays_write inode offset data)
  | hostRead node offset len =>
    exact strayed_answer attached (VirtioFsBranch.strays_read node offset len)
  | hostWrite node offset bytes =>
    exact strayed_answer attached (VirtioFsBranch.strays_write_of
      (straying_of_remaps fun _ => moves_suspendMappings)
      (straying_of_remaps fun _ => moves_resumeMappings) node offset bytes)
  | _ => exact kept trivial

end Device

namespace Devices

open InProcessFsBackend

theorem Tabled.step {system : Devices World Store Identity} (tabled : Tabled system)
    (request : Nat × Request) : Tabled (system.step request).1 := by
  obtain ⟨⟨strays, hosted⟩, mmaps⟩ := tabled
  have stepped : ∃ more, True ∧ Hosted Fitted (more ++ strays) (system.step request).1 ∧
      (system.step request).1.mmaps = [] := by
    refine hosted.step (fun _ => True) (· = []) lasting_fitted (fun fitted offset mapping active =>
      (fitted.listed.own offset mapping active).1) trivial mmaps request fun state found last => ?_
    have good := hosted.good_device found
    have fitted := hosted.fits _ state found
    obtain ⟨⟨_, counted, -, -⟩, -, -⟩ := Device.answered_serve
      (show Device.Counted _ (system.device state) from ⟨fitted.listed, good⟩) last
    obtain ⟨⟨more, after, outlived, branch⟩, child, stays⟩ := Device.attached_serve
      (show Attached _ (system.device state) from ⟨good, fitted.table, mmaps⟩) last
    exact ⟨⟨more, trivial, after.good, ⟨after.table, counted.toListed⟩, outlived, branch,
      after.mmaps⟩, child, stays⟩
  obtain ⟨_, -, hosted, mmaps⟩ := stepped
  exact ⟨⟨_, hosted⟩, mmaps⟩

theorem tabled_after {start : Devices World Store Identity} (begun : Begun start)
    (requests : List (Nat × Request)) : Tabled (start.after requests) := by
  refine run_invariant_all Tabled (fun _ request tabled => tabled.step request) ?_ requests
  have fitted : ∀ copies state, Fresh copies state → Fitted copies state :=
    fun _ _ fresh => ⟨fresh.table, fresh.listed⟩
  obtain ⟨strays, hosted, mmaps⟩ := begun.hosted fitted
  exact ⟨⟨strays, hosted⟩, mmaps⟩

/-- In every state that a run reaches on a host whose `mmap` does not fail, a range is mapped
exactly as asked or not at all, and no sum of the request leaves the 64-bit words. -/
theorem setup_mapping_exact_or_nothing {start : Devices World Store Identity} (begun : Begun start)
    (requests : List (Nat × Request)) {index : Nat} {state : VirtioFsBranch}
    (found : (start.after requests).devices[index]? = some state)
    (inode fileOffset len : Nat) (writable : Bool) (windowOffset : Nat) :
    ExactOrNothing ((start.after requests).device state) inode fileOffset len writable
      windowOffset ∧
    SumsFit state fileOffset len windowOffset := by
  obtain ⟨others, attached, counted⟩ := (tabled_after begun requests).attached found
  exact ⟨exactOrNothing attached inode fileOffset len writable windowOffset,
    sumsFit counted fileOffset len windowOffset⟩

namespace MappedRange

open Redox

def start : Devices RedoxWorld (MountedBranch OneFile) RedoxPageIdentity :=
  create 1 1 OneFile.world [] OneFile.branch

/-- An open file of one byte, and a window of two pages. -/
def requests : List (Nat × Request) :=
  [(0, .createFile "a" 1), (0, .openNode 2), (0, .attachDaxWindow 0 8192)]

/-- The request for both pages is granted. The file ends in the first one, so only that one is
active. -/
def firstActive (state : VirtioFsBranch) : Bool :=
  match (setupMapping 2 0 8192 true 0).exec ((start.after requests).device state) with
  | (.ok _, after) => 0 ∈ after.state.active && 4096 ∉ after.state.active
  | (.error _, _) => false

set_option maxRecDepth 4000 in
theorem two_pages_exact : ∃ state, (start.after requests).devices[0]? = some state ∧
    firstActive state ∧ ExactOrNothing ((start.after requests).device state) 2 0 8192 true 0 := by
  have evaluated : (start.after requests).devices[0]?.map firstActive = some true := by
    decide +kernel
  obtain ⟨state, found, active⟩ := Option.map_eq_some_iff.mp evaluated
  have begun : Begun start := .create OneFile.coherent 1 1 []
  obtain ⟨exactly, -⟩ := setup_mapping_exact_or_nothing begun requests found 2 0 8192 true 0
  exact ⟨state, found, active, exactly⟩

end MappedRange

end Devices

end Minidox.Virtiofs
