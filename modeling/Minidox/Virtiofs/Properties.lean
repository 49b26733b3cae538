import Minidox.Virtiofs.Hosting
import Minidox.Virtiofs.RedoxStore

/-!
# Tables and cache agree

In every state that the devices of a lineage reach, the table of each device follows its
specs, and the cache counts the mappings of its table and no others.
-/

set_option autoImplicit false

namespace Minidox.Virtiofs

open Foundation Attempt
open Cache
open Std (ExtTreeMap)

variable {World Store Identity Filesystem : Type} [Ord Identity] [Std.TransOrd Identity]
  [ForkableNodeStore World Store Identity] [FileView Store] [IdentityLedger World Identity]
  [StoreLedger World Store]

namespace Devices

theorem lasting_table : Lasting Table where
  live table := table.live
  outlive outlived table := table.outlive outlived
  congr same table := table.congr same
  child table made := .ofInactive made.live (made.specs ▸ table.aligned) fun _ => by
    rw [made.active, ExtTreeMap.getElem?_empty]

theorem table_create {copies : CacheBranchId → Option Files} {files : Files}
    (live : copies 1 = some files) (lineage : Nat) :
    Table copies { lineage, branch := 1, window := none, specs := ∅, active := ∅ } := by
  refine .ofInactive ⟨files, live⟩ (fun offset spec listed => ?_) fun _ => ExtTreeMap.getElem?_empty
  rw [ExtTreeMap.getElem?_empty] at listed
  cases listed

/-- The devices hold their mappings, each over a branch of its own. -/
structure Linked (system : Devices World Store Identity) : Prop
    extends Hosted Table [] system where
  mmaps : system.mmaps = []

section Linked

variable {system : Devices World Store Identity} {index : Nat} {state : VirtioFsBranch}

theorem Linked.attached (linked : Linked system) (found : system.devices[index]? = some state) :
    Attached (heldBy (system.devices.erase index)) (system.device state) :=
  ⟨linked.good.perm (heldBy_perm_erase found), linked.fits index state found, linked.mmaps⟩

theorem Linked.others (linked : Linked system) (found : system.devices[index]? = some state) :
    ∀ mapping ∈ heldBy (system.devices.erase index), mapping.branch ≠ state.branch := by
  intro mapping member same
  obtain ⟨other, otherState, offset, foundOther, active⟩ := mem_heldBy.mp member
  rw [TreeMap.getElem?_erase_ite, Option.ite_none_left_eq_some] at foundOther
  obtain ⟨spec, entry⟩ := (linked.fits other otherState foundOther.2).entry offset mapping active
  exact foundOther.1 (linked.apart other index otherState state foundOther.2 found
    (entry.branch.symm.trans same))

/-- How often a page is active in the window. -/
def multiplicity (state : VirtioFsBranch) (page : Nat) : Nat :=
  (TreeMap.values state.active).countP fun mapping => decide (mapping.page = page)

/-- The table of a device and its branch in the cache say the same. -/
structure TableAgrees (system : Devices World Store Identity) (state : VirtioFsBranch)
    (branch : CacheBranch Store) : Prop where
  live : system.cache.branches[state.branch]? = some branch
  detached : state.window = none → ∀ offset : Nat, state.active[offset]? = none
  entry : ∀ (offset : Nat) (mapping : DaxPageMapping), state.active[offset]? = some mapping →
    ∃ spec address len length, state.specs[offset]? = some spec ∧ offset % pageSize = 0 ∧
      state.window = some (address, len) ∧ offset + pageSize ≤ len ∧
      mapping.key = (spec.inode, spec.fileOffset) ∧ mapping.flags.write = spec.writable ∧
      FileView.fileLen branch.store spec.inode = some length ∧ spec.fileOffset < length
  counted : ∀ page : Nat, branch.activePages[page]? =
    if multiplicity state page = 0 then none else some (multiplicity state page)

theorem Linked.holders_eq {system : Devices World Store Identity} (linked : Linked system)
    {index : Nat} {state : VirtioFsBranch} (found : system.devices[index]? = some state)
    (page : Nat) : Lineage.holders (heldBy (system.devices.erase index) ++
      TreeMap.values state.active) state.branch page = multiplicity state page := by
  have elsewhere : Lineage.holders (heldBy (system.devices.erase index)) state.branch page = 0 := by
    refine List.countP_eq_zero.mpr fun mapping member => ?_
    simp [linked.others found mapping member]
  have own : Lineage.holders (TreeMap.values state.active) state.branch page =
      multiplicity state page := by
    refine List.countP_congr fun mapping member => ?_
    obtain ⟨offset, active⟩ := TreeMap.mem_values.mp member
    obtain ⟨spec, entry⟩ := (linked.fits index state found).entry offset mapping active
    simp [entry.branch]
  calc Lineage.holders (heldBy (system.devices.erase index) ++
        TreeMap.values state.active) state.branch page
      = Lineage.holders (heldBy (system.devices.erase index)) state.branch page +
        Lineage.holders (TreeMap.values state.active) state.branch page := List.countP_append
    _ = multiplicity state page := by rw [elsewhere, own, Nat.zero_add]

theorem Linked.agrees {system : Devices World Store Identity} (linked : Linked system) {index : Nat}
    {state : VirtioFsBranch} (found : system.devices[index]? = some state) :
    ∃ branch, TableAgrees system state branch := by
  have table := linked.fits index state found
  obtain ⟨files, copied⟩ := table.live
  obtain ⟨view, seen, rfl⟩ := Option.map_eq_some_iff.mp copied
  obtain ⟨branch, live, rfl⟩ := Option.map_eq_some_iff.mp seen
  refine ⟨branch, live, table.detached, ?_, ?_⟩
  · intro offset mapping active
    obtain ⟨spec, entry⟩ := table.entry offset mapping active
    obtain ⟨address, len, attached, inside⟩ := entry.inWindow
    obtain ⟨files, bytes, copy, present, short⟩ := entry.inFile
    cases copied.symm.trans copy
    obtain ⟨length, measured, rfl⟩ := Option.map_eq_some_iff.mp present
    rw [ByteMap.length_read] at short
    exact ⟨spec, address, len, length, entry.listed, table.aligned offset spec entry.listed,
      attached, inside, entry.key, by rw [entry.flags, MappingSpec.write_flags], measured, short⟩
  · intro page
    obtain ⟨origin, sound⟩ := (linked.attached found).good.sound
    have counted := sound.active_count state.branch _ page seen
    rw [show (system.device state).state = state from rfl, linked.holders_eq found] at counted
    exact counted

end Linked

end Devices

variable [Std.LawfulEqOrd Identity] [DecidableEq Identity]
  [LawfulForkableStore World Store Identity] [FileMaker World Store]
  [LawfulFileMaker World Store Identity] [DurableStore World Store Filesystem]
  [LawfulDurableStore World Store Identity]

namespace Device

variable {others : List DaxPageMapping} {device : Device World Store Identity}

theorem kept_serve (attached : Attached others device) {request : Request}
    (served : device.Served request) (stays : request ≠ .drop) :
    Answered (Follows others device) device (device.serve request :
      Device World Store Identity × Answer Filesystem) := by
  refine answered_serve_of stays (fun single => ?_) ((VirtioFsBranch.ends_fork attached).mono
    fun _ _ ends => ⟨ends.1.follows, ends.2⟩)
  have remapped : ∀ {Error α : Type} {operation : Attempt (Device World Store Identity) Error α},
      (Ends operation device fun _ after => Remaps others device after) →
      Ends operation device fun _ after => Follows others device after :=
    fun ends => ends.mono fun _ _ remaps => remaps.follows
  cases request with
  | openNode inode => exact reaches_answer (InProcessFsBackend.moves_openNode inode device)
  | close inode => exact reaches_answer (InProcessFsBackend.moves_close inode device)
  | read inode offset capacity =>
    exact reaches_answer (remapped (InProcessFsBackend.ends_read served))
  | write inode offset data =>
    exact reaches_answer (remapped (InProcessFsBackend.ends_write served))
  | sync inode => exact reaches_answer (InProcessFsBackend.moves_sync inode device)
  | attachDaxWindow hostAddress len =>
    exact reaches_answer (InProcessFsBackend.moves_attachDaxWindow hostAddress len device)
  | detachDaxWindow hostAddress len =>
    exact reaches_answer (InProcessFsBackend.moves_detachDaxWindow hostAddress len device)
  | setupMapping inode fileOffset len writable windowOffset =>
    exact reaches_answer (InProcessFsBackend.moves_setupMapping inode fileOffset len writable
      windowOffset device)
  | removeMapping windowOffset len =>
    exact reaches_answer (InProcessFsBackend.moves_removeMapping windowOffset len device)
  | store offset place data =>
    exact reaches_store attached.good (Std.Refl.refl device) (fun _ good outlived _ =>
      ⟨Attached.setCache attached good outlived, outlived, rfl⟩) offset place data
  | createFile name size => exact reaches_answer (VirtioFsBranch.moves_createFile name size device)
  | hostRead node offset len => exact reaches_answer (remapped (VirtioFsBranch.ends_read served))
  | hostWrite node offset bytes =>
    exact reaches_answer (remapped (VirtioFsBranch.ends_write served))
  | durableSnapshot =>
    exact reaches_answer (VirtioFsBranch.moves_durableSnapshot (moves_follows moves_suspendMappings)
      (moves_follows moves_resumeMappings) device)
  | fork => exact absurd rfl single
  | drop => exact absurd rfl stays

end Device

namespace Devices

theorem Linked.step {system : Devices World Store Identity} (linked : Linked system)
    {request : Nat × Request}
    (serves : system.Serves request) : Linked (system.step request).1 := by
  have stepped : ∃ more, more = [] ∧ Hosted Table (more ++ []) (system.step request).1 ∧
      (system.step request).1.mmaps = [] := by
    refine linked.toHosted.step (· = []) (· = []) lasting_table ?_ rfl linked.mmaps request
      fun state found last => ?_
    · intro _ _ table offset mapping active
      obtain ⟨spec, entry⟩ := table.entry offset mapping active
      exact entry.branch
    · have attached := linked.attached found
      obtain ⟨follows, child, stays⟩ := Device.kept_serve attached (serves state found) last
      obtain ⟨after, outlived, branch⟩ := follows attached
      exact ⟨⟨[], rfl, after.good, after.table, outlived, branch, after.mmaps⟩, child, stays⟩
  obtain ⟨_, rfl, hosted, mmaps⟩ := stepped
  exact ⟨hosted, mmaps⟩

theorem linked_create {world : World} {store : Store} (coherent : Coherent world [store])
    (lineage nextPageId : Nat) (faults : Faults) :
    Linked (create lineage nextPageId world faults store : Devices World Store Identity) :=
  ⟨hosted_create coherent lineage nextPageId faults [] fun _ _ live => table_create live lineage,
    rfl⟩

theorem linked_after {world : World} {store : Store} (coherent : Coherent world [store])
    (lineage nextPageId : Nat) (faults : Faults) {requests : List (Nat × Request)}
    (served : Admitted (fun system request => (Devices.step system request).1) Devices.Serves
      (create lineage nextPageId world faults store : Devices World Store Identity) requests) :
    Linked ((create lineage nextPageId world faults store :
      Devices World Store Identity).after requests) :=
  run_invariant Linked (fun _ _ linked serves => linked.step serves)
    (linked_create coherent lineage nextPageId faults) served

/-- In every state that a run of requests reaches, the table of every device agrees with the
cache, and dropping the device removes its branch. -/
theorem dax_table_agrees_with_cache {world : World} {store : Store}
    (coherent : Coherent world [store]) (lineage nextPageId : Nat) (faults : Faults)
    {requests : List (Nat × Request)}
    (served : Admitted (fun system request => (Devices.step system request).1) Devices.Serves
      (create lineage nextPageId world faults store : Devices World Store Identity) requests)
    {index : Nat} {state : VirtioFsBranch}
    (found : ((create lineage nextPageId world faults store :
      Devices World Store Identity).after requests).devices[index]? = some state) :
    (∃ branch, TableAgrees ((create lineage nextPageId world faults store :
      Devices World Store Identity).after requests) state branch) ∧
    Ends VirtioFsBranch.drop (((create lineage nextPageId world faults store :
      Devices World Store Identity).after requests).device state) fun result dropped =>
        result = .ok (.ok ()) ∧ dropped.cache.branches[state.branch]? = none := by
  have linked := linked_after coherent lineage nextPageId faults served
  refine ⟨linked.agrees found, ?_⟩
  refine (VirtioFsBranch.ends_drop (linked.attached found) (linked.others found)).mono ?_
  intro result dropped ended
  obtain ⟨removed, -, -, copies⟩ := ended
  have gone : dropped.cache.copies state.branch = none := by
    rw [copies]
    exact Function.update_self _ _ _
  exact ⟨removed, Option.map_eq_none_iff.mp (Option.map_eq_none_iff.mp gone)⟩

namespace MappedWindow

open Redox

def start : Devices RedoxWorld (MountedBranch OneFile) RedoxPageIdentity :=
  create 1 1 OneFile.world [] OneFile.branch

/-- A file in a window, with a store of the guest and a fork. -/
def requests : List (Nat × Request) :=
  [(0, .createFile "a" 1), (0, .openNode 2), (0, .attachDaxWindow 0 8192),
    (0, .setupMapping 2 0 4096 true 4096), (0, .store 4096 0 [7]), (0, .fork)]

theorem served : Admitted (fun system request => (Devices.step system request).1) Devices.Serves
    start requests :=
  ⟨fun _ _ => trivial, fun _ _ => trivial, fun _ _ => trivial, fun _ _ => trivial,
    fun _ _ => trivial, fun _ _ => trivial, trivial⟩

set_option maxRecDepth 4000 in
theorem window_agrees : ∃ state branch, (start.after requests).devices[0]? = some state ∧
    4096 ∈ state.active ∧ TableAgrees (start.after requests) state branch := by
  have evaluated : ((start.after requests).devices[0]?.map fun state =>
      decide (4096 ∈ state.active)) = some true := by decide +kernel
  obtain ⟨state, found, active⟩ := Option.map_eq_some_iff.mp evaluated
  obtain ⟨⟨branch, agrees⟩, -⟩ := dax_table_agrees_with_cache OneFile.coherent 1 1 [] served found
  exact ⟨state, branch, found, of_decide_eq_true active, agrees⟩

end MappedWindow

end Devices

end Minidox.Virtiofs
