import Minidox.Virtiofs.Table

/-!
# Every request keeps the table

The requests of the guest and the operations of the supervisor, each for a device among
others. Those that read or write through the cache do so while the page files serve them.
-/

set_option autoImplicit false

namespace Minidox.Virtiofs

open Foundation Attempt
open Cache
open Std (ExtTreeMap)
open SharedPageCache (Good atRest)

/-- Saving its state changes nothing that a store shows. -/
class LawfulDurableStore (World Store Identity : Type) {Filesystem : Type}
    [ForkableNodeStore World Store Identity] [FileView Store] [IdentityLedger World Identity]
    [StoreLedger World Store] [DurableStore World Store Filesystem] : Prop where
  durableState_untouched : ∀ (world : World) (store : Store),
    (DurableStore.durableState).Ends (world, store) fun _ after => Untouched (world, store) after

namespace VirtioFsBranch

variable {World Store Identity : Type} [Ord Identity] [ForkableNodeStore World Store Identity]

theorem ends_fromParts (lineage : Nat) (branch : CacheBranchId)
    (specs : ExtTreeMap Nat MappingSpec) (device : Device World Store Identity) :
    Ends (fromParts lineage branch specs) device fun result _ => ∀ child, result = .ok child →
      child = { lineage, branch, window := none, specs, active := ∅ } := by
  rw [fromParts, ends_bind]
  refine ends_of_forall fun result after => ?_
  cases result with
  | error error => exact fun _ => by rintro ⟨⟩
  | ok value =>
    intro child same
    cases same
    rfl

variable [Std.TransOrd Identity] [DecidableEq Identity]

theorem ends_finishFork (lineage : Nat) (specs : ExtTreeMap Nat MappingSpec)
    (child : Except BackendError CacheBranchId) (device : Device World Store Identity) :
    Ends (finishFork lineage specs child) device fun result _ => ∀ made, result = .ok made →
      ∃ branch, child = .ok branch ∧
        made = { lineage, branch, window := none, specs, active := ∅ } := by
  simp only [finishFork, ends_bind, ends_settle]
  refine ends_of_forall fun resume resumed => ?_
  simp only [ends_ofExcept]
  cases child with
  | error error => exact fun _ => by rintro ⟨⟩
  | ok branch =>
    cases resume with
    | error error => exact fun _ => by rintro ⟨⟩
    | ok value =>
      exact (ends_fromParts lineage branch specs resumed).mono fun _ _ made child same =>
        ⟨branch, rfl, made child same⟩

end VirtioFsBranch

variable {World Store Identity : Type} [Ord Identity] [Std.TransOrd Identity]
  [ForkableNodeStore World Store Identity] [FileView Store] [IdentityLedger World Identity]
  [StoreLedger World Store] {Error α : Type} {others held : List DaxPageMapping}
  {device : Device World Store Identity} {branch : CacheBranchId} {offset : Nat}

/-!
## Calls of the cache
-/

namespace Device

variable [Std.LawfulEqOrd Identity] [DecidableEq Identity]
  [LawfulForkableStore World Store Identity] [FileMaker World Store]
  [LawfulFileMaker World Store Identity]

theorem ends_attempt {operation : SharedM World Store Identity α} (action : Action)
    {reply : α → Reply} (one : ∀ system : System World Store Identity,
      system.step action = system.attempt operation reply)
    (stays : ∀ branch, action ≠ .removeBranch branch) {cache : SharedPageCache World Store Identity}
    (good : Good held cache) :
    Ends operation cache fun _ after =>
      Good held after ∧ Outlived cache.copies after.copies := by
  obtain ⟨consistent, step⟩ := System.simulated _ good.atRest action
  have outlived := step.outlived stays
  have stepped : (System.step (atRest cache held) action).1 =
      atRest (operation.exec cache).2 held := by
    rw [one, System.attempt]
    generalize run : operation.exec (atRest cache held).cache = ended
    have same : operation.exec cache = ended := run
    rw [same]
    obtain ⟨result, after⟩ := ended
    cases result with
    | ok value => rfl
    | error error => rfl
  rw [stepped] at consistent outlived
  have kept := consistent.good
  rw [SharedPageCache.mappings_atRest] at kept
  exact ⟨kept, outlived⟩

section Calls

variable {relation : Device World Store Identity → Device World Store Identity → Prop}
  [OfCalls relation]

theorem moves_attempt (translate : CacheError → Error) {operation : SharedM World Store Identity α}
    (action : Action) {reply : α → Reply}
    (one : ∀ system : System World Store Identity,
      system.step action = system.attempt operation reply)
    (stays : ∀ branch, action ≠ .removeBranch branch) :
    Moves relation (onCache translate operation) :=
  OfCalls.moves_onCache fun good => ends_attempt action one stays good

theorem moves_openNode (translate : CacheError → Error) (branch : CacheBranchId) (node : NodeId) :
    Moves relation (onCache translate (SharedPageCache.openNode branch node) :
      Attempt (Device World Store Identity) Error Unit) :=
  moves_attempt translate (.openNode branch node) (fun _ => rfl) (by rintro _ ⟨⟩)

theorem moves_close (translate : CacheError → Error) (branch : CacheBranchId) (node : NodeId) :
    Moves relation (onCache translate (SharedPageCache.close branch node) :
      Attempt (Device World Store Identity) Error Unit) :=
  moves_attempt translate (.close branch node) (fun _ => rfl) (by rintro _ ⟨⟩)

theorem moves_sync (translate : CacheError → Error) (branch : CacheBranchId) (node : NodeId) :
    Moves relation (onCache translate (SharedPageCache.sync branch node) :
      Attempt (Device World Store Identity) Error Unit) :=
  moves_attempt translate (.sync branch node) (fun _ => rfl) (by rintro _ ⟨⟩)

end Calls

def Serves (job : Job) (branch : CacheBranchId) (node offset : Nat)
    (device : Device World Store Identity) : Prop :=
  (Call.new job branch node offset).Served (Call.steps job) device.cache

theorem ends_call (others : List DaxPageMapping) (translate : CacheError → Error) {job : Job}
    {node : Nat} (served : device.Serves job branch node offset) (value : Reply → α) :
    Ends (onCache translate (value <$>
      (Call.new job branch node offset).complete (Call.steps job))) device
      fun _ after => Remaps others device after := by
  refine ends_onCache.mpr (ends_map.mpr (ends_imp.mpr fun attached => ?_))
  exact (SharedPageCache.ends_call_served attached.good served).mono fun _ cache ends =>
    ⟨Attached.setCache attached ends.1 ends.2, ends.2, rfl⟩

end Device

/-!
## The window
-/

namespace InProcessFsBackend

open Device

theorem Attached.setWindow (attached : Attached others device)
    (inactive : ∀ offset : Nat, device.state.active[offset]? = none) (window : Option (Nat × Nat)) :
    Attached others { device with state := { device.state with window } } :=
  ⟨attached.good, Table.ofInactive attached.table.live attached.table.aligned inactive,
    attached.mmaps⟩

theorem moves_detachDaxWindow (hostAddress len : Nat) :
    Moves (Follows others) (detachDaxWindow hostAddress len : FsM World Store Identity Unit) := by
  refine fun device => ends_imp.mpr fun attached => ?_
  simp only [detachDaxWindow, modifyState, ends_bind, ends_get, ends_onlyIf]
  refine ⟨fun _ => ?_, fun _ => ⟨attached, Std.Refl.refl _, trivial⟩⟩
  refine (ends_suspendMappings attached).mono ?_
  rintro _ after ⟨rfl, attachedAfter, copies, state⟩
  have branch : after.state.branch = device.state.branch := by rw [state]
  refine ⟨Attached.setWindow attachedAfter (fun offset => ?_) none, copies ▸ Std.Refl.refl _,
    branch⟩
  rw [state]
  exact ExtTreeMap.getElem?_empty

/-!
## Specs
-/

theorem Entry.setSpecs {copies : CacheBranchId → Option Files} {state : VirtioFsBranch}
    {mapping : DaxPageMapping} {spec : MappingSpec} (entry : Entry copies state offset mapping spec)
    {specs : ExtTreeMap Nat MappingSpec} (same : specs[offset]? = state.specs[offset]?) :
    Entry copies { state with specs } offset mapping spec :=
  ⟨same.trans entry.listed, entry.inWindow, entry.branch, entry.key, entry.flags, entry.inFile⟩

theorem Attached.setSpecs (attached : Attached others device) {specs : ExtTreeMap Nat MappingSpec}
    (aligned : ∀ offset spec, specs[offset]? = some spec → offset % pageSize = 0)
    (same : ∀ (offset : Nat) mapping, device.state.active[offset]? = some mapping →
      specs[offset]? = device.state.specs[offset]?) :
    Attached others { device with state := { device.state with specs } } where
  good := attached.good
  mmaps := attached.mmaps
  table :=
    { live := attached.table.live
      aligned
      entry := fun offset mapping found => by
        obtain ⟨spec, entry⟩ := attached.table.entry offset mapping found
        exact ⟨spec, Entry.setSpecs entry (same offset mapping found)⟩ }

theorem Attached.insertSpecs
    (attached : Attached others device) {inserted : List (Nat × MappingSpec)}
    (aligned : ∀ offset ∈ inserted.map Prod.fst, offset % pageSize = 0)
    (fresh : ∀ offset ∈ inserted.map Prod.fst, device.state.specs[offset]? = none) :
    Attached others { device with
      state := { device.state with specs := TreeMap.insertAll device.state.specs inserted } } := by
  refine Attached.setSpecs attached (fun offset spec found => ?_) fun offset mapping found => ?_
  · cases TreeMap.mem_or_of_getElem?_insertAll found with
    | inl new => exact aligned offset (List.mem_map.mpr ⟨_, new, rfl⟩)
    | inr old => exact attached.table.aligned offset spec old
  · refine TreeMap.getElem?_insertAll_of_not_mem fun new => ?_
    cases (attached.table.inactive (fresh offset new)).symm.trans found

theorem Attached.eraseSpecs (attached : Attached others device) {offsets : List Nat}
    (inactive : ∀ offset ∈ offsets, device.state.active[offset]? = none) :
    Attached others { device with
      state := { device.state with specs := TreeMap.eraseAll device.state.specs offsets } } := by
  refine Attached.setSpecs attached (fun offset spec found => ?_) fun offset mapping found => ?_
  · rw [TreeMap.getElem?_eraseAll, Option.ite_none_left_eq_some] at found
    exact attached.table.aligned offset spec found.2
  · rw [TreeMap.getElem?_eraseAll, if_neg]
    intro erased
    rw [inactive offset erased] at found
    cases found

theorem moves_removeOffset (offset : Nat) :
    Moves (Follows others) (removeOffset offset true : FsM World Store Identity Unit) := by
  refine fun device => ends_imp.mpr fun attached => ?_
  have split : ∀ {post : Except FsError Unit → Device World Store Identity → Prop},
      Ends (removeOffset offset true) device post ↔
        Ends (removeOffset offset false) device fun result after => match result with
          | .ok _ => post (.ok ())
              { after with state := { after.state with specs := after.state.specs.erase offset } }
          | .error error => post (.error error) after := by
    intro post
    simp only [removeOffset, ends_bind, ends_get]
    cases device.state.active[offset]? <;>
      · simp only [ends_bind]
        refine iff_of_eq (congrArg (Ends _ device) (funext fun result => funext fun after => ?_))
        cases result <;> rfl
  rw [split]
  refine (ends_removeOffset attached offset).mono ?_
  rintro result after ⟨attachedAfter, copies, state, -⟩
  have outlived : Outlived device.cache.copies after.cache.copies := copies ▸ Std.Refl.refl _
  have branch : after.state.branch = device.state.branch := by rw [state]
  cases result with
  | error error => exact ⟨attachedAfter, outlived, branch⟩
  | ok value =>
    have inactive : ∀ other ∈ [offset], after.state.active[other]? = none := by
      intro other here
      rw [List.mem_singleton.mp here, state, TreeMap.getElem?_erase_ite, if_pos rfl]
    exact ⟨Attached.eraseSpecs attachedAfter inactive, outlived, branch⟩

theorem moves_removeMapping (windowOffset len : Nat) :
    Moves (Follows others) (removeMapping windowOffset len : FsM World Store Identity Unit) :=
  moves_bind moves_require fun _ => moves_forM fun delta _ =>
    moves_removeOffset (windowOffset + delta)

theorem mem_newSpecs {node : NodeId} {fileOffset len windowOffset : Nat} {writable : Bool}
    (member : offset ∈ (newSpecs node fileOffset len writable windowOffset).map Prod.fst) :
    windowOffset ≤ offset ∧ offset < windowOffset + len ∧
      offset % pageSize = windowOffset % pageSize := by
  simp only [newSpecs, List.map_map, List.mem_map, Function.comp_apply] at member
  obtain ⟨delta, listed, rfl⟩ := member
  obtain ⟨index, rfl, inside⟩ := mem_pageOffsets.mp listed
  refine ⟨by omega, by omega, ?_⟩
  rw [Nat.zero_add, Nat.add_mul_mod_self_right]

def pagesIn (windowOffset len : Nat) : List Nat :=
  (pageOffsets 0 len).map fun delta => windowOffset + delta

theorem mem_pagesIn {windowOffset len : Nat} (alignedWindow : windowOffset % pageSize = 0)
    (aligned : offset % pageSize = 0) :
    offset ∈ pagesIn windowOffset len ↔ windowOffset ≤ offset ∧ offset < windowOffset + len := by
  simp only [pagesIn, List.mem_map, mem_pageOffsets]
  constructor
  · rintro ⟨delta, ⟨index, rfl, inside⟩, rfl⟩
    omega
  · intro inside
    refine ⟨offset - windowOffset, ⟨(offset - windowOffset) / pageSize, ?_, ?_⟩, ?_⟩
    · unfold pageSize at *
      omega
    · omega
    · omega

theorem pagesIn_nodup (windowOffset len : Nat) : (pagesIn windowOffset len).Nodup :=
  (pageOffsets_nodup 0 len).map fun _ _ same => Nat.add_left_cancel same

theorem head_pagesIn {len : Nat} (positive : len ≠ 0) (windowOffset : Nat) :
    (pagesIn windowOffset len).head? = some windowOffset := by
  rw [pagesIn, pageOffsets_cons (Nat.pos_of_ne_zero positive)]
  rfl

theorem newSpecs_offsets (node : NodeId) (fileOffset len : Nat) (writable : Bool)
    (windowOffset : Nat) :
    (newSpecs node fileOffset len writable windowOffset).map Prod.fst =
      pagesIn windowOffset len := by
  rw [newSpecs, List.map_map]
  rfl

theorem not_overlaps {specs : ExtTreeMap Nat MappingSpec} {windowOffset stop : Nat}
    (free : ¬ overlaps specs windowOffset stop) (lower : windowOffset ≤ offset)
    (upper : offset < stop) : specs[offset]? = none := by
  rw [Option.eq_none_iff_forall_ne_some]
  intro spec found
  refine free (TreeMap.any_iff.mpr ⟨offset, spec, found, ?_⟩)
  simp [lower, upper]

variable [Std.LawfulEqOrd Identity] [DecidableEq Identity]
  [LawfulForkableStore World Store Identity]

theorem moves_attachDaxWindow (hostAddress len : Nat) :
    Moves (Follows others) (attachDaxWindow hostAddress len : FsM World Store Identity Unit) := by
  refine fun device => ends_imp.mpr fun attached => ?_
  simp only [attachDaxWindow, modifyState, ends_bind, ends_get, ends_require, ends_modify,
    ends_settle]
  refine ⟨fun free => ?_, fun _ => ⟨attached, Std.Refl.refl _, trivial⟩⟩
  have inactive := attached.table.detached (Option.isNone_iff_eq_none.mp free)
  have opened := Attached.setWindow attached inactive (some (hostAddress, len))
  refine (ends_resumeMappings opened).mono ?_
  rintro result after ⟨attachedAfter, copies, state, lost⟩
  have outlived : Outlived device.cache.copies after.cache.copies := copies ▸ Std.Refl.refl _
  have branch : after.state.branch = device.state.branch := by rw [state]
  cases result with
  | ok value => exact ⟨attachedAfter, outlived, branch⟩
  | error error =>
    refine ⟨Attached.setWindow attachedAfter (fun offset => ?_) none, outlived, branch⟩
    rw [lost error rfl]
    exact inactive offset

theorem moves_setupMapping (inode fileOffset len : Nat) (writable : Bool) (windowOffset : Nat) :
    Moves (Follows others)
      (setupMapping inode fileOffset len writable windowOffset :
        FsM World Store Identity Unit) := by
  refine fun device => ends_imp.mpr fun attached => ?_
  have unchanged : Follows others device device := Std.Refl.refl device
  simp only [setupMapping, modifyState, ends_bind, ends_get, ends_modify, ends_settle]
  refine ends_require.mpr ⟨fun shape => ?_, fun _ => unchanged attached⟩
  refine ends_orThrow (fun window _ => ?_) fun _ => unchanged attached
  refine ends_orThrow (fun stop inside => ?_) fun _ => unchanged attached
  refine ends_orThrow (fun _ _ => ?_) fun _ => unchanged attached
  refine ends_require.mpr ⟨fun free => ?_, fun _ => unchanged attached⟩
  rw [ends_ofExcept]
  cases nodeId inode with
  | error error => exact unchanged attached
  | ok node =>
    obtain ⟨added, -⟩ := Option.filter_eq_some_iff.mp inside
    obtain rfl := Word64.checkedAdd_eq_some added
    have fresh : ∀ offset ∈ (newSpecs node fileOffset len writable windowOffset).map Prod.fst,
        device.state.specs[offset]? = none := by
      intro offset member
      obtain ⟨lower, upper, -⟩ := mem_newSpecs member
      exact not_overlaps free lower upper
    have aligned : ∀ offset ∈ (newSpecs node fileOffset len writable windowOffset).map Prod.fst,
        offset % pageSize = 0 := by
      intro offset member
      obtain ⟨-, -, same⟩ := mem_newSpecs member
      omega
    refine (ends_activateOffsets (Attached.insertSpecs attached aligned fresh) _).mono ?_
    rintro result after ⟨attachedAfter, copies, state, -, lost⟩
    have outlived : Outlived device.cache.copies after.cache.copies := copies ▸ Std.Refl.refl _
    have branch : after.state.branch = device.state.branch := by rw [state]
    cases result with
    | ok value => exact ⟨attachedAfter, outlived, branch⟩
    | error error =>
      refine ⟨Attached.eraseSpecs attachedAfter fun offset new => ?_, outlived, branch⟩
      rw [lost error rfl]
      exact attached.table.inactive (fresh offset new)

/-!
## Reading and writing
-/

variable [FileMaker World Store] [LawfulFileMaker World Store Identity]

section Calls

variable {relation : Device World Store Identity → Device World Store Identity → Prop}
  [Std.Refl relation] [IsTrans _ relation] [OfCalls relation]

theorem moves_openNode (inode : Nat) :
    Moves relation (openNode inode : FsM World Store Identity Unit) :=
  moves_bind moves_get fun device => moves_bind (moves_ofExcept _) fun node =>
    Device.moves_openNode cacheIoError device.state.branch node

theorem moves_close (inode : Nat) : Moves relation (close inode : FsM World Store Identity Unit) :=
  moves_bind moves_get fun device => moves_bind (moves_ofExcept _) fun node =>
    Device.moves_close cacheIoError device.state.branch node

theorem moves_sync (inode : Nat) : Moves relation (sync inode : FsM World Store Identity Unit) :=
  moves_bind moves_get fun device => moves_bind (moves_ofExcept _) fun node =>
    Device.moves_sync cacheIoError device.state.branch node

end Calls

theorem nodeId_eq_ok {inode : Nat} {node : NodeId} (converted : nodeId inode = .ok node) :
    node = inode := by
  unfold nodeId at converted
  split at converted
  next => exact (Except.ok.inj converted).symm
  next => cases converted

theorem ends_read {inode capacity : Nat}
    (served : device.Serves (.read capacity) device.state.branch inode offset) :
    Ends (read inode offset capacity) device fun _ after => Remaps others device after := by
  have unchanged : Remaps others device device := Std.Refl.refl device
  simp only [read, ends_bind, ends_get, ends_ofExcept]
  cases converted : nodeId inode with
  | error error => exact unchanged
  | ok node =>
    obtain rfl := nodeId_eq_ok converted
    exact Device.ends_call others cacheIoError served Reply.bytes

theorem ends_write {inode : Nat} {data : List UInt8}
    (served : device.Serves (.write data) device.state.branch inode offset) :
    Ends (write inode offset data) device fun _ after => Remaps others device after := by
  have unchanged : Remaps others device device := Std.Refl.refl device
  simp only [write, ends_bind, ends_get, ends_ofExcept]
  cases converted : nodeId inode with
  | error error => exact unchanged
  | ok node =>
    obtain rfl := nodeId_eq_ok converted
    exact Device.ends_call others cacheIoError served Reply.count

end InProcessFsBackend

/-!
## Operations of the supervisor
-/

namespace VirtioFsBranch

open Device

/-- The new device has a branch of its own, the specs of its source, and nothing active. -/
structure Child (source : VirtioFsBranch) (before after : CacheBranchId → Option Files)
    (child : VirtioFsBranch) : Prop where
  fresh : before child.branch = none
  live : ∃ files, after child.branch = some files
  specs : child.specs = source.specs
  window : child.window = none
  active : child.active = ∅

theorem ends_forkBranch [LawfulForkableStore World Store Identity] (good : Good held device.cache)
    (branch : CacheBranchId) :
    Ends (backendCache "fork RedoxFS/DAX branch" (SharedPageCache.fork branch)) device
      fun result after => ∀ child, result = .ok child → device.cache.copies child = none ∧
        ∃ files, after.cache.copies child = some files := by
  refine ends_onCache.mpr ((SharedPageCache.ends_fork good branch).mono ?_)
  rintro result cache ⟨-, -, forked⟩ child returned
  cases result with
  | error error => cases returned
  | ok made =>
    cases returned
    obtain ⟨rfl, -, copiesForked, files, live⟩ := forked child rfl
    refine ⟨good.copies_nextBranch, files, ?_⟩
    change cache.copies _ = _
    rw [copiesForked, Function.update_self, live]

section Calls

variable {relation : Device World Store Identity → Device World Store Identity → Prop}
  [Std.Refl relation] [IsTrans _ relation]

omit [FileView Store] [IdentityLedger World Identity] [StoreLedger World Store] in
theorem ends_write_of [DecidableEq Identity] {node : Nat} {bytes : List UInt8}
    (resumes : Moves relation (resumeMappings : FsM World Store Identity Unit))
    (suspends : Ends suspendMappings device fun result suspended => relation device suspended ∧
      (result = .ok () → Ends (writeSuspended suspended.state.branch node offset bytes) suspended
        fun _ after => relation suspended after)) :
    Ends (write node offset bytes) device fun _ after => relation device after := by
  have finish : ∀ result : Except BackendError Unit, Moves relation (do
      let resume ← settle (backend "resume DAX mappings after write" resumeMappings :
        BackendM World Store Identity Unit)
      Attempt.ofExcept result
      Attempt.ofExcept resume : BackendM World Store Identity Unit) := fun result =>
    moves_bind (moves_settle (moves_backend _ resumes)) fun resume =>
      moves_bind (moves_ofExcept _) fun _ => moves_ofExcept _
  refine ends_bind_trans (ends_backend.mpr (suspends.mono ?_))
  rintro result suspended ⟨moved, written⟩
  refine ⟨moved, fun value returned => ?_⟩
  cases result with
  | error error => cases returned
  | ok value =>
    refine ends_bind_trans (ends_get.mpr ⟨Std.Refl.refl suspended, fun _ same => ?_⟩)
    cases same
    exact ends_bind_trans (ends_settle.mpr ((written rfl).mono fun result middle wrote =>
      ⟨wrote, fun value _ => finish value middle⟩))

variable [Std.LawfulEqOrd Identity] [DecidableEq Identity]
  [LawfulForkableStore World Store Identity] [FileMaker World Store]
  [LawfulFileMaker World Store Identity]
  [OfCalls relation]

theorem moves_createFile (name : String) (size : Nat) :
    Moves relation (createFile name size : BackendM World Store Identity NodeId) :=
  moves_bind moves_get fun device =>
    moves_attempt _ (.createFile device.state.branch name size) (fun _ => rfl) (by rintro _ ⟨⟩)

theorem ends_read_of {node len : Nat} (reads : Ends (backendCache "open cached file"
      (SharedPageCache.openNode device.state.branch node)) device fun result opened =>
        result = .ok () → Ends (backendCache "read cached file"
          (SharedPageCache.read device.state.branch node offset len)) opened
            fun _ after => relation opened after) :
    Ends (read node offset len) device fun _ after => relation device after := by
  have opens : Moves relation (backendCache "open cached file"
      (SharedPageCache.openNode device.state.branch node) : BackendM World Store Identity Unit) :=
    Device.moves_openNode _ _ _
  have finish : ∀ bytes : Except BackendError (List UInt8), Moves relation (do
      let close ← settle (backendCache "close cached file"
        (SharedPageCache.close device.state.branch node) : BackendM World Store Identity Unit)
      let bytes ← Attempt.ofExcept bytes
      Attempt.ofExcept close
      pure bytes : BackendM World Store Identity (List UInt8)) := fun bytes =>
    moves_bind (moves_settle (Device.moves_close _ _ _)) fun close =>
      moves_bind (moves_ofExcept _) fun _ => moves_bind (moves_ofExcept _) fun _ => moves_pure _
  refine ends_bind_trans (ends_get.mpr ⟨Std.Refl.refl device, fun _ same => ?_⟩)
  cases same
  refine ends_bind_trans (((opens device).and reads).mono ?_)
  rintro result opened ⟨moved, called⟩
  refine ⟨moved, fun _ returned => ends_bind_trans (ends_settle.mpr ?_)⟩
  exact (called returned).mono fun bytes middle read => ⟨read, fun value _ => finish value middle⟩

theorem ends_writeSuspended_of {node : Nat} {bytes : List UInt8}
    (writes : Ends (backendCache "open cached file" (SharedPageCache.openNode branch node)) device
      fun result opened => result = .ok () → Ends (backendCache "write cached file"
        (SharedPageCache.write branch node offset bytes)) opened fun _ after =>
          relation opened after) :
    Ends (writeSuspended branch node offset bytes) device fun _ after => relation device after := by
  have opens : Moves relation (backendCache "open cached file"
      (SharedPageCache.openNode branch node) : BackendM World Store Identity Unit) :=
    Device.moves_openNode _ _ _
  have finish : ∀ write : Except BackendError Unit, Moves relation (do
      let close ← settle (backendCache "close cached file"
        (SharedPageCache.close branch node) : BackendM World Store Identity Unit)
      Attempt.ofExcept write
      Attempt.ofExcept close : BackendM World Store Identity Unit) := fun write =>
    moves_bind (moves_settle (Device.moves_close _ _ _)) fun close =>
      moves_bind (moves_ofExcept _) fun _ => moves_ofExcept _
  refine ends_bind_trans (((opens device).and writes).mono ?_)
  rintro result opened ⟨moved, called⟩
  refine ⟨moved, fun _ returned => ends_bind_trans (ends_settle.mpr ?_)⟩
  refine (ends_onCache_bind.mpr (ends_bind_trans ((called returned).mono fun _ written wrote =>
    ⟨wrote, fun _ _ => moves_sync _ branch node written⟩))).mono fun write middle wrote => ?_
  exact ⟨wrote, fun value _ => finish value middle⟩

theorem moves_fromParts (lineage : Nat) (branch : CacheBranchId)
    (specs : ExtTreeMap Nat MappingSpec) :
    Moves relation (fromParts lineage branch specs :
      BackendM World Store Identity VirtioFsBranch) :=
  moves_bind (moves_forM fun inode _ => Device.moves_openNode _ branch inode) fun _ => moves_pure _

theorem moves_finishFork (resumes : Moves relation (resumeMappings : FsM World Store Identity Unit))
    (lineage : Nat) (specs : ExtTreeMap Nat MappingSpec)
    (child : Except BackendError CacheBranchId) :
    Moves relation (finishFork lineage specs child :
      BackendM World Store Identity VirtioFsBranch) :=
  moves_bind (moves_settle (moves_backend _ resumes)) fun _ =>
    moves_bind (moves_ofExcept _) fun branch => moves_bind (moves_ofExcept _) fun _ =>
      moves_fromParts lineage branch specs

theorem moves_durableSnapshot {Filesystem : Type} [DurableStore World Store Filesystem]
    [LawfulDurableStore World Store Identity]
    (suspends : Moves relation (suspendMappings : FsM World Store Identity Unit))
    (resumes : Moves relation (resumeMappings : FsM World Store Identity Unit)) :
    Moves relation (durableSnapshot :
      BackendM World Store Identity (VirtioFsSnapshot Filesystem)) := by
  refine moves_bind (moves_backend _ suspends) fun _ => ?_
  refine moves_bind moves_get fun device => ?_
  refine moves_bind (moves_settle ?_) fun result => ?_
  · refine moves_bind (moves_attempt _ (.syncAll device.state.branch) (fun _ => rfl)
      (by rintro _ ⟨⟩)) fun _ => ?_
    refine moves_bind (moves_onCache_grown (SharedPageCache.moves_withStoreMut _ ?_)) fun _ =>
      moves_pure _
    exact LawfulDurableStore.durableState_untouched
  · refine moves_bind (moves_settle (moves_backend _ resumes)) fun resume => ?_
    exact moves_bind (moves_ofExcept _) fun _ => moves_bind (moves_ofExcept _) fun _ => moves_pure _

end Calls

variable [Std.LawfulEqOrd Identity] [DecidableEq Identity]
  [LawfulForkableStore World Store Identity] [FileMaker World Store]
  [LawfulFileMaker World Store Identity]

theorem ends_read {node len : Nat} (served : Ends (backendCache "open cached file"
      (SharedPageCache.openNode device.state.branch node)) device fun result after =>
        result = .ok () → after.Serves (.read len) device.state.branch node offset) :
    Ends (read node offset len) device fun _ after => Remaps others device after :=
  ends_read_of (served.mono fun _ _ serves returned =>
    Device.ends_call others _ (serves returned) Reply.bytes)

theorem ends_writeSuspended (others : List DaxPageMapping) {node : Nat} {bytes : List UInt8}
    (served : Ends (backendCache "open cached file" (SharedPageCache.openNode branch node)) device
      fun result after => result = .ok () → after.Serves (.write bytes) branch node offset) :
    Ends (writeSuspended branch node offset bytes) device
      fun _ after => Remaps others device after :=
  ends_writeSuspended_of (served.mono fun _ _ serves returned =>
    Device.ends_call others _ (serves returned) Reply.count)

theorem ends_write {node : Nat} {bytes : List UInt8} (served : Ends (do
      backend "suspend DAX mappings for write" suspendMappings
      backendCache "open cached file" (SharedPageCache.openNode device.state.branch node))
      device fun result after =>
        result = .ok () → after.Serves (.write bytes) device.state.branch node offset) :
    Ends (write node offset bytes) device fun _ after => Remaps others device after := by
  by_cases attached : Attached others device
  · rw [ends_bind, ends_backend] at served
    have suspends : Moves (Remaps others) (suspendMappings : FsM World Store Identity Unit) :=
      moves_suspendMappings
    refine ends_write_of moves_resumeMappings (((suspends device).and served).mono ?_)
    rintro result suspended ⟨moved, serves⟩
    refine ⟨moved, fun returned => ?_⟩
    cases returned
    have branch : suspended.state.branch = device.state.branch := by rw [(moved attached).2.2]
    rw [branch]
    exact ends_writeSuspended others serves
  · exact ends_of_forall fun _ _ assumed => absurd assumed attached

theorem ends_fork_of {relation : Device World Store Identity → Device World Store Identity → Prop}
    [Std.Refl relation] [IsTrans _ relation] [OfCalls relation]
    (Holds : Device World Store Identity → Prop)
    (keeps : ∀ {before after : Device World Store Identity}, relation before after → Holds before →
      Holds after ∧ Outlived before.cache.copies after.cache.copies)
    (resumes : Moves relation (resumeMappings : FsM World Store Identity Unit))
    (suspends : Ends suspendMappings device fun result suspended => relation device suspended ∧
      (result = .ok () → Holds suspended ∧ (∃ held, Good held suspended.cache) ∧
        suspended.cache.copies = device.cache.copies ∧
        suspended.state.specs = device.state.specs)) :
    Ends fork device fun result after => relation device after ∧
      ∀ child, result = .ok child →
        Child device.state device.cache.copies after.cache.copies child := by
  simp only [fork, ends_bind, ends_backend]
  refine suspends.mono fun result suspended ends => ?_
  obtain ⟨moved, ready⟩ := ends
  cases result with
  | error error => exact ⟨moved, not_ok⟩
  | ok value =>
    obtain ⟨holds, ⟨held, good⟩, copies, specs⟩ := ready rfl
    have forks : Moves relation (backendCache "fork RedoxFS/DAX branch"
        (SharedPageCache.fork suspended.state.branch) :
          BackendM World Store Identity CacheBranchId) :=
      moves_attempt _ (.fork suspended.state.branch) (fun _ => rfl) (by rintro _ ⟨⟩)
    have branched := ends_forkBranch good suspended.state.branch
    refine ends_get.mpr (ends_settle.mpr (((forks suspended).and branched).mono ?_))
    rintro child forked ⟨movedForked, made⟩
    refine ((moves_finishFork resumes _ _ child forked).and
      (ends_finishFork suspended.state.lineage suspended.state.specs child forked)).mono ?_
    rintro result after ⟨movedAfter, finished⟩
    refine ⟨IsTrans.trans _ _ _ moved (IsTrans.trans _ _ _ movedForked movedAfter), ?_⟩
    intro device' returned
    obtain ⟨branch, rfl, rfl⟩ := finished device' returned
    obtain ⟨fresh, files, live⟩ := made branch rfl
    obtain ⟨later, liveAfter, -⟩ :=
      (keeps movedAfter (keeps movedForked holds).1).2 branch files live
    exact ⟨copies ▸ fresh, ⟨later, liveAfter⟩, specs, rfl, rfl⟩

theorem ends_fork (attached : Attached others device) :
    Ends fork device fun result after => Remaps others device after ∧
      ∀ child, result = .ok child →
        Child device.state device.cache.copies after.cache.copies child := by
  refine ends_fork_of (Attached others)
    (fun remaps attached => ⟨(remaps attached).1, (remaps attached).2.1⟩)
    moves_resumeMappings ((ends_suspendMappings attached).mono fun _ suspended ends => ?_)
  obtain ⟨-, attachedSuspended, copies, state⟩ := ends
  exact ⟨fun _ => ⟨attachedSuspended, copies ▸ Std.Refl.refl _, by rw [state]⟩, fun _ =>
    ⟨attachedSuspended, ⟨_, attachedSuspended.good⟩, copies, by rw [state]⟩⟩

end VirtioFsBranch

/-!
## The end of a device
-/

namespace VirtioFsBranch

open Device

theorem ends_unmapAll {mappings : List DaxPageMapping}
    {cache : SharedPageCache World Store Identity} (good : Good (held ++ mappings) cache)
    (own : ∀ mapping ∈ mappings, mapping.branch = branch) :
    Ends (unmapAll branch mappings) cache fun result after => result = .ok () ∧
      Good held after ∧ after.copies = cache.copies := by
  induction mappings generalizing cache with
  | nil => exact ⟨rfl, by rwa [List.append_nil] at good, rfl⟩
  | cons mapping rest ih =>
    have owner := own mapping List.mem_cons_self
    have moved : (held ++ mapping :: rest).Perm (mapping :: (held ++ rest)) := List.perm_middle
    have unmapped := SharedPageCache.ends_unmap (good.perm moved) List.mem_cons_self
    rw [owner, List.erase_cons_head] at unmapped
    simp only [unmapAll, ends_bind, ends_settle]
    refine unmapped.mono fun result middle ends => ?_
    obtain ⟨-, goodMiddle, same⟩ := ends
    refine (ih goodMiddle fun other member => own other (List.mem_cons_of_mem _ member)).mono ?_
    rintro last after ⟨rfl, goodAfter, copies⟩
    exact ⟨rfl, goodAfter, copies.trans same.copies⟩

variable [Std.LawfulEqOrd Identity] [DecidableEq Identity]

theorem ends_drop_any (device : Device World Store Identity)
    (good : Good (others ++ TreeMap.values device.state.active) device.cache)
    (own : ∀ (offset : Nat) (mapping : DaxPageMapping),
      device.state.active[offset]? = some mapping → mapping.branch = device.state.branch) :
    Ends drop device fun result after => (∃ removed, result = .ok removed) ∧
      Good others after.cache ∧
      (∀ branch, branch ≠ device.state.branch →
        after.cache.copies branch = device.cache.copies branch) ∧ after.mmaps = device.mmaps := by
  simp only [drop, modifyState, ends_bind, ends_get, ends_modify, ends_settle]
  rw [ends_onCache, ends_bind]
  refine (ends_unmapAll good fun mapping member => ?_).mono fun result middle ends => ?_
  · obtain ⟨offset, found⟩ := TreeMap.mem_values.mp member
    exact own offset mapping found
  obtain ⟨rfl, good, copies⟩ := ends
  refine (SharedPageCache.ends_removeBranch good device.state.branch).mono
    fun result after ends => ?_
  obtain ⟨goodAfter, failed, removed⟩ := ends
  refine ⟨⟨_, rfl⟩, goodAfter, fun branch other => ?_, rfl⟩
  rw [← copies]
  cases result with
  | error error => exact congrFun (failed error rfl).copies branch
  | ok value =>
    change after.copies branch = _
    rw [(removed rfl).2.1, Function.update_of_ne other]

theorem ends_removeBranch {cache : SharedPageCache World Store Identity} (good : Good held cache)
    {files : Files} (live : cache.copies branch = some files)
    (unmapped : ∀ mapping ∈ held, mapping.branch ≠ branch) :
    Ends (SharedPageCache.removeBranch branch) cache fun result after => result = .ok () ∧
      Good held after ∧
      after.copies = Function.update cache.copies branch none := by
  have removed := SharedPageCache.ends_removeBranch good branch
  have returned : Ends (SharedPageCache.removeBranch branch) cache fun result _ =>
      result = .ok () := by
    obtain ⟨view, foundView, -⟩ := Option.map_eq_some_iff.mp live
    obtain ⟨state, found, rfl⟩ := Option.map_eq_some_iff.mp foundView
    obtain ⟨origin, sound⟩ := good.sound
    have idle : state.activePages.isEmpty := by
      rw [TreeMap.isEmpty_iff_getElem?]
      intro page
      have counted := sound.active_count branch _ page foundView
      rw [if_pos] at counted
      · exact counted
      · exact Lineage.holders_eq_zero.mpr fun mapping member owner _ =>
          unmapped mapping member owner
    simp only [SharedPageCache.removeBranch, ends_bind, ends_require]
    refine SharedPageCache.ends_branchMut_of found ?_
    exact ⟨fun _ => rfl, fun busy => absurd idle busy⟩
  refine (removed.and returned).mono fun result after ends => ?_
  obtain ⟨⟨goodAfter, -, gone⟩, rfl⟩ := ends
  exact ⟨rfl, goodAfter, (gone rfl).2.1⟩

theorem ends_drop (attached : Attached others device)
    (apart : ∀ mapping ∈ others, mapping.branch ≠ device.state.branch) :
    Ends drop device fun result after => result = .ok (.ok ()) ∧
      Good others after.cache ∧ after.mmaps = [] ∧
      after.cache.copies = Function.update device.cache.copies device.state.branch none := by
  obtain ⟨files, live⟩ := attached.table.live
  have own : ∀ mapping ∈ TreeMap.values device.state.active,
      mapping.branch = device.state.branch := by
    intro mapping member
    obtain ⟨offset, found⟩ := TreeMap.mem_values.mp member
    obtain ⟨spec, entry⟩ := attached.table.entry offset mapping found
    exact entry.branch
  simp only [drop, modifyState, ends_bind, ends_get, ends_modify, ends_settle]
  rw [ends_onCache, ends_bind]
  refine (ends_unmapAll attached.good own).mono fun result middle ends => ?_
  obtain ⟨rfl, good, copies⟩ := ends
  refine (ends_removeBranch good (copies ▸ live) apart).mono fun result after ends => ?_
  obtain ⟨rfl, goodAfter, copiesAfter⟩ := ends
  exact ⟨rfl, goodAfter, attached.mmaps, by rw [← copies]; exact copiesAfter⟩

end VirtioFsBranch

end Minidox.Virtiofs
