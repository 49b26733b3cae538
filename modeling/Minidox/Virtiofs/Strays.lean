import Minidox.Virtiofs.Requests

/-!
# Whatever fails

What holds of a device after any requests, also when page files fail under a call and `mmap`
fails under the table. A mapping can then stay counted that no table has any more. The cache
counts the mappings in the tables and these strays, and nothing else.
-/

set_option autoImplicit false

namespace Minidox.Virtiofs

open Foundation Attempt
open Cache
open SharedPageCache (Good)

variable {World Store Identity : Type} [Ord Identity] [Std.TransOrd Identity]
  [ForkableNodeStore World Store Identity] [FileView Store] [IdentityLedger World Identity]
  [StoreLedger World Store] {Error α : Type}

structure Placed (offset : Nat) : Prop where
  aligned : offset % pageSize = 0
  bounded : offset + pageSize < Word64.bound

namespace Device

/-- What holds of the table of a device, also when it does not follow the specs any more. -/
structure Listed (copies : CacheBranchId → Option Files) (state : VirtioFsBranch) : Prop where
  own : ∀ (offset : Nat) (mapping : DaxPageMapping), state.active[offset]? = some mapping →
    mapping.branch = state.branch ∧ Placed offset
  live : ∃ files, copies state.branch = some files
  specs : ∀ (offset : Nat) (spec : MappingSpec), state.specs[offset]? = some spec →
    Placed offset ∧ spec.fileOffset % pageSize = 0

/-- The cache counts the mappings of the table and the others. -/
structure Counted (others : List DaxPageMapping) (device : Device World Store Identity) : Prop
    extends Listed device.cache.copies device.state where
  good : Good (others ++ TreeMap.values device.state.active) device.cache

/-- Some mappings of the device may have strayed to the others. -/
def Strayed (Holds : List DaxPageMapping → Device World Store Identity → Prop)
    (others : List DaxPageMapping) (before after : Device World Store Identity) : Prop :=
  ∃ strays, Holds (strays ++ others) after ∧
    Outlived before.cache.copies after.cache.copies ∧ after.state.branch = before.state.branch

/-- An operation of the device, some of whose mappings may stray to the others. -/
def Straying (Holds : List DaxPageMapping → Device World Store Identity → Prop)
    (before after : Device World Store Identity) : Prop :=
  ∀ others, Holds others before → Strayed Holds others before after

instance {Holds : List DaxPageMapping → Device World Store Identity → Prop} :
    @Std.Refl (Device World Store Identity) (Straying Holds) :=
  ⟨fun device _ holds => ⟨[], holds, Std.Refl.refl device.cache.copies, rfl⟩⟩

instance {Holds : List DaxPageMapping → Device World Store Identity → Prop} :
    IsTrans (Device World Store Identity) (Straying Holds) where
  trans first second third earlier later others holds := by
    obtain ⟨strays, holds, outlived, branch⟩ := earlier others holds
    obtain ⟨more, holds, further, same⟩ := later _ holds
    rw [← List.append_assoc] at holds
    exact ⟨more ++ strays, holds, IsTrans.trans _ _ _ outlived further, same.trans branch⟩

/-- A property of a device that counts the mappings of its table, and that is not about the
rest of the cache. -/
class OverCache (Holds : List DaxPageMapping → Device World Store Identity → Prop) : Prop where
  good : ∀ {others : List DaxPageMapping} {device : Device World Store Identity},
    Holds others device →
      Good (others ++ TreeMap.values device.state.active) device.cache
  setCache : ∀ {others more : List DaxPageMapping} {device : Device World Store Identity}
    {cache : SharedPageCache World Store Identity}, Holds others device →
      Good (more ++ TreeMap.values device.state.active) cache →
      Outlived device.cache.copies cache.copies → Holds more { device with cache }

abbrev Strays : Device World Store Identity → Device World Store Identity → Prop :=
  Straying Counted

/-- An operation that may change which mappings are active, and nothing else that is seen. -/
def Retables (before after : Device World Store Identity) : Prop :=
  ∀ others, Counted others before → ∃ strays, Counted (strays ++ others) after ∧
    after.cache.copies = before.cache.copies ∧
    after.state = { before.state with active := after.state.active }

instance : @Std.Refl (Device World Store Identity) Retables :=
  ⟨fun _ _ counted => ⟨[], counted, rfl, rfl⟩⟩

instance : IsTrans (Device World Store Identity) Retables where
  trans first second third earlier later others counted := by
    obtain ⟨strays, counted, copies, state⟩ := earlier others counted
    obtain ⟨more, counted, further, same⟩ := later _ counted
    rw [← List.append_assoc] at counted
    exact ⟨more ++ strays, counted, further.trans copies, by rw [same, state]⟩

variable {others : List DaxPageMapping} {device : Device World Store Identity}

theorem Retables.strays {before after : Device World Store Identity}
    (retables : Retables before after) :
    Strays before after := by
  intro others counted
  obtain ⟨strays, counted, copies, state⟩ := retables others counted
  exact ⟨strays, counted, copies ▸ Std.Refl.refl _, by rw [state]⟩

theorem strays_of_retables {operation : Attempt (Device World Store Identity) Error α}
    (moves : Moves Retables operation) : Moves Strays operation :=
  fun device => (moves device).mono fun _ _ retables => retables.strays

theorem Counted.setCache (counted : Counted others device)
    {cache : SharedPageCache World Store Identity} {more : List DaxPageMapping}
    (good : Good (more ++ TreeMap.values device.state.active) cache)
    (outlived : Outlived device.cache.copies cache.copies) :
    Counted more { device with cache } := by
  obtain ⟨files, live⟩ := counted.live
  obtain ⟨later, liveLater, -⟩ := outlived _ files live
  exact ⟨⟨counted.own, ⟨later, liveLater⟩, counted.specs⟩, good⟩

instance : OverCache (Counted : List DaxPageMapping → Device World Store Identity → Prop) where
  good counted := counted.good
  setCache counted good outlived := counted.setCache good outlived

theorem strays_of_same {after : Device World Store Identity} (cache : after.cache = device.cache)
    (branch : after.state.branch = device.state.branch)
    (active : after.state.active = device.state.active)
    (specs : ∀ (offset : Nat) (spec : MappingSpec), after.state.specs[offset]? = some spec →
      Placed offset ∧ spec.fileOffset % pageSize = 0 ∨ device.state.specs[offset]? = some spec) :
    Strays device after := by
  intro others counted
  refine ⟨[], ⟨⟨?_, ?_, ?_⟩, ?_⟩, cache ▸ Std.Refl.refl _, branch⟩
  · rw [active, branch]
    exact counted.own
  · rw [cache, branch]
    exact counted.live
  · intro offset spec found
    exact (specs offset spec found).elim id (counted.specs offset spec)
  · rw [cache, active]
    exact counted.good

theorem ends_retables {operation : Attempt (Device World Store Identity) Error α}
    (each : ∀ others, Counted others device → Ends operation device fun _ after =>
      ∃ strays, Counted (strays ++ others) after ∧ after.cache.copies = device.cache.copies ∧
        after.state = { device.state with active := after.state.active }) :
    Ends operation device fun _ after => Retables device after :=
  fun others counted => each others counted

/-!
## Calls of the cache
-/

section Calls

variable {Holds : List DaxPageMapping → Device World Store Identity → Prop} [OverCache Holds]

theorem strays_onCache {translate : CacheError → Error} {operation : SharedM World Store Identity α}
    (kept : ∀ {held : List DaxPageMapping} {cache : SharedPageCache World Store Identity},
      Good held cache → Ends operation cache fun _ after =>
        (∃ strays, Good (strays ++ held) after) ∧
          Outlived cache.copies after.copies) :
    Moves (Straying Holds) (onCache translate operation) := by
  intro device
  rw [ends_onCache]
  intro others holds
  obtain ⟨⟨strays, good⟩, outlived⟩ := kept (OverCache.good holds)
  rw [← List.append_assoc] at good
  exact ⟨strays, OverCache.setCache holds good outlived, outlived, rfl⟩

instance : OfCalls (Straying Holds) where
  moves_onCache kept :=
    strays_onCache fun good => (kept good).mono fun _ _ ends => ⟨⟨[], ends.1⟩, ends.2⟩

variable [Std.LawfulEqOrd Identity] [DecidableEq Identity]
  [LawfulForkableStore World Store Identity] [FileMaker World Store]
  [LawfulFileMaker World Store Identity]

theorem strays_call (translate : CacheError → Error) (job : Job) (branch : CacheBranchId)
    (node offset : Nat) (value : Reply → α) :
    Moves (Straying Holds) (onCache translate (value <$>
      (Call.new job branch node offset).complete (Call.steps job)) :
        Attempt (Device World Store Identity) Error α) := by
  refine strays_onCache fun good => ends_map.mpr ?_
  refine (SharedPageCache.ends_call good job branch node offset).mono fun _ after ended => ?_
  refine ⟨?_, ended.2⟩
  cases ended.1 with
  | inl kept => exact ⟨[], kept.2⟩
  | inr failed =>
    obtain ⟨-, mapping, -, good⟩ := failed
    exact ⟨[mapping], good⟩

end Calls

/-!
## Removing offsets
-/

variable {offset : Nat} {mapping : DaxPageMapping}

theorem Counted.erase (counted : Counted others device)
    (found : device.state.active[offset]? = some mapping) :
    Counted (mapping :: others) { device with
      state := { device.state with active := device.state.active.erase offset } } where
  good := counted.good.perm
    (((TreeMap.values_perm_erase found).append_left others).trans List.perm_middle)
  own other present there := by
    rw [TreeMap.getElem?_erase_ite, Option.ite_none_left_eq_some] at there
    exact counted.own other present there.2
  live := counted.live
  specs := counted.specs

theorem Counted.insert (counted : Counted (mapping :: others) device)
    (inactive : device.state.active[offset]? = none) (own : mapping.branch = device.state.branch)
    (placed : Placed offset) :
    Counted others { device with
      state := { device.state with active := device.state.active.insert offset mapping } } where
  good := counted.good.perm (List.perm_middle.symm.trans
    ((TreeMap.values_insert_perm mapping inactive).symm.append_left others))
  own other present there := by
    rw [TreeMap.getElem?_insert_ite] at there
    split at there
    next here =>
      cases there
      exact ⟨own, here ▸ placed⟩
    next => exact counted.own other present there
  live := counted.live
  specs := counted.specs

theorem Counted.setMmaps (counted : Counted others device) (mmaps : Faults) :
    Counted others { device with mmaps } :=
  ⟨⟨counted.own, counted.live, counted.specs⟩, counted.good⟩

theorem ends_unmap_stray (counted : Counted (mapping :: others) device)
    (own : mapping.branch = device.state.branch) :
    Ends (onCache cacheIoError (SharedPageCache.unmap device.state.branch mapping)) device
      fun result after => result = .ok () ∧ Counted others after ∧
        after.cache.copies = device.cache.copies ∧ after.state = device.state ∧
        after.mmaps = device.mmaps := by
  have unmapped := SharedPageCache.ends_unmap counted.good List.mem_cons_self
  rw [own, List.cons_append, List.erase_cons_head] at unmapped
  refine ends_onCache.mpr (unmapped.mono fun result cache ends => ?_)
  obtain ⟨rfl, good, same⟩ := ends
  refine ⟨rfl, ⟨⟨counted.own, ?_, counted.specs⟩, good⟩, same.copies, rfl, rfl⟩
  change ∃ files, cache.copies device.state.branch = some files
  rw [show cache.copies = device.cache.copies from same.copies]
  exact counted.live

/-- What removing the mapping at an offset comes to. A mapping that is taken out of the table
of a detached window is lost. -/
theorem ends_deactivate_any (counted : Counted others device)
    (found : device.state.active[offset]? = some mapping) :
    Ends (deactivate offset mapping) device fun result after =>
      match device.state.window, device.mmaps.head?.join with
      | none, _ => result = .error (.io (.os enodev)) ∧ Counted (mapping :: others) after ∧
          after.cache = device.cache ∧
          after.state = { device.state with active := device.state.active.erase offset }
      | some _, some fault => result = .error (.io fault.error) ∧ Counted others after ∧
          after = { device with mmaps := device.mmaps.tail }
      | some _, none => result = .ok () ∧ Counted others after ∧
          after.cache.copies = device.cache.copies ∧ after.mmaps = device.mmaps.tail ∧
          after.state = { device.state with active := device.state.active.erase offset } := by
  obtain ⟨cache, ⟨lineage, branch, window, specs, active⟩, mmaps⟩ := device
  have erased := counted.erase found
  have restored : (active.erase offset).insert offset mapping = active :=
    TreeMap.insert_erase_of_found found
  simp only [deactivate, modifyState, ends_bind, ends_modify, ends_get]
  cases window with
  | none => exact ⟨rfl, erased, rfl, rfl⟩
  | some attached =>
    simp only [orThrow, ends_pure, ends_settle, mmap, ends_bind, ends_get, ends_set]
    cases mmaps.head?.join with
    | some fault =>
      simp only [ends_throw, ends_bind, ends_modify, restored]
      exact ⟨trivial, counted.setMmaps _, trivial⟩
    | none =>
      simp only [ends_pure]
      refine (ends_unmap_stray (erased.setMmaps mmaps.tail)
        (counted.own offset mapping found).1).mono fun result after ends => ?_
      obtain ⟨rfl, countedAfter, copies, state, mmaps⟩ := ends
      exact ⟨rfl, countedAfter, copies, mmaps, state⟩

theorem strays_eraseSpec (offset : Nat) :
    Moves Strays (modifyState fun state => { state with specs := state.specs.erase offset } :
      FsM World Store Identity Unit) := by
  refine moves_modify fun device => strays_of_same rfl rfl rfl fun other spec found => ?_
  rw [TreeMap.getElem?_erase_ite, Option.ite_none_left_eq_some] at found
  exact .inr found.2

theorem ends_deactivate_retables (found : device.state.active[offset]? = some mapping) :
    Ends (deactivate offset mapping) device fun _ after => Retables device after := by
  refine ends_retables fun others counted => ?_
  refine (ends_deactivate_any counted found).mono fun result after ends => ?_
  split at ends
  next =>
    obtain ⟨-, countedAfter, cache, state⟩ := ends
    exact ⟨[mapping], countedAfter, by rw [cache], by rw [state]⟩
  next =>
    obtain ⟨-, countedAfter, same⟩ := ends
    exact ⟨[], countedAfter, by rw [same], by rw [same]⟩
  next =>
    obtain ⟨-, countedAfter, copies, -, state⟩ := ends
    exact ⟨[], countedAfter, copies, by rw [state]⟩

theorem retables_take (offset : Nat) :
    Moves Retables (do
      let device ← get
      match device.state.active[offset]? with
      | some mapping => deactivate offset mapping
      | none => require (offset ∈ device.state.specs) (.io (.os enoent)) :
        FsM World Store Identity Unit) := by
  intro device
  simp only [ends_bind, ends_get]
  cases found : device.state.active[offset]? with
  | some mapping => exact ends_deactivate_retables found
  | none => exact moves_require device

theorem strays_removeOffset (offset : Nat) (removeSpec : Bool) :
    Moves Strays (removeOffset offset removeSpec : FsM World Store Identity Unit) := by
  rw [removeOffset_eq]
  exact moves_bind (strays_of_retables (retables_take offset)) fun _ =>
    moves_onlyIf (strays_eraseSpec offset)

theorem retables_removeOffset (offset : Nat) :
    Moves Retables (removeOffset offset false : FsM World Store Identity Unit) := by
  rw [removeOffset_eq]
  exact moves_bind (retables_take offset) fun _ => moves_pure ()

theorem retables_suspendMappings :
    Moves Retables (suspendMappings : FsM World Store Identity Unit) :=
  moves_bind moves_get fun _ => moves_forM fun offset _ => retables_removeOffset offset

theorem retables_rollBack (offsets : List Nat) :
    Moves Retables (rollBack offsets : FsM World Store Identity Unit) := by
  induction offsets with
  | nil => exact moves_pure ()
  | cons offset rest ih =>
    exact moves_bind (moves_settle (retables_removeOffset offset)) fun _ => ih

theorem strays_suspendMappings : Moves Strays (suspendMappings : FsM World Store Identity Unit) :=
  strays_of_retables retables_suspendMappings

theorem strays_setWindow (window : Option (Nat × Nat)) :
    Moves Strays (modifyState fun state => { state with window } : FsM World Store Identity Unit) :=
  moves_modify fun _ => strays_of_same rfl rfl rfl fun _ _ found => .inr found

/-!
## Activating offsets
-/

variable [Std.LawfulEqOrd Identity] [DecidableEq Identity]
  [LawfulForkableStore World Store Identity]

theorem ends_activatePage_any (counted : Counted others device) {spec : MappingSpec}
    (inactive : device.state.active[offset]? = none) (placed : Placed offset) :
    Ends (activatePage offset spec) device fun result after => Counted others after ∧
      after.cache.copies = device.cache.copies ∧
      (result = .ok () → Activated offset device after) ∧
      ∀ error, result = .error error → after.state = device.state := by
  simp only [activatePage, ends_bind, ends_get]
  rw [ends_onCache]
  refine (SharedPageCache.ends_mapPage counted.good device.state.branch spec.inode spec.fileOffset
    spec.flags).mono fun result cache ends => ?_
  obtain ⟨same, failed, mapped⟩ := ends
  have outlived : Outlived device.cache.copies cache.copies := outlived_of_sameView same
  cases result with
  | error error =>
    exact ⟨counted.setCache (failed error rfl) outlived, same.copies, (by rintro ⟨⟩),
      fun _ _ => rfl⟩
  | ok mapping =>
    obtain ⟨good, own, -, -⟩ := mapped mapping rfl
    have stray : Counted (mapping :: others) { device with cache } :=
      counted.setCache good outlived
    simp only [Except.mapError, ends_settle, mmap, ends_bind, ends_get, ends_set]
    have taken := stray.setMmaps device.mmaps.tail
    cases device.mmaps.head?.join with
    | none =>
      simp only [ends_pure, modifyState, ends_modify]
      exact ⟨taken.insert inactive own placed, same.copies, fun _ => ⟨mapping, rfl⟩, not_error⟩
    | some fault =>
      simp only [ends_throw, ends_bind]
      refine (ends_unmap_stray taken own).mono fun result after ends => ?_
      obtain ⟨rfl, countedAfter, copies, state, -⟩ := ends
      exact ⟨countedAfter, copies.trans same.copies, (by rintro ⟨⟩), fun _ _ => state⟩

theorem ends_activateOffset_any (counted : Counted others device) (windowLen : Nat)
    (inactive : device.state.active[offset]? = none) :
    Ends (activateOffset windowLen offset) device (Activating (Counted others) offset device) := by
  have asked : ∀ faults, Counted others { device with cache := { device.cache with faults } } := by
    intro faults
    have grown := SharedPageCache.grown_faults device.cache faults
    exact counted.setCache (grown.good counted.good)
      (outlived_of_sameView (grown.sameView counted.good))
  exact ends_activateOffset_of asked fun spec faults listed _ _ =>
    ends_activatePage_any (asked faults) inactive (counted.specs offset spec listed).1

theorem retables_activateAll (windowLen : Nat) (offsets activated : List Nat) :
    Moves Retables (activateAll windowLen offsets activated : FsM World Store Identity Unit) := by
  induction offsets generalizing activated with
  | nil => exact moves_pure ()
  | cons offset rest ih =>
    intro device
    rw [activateAll]
    refine ends_bind_trans (ends_get.mpr ⟨Std.Refl.refl device, fun _ same => ?_⟩)
    cases same
    refine ends_ite.mpr ⟨fun _ => ih activated device, fun absent => ?_⟩
    have inactive := TreeMap.getElem?_eq_none absent
    have activates : Ends (activateOffset windowLen offset) device fun _ after =>
        Retables device after := by
      refine ends_retables fun others counted => ?_
      refine (ends_activateOffset_any counted windowLen inactive).mono fun result after ends => ?_
      obtain ⟨countedAfter, copies, gained, kept, -⟩ := ends
      refine ⟨[], countedAfter, copies, ?_⟩
      by_cases active : result = .ok true
      · obtain ⟨mapping, state⟩ := gained active
        rw [state]
      · rw [kept active]
    refine ends_bind_trans (ends_settle.mpr (activates.mono fun result middle moved => ⟨moved, ?_⟩))
    rintro result ⟨⟩
    cases result with
    | error error =>
      exact moves_bind (retables_rollBack activated) (fun _ => moves_throw error) middle
    | ok active =>
      cases active with
      | true => exact ih (offset :: activated) middle
      | false => exact ih activated middle

theorem retables_activateOffsets (offsets : List Nat) :
    Moves Retables (activateOffsets offsets : FsM World Store Identity Unit) := by
  refine moves_ite (moves_pure ()) (moves_bind moves_get fun device => ?_)
  cases device.state.window with
  | none => exact moves_throw _
  | some window => exact moves_bind (moves_pure window) fun _ => retables_activateAll _ offsets []

theorem retables_resumeMappings : Moves Retables (resumeMappings : FsM World Store Identity Unit) :=
  moves_bind moves_get fun _ => retables_activateOffsets _

theorem strays_resumeMappings : Moves Strays (resumeMappings : FsM World Store Identity Unit) :=
  strays_of_retables retables_resumeMappings

end Device

/-!
## Requests
-/

namespace InProcessFsBackend

open Device

theorem strays_detachDaxWindow (hostAddress len : Nat) :
    Moves Strays (detachDaxWindow hostAddress len : FsM World Store Identity Unit) :=
  moves_bind moves_get fun _ => moves_onlyIf (moves_bind strays_suspendMappings fun _ =>
    strays_setWindow none)

theorem strays_removeMapping (windowOffset len : Nat) :
    Moves Strays (removeMapping windowOffset len : FsM World Store Identity Unit) :=
  moves_bind moves_require fun _ => moves_forM fun delta _ =>
    strays_removeOffset (windowOffset + delta) true

theorem newSpecs_placed {node : NodeId} {fileOffset len windowOffset : Nat} {writable : Bool}
    {entry : Nat × MappingSpec}
    (member : entry ∈ newSpecs node fileOffset len writable windowOffset)
    (window : windowOffset % pageSize = 0) (file : fileOffset % pageSize = 0)
    (whole : len % pageSize = 0) (bounded : windowOffset + len < Word64.bound) :
    Placed entry.1 ∧ entry.2.fileOffset % pageSize = 0 := by
  simp only [newSpecs, List.mem_map] at member
  obtain ⟨delta, listed, rfl⟩ := member
  have inside := (add_le_of_mem_pageOffsets (by rw [Nat.sub_zero]; exact whole) listed).2
  have aligned := mod_of_mem_pageOffsets (Nat.zero_mod _) listed
  refine ⟨⟨?_, ?_⟩, ?_⟩
  · rw [Nat.add_mod, window, aligned]
    rfl
  · change windowOffset + delta + pageSize < Word64.bound
    omega
  · change (fileOffset + delta) % pageSize = 0
    rw [Nat.add_mod, file, aligned]
    rfl

theorem strays_insertSpecs {inserted : List (Nat × MappingSpec)}
    (placed : ∀ entry ∈ inserted, Placed entry.1 ∧ entry.2.fileOffset % pageSize = 0) :
    Moves Strays (modifyState fun state =>
      { state with specs := TreeMap.insertAll state.specs inserted } :
        FsM World Store Identity Unit) := by
  refine moves_modify fun device => strays_of_same rfl rfl rfl fun offset spec found => ?_
  cases TreeMap.mem_or_of_getElem?_insertAll found with
  | inl new => exact .inl (placed _ new)
  | inr old => exact .inr old

theorem strays_eraseSpecs (offsets : List Nat) :
    Moves Strays (modifyState fun state =>
      { state with specs := TreeMap.eraseAll state.specs offsets } :
        FsM World Store Identity Unit) := by
  refine moves_modify fun device => strays_of_same rfl rfl rfl fun offset spec found => ?_
  rw [TreeMap.getElem?_eraseAll, Option.ite_none_left_eq_some] at found
  exact .inr found.2

variable [Std.LawfulEqOrd Identity] [DecidableEq Identity]
  [LawfulForkableStore World Store Identity]

theorem strays_attachDaxWindow (hostAddress len : Nat) :
    Moves Strays (attachDaxWindow hostAddress len : FsM World Store Identity Unit) := by
  refine moves_bind moves_get fun _ => moves_bind moves_require fun _ => ?_
  refine moves_bind (strays_setWindow _) fun _ => ?_
  refine moves_bind (moves_settle strays_resumeMappings) fun result => ?_
  cases result with
  | ok value => exact moves_pure ()
  | error error => exact moves_bind (strays_setWindow none) fun _ => moves_throw error

theorem strays_installSpecs {inserted : List (Nat × MappingSpec)}
    (placed : ∀ entry ∈ inserted, Placed entry.1 ∧ entry.2.fileOffset % pageSize = 0) :
    Moves Strays (do
      modifyState fun state => { state with specs := TreeMap.insertAll state.specs inserted }
      match ← settle (activateOffsets (inserted.map Prod.fst)) with
      | .error error =>
        modifyState fun state =>
          { state with specs := TreeMap.eraseAll state.specs (inserted.map Prod.fst) }
        throw error
      | .ok _ => pure () : FsM World Store Identity Unit) := by
  refine moves_bind (strays_insertSpecs placed) fun _ => ?_
  refine moves_bind (moves_settle (strays_of_retables (retables_activateOffsets _)))
    fun result => ?_
  cases result with
  | ok value => exact moves_pure ()
  | error error => exact moves_bind (strays_eraseSpecs _) fun _ => moves_throw error

theorem strays_setupMapping (inode fileOffset len : Nat) (writable : Bool) (windowOffset : Nat) :
    Moves Strays
      (setupMapping inode fileOffset len writable windowOffset :
        FsM World Store Identity Unit) := by
  intro device
  have unchanged : Strays device device := Std.Refl.refl device
  rw [setupMapping, ends_bind]
  refine ends_require.mpr ⟨fun shape => ?_, fun _ => unchanged⟩
  simp only [ends_bind, ends_get]
  refine ends_orThrow (fun window _ => ?_) fun _ => unchanged
  refine ends_orThrow (fun stop inside => ?_) fun _ => unchanged
  refine ends_orThrow (fun _ _ => ?_) fun _ => unchanged
  refine ends_require.mpr ⟨fun free => ?_, fun _ => unchanged⟩
  rw [ends_ofExcept]
  cases nodeId inode with
  | error error => exact unchanged
  | ok node =>
    obtain ⟨added, -⟩ := Option.filter_eq_some_iff.mp inside
    have bounded := Word64.checkedAdd_lt added
    rw [Word64.checkedAdd_eq_some added] at bounded
    have placed : ∀ entry ∈ newSpecs node fileOffset len writable windowOffset,
        Placed entry.1 ∧ entry.2.fileOffset % pageSize = 0 := fun entry member =>
      newSpecs_placed member (by omega) (by omega) (by omega) bounded
    have installed := strays_installSpecs placed device
    simp only [ends_bind] at installed
    exact installed

variable [FileMaker World Store] [LawfulFileMaker World Store Identity]
  {Holds : List DaxPageMapping → Device World Store Identity → Prop} [OverCache Holds]

theorem strays_read (inode offset capacity : Nat) :
    Moves (Straying Holds) (read inode offset capacity : FsM World Store Identity (List UInt8)) :=
  moves_bind moves_get fun device => moves_bind (moves_ofExcept _) fun node =>
    strays_call _ (.read capacity) device.state.branch node offset Reply.bytes

theorem strays_write (inode offset : Nat) (data : List UInt8) :
    Moves (Straying Holds) (write inode offset data : FsM World Store Identity Nat) :=
  moves_bind moves_get fun device => moves_bind (moves_ofExcept _) fun node =>
    strays_call _ (.write data) device.state.branch node offset Reply.count

end InProcessFsBackend

namespace VirtioFsBranch

open Device

variable [Std.LawfulEqOrd Identity] [DecidableEq Identity]
  [LawfulForkableStore World Store Identity] [FileMaker World Store]
  [LawfulFileMaker World Store Identity] {others : List DaxPageMapping}
  {device : Device World Store Identity}
  {Holds : List DaxPageMapping → Device World Store Identity → Prop} [OverCache Holds]

theorem strays_read (node offset len : Nat) :
    Moves (Straying Holds) (read node offset len : BackendM World Store Identity (List UInt8)) :=
  fun _ => ends_read_of (ends_of_forall fun _ opened _ =>
    strays_call _ (.read len) _ node offset Reply.bytes opened)

theorem strays_write_of
    (suspends : Moves (Straying Holds) (suspendMappings : FsM World Store Identity Unit))
    (resumes : Moves (Straying Holds) (resumeMappings : FsM World Store Identity Unit))
    (node offset : Nat) (bytes : List UInt8) :
    Moves (Straying Holds) (write node offset bytes : BackendM World Store Identity Unit) :=
  fun device => ends_write_of resumes ((suspends device).mono fun _ _ moved => ⟨moved, fun _ =>
    ends_writeSuspended_of (ends_of_forall fun _ opened _ =>
      strays_call _ (.write bytes) _ node offset Reply.count opened)⟩)

theorem ends_fork_any (counted : Counted others device) :
    Ends fork device fun result after => Strays device after ∧
      ∀ child, result = .ok child →
        Child device.state device.cache.copies after.cache.copies child := by
  refine ends_fork_of (fun device => ∃ others, Counted others device) ?_
    strays_resumeMappings ((retables_suspendMappings device).mono fun _ suspended retables => ?_)
  · rintro _ _ strays ⟨others, counted⟩
    obtain ⟨_, countedAfter, outlived, -⟩ := strays others counted
    exact ⟨⟨_, countedAfter⟩, outlived⟩
  · obtain ⟨strays, countedSuspended, copies, state⟩ := retables others counted
    exact ⟨retables.strays, fun _ => ⟨⟨_, countedSuspended⟩, ⟨_, countedSuspended.good⟩, copies,
      by rw [state]⟩⟩

end VirtioFsBranch

end Minidox.Virtiofs
