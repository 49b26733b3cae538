import Minidox.Virtiofs.Model

/-!
# The table of a DAX window

What holds of a device between its operations: its table of active mappings follows its specs,
and the cache counts exactly the mappings that the devices hold. The mappings of the other
devices of the lineage are a list that no operation of this device touches.
-/

set_option autoImplicit false

namespace Minidox.Virtiofs

open Foundation Attempt
open Cache
open Std (ExtTreeMap)
open SharedPageCache (Good lineageOf)

namespace Device

variable {World Store Identity : Type} [Ord Identity] {Error α β : Type}
  {device before after : Device World Store Identity} {offset : Nat}

theorem ends_onCache {translate : CacheError → Error} {operation : SharedM World Store Identity α}
    {post : Except Error α → Device World Store Identity → Prop} :
    Ends (onCache translate operation) device post ↔ Ends operation device.cache
      fun result cache => post (result.mapError translate) { device with cache } :=
  ends_within

theorem ends_onCache_bind {translate : CacheError → Error}
    {first : SharedM World Store Identity α} {next : α → SharedM World Store Identity β}
    {post : Except Error β → Device World Store Identity → Prop} :
    Ends (onCache translate (first >>= next)) device post ↔
      Ends (onCache translate first >>= fun value =>
        onCache translate (next value)) device post := by
  rw [ends_onCache, ends_bind, ends_bind, ends_onCache]
  refine iff_of_eq (congrArg (Ends first device.cache)
      (funext fun result => funext fun cache => ?_))
  cases result with
  | ok value =>
    change _ = Ends (onCache translate (next value)) { device with cache } post
    rw [ends_onCache]
  | error error => rfl

theorem ends_backend {name : String} {operation : FsM World Store Identity α}
    {post : Except BackendError α → Device World Store Identity → Prop} :
    Ends (backend name operation) device post ↔
      Ends operation device fun result after =>
        post (result.mapError (BackendError.mk name)) after :=
  ends_within

theorem moves_backend
    {relation : Device World Store Identity → Device World Store Identity → Prop} (name : String)
    {operation : FsM World Store Identity α}
    (moves : Moves relation operation) : Moves relation (backend name operation) := by
  intro device
  rw [ends_backend]
  exact moves device

theorem removeOffset_eq (offset : Nat) (removeSpec : Bool) :
    (removeOffset offset removeSpec : FsM World Store Identity Unit) = (do
      let device ← get
      match device.state.active[offset]? with
      | some mapping => deactivate offset mapping
      | none => require (offset ∈ device.state.specs) (.io (.os enoent))) >>= fun _ =>
        onlyIf removeSpec (modifyState fun state =>
          { state with specs := state.specs.erase offset }) := by
  rw [removeOffset, bind_assoc]
  congr 1
  funext device
  cases device.state.active[offset]? with
  | some mapping => rfl
  | none => rfl

theorem ends_mmap (mmaps : device.mmaps = [])
    {post : Except FsError Unit → Device World Store Identity → Prop}
    (mapped : post (.ok ()) device) : Ends mmap device post := by
  obtain ⟨cache, state, _⟩ := device
  cases mmaps
  exact mapped

def Without (offsets : List Nat) (before after : Device World Store Identity) : Prop :=
  after.state = { before.state with active := after.state.active } ∧
    ∀ offset, after.state.active[offset]? =
      if offset ∈ offsets then none else before.state.active[offset]?

theorem without_nil (device : Device World Store Identity) : Without [] device device :=
  ⟨rfl, fun offset => by simp⟩

theorem Without.cons {middle : Device World Store Identity} {rest : List Nat}
    (removed : middle.state = { before.state with active := before.state.active.erase offset })
    (without : Without rest middle after) : Without (offset :: rest) before after := by
  obtain ⟨same, active⟩ := without
  refine ⟨by rw [same, removed], fun other => ?_⟩
  rw [active other, removed, TreeMap.getElem?_erase_ite]
  by_cases later : other ∈ rest
  · simp [later]
  · by_cases here : other = offset <;> simp [later, here]

theorem Without.all (without : Without (before.state.active.toList.map Prod.fst) before after) :
    after.state = { before.state with active := ∅ } := by
  obtain ⟨same, active⟩ := without
  have empty : after.state.active = ∅ := by
    apply ExtTreeMap.ext_getElem?
    intro offset
    rw [active offset, ExtTreeMap.getElem?_empty]
    split
    next => rfl
    next inactive =>
      rw [TreeMap.mem_keys] at inactive
      rw [Option.eq_none_iff_forall_ne_some]
      exact fun mapping found => inactive ⟨mapping, found⟩
  rw [same, empty]

end Device

/-- A mapping at an offset of the window is the one that the spec asks for. -/
structure Entry (copies : CacheBranchId → Option Files) (state : VirtioFsBranch) (offset : Nat)
    (mapping : DaxPageMapping) (spec : MappingSpec) : Prop where
  listed : state.specs[offset]? = some spec
  inWindow : ∃ address len, state.window = some (address, len) ∧ offset + pageSize ≤ len
  branch : mapping.branch = state.branch
  key : mapping.key = (spec.inode, spec.fileOffset)
  flags : mapping.flags = spec.flags
  inFile : ∃ files bytes, copies state.branch = some files ∧ files spec.inode = some bytes ∧
    spec.fileOffset < bytes.length

/-- The branch of the device lives, and every active mapping has its entry. -/
structure Table (copies : CacheBranchId → Option Files) (state : VirtioFsBranch) : Prop where
  live : ∃ files, copies state.branch = some files
  aligned : ∀ offset spec, state.specs[offset]? = some spec → offset % pageSize = 0
  entry : ∀ offset mapping, state.active[offset]? = some mapping →
    ∃ spec, Entry copies state offset mapping spec

variable {World Store Identity : Type} [Ord Identity] [Std.TransOrd Identity]
  [ForkableNodeStore World Store Identity] [FileView Store] [IdentityLedger World Identity]
  [StoreLedger World Store] {Error α : Type}

/-- The device among others that hold mappings of their own. `mmap` does not fail. -/
structure Attached (others : List DaxPageMapping) (device : Device World Store Identity) :
    Prop where
  good : Good (others ++ TreeMap.values device.state.active) device.cache
  table : Table device.cache.copies device.state
  mmaps : device.mmaps = []

/-- An operation that may change which mappings are active, and nothing else of the device. -/
def Remaps (others : List DaxPageMapping) (before after : Device World Store Identity) : Prop :=
  Attached others before → Attached others after ∧
    Outlived before.cache.copies after.cache.copies ∧
    after.state = { before.state with active := after.state.active }

/-- An operation of the device. -/
def Follows (others : List DaxPageMapping) (before after : Device World Store Identity) : Prop :=
  Attached others before → Attached others after ∧
    Outlived before.cache.copies after.cache.copies ∧ after.state.branch = before.state.branch

variable {others : List DaxPageMapping} {device : Device World Store Identity}
  {copies : CacheBranchId → Option Files} {state : VirtioFsBranch}

instance : @Std.Refl (Device World Store Identity) (Remaps others) :=
  ⟨fun device attached => ⟨attached, Std.Refl.refl device.cache.copies, rfl⟩⟩

instance : IsTrans (Device World Store Identity) (Remaps others) where
  trans first second third earlier later attached := by
    obtain ⟨attachedSecond, outlivedSecond, sameSecond⟩ := earlier attached
    obtain ⟨attachedThird, outlivedThird, sameThird⟩ := later attachedSecond
    refine ⟨attachedThird, IsTrans.trans _ _ _ outlivedSecond outlivedThird, ?_⟩
    rw [sameThird, sameSecond]

instance : @Std.Refl (Device World Store Identity) (Follows others) :=
  ⟨fun device attached => ⟨attached, Std.Refl.refl device.cache.copies, rfl⟩⟩

instance : IsTrans (Device World Store Identity) (Follows others) where
  trans first second third earlier later attached := by
    obtain ⟨attachedSecond, outlivedSecond, sameSecond⟩ := earlier attached
    obtain ⟨attachedThird, outlivedThird, sameThird⟩ := later attachedSecond
    exact ⟨attachedThird, IsTrans.trans _ _ _ outlivedSecond outlivedThird,
      sameThird.trans sameSecond⟩

variable {before after : Device World Store Identity}

theorem Remaps.follows (remaps : Remaps others before after) : Follows others before after := by
  intro attached
  obtain ⟨attachedAfter, outlived, same⟩ := remaps attached
  exact ⟨attachedAfter, outlived, by rw [same]⟩

theorem moves_follows {operation : Attempt (Device World Store Identity) Error α}
    (moves : Moves (Remaps others) operation) : Moves (Follows others) operation :=
  fun device => (moves device).mono fun _ _ remaps => remaps.follows

/-!
## Tables and maps
-/

variable {offset : Nat} {spec : MappingSpec}

theorem Entry.outlive {before after : CacheBranchId → Option Files}
    (outlived : Outlived before after) {mapping : DaxPageMapping}
    (entry : Entry before state offset mapping spec) : Entry after state offset mapping spec := by
  obtain ⟨files, bytes, live, present, inside⟩ := entry.inFile
  obtain ⟨later, liveLater, kept⟩ := outlived _ files live
  obtain ⟨keptBytes, presentLater, length⟩ := kept _ bytes present
  exact { entry with inFile := ⟨later, keptBytes, liveLater, presentLater, length ▸ inside⟩ }

theorem Table.outlive {before after : CacheBranchId → Option Files}
    (outlived : Outlived before after) (table : Table before state) : Table after state where
  live := by
    obtain ⟨files, live⟩ := table.live
    obtain ⟨later, liveLater, -⟩ := outlived _ files live
    exact ⟨later, liveLater⟩
  aligned := table.aligned
  entry offset mapping found := by
    obtain ⟨spec, entry⟩ := table.entry offset mapping found
    exact ⟨spec, entry.outlive outlived⟩

theorem Table.congr {before after : CacheBranchId → Option Files}
    (table : Table before state) (same : after state.branch = before state.branch) :
    Table after state where
  live := same ▸ table.live
  aligned := table.aligned
  entry offset mapping found := by
    obtain ⟨spec, entry⟩ := table.entry offset mapping found
    exact ⟨spec, { entry with inFile := same ▸ entry.inFile }⟩

theorem Entry.setActive {mapping : DaxPageMapping} (entry : Entry copies state offset mapping spec)
    (active : ExtTreeMap Nat DaxPageMapping) :
    Entry copies { state with active } offset mapping spec :=
  ⟨entry.listed, entry.inWindow, entry.branch, entry.key, entry.flags, entry.inFile⟩

theorem Table.erase (table : Table copies state) (offset : Nat) :
    Table copies { state with active := state.active.erase offset } where
  live := table.live
  aligned := table.aligned
  entry other mapping found := by
    rw [TreeMap.getElem?_erase_ite, Option.ite_none_left_eq_some] at found
    obtain ⟨spec, entry⟩ := table.entry other mapping found.2
    exact ⟨spec, entry.setActive _⟩

theorem Table.insert (table : Table copies state) {mapping : DaxPageMapping}
    (entry : Entry copies state offset mapping spec) :
    Table copies { state with active := state.active.insert offset mapping } where
  live := table.live
  aligned := table.aligned
  entry other found there := by
    rw [TreeMap.getElem?_insert_ite] at there
    split at there
    next here =>
      cases there
      subst here
      exact ⟨spec, entry.setActive _⟩
    next =>
      obtain ⟨otherSpec, otherEntry⟩ := table.entry other found there
      exact ⟨otherSpec, otherEntry.setActive _⟩

theorem Table.detached (table : Table copies state) (none : state.window = none) (offset : Nat) :
    state.active[offset]? = Option.none := by
  rw [Option.eq_none_iff_forall_ne_some]
  intro mapping found
  obtain ⟨spec, entry⟩ := table.entry offset mapping found
  obtain ⟨address, len, attached, -⟩ := entry.inWindow
  rw [none] at attached
  cases attached

theorem Table.inactive (table : Table copies state) (unlisted : state.specs[offset]? = none) :
    state.active[offset]? = none := by
  rw [Option.eq_none_iff_forall_ne_some]
  intro mapping found
  obtain ⟨spec, entry⟩ := table.entry offset mapping found
  cases unlisted.symm.trans entry.listed

theorem Table.ofInactive (live : ∃ files, copies state.branch = some files)
    (aligned : ∀ offset spec, state.specs[offset]? = some spec → offset % pageSize = 0)
    (inactive : ∀ offset : Nat, state.active[offset]? = none) : Table copies state where
  live
  aligned
  entry offset mapping found := by
    rw [inactive offset] at found
    cases found

/-!
## Calls of the cache
-/

namespace Device

theorem Attached.setCache (attached : Attached others device)
    {cache : SharedPageCache World Store Identity}
    (good : Good (others ++ TreeMap.values device.state.active) cache)
    (outlived : Outlived device.cache.copies cache.copies) :
    Attached others { device with cache } :=
  ⟨good, attached.table.outlive outlived, attached.mmaps⟩

/-- A relation in which a device stands to itself after a call of the cache that keeps what is
counted. -/
class OfCalls (relation : Device World Store Identity → Device World Store Identity → Prop) :
    Prop where
  moves_onCache : ∀ {Error α : Type} {translate : CacheError → Error}
    {operation : SharedM World Store Identity α},
    (∀ {held : List DaxPageMapping} {cache : SharedPageCache World Store Identity},
      Good held cache → Ends operation cache fun _ after =>
        Good held after ∧ Outlived cache.copies after.copies) →
    Moves relation (onCache translate operation)

instance : OfCalls (Remaps others : Device World Store Identity → _ → Prop) where
  moves_onCache kept := by
    intro device
    refine ends_onCache.mpr (ends_imp.mpr fun attached => ?_)
    exact (kept attached.good).mono fun _ cache ends =>
      ⟨Attached.setCache attached ends.1 ends.2, ends.2, rfl⟩

instance : OfCalls (Follows others : Device World Store Identity → _ → Prop) where
  moves_onCache kept := moves_follows (OfCalls.moves_onCache kept)

omit [StoreLedger World Store] in
theorem outlived_of_sameView {before after : SharedPageCache World Store Identity}
    (same : (lineageOf before).SameView (lineageOf after)) :
    Outlived before.copies after.copies := by
  rw [show after.copies = before.copies from same.copies]
  exact Std.Refl.refl _

theorem moves_onCache_grown
    {relation : Device World Store Identity → Device World Store Identity → Prop} [OfCalls relation]
    {translate : CacheError → Error} {operation : SharedM World Store Identity α}
    (moves : Moves SharedPageCache.Grown operation) :
    Moves relation (onCache translate operation) :=
  OfCalls.moves_onCache fun good => (moves _).mono fun _ _ grown =>
    ⟨grown.good good, outlived_of_sameView (grown.sameView good)⟩

/-!
## Removing offsets
-/

section Offsets

variable {device : Device World Store Identity} (attached : Attached others device)

include attached

theorem ends_deactivate {mapping : DaxPageMapping}
    (found : device.state.active[offset]? = some mapping) :
    Ends (deactivate offset mapping) device fun result after => result = .ok () ∧
      Attached others after ∧ after.cache.copies = device.cache.copies ∧
      after.state = { device.state with active := device.state.active.erase offset } := by
  obtain ⟨spec, entry⟩ := attached.table.entry offset mapping found
  obtain ⟨address, len, window, -⟩ := entry.inWindow
  have listed := TreeMap.values_perm_erase found
  have member : mapping ∈ others ++ TreeMap.values device.state.active :=
    List.mem_append_right _ (TreeMap.mem_values.mpr ⟨offset, found⟩)
  have left : ((others ++ TreeMap.values device.state.active).erase mapping).Perm
      (others ++ TreeMap.values (device.state.active.erase offset)) := by
    have moved : (others ++ TreeMap.values device.state.active).Perm
        (mapping :: (others ++ TreeMap.values (device.state.active.erase offset))) :=
      (listed.append_left others).trans List.perm_middle
    have erased := moved.erase mapping
    rwa [List.erase_cons_head] at erased
  simp only [deactivate, modifyState, ends_bind, ends_modify, ends_get, ends_settle]
  refine ends_orThrow (fun _ _ => ?_) fun missing => by rw [window] at missing; cases missing
  apply ends_mmap
  · exact attached.mmaps
  dsimp only
  rw [ends_onCache]
  have unmapped := SharedPageCache.ends_unmap attached.good member
  rw [entry.branch] at unmapped
  refine unmapped.mono fun result cache ends => ?_
  obtain ⟨rfl, good, same⟩ := ends
  refine ⟨rfl, ⟨good.perm left, (attached.table.erase offset).outlive (outlived_of_sameView same),
    attached.mmaps⟩, same.copies, rfl⟩

theorem ends_removeOffset (offset : Nat) :
    Ends (removeOffset offset false) device fun result after =>
      Attached others after ∧ after.cache.copies = device.cache.copies ∧
      after.state = { device.state with active := device.state.active.erase offset } ∧
      (offset ∈ device.state.specs → result = .ok ()) := by
  simp only [removeOffset, ends_bind, ends_get]
  cases found : device.state.active[offset]? with
  | some mapping =>
    simp only [ends_bind]
    refine (ends_deactivate attached found).mono fun result after ends => ?_
    obtain ⟨rfl, attachedAfter, copies, state⟩ := ends
    exact ⟨attachedAfter, copies, state, fun _ => rfl⟩
  | none =>
    have same : device.state =
        { device.state with active := device.state.active.erase offset } := by
      have unchanged : device.state.active.erase offset = device.state.active := by
        apply ExtTreeMap.ext_getElem?
        intro other
        rw [TreeMap.getElem?_erase_ite]
        split
        next here => rw [here, found]
        next => rfl
      rw [unchanged]
    simp only [ends_bind, ends_require]
    exact ⟨fun listed => ⟨attached, rfl, same, fun _ => rfl⟩,
      fun unlisted => ⟨attached, trivial, same, fun listed => absurd listed unlisted⟩⟩

end Offsets

theorem ends_removeAll (attached : Attached others device)
    (offsets : List Nat) (listed : ∀ offset ∈ offsets, offset ∈ device.state.specs) :
    Ends (forM offsets fun offset => removeOffset offset false) device fun result after =>
      result = .ok ⟨⟩ ∧ Attached others after ∧ after.cache.copies = device.cache.copies ∧
        Without offsets device after := by
  induction offsets generalizing device with
  | nil => exact ⟨rfl, attached, rfl, without_nil device⟩
  | cons offset rest ih =>
    rw [List.forM_cons, ends_bind]
    refine (ends_removeOffset attached offset).mono fun result middle removed => ?_
    obtain ⟨attachedMiddle, copies, state, returned⟩ := removed
    obtain rfl := returned (listed offset List.mem_cons_self)
    have others : ∀ other ∈ rest, other ∈ middle.state.specs := by
      intro other member
      rw [state]
      exact listed other (List.mem_cons_of_mem _ member)
    refine (ih attachedMiddle others).mono fun last after ends => ?_
    obtain ⟨rfl, attachedAfter, copiesAfter, without⟩ := ends
    exact ⟨rfl, attachedAfter, copiesAfter.trans copies, without.cons state⟩

theorem ends_rollBack (attached : Attached others device) (offsets : List Nat) :
    Ends (rollBack offsets) device fun result after => result = .ok () ∧ Attached others after ∧
      after.cache.copies = device.cache.copies ∧ Without offsets device after := by
  induction offsets generalizing device with
  | nil => exact ⟨rfl, attached, rfl, without_nil device⟩
  | cons offset rest ih =>
    simp only [rollBack, ends_bind, ends_settle]
    refine (ends_removeOffset attached offset).mono fun result middle removed => ?_
    obtain ⟨attachedMiddle, copies, state, -⟩ := removed
    refine (ih attachedMiddle).mono fun last after ends => ?_
    obtain ⟨rfl, attachedAfter, copiesAfter, without⟩ := ends
    exact ⟨rfl, attachedAfter, copiesAfter.trans copies, without.cons state⟩

theorem ends_suspendMappings (attached : Attached others device) :
    Ends suspendMappings device fun result after => result = .ok ⟨⟩ ∧ Attached others after ∧
      after.cache.copies = device.cache.copies ∧
      after.state = { device.state with active := ∅ } := by
  simp only [suspendMappings, ends_bind, ends_get]
  refine (ends_removeAll attached _ fun offset member => ?_).mono fun result after ends => ?_
  · obtain ⟨mapping, found⟩ := TreeMap.mem_keys.mp member
    obtain ⟨spec, entry⟩ := attached.table.entry offset mapping found
    exact TreeMap.mem_of_getElem? entry.listed
  · obtain ⟨returned, attachedAfter, copies, same, active⟩ := ends
    exact ⟨returned, attachedAfter, copies, Without.all ⟨same, active⟩⟩

theorem moves_suspendMappings :
    Moves (Remaps others) (suspendMappings : FsM World Store Identity Unit) := by
  refine fun device => ends_imp.mpr fun attached => (ends_suspendMappings attached).mono ?_
  rintro _ after ⟨-, attachedAfter, copies, state⟩
  exact ⟨attachedAfter, copies ▸ Std.Refl.refl _, by rw [state]⟩

/-!
## Activating offsets
-/

def InFile (copies : CacheBranchId → Option Files) (branch : CacheBranchId) (spec : MappingSpec) :
    Prop :=
  ∃ files bytes, copies branch = some files ∧ files spec.inode = some bytes ∧
    spec.fileOffset < bytes.length

theorem inFile_iff {copies : CacheBranchId → Option Files} {branch : CacheBranchId} {files : Files}
    {bytes : List UInt8} (live : copies branch = some files)
    (present : files spec.inode = some bytes) :
    InFile copies branch spec ↔ spec.fileOffset < bytes.length := by
  constructor
  · rintro ⟨sameFiles, sameBytes, same, there, inside⟩
    cases live.symm.trans same
    cases present.symm.trans there
    exact inside
  · exact fun inside => ⟨files, bytes, live, present, inside⟩

def Activated (offset : Nat) (before after : Device World Store Identity) : Prop :=
  ∃ mapping, after.state =
    { before.state with active := before.state.active.insert offset mapping }

structure Activating (holds : Device World Store Identity → Prop) (offset : Nat)
    (device : Device World Store Identity) (result : Except FsError Bool)
    (after : Device World Store Identity) : Prop where
  holds : holds after
  copies : after.cache.copies = device.cache.copies
  gained : result = .ok true → Activated offset device after
  kept : result ≠ .ok true → after.state = device.state
  inFile : ∀ active, result = .ok active → ∃ spec, device.state.specs[offset]? = some spec ∧
    (active = true ↔ InFile device.cache.copies device.state.branch spec)

structure Activates (offsets : List Nat) (before after : Device World Store Identity) : Prop where
  outside : ∀ offset ∉ offsets, after.state.active[offset]? = before.state.active[offset]?
  inside : ∀ offset ∈ offsets, ∃ spec, before.state.specs[offset]? = some spec ∧
    (offset ∈ after.state.active ↔ InFile before.cache.copies before.state.branch spec)

omit [StoreLedger World Store] in
theorem Activates.cons {middle : Device World Store Identity} {rest : List Nat}
    (fresh : offset ∉ rest) (copies : middle.cache.copies = before.cache.copies)
    (state : middle.state = { before.state with active := middle.state.active })
    (others : ∀ other, other ≠ offset → middle.state.active[other]? = before.state.active[other]?)
    (listed : before.state.specs[offset]? = some spec)
    (here : offset ∈ middle.state.active ↔ InFile before.cache.copies before.state.branch spec)
    (later : Activates rest middle after) : Activates (offset :: rest) before after := by
  constructor
  · intro other absent
    rw [List.mem_cons, not_or] at absent
    rw [later.outside other absent.2, others other absent.1]
  · rw [List.forall_mem_cons]
    refine ⟨⟨spec, listed, ?_⟩, fun other member => ?_⟩
    · rw [← here, ExtTreeMap.mem_iff_isSome_getElem?, ExtTreeMap.mem_iff_isSome_getElem?,
        later.outside offset fresh]
    · obtain ⟨otherSpec, there, exactly⟩ := later.inside other member
      rw [copies, state] at exactly
      rw [state] at there
      exact ⟨otherSpec, there, exactly⟩

variable [DecidableEq Identity] [LawfulForkableStore World Store Identity]

theorem ends_activateOffset_of {holds : Device World Store Identity → Prop} {windowLen : Nat}
    (asked : ∀ faults, holds { device with cache := { device.cache with faults } })
    (page : ∀ spec faults, device.state.specs[offset]? = some spec →
      offset + pageSize ≤ windowLen → InFile device.cache.copies device.state.branch spec →
      Ends (activatePage offset spec) { device with cache := { device.cache with faults } }
        fun result after => holds after ∧ after.cache.copies = device.cache.copies ∧
          (result = .ok () → Activated offset device after) ∧
          ∀ error, result = .error error → after.state = device.state) :
    Ends (activateOffset windowLen offset) device (Activating holds offset device) := by
  have failed : ∀ {error faults}, Activating holds offset device (.error error)
      { device with cache := { device.cache with faults } } :=
    ⟨asked _, rfl, (by rintro ⟨⟩), fun _ => rfl, not_ok⟩
  simp only [activateOffset, ends_bind, ends_get]
  refine ends_orThrow (fun spec listed => ?_) fun _ => failed
  refine ends_require.mpr ⟨fun inWindow => ?_, fun _ => failed⟩
  refine ends_onCache.mpr (SharedPageCache.ends_askStore (fun state length found measured => ?_)
    (fun _ => failed) fun _ => failed)
  obtain ⟨files, bytes, live, present, rfl⟩ := System.file_of_len found measured
  have exactly := inFile_iff live present
  refine ends_ite.mpr ⟨fun beyond => ⟨asked _, rfl, (by rintro ⟨⟩), fun _ => rfl, ?_⟩,
    fun inside => ?_⟩
  · rintro active ⟨⟩
    exact ⟨spec, listed, (by rintro ⟨⟩), fun there => absurd (exactly.mp there)
      (Nat.not_lt_of_le beyond)⟩
  have inFile := exactly.mpr (Nat.lt_of_not_le inside)
  rw [ends_bind]
  refine (page spec device.cache.faults.tail listed inWindow inFile).mono
    fun result after ends => ?_
  obtain ⟨holdsAfter, copies, activated, kept⟩ := ends
  cases result with
  | error error => exact ⟨holdsAfter, copies, (by rintro ⟨⟩), fun _ => kept error rfl, not_ok⟩
  | ok value =>
    refine ⟨holdsAfter, copies, fun _ => activated rfl, fun other => absurd rfl other, ?_⟩
    rintro active ⟨⟩
    exact ⟨spec, listed, fun _ => inFile, fun _ => rfl⟩

variable [Std.LawfulEqOrd Identity]

theorem ends_activatePage (attached : Attached others device)
    (listed : device.state.specs[offset]? = some spec)
    (inWindow : ∃ address len, device.state.window = some (address, len) ∧ offset + pageSize ≤ len)
    (inFile : ∃ files bytes, device.cache.copies device.state.branch = some files ∧
      files spec.inode = some bytes ∧ spec.fileOffset < bytes.length)
    (inactive : device.state.active[offset]? = none) :
    Ends (activatePage offset spec) device fun result after => Attached others after ∧
      after.cache.copies = device.cache.copies ∧
      (result = .ok () → Activated offset device after) ∧
      ∀ error, result = .error error → after.state = device.state := by
  simp only [activatePage, ends_bind, ends_get]
  rw [ends_onCache]
  refine (SharedPageCache.ends_mapPage attached.good device.state.branch spec.inode spec.fileOffset
    spec.flags).mono fun result cache ends => ?_
  obtain ⟨same, failed, mapped⟩ := ends
  cases result with
  | error error =>
    exact ⟨Attached.setCache attached (failed error rfl) (outlived_of_sameView same), same.copies,
      (by rintro ⟨⟩), fun _ _ => rfl⟩
  | ok mapping =>
    obtain ⟨good, branch, key, flags⟩ := mapped mapping rfl
    have entry : Entry device.cache.copies device.state offset mapping spec :=
      ⟨listed, inWindow, branch, key, flags, inFile⟩
    change Ends (settle mmap) { device with cache } _
    rw [ends_settle]
    apply ends_mmap
    · exact attached.mmaps
    have counted : (mapping :: (others ++ TreeMap.values device.state.active)).Perm
        (others ++ TreeMap.values (device.state.active.insert offset mapping)) :=
      List.perm_middle.symm.trans
        ((TreeMap.values_insert_perm mapping inactive).symm.append_left others)
    exact ⟨⟨good.perm counted, (attached.table.insert entry).outlive (outlived_of_sameView same),
      attached.mmaps⟩, same.copies, fun _ => ⟨mapping, rfl⟩, not_error⟩

theorem ends_activateOffset (attached : Attached others device) {address windowLen : Nat}
    (window : device.state.window = some (address, windowLen))
    (inactive : device.state.active[offset]? = none) :
    Ends (activateOffset windowLen offset) device (Activating (Attached others) offset device) := by
  have asked : ∀ faults, Attached others { device with cache := { device.cache with faults } } := by
    intro faults
    have grown := SharedPageCache.grown_faults device.cache faults
    exact Attached.setCache attached (grown.good attached.good)
      (outlived_of_sameView (grown.sameView attached.good))
  exact ends_activateOffset_of asked fun spec faults listed inWindow inFile =>
    ends_activatePage (asked faults) listed ⟨address, windowLen, window, inWindow⟩ inFile inactive

/-- After a failure, what was active before stays, without the offsets that are given up. -/
theorem ends_activateAll (attached : Attached others device) {address windowLen : Nat}
    (window : device.state.window = some (address, windowLen)) (offsets activated : List Nat) :
    Ends (activateAll windowLen offsets activated) device fun result after =>
      Attached others after ∧ after.cache.copies = device.cache.copies ∧
      after.state = { device.state with active := after.state.active } ∧
      (offsets.Nodup → (∀ offset ∈ offsets, device.state.active[offset]? = none) →
        result = .ok () → Activates offsets device after) ∧
      ∀ error, result = .error error → ∀ offset : Nat, after.state.active[offset]? =
        if offset ∈ activated then none else device.state.active[offset]? := by
  induction offsets generalizing device activated with
  | nil => exact ⟨attached, rfl, rfl, fun _ _ _ => ⟨fun _ _ => rfl, (by rintro _ ⟨⟩)⟩, not_error⟩
  | cons offset rest ih =>
    simp only [activateAll, ends_bind, ends_get, ends_ite]
    refine ⟨fun active => ?_, fun absent => ?_⟩
    · refine (ih attached window activated).mono fun result after ends => ?_
      obtain ⟨attachedAfter, copies, state, -, lost⟩ := ends
      refine ⟨attachedAfter, copies, state, fun _ inactive => ?_, lost⟩
      exact absurd active (TreeMap.not_mem_of_getElem? (inactive offset List.mem_cons_self))
    have inactive := TreeMap.getElem?_eq_none absent
    rw [ends_settle]
    refine (ends_activateOffset attached window inactive).mono fun result middle activating => ?_
    obtain ⟨attachedMiddle, copies, gained, kept, known⟩ := activating
    cases result with
    | error error =>
      have same := kept (by rintro ⟨⟩)
      simp only [ends_bind]
      refine (ends_rollBack attachedMiddle activated).mono fun _ after removed => ?_
      obtain ⟨rfl, attachedAfter, copiesAfter, state, active⟩ := removed
      refine ⟨attachedAfter, copiesAfter.trans copies, state.trans (by rw [same]; rfl),
        fun _ _ => (by rintro ⟨⟩), fun _ _ other => ?_⟩
      exact (active other).trans (by rw [same])
    | ok activates =>
      obtain ⟨spec, listed, inFile⟩ := known activates rfl
      cases activates with
      | false =>
        have same := kept (by simp)
        refine (ih attachedMiddle (same ▸ window) activated).mono fun result after ends => ?_
        obtain ⟨attachedAfter, copiesAfter, state, exactly, lost⟩ := ends
        refine ⟨attachedAfter, copiesAfter.trans copies, by rw [state, same], ?_, same ▸ lost⟩
        intro distinct none returned
        obtain ⟨fresh, distinctRest⟩ := List.nodup_cons.mp distinct
        rw [List.forall_mem_cons] at none
        refine (exactly distinctRest (same ▸ none.2) returned).cons fresh copies (by rw [same])
          (by simp [same]) listed (iff_of_false ?_ fun there =>
            Bool.false_ne_true (inFile.mpr there))
        rw [same]
        exact absent
      | true =>
        obtain ⟨mapping, state⟩ := gained rfl
        have active : ∀ other : Nat, middle.state.active[other]? =
            if other = offset then some mapping else device.state.active[other]? := by
          intro other
          rw [state, TreeMap.getElem?_insert_ite]
        refine (ih attachedMiddle (by rw [state]; exact window) (offset :: activated)).mono ?_
        intro result after ends
        obtain ⟨attachedAfter, copiesAfter, same, exactly, lost⟩ := ends
        refine ⟨attachedAfter, copiesAfter.trans copies, by rw [same, state], ?_, ?_⟩
        · intro distinct none returned
          obtain ⟨fresh, distinctRest⟩ := List.nodup_cons.mp distinct
          rw [List.forall_mem_cons] at none
          refine (exactly distinctRest (fun other member => ?_) returned).cons fresh copies
            (by rw [state]) (fun other different => by rw [active, if_neg different]) listed ?_
          · rw [active, if_neg (ne_of_mem_of_not_mem member fresh), none.2 other member]
          · have present := active offset
            rw [if_pos rfl] at present
            exact iff_of_true (TreeMap.mem_of_getElem? present) (inFile.mp rfl)
        · intro error failed other
          rw [lost error failed other, active]
          by_cases here : other = offset
          · simp [here, inactive]
          · simp [here]

theorem ends_activateOffsets (attached : Attached others device) (offsets : List Nat) :
    Ends (activateOffsets offsets) device fun result after =>
      Attached others after ∧ after.cache.copies = device.cache.copies ∧
      after.state = { device.state with active := after.state.active } ∧
      (offsets.Nodup → (∀ offset ∈ offsets, device.state.active[offset]? = none) →
        result = .ok () → Activates offsets device after) ∧
      ∀ error, result = .error error → after.state.active = device.state.active := by
  rw [activateOffsets, ends_ite]
  refine ⟨fun empty => ?_, fun _ => ?_⟩
  · rw [List.isEmpty_iff.mp empty]
    exact ⟨attached, rfl, rfl, fun _ _ _ => ⟨fun _ _ => rfl, (by rintro _ ⟨⟩)⟩, not_error⟩
  simp only [ends_bind, ends_get]
  refine ends_orThrow (fun window found => ?_) fun _ =>
    ⟨attached, rfl, rfl, fun _ _ => (by rintro ⟨⟩), fun _ _ => rfl⟩
  refine (ends_activateAll attached found offsets []).mono fun result after ends => ?_
  obtain ⟨attachedAfter, copies, state, exactly, lost⟩ := ends
  refine ⟨attachedAfter, copies, state, exactly, fun error failed => ?_⟩
  apply ExtTreeMap.ext_getElem?
  intro offset
  rw [lost error failed offset, if_neg List.not_mem_nil]

theorem ends_resumeMappings (attached : Attached others device) :
    Ends resumeMappings device fun result after =>
      Attached others after ∧ after.cache.copies = device.cache.copies ∧
      after.state = { device.state with active := after.state.active } ∧
      ∀ error, result = .error error → after.state.active = device.state.active := by
  simp only [resumeMappings, ends_bind, ends_get]
  exact (ends_activateOffsets attached _).mono fun _ _ ends =>
    ⟨ends.1, ends.2.1, ends.2.2.1, ends.2.2.2.2⟩

theorem moves_resumeMappings :
    Moves (Remaps others) (resumeMappings : FsM World Store Identity Unit) := by
  refine fun device => ends_imp.mpr fun attached => (ends_resumeMappings attached).mono ?_
  rintro _ after ⟨attachedAfter, copies, state, -⟩
  exact ⟨attachedAfter, copies ▸ Std.Refl.refl _, state⟩

end Device

end Minidox.Virtiofs
