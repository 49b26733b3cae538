import Minidox.Cache.Shared.Handles
import Minidox.Virtiofs.Setup

/-!
# Suspending and resuming a table

After a suspension no mapping is active. A resumption maps the pages of the specs again, from
the lowest offset up. It succeeds when the host and the store serve every offset, and the
device before it is such that every page can be had: that depends on the window, the files, the
open handles, the exclusive pages, and the order of the offsets that map one page.
-/

set_option autoImplicit false

namespace Minidox.Virtiofs

open Foundation Attempt
open Cache
open Std (ExtTreeMap)
open SharedPageCache (Frame Busy NoIo noIo_ok unclaimed framed_unmap ends_askStore found_of_live)

def MappingSpec.key (spec : MappingSpec) : PageKey := (spec.inode, spec.fileOffset)

variable {World Store Identity : Type} [Ord Identity] {offset : Nat}

namespace Device

section Congr

variable [Std.TransOrd Identity] [ForkableNodeStore World Store Identity] [FileView Store]
  [IdentityLedger World Identity]

/-- A spec can be resumed, with the pages that are exclusive and those that are mapped. -/
structure Resumes (owned mapped : PageKey → Prop) (device : Device World Store Identity)
    (offset : Nat) (spec : MappingSpec) : Prop where
  inWindow : ∃ address len, device.state.window = some (address, len) ∧ offset + pageSize ≤ len
  file : ∃ files bytes, device.cache.copies device.state.branch = some files ∧
    files spec.inode = some bytes
  open' : InFile device.cache.copies device.state.branch spec →
    device.cache.opened device.state.branch spec.inode ≠ 0
  granted : InFile device.cache.copies device.state.branch spec → spec.writable →
    owned spec.key ∨ ¬ mapped spec.key

def ownedAfter (device : Device World Store Identity) (spec : MappingSpec) (owned : PageKey → Prop)
    (key : PageKey) : Prop :=
  owned key ∨
    InFile device.cache.copies device.state.branch spec ∧ spec.writable ∧ key = spec.key

def mappedAfter (device : Device World Store Identity) (spec : MappingSpec)
    (mapped : PageKey → Prop) (key : PageKey) : Prop :=
  mapped key ∨ InFile device.cache.copies device.state.branch spec ∧ key = spec.key

/-- The specs can be resumed one after the other. -/
def Resumable (device : Device World Store Identity) :
    (PageKey → Prop) → (PageKey → Prop) → List (Nat × MappingSpec) → Prop
  | _, _, [] => True
  | owned, mapped, (offset, spec) :: rest => Resumes owned mapped device offset spec ∧
    Resumable device (device.ownedAfter spec owned) (device.mappedAfter spec mapped) rest

structure Alike (left right : Device World Store Identity) : Prop where
  branch : right.state.branch = left.state.branch
  window : right.state.window = left.state.window
  specs : right.state.specs = left.state.specs
  copies : right.cache.copies left.state.branch = left.cache.copies left.state.branch
  opened : ∀ node, right.cache.opened left.state.branch node =
    left.cache.opened left.state.branch node

theorem Alike.symm {left right : Device World Store Identity} (alike : Alike left right) :
    Alike right left := by
  refine ⟨alike.branch.symm, alike.window.symm, alike.specs.symm, ?_, fun node => ?_⟩
  · rw [alike.branch, alike.copies]
  · rw [alike.branch, alike.opened]

variable {left right : Device World Store Identity} (alike : Alike left right)
  {owned mapped owned' mapped' : PageKey → Prop} (sameOwned : ∀ key, owned key → owned' key)
  (sameMapped : ∀ key, mapped' key → mapped key)

include alike

theorem Alike.inFile_iff {spec : MappingSpec} : InFile right.cache.copies right.state.branch spec ↔
    InFile left.cache.copies left.state.branch spec := by
  rw [InFile, alike.branch, alike.copies, InFile]

include sameOwned sameMapped

theorem Resumes.congr {spec : MappingSpec} (resumes : Resumes owned mapped left offset spec) :
    Resumes owned' mapped' right offset spec := by
  obtain ⟨inWindow, file, open', granted⟩ := resumes
  refine ⟨by rwa [alike.window], by rwa [alike.branch, alike.copies], fun inside => ?_,
    fun inside writable => ?_⟩
  · rw [alike.branch, alike.opened]
    exact open' (alike.inFile_iff.mp inside)
  · exact (granted (alike.inFile_iff.mp inside) writable).imp (sameOwned _)
      fun unmapped used => unmapped (sameMapped _ used)

theorem Resumable.congr {entries : List (Nat × MappingSpec)}
    (resumable : Resumable left owned mapped entries) : Resumable right owned' mapped' entries := by
  induction entries generalizing owned mapped owned' mapped' with
  | nil => trivial
  | cons entry rest ih =>
    refine ⟨resumable.1.congr alike sameOwned sameMapped, ih (fun key => ?_) (fun key => ?_)
      resumable.2⟩
    · exact Or.imp (sameOwned key) fun claimed => ⟨alike.inFile_iff.mpr claimed.1, claimed.2⟩
    · exact Or.imp (sameMapped key) fun taken => ⟨alike.inFile_iff.mp taken.1, taken.2⟩

end Congr

variable {others : List DaxPageMapping} {device before : Device World Store Identity}

def MappedBy (held : List DaxPageMapping) (branch : CacheBranchId) (key : PageKey) : Prop :=
  ∃ mapping ∈ held, mapping.branch = branch ∧ mapping.key = key

theorem not_busy_iff {held : List DaxPageMapping} {cache : SharedPageCache World Store Identity}
    {branch : CacheBranchId} {key : PageKey} :
    ¬ Busy held cache branch key ↔ cache.Owns branch key ∨ ¬ MappedBy held branch key := by
  rw [Busy, MappedBy, not_and_or, not_not]

/-!
## Suspension
-/

structure Loosens (before after : Device World Store Identity) : Prop where
  frame : Frame unclaimed before.cache after.cache
  rebranched : SharedPageCache.Rebranched before.cache after.cache

instance : @Std.Refl (Device World Store Identity) Loosens :=
  ⟨fun _ => ⟨Std.Refl.refl _, Std.Refl.refl _⟩⟩

instance : IsTrans (Device World Store Identity) Loosens where
  trans _ _ _ earlier later :=
    ⟨IsTrans.trans _ _ _ earlier.frame later.frame,
      IsTrans.trans _ _ _ earlier.rebranched later.rebranched⟩

theorem loosens_of_cache {after : Device World Store Identity} (same : after.cache = before.cache) :
    Loosens before after := by
  constructor
  · rw [same]
    exact Std.Refl.refl _
  · rw [same]
    exact Std.Refl.refl _

theorem loosens_modifyState (change : VirtioFsBranch → VirtioFsBranch) :
    Moves Loosens (modifyState change : FsM World Store Identity Unit) :=
  moves_modify fun _ => loosens_of_cache rfl

theorem loosens_mmap : Moves Loosens (mmap : FsM World Store Identity Unit) := by
  intro device
  simp only [mmap, ends_bind, ends_get, ends_set]
  cases device.mmaps.head?.join with
  | none => exact loosens_of_cache rfl
  | some fault => exact loosens_of_cache rfl

theorem loosens_unmap (branch : CacheBranchId) (mapping : DaxPageMapping) :
    Moves Loosens (onCache cacheIoError (SharedPageCache.unmap branch mapping) :
      FsM World Store Identity Unit) := by
  intro device
  have framed : Moves (Frame unclaimed)
      (SharedPageCache.unmap branch mapping : SharedM World Store Identity Unit) :=
    framed_unmap branch mapping
  rw [ends_onCache]
  exact ((framed device.cache).and
    (SharedPageCache.rebranched_unmap branch mapping device.cache)).mono
      fun _ _ ends => ⟨ends.1, ends.2⟩

theorem loosens_deactivate (offset : Nat) (mapping : DaxPageMapping) :
    Moves Loosens (deactivate offset mapping : FsM World Store Identity Unit) := by
  refine moves_bind (loosens_modifyState _) fun _ => moves_bind moves_get fun device => ?_
  cases device.state.window with
  | none => exact fun _ => Std.Refl.refl _
  | some window =>
    refine moves_bind (moves_pure window) fun _ => ?_
    refine moves_bind (moves_settle loosens_mmap) fun mapped => ?_
    cases mapped with
    | error error => exact moves_bind (loosens_modifyState _) fun _ => moves_throw error
    | ok value => exact loosens_unmap _ mapping

theorem loosens_suspendMappings :
    Moves Loosens (suspendMappings : FsM World Store Identity Unit) := by
  refine moves_bind moves_get fun _ => moves_forM fun offset _ => ?_
  rw [removeOffset_eq]
  refine moves_bind (moves_bind moves_get fun device => ?_) fun _ => moves_pure ()
  cases device.state.active[offset]? with
  | none => exact moves_require
  | some mapping => exact loosens_deactivate offset mapping

def Removable (window : Option (Nat × Nat)) (mmaps : Faults) (count : Nat) : Prop :=
  count = 0 ∨ window.isSome ∧ ∀ fault ∈ mmaps.take count, fault = none

theorem removable_succ {window : Option (Nat × Nat)} {mmaps : Faults} {count : Nat} :
    Removable window mmaps (count + 1) ↔
      window.isSome ∧ mmaps.head?.join = none ∧ Removable window mmaps.tail count := by
  have some : count + 1 ≠ 0 := Nat.succ_ne_zero count
  cases mmaps with
  | nil =>
    simp only [Removable, some, List.take_nil, List.not_mem_nil, List.head?_nil, List.tail_nil]
    simp
    exact fun attached => .inr attached
  | cons fault rest =>
    simp only [Removable, some, List.take_succ_cons, List.forall_mem_cons, List.head?_cons,
      List.tail_cons, Option.join_some, false_or]
    refine and_congr_right fun attached => and_congr_right fun _ => ?_
    constructor
    · exact fun quiet => .inr ⟨attached, quiet⟩
    · rintro (none | quiet)
      · simp [none]
      · exact quiet.2

theorem ends_removeOffset_active {mapping : DaxPageMapping}
    (found : device.state.active[offset]? = some mapping)
    {post : Except FsError Unit → Device World Store Identity → Prop}
    (removed : Ends (deactivate offset mapping) device post) :
    Ends (removeOffset offset false) device post := by
  simp only [removeOffset, ends_bind, ends_get, found]
  refine removed.mono fun result after ends => ?_
  cases result with
  | error error => exact ends
  | ok value => exact ends

variable [Std.TransOrd Identity] [ForkableNodeStore World Store Identity] [FileView Store]
  [IdentityLedger World Identity] [StoreLedger World Store]

theorem ends_removeAll_counted (counted : Counted others device) {offsets : List Nat}
    (distinct : offsets.Nodup) (active : ∀ offset ∈ offsets, offset ∈ device.state.active) :
    Ends (forM offsets fun offset => removeOffset offset false) device fun result after =>
      (result = .ok () ↔ Removable device.state.window device.mmaps offsets.length) ∧
      (result = .ok () → Counted others after ∧ after.cache.copies = device.cache.copies ∧
        after.mmaps = device.mmaps.drop offsets.length ∧ Without offsets device after) := by
  induction offsets generalizing device with
  | nil => exact ⟨iff_of_true rfl (.inl rfl), fun _ => ⟨counted, rfl, rfl, without_nil device⟩⟩
  | cons offset rest ih =>
    obtain ⟨fresh, distinctRest⟩ := List.nodup_cons.mp distinct
    rw [List.forall_mem_cons] at active
    obtain ⟨mapping, found⟩ := TreeMap.exists_of_mem active.1
    rw [List.forM_cons, ends_bind, List.length_cons, removable_succ]
    refine ends_removeOffset_active found ?_
    refine (ends_deactivate_any counted found).mono fun result middle ends => ?_
    cases window : device.state.window with
    | none =>
      rw [window] at ends
      obtain ⟨rfl, -⟩ := ends
      exact ⟨iff_of_false (by rintro ⟨⟩) (by rintro ⟨⟨⟩, -⟩), (by rintro ⟨⟩)⟩
    | some attached =>
      rw [window] at ends
      cases fault : device.mmaps.head?.join with
      | some fault =>
        rw [fault] at ends
        obtain ⟨rfl, -⟩ := ends
        exact ⟨iff_of_false (by rintro ⟨⟩) (by rintro ⟨-, ⟨⟩, -⟩), (by rintro ⟨⟩)⟩
      | none =>
        rw [fault] at ends
        obtain ⟨rfl, countedMiddle, copies, mmaps, state⟩ := ends
        have still : ∀ other ∈ rest, other ∈ middle.state.active := by
          intro other member
          rw [state, ExtTreeMap.mem_erase]
          refine ⟨fun same => ?_, active.2 other member⟩
          rw [Std.LawfulEqOrd.compare_eq_iff_eq] at same
          exact fresh (same ▸ member)
        refine (ih countedMiddle distinctRest still).mono fun result after ends => ?_
        obtain ⟨returned, removed⟩ := ends
        rw [mmaps, state, window] at returned
        refine ⟨returned.trans ⟨fun rest => ⟨rfl, rfl, rest⟩, fun all => all.2.2⟩, fun done => ?_⟩
        obtain ⟨countedAfter, copiesAfter, mmapsAfter, without⟩ := removed done
        refine ⟨countedAfter, copiesAfter.trans copies, ?_, without.cons state⟩
        rw [mmapsAfter, mmaps, List.drop_tail]

theorem ends_suspendMappings_counted (counted : Counted others device) :
    Ends suspendMappings device fun result after => Loosens device after ∧
      (result = .ok () ↔
        Removable device.state.window device.mmaps device.state.active.size) ∧
      (result = .ok () → Counted others after ∧ after.cache.copies = device.cache.copies ∧
        after.mmaps = device.mmaps.drop device.state.active.size ∧
        after.state = { device.state with active := ∅ }) := by
  have removed := ends_removeAll_counted counted (TreeMap.keys_nodup device.state.active)
    fun offset member => by
      obtain ⟨mapping, found⟩ := TreeMap.mem_keys.mp member
      exact TreeMap.mem_of_getElem? found
  rw [List.length_map, ExtTreeMap.length_toList] at removed
  have suspended : Ends suspendMappings device fun result after =>
      (result = .ok () ↔
        Removable device.state.window device.mmaps device.state.active.size) ∧
      (result = .ok () → Counted others after ∧ after.cache.copies = device.cache.copies ∧
        after.mmaps = device.mmaps.drop device.state.active.size ∧
        Without (device.state.active.toList.map Prod.fst) device after) := by
    simp only [suspendMappings, ends_bind, ends_get]
    exact removed
  refine ((loosens_suspendMappings device).and suspended).mono ?_
  rintro result after ⟨loosens, returned, left⟩
  refine ⟨loosens, returned, fun done => ?_⟩
  obtain ⟨countedAfter, copies, mmaps, without⟩ := left done
  exact ⟨countedAfter, copies, mmaps, without.all⟩

/-!
## One offset
-/

def ClaimsPage (branch : CacheBranchId) (spec : MappingSpec) (id : CacheBranchId) (key : PageKey) :
    Prop :=
  spec.writable ∧ id = branch ∧ key = spec.key

def Claims (device : Device World Store Identity) (spec : MappingSpec) (id : CacheBranchId)
    (key : PageKey) : Prop :=
  InFile device.cache.copies device.state.branch spec ∧ ClaimsPage device.state.branch spec id key

def Entered (offset : Nat) (spec : MappingSpec) (before after : Device World Store Identity) :
    Prop :=
  ∃ mapping, after.state =
      { before.state with active := before.state.active.insert offset mapping } ∧
    mapping.key = spec.key ∧ mapping.flags = spec.flags

theorem Counted.asked (counted : Counted others device) : Counted others { device with
    cache := { device.cache with faults := device.cache.faults.tail } } := by
  have grown := SharedPageCache.grown_faults device.cache device.cache.faults.tail
  exact counted.setCache (grown.good counted.good)
    (outlived_of_sameView (grown.sameView counted.good))

structure Resuming (others : List DaxPageMapping) (owned mapped : PageKey → Prop)
    (before now : Device World Store Identity) : Prop where
  counted : Counted others now
  opened : ∀ id node, now.cache.opened id node = before.cache.opened id node
  copies : now.cache.copies = before.cache.copies
  state : now.state = { before.state with active := now.state.active }
  owned : ∀ key, now.cache.Owns before.state.branch key ↔ owned key
  mapped : ∀ key, MappedBy (others ++ TreeMap.values now.state.active) before.state.branch key ↔
    mapped key

variable {spec : MappingSpec} {owned mapped : PageKey → Prop}
  {now after : Device World Store Identity}

section Resuming

variable (resuming : Resuming others owned mapped before now)

include resuming

theorem Resuming.alike : Alike now before := by
  have branch : now.state.branch = before.state.branch := by rw [resuming.state]
  exact ⟨branch.symm, by rw [resuming.state], by rw [resuming.state], by rw [resuming.copies],
    fun node => (resuming.opened _ node).symm⟩

theorem Resuming.resumes_iff : Resumes (now.cache.Owns now.state.branch)
    (MappedBy (others ++ TreeMap.values now.state.active) now.state.branch) now offset spec ↔
      Resumes owned mapped before offset spec := by
  rw [← resuming.alike.branch]
  exact ⟨fun resumes => resumes.congr resuming.alike (fun key => (resuming.owned key).mp)
      fun key => (resuming.mapped key).mpr,
    fun resumes => resumes.congr resuming.alike.symm (fun key => (resuming.owned key).mpr)
      fun key => (resuming.mapped key).mp⟩

theorem Resuming.entered (inactive : now.state.active[offset]? = none)
    (inFile : InFile before.cache.copies before.state.branch spec) (counted : Counted others after)
    (copies : after.cache.copies = now.cache.copies)
    (frame : Frame (now.Claims spec) now.cache after.cache)
    (entered : Entered offset spec now after) : Resuming others (before.ownedAfter spec owned)
      (before.mappedAfter spec mapped) before after := by
  obtain ⟨mapping, state, page, flags⟩ := entered
  have branch := resuming.alike.branch
  have whole : after.state = { before.state with active := after.state.active } := by
    rw [state, resuming.state]
  have there : after.state.active[offset]? = some mapping := by
    rw [state]
    exact ExtTreeMap.getElem?_insert_self
  have own : mapping.branch = before.state.branch :=
    (counted.own offset mapping there).1.trans (by rw [whole])
  have taken : (others ++ TreeMap.values after.state.active).Perm
      (mapping :: (others ++ TreeMap.values now.state.active)) := by
    rw [state]
    exact ((TreeMap.values_insert_perm mapping inactive).append_left others).trans List.perm_middle
  refine ⟨counted, fun id node => (frame.opened id node).trans (resuming.opened id node),
    copies.trans resuming.copies, whole, fun key => ?_, fun key => ?_⟩
  · constructor
    · intro has
      cases frame.claimed _ _ has with
      | inl earlier => exact .inl ((resuming.owned key).mp earlier)
      | inr claimed => exact .inr ⟨inFile, claimed.2.1, claimed.2.2.2⟩
    · rintro (earlier | ⟨-, writable, rfl⟩)
      · exact frame.owns _ _ ((resuming.owned key).mpr earlier)
      · have has := counted.good.owns (taken.mem_iff.mpr List.mem_cons_self)
          (by rw [flags, MappingSpec.write_flags]; exact writable)
        rwa [own, page] at has
  · rw [mappedAfter, ← resuming.mapped key]
    simp only [MappedBy, taken.mem_iff, List.mem_cons, or_and_right, exists_or, exists_eq_left]
    rw [or_comm]
    refine or_congr_right ⟨fun same => ⟨inFile, same.2.symm.trans page⟩, fun same => ⟨own, ?_⟩⟩
    exact page.trans same.2.symm

theorem Resuming.passed (outside : ¬ InFile before.cache.copies before.state.branch spec)
    (counted : Counted others after) (copies : after.cache.copies = now.cache.copies)
    (frame : Frame (now.Claims spec) now.cache after.cache) (state : after.state = now.state) :
    Resuming others (before.ownedAfter spec owned) (before.mappedAfter spec mapped) before
      after := by
  have unclaimed : ∀ id key, ¬ now.Claims spec id key := fun id key claimed =>
    outside (resuming.alike.inFile_iff.mpr claimed.1)
  refine ⟨counted, fun id node => (frame.opened id node).trans (resuming.opened id node),
    copies.trans resuming.copies, by rw [state]; exact resuming.state, fun key => ?_, fun key => ?_⟩
  · rw [ownedAfter, ← resuming.owned key]
    constructor
    · exact fun has => .inl ((frame.claimed _ _ has).resolve_right (unclaimed _ _))
    · rintro (earlier | new)
      · exact frame.owns _ _ earlier
      · exact absurd new.1 outside
  · rw [mappedAfter, state, resuming.mapped key]
    exact ⟨.inl, fun either => either.resolve_right fun new => outside new.1⟩

end Resuming

variable [Std.LawfulEqOrd Identity] [DecidableEq Identity]
  [LawfulForkableStore World Store Identity]

theorem framed_activatePage (counted : Counted others device) (offset : Nat) :
    Ends (activatePage offset spec) device fun result after =>
      Frame (ClaimsPage device.state.branch spec) device.cache after.cache ∧
      (result = .ok () → Entered offset spec device after) := by
  simp only [activatePage, ends_bind, ends_get]
  rw [ends_onCache]
  refine ((SharedPageCache.framed_mapPage device.state.branch spec.inode spec.fileOffset spec.flags
    device.cache).and (SharedPageCache.ends_mapPage counted.good device.state.branch spec.inode
    spec.fileOffset spec.flags)).mono ?_
  rintro result cache ⟨framed, -, -, mapped⟩
  have frame : Frame (ClaimsPage device.state.branch spec) device.cache cache := by
    rw [spec.write_flags] at framed
    exact framed
  cases result with
  | error error => exact ⟨frame, (by rintro ⟨⟩)⟩
  | ok mapping =>
    have given : Moves (Frame (ClaimsPage device.state.branch spec))
        (SharedPageCache.unmap device.state.branch mapping : SharedM World Store Identity Unit) :=
      framed_unmap device.state.branch mapping
    obtain ⟨-, -, key, flags⟩ := mapped mapping rfl
    change Ends (settle mmap) { device with cache } _
    rw [ends_settle]
    simp only [mmap, ends_bind, ends_get, ends_set]
    cases device.mmaps.head?.join with
    | none => exact ⟨frame, fun _ => ⟨mapping, rfl, key, flags⟩⟩
    | some fault =>
      simp only [ends_throw, ends_bind]
      rw [ends_onCache]
      refine (given cache).mono fun result after unmapped => ?_
      cases result with
      | error error => exact ⟨IsTrans.trans _ _ _ frame unmapped, (by rintro ⟨⟩)⟩
      | ok value => exact ⟨IsTrans.trans _ _ _ frame unmapped, (by rintro ⟨⟩)⟩

theorem framed_activateOffset (counted : Counted others device) {windowLen : Nat}
    (listed : device.state.specs[offset]? = some spec) :
    Ends (activateOffset windowLen offset) device fun result after =>
      Frame (device.Claims spec) device.cache after.cache ∧
      (result = .ok true → Entered offset spec device after) := by
  have asked : Frame (device.Claims spec) device.cache
      { device.cache with faults := device.cache.faults.tail } := SharedPageCache.OfBranches.tail _
  simp only [activateOffset, ends_bind, ends_get, listed, orThrow, ends_pure]
  refine ends_require.mpr ⟨fun _ => ?_, fun _ => ⟨Std.Refl.refl _, (by rintro ⟨⟩)⟩⟩
  refine ends_onCache.mpr (ends_askStore (fun state length found measured => ?_)
    (fun _ => ⟨asked, (by rintro ⟨⟩)⟩) fun _ => ⟨Std.Refl.refl _, (by rintro ⟨⟩)⟩)
  obtain ⟨files, bytes, live, present, rfl⟩ := System.file_of_len found measured
  refine ends_ite.mpr ⟨fun _ => ⟨asked, (by rintro ⟨⟩)⟩, fun inside => ?_⟩
  have inFile : InFile device.cache.copies device.state.branch spec :=
    ⟨files, bytes, live, present, Nat.lt_of_not_le inside⟩
  rw [ends_bind]
  refine (framed_activatePage counted.asked offset).mono fun result after ends => ?_
  obtain ⟨frame, entered⟩ := ends
  have claimed := IsTrans.trans _ _ _ asked (frame.mono fun id key claim => ⟨inFile, claim⟩)
  cases result with
  | error error => exact ⟨claimed, (by rintro ⟨⟩)⟩
  | ok value => exact ⟨claimed, fun _ => entered rfl⟩

/-- The host and the store serve what is asked of them to map the page of a spec. -/
def ServesPage (device : Device World Store Identity) (spec : MappingSpec) : Prop :=
  Ends (SharedPageCache.mapPage device.state.branch spec.inode spec.fileOffset spec.flags)
    device.cache fun mapped _ => NoIo mapped ∧
      ∀ mapping, mapped = .ok mapping → device.mmaps.head?.join = none

theorem ends_activatePage_iff (counted : Counted others device) (offset : Nat)
    (aligned : spec.fileOffset % pageSize = 0) :
    Ends (activatePage offset spec) device fun result _ => result = .ok () ↔
      (device.cache.opened device.state.branch spec.inode ≠ 0 ∧
        (spec.writable → device.cache.Owns device.state.branch spec.key ∨
          ¬ MappedBy (others ++ TreeMap.values device.state.active) device.state.branch spec.key)) ∧
        device.ServesPage spec := by
  obtain ⟨files, live⟩ := counted.live
  obtain ⟨branch, found⟩ := found_of_live live
  simp only [activatePage, ends_bind, ends_get]
  rw [ends_onCache]
  by_cases closed : device.cache.opened device.state.branch spec.inode = 0
  · refine (SharedPageCache.ends_mapPage_closed closed spec.fileOffset spec.flags).mono ?_
    rintro result cache ⟨error, rfl⟩
    exact iff_of_false (by rintro ⟨⟩) fun all => all.1.1 closed
  have access : (spec.flags.read || spec.flags.write) = true := by
    unfold MappingSpec.flags
    cases spec.writable <;> rfl
  have serves : Ends (SharedPageCache.mapPage device.state.branch spec.inode spec.fileOffset
      spec.flags) device.cache fun mapped _ => device.ServesPage spec ↔ NoIo mapped ∧
        ∀ mapping, mapped = .ok mapping → device.mmaps.head?.join = none := ends_self _ _ _
  refine ((SharedPageCache.ends_mapPage_answers counted.good found aligned access closed).and
    serves).mono ?_
  rintro result cache ⟨answers, served⟩
  rw [and_iff_right closed, served]
  cases answers with
  | failed io => exact iff_of_false (by rintro ⟨⟩) fun all => all.2.1 io rfl
  | refused writes busy =>
    rw [spec.write_flags] at writes
    exact iff_of_false (by rintro ⟨⟩) fun all => not_busy_iff.mpr (all.1 writes) busy
  | given free mapping =>
    rw [spec.write_flags, not_and] at free
    have granted := fun writable => not_busy_iff.mp (free writable)
    change Ends (settle mmap) { device with cache } _
    rw [ends_settle]
    simp only [mmap, ends_bind, ends_get, ends_set]
    cases device.mmaps.head?.join with
    | none => exact iff_of_true rfl ⟨granted, noIo_ok mapping, fun _ _ => rfl⟩
    | some fault =>
      simp only [ends_throw, ends_bind]
      refine ends_of_forall fun result after => ?_
      have refused : ¬ ∀ other, (.ok mapping : Except CacheError DaxPageMapping) = .ok other →
          some fault = none := fun all => absurd (all mapping rfl) (by rintro ⟨⟩)
      cases result with
      | error error => exact iff_of_false (by rintro ⟨⟩) fun all => refused all.2.2
      | ok value => exact iff_of_false (by rintro ⟨⟩) fun all => refused all.2.2

/-- The host and the store serve what is asked of them to activate an offset: the length of the
file, and the page if the file has it. -/
def ServesOffset (device : Device World Store Identity) (offset : Nat) : Prop :=
  ∀ spec, device.state.specs[offset]? = some spec →
    Ends (SharedPageCache.askStore device.state.branch fun store =>
        NodeStore.len World store spec.inode) device.cache fun length cache =>
      NoIo length ∧ (InFile device.cache.copies device.state.branch spec →
        ServesPage { device with cache } spec)

theorem ends_activateOffset_iff (counted : Counted others device) {address windowLen : Nat}
    (window : device.state.window = some (address, windowLen))
    (listed : device.state.specs[offset]? = some spec) (aligned : spec.fileOffset % pageSize = 0) :
    Ends (activateOffset windowLen offset) device fun result _ => (∃ active, result = .ok active) ↔
      Resumes (device.cache.Owns device.state.branch)
        (MappedBy (others ++ TreeMap.values device.state.active) device.state.branch) device offset
        spec ∧ device.ServesOffset offset := by
  obtain ⟨files, live⟩ := counted.live
  have refused : ∀ {error : FsError} {needed : Prop}, ¬ needed →
      ((∃ active, (.error error : Except FsError Bool) = .ok active) ↔ needed) :=
    fun fails => iff_of_false (by rintro ⟨_, ⟨⟩⟩) fails
  have serves : Ends (SharedPageCache.askStore device.state.branch
      fun store => NodeStore.len World store spec.inode) device.cache fun length cache =>
        device.ServesOffset offset ↔ NoIo length ∧
          (InFile device.cache.copies device.state.branch spec →
            ServesPage { device with cache } spec) := by
    refine (ends_self _ _ _).mono fun length cache same => Iff.trans ?_ same
    refine ⟨fun all => all spec listed, fun here other there => ?_⟩
    cases listed.symm.trans there
    exact here
  simp only [activateOffset, ends_bind, ends_get, listed, orThrow, ends_pure]
  refine ends_require.mpr ⟨fun inWindow => ?_, fun outside => refused fun all => ?_⟩
  · refine ends_onCache.mpr (Ends.mp (ends_askStore (fun state length found measured served => ?_)
      (fun fault served => ?_) fun absent => ?_) serves)
    · obtain ⟨files, bytes, live, present, rfl⟩ := System.file_of_len found measured
      have exactly := inFile_iff live present
      refine ends_ite.mpr ⟨fun beyond => ?_, fun inside => ?_⟩
      · rw [served]
        refine iff_of_true ⟨false, rfl⟩ ⟨⟨⟨address, windowLen, window, inWindow⟩,
          ⟨files, bytes, live, present⟩, fun there => ?_, fun there => ?_⟩, noIo_ok _,
          fun there => ?_⟩
        all_goals exact absurd (exactly.mp there) (Nat.not_lt_of_le beyond)
      · have inFile := exactly.mpr (Nat.lt_of_not_le inside)
        rw [ends_bind]
        rw [served, and_iff_right (noIo_ok _), imp_iff_right inFile]
        refine (ends_activatePage_iff counted.asked offset aligned).mono fun result after ends => ?_
        cases result with
        | error error =>
          exact refused fun all => absurd
            (ends.mpr ⟨⟨all.1.open' inFile, all.1.granted inFile⟩, all.2⟩) (by rintro ⟨⟩)
        | ok value =>
          obtain ⟨mapped, page⟩ := ends.mp rfl
          exact iff_of_true ⟨true, rfl⟩ ⟨⟨⟨address, windowLen, window, inWindow⟩,
            ⟨files, bytes, live, present⟩, fun _ => mapped.1, fun _ => mapped.2⟩, page⟩
    · rw [served]
      exact refused fun all => all.2.1 fault rfl
    · rw [← SharedPageCache.copies_eq_none_iff, live] at absent
      cases absent
  · obtain ⟨other, len, same, fits⟩ := all.1.inWindow
    cases window.symm.trans same
    exact outside fits

theorem Resuming.ends_activateOffset (resuming : Resuming others owned mapped before now)
    {address windowLen : Nat}
    (window : before.state.window = some (address, windowLen))
    (listed : before.state.specs[offset]? = some spec) (aligned : spec.fileOffset % pageSize = 0)
    (absent : offset ∉ now.state.active) :
    Ends (activateOffset windowLen offset) now fun result after =>
      ((∃ active, result = .ok active) ↔
        Resumes owned mapped before offset spec ∧ now.ServesOffset offset) ∧
      ∀ active, result = .ok active →
        (∀ other, other ≠ offset → other ∉ now.state.active → other ∉ after.state.active) ∧
        Resuming others (before.ownedAfter spec owned) (before.mappedAfter spec mapped) before
          after := by
  have windowNow : now.state.window = some (address, windowLen) := by rw [resuming.state, window]
  have listedNow : now.state.specs[offset]? = some spec := by rw [resuming.state, listed]
  have inactive := TreeMap.getElem?_eq_none absent
  refine (((ends_activateOffset_iff resuming.counted windowNow listedNow aligned).and
    (ends_activateOffset_any resuming.counted windowLen inactive)).and
    (framed_activateOffset resuming.counted listedNow)).mono ?_
  rintro result after ⟨⟨activates, counted, copies, -, kept, inFile⟩, frame, entered⟩
  refine ⟨activates.trans (and_congr_left fun _ => resuming.resumes_iff), ?_⟩
  rintro active rfl
  obtain ⟨same, there, exactly⟩ := inFile active rfl
  cases listedNow.symm.trans there
  rw [← resuming.alike.inFile_iff] at exactly
  cases active with
  | true =>
    refine ⟨fun other different missing => ?_,
      resuming.entered inactive (exactly.mp rfl) counted copies frame (entered rfl)⟩
    obtain ⟨mapping, state, -⟩ := entered rfl
    rw [state, ExtTreeMap.mem_insert, Std.LawfulEqOrd.compare_eq_iff_eq, not_or]
    exact ⟨different.symm, missing⟩
  | false =>
    have state := kept (by simp)
    refine ⟨fun other _ missing => by rwa [state], ?_⟩
    exact resuming.passed (exactly.not.mp Bool.false_ne_true) counted copies frame state

/-!
## All offsets, from the lowest up
-/

/-- The host and the store serve the offsets, each after those before it. -/
def ServesAll (windowLen : Nat) : List Nat → Device World Store Identity → Prop
  | [], _ => True
  | offset :: rest, device => device.ServesOffset offset ∧
    Ends (activateOffset windowLen offset) device fun _ after => ServesAll windowLen rest after

theorem Resuming.ends_activateAll (resuming : Resuming others owned mapped before now)
    {address windowLen : Nat} (window : before.state.window = some (address, windowLen))
    {entries : List (Nat × MappingSpec)} (distinct : (entries.map Prod.fst).Nodup)
    (listed : ∀ entry ∈ entries, before.state.specs[entry.1]? = some entry.2 ∧
      entry.2.fileOffset % pageSize = 0)
    (absent : ∀ entry ∈ entries, entry.1 ∉ now.state.active) (activated : List Nat) :
    Ends (activateAll windowLen (entries.map Prod.fst) activated) now fun result after =>
      (result = .ok () ↔ Resumable before owned mapped entries ∧
        ServesAll windowLen (entries.map Prod.fst) now) ∧
      (result = .ok () → ∃ owned mapped, Resuming others owned mapped before after) := by
  induction entries generalizing now owned mapped activated with
  | nil => exact ⟨iff_of_true rfl ⟨trivial, trivial⟩, fun _ => ⟨owned, mapped, resuming⟩⟩
  | cons entry rest ih =>
    obtain ⟨offset, spec⟩ := entry
    rw [List.map_cons, List.nodup_cons] at distinct
    rw [List.forall_mem_cons] at listed absent
    simp only [List.map_cons, activateAll, ends_bind, ends_get, ends_ite]
    refine ⟨fun active => absurd active absent.1, fun _ => ?_⟩
    rw [ends_settle]
    have serves : Ends (activateOffset windowLen offset) now fun _ after =>
        ServesAll windowLen (offset :: rest.map Prod.fst) now ↔
          now.ServesOffset offset ∧ ServesAll windowLen (rest.map Prod.fst) after :=
      (ends_self _ _ _).mono fun _ _ same => and_congr_right fun _ => same
    refine ((resuming.ends_activateOffset window listed.1.1 listed.1.2 absent.1).and serves).mono ?_
    rintro result middle ⟨⟨resumes, further⟩, served⟩
    rw [served, Resumable, and_and_and_comm]
    cases result with
    | error error =>
      simp only [ends_bind]
      refine ends_of_forall fun rolled after => ?_
      have refused := resumes.not.mp (by rintro ⟨_, ⟨⟩⟩)
      have failed : ∀ other : FsError, ¬ (.error other : Except FsError Unit) = .ok () :=
        fun _ => by rintro ⟨⟩
      cases rolled with
      | error error =>
        exact ⟨iff_of_false (failed _) fun both => refused both.1, fun ok => absurd ok (failed _)⟩
      | ok value =>
        exact ⟨iff_of_false (failed _) fun both => refused both.1, fun ok => absurd ok (failed _)⟩
    | ok active =>
      obtain ⟨missing, next⟩ := further active rfl
      rw [and_iff_right (resumes.mp ⟨active, rfl⟩)]
      have still : ∀ entry ∈ rest, entry.1 ∉ middle.state.active := fun entry member =>
        missing entry.1 (fun same => distinct.1 (List.mem_map.mpr ⟨entry, member, same⟩))
          (absent.2 entry member)
      cases active with
      | true => exact ih next distinct.2 listed.2 still (offset :: activated)
      | false => exact ih next distinct.2 listed.2 still activated

/-- The host and the store serve a resumption. -/
def ServesTable (device : Device World Store Identity) : Prop :=
  ∀ window, device.state.window = some window →
    ServesAll window.2 (device.state.specs.toList.map Prod.fst) device

/-- A table without active mappings is resumed when all its specs can be, and are served. -/
theorem ends_resumeMappings_iff (counted : Counted others device)
    (suspended : device.state.active = ∅) :
    Ends resumeMappings device fun result after =>
      (result = .ok () ↔ Resumable device (device.cache.Owns device.state.branch)
        (MappedBy others device.state.branch) device.state.specs.toList ∧ device.ServesTable) ∧
      (result = .ok () → ∃ owned mapped, Resuming others owned mapped device after) := by
  have start : Resuming others (device.cache.Owns device.state.branch)
      (MappedBy others device.state.branch) device device := by
    refine ⟨counted, fun _ _ => rfl, rfl, rfl, fun _ => Iff.rfl, fun key => ?_⟩
    rw [suspended, TreeMap.values_empty, List.append_nil]
  simp only [resumeMappings, ends_bind, ends_get]
  rw [activateOffsets, ends_ite, List.isEmpty_iff, List.map_eq_nil_iff]
  refine ⟨fun empty => ?_, fun nonempty => ?_⟩
  · rw [ServesTable, empty]
    exact ⟨iff_of_true rfl ⟨trivial, fun _ _ => trivial⟩, fun _ => ⟨_, _, start⟩⟩
  · simp only [ends_bind, ends_get]
    refine ends_orThrow (fun window found => ?_) fun missing => ?_
    · have serves : device.ServesTable ↔
          ServesAll window.2 (device.state.specs.toList.map Prod.fst) device :=
        ⟨fun all => all window found, fun here other there => by
          cases found.symm.trans there
          exact here⟩
      rw [serves]
      refine start.ends_activateAll found (TreeMap.keys_nodup _) (fun entry member => ?_)
        (fun entry _ => ?_) []
      · have listed := ExtTreeMap.mem_toList_iff_getElem?_eq_some.mp member
        exact ⟨listed, (counted.specs entry.1 entry.2 listed).2⟩
      · rw [suspended]
        exact ExtTreeMap.not_mem_empty
    · refine ⟨iff_of_false (by rintro ⟨⟩) fun all => ?_, (by rintro ⟨⟩)⟩
      obtain ⟨entry, rest, entries⟩ := List.exists_cons_of_ne_nil nonempty
      rw [entries] at all
      obtain ⟨address, len, attached, -⟩ := all.1.1.inWindow
      cases missing.symm.trans attached

end Device

end Minidox.Virtiofs
