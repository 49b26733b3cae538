import Minidox.Virtiofs.AnyRun
import Minidox.Virtiofs.RedoxStore

/-!
# Removing a range of the window

`remove_mapping` takes one page out of the window after the other, and each page is checked
when its turn comes. So a range can be left half removed.
-/

set_option autoImplicit false

namespace Minidox.Virtiofs

open Foundation Attempt
open Cache
open Std (ExtTreeMap)

variable {World Store Identity Filesystem : Type} [Ord Identity]

theorem Devices.mmaps_device (system : Devices World Store Identity) (state : VirtioFsBranch) :
    (system.device state).mmaps = system.mmaps :=
  rfl

theorem InProcessFsBackend.ends_forM_pages {device : Device World Store Identity}
    {deltas : List Nat} {windowOffset : Nat}
    {post : Except FsError PUnit → Device World Store Identity → Prop} :
    Ends (forM deltas fun delta => Device.removeOffset (windowOffset + delta) true) device post ↔
      Ends (forM (deltas.map fun delta => windowOffset + delta) fun offset =>
        Device.removeOffset offset true)
        device post := by
  rw [List.forM_map]

variable [Std.TransOrd Identity] [ForkableNodeStore World Store Identity] [FileView Store]
  [IdentityLedger World Identity] [StoreLedger World Store]

namespace Device

/-!
## One page
-/

/-- What `remove_offset` does with an offset. -/
inductive Removal where
  | removed
  | refused
  | lost
  deriving DecidableEq, Repr

/-- An offset without a mapping needs a spec. A mapping can only be taken out of an attached
window, by an `mmap`; out of a detached one it is lost. -/
def removal (state : VirtioFsBranch) (mmaps : Faults) (offset : Nat) : Removal :=
  if offset ∈ state.active then
    match state.window, mmaps.head?.join with
    | none, _ => .lost
    | some _, some _ => .refused
    | some _, none => .removed
  else if offset ∈ state.specs then .removed else .refused

def without (state : VirtioFsBranch) (offset : Nat) : VirtioFsBranch :=
  { state with specs := state.specs.erase offset, active := state.active.erase offset }

variable {others : List DaxPageMapping} {device : Device World Store Identity}

theorem Counted.eraseSpec (counted : Counted others device) (offset : Nat) :
    Counted others { device with
      state := { device.state with specs := device.state.specs.erase offset } } where
  own := counted.own
  live := counted.live
  specs other spec found := by
    rw [TreeMap.getElem?_erase_ite, Option.ite_none_left_eq_some] at found
    exact counted.specs other spec found.2
  good := counted.good

theorem ends_removeOffset_any (counted : Counted others device) (offset : Nat) :
    Ends (removeOffset offset true) device fun result after =>
      match removal device.state device.mmaps offset with
      | .removed => result = .ok () ∧ Counted others after ∧
        after.state = without device.state offset ∧
          after.mmaps = (if offset ∈ device.state.active then device.mmaps.tail else device.mmaps) ∧
          Placed offset
      | .refused => (∃ error, result = .error error) ∧ after.state = device.state
      | .lost => (∃ error, result = .error error) ∧ offset ∈ device.state.active ∧
          after.state = { device.state with active := device.state.active.erase offset } := by
  simp only [removeOffset, ends_bind, ends_get, removal]
  cases found : device.state.active[offset]? with
  | some mapping =>
    have active : offset ∈ device.state.active := TreeMap.mem_of_getElem? found
    simp only [if_pos active, ends_bind]
    refine (ends_deactivate_any counted found).mono fun result after ends => ?_
    cases window : device.state.window with
    | none =>
      rw [window] at ends
      obtain ⟨rfl, -, -, state⟩ := ends
      exact ⟨⟨_, rfl⟩, active, by simp only [state, window]⟩
    | some attached =>
      rw [window] at ends
      cases fault : device.mmaps.head?.join with
      | some fault =>
        rw [fault] at ends
        obtain ⟨rfl, -, same⟩ := ends
        exact ⟨⟨_, rfl⟩, by rw [same]⟩
      | none =>
        rw [fault] at ends
        obtain ⟨rfl, countedAfter, -, mmaps, state⟩ := ends
        refine ⟨rfl, countedAfter.eraseSpec offset, ?_, mmaps, (counted.own offset mapping found).2⟩
        change { after.state with specs := after.state.specs.erase offset } = _
        rw [state]
        rfl
  | none =>
    simp only [if_neg (TreeMap.not_mem_of_getElem? found), ends_bind]
    refine ends_require.mpr ⟨fun listed => ?_, fun absent => ?_⟩
    · obtain ⟨spec, foundSpec⟩ := TreeMap.exists_of_mem listed
      rw [if_pos listed]
      refine ⟨rfl, counted.eraseSpec offset, ?_, rfl, (counted.specs offset spec foundSpec).1⟩
      rw [without, TreeMap.erase_of_absent found]
      rfl
    · rw [if_neg absent]
      exact ⟨⟨_, rfl⟩, rfl⟩

/-!
## One page after the other
-/

/-- Every offset of a list can be removed when its turn comes. -/
def removable (state : VirtioFsBranch) : Faults → List Nat → Bool
  | _, [] => true
  | mmaps, offset :: rest =>
    removal state mmaps offset = .removed &&
      removable state (if offset ∈ state.active then mmaps.tail else mmaps) rest

def withoutAll (state : VirtioFsBranch) (offsets : List Nat) : VirtioFsBranch :=
  { state with
    specs := TreeMap.eraseAll state.specs offsets
    active := TreeMap.eraseAll state.active offsets }

variable {state : VirtioFsBranch} {offset : Nat}

theorem mem_without {other : Nat} (different : other ≠ offset) :
    (other ∈ (without state offset).active ↔ other ∈ state.active) ∧
      (other ∈ (without state offset).specs ↔ other ∈ state.specs) := by
  simp [without, ExtTreeMap.mem_erase, different.symm]

theorem removal_without {other : Nat} (different : other ≠ offset) (mmaps : Faults) :
    removal (without state offset) mmaps other = removal state mmaps other := by
  simp only [removal, mem_without different]
  rfl

theorem removable_without {offsets : List Nat} (absent : offset ∉ offsets) (mmaps : Faults) :
    removable (without state offset) mmaps offsets = removable state mmaps offsets := by
  induction offsets generalizing mmaps with
  | nil => rfl
  | cons other rest ih =>
    rw [List.mem_cons, not_or] at absent
    simp only [removable, removal_without (Ne.symm absent.1), mem_without (Ne.symm absent.1),
      ih absent.2]

theorem removal_eq_removed {mmaps : Faults} (removed : removal state mmaps offset = .removed) :
    offset ∈ state.active ∨ offset ∈ state.specs := by
  unfold removal at removed
  split at removed
  next active => exact .inl active
  next =>
    split at removed
    next listed => exact .inr listed
    next => cases removed

theorem Listed.placed {copies : CacheBranchId → Option Files} (listed : Listed copies state)
    (present : offset ∈ state.active ∨ offset ∈ state.specs) : Placed offset := by
  cases present with
  | inl active =>
    obtain ⟨mapping, found⟩ := TreeMap.exists_of_mem active
    exact (listed.own offset mapping found).2
  | inr spec =>
    obtain ⟨spec, found⟩ := TreeMap.exists_of_mem spec
    exact (listed.specs offset spec found).1

theorem placed_of_removable {copies : CacheBranchId → Option Files} (listed : Listed copies state)
    {mmaps : Faults} {offsets : List Nat} (all : removable state mmaps offsets) :
    ∀ offset ∈ offsets, Placed offset := by
  induction offsets generalizing mmaps with
  | nil => rintro _ ⟨⟩
  | cons first rest ih =>
    rw [removable, Bool.and_eq_true, decide_eq_true_eq] at all
    rw [List.forall_mem_cons]
    exact ⟨listed.placed (removal_eq_removed all.1), ih all.2⟩

structure Shrinks (before after : VirtioFsBranch) : Prop where
  specs : ∀ (offset : Nat) (spec : MappingSpec), after.specs[offset]? = some spec →
    before.specs[offset]? = some spec
  active : ∀ (offset : Nat) (mapping : DaxPageMapping), after.active[offset]? = some mapping →
    before.active[offset]? = some mapping

theorem Shrinks.refl (state : VirtioFsBranch) : Shrinks state state :=
  ⟨fun _ _ found => found, fun _ _ found => found⟩

theorem Shrinks.trans {first second third : VirtioFsBranch} (earlier : Shrinks first second)
    (later : Shrinks second third) : Shrinks first third :=
  ⟨fun offset spec found => earlier.specs offset spec (later.specs offset spec found),
    fun offset mapping found => earlier.active offset mapping (later.active offset mapping found)⟩

theorem shrinks_without (state : VirtioFsBranch) (offset : Nat) :
    Shrinks state (without state offset) := by
  constructor
  · intro other spec found
    rw [without, TreeMap.getElem?_erase_ite, Option.ite_none_left_eq_some] at found
    exact found.2
  · intro other mapping found
    rw [without, TreeMap.getElem?_erase_ite, Option.ite_none_left_eq_some] at found
    exact found.2

theorem Shrinks.changed {after : VirtioFsBranch} (shrinks : Shrinks (without state offset) after)
    (present : offset ∈ state.active ∨ offset ∈ state.specs) :
    ¬ (after.specs = state.specs ∧ after.active = state.active) := by
  rintro ⟨specs, active⟩
  cases present with
  | inl there =>
    obtain ⟨mapping, found⟩ := TreeMap.exists_of_mem there
    have kept := shrinks.active offset mapping (active ▸ found)
    rw [without, TreeMap.getElem?_erase_ite, if_pos rfl] at kept
    cases kept
  | inr there =>
    obtain ⟨spec, found⟩ := TreeMap.exists_of_mem there
    have kept := shrinks.specs offset spec (specs ▸ found)
    rw [without, TreeMap.getElem?_erase_ite, if_pos rfl] at kept
    cases kept

theorem ends_removeAll_any (counted : Counted others device) {offsets : List Nat}
    (distinct : offsets.Nodup) :
    Ends (forM offsets fun offset => removeOffset offset true) device fun result after =>
      Shrinks device.state after.state ∧
      (removable device.state device.mmaps offsets →
        result = .ok () ∧ after.state = withoutAll device.state offsets) ∧
      (removable device.state device.mmaps offsets = false → (∃ error, result = .error error) ∧
        ((after.state.specs = device.state.specs ∧ after.state.active = device.state.active) ↔
          ∃ first ∈ offsets.head?, removal device.state device.mmaps first = .refused)) := by
  induction offsets generalizing device with
  | nil => exact ⟨.refl _, fun _ => ⟨rfl, rfl⟩, (by rintro ⟨⟩)⟩
  | cons offset rest ih =>
    obtain ⟨fresh, distinctRest⟩ := List.nodup_cons.mp distinct
    simp only [List.forM_cons, ends_bind]
    refine (ends_removeOffset_any counted offset).mono fun result middle ends => ?_
    cases met : removal device.state device.mmaps offset with
    | removed =>
      rw [met] at ends
      obtain ⟨rfl, countedMiddle, state, mmaps, -⟩ := ends
      have present := removal_eq_removed met
      refine (ih countedMiddle distinctRest).mono fun result after ends => ?_
      rw [state, mmaps, removable_without fresh] at ends
      obtain ⟨shrinks, whole, partly⟩ := ends
      simp only [removable, met, decide_true, Bool.true_and]
      refine ⟨(shrinks_without _ offset).trans shrinks, whole, fun some =>
        ⟨(partly some).1, ?_, ?_⟩⟩
      · exact fun same => absurd same (shrinks.changed present)
      · rintro ⟨first, here, refused⟩
        cases here
        cases met.symm.trans refused
    | refused =>
      rw [met] at ends
      obtain ⟨⟨error, rfl⟩, state⟩ := ends
      simp only [removable, met, reduceCtorEq, decide_false, Bool.false_and, state]
      exact ⟨.refl _, (by rintro ⟨⟩), fun _ =>
        ⟨⟨error, rfl⟩, fun _ => ⟨offset, rfl, met⟩, fun _ => ⟨trivial, trivial⟩⟩⟩
    | lost =>
      rw [met] at ends
      obtain ⟨⟨error, rfl⟩, active, state⟩ := ends
      simp only [removable, met, reduceCtorEq, decide_false, Bool.false_and, state]
      refine ⟨⟨fun _ _ found => found, (shrinks_without device.state offset).active⟩,
        (by rintro ⟨⟩), fun _ => ⟨⟨error, rfl⟩, fun same => ?_, ?_⟩⟩
      · obtain ⟨mapping, found⟩ := TreeMap.exists_of_mem active
        rw [← same.2, TreeMap.getElem?_erase_ite, if_pos rfl] at found
        cases found
      · rintro ⟨first, here, refused⟩
        cases here
        cases met.symm.trans refused

end Device

/-!
## A range of pages
-/

namespace InProcessFsBackend

open Device

/-- A table without what it has in a range of the window. -/
def outside {β : Type} (map : ExtTreeMap Nat β) (windowOffset len : Nat) : ExtTreeMap Nat β :=
  map.filter fun offset _ => ¬ (windowOffset ≤ offset ∧ offset < windowOffset + len)

theorem eraseAll_pagesIn {β : Type} {map : ExtTreeMap Nat β} {windowOffset len : Nat}
    (alignedWindow : windowOffset % pageSize = 0)
    (aligned : ∀ offset ∈ map, offset % pageSize = 0) :
    TreeMap.eraseAll map (pagesIn windowOffset len) = outside map windowOffset len := by
  apply ExtTreeMap.ext_getElem?
  intro offset
  rw [outside, TreeMap.getElem?_filter_key, TreeMap.getElem?_eraseAll]
  cases found : map[offset]? with
  | none => simp
  | some value =>
    have member := aligned offset (TreeMap.mem_of_getElem? found)
    simp only [mem_pagesIn alignedWindow member, decide_not, Bool.not_eq_true',
      decide_eq_false_iff_not]
    split <;> rfl

/-- The request is refused before a page is looked at. -/
def invalidRange (windowOffset len : Nat) : Bool :=
  len = 0 ∨ windowOffset % pageSize ≠ 0 ∨ len % pageSize ≠ 0

/-- Either the range is gone from the table and the specs, and nothing else, or both are as
they were. -/
def AllOrNothing (device : Device World Store Identity) (windowOffset len : Nat) : Prop :=
  Ends (removeMapping windowOffset len) device fun result after =>
    match result with
    | .ok _ => after.state.specs = outside device.state.specs windowOffset len ∧
        after.state.active = outside device.state.active windowOffset len
    | .error _ => after.state.specs = device.state.specs ∧ after.state.active = device.state.active

/-- No page of the range that the loop gets to has an offset above the 64-bit words. -/
def InWords (device : Device World Store Identity) (windowOffset len : Nat) : Prop :=
  ∀ before delta rest, pageOffsets 0 len = before ++ delta :: rest →
    Ends (forM before fun delta => removeOffset (windowOffset + delta) true) device
      fun result _ => result = .ok () → windowOffset + delta < Word64.bound

variable {others : List DaxPageMapping} {device : Device World Store Identity}

theorem allOrNothing_iff (counted : Counted others device) (windowOffset len : Nat) :
    AllOrNothing device windowOffset len ↔ invalidRange windowOffset len ∨
      removal device.state device.mmaps windowOffset = .refused ∨
      removable device.state device.mmaps (pagesIn windowOffset len) := by
  refine ends_iff.mp ?_
  simp only [removeMapping, ends_bind]
  refine ends_require.mpr ⟨fun valid => ?_, fun invalid => ?_⟩
  · have refused : invalidRange windowOffset len = false := decide_eq_false valid
    obtain ⟨positive, alignedWindow, -⟩ : len ≠ 0 ∧ windowOffset % pageSize = 0 ∧
        len % pageSize = 0 := by
      refine ⟨fun zero => valid (.inl zero), ?_, ?_⟩
      · exact Decidable.byContradiction fun unaligned => valid (.inr (.inl unaligned))
      · exact Decidable.byContradiction fun unaligned => valid (.inr (.inr unaligned))
    refine ends_forM_pages.mpr
      ((ends_removeAll_any counted (pagesIn_nodup windowOffset len)).mono ?_)
    rintro result after ⟨-, whole, partly⟩
    cases all : removable device.state device.mmaps (pagesIn windowOffset len) with
    | true =>
      obtain ⟨rfl, state⟩ := whole all
      refine iff_of_true ?_ (.inr (.inr rfl))
      have specsAligned : ∀ offset ∈ device.state.specs, offset % pageSize = 0 :=
        fun offset listed => (counted.placed (.inr listed)).aligned
      have activeAligned : ∀ offset ∈ device.state.active, offset % pageSize = 0 :=
        fun offset active => (counted.placed (.inl active)).aligned
      rw [state, ← eraseAll_pagesIn alignedWindow specsAligned,
        ← eraseAll_pagesIn alignedWindow activeAligned]
      exact ⟨rfl, rfl⟩
    | false =>
      obtain ⟨⟨error, rfl⟩, same⟩ := partly all
      rw [refused]
      simpa [head_pagesIn positive] using same
  · exact iff_of_true ⟨rfl, rfl⟩ (.inl (decide_eq_true (not_not.mp invalid)))

theorem inWords (counted : Counted others device) {windowOffset : Nat}
    (word : windowOffset < Word64.bound) (len : Nat) : InWords device windowOffset len := by
  intro before delta rest listed
  obtain ⟨rfl, last⟩ := eq_of_pageOffsets_split listed
  by_cases first : before = []
  · rw [first]
    exact fun _ => by simpa using word
  have distinct : (before.map fun delta => windowOffset + delta).Nodup := by
    have all := pagesIn_nodup windowOffset len
    rw [pagesIn, listed, List.map_append] at all
    exact all.of_append_left
  refine ends_forM_pages.mpr ((ends_removeAll_any counted distinct).mono ?_)
  rintro result after ⟨-, -, partly⟩ returned
  cases all : removable device.state device.mmaps
      (before.map fun delta => windowOffset + delta) with
  | false =>
    obtain ⟨⟨error, failed⟩, -⟩ := partly all
    cases returned.symm.trans failed
  | true =>
    have placed :=
      placed_of_removable counted.toListed all _ (List.mem_map.mpr ⟨_, last first, rfl⟩)
    have bounded := placed.bounded
    have positive := List.length_pos_of_ne_nil first
    have step : (before.length - 1) * pageSize + pageSize = before.length * pageSize := by
      rw [← Nat.succ_mul]
      congr 1
      omega
    omega

end InProcessFsBackend

namespace Devices

open InProcessFsBackend

variable [Std.LawfulEqOrd Identity] [DecidableEq Identity]
  [LawfulForkableStore World Store Identity] [FileMaker World Store]
  [LawfulFileMaker World Store Identity] [DurableStore World Store Filesystem]
  [LawfulDurableStore World Store Identity]

/-- In every state that a run reaches, a range of the window is removed as a whole or left as
it is exactly when the request is invalid, its first page is refused, or every page can be
removed in its turn. No offset leaves the 64-bit words. -/
theorem remove_mapping_all_or_nothing_iff {start : Devices World Store Identity}
    (begun : Begun start) (mmaps : Faults) (requests : List (Nat × Request)) {index : Nat}
    {state : VirtioFsBranch}
    (found : ((start.onHost mmaps).after requests).devices[index]? = some state)
    {windowOffset : Nat} (word : windowOffset < Word64.bound) (len : Nat) :
    let device := ((start.onHost mmaps).after requests).device state
    (AllOrNothing device windowOffset len ↔ invalidRange windowOffset len ∨
      Device.removal state device.mmaps windowOffset = .refused ∨
      Device.removable state device.mmaps (pagesIn windowOffset len)) ∧
    InWords device windowOffset len := by
  obtain ⟨others, counted⟩ := (settled_after begun mmaps requests).counted found
  exact ⟨allOrNothing_iff counted windowOffset len, inWords counted word len⟩

namespace OnePageMapped

open Redox

def start : Devices RedoxWorld (MountedBranch OneFile) RedoxPageIdentity :=
  create 1 1 OneFile.world [] OneFile.branch

/-- A window of two pages whose first page is mapped. -/
def requests : List (Nat × Request) :=
  [(0, .createFile "a" 1), (0, .openNode 2), (0, .attachDaxWindow 0 8192),
    (0, .setupMapping 2 0 4096 true 0)]

set_option maxRecDepth 4000 in
theorem first_page_all_or_nothing :
    ∃ state, ((start.onHost []).after requests).devices[0]? = some state ∧ 0 ∈ state.active ∧
      AllOrNothing (((start.onHost []).after requests).device state) 0 4096 := by
  have evaluated : (((start.onHost []).after requests).devices[0]?.map fun state =>
      decide (0 ∈ state.active) && Device.removable state [] (pagesIn 0 4096)) = some true := by
    decide +kernel
  have quiet : ((start.onHost []).after requests).mmaps = [] := by decide +kernel
  obtain ⟨state, found, fine⟩ := Option.map_eq_some_iff.mp evaluated
  rw [Bool.and_eq_true, decide_eq_true_eq] at fine
  have begun : Begun start := .create OneFile.coherent 1 1 []
  have exactly := (remove_mapping_all_or_nothing_iff begun [] requests found
    (show 0 < Word64.bound by decide) 4096).1
  rw [mmaps_device, quiet] at exactly
  exact ⟨state, found, fine.1, exactly.mpr (.inr (.inr fine.2))⟩

/-- The window has a page, a request for two pages fails, and the page is gone. -/
def halfRemoved (state : VirtioFsBranch) : Bool :=
  match (removeMapping 0 8192).exec (((start.onHost []).after requests).device state) with
  | (.ok _, _) => false
  | (.error _, after) => 0 ∈ state.specs && 0 ∉ after.state.specs

set_option maxRecDepth 4000 in
theorem range_half_removed : ∃ state, ((start.onHost []).after requests).devices[0]? = some state ∧
    ¬ AllOrNothing (((start.onHost []).after requests).device state) 0 8192 := by
  have evaluated : ((start.onHost []).after requests).devices[0]?.map halfRemoved =
      some true := by decide +kernel
  obtain ⟨state, found, half⟩ := Option.map_eq_some_iff.mp evaluated
  refine ⟨state, found, fun whole => ?_⟩
  rw [AllOrNothing, Ends] at whole
  unfold halfRemoved at half
  split at half
  next => cases half
  next error after executed =>
      rw [executed] at whole
      rw [Bool.and_eq_true, decide_eq_true_eq, decide_eq_true_eq] at half
      exact half.2 (whole.1 ▸ half.1)

end OnePageMapped

end Devices

end Minidox.Virtiofs
