import Minidox.Cache.Shared.Properties
import Minidox.Virtiofs.Devices

/-!
# Devices next to each other

What a request of one device leaves to the devices beside it. A property of tables that lasts
while a branch lives holds of every device of a lineage in every state that is reached, and
the cache counts the mappings in the tables together with those that have strayed from them.
-/

set_option autoImplicit false

namespace Minidox.Virtiofs

open Foundation Attempt
open Cache
open Std (ExtTreeMap)
open SharedPageCache (Good)

variable {World Store Identity Filesystem : Type} [Ord Identity]
  {devices : ExtTreeMap Nat VirtioFsBranch}

def Answer.plain : Answer Filesystem → Bool
  | .forked _ | .dropped _ => false
  | _ => true

namespace Device

variable {Reaches : Device World Store Identity → Prop} {device : Device World Store Identity}
  {request : Request}

section Answer

variable {Error α : Type} {operation : Attempt (Device World Store Identity) Error α}
  {failed : Error → Answer Filesystem} {returned : α → Answer Filesystem}

theorem reaches_answer (ends : Ends operation device fun _ after => Reaches after) :
    Reaches (answer operation failed returned device).1 := by
  unfold answer
  rw [Ends] at ends
  cases executed : operation.exec device with
  | mk result after =>
    rw [executed] at ends
    cases result with
    | ok value => exact ends
    | error error => exact ends

theorem plain_answer (plainFailure : ∀ error, (failed error).plain)
    (plainReturn : ∀ value, (returned value).plain) :
    (answer operation failed returned device).2.plain := by
  unfold answer
  split
  next => exact plainReturn _
  next => exact plainFailure _

end Answer

variable [Std.TransOrd Identity] [ForkableNodeStore World Store Identity]

theorem plain_serve [DecidableEq Identity] [FileMaker World Store]
    [DurableStore World Store Filesystem] (stays : request ≠ .drop) (single : request ≠ .fork) :
    (device.serve request : Device World Store Identity × Answer Filesystem).2.plain := by
  cases request with
  | store offset place data =>
    simp only [serve, store]
    repeat' split
    all_goals rfl
  | fork => exact absurd rfl single
  | drop => exact absurd rfl stays
  | _ => exact plain_answer (fun _ => rfl) fun _ => rfl

variable [FileView Store] [IdentityLedger World Identity]

structure Answered (Reaches : Device World Store Identity → Prop)
    (before : Device World Store Identity)
    (outcome : Device World Store Identity × Answer Filesystem) : Prop where
  reaches : Reaches outcome.1
  child : ∀ child, outcome.2 = .forked child →
    VirtioFsBranch.Child before.state before.cache.copies outcome.1.cache.copies child
  stays : ∀ removed, outcome.2 ≠ .dropped removed

theorem Answered.of_plain {outcome : Device World Store Identity × Answer Filesystem}
    (plain : outcome.2.plain) (reaches : Reaches outcome.1) : Answered Reaches device outcome := by
  refine ⟨reaches, fun child made => ?_, fun removed made => ?_⟩
  · rw [made] at plain
    cases plain
  · rw [made] at plain
    cases plain

theorem answered_serve_of [DecidableEq Identity] [FileMaker World Store]
    [DurableStore World Store Filesystem] (stays : request ≠ .drop)
    (reaches : request ≠ .fork →
      Reaches (device.serve request : Device World Store Identity × Answer Filesystem).1)
    (forks : Ends VirtioFsBranch.fork device fun result after => Reaches after ∧
      ∀ child, result = .ok child →
        VirtioFsBranch.Child device.state device.cache.copies after.cache.copies child) :
    Answered Reaches device (device.serve request :
      Device World Store Identity × Answer Filesystem) := by
  by_cases fork : request = .fork
  · subst fork
    unfold serve answer
    rw [Ends] at forks
    cases executed : VirtioFsBranch.fork.exec device with
    | mk result after =>
      rw [executed] at forks
      cases result with
      | ok made =>
        refine ⟨forks.1, fun child same => ?_, (by rintro _ ⟨⟩)⟩
        cases same
        exact forks.2 _ rfl
      | error error => exact ⟨forks.1, (by rintro _ ⟨⟩), (by rintro _ ⟨⟩)⟩
  · exact .of_plain (plain_serve stays fork) (reaches fork)

theorem reaches_store [Std.LawfulEqOrd Identity] [DecidableEq Identity] [StoreLedger World Store]
    [LawfulForkableStore World Store Identity] [FileMaker World Store]
    [LawfulFileMaker World Store Identity] {others : List DaxPageMapping}
    (good : Good (others ++ TreeMap.values device.state.active) device.cache)
    (unchanged : Reaches device)
    (stored : ∀ cache : SharedPageCache World Store Identity,
      Good (others ++ TreeMap.values device.state.active) cache →
        Outlived device.cache.copies cache.copies → Reaches { device with cache })
    (offset place : Nat) (data : List UInt8) :
    Reaches (device.store offset place data :
      Device World Store Identity × Answer Filesystem).1 := by
  unfold Device.store
  split
  next mapping found =>
    split
    next allowed =>
      have member : mapping ∈ others ++ TreeMap.values device.state.active :=
        List.mem_append_right _ (TreeMap.mem_values.mpr ⟨offset, found⟩)
      obtain ⟨goodAfter, outlived⟩ := good.storeThrough member allowed.1 allowed.2
      exact stored _ goodAfter outlived
    next => exact unchanged
  next => exact unchanged

end Device

variable [Std.TransOrd Identity] [ForkableNodeStore World Store Identity] [FileView Store]
  [IdentityLedger World Identity] [StoreLedger World Store]

namespace Devices

/-!
## The mappings of the devices
-/

def heldBy (devices : ExtTreeMap Nat VirtioFsBranch) : List DaxPageMapping :=
  (TreeMap.values devices).flatMap fun state => TreeMap.values state.active

theorem heldBy_perm_erase {index : Nat}
    {state : VirtioFsBranch} (found : devices[index]? = some state) :
    (heldBy devices).Perm (heldBy (devices.erase index) ++ TreeMap.values state.active) :=
  ((TreeMap.values_perm_erase found).flatMap_right _).trans List.perm_append_comm

theorem heldBy_perm_insert (devices : ExtTreeMap Nat VirtioFsBranch) (index : Nat)
    (state : VirtioFsBranch) : (heldBy (devices.insert index state)).Perm
      (heldBy (devices.erase index) ++ TreeMap.values state.active) := by
  have erased : (devices.insert index state).erase index = devices.erase index := by
    apply ExtTreeMap.ext_getElem?
    intro other
    rw [TreeMap.getElem?_erase_ite, TreeMap.getElem?_erase_ite, TreeMap.getElem?_insert_ite]
    split <;> rfl
  have there : (devices.insert index state)[index]? = some state :=
    ExtTreeMap.getElem?_insert_self
  have listed := heldBy_perm_erase there
  rwa [erased] at listed

theorem mem_heldBy {mapping : DaxPageMapping} :
    mapping ∈ heldBy devices ↔ ∃ (index : Nat) (state : VirtioFsBranch) (offset : Nat),
      devices[index]? = some state ∧ state.active[offset]? = some mapping := by
  simp only [heldBy, List.mem_flatMap, TreeMap.mem_values]
  constructor
  · rintro ⟨state, ⟨index, found⟩, offset, active⟩
    exact ⟨index, state, offset, found, active⟩
  · rintro ⟨index, state, offset, found, active⟩
    exact ⟨state, ⟨index, found⟩, offset, active⟩

theorem heldBy_eq_nil
    (idle : ∀ (index : Nat) (state : VirtioFsBranch), devices[index]? = some state →
      state.active = ∅) : heldBy devices = [] := by
  refine List.eq_nil_iff_forall_not_mem.mpr fun mapping member => ?_
  obtain ⟨index, state, offset, found, active⟩ := mem_heldBy.mp member
  rw [idle index state found, ExtTreeMap.getElem?_empty] at active
  cases active

theorem lookup_insert {index other : Nat} {state otherState : VirtioFsBranch}
    (there : (devices.insert index state)[other]? = some otherState) :
    (other = index ∧ otherState = state) ∨ devices[other]? = some otherState := by
  rw [TreeMap.getElem?_insert_ite] at there
  split at there
  next here => exact .inl ⟨here, (Option.some.inj there).symm⟩
  next => exact .inr there

theorem branch_insert {index other : Nat} {state after otherState : VirtioFsBranch}
    (found : devices[index]? = some state) (branch : after.branch = state.branch)
    (there : (devices.insert index after)[other]? = some otherState) :
    ∃ before : VirtioFsBranch, devices[other]? = some before ∧
      before.branch = otherState.branch := by
  cases lookup_insert there with
  | inl here => exact ⟨state, here.1 ▸ found, by rw [here.2, branch]⟩
  | inr elsewhere => exact ⟨otherState, elsewhere, rfl⟩

/-!
## What lasts
-/

/-- A property of a table that the calls of the cache keep while the branch lives. -/
structure Lasting (Fits : (CacheBranchId → Option Files) → VirtioFsBranch → Prop) : Prop where
  live : ∀ {copies : CacheBranchId → Option Files} {state : VirtioFsBranch}, Fits copies state →
    ∃ files, copies state.branch = some files
  outlive : ∀ {before after : CacheBranchId → Option Files} {state : VirtioFsBranch},
    Outlived before after → Fits before state → Fits after state
  congr : ∀ {before after : CacheBranchId → Option Files} {state : VirtioFsBranch},
    after state.branch = before state.branch → Fits before state → Fits after state
  child : ∀ {copies before after : CacheBranchId → Option Files} {source child : VirtioFsBranch},
    Fits copies source → VirtioFsBranch.Child source before after child → Fits after child

/-- The cache counts the strays and the mappings of the devices, each of which has a branch
of its own. -/
structure Hosted (Fits : (CacheBranchId → Option Files) → VirtioFsBranch → Prop)
    (strays : List DaxPageMapping) (system : Devices World Store Identity) : Prop where
  good : Good (strays ++ heldBy system.devices) system.cache
  fits : ∀ (index : Nat) (state : VirtioFsBranch), system.devices[index]? = some state →
    Fits system.cache.copies state
  apart : ∀ (left right : Nat) (leftState rightState : VirtioFsBranch),
    system.devices[left]? = some leftState → system.devices[right]? = some rightState →
      leftState.branch = rightState.branch → left = right
  fresh : ∀ (index : Nat) (state : VirtioFsBranch), system.devices[index]? = some state →
    index < system.next

section Hosted

variable {Fits : (CacheBranchId → Option Files) → VirtioFsBranch → Prop}
  {strays more : List DaxPageMapping} {system : Devices World Store Identity} {index : Nat}
  {state : VirtioFsBranch}

theorem Hosted.good_device (hosted : Hosted Fits strays system)
    (found : system.devices[index]? = some state) :
    Good (strays ++ heldBy (system.devices.erase index) ++
      TreeMap.values state.active) system.cache := by
  have listed := (heldBy_perm_erase found).append_left strays
  rw [← List.append_assoc] at listed
  exact hosted.good.perm listed

theorem Hosted.insert (lasting : Lasting Fits) (hosted : Hosted Fits strays system)
    (found : system.devices[index]? = some state) {after : Device World Store Identity}
    (good : Good (more ++ heldBy (system.devices.erase index) ++
      TreeMap.values after.state.active) after.cache)
    (fits : Fits after.cache.copies after.state)
    (outlived : Outlived system.cache.copies after.cache.copies)
    (branch : after.state.branch = state.branch) :
    Hosted Fits more { system with
      cache := after.cache
      mmaps := after.mmaps
      devices := system.devices.insert index after.state } := by
  refine ⟨?_, ?_, ?_, ?_⟩
  · have listed := (heldBy_perm_insert system.devices index after.state).append_left more
    rw [← List.append_assoc] at listed
    exact good.perm listed.symm
  · intro other otherState there
    cases lookup_insert there with
    | inl here => exact here.2 ▸ fits
    | inr elsewhere => exact lasting.outlive outlived (hosted.fits other otherState elsewhere)
  · intro left right leftState rightState foundLeft foundRight same
    obtain ⟨oldLeft, thereLeft, branchLeft⟩ := branch_insert found branch foundLeft
    obtain ⟨oldRight, thereRight, branchRight⟩ := branch_insert found branch foundRight
    exact hosted.apart left right oldLeft oldRight thereLeft thereRight
      (branchLeft.trans (same.trans branchRight.symm))
  · intro other otherState there
    obtain ⟨before, old, -⟩ := branch_insert found branch there
    exact hosted.fresh other before old

theorem Hosted.fork (hosted : Hosted Fits strays system) {child : VirtioFsBranch}
    (fits : Fits system.cache.copies child) (inactive : child.active = ∅)
    (apart : ∀ (index : Nat) (state : VirtioFsBranch), system.devices[index]? = some state →
      state.branch ≠ child.branch) :
    Hosted Fits strays { system with
      devices := system.devices.insert system.next child
      next := system.next + 1 } := by
  refine ⟨?_, ?_, ?_, ?_⟩
  · have unused : system.devices[system.next]? = none := by
      cases found : system.devices[system.next]? with
      | none => rfl
      | some state => exact absurd (hosted.fresh _ state found) (Nat.lt_irrefl _)
    have listed : (heldBy (system.devices.insert system.next child)).Perm
        (TreeMap.values child.active ++ heldBy system.devices) :=
      (TreeMap.values_insert_perm child unused).flatMap_right _
    rw [inactive, TreeMap.values_empty] at listed
    exact hosted.good.perm (listed.symm.append_left strays)
  · intro other otherState there
    cases lookup_insert there with
    | inl here => exact here.2 ▸ fits
    | inr elsewhere => exact hosted.fits other otherState elsewhere
  · intro left right leftState rightState foundLeft foundRight same
    cases lookup_insert foundLeft with
    | inl hereLeft =>
      cases lookup_insert foundRight with
      | inl hereRight => exact hereLeft.1.trans hereRight.1.symm
      | inr thereRight =>
        exact absurd (same.symm.trans (by rw [hereLeft.2])) (apart right rightState thereRight)
    | inr thereLeft =>
      cases lookup_insert foundRight with
      | inl hereRight =>
        exact absurd (same.trans (by rw [hereRight.2])) (apart left leftState thereLeft)
      | inr thereRight =>
        exact hosted.apart left right leftState rightState thereLeft thereRight same
  · intro other otherState there
    cases lookup_insert there with
    | inl here => exact here.1 ▸ Nat.lt_succ_self system.next
    | inr elsewhere => exact Nat.lt_succ_of_lt (hosted.fresh other otherState elsewhere)

theorem Hosted.drop (lasting : Lasting Fits) (hosted : Hosted Fits strays system)
    (found : system.devices[index]? = some state) {after : Device World Store Identity}
    (good : Good (strays ++ heldBy (system.devices.erase index)) after.cache)
    (copies : ∀ branch, branch ≠ state.branch →
      after.cache.copies branch = system.cache.copies branch) :
    Hosted Fits strays { system with
      cache := after.cache
      mmaps := after.mmaps
      devices := system.devices.erase index } := by
  have remaining : ∀ (other : Nat) (otherState : VirtioFsBranch),
      (system.devices.erase index)[other]? = some otherState →
        index ≠ other ∧ system.devices[other]? = some otherState := by
    intro other otherState there
    rw [TreeMap.getElem?_erase_ite, Option.ite_none_left_eq_some] at there
    exact ⟨fun same => there.1 same.symm, there.2⟩
  refine ⟨good, ?_, ?_, ?_⟩
  · intro other otherState there
    obtain ⟨different, old⟩ := remaining other otherState there
    refine lasting.congr (copies _ fun same => ?_) (hosted.fits other otherState old)
    exact different (hosted.apart index other state otherState found old same.symm)
  · intro left right leftState rightState foundLeft foundRight same
    exact hosted.apart left right leftState rightState (remaining left leftState foundLeft).2
      (remaining right rightState foundRight).2 same
  · intro other otherState there
    exact hosted.fresh other otherState (remaining other otherState there).2

theorem Hosted.answered (lasting : Lasting Fits) (hosted : Hosted Fits strays system)
    (found : system.devices[index]? = some state)
    {outcome : Device World Store Identity × Answer Filesystem}
    (answered : Device.Answered (fun after =>
      Good (more ++ heldBy (system.devices.erase index) ++
        TreeMap.values after.state.active) after.cache ∧
      Fits after.cache.copies after.state ∧ Outlived system.cache.copies after.cache.copies ∧
      after.state.branch = state.branch) (system.device state) outcome) :
    Hosted Fits more (system.settle index outcome.1 outcome.2) := by
  obtain ⟨after, answer⟩ := outcome
  obtain ⟨⟨good, fits, outlived, branch⟩, child, stays⟩ := answered
  have inserted := hosted.insert lasting found good fits outlived branch
  cases answer with
  | forked made =>
    have isChild := child made rfl
    refine inserted.fork (lasting.child (hosted.fits _ state found) isChild) isChild.active ?_
    intro other otherState there same
    obtain ⟨before, old, own⟩ := branch_insert found branch there
    obtain ⟨files, live⟩ := lasting.live (hosted.fits other before old)
    rw [own, same] at live
    exact absurd (isChild.fresh.symm.trans live) (Option.some_ne_none files).symm
  | dropped removed => exact absurd rfl (stays removed)
  | _ => exact inserted

variable [Std.LawfulEqOrd Identity] [DecidableEq Identity] [FileMaker World Store]
  [DurableStore World Store Filesystem]

theorem Hosted.step (Allowed : List DaxPageMapping → Prop) (Maps : Faults → Prop)
    (lasting : Lasting Fits) (own : ∀ {copies : CacheBranchId → Option Files}
      {state : VirtioFsBranch}, Fits copies state → ∀ (offset : Nat) (mapping : DaxPageMapping),
        state.active[offset]? = some mapping → mapping.branch = state.branch)
    (nothing : Allowed []) (hosted : Hosted Fits strays system) (mmaps : Maps system.mmaps)
    (request : Nat × Request)
    (serves : ∀ state, system.devices[request.1]? = some state → request.2 ≠ .drop →
      Device.Answered (fun after => ∃ more, Allowed more ∧
        Good (more ++ (strays ++ heldBy (system.devices.erase request.1)) ++
          TreeMap.values after.state.active) after.cache ∧
        Fits after.cache.copies after.state ∧ Outlived system.cache.copies after.cache.copies ∧
        after.state.branch = state.branch ∧ Maps after.mmaps) (system.device state)
        ((system.device state).serve request.2 : Device World Store Identity × Answer Filesystem)) :
    ∃ more, Allowed more ∧ Hosted Fits (more ++ strays) (system.step request).1 ∧
      Maps (system.step request).1.mmaps := by
  unfold Devices.step
  split
  next => exact ⟨[], nothing, hosted, mmaps⟩
  next state found =>
    split
    next after answer executed =>
      by_cases last : request.2 = .drop
      · have ends := VirtioFsBranch.ends_drop_any (system.device state) (hosted.good_device found)
          (own (hosted.fits _ state found))
        rw [last] at executed
        simp only [Device.serve, Device.answer] at executed
        rw [Ends] at ends
        obtain ⟨returned, good, copies, same⟩ := ends
        cases dropped : VirtioFsBranch.drop.exec (system.device state) with
        | mk result middle =>
          rw [dropped] at executed good copies returned same
          obtain ⟨removed, rfl⟩ := returned
          cases executed
          refine ⟨[], nothing, hosted.drop lasting found good copies, ?_⟩
          change Maps after.mmaps
          rw [same]
          exact mmaps
      · have answered := serves state found last
        rw [executed] at answered
        obtain ⟨⟨more, allowed, good, fits, outlived, branch, maps⟩, child, stays⟩ := answered
        rw [← List.append_assoc more] at good
        refine ⟨more, allowed, hosted.answered lasting found
          ⟨⟨good, fits, outlived, branch⟩, child, stays⟩, ?_⟩
        cases answer with
        | _ => exact maps

end Hosted

theorem lookup_first {first state : VirtioFsBranch} {index : Nat}
    (found : ((∅ : ExtTreeMap Nat VirtioFsBranch).insert 0 first)[index]? = some state) :
    index = 0 ∧ state = first := by
  cases lookup_insert found with
  | inl here => exact here
  | inr elsewhere =>
    rw [ExtTreeMap.getElem?_empty] at elsewhere
    cases elsewhere

theorem hosted_create [Std.LawfulEqOrd Identity] [DecidableEq Identity]
    [LawfulForkableStore World Store Identity] [FileMaker World Store]
    [LawfulFileMaker World Store Identity]
    {Fits : (CacheBranchId → Option Files) → VirtioFsBranch → Prop}
    {world : World} {store : Store} (coherent : Coherent world [store])
    (lineage nextPageId : Nat) (faults mmaps : Faults)
    (fits : ∀ (copies : CacheBranchId → Option Files) (files : Files), copies 1 = some files →
      Fits copies { lineage, branch := 1, window := none, specs := ∅, active := ∅ }) :
    Hosted Fits [] { (create lineage nextPageId world faults store :
      Devices World Store Identity) with mmaps } := by
  refine ⟨?_, ?_, ?_, ?_⟩
  · have nothing : heldBy (create lineage nextPageId world faults store :
        Devices World Store Identity).devices = [] :=
      heldBy_eq_nil fun index state found => (lookup_first found).2 ▸ rfl
    change Good (heldBy (create lineage nextPageId world faults store :
      Devices World Store Identity).devices) _
    rw [nothing]
    exact SharedPageCache.good_ofStores coherent lineage nextPageId faults
  · intro index state found
    obtain ⟨-, rfl⟩ := lookup_first found
    have live : (create lineage nextPageId world faults store :
        Devices World Store Identity).cache.branches[1]? = some (CacheBranch.new store) :=
      SharedPageCache.branches_ofStores lineage nextPageId world faults [store] 1
    exact fits _ _ (Lineage.copies_of_found (SharedPageCache.branches_lineageOf live))
  · intro left right leftState rightState foundLeft foundRight _
    exact (lookup_first foundLeft).1.trans (lookup_first foundRight).1.symm
  · intro index state found
    exact (lookup_first found).1 ▸ Nat.one_pos

end Devices

end Minidox.Virtiofs
