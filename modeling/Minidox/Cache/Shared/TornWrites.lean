import Minidox.Cache.Shared.FailedCalls
import Minidox.Cache.Shared.Frames

/-!
# Writes that fail half way

`SharedPageCache::write` maps, copies and unmaps one page after the other, so a page that it
cannot map comes after pages that it has already changed.
-/

set_option autoImplicit false

namespace Minidox.Cache

open Foundation Attempt SharedPageCache
open Std (ExtTreeMap)

/-!
## What a write has stored
-/

theorem overwrite_append (file : List UInt8) (position : Nat) (first second : List UInt8) :
    overwrite (overwrite file position first) (position + first.length) second =
      overwrite file position (first ++ second) := by
  rw [overwrite.eq_1 file position first, overwrite_read, ByteMap.write_append]
  rfl

theorem overwrite_nil (file : List UInt8) (position : Nat) : overwrite file position [] = file := by
  rw [overwrite, ByteMap.write_nil, ByteMap.read_ofList]

theorem overwrite_eq_self_iff {file data : List UInt8} {position : Nat}
    (inside : position + data.length ≤ file.length) :
    overwrite file position data = file ↔ (file.drop position).take data.length = data := by
  constructor
  · intro same
    rw [← same, overwrite, ByteMap.take_drop_read _ inside, ByteMap.read_write]
  · intro same
    have there : (ByteMap.ofList file).read position data.length = data := by
      rw [← ByteMap.take_drop_read _ inside, ByteMap.read_ofList, same]
    have unchanged := ByteMap.write_read (ByteMap.ofList file) position data.length
    rw [there] at unchanged
    rw [overwrite, unchanged, ByteMap.read_ofList]

def patchCopies (copies : CacheBranchId → Option Files) (branch : CacheBranchId)
    (node position : Nat) (data : List UInt8) : CacheBranchId → Option Files :=
  Function.update copies branch ((copies branch).map fun files => files.patch node position data)

theorem patchCopies_nil (copies : CacheBranchId → Option Files) (branch : CacheBranchId)
    (node position : Nat) : patchCopies copies branch node position [] = copies := by
  have same : ∀ files : Files, files.patch node position [] = files := by
    intro files
    simp [Files.patch, overwrite_nil]
  simp [patchCopies, same]

theorem patchCopies_append (copies : CacheBranchId → Option Files) (branch : CacheBranchId)
    (node position : Nat) (first second : List UInt8) :
    patchCopies (patchCopies copies branch node position first) branch node
      (position + first.length)
      second = patchCopies copies branch node position (first ++ second) := by
  have joined : ∀ files : Files, (files.patch node position first).patch node
      (position + first.length) second = files.patch node position (first ++ second) := by
    intro files
    simp [Files.patch, Function.comp_def, overwrite_append]
  simp [patchCopies, Function.comp_def, joined]

theorem patchCopies_eq_self_iff {copies : CacheBranchId → Option Files} {branch : CacheBranchId}
    {node offset : Nat} {data : List UInt8} {files : Files}
    {bytes : List UInt8} {count : Nat} (live : copies branch = some files)
    (present : files node = some bytes) (inside : offset + data.length ≤ bytes.length)
    (short : count ≤ data.length) :
    patchCopies copies branch node offset (data.take count) = copies ↔
      (bytes.drop offset).take count = data.take count := by
  have size : (data.take count).length = count := List.length_take_of_le short
  have kept :=
    overwrite_eq_self_iff (show offset + (data.take count).length ≤ bytes.length by omega)
  rw [size] at kept
  rw [← kept]
  constructor
  · intro same
    have branchSame := congrFun same branch
    simp only [patchCopies, Function.update_self, live, Option.map_some, Option.some.injEq]
      at branchSame
    have fileSame := congrFun branchSame node
    simpa only [Files.patch, Function.update_self, present, Option.map_some,
      Option.some.injEq] using fileSame
  · intro same
    have filesSame : files.patch node offset (data.take count) = files := by
      rw [Files.patch, present, Option.map_some, same, ← present, Function.update_eq_self]
    rw [patchCopies, live, Option.map_some, filesSame, ← live, Function.update_eq_self]

def Reply.stored : Reply → Nat
  | .torn _ stored => stored
  | _ => 0

namespace Call

def stored {Mapping : Type} (call : Call Mapping) : Nat :=
  match call.phase with
  | .unmap _ => call.cursor - call.offset + call.chunkLen
  | _ => call.cursor - call.offset

theorem stored_forget (call : Call DaxPageMapping) : call.forget.stored = call.stored := by
  unfold stored forget
  cases call.phase <;> rfl

theorem failure_cases (call : Call DaxPageMapping) (faults : Faults) (error : CacheError) :
    ∃ failed, call.failure faults error = .failed failed ∨
      ∃ count, call.failure faults error = .torn failed count := by
  unfold failure
  split
  next => exact ⟨error, .inr ⟨_, rfl⟩⟩
  next => exact ⟨error, .inl rfl⟩

end Call

/-- A `write` on its way: the first bytes of its buffer are in place, and nothing else is new. -/
structure Written (start : CacheBranchId → Option Files) (branch : CacheBranchId)
    (node offset : Nat) (data : List UInt8) (call : Call Unit)
    (copies : CacheBranchId → Option Files) : Prop where
  job : call.job = .write data
  place : call.branch = branch ∧ call.node = node ∧ call.offset = offset
  range : match call.phase with
    | .measure => call.cursor = offset
    | _ => offset ≤ call.cursor ∧ call.cursor ≤ call.stop ∧ call.stop = offset + data.length
  copies : copies = patchCopies start branch node offset (data.take call.stored)

section Written

variable {start : CacheBranchId → Option Files} {branch : CacheBranchId} {node offset : Nat}
  {data : List UInt8} {reference after : Reference} {thread : Thread} {call : Call Unit}
  {reply : Reply}

theorem Written.patch (written : Written start branch node offset data call reference.copies)
    (phase : call.phase = .copy ()) {count : Nat} (short : count ≤ call.chunkLen) :
    (reference.patch call.branch call.node call.cursor ((call.chunk data).take count)).copies =
      patchCopies start branch node offset (data.take (call.cursor - offset + count)) := by
  obtain ⟨rfl, rfl, rfl⟩ := written.place
  have range := written.range
  have copies := written.copies
  simp only [phase] at range
  have placed : call.cursor = call.offset + (data.take (call.cursor - call.offset)).length := by
    rw [List.length_take]
    omega
  have bytes : data.take (call.cursor - call.offset + count) =
      data.take (call.cursor - call.offset) ++ (call.chunk data).take count := by
    rw [List.take_add, Call.chunk, List.take_take, Nat.min_eq_left short]
  simp only [Call.stored, phase] at copies
  rw [bytes, ← patchCopies_append, ← copies, ← placed]
  rfl

theorem Reference.CallStep.written (step : Reference.CallStep reference thread call reply after)
    (written : Written start branch node offset data call reference.copies) :
    (∀ next, after.calls thread = some next →
      Written start branch node offset data next after.copies) ∧
    ((∃ error, reply = .failed error ∨ ∃ count, reply = .torn error count) →
      after.copies = patchCopies start branch node offset
        (data.take (call.stored + reply.stored))) := by
  have range := written.range
  have place := written.place
  have copies := written.copies
  cases step with
  | stopped error =>
    exact ⟨fun next found => by simp at found, fun _ => copies⟩
  | readNothing phase job => exact absurd (written.job.symm.trans job) (by rintro ⟨⟩)
  | readStarts phase job => exact absurd (written.job.symm.trans job) (by rintro ⟨⟩)
  | writeNothing phase job => exact ⟨fun next found => by simp at found, by simp⟩
  | writeStarts phase job file inside =>
    cases written.job.symm.trans job
    refine ⟨fun next found => ?_, by simp⟩
    obtain rfl : _ = next := by simpa using found
    simp only [phase] at range
    refine ⟨job, place, ?_, by simpa [Call.stored, phase] using copies⟩
    exact ⟨Nat.le_of_eq range.symm, by simp only [range, place.2.2]; omega, by rw [place.2.2]⟩
  | mapped phase =>
    refine ⟨fun next found => ?_, by simp⟩
    obtain rfl : _ = next := by simpa using found
    simp only [phase] at range
    exact ⟨written.job, place, range, by simpa [Call.stored, phase] using copies⟩
  | fetched phase job => exact absurd (written.job.symm.trans job) (by rintro ⟨⟩)
  | patched phase job =>
    cases written.job.symm.trans job
    refine ⟨fun next found => ?_, by simp⟩
    obtain rfl : _ = next := by simpa using found
    have stores := written.patch phase (Nat.le_refl _)
    rw [Call.chunk, List.take_take, Nat.min_self, ← place.2.2] at stores
    simp only [phase] at range
    refine ⟨job, place, range, ?_⟩
    rw [← place.2.2]
    exact stores
  | torn error phase job short =>
    cases written.job.symm.trans job
    refine ⟨fun next found => by simp at found, fun _ => ?_⟩
    have stores := written.patch phase (Nat.le_trans short (List.length_take_le _ _))
    rw [← place.2.2] at stores ⊢
    simpa [Call.stored, phase, Reply.stored] using stores
  | continues phase more =>
    refine ⟨fun next found => ?_, by simp⟩
    obtain rfl : _ = next := by simpa using found
    simp only [phase] at range
    refine ⟨written.job, place, ⟨Nat.le_add_right_of_le range.1, Nat.le_of_lt more, range.2.2⟩, ?_⟩
    simp only [Call.stored, phase] at copies ⊢
    rw [Reference.copies_setCall, copies]
    refine congrArg (fun count => patchCopies start branch node offset (data.take count)) ?_
    have := place.2.2
    omega
  | finished phase last =>
    refine ⟨fun next found => by simp at found, fun failed => ?_⟩
    rw [written.job] at failed
    simp [Job.result] at failed

end Written

theorem Reference.Step.callStep {reference after : Reference} {thread : Thread} {call : Call Unit}
    {reply : Reply} (step : Reference.Step reference (.advance thread) reply after)
    (active : reference.calls thread = some call) (answered : reply ≠ .refused) :
    Reference.CallStep reference thread call reply after := by
  cases step with
  | refused => exact absurd rfl answered
  | failed _ error single => exact absurd rfl (single thread)
  | quiet quiet => cases quiet
  | advanced same step =>
    cases active.symm.trans same
    exact step

section Stored

variable {World Store Identity : Type} [Ord Identity] [Std.TransOrd Identity]
  [Std.LawfulEqOrd Identity] [DecidableEq Identity] [ForkableNodeStore World Store Identity]
  [FileView Store] [IdentityLedger World Identity] [StoreLedger World Store]
  [LawfulForkableStore World Store Identity] [FileMaker World Store]
  [LawfulFileMaker World Store Identity]

def Call.reach (call : Call DaxPageMapping) :
    Nat → SharedPageCache World Store Identity → Option Nat
  | 0, _ => none
  | fuel + 1, cache =>
    match call.advance.exec cache with
    | (.ok (.running next), after) => next.reach fuel after
    | (.ok (.finished _), _) => none
    | (.error error, _) => some (call.stored + (call.failure cache.faults error).stored)

namespace System

variable {system : System World Store Identity} {thread : Thread} {call : Call DaxPageMapping}

theorem ends_complete_written (fuel : Nat) (consistent : Consistent system)
    (active : system.calls[thread]? = some call) {start : CacheBranchId → Option Files}
    {branch : CacheBranchId} {node offset : Nat} {data : List UInt8}
    (written : Written start branch node offset data call.forget system.cache.copies) :
    Ends (call.complete fuel) system.cache fun result after =>
      match result with
      | .ok _ => call.reach fuel system.cache = none
      | .error _ => ∃ count, call.reach fuel system.cache = some count ∧
          after.copies = patchCopies start branch node offset (data.take count) := by
  induction fuel generalizing system call with
  | zero => rfl
  | succ fuel ih =>
    obtain ⟨consistentAfter, step⟩ := simulated system consistent (.advance thread)
    have activeCopy : (referenceOf system).calls thread = some call.forget :=
      congrArg (Option.map Call.forget) active
    rw [Call.complete, ends_bind, Ends, Call.reach]
    cases executed : call.advance.exec system.cache with
    | mk result cache =>
      cases result with
      | error error =>
        have stepped : system.step (.advance thread) = ({ system with cache }.stop thread call,
            call.failure system.cache.faults error) := by
          simp only [System.step, advance, active, executed]
        obtain ⟨failed, replied⟩ := call.failure_cases system.cache.faults error
        rw [stepped] at step
        have stored := ((step.callStep activeCopy (by
          rcases replied with replied | ⟨count, replied⟩ <;> rw [replied] <;> rintro ⟨⟩)).written
          written).2 ⟨failed, replied⟩
        rw [Call.stored_forget] at stored
        refine ⟨_, rfl, ?_⟩
        rw [← stored]
        change cache.copies = ({ system with cache }.stop thread call).cache.copies
        unfold stop
        split <;> rfl
      | ok progress =>
        cases progress with
        | finished reply => rfl
        | running next =>
          have stepped := step_running active executed
          rw [stepped] at consistentAfter step
          refine ih consistentAfter ExtTreeMap.getElem?_insert_self ?_
          refine ((step.callStep activeCopy (by rintro ⟨⟩)).written written).1 next.forget ?_
          simp [referenceOf]

end System

namespace SharedPageCache

/-- A `write` that fails leaves every file of every branch as it was. -/
def AllOrNothing (cache : SharedPageCache World Store Identity) (branch : CacheBranchId)
    (node offset : Nat) (data : List UInt8) : Prop :=
  Ends (write branch node offset data) cache fun result after =>
    ∀ error, result = .error error → after.copies = cache.copies

variable {held : List DaxPageMapping} {cache : SharedPageCache World Store Identity}

theorem allOrNothing_iff (good : Good held cache) (branch : CacheBranchId) (node offset : Nat)
    (data : List UInt8) :
    AllOrNothing cache branch node offset data ↔
      ∀ count, (Call.new (.write data) branch node offset).reach (Call.steps (.write data)) cache =
        some count →
        patchCopies cache.copies branch node offset (data.take count) = cache.copies := by
  have written : Written cache.copies branch node offset data
      (Call.new (.write data) branch node offset : Call DaxPageMapping).forget cache.copies :=
    ⟨rfl, ⟨rfl, rfl, rfl⟩, rfl, by simp [Call.stored, Call.new, Call.forget, patchCopies_nil]⟩
  have ended := System.ends_complete_written (Call.steps (.write data))
    (good.begun (.write data) branch node offset) (calls_begun cache held _) written
  rw [AllOrNothing, write, ends_map]
  refine ends_iff.mp ?_
  refine ended.mono fun result after stores => ?_
  cases result with
  | ok reply =>
    refine iff_of_true (fun error => (by rintro ⟨⟩)) fun count reached => ?_
    exact absurd (reached.symm.trans stores) (by rintro ⟨⟩)
  | error error =>
    obtain ⟨count, reached, copies⟩ := stores
    constructor
    · intro same other reachedOther
      cases reached.symm.trans reachedOther
      exact copies.symm.trans (same error rfl)
    · exact fun unseen _ _ => copies.trans (unseen count reached)

end SharedPageCache

end Stored

/-!
## The first page that is refused
-/

namespace SharedPageCache

variable {World Store Identity : Type} [Ord Identity]

/-- A page that a `write` does not fill: it cannot be mapped, or its page file fails and takes
only the first bytes. -/
structure Refusal where
  page : Nat
  error : CacheError
  progress : Nat

/-- The bytes of a range that come before the refusal. -/
def Refusal.stored (refusal : Refusal) (offset stop : Nat) : Nat :=
  min (max refusal.page offset + refusal.progress) (min (refusal.page + pageSize) stop) - offset

/-!
### Page contents decide nothing
-/

/-- The caches differ in the contents of their page files only. -/
def Refilled (left right : SharedPageCache World Store Identity) : Prop :=
  ∃ contents, right = { left with contents }

section Lockstep

variable {α : Type}

theorem lockstep_change {change : SharedPageCache World Store Identity →
      SharedPageCache World Store Identity}
    (kept : ∀ cache contents, ∃ other, change { cache with contents } =
      { change cache with contents := other }) :
    Lockstep Refilled (modify change : SharedM World Store Identity PUnit) (modify change) := by
  refine lockstep_modify ?_
  rintro first _ ⟨contents, rfl⟩
  exact kept first contents

theorem lockstep_modifyBranch (id : CacheBranchId)
    (change : CacheBranch Store → CacheBranch Store) :
    Lockstep Refilled (modifyBranch id change : SharedM World Store Identity Unit)
      (modifyBranch id change) :=
  lockstep_change fun _ contents => ⟨contents, rfl⟩

theorem lockstep_branchMut (id : CacheBranchId) :
    Lockstep Refilled (branchMut id : SharedM World Store Identity (CacheBranch Store))
      (branchMut id) := by
  refine lockstep_get ?_
  rintro first _ ⟨contents, rfl⟩
  cases first.branches[id]? with
  | none => exact lockstep_throw _
  | some branch => exact lockstep_pure branch

theorem lockstep_probe : Lockstep Refilled (probe : SharedM World Store Identity Unit) probe := by
  refine lockstep_bind ?_ fun fault => ?_
  · rintro first _ ⟨contents, rfl⟩
    exact ⟨rfl, contents, rfl⟩
  · cases fault with
    | none => exact lockstep_pure ()
    | some fault => exact lockstep_throw _

theorem lockstep_askStore (id : CacheBranchId) (question : Store → Except IoError α) :
    Lockstep Refilled (askStore id question : SharedM World Store Identity α)
      (askStore id question) :=
  lockstep_bind (lockstep_branchMut id) fun _ => lockstep_bind lockstep_probe fun _ =>
    lockstep_orIo _

theorem lockstep_withStoreMut (id : CacheBranchId) (operation : Attempt (World × Store) IoError α) :
    Lockstep Refilled (withStoreMut id operation : SharedM World Store Identity α)
      (withStoreMut id operation) := by
  refine lockstep_bind (lockstep_branchMut id) fun _ => lockstep_bind lockstep_probe fun _ => ?_
  refine lockstep_within ?_ ?_
  · rintro first _ ⟨contents, rfl⟩
    rfl
  · rintro first _ inner ⟨contents, rfl⟩
    exact ⟨contents, rfl⟩

theorem lockstep_fromBytes (left right : ByteMap) :
    Lockstep Refilled (fromBytes left : SharedM World Store Identity Nat) (fromBytes right) := by
  refine lockstep_bind lockstep_probe fun _ => ?_
  rintro first _ ⟨contents, rfl⟩
  exact ⟨rfl, _, rfl⟩

theorem lockstep_duplicate (page : Nat) :
    Lockstep Refilled (duplicate page : SharedM World Store Identity Nat) (duplicate page) :=
  lockstep_bind lockstep_probe fun _ => lockstep_get fun _ _ _ => lockstep_fromBytes _ _

theorem lockstep_unmap (id : CacheBranchId) (mapping : DaxPageMapping) :
    Lockstep Refilled (unmap id mapping : SharedM World Store Identity Unit)
      (unmap id mapping) := by
  refine lockstep_get ?_
  rintro first _ ⟨contents, rfl⟩
  refine lockstep_bind lockstep_require fun _ => lockstep_bind (lockstep_branchMut id) ?_
  intro branch
  cases branch.activePages[mapping.page]? with
  | none => exact lockstep_throw _
  | some count =>
    change Lockstep Refilled (unmapCounted id mapping count) (unmapCounted id mapping count)
    unfold unmapCounted
    split
    next => exact lockstep_throw _
    next =>
      exact lockstep_bind (lockstep_modifyBranch id _) fun _ =>
        lockstep_onlyIf (lockstep_modifyBranch id _)

variable [Std.TransOrd Identity] [ForkableNodeStore World Store Identity]

theorem lockstep_loadPage (id : CacheBranchId) (identity : Identity) (key : PageKey) :
    Lockstep Refilled (loadPage id identity key : SharedM World Store Identity Nat)
      (loadPage id identity key) := by
  refine lockstep_get ?_
  rintro first _ ⟨contents, rfl⟩
  cases first.pages[identity]? with
  | some page => exact lockstep_pure page
  | none =>
    refine lockstep_bind (lockstep_askStore id _) fun bytes => ?_
    refine lockstep_bind (lockstep_fromBytes _ _) fun page => ?_
    exact lockstep_bind (lockstep_change fun _ contents => ⟨contents, rfl⟩) fun _ => lockstep_pure _

variable [DecidableEq Identity]

theorem lockstep_pageFor (id : CacheBranchId) (key : PageKey) (identity : Identity) (page : Nat)
    (copyOnWrite : Bool) :
    Lockstep Refilled (pageFor id key identity page copyOnWrite : SharedM World Store Identity Nat)
      (pageFor id key identity page copyOnWrite) := by
  unfold pageFor
  split
  next =>
    refine lockstep_bind (lockstep_duplicate page) fun newPage => ?_
    refine lockstep_bind (lockstep_withStoreMut id _) fun newIdentity => ?_
    refine lockstep_bind (lockstep_change fun _ contents => ⟨contents, rfl⟩) fun _ => ?_
    refine lockstep_bind (lockstep_change fun cache contents => ⟨contents, ?_⟩) fun _ => ?_
    · have same : ({ cache with contents } : SharedPageCache World Store Identity).identityIsVisible
        key identity = cache.identityIsVisible key identity := rfl
      unfold dropHidden
      rw [same]
      split <;> rfl
    · exact lockstep_bind (lockstep_modifyBranch id _) fun _ => lockstep_pure _
  next => exact lockstep_pure page

theorem lockstep_mapPage (id : CacheBranchId) (node offset : Nat) (flags : MapFlags) :
    Lockstep Refilled (mapPage id node offset flags : SharedM World Store Identity DaxPageMapping)
      (mapPage id node offset flags) := by
  refine lockstep_bind lockstep_require fun _ => lockstep_bind lockstep_require fun _ => ?_
  refine lockstep_bind (lockstep_branchMut id) fun branch => ?_
  refine lockstep_bind lockstep_require fun _ => lockstep_bind (lockstep_orIo _) fun identity => ?_
  refine lockstep_bind (lockstep_loadPage id identity _) fun loaded => ?_
  refine lockstep_bind lockstep_require fun _ => ?_
  refine lockstep_bind (lockstep_pageFor id _ identity loaded _) fun page => ?_
  refine lockstep_bind (lockstep_change fun _ contents => ⟨contents, rfl⟩) fun _ => ?_
  refine lockstep_bind (lockstep_modifyBranch id _) fun _ => lockstep_get ?_
  rintro first _ ⟨contents, rfl⟩
  exact lockstep_pure _

end Lockstep

/-!
### How far a write comes
-/

variable [ForkableNodeStore World Store Identity]

/-- `write` finds its range in the file. -/
structure InBounds (cache : SharedPageCache World Store Identity) (branch : CacheBranchId)
    (node offset count : Nat) : Prop where
  fits : offset + count < Word64.bound
  asked : cache.faults.head?.join = none
  inside : ∃ state length, cache.branches[branch]? = some state ∧
    NodeStore.len World state.store node = .ok length ∧ offset + count ≤ length

theorem ends_measure_inBounds (cache : SharedPageCache World Store Identity)
    (branch : CacheBranchId) (node offset : Nat) (data : List UInt8) :
    Ends (Call.new (.write data) branch node offset : Call DaxPageMapping).measure cache
      fun result after =>
        (cache.InBounds branch node offset data.length ∧
          result = .ok ({ (Call.new (.write data) branch node offset : Call DaxPageMapping) with
            stop := offset + data.length }.loop) ∧
          after = { cache with faults := cache.faults.tail }) ∨
        (¬ cache.InBounds branch node offset data.length ∧ ∃ error, result = .error error) := by
  simp only [Call.measure, Call.new, ends_bind]
  cases added : Word64.checkedAdd offset data.length with
  | none =>
    refine .inr ⟨fun bounds => ?_, _, rfl⟩
    rw [Word64.checkedAdd, if_pos bounds.fits] at added
    cases added
  | some stop =>
    have fits := Word64.checkedAdd_lt added
    obtain rfl := Word64.checkedAdd_eq_some added
    refine ends_orInvalid_some rfl ?_
    simp only [askStore, ends_bind]
    refine ends_branchMut (fun state found => ?_) fun absent => .inr ⟨fun bounds => ?_, _, rfl⟩
    · simp only [probe, nextFault, ends_bind, ends_get, ends_set, ends_pure]
      cases fault : cache.faults.head?.join with
      | some fault =>
        refine .inr ⟨fun bounds => ?_, _, rfl⟩
        rw [bounds.asked] at fault
        cases fault
      | none =>
        cases measured : NodeStore.len World state.store node with
        | error error =>
          refine .inr ⟨fun bounds => ?_, _, rfl⟩
          obtain ⟨same, length, foundSame, answered, -⟩ := bounds.inside
          cases found.symm.trans foundSame
          cases measured.symm.trans answered
        | ok length =>
          simp only [ends_pure]
          refine ends_orIo_ok rfl (ends_require.mpr ⟨fun inside => ?_, fun outside => ?_⟩)
          · exact .inl ⟨⟨fits, fault, state, length, found, measured, inside⟩, trivial, rfl⟩
          refine .inr ⟨fun bounds => ?_, _, rfl⟩
          obtain ⟨same, known, foundSame, answered, inside⟩ := bounds.inside
          cases found.symm.trans foundSame
          cases measured.symm.trans answered
          exact outside inside
    · obtain ⟨state, length, found, -⟩ := bounds.inside
      rw [absent] at found
      cases found

variable [Std.TransOrd Identity] [DecidableEq Identity]
  {held : List DaxPageMapping} {cache dry : SharedPageCache World Store Identity}
  {call : Call DaxPageMapping} {branch : CacheBranchId} {node offset : Nat} {data : List UInt8}

/-- The pages are mapped for writing and unmapped, one after the other, and nothing is stored in
them. The first page that cannot be mapped, or whose page file will fail. -/
def firstRefusal (branch : CacheBranchId) (node : NodeId) :
    List Nat → SharedPageCache World Store Identity → Option Refusal
  | [], _ => none
  | page :: rest, cache =>
    match (mapPage branch node page .READ_WRITE).exec cache with
    | (.error error, _) => some ⟨page, error, 0⟩
    | (.ok mapping, mapped) =>
      match mapped.faults.head?.join with
      | some fault => some ⟨page, .io fault.error, fault.progress⟩
      | none =>
        firstRefusal branch node rest
          ((unmap branch mapping).exec { mapped with faults := mapped.faults.tail }).2

theorem reach_new (cache : SharedPageCache World Store Identity) (branch : CacheBranchId)
    (node offset : Nat) (data : List UInt8) :
    (Call.new (.write data) branch node offset).reach (Call.steps (.write data)) cache =
      match (Call.new (.write data) branch node offset).measure.exec cache with
      | (.ok (.running next), after) => next.reach (3 * (data.length / pageSize + 2)) after
      | (.ok (.finished _), _) => none
      | (.error _, _) => some 0 := by
  have counted : Call.steps (.write data) = 3 * (data.length / pageSize + 2) + 1 :=
    Nat.add_comm _ _
  have starts : (Call.new (.write data) branch node offset).advance =
      ((Call.new (.write data) branch node offset).measure :
        SharedM World Store Identity (Progress DaxPageMapping)) := rfl
  rw [counted, Call.reach, starts]
  cases (Call.new (.write data) branch node offset).measure.exec cache with
  | mk result after =>
    cases result with
    | ok progress => cases progress <;> rfl
    | error error => simp [Call.stored, Call.new, Call.failure, Reply.stored]

theorem reach_nothing (nothing : ¬ cache.InBounds branch node offset data.length ∨ data = [])
    {count : Nat} (reached : (Call.new (.write data) branch node offset).reach
      (Call.steps (.write data)) cache = some count) : count = 0 := by
  rw [reach_new] at reached
  cases executed : (Call.new (.write data) branch node offset :
      Call DaxPageMapping).measure.exec cache with
  | mk result after =>
    rw [executed] at reached
    cases (ends_measure_inBounds cache branch node offset data).of_exec executed with
    | inr refused =>
      obtain ⟨-, error, rfl⟩ := refused
      exact (Option.some.inj reached).symm
    | inl measured =>
      obtain ⟨bounds, rfl, rfl⟩ := measured
      obtain rfl := nothing.resolve_left (not_not_intro bounds)
      have looped : ({ (Call.new (.write []) branch node offset : Call DaxPageMapping) with
          stop := offset + ([] : List UInt8).length }).loop = .finished (.wrote 0) :=
        if_neg (Nat.lt_irrefl offset)
      rw [looped] at reached
      cases reached

structure AtPage (data : List UInt8) (call : Call DaxPageMapping) : Prop where
  phase : call.phase = .map
  job : call.job = .write data
  stop : call.stop = call.offset + data.length
  inside : call.cursor < call.stop
  start : call.cursor = max (pageOf call.cursor) call.offset

theorem AtPage.length_chunk (page : AtPage data call) :
    (call.chunk data).length = call.chunkLen := by
  have short : call.chunkLen ≤ call.stop - call.cursor := Nat.min_le_right _ _
  have stop := page.stop
  have start := page.start
  rw [Call.chunk, List.length_take, List.length_drop]
  omega

theorem AtPage.stored_eq (page : AtPage data call) (error : CacheError) (progress : Nat) :
    Refusal.stored ⟨pageOf call.cursor, error, progress⟩ call.offset call.stop =
      call.cursor - call.offset + min progress call.chunkLen := by
  obtain ⟨-, -, -, inside, start⟩ := page
  have below := pageOf_le call.cursor
  have above := lt_pageOf_add call.cursor
  simp only [Refusal.stored, Call.chunkLen, Call.withinPage, ← start]
  omega

theorem AtPage.loop (page : AtPage data call) {next : Call DaxPageMapping}
    (copied : next = { call with cursor := call.cursor + call.chunkLen, phase := .map }) :
    { call with cursor := call.cursor + call.chunkLen }.loop =
      (if call.stop ≤ pageOf call.cursor + pageSize then .finished (.wrote data.length)
        else .running next) ∧
    (¬ call.stop ≤ pageOf call.cursor + pageSize → AtPage data next ∧
      pageOf next.cursor = pageOf call.cursor + pageSize ∧ next.pagesLeft < call.pagesLeft) := by
  obtain ⟨phase, job, stop, inside, start⟩ := page
  have ends : call.cursor + call.chunkLen = min (pageOf call.cursor + pageSize) call.stop := by
    have below := pageOf_le call.cursor
    have above := lt_pageOf_add call.cursor
    simp only [Call.chunkLen, Call.withinPage]
    omega
  constructor
  · simp only [Call.loop, ends, job, Job.result, copied]
    split
    next more => rw [if_neg (by omega)]
    next last => rw [if_pos (by omega)]
  · intro more
    have cursor : next.cursor = pageOf call.cursor + pageSize := by
      rw [copied, ends]
      exact Nat.min_eq_left (Nat.le_of_not_le more)
    have whole : pageOf next.cursor = next.cursor := by
      rw [cursor]
      refine pageOf_eq_of_mem ?_ (Nat.le_refl _) (Nat.lt_add_of_pos_right (by decide))
      rw [Nat.add_mod_right, pageOf_mod]
    have sameStop : next.stop = call.stop := by rw [copied]
    have sameOffset : next.offset = call.offset := by rw [copied]
    have above := lt_pageOf_add call.cursor
    refine ⟨⟨by rw [copied], by rw [copied, job], by rw [sameStop, sameOffset, stop], ?_, ?_⟩,
      whole.trans cursor, ?_⟩
    · rw [sameStop, cursor]
      omega
    · rw [whole, cursor, sameOffset]
      omega
    · simp only [Call.pagesLeft, sameStop, cursor]
      unfold pageOf pageSize at *
      omega

theorem AtPage.reach_torn (page : AtPage data call) (mapping : DaxPageMapping) (fuel : Nat)
    {fault : Fault} (failing : cache.faults.head?.join = some fault) :
    { call with phase := .copy mapping }.reach (fuel + 1) cache =
      some (Refusal.stored ⟨pageOf call.cursor, .io fault.error, fault.progress⟩ call.offset
        call.stop) := by
  let copying : Call DaxPageMapping := { call with phase := .copy mapping }
  have fails : ∃ after, copying.advance.exec cache = (.error (.io fault.error), after) := by
    have ends : Ends copying.advance cache fun result _ => result = .error (.io fault.error) := by
      simp only [copying, Call.advance, Call.copyChunk, page.job, writePage, nextFault, ends_bind,
        ends_get, ends_set, ends_pure, failing, ends_modify, ends_throw]
    exact ⟨_, Prod.ext ends rfl⟩
  obtain ⟨after, executed⟩ := fails
  have length : (copying.chunk data).length = call.chunkLen := page.length_chunk
  change copying.reach (fuel + 1) cache = _
  rw [Call.reach, executed, page.stored_eq]
  simp only [Call.failure, copying, page.job, failing, Option.map_some, Option.getD_some,
    Reply.stored, Call.stored]
  exact congrArg (fun count => some (call.cursor - call.offset + min fault.progress count)) length

variable [FileView Store] [IdentityLedger World Identity] [StoreLedger World Store]

theorem AtPage.reach_copied (page : AtPage data call) {mapping : DaxPageMapping}
    (good : Good (mapping :: held) dry) (owner : mapping.branch = call.branch)
    (same : Refilled dry cache) (quiet : dry.faults.head?.join = none) (fuel : Nat)
    (later : ∀ {next : Call DaxPageMapping} {dry cache : SharedPageCache World Store Identity},
      AtPage data next → next.pagesLeft < call.pagesLeft → Good held dry → Refilled dry cache →
      next.reach fuel cache = (firstRefusal next.branch next.node
        (pageOffsets (pageOf next.cursor) next.stop) dry).map
          fun refusal => refusal.stored next.offset next.stop) :
    { call with phase := .copy mapping }.reach (fuel + 2) cache =
      (firstRefusal call.branch call.node (pageOffsets (pageOf call.cursor + pageSize) call.stop)
        ((unmap call.branch mapping).exec { dry with faults := dry.faults.tail }).2).map
          fun refusal => refusal.stored call.offset call.stop := by
  obtain ⟨contents, rfl⟩ := same
  let copying : Call DaxPageMapping := { call with phase := .copy mapping }
  let leaving : Call DaxPageMapping := { call with phase := .unmap mapping }
  have fills : ∃ filled, copying.advance.exec { dry with contents } =
      (.ok (.running leaving), { dry with faults := dry.faults.tail, contents := filled }) := by
    have ends : Ends copying.advance { dry with contents } fun result after =>
        result = .ok (.running leaving) ∧
          ∃ filled, after = { dry with faults := dry.faults.tail, contents := filled } := by
      simp only [copying, leaving, Call.advance, Call.copyChunk, page.job, writePage, nextFault,
        ends_bind, ends_get, ends_set, ends_pure, quiet, ends_modify]
      exact ⟨trivial, _, rfl⟩
    obtain ⟨result, filled, after⟩ := ends
    exact ⟨filled, Prod.ext result after⟩
  obtain ⟨filled, filling⟩ := fills
  -- the mapping is given back on both sides
  have goodQuiet : Good (mapping :: held) { dry with faults := dry.faults.tail } :=
    (grown_faults dry _).good good
  have unmapped := ends_unmap goodQuiet List.mem_cons_self
  rw [List.erase_cons_head, owner] at unmapped
  have both := lockstep_unmap call.branch mapping { dry with faults := dry.faults.tail }
    { dry with faults := dry.faults.tail, contents := filled } ⟨filled, rfl⟩
  have leaves : leaving.advance = (do
      unmap call.branch mapping
      pure ({ call with cursor := call.cursor + call.chunkLen, phase := .unmap mapping }.loop) :
        SharedM World Store Identity (Progress DaxPageMapping)) := rfl
  change copying.reach (fuel + 2) _ = _
  rw [Call.reach, filling]
  change leaving.reach (fuel + 1) _ = _
  rw [Call.reach, leaves, exec_bind]
  cases left : (unmap call.branch mapping).exec { dry with faults := dry.faults.tail } with
  | mk result dryAfter =>
    cases right : (unmap call.branch mapping).exec
        { dry with faults := dry.faults.tail, contents := filled } with
    | mk answer after =>
      rw [left, right] at both
      obtain ⟨rfl, refilled⟩ := both
      obtain ⟨rfl, goodAfter, -⟩ := unmapped.of_exec left
      obtain ⟨looped, more⟩ := page.loop rfl
      have ended : ({ call with cursor := call.cursor + call.chunkLen, phase := .unmap mapping } :
          Call DaxPageMapping).loop =
            { call with cursor := call.cursor + call.chunkLen }.loop := rfl
      simp only [exec_pure, ended, looped]
      by_cases last : call.stop ≤ pageOf call.cursor + pageSize
      · rw [if_pos last, pageOffsets_eq_nil last]
        rfl
      · obtain ⟨next, cursor, fewer⟩ := more last
        rw [if_neg last, ← cursor]
        exact later next fewer goodAfter refilled

variable [Std.LawfulEqOrd Identity] [LawfulForkableStore World Store Identity]

/-- A `write` at a page comes as far as the first page that is refused. -/
theorem AtPage.reach_eq (page : AtPage data call) (good : Good held dry)
    (same : Refilled dry cache) {fuel : Nat} (enough : 3 * call.pagesLeft ≤ fuel) :
    call.reach fuel cache = (firstRefusal call.branch call.node
      (pageOffsets (pageOf call.cursor) call.stop) dry).map
        fun refusal => refusal.stored call.offset call.stop := by
  induction fuel using Nat.strong_induction_on generalizing call cache dry with
  | _ fuel ih =>
    have some := Call.pagesLeft_pos page.inside
    obtain ⟨rest, rfl⟩ : ∃ rest, fuel = rest + 3 := ⟨fuel - 3, by omega⟩
    have below : pageOf call.cursor < call.stop :=
      Nat.lt_of_le_of_lt (pageOf_le _) page.inside
    have maps : call.advance = (do
        let mapping ← mapPage call.branch call.node (pageOf call.cursor) .READ_WRITE
        pure (.running { call with phase := .copy mapping }) :
          SharedM World Store Identity (Progress DaxPageMapping)) := by
      simp only [Call.advance, page.phase, page.job, Job.flags]
    have mapped := ends_mapPage good call.branch call.node (pageOf call.cursor) .READ_WRITE
    have both :=
      lockstep_mapPage call.branch call.node (pageOf call.cursor) .READ_WRITE dry cache same
    rw [pageOffsets_cons below, firstRefusal, Call.reach, maps, exec_bind]
    cases left : (mapPage call.branch call.node (pageOf call.cursor) .READ_WRITE).exec dry with
    | mk result dryMapped =>
      cases right : (mapPage call.branch call.node (pageOf call.cursor) .READ_WRITE).exec cache with
      | mk answer wetMapped =>
        rw [left, right] at both
        obtain ⟨rfl, contents, rfl⟩ := both
        cases result with
        | error error =>
          simp only [Call.stored, Call.failure, Reply.stored, page.phase, Option.map_some,
            page.stored_eq, Nat.zero_min]
        | ok mapping =>
          obtain ⟨-, -, given⟩ := mapped.of_exec left
          obtain ⟨goodMapped, owner, -⟩ := given mapping rfl
          cases fault : dryMapped.faults.head?.join with
          | some fault =>
            simp only [exec_pure, fault, Option.map_some]
            exact page.reach_torn mapping (rest + 1) fault
          | none =>
            simp only [exec_pure, fault]
            exact page.reach_copied goodMapped owner ⟨contents, rfl⟩ fault rest
              fun later fewer goodLater sameLater =>
                ih rest (by omega) later goodLater sameLater (by omega)

theorem reach_inBounds (good : Good held cache)
    (bounds : cache.InBounds branch node offset data.length) (some : data ≠ []) :
    (Call.new (.write data) branch node offset).reach (Call.steps (.write data)) cache =
      (firstRefusal branch node (pageOffsets (pageOf offset) (offset + data.length))
        { cache with faults := cache.faults.tail }).map
          fun refusal => refusal.stored offset (offset + data.length) := by
  have starts : offset < offset + data.length :=
    Nat.lt_add_of_pos_right (List.length_pos_iff.mpr some)
  let next : Call DaxPageMapping :=
    { (Call.new (.write data) branch node offset : Call DaxPageMapping) with
      stop := offset + data.length, phase := .map }
  have page : AtPage data next :=
    ⟨rfl, rfl, rfl, starts, (Nat.max_eq_right (pageOf_le offset)).symm⟩
  have looped : { (Call.new (.write data) branch node offset : Call DaxPageMapping) with
      stop := offset + data.length }.loop = .running next := if_pos starts
  have enough : 3 * next.pagesLeft ≤ 3 * (data.length / pageSize + 2) := by
    change 3 * ((offset + data.length + pageSize - 1) / pageSize - offset / pageSize) ≤ _
    unfold pageSize
    omega
  rw [reach_new]
  cases executed : (Call.new (.write data) branch node offset :
      Call DaxPageMapping).measure.exec cache with
  | mk result after =>
    cases (ends_measure_inBounds cache branch node offset data).of_exec executed with
    | inl measured =>
      obtain ⟨-, rfl, rfl⟩ := measured
      rw [looped]
      exact page.reach_eq ((grown_faults cache cache.faults.tail).good good) ⟨cache.contents, rfl⟩
        enough
    | inr refused => exact absurd bounds refused.1

theorem allOrNothing_iff_refusal [FileMaker World Store] [LawfulFileMaker World Store Identity]
    (good : Good held cache) (branch : CacheBranchId)
    (node offset : Nat) (data : List UInt8) :
    AllOrNothing cache branch node offset data ↔
      ∀ files bytes refusal, cache.copies branch = some files → files node = some bytes →
        cache.InBounds branch node offset data.length →
        firstRefusal branch node (pageOffsets (pageOf offset) (offset + data.length))
          { cache with faults := cache.faults.tail } = some refusal →
        (bytes.drop offset).take (refusal.stored offset (offset + data.length)) =
          data.take (refusal.stored offset (offset + data.length)) := by
  have short : ∀ refusal : Refusal,
      refusal.stored offset (offset + data.length) ≤ data.length := by
    intro refusal
    unfold Refusal.stored
    omega
  have known : ∀ {files bytes}, cache.copies branch = some files → files node = some bytes →
      cache.InBounds branch node offset data.length → offset + data.length ≤ bytes.length := by
    intro files bytes live present bounds
    obtain ⟨state, length, found, measured, inside⟩ := bounds.inside
    obtain ⟨sameFiles, sameBytes, same, there, rfl⟩ := System.file_of_len found measured
    cases live.symm.trans same
    cases present.symm.trans there
    exact inside
  rw [allOrNothing_iff good]
  constructor
  · intro kept files bytes refusal live present bounds refused
    by_cases nothing : data = []
    · subst nothing
      have none : refusal.stored offset (offset + ([] : List UInt8).length) = 0 :=
        Nat.eq_zero_of_le_zero (short refusal)
      rw [none, List.take_zero, List.take_zero]
    · refine (patchCopies_eq_self_iff live present (known live present bounds)
        (short refusal)).mp (kept _ ?_)
      rw [reach_inBounds good bounds nothing, refused, Option.map_some]
  · intro there count reached
    by_cases nothing : ¬ cache.InBounds branch node offset data.length ∨ data = []
    · rw [reach_nothing nothing reached, List.take_zero, patchCopies_nil]
    · obtain ⟨bounds, some⟩ := not_or.mp nothing
      have inBounds := Classical.not_not.mp bounds
      rw [reach_inBounds good inBounds some] at reached
      obtain ⟨refusal, refused, rfl⟩ := Option.map_eq_some_iff.mp reached
      obtain ⟨state, length, found, measured, -⟩ := inBounds.inside
      obtain ⟨files, bytes, live, present, -⟩ := System.file_of_len found measured
      exact (patchCopies_eq_self_iff live present (known live present inBounds)
        (short refusal)).mpr (there files bytes refusal live present inBounds refused)

/-!
### Why a page is refused
-/

structure FirstBusy (held : List DaxPageMapping) (cache : SharedPageCache World Store Identity)
    (branch : CacheBranchId) (node start stop page : Nat) : Prop where
  aligned : page % pageSize = 0
  range : pageOf start ≤ page ∧ page < stop
  busy : Busy held cache branch (node, page)
  first : ∀ earlier < page, earlier % pageSize = 0 → pageOf start ≤ earlier →
    ¬ Busy held cache branch (node, earlier)

omit [DecidableEq Identity] [Std.LawfulEqOrd Identity]
  [LawfulForkableStore World Store Identity] in
theorem ends_unmap_written {mapping : DaxPageMapping}
    {mapped : SharedPageCache World Store Identity} {page : Nat}
    (good : Good (mapping :: held) mapped) (owner : mapping.branch = branch)
    (frame : Frame (fun id key => MapFlags.READ_WRITE.write ∧ id = branch ∧ key = (node, page))
      cache mapped) :
    Ends (unmap branch mapping) { mapped with faults := mapped.faults.tail } fun _ after =>
      Good held after ∧ (after.opened branch node = cache.opened branch node) ∧
        ∀ other, (Busy held after branch (node, other) → Busy held cache branch (node, other)) ∧
          (other ≠ page → Busy held cache branch (node, other) →
            Busy held after branch (node, other)) := by
  have unmapped := ends_unmap ((grown_faults mapped mapped.faults.tail).good good)
    List.mem_cons_self
  have framed : Moves (Frame unclaimed)
      (unmap branch mapping : SharedM World Store Identity Unit) :=
    framed_unmap branch mapping
  rw [List.erase_cons_head, owner] at unmapped
  refine (unmapped.and (framed _)).mono ?_
  rintro result after ⟨⟨-, goodAfter, -⟩, unframed⟩
  have opened : after.opened branch node = mapped.opened branch node := unframed.opened _ _
  refine ⟨goodAfter, opened.trans (frame.opened _ _), fun other => ⟨?_, fun different => ?_⟩⟩
  · rintro ⟨unowned, seen⟩
    exact ⟨fun owned => unowned (unframed.owns _ _ (frame.owns _ _ owned)), seen⟩
  · rintro ⟨unowned, seen⟩
    refine ⟨fun owned => ?_, seen⟩
    have earlier : mapped.Owns branch (node, other) :=
      (unframed.claimed _ _ owned).resolve_right fun claimed => claimed
    cases frame.claimed _ _ earlier with
    | inl before => exact unowned before
    | inr claimed => exact different (congrArg Prod.snd claimed.2.2)

/-- Of an open file, the host or the store fails the page, or it is the first busy one. -/
theorem firstRefusal_cause {pages : List Nat} (good : Good held cache)
    (open' : cache.opened branch node ≠ 0) (aligned : ∀ page ∈ pages, page % pageSize = 0)
    (sorted : pages.Pairwise (· < ·)) {refusal : Refusal}
    (refused : firstRefusal branch node pages cache = some refusal) :
    (∃ io, refusal.error = .io io) ∨ refusal.error = .pageBusy ∧ refusal.page ∈ pages ∧
      Busy held cache branch (node, refusal.page) ∧
      ∀ earlier ∈ pages, earlier < refusal.page → ¬ Busy held cache branch (node, earlier) := by
  induction pages generalizing cache with
  | nil => cases refused
  | cons page rest ih =>
    obtain ⟨first, sortedRest⟩ := List.pairwise_cons.mp sorted
    rw [List.forall_mem_cons] at aligned
    obtain ⟨state, found⟩ : ∃ state, cache.branches[branch]? = some state := by
      cases found : cache.branches[branch]? with
      | none => simp [opened, found] at open'
      | some state => exact ⟨state, rfl⟩
    have answered : Ends (mapPage branch node page .READ_WRITE) cache fun result _ =>
        Answers held cache branch (node, page) .READ_WRITE result :=
      ends_mapPage_answers good found aligned.1 rfl open'
    have mapped := ends_mapPage good branch node page .READ_WRITE
    have framed := framed_mapPage branch node page .READ_WRITE cache
    rw [firstRefusal] at refused
    cases executed : (mapPage branch node page .READ_WRITE).exec cache with
    | mk result middle =>
      rw [executed] at refused
      cases answered.of_exec executed with
      | failed io =>
        cases refused
        exact .inl ⟨io, rfl⟩
      | refused writes busy =>
        cases refused
        refine .inr ⟨rfl, List.mem_cons_self, busy, fun earlier member below => ?_⟩
        cases List.mem_cons.mp member with
        | inl same => exact absurd below (by rw [same]; exact Nat.lt_irrefl _)
        | inr later => exact absurd below (Nat.lt_asymm (first earlier later))
      | given free mapping =>
        cases next : middle.faults.head?.join with
        | some fault =>
          simp only [next] at refused
          cases refused
          exact .inl ⟨fault.error, rfl⟩
        | none =>
          simp only [next] at refused
          obtain ⟨goodMiddle, owner, -⟩ := (mapped.of_exec executed).2.2 mapping rfl
          obtain ⟨goodAfter, opened, busy⟩ :=
            ends_unmap_written goodMiddle owner (framed.of_exec executed)
          rw [← opened] at open'
          refine (ih goodAfter open' aligned.2 sortedRest refused).imp_right ?_
          rintro ⟨error, member, busyAfter, before⟩
          refine ⟨error, List.mem_cons_of_mem _ member, (busy _).1 busyAfter, ?_⟩
          intro earlier listed below busyEarlier
          cases List.mem_cons.mp listed with
          | inl same =>
            subst same
            exact free ⟨rfl, busyEarlier⟩
          | inr later =>
            refine before earlier later below ((busy earlier).2 ?_ busyEarlier)
            exact Nat.ne_of_gt (first earlier later)

theorem firstBusy_of_refusal {offset stop : Nat} (good : Good held cache)
    (open' : cache.opened branch node ≠ 0) {refusal : Refusal}
    (refused : firstRefusal branch node (pageOffsets (pageOf offset) stop)
      { cache with faults := cache.faults.tail } = some refusal) :
    (∃ io, refusal.error = .io io) ∨
      refusal.error = .pageBusy ∧ FirstBusy held cache branch node offset stop refusal.page := by
  have aligned : ∀ page ∈ pageOffsets (pageOf offset) stop, page % pageSize = 0 :=
    fun _ member => mod_of_mem_pageOffsets (pageOf_mod offset) member
  refine (firstRefusal_cause ((grown_faults cache cache.faults.tail).good good) open' aligned
    (pageOffsets_sorted _ _) refused).imp_right ?_
  rintro ⟨error, member, busy, before⟩
  obtain ⟨index, at', below⟩ := mem_pageOffsets.mp member
  refine ⟨error, aligned _ member, ⟨by omega, below⟩, busy, fun earlier less whole lower => ?_⟩
  refine before earlier ?_ less
  have listed := pageOf_mem_pageOffsets (pageOf_mod offset) lower (Nat.lt_trans less below)
  rwa [pageOf_eq_of_mem whole (Nat.le_refl _) (Nat.lt_add_of_pos_right (by decide))] at listed

end SharedPageCache

variable {World Store Identity : Type} [Ord Identity] [Std.TransOrd Identity]
  [Std.LawfulEqOrd Identity] [DecidableEq Identity] [ForkableNodeStore World Store Identity]
  [FileView Store] [IdentityLedger World Identity] [StoreLedger World Store]
  [LawfulForkableStore World Store Identity] [FileMaker World Store]
  [LawfulFileMaker World Store Identity]

namespace TwoPages

open Redox

def start : System RedoxWorld (MountedBranch OneFile) RedoxPageIdentity :=
  System.new (SharedPageCache.ofStores 1 1 OneFile.world [] [OneFile.branch])

def actions : List Action := [.createFile 1 "a" 4097, .openNode 1 2]

def mapped : List Action := actions ++ [.mapPage 1 2 4096 .READ]

def lastByte (cache : SharedPageCache RedoxWorld (MountedBranch OneFile) RedoxPageIdentity) :
    Option UInt8 :=
  ((cache.copies 1).bind fun files => files 2).bind fun bytes => bytes[4095]?

end TwoPages

end Minidox.Cache
