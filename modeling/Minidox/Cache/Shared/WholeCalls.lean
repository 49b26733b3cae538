import Minidox.Cache.Shared.Refinement

/-!
# Calls that run to their end

`SharedPageCache::read` and `SharedPageCache::write` as their callers see them. A call takes
one step after the other until it returns. It leaves the mappings as they were, unless the
page file fails it while it copies.
-/

set_option autoImplicit false

namespace Minidox.Cache

open Foundation Attempt
open Std (ExtTreeMap)

def Job.length : Job → Nat
  | .read capacity => capacity
  | .write data => data.length

namespace Reply

def bytes : Reply → List UInt8
  | .read bytes => bytes
  | _ => []

def count : Reply → Nat
  | .wrote count => count
  | _ => 0

end Reply

variable {World Store Identity : Type} [Ord Identity]

section Model

variable [Std.TransOrd Identity] [DecidableEq Identity] [ForkableNodeStore World Store Identity]

namespace Call

/-- One step for the length of the file, and three for every page. -/
def steps (job : Job) : Nat := 1 + 3 * (job.length / pageSize + 2)

def complete (call : Call DaxPageMapping) : Nat → SharedM World Store Identity Reply
  | 0 => pure .running
  | fuel + 1 => do
    match ← call.advance with
    | .running next => next.complete fuel
    | .finished reply => pure reply

def copying (call : Call DaxPageMapping) : Bool :=
  match call.phase with
  | .copy _ => true
  | _ => false

/-- The page files take and give all that the call copies. -/
def Served (call : Call DaxPageMapping) :
    Nat → SharedPageCache World Store Identity → Prop
  | 0, _ => True
  | fuel + 1, cache =>
    (call.copying → cache.faults.head?.join = none) ∧
      match call.advance.exec cache with
      | (.ok (.running next), after) => next.Served fuel after
      | _ => True

instance decidableServed : (call : Call DaxPageMapping) → (fuel : Nat) →
    (cache : SharedPageCache World Store Identity) → Decidable (call.Served fuel cache)
  | _, 0, _ => .isTrue trivial
  | call, fuel + 1, cache =>
    @instDecidableAnd _ _ inferInstance
      (match call.advance.exec cache with
      | (.ok (.running next), after) => decidableServed next fuel after
      | (.ok (.finished _), _) => .isTrue trivial
      | (.error _, _) => .isTrue trivial)

end Call

namespace SharedPageCache

def read (branch : CacheBranchId) (node offset capacity : Nat) :
    SharedM World Store Identity (List UInt8) :=
  Reply.bytes <$> (Call.new (.read capacity) branch node offset).complete
    (Call.steps (.read capacity))

def write (branch : CacheBranchId) (node offset : Nat) (data : List UInt8) :
    SharedM World Store Identity Nat :=
  Reply.count <$> (Call.new (.write data) branch node offset).complete (Call.steps (.write data))

end SharedPageCache

end Model

/-!
## The steps are enough
-/

namespace Call

def pagesLeft (call : Call DaxPageMapping) : Nat :=
  (call.stop + pageSize - 1) / pageSize - call.cursor / pageSize

/-- No more steps than these until the call returns. -/
def stepsLeft (call : Call DaxPageMapping) : Nat :=
  match call.phase with
  | .measure => steps call.job
  | .map => 3 * call.pagesLeft
  | .copy _ => 3 * call.pagesLeft - 1
  | .unmap _ => 3 * call.pagesLeft - 2

def Placed (call : Call DaxPageMapping) : Prop :=
  match call.phase with
  | .measure => call.cursor = call.offset
  | _ => call.cursor < call.stop

def Shortens (call : Call DaxPageMapping) : Progress DaxPageMapping → Prop
  | .running next => next.Placed ∧ next.stepsLeft < call.stepsLeft
  | .finished reply => reply ≠ .running

variable {call : Call DaxPageMapping}

theorem pagesLeft_pos (inside : call.cursor < call.stop) :
    0 < call.pagesLeft := by
  unfold pagesLeft pageSize
  omega

theorem stepsLeft_pos (placed : call.Placed) : 0 < call.stepsLeft := by
  unfold stepsLeft
  unfold Placed at placed
  split at placed
  next phase =>
    simp only [phase, steps]
    omega
  next =>
    have := pagesLeft_pos placed
    split <;> simp_all <;> omega

theorem loop_shortens {next : Call DaxPageMapping}
    (fewer : next.cursor < next.stop → 3 * next.pagesLeft < call.stepsLeft) :
    call.Shortens next.loop := by
  unfold loop
  split
  next inside => exact ⟨inside, fewer inside⟩
  next =>
    cases next.job with
    | read capacity => rintro ⟨⟩
    | write data => rintro ⟨⟩

def Next (call : Call DaxPageMapping) (progress : Progress DaxPageMapping) : Prop :=
  match call.phase with
  | .measure => True
  | .map => ∃ mapping, progress = .running { call with phase := .copy mapping }
  | .copy mapping =>
    ∃ collected, progress = .running { call with collected, phase := .unmap mapping } ∧
      ∀ capacity, call.job = .read capacity →
        collected.length = call.collected.length + call.chunkLen
  | .unmap _ => progress = { call with cursor := call.cursor + call.chunkLen }.loop

theorem ends_copyChunk_fault (call : Call DaxPageMapping) (mapping : DaxPageMapping)
    (cache : SharedPageCache World Store Identity) :
    Ends (call.copyChunk mapping) cache fun result _ =>
      (∃ collected, result = .ok collected) ↔ cache.faults.head?.join = none := by
  unfold copyChunk
  cases fault : cache.faults.head?.join with
  | none =>
    cases job : call.job with
    | read capacity =>
      simp only [SharedPageCache.probe, SharedPageCache.nextFault, ends_bind, ends_get, ends_set,
        ends_pure, fault]
      exact iff_of_true ⟨_, rfl⟩ trivial
    | write data =>
      simp only [SharedPageCache.writePage, SharedPageCache.nextFault, ends_bind, ends_get,
        ends_set, ends_pure, fault, ends_modify]
      exact iff_of_true ⟨_, rfl⟩ trivial
  | some failure =>
    refine (?_ : Ends _ _ fun result _ => ∃ error, result = .error error).mono ?_
    · cases job : call.job with
      | read capacity =>
        simp only [SharedPageCache.probe, SharedPageCache.nextFault, ends_bind, ends_get, ends_set,
          ends_pure, fault, ends_throw]
        exact ⟨_, rfl⟩
      | write data =>
        simp only [SharedPageCache.writePage, SharedPageCache.nextFault, ends_bind, ends_get,
          ends_set, ends_pure, fault, ends_modify, ends_throw]
        exact ⟨_, rfl⟩
    · rintro _ _ ⟨error, rfl⟩
      exact ⟨by rintro ⟨_, ⟨⟩⟩, by rintro ⟨⟩⟩

theorem ends_copyChunk_length (call : Call DaxPageMapping) (mapping : DaxPageMapping)
    (cache : SharedPageCache World Store Identity) :
    Ends (call.copyChunk mapping) cache fun result _ => ∀ collected, result = .ok collected →
      ∀ capacity, call.job = .read capacity →
        collected.length = call.collected.length + call.chunkLen := by
  unfold copyChunk
  cases job : call.job with
  | read capacity =>
    simp only [ends_bind]
    refine SharedPageCache.ends_probe ?_ fun _ _ => by rintro ⟨⟩
    intro collected filled _ _
    cases filled
    rw [List.length_append, ByteMap.length_read]
  | write data => exact ends_of_forall fun _ _ _ _ _ => by rintro ⟨⟩

variable {relation : SharedPageCache World Store Identity →
  SharedPageCache World Store Identity → Prop} [SharedPageCache.OfBranches relation]

theorem moves_copyChunk (call : Call DaxPageMapping) (mapping : DaxPageMapping) :
    Moves relation (call.copyChunk mapping : SharedM World Store Identity (List UInt8)) := by
  unfold copyChunk
  cases call.job with
  | read capacity =>
    exact moves_bind SharedPageCache.moves_probe fun _ => moves_bind moves_get fun _ => moves_pure _
  | write data =>
    exact moves_bind (SharedPageCache.moves_writePage _ _ _) fun _ => moves_pure _

variable [ForkableNodeStore World Store Identity]

theorem moves_measure (call : Call DaxPageMapping) :
    Moves relation (call.measure : SharedM World Store Identity (Progress DaxPageMapping)) := by
  unfold measure
  cases call.job with
  | read capacity =>
    refine moves_bind (SharedPageCache.moves_askStore _ _) fun length => moves_ite (moves_pure _) ?_
    exact moves_bind (moves_orInvalid _ _) fun _ => moves_pure _
  | write data =>
    refine moves_bind (moves_orInvalid _ _) fun stop => ?_
    exact moves_bind (SharedPageCache.moves_askStore _ _) fun _ =>
      moves_bind moves_require fun _ => moves_pure _

variable [Std.TransOrd Identity] [DecidableEq Identity]

theorem next_of_ok {call : Call DaxPageMapping} {cache after : SharedPageCache World Store Identity}
    {progress : Progress DaxPageMapping}
    (executed : call.advance.exec cache = (.ok progress, after)) : call.Next progress := by
  have ends : Ends call.advance cache fun result _ => result = .ok progress →
      call.Next progress := by
    unfold Next
    cases phase : call.phase with
    | measure => exact ends_of_forall fun _ _ _ => trivial
    | map =>
      simp only [Call.advance, phase, ends_bind]
      refine ends_of_forall fun result _ => ?_
      cases result with
      | error error => rintro ⟨⟩
      | ok mapping => exact fun went => ⟨mapping, (Except.ok.inj went).symm⟩
    | copy mapping =>
      simp only [Call.advance, phase, ends_bind]
      refine (ends_copyChunk_length call mapping cache).mono fun result _ filled => ?_
      cases result with
      | error error => rintro ⟨⟩
      | ok collected => exact fun went =>
        ⟨collected, (Except.ok.inj went).symm, filled collected rfl⟩
    | unmap mapping =>
      simp only [Call.advance, phase, ends_bind]
      refine ends_of_forall fun result _ => ?_
      cases result with
      | error error => rintro ⟨⟩
      | ok done => exact fun went => (Except.ok.inj went).symm
  exact ends.of_exec executed rfl

variable [FileView Store] [IdentityLedger World Identity] [StoreLedger World Store]

theorem ends_advance_shortens (placed : call.Placed)
    (cache : SharedPageCache World Store Identity) :
    Ends call.advance cache fun result _ => ∀ progress, result = .ok progress →
      call.Shortens progress := by
  cases phase : call.phase with
  | measure =>
    have start : call.cursor = call.offset := by simpa [Placed, phase] using placed
    have budget : call.stepsLeft = steps call.job := by simp [stepsLeft, phase]
    simp only [advance, phase]
    refine System.ends_measure call cache (fun _ _ _ => not_ok) ?_ ?_ ?_
    · intro capacity state length job _ _ _ progress same
      cases same
      rintro ⟨⟩
    · intro capacity state length job _ _ _ progress same
      cases same
      refine loop_shortens fun _ => ?_
      rw [budget, job]
      simp only [steps, Job.length, pagesLeft, pageSize, start]
      omega
    · intro data state length job _ _ _ progress same
      cases same
      refine loop_shortens fun _ => ?_
      rw [budget, job]
      simp only [steps, Job.length, pagesLeft, pageSize, start]
      omega
  | map =>
    have inside : call.cursor < call.stop := by simpa [Placed, phase] using placed
    have some := pagesLeft_pos inside
    simp only [advance, phase, ends_bind]
    refine ends_of_forall fun result after => ?_
    cases result with
    | error error => exact fun _ => not_ok _
    | ok value =>
      intro progress same
      cases same
      refine ⟨inside, ?_⟩
      simp only [stepsLeft, phase]
      change 3 * call.pagesLeft - 1 < 3 * call.pagesLeft
      omega
  | copy mapping =>
    have inside : call.cursor < call.stop := by simpa [Placed, phase] using placed
    have some := pagesLeft_pos inside
    simp only [advance, phase, ends_bind]
    refine ends_of_forall fun result after => ?_
    cases result with
    | error error => exact fun _ => not_ok _
    | ok value =>
      intro progress same
      cases same
      refine ⟨inside, ?_⟩
      simp only [stepsLeft, phase]
      change 3 * call.pagesLeft - 2 < 3 * call.pagesLeft - 1
      omega
  | unmap mapping =>
    have inside : call.cursor < call.stop := by simpa [Placed, phase] using placed
    simp only [advance, phase, ends_bind]
    refine ends_of_forall fun result after => ?_
    cases result with
    | error error => exact fun _ => not_ok _
    | ok value =>
      intro progress same
      cases same
      refine loop_shortens fun more => ?_
      simp only [stepsLeft, phase]
      unfold pagesLeft chunkLen withinPage pageOf pageSize at more ⊢
      dsimp only at more ⊢
      omega

theorem ends_complete_returns (placed : call.Placed) {fuel : Nat} (enough : call.stepsLeft ≤ fuel)
    (cache : SharedPageCache World Store Identity) :
    Ends (call.complete fuel) cache fun result _ => result ≠ .ok .running := by
  induction fuel generalizing call cache with
  | zero =>
    have := stepsLeft_pos placed
    omega
  | succ fuel ih =>
    simp only [complete, ends_bind]
    refine (ends_advance_shortens placed cache).mono fun result after shortens => ?_
    cases result with
    | error error => rintro ⟨⟩
    | ok progress =>
      cases progress with
      | running next =>
        obtain ⟨placedNext, fewer⟩ := shortens _ rfl
        exact ih placedNext (by omega) after
      | finished reply =>
        intro same
        cases same
        exact shortens _ rfl rfl

end Call

/-!
## What a call leaves
-/

/-- No branch is gone, and no file of one is gone or has another length. -/
def Outlived (before after : CacheBranchId → Option Files) : Prop :=
  ∀ id files, before id = some files → ∃ later, after id = some later ∧
    ∀ node bytes, files node = some bytes → ∃ kept, later node = some kept ∧
      kept.length = bytes.length

instance : @Std.Refl (CacheBranchId → Option Files) Outlived :=
  ⟨fun _ _ files found => ⟨files, found, fun _ bytes present => ⟨bytes, present, rfl⟩⟩⟩

instance : IsTrans (CacheBranchId → Option Files) Outlived where
  trans first second third earlier later id files found := by
    obtain ⟨middle, foundMiddle, keptMiddle⟩ := earlier id files found
    obtain ⟨last, foundLast, keptLast⟩ := later id middle foundMiddle
    refine ⟨last, foundLast, fun node bytes present => ?_⟩
    obtain ⟨half, presentHalf, sameHalf⟩ := keptMiddle node bytes present
    obtain ⟨kept, presentKept, same⟩ := keptLast node half presentHalf
    exact ⟨kept, presentKept, same.trans sameHalf⟩

namespace Reference

theorem outlived_patch (reference : Reference) (branch : CacheBranchId) (node position : Nat)
    (data : List UInt8) :
    Outlived reference.copies (reference.patch branch node position data).copies := by
  intro id files found
  by_cases here : id = branch
  · subst here
    refine ⟨files.patch node position data, by simp [patch, setCopy, found], ?_⟩
    intro other bytes present
    by_cases written : other = node
    · subst written
      exact ⟨overwrite bytes position data, by simp [Files.patch, present], ByteMap.length_read ..⟩
    · exact ⟨bytes, by simp [Files.patch, written, present], rfl⟩
  · refine ⟨files, by simp [patch, setCopy, here, found], fun _ bytes present =>
      ⟨bytes, present, rfl⟩⟩

theorem CallStep.outlived {reference after : Reference} {thread : Thread} {call : Call Unit}
    {reply : Reply} (step : CallStep reference thread call reply after) :
    Outlived reference.copies after.copies := by
  cases step with
  | patched phase job => exact outlived_patch reference _ _ _ _
  | torn error phase job short => exact outlived_patch reference _ _ _ _
  | _ => exact Std.Refl.refl reference.copies

theorem outlived_setCopy {reference : Reference} {branch : CacheBranchId} {old new : Files}
    (grows : ∀ files, reference.copies branch = some files → files = old)
    (kept : ∀ node bytes, old node = some bytes → new node = some bytes) :
    Outlived reference.copies (reference.setCopy branch (some new)).copies := by
  intro id files found
  by_cases here : id = branch
  · subst here
    obtain rfl := grows files found
    exact ⟨new, by simp [setCopy], fun node bytes present => ⟨bytes, kept node bytes present, rfl⟩⟩
  · exact ⟨files, by simp [setCopy, here, found], fun _ bytes present => ⟨bytes, present, rfl⟩⟩

theorem Step.outlived {reference after : Reference} {action : Action} {reply : Reply}
    (step : Step reference action reply after) (stays : ∀ branch, action ≠ .removeBranch branch) :
    Outlived reference.copies after.copies := by
  cases step with
  | removed live => exact absurd rfl (stays _)
  | forked live fresh =>
    refine outlived_setCopy (fun files found => ?_) fun _ _ present => present
    rw [fresh] at found
    cases found
  | created live fresh =>
    refine outlived_setCopy (fun files found => Option.some.inj (found.symm.trans live)) ?_
    intro node bytes present
    rw [Function.update_of_ne (fun same => by rw [same, fresh] at present; cases present)]
    exact present
  | stored writable => exact outlived_patch reference _ _ _ _
  | advanced active step => exact step.outlived
  | _ => exact Std.Refl.refl reference.copies

end Reference

variable {cache : SharedPageCache World Store Identity}

namespace System

variable {system : System World Store Identity} {thread : Thread} {call : Call DaxPageMapping}
  {after : SharedPageCache World Store Identity}

theorem mappings_passOn {held : List (Holder × DaxPageMapping)} {old new : Option DaxPageMapping}
    (member : ∀ mapping, old = some mapping → (.call thread, mapping) ∈ held)
    (same : ∀ had has, old = some had → new = some has → has = had) {others : List DaxPageMapping}
    (counted : (held.map Prod.snd).Perm (old.toList ++ others)) :
    ((passOn thread held old new).map Prod.snd).Perm (new.toList ++ others) := by
  cases old with
  | none =>
    cases new with
    | none => exact counted
    | some gained => exact counted.cons gained
  | some lost =>
    cases new with
    | none =>
      refine (mappings_erase (member lost rfl)).symm.trans ?_
      have erased := counted.erase lost
      rw [Option.toList_some, List.singleton_append, List.erase_cons_head] at erased
      exact erased
    | some kept =>
      obtain rfl := same lost kept rfl rfl
      exact counted

theorem cache_stop (system : System World Store Identity) (thread : Thread)
    (call : Call DaxPageMapping) : (system.stop thread call).cache = system.cache := by
  unfold stop
  split <;> rfl

variable [Std.TransOrd Identity] [DecidableEq Identity] [ForkableNodeStore World Store Identity]

theorem cache_advance [FileMaker World Store] (active : system.calls[thread]? = some call) :
    (system.step (.advance thread)).1.cache = (call.advance.exec system.cache).2 := by
  simp only [System.step, advance, active]
  cases call.advance.exec system.cache with
  | mk result cache =>
    cases result with
    | error error => exact cache_stop _ thread call
    | ok progress => cases progress <;> rfl

theorem mapping_of_running {next : Call DaxPageMapping}
    (executed : call.advance.exec cache = (.ok (.running next), after)) {old new : DaxPageMapping}
    (had : call.mapping? = some old) (has : next.mapping? = some new) :
    new = old := by
  have leads := Call.next_of_ok executed
  unfold Call.Next at leads
  cases phase : call.phase with
  | measure => simp [Call.mapping?, phase] at had
  | map => simp [Call.mapping?, phase] at had
  | copy copied =>
    rw [phase] at leads
    obtain ⟨collected, same, -⟩ := leads
    cases same
    simp only [Call.mapping?, phase, Option.some.injEq] at had has
    exact has.symm.trans had
  | unmap unmapped =>
    simp only [phase, Call.loop] at leads
    split at leads
    next =>
      cases leads
      cases has
    next => cases leads

theorem quiet_of_ok {progress : Progress DaxPageMapping}
    (executed : call.advance.exec cache = (.ok progress, after)) (copying : call.copying) :
    cache.faults.head?.join = none := by
  cases phase : call.phase with
  | copy mapping =>
    have ends : Ends call.advance cache fun result _ => result = .ok progress →
        cache.faults.head?.join = none := by
      simp only [Call.advance, phase, ends_bind]
      refine (call.ends_copyChunk_fault mapping cache).mono fun result _ copies => ?_
      cases result with
      | error error => rintro ⟨⟩
      | ok collected => exact fun _ => copies.mp ⟨collected, rfl⟩
    exact ends.of_exec executed rfl
  | measure => simp [Call.copying, phase] at copying
  | map => simp [Call.copying, phase] at copying
  | unmap mapping => simp [Call.copying, phase] at copying

variable [FileView Store] [IdentityLedger World Identity] [StoreLedger World Store]

theorem fault_of_failed (consistent : Consistent system)
    (active : system.calls[thread]? = some call) {error : CacheError}
    (executed : call.advance.exec system.cache = (.error error, after)) {mapping : DaxPageMapping}
    (holding : call.mapping? = some mapping) :
    call.phase = .copy mapping ∧ system.cache.faults.head?.join ≠ none := by
  obtain ⟨member, owner, -, -⟩ := (consistent.calls thread call active).holds mapping holding
  cases phase : call.phase with
  | measure => simp [Call.mapping?, phase] at holding
  | map => simp [Call.mapping?, phase] at holding
  | copy copied =>
    obtain rfl : copied = mapping := by simpa [Call.mapping?, phase] using holding
    refine ⟨rfl, fun quiet => ?_⟩
    have ends : Ends call.advance system.cache fun result _ => result ≠ .error error := by
      simp only [Call.advance, phase, ends_bind]
      refine (call.ends_copyChunk_fault copied system.cache).mono fun result _ copies => ?_
      obtain ⟨collected, rfl⟩ := copies.mpr quiet
      rintro ⟨⟩
    exact ends.of_exec executed rfl
  | unmap unmapped =>
    obtain rfl : unmapped = mapping := by simpa [Call.mapping?, phase] using holding
    have ends : Ends call.advance system.cache fun result _ => result ≠ .error error := by
      simp only [Call.advance, phase, ends_bind, ← owner]
      refine (SharedPageCache.ends_unmap consistent.good (mem_mappings member)).mono
        fun result after ends => ?_
      rw [ends.1]
      rintro ⟨⟩
    exact absurd rfl (ends.of_exec executed)

theorem branch_of_running {next : Call DaxPageMapping}
    (executed : call.advance.exec cache = (.ok (.running next), after)) :
    next.branch = call.branch := by
  have looped : ∀ {looping : Call DaxPageMapping}, looping.loop = .running next →
      looping.branch = call.branch → next.branch = call.branch := by
    intro looping went same
    unfold Call.loop at went
    split at went
    next =>
      cases went
      exact same
    next => cases went
  have leads := Call.next_of_ok executed
  unfold Call.Next at leads
  cases phase : call.phase with
  | measure =>
    have ends : Ends call.advance cache fun result _ =>
        result = .ok (.running next) → next.branch = call.branch := by
      simp only [Call.advance, phase]
      refine ends_measure call cache (fun _ _ _ => (by rintro ⟨⟩))
        (fun _ _ _ _ _ _ _ => (by rintro ⟨⟩)) ?_ ?_
      · intro _ _ _ _ _ _ _ went
        exact looped (Except.ok.inj went) rfl
      · intro _ _ _ _ _ _ _ went
        exact looped (Except.ok.inj went) rfl
    exact ends.of_exec executed rfl
  | map =>
    rw [phase] at leads
    obtain ⟨mapping, same⟩ := leads
    cases same
    rfl
  | copy mapping =>
    rw [phase] at leads
    obtain ⟨collected, same, -⟩ := leads
    cases same
    rfl
  | unmap mapping =>
    rw [phase] at leads
    exact looped leads.symm rfl

/-- What a call leaves counted: the mappings of before when the page files served it, and
else also the mapping with which it failed. -/
def Leaves (served : Prop) (branch : CacheBranchId) (others : List DaxPageMapping)
    (after : SharedPageCache World Store Identity) : Prop :=
  (served ∧ SharedPageCache.Good others after) ∨
    (¬ served ∧ ∃ mapping : DaxPageMapping, mapping.branch = branch ∧
      SharedPageCache.Good (mapping :: others) after)

variable [Std.LawfulEqOrd Identity] [LawfulForkableStore World Store Identity]
  [FileMaker World Store] [LawfulFileMaker World Store Identity]

/-- A call gives back the mappings that it takes, unless a page file fails it while it
copies. -/
theorem ends_complete (fuel : Nat) (consistent : Consistent system)
    (active : system.calls[thread]? = some call) {others : List DaxPageMapping}
    (counted : system.mappings.Perm (call.mapping?.toList ++ others)) :
    Ends (call.complete fuel) system.cache fun result after =>
      Outlived system.cache.copies after.copies ∧
        (result ≠ .ok .running →
          Leaves (call.Served fuel system.cache) call.branch others after) := by
  induction fuel generalizing system call with
  | zero => exact ⟨Std.Refl.refl system.cache.copies, fun running => absurd rfl running⟩
  | succ fuel ih =>
    obtain ⟨consistentAfter, step⟩ := simulated system consistent (.advance thread)
    have outlived := step.outlived fun _ => by rintro ⟨⟩
    have holds := fun mapping named =>
      (consistent.calls thread call active).holds mapping named
    have owned := fun mapping named => (holds mapping named).1
    rw [Call.complete, ends_bind, Ends]
    cases executed : call.advance.exec system.cache with
    | mk result cache =>
      unfold Leaves
      rw [Call.Served, executed]
      cases result with
      | error error =>
        cases named : call.mapping? with
        | none =>
          have stepped : (system.step (.advance thread)).1 =
              { system with cache, calls := system.calls.erase thread } := by
            simp only [System.step, advance, active, executed, stop, named]
          rw [stepped] at consistentAfter outlived
          refine ⟨outlived, fun _ => .inl ⟨⟨fun copying => ?_, trivial⟩,
            consistentAfter.good.perm (by rwa [named] at counted)⟩⟩
          unfold Call.copying at copying
          unfold Call.mapping? at named
          split at copying <;> simp_all
        | some mapping =>
          obtain ⟨phase, failing⟩ := fault_of_failed consistent active executed named
          have stepped : (system.step (.advance thread)).1 =
              { system with cache, calls := system.calls.erase thread }.abandon
                (.call thread) mapping := by
            simp only [System.step, advance, active, executed, stop, named]
          rw [stepped] at consistentAfter outlived
          refine ⟨outlived, fun _ => .inr ⟨fun served => ?_, mapping,
            (holds mapping named).2.1, consistentAfter.good.perm ?_⟩⟩
          · exact failing (served.1 (by rw [Call.copying, phase]))
          · rw [named] at counted
            exact (mappings_abandon (owned mapping named)).symm.trans counted
      | ok progress =>
        have quiet := quiet_of_ok executed
        cases progress with
        | finished reply =>
          have stepped := congrArg Prod.fst (step_finished active executed)
          rw [stepped] at consistentAfter outlived
          exact ⟨outlived, fun _ => .inl ⟨⟨quiet, trivial⟩, consistentAfter.good.perm
            (mappings_passOn owned (fun _ _ _ none => by cases none) counted)⟩⟩
        | running next =>
          have stepped := congrArg Prod.fst (step_running active executed)
          rw [stepped] at consistentAfter outlived
          have called := ih consistentAfter ExtTreeMap.getElem?_insert_self
            (mappings_passOn owned (fun _ _ => mapping_of_running executed) counted)
          refine called.mono fun _ _ kept =>
            ⟨IsTrans.trans _ _ _ outlived kept.1, fun returned => ?_⟩
          refine (kept.2 returned).imp (fun served => ⟨⟨quiet, served.1⟩, served.2⟩) ?_
          rintro ⟨failed, mapping, branch, good⟩
          exact ⟨fun served => failed served.2, mapping,
            branch.trans (branch_of_running executed), good⟩

end System

namespace SharedPageCache

variable {held : List DaxPageMapping}

def atRest (cache : SharedPageCache World Store Identity) (held : List DaxPageMapping) :
    System World Store Identity where
  cache
  held := held.map fun mapping => (.client, mapping)
  calls := ∅

theorem mappings_atRest (cache : SharedPageCache World Store Identity)
    (held : List DaxPageMapping) : (atRest cache held).mappings = held := by
  simp [atRest, System.mappings, Function.comp_def]

def begun (cache : SharedPageCache World Store Identity) (held : List DaxPageMapping)
    (call : Call DaxPageMapping) : System World Store Identity :=
  { atRest cache held with calls := (atRest cache held).calls.insert 0 call }

theorem calls_begun (cache : SharedPageCache World Store Identity) (held : List DaxPageMapping)
    (call : Call DaxPageMapping) : (begun cache held call).calls[(0 : Thread)]? = some call :=
  ExtTreeMap.getElem?_insert_self

def storeThrough (mapping : DaxPageMapping) (place : Nat) (data : List UInt8)
    (cache : SharedPageCache World Store Identity) : SharedPageCache World Store Identity :=
  { cache with
    contents := Function.update cache.contents mapping.page
      ((cache.contents mapping.page).write place data) }

variable [Std.TransOrd Identity] [ForkableNodeStore World Store Identity] [FileView Store]
  [IdentityLedger World Identity] [StoreLedger World Store]

theorem Good.atRest (good : Good held cache) : System.Consistent (atRest cache held) where
  good := by rwa [mappings_atRest]
  calls thread call found := by
    rw [SharedPageCache.atRest, ExtTreeMap.getElem?_empty] at found
    cases found

variable [Std.LawfulEqOrd Identity] [DecidableEq Identity]
  [LawfulForkableStore World Store Identity] [FileMaker World Store]
  [LawfulFileMaker World Store Identity]

theorem Good.begun (good : Good held cache) (job : Job) (branch : CacheBranchId)
    (node offset : Nat) :
    System.Consistent (begun cache held (Call.new job branch node offset)) := by
  have started := (System.simulated _ good.atRest (.begin 0 job branch node offset)).1
  have idle : (SharedPageCache.atRest cache held).calls[0]? = none := ExtTreeMap.getElem?_empty
  have stepped : ((SharedPageCache.atRest cache held).step (.begin 0 job branch node offset)).1 =
      SharedPageCache.begun cache held (Call.new job branch node offset) := by
    simp only [System.step, System.begin, idle, SharedPageCache.begun]
  rwa [stepped] at started

theorem ends_call (good : Good held cache) (job : Job) (branch : CacheBranchId)
    (node offset : Nat) :
    Ends ((Call.new job branch node offset).complete (Call.steps job)) cache fun _ after =>
      System.Leaves ((Call.new job branch node offset).Served (Call.steps job) cache) branch held
        after ∧ Outlived cache.copies after.copies := by
  have called := System.ends_complete (Call.steps job) (good.begun job branch node offset)
    (calls_begun cache held _) (List.Perm.of_eq (mappings_atRest cache held))
  have placed : (Call.new job branch node offset : Call DaxPageMapping).Placed := rfl
  refine (called.and (Call.ends_complete_returns placed (Nat.le_refl _) cache)).mono ?_
  intro result after kept
  exact ⟨kept.1.2 kept.2, kept.1.1⟩

theorem ends_call_served (good : Good held cache) {job : Job} {branch : CacheBranchId}
    {node offset : Nat} (served : (Call.new job branch node offset).Served (Call.steps job) cache) :
    Ends ((Call.new job branch node offset).complete (Call.steps job)) cache fun _ after =>
      Good held after ∧ Outlived cache.copies after.copies := by
  refine (ends_call good job branch node offset).mono fun _ _ ended => ⟨?_, ended.2⟩
  cases ended.1 with
  | inl kept => exact kept.2
  | inr failed => exact absurd served failed.1

theorem Good.storeThrough (good : Good held cache) {mapping : DaxPageMapping}
    (member : mapping ∈ held) (writable : mapping.flags.write) {place : Nat} {data : List UInt8}
    (inside : place + data.length ≤ pageSize) :
    Good held (cache.storeThrough mapping place data) ∧
      Outlived cache.copies (cache.storeThrough mapping place data).copies := by
  have allowed : (Holder.client, mapping) ∈ (SharedPageCache.atRest cache held).held ∧
      mapping.flags.write ∧ place + data.length ≤ pageSize :=
    ⟨List.mem_map.mpr ⟨mapping, member, rfl⟩, writable, inside⟩
  obtain ⟨consistent, step⟩ := System.simulated _ good.atRest (.store mapping place data)
  have outlived := step.outlived fun _ => by rintro ⟨⟩
  have stored : ((SharedPageCache.atRest cache held).step (.store mapping place data)).1 =
      SharedPageCache.atRest (cache.storeThrough mapping place data) held := by
    rw [System.step, System.store, if_pos allowed]
    rfl
  rw [stored] at consistent outlived
  refine ⟨?_, outlived⟩
  have kept := consistent.good
  rwa [mappings_atRest] at kept

end SharedPageCache

end Minidox.Cache
