import Minidox.Cache.Shared.Frames
import Minidox.Cache.Shared.WholeCalls

/-!
# Calls and busy pages

A step of a `read` or a `write` in the loop over the pages of an open file. Only a busy page
stops it, unless the host or the store fails.
-/

set_option autoImplicit false

namespace Minidox.Cache

open Foundation Attempt SharedPageCache

variable {World Store Identity : Type} [Ord Identity]

namespace Call

def key (call : Call DaxPageMapping) : PageKey := (call.node, pageOf call.cursor)

/-- The call is about to map a busy page for writing. -/
def Clashes (call : Call DaxPageMapping) (held : List DaxPageMapping)
    (cache : SharedPageCache World Store Identity) : Prop :=
  call.phase = .map ∧ call.job.flags.write ∧ Busy held cache call.branch call.key

def claim (call : Call DaxPageMapping) (id : CacheBranchId) (key : PageKey) : Prop :=
  call.phase = .map ∧ call.job.flags.write ∧ id = call.branch ∧ key = call.key

theorem ends_copyChunk_io (call : Call DaxPageMapping) (mapping : DaxPageMapping)
    (cache : SharedPageCache World Store Identity) :
    Ends (call.copyChunk mapping) cache fun result _ => FailsOnlyByIo result := by
  unfold copyChunk
  cases call.job with
  | read capacity =>
    simp only [ends_bind]
    exact ends_probe (failsOnlyByIo_ok _) failsOnlyByIo_io
  | write data =>
    simp only [writePage, nextFault, ends_bind, ends_get, ends_set, ends_pure]
    cases cache.faults.head?.join with
    | none => exact failsOnlyByIo_ok _
    | some fault => exact failsOnlyByIo_io fault.error

/-- The pages of the range that the call has not mapped yet. -/
def Ahead (call : Call DaxPageMapping) (page : Nat) : Prop :=
  page % pageSize = 0 ∧ page < call.stop ∧
    match call.phase with
    | .copy _ | .unmap _ => pageOf call.cursor < page
    | _ => pageOf call.cursor ≤ page

variable {call next : Call DaxPageMapping}

theorem Next.ahead (leads : call.Next (.running next)) (loops : call.phase ≠ .measure) :
    next.phase ≠ .measure ∧ next.job = call.job ∧ next.branch = call.branch ∧
      next.node = call.node ∧ next.offset = call.offset ∧
      ∀ page, next.Ahead page ↔
        call.Ahead page ∧ (call.phase = .map → page ≠ pageOf call.cursor) := by
  unfold Next at leads
  cases phase : call.phase with
  | measure => exact absurd phase loops
  | map =>
    simp only [phase] at leads
    obtain ⟨mapping, went⟩ := leads
    cases went
    refine ⟨(by rintro ⟨⟩), rfl, rfl, rfl, rfl, fun page => ?_⟩
    simp only [Ahead, phase, forall_true_left]
    omega
  | copy mapping =>
    simp only [phase] at leads
    obtain ⟨collected, went, -⟩ := leads
    cases went
    exact ⟨(by rintro ⟨⟩), rfl, rfl, rfl, rfl, fun page => by simp [Ahead, phase]⟩
  | unmap mapping =>
    simp only [phase, loop] at leads
    split at leads
    next more =>
      cases leads
      refine ⟨(by rintro ⟨⟩), rfl, rfl, rfl, rfl, fun page => ?_⟩
      simp only [Ahead, phase, chunkLen, withinPage, pageOf, pageSize] at more ⊢
      omega
    next => cases leads

theorem Next.not_ahead {reply : Reply} (leads : call.Next (.finished reply))
    (loops : call.phase ≠ .measure) (page : Nat) : ¬ call.Ahead page := by
  unfold Next at leads
  cases phase : call.phase with
  | measure => exact absurd phase loops
  | map =>
    simp only [phase] at leads
    obtain ⟨mapping, went⟩ := leads
    cases went
  | copy mapping =>
    simp only [phase] at leads
    obtain ⟨collected, went, -⟩ := leads
    cases went
  | unmap mapping =>
    simp only [phase, loop] at leads
    split at leads
    next => cases leads
    next last =>
      simp only [Ahead, phase, chunkLen, withinPage, pageOf, pageSize] at last ⊢
      omega

variable [Std.TransOrd Identity] [DecidableEq Identity] [ForkableNodeStore World Store Identity]

theorem framed_advance (call : Call DaxPageMapping) :
    Moves (Frame call.claim)
      (call.advance : SharedM World Store Identity (Progress DaxPageMapping)) := by
  unfold advance
  cases phase : call.phase with
  | measure => exact moves_measure call
  | map =>
    refine moves_bind (fun cache => ?_) fun _ => moves_pure _
    refine (framed_mapPage _ _ _ _ cache).mono fun _ _ frame => frame.mono ?_
    rintro id key ⟨writes, here, page⟩
    exact ⟨phase, writes, here, page⟩
  | copy mapping => exact moves_bind (moves_copyChunk call mapping) fun _ => moves_pure _
  | unmap mapping => exact moves_bind (framed_unmap _ mapping) fun _ => moves_pure _

end Call

/-!
## Calls that are served
-/

namespace SharedPageCache

variable {cache : SharedPageCache World Store Identity} {id : CacheBranchId}
  {branch : CacheBranch Store} {node : NodeId}

def Calm (cache : SharedPageCache World Store Identity) : Prop :=
  ∀ fault ∈ cache.faults, fault = none

theorem Calm.head (calm : Calm cache) : cache.faults.head?.join = none := by
  cases listed : cache.faults with
  | nil => rfl
  | cons fault rest => exact calm fault (by rw [listed]; exact List.mem_cons_self)

theorem Calm.tail (calm : Calm cache) : Calm { cache with faults := cache.faults.tail } :=
  fun fault member => calm fault (List.mem_of_mem_tail member)

theorem ends_probe_calm (calm : Calm cache)
    {post : Except CacheError Unit → SharedPageCache World Store Identity → Prop}
    (passed : post (.ok ()) { cache with faults := cache.faults.tail }) :
    Ends probe cache post := by
  simp only [probe, nextFault, ends_bind, ends_get, ends_set, ends_pure, calm.head]
  exact passed

theorem ends_duplicate_calm (calm : Calm cache) (page : Nat) :
    Ends (duplicate page) cache fun result after => (∃ newPage, result = .ok newPage) ∧
      Calm after ∧ after.branches = cache.branches ∧ after.world = cache.world := by
  simp only [duplicate, fromBytes, ends_bind]
  refine ends_probe_calm calm (ends_get.mpr (ends_probe_calm calm.tail ?_))
  exact ⟨⟨_, rfl⟩, calm.tail.tail, rfl, rfl⟩

variable [ForkableNodeStore World Store Identity]

/-- The store answers for all pages of the file. -/
def servesFile (world : World) (store : Store) (node : NodeId) : Bool :=
  match NodeStore.len World store node with
  | .error _ => false
  | .ok length => (pageOffsets 0 length).all fun page =>
      (ForkableNodeStore.pageIdentity World store node page).isOk &&
        (NodeStore.readNode World store node page pageSize).isOk &&
        ((ForkableNodeStore.preparePageWrite node page).exec (world, store)).1.isOk

/-- The host fails no call, and the store of the branch answers for the file. -/
def serves (cache : SharedPageCache World Store Identity) (id : CacheBranchId) (node : NodeId) :
    Bool :=
  cache.faults.all Option.isNone &&
    cache.branches[id]?.any fun state => servesFile cache.world state.store node

theorem serves_cases (served : cache.serves id node = true) :
    Calm cache ∧ ∃ state length, cache.branches[id]? = some state ∧
      NodeStore.len World state.store node = .ok length ∧
      ∀ page < length, page % pageSize = 0 →
        (∃ identity, ForkableNodeStore.pageIdentity World state.store node page = .ok identity) ∧
        (∃ bytes, NodeStore.readNode World state.store node page pageSize = .ok bytes) ∧
        ∃ identity, ((ForkableNodeStore.preparePageWrite node page).exec
          (cache.world, state.store)).1 = .ok identity := by
  have answered : ∀ {α : Type} {result : Except IoError α}, result.isOk = true →
      ∃ value, result = .ok value := by
    intro α result fine
    cases result with
    | ok value => exact ⟨value, rfl⟩
    | error error => cases fine
  obtain ⟨quiet, stored⟩ := Bool.and_eq_true_iff.mp served
  obtain ⟨state, found, file⟩ := (Option.any_eq_true _ _).mp stored
  refine ⟨fun fault member => Option.isNone_iff_eq_none.mp (List.all_eq_true.mp quiet fault member),
    state, ?_⟩
  unfold servesFile at file
  split at file
  next => cases file
  next length measured =>
    refine ⟨length, found, measured, fun page inside aligned => ?_⟩
    have member := pageOf_mem_pageOffsets (Nat.zero_mod _) (Nat.zero_le page) inside
    rw [pageOf_eq_of_mem aligned (Nat.le_refl _) (Nat.lt_add_of_pos_right (by decide))] at member
    have fine := List.all_eq_true.mp file page member
    simp only [Bool.and_eq_true_iff] at fine
    exact ⟨answered fine.1.1, answered fine.1.2, answered fine.2⟩

theorem ends_measure_calm (served : cache.serves id node = true) {call : Call DaxPageMapping}
    (place : call.branch = id ∧ call.node = node) :
    Ends call.measure cache fun result _ => NoIo result := by
  obtain ⟨calm, state, length, found, measured, -⟩ := serves_cases served
  have asked : ∀ {post : Except CacheError Nat → SharedPageCache World Store Identity → Prop},
      post (.ok length) { cache with faults := cache.faults.tail } →
      Ends (askStore call.branch fun store => NodeStore.len World store call.node) cache post := by
    intro post answered
    rw [place.1, place.2]
    simp only [askStore, ends_bind]
    exact ends_branchMut_of found (ends_probe_calm calm (ends_orIo_ok measured answered))
  unfold Call.measure
  cases call.job with
  | read capacity =>
    simp only [ends_bind]
    refine asked ?_
    simp only [ends_ite]
    refine ⟨fun _ => noIo_ok _, fun _ => ?_⟩
    rw [ends_bind]
    exact ends_orInvalid (fun _ _ => noIo_ok _) fun _ => by rintro ⟨⟩
  | write data =>
    simp only [ends_bind]
    refine ends_orInvalid (fun stop _ => asked ?_) fun _ => by rintro ⟨⟩
    exact ends_require.mpr ⟨fun _ => noIo_ok _, fun _ _ => by rintro ⟨⟩⟩

variable [Std.TransOrd Identity]

theorem ends_loadPage_calm (calm : Calm cache) (found : cache.branches[id]? = some branch)
    {page : Nat} {bytes : List UInt8}
    (read : NodeStore.readNode World branch.store node page pageSize = .ok bytes)
    (identity : Identity) :
    Ends (loadPage id identity (node, page)) cache fun result after => (∃ page, result = .ok page) ∧
      Calm after ∧ after.branches = cache.branches ∧ after.world = cache.world := by
  simp only [loadPage, ends_bind, ends_get]
  cases cache.pages[identity]? with
  | some page => exact ⟨⟨page, rfl⟩, calm, rfl, rfl⟩
  | none =>
    simp only [askStore, fromBytes, ends_bind]
    refine ends_branchMut_of found (ends_probe_calm calm (ends_orIo_ok read ?_))
    exact ends_probe_calm calm.tail ⟨⟨_, rfl⟩, calm.tail.tail, rfl, rfl⟩

variable [DecidableEq Identity]

theorem ends_pageFor_calm (calm : Calm cache) (found : cache.branches[id]? = some branch)
    {offset : Nat} {fresh : Identity}
    (prepared : ((ForkableNodeStore.preparePageWrite node offset).exec
      (cache.world, branch.store)).1 = .ok fresh)
    (identity : Identity) (page : Nat) (copyOnWrite : Bool) :
    Ends (pageFor id (node, offset) identity page copyOnWrite) cache fun result _ =>
      ∃ newPage, result = .ok newPage := by
  cases copyOnWrite with
  | false => exact ⟨page, rfl⟩
  | true =>
    change Ends (copyPage id (node, offset) identity page) cache _
    simp only [copyPage, withStoreMut, ends_bind]
    refine (ends_duplicate_calm calm page).mono ?_
    rintro _ middle ⟨⟨newPage, rfl⟩, calmMiddle, branches, world⟩
    rw [← branches] at found
    rw [← world] at prepared
    refine ends_branchMut_of found (ends_probe_calm calmMiddle ?_)
    rw [ends_within]
    unfold Ends
    rw [prepared]
    exact ⟨newPage, rfl⟩

theorem ends_mapPage_calm (served : cache.serves id node = true) {page : Nat}
    (inside : ∀ state length, cache.branches[id]? = some state →
      NodeStore.len World state.store node = .ok length → page < length) (flags : MapFlags) :
    Ends (mapPage id node page flags) cache fun result _ => NoIo result := by
  obtain ⟨calm, state, length, found, measured, pages⟩ := serves_cases served
  simp only [mapPage, ends_bind]
  refine ends_require.mpr ⟨fun aligned => ?_, fun _ _ => by rintro ⟨⟩⟩
  obtain ⟨⟨identity, resolved⟩, ⟨bytes, read⟩, fresh, prepared⟩ :=
    pages page (inside state length found measured) aligned
  refine ends_require.mpr ⟨fun _ => ?_, fun _ _ => by rintro ⟨⟩⟩
  refine ends_branchMut_of found (ends_require.mpr ⟨fun _ => ?_, fun _ _ => by rintro ⟨⟩⟩)
  refine ends_orIo_ok resolved ?_
  refine (ends_loadPage_calm calm found read identity).mono ?_
  rintro _ middle ⟨⟨loaded, rfl⟩, calmMiddle, branches, world⟩
  refine ends_require.mpr ⟨fun _ => ?_, fun _ _ => by rintro ⟨⟩⟩
  rw [← branches] at found
  rw [← world] at prepared
  refine (ends_pageFor_calm calmMiddle found prepared identity loaded _).mono ?_
  rintro _ after ⟨newPage, rfl⟩
  exact noIo_ok _

end SharedPageCache

namespace System

variable [Std.TransOrd Identity] [DecidableEq Identity] [ForkableNodeStore World Store Identity]
  [FileView Store] [IdentityLedger World Identity] [StoreLedger World Store]
  [LawfulForkableStore World Store Identity] {system : System World Store Identity}
  {thread : Thread} {call : Call DaxPageMapping}

/-- In the loop a call is stopped by a busy page, and else only by the host or the store. -/
theorem ends_advance_clash [Std.LawfulEqOrd Identity] (consistent : Consistent system)
    (active : system.calls[thread]? = some call) (loops : call.phase ≠ .measure)
    (opened : system.cache.opened call.branch call.node ≠ 0) :
    Ends call.advance system.cache fun result _ =>
      (call.Clashes system.mappings system.cache → ∀ progress, result ≠ .ok progress) ∧
        (¬ call.Clashes system.mappings system.cache → FailsOnlyByIo result) := by
  have elsewhere : ∀ {result : Except CacheError (Progress DaxPageMapping)}, call.phase ≠ .map →
      FailsOnlyByIo result →
      (call.Clashes system.mappings system.cache → ∀ progress, result ≠ .ok progress) ∧
        (¬ call.Clashes system.mappings system.cache → FailsOnlyByIo result) :=
    fun other fails => ⟨fun clash => absurd clash.1 other, fun _ => fails⟩
  cases phase : call.phase with
  | measure => exact absurd phase loops
  | map =>
    cases found : system.cache.branches[call.branch]? with
    | none => simp [SharedPageCache.opened, found] at opened
    | some branch =>
      have access : (call.job.flags.read || call.job.flags.write) = true := by
        cases call.job with
        | read capacity => rfl
        | write data => rfl
      simp only [Call.advance, phase, ends_bind]
      refine (ends_mapPage_answers consistent.good found (pageOf_mod call.cursor) access
        opened).mono fun result after answered => ?_
      cases answered with
      | failed io => exact ⟨fun _ => not_ok, fun _ => failsOnlyByIo_io io⟩
      | refused writes busy =>
        exact ⟨fun _ => not_ok, fun free => absurd ⟨phase, writes, busy⟩ free⟩
      | given free mapping => exact ⟨fun clash => absurd clash.2 free, fun _ => failsOnlyByIo_ok _⟩
  | copy mapping =>
    simp only [Call.advance, phase, ends_bind]
    refine (call.ends_copyChunk_io mapping system.cache).mono fun result after fails => ?_
    have other : call.phase ≠ .map := by rw [phase]; rintro ⟨⟩
    cases result with
    | error error =>
      obtain ⟨io, rfl⟩ := fails error rfl
      exact elsewhere other (failsOnlyByIo_io io)
    | ok collected => exact elsewhere other (failsOnlyByIo_ok _)
  | unmap mapping =>
    obtain ⟨member, owner, -, -⟩ :=
      (consistent.calls thread call active).holds mapping (by simp only [Call.mapping?, phase])
    simp only [Call.advance, phase, ends_bind, ← owner]
    refine (ends_unmap consistent.good (mem_mappings member)).mono fun result after ends => ?_
    rw [ends.1]
    exact elsewhere (by rw [phase]; rintro ⟨⟩) (failsOnlyByIo_ok _)

theorem ends_advance_calm (consistent : Consistent system)
    (served : system.cache.serves call.branch call.node = true)
    (active : system.calls[thread]? = some call) :
    Ends call.advance system.cache fun result _ => NoIo result := by
  have holding : ∀ mapping, call.mapping? = some mapping →
      Ends call.advance system.cache fun result _ => NoIo result := by
    intro mapping holding
    unfold Ends
    cases executed : call.advance.exec system.cache with
    | mk result after =>
      rintro io rfl
      exact (fault_of_failed consistent active executed holding).2 (serves_cases served).1.head
  cases phase : call.phase with
  | measure =>
    simp only [Call.advance, phase]
    exact ends_measure_calm served ⟨rfl, rfl⟩
  | map =>
    simp only [Call.advance, phase, ends_bind]
    refine (ends_mapPage_calm served (fun state length found measured => ?_) _).mono ?_
    · obtain ⟨-, below, file⟩ :=
        (consistent.calls thread call active).started (by rw [phase]; rintro ⟨⟩)
      obtain ⟨files, bytes, live, present, rfl⟩ := file_of_len found measured
      obtain ⟨same, there, fits⟩ := file files live
      cases present.symm.trans there
      exact Nat.lt_of_le_of_lt (pageOf_le _) (Nat.lt_of_lt_of_le below fits)
    · intro result after fine
      cases result with
      | error error => exact fun io same => fine io (by rw [Except.error.inj same])
      | ok mapping => exact noIo_ok _
  | copy mapping => exact holding mapping (by simp only [Call.mapping?, phase])
  | unmap mapping => exact holding mapping (by simp only [Call.mapping?, phase])

end System

end Minidox.Cache
