import Minidox.Cache.Shared.Properties
import Minidox.Cache.Shared.WholeCalls

/-!
# Unsynced pages

When the store of a branch holds what the branch sees. A page is marked when a writable
mapping of it is unmapped, so a sync finds the stores of all mappings that were unmapped
before, and none of a mapping that is still held.
-/

set_option autoImplicit false

namespace Minidox.Cache

open Foundation Attempt

/-!
## Writable mappings
-/

def Call.storing (call : Call DaxPageMapping) : Bool :=
  match call.phase, call.job with
  | .copy _, .write _ => true
  | _, _ => false

variable {World Store Identity : Type} [Ord Identity]

namespace System

/-- The step loses no writable mapping: an `unmap` is on the branch of its mapping, and
the page file takes the chunk that a `write` copies. -/
def KeepsWriters (system : System World Store Identity) : Action → Prop
  | .unmap branch mapping =>
    (.client, mapping) ∈ system.held → mapping.flags.write → mapping.branch = branch
  | .advance thread =>
    ∀ call ∈ system.calls[thread]?, call.storing → system.cache.faults.head?.join = none
  | _ => True

instance (system : System World Store Identity) (action : Action) :
    Decidable (system.KeepsWriters action) :=
  match action with
  | .unmap branch mapping => inferInstanceAs (Decidable
      ((.client, mapping) ∈ system.held → mapping.flags.write → mapping.branch = branch))
  | .advance thread => inferInstanceAs (Decidable
      (∀ call ∈ system.calls[thread]?, call.storing → system.cache.faults.head?.join = none))
  | .fork _ | .removeBranch _ | .openNode .. | .close .. | .createFile .. | .metadata ..
  | .mapPage .. | .store .. | .sync .. | .syncAll _ | .begin .. | .otherPages _ =>
    inferInstanceAs (Decidable True)

def WritersHeld (system : System World Store Identity) : Prop :=
  ∀ mapping, (.nobody, mapping) ∈ system.held → ¬ mapping.flags.write

theorem WritersHeld.abandon {system : System World Store Identity} (known : WritersHeld system)
    {holder : Holder} {mapping : DaxPageMapping} (readOnly : ¬ mapping.flags.write) :
    WritersHeld (system.abandon holder mapping) := by
  intro lost member
  cases member with
  | head => exact readOnly
  | tail _ older => exact known lost (List.mem_of_mem_erase older)

theorem mem_of_nobody_passOn {thread : Thread} {held : List (Holder × DaxPageMapping)}
    {mapping : DaxPageMapping} {old new : Option DaxPageMapping}
    (member : (.nobody, mapping) ∈ passOn thread held old new) : (.nobody, mapping) ∈ held := by
  cases old with
  | none =>
    cases new with
    | none => exact member
    | some gained =>
      cases member with
      | tail _ older => exact older
  | some lost =>
    cases new with
    | none => exact List.mem_of_mem_erase member
    | some kept => exact member

end System

/-!
## Pages in sync
-/

variable [Std.TransOrd Identity] [ForkableNodeStore World Store Identity] [FileView Store]
  [IdentityLedger World Identity]

namespace SharedPageCache

/-- The byte that a read of a branch finds. -/
def seenByte (cache : SharedPageCache World Store Identity) (branch : CacheBranch Store)
    (node position : Nat) : UInt8 :=
  (lineageOf cache).byteAt (viewOf World branch) node position

/-- The store of the branch returns the same bytes of a page as a read of the branch. -/
def PageInSync (cache : SharedPageCache World Store Identity) (branch : CacheBranch Store)
    (key : PageKey) : Prop :=
  ∀ length position, FileView.fileLen branch.store key.1 = some length → position < length →
    pageOf position = key.2 →
    FileView.fileByte branch.store key.1 position = cache.seenByte branch key.1 position

/-- All pages of some files are in sync. -/
def InSync (cache : SharedPageCache World Store Identity) (branch : CacheBranch Store)
    (wanted : NodeId → Prop) : Prop :=
  ∀ key, Aligned key → wanted key.1 → cache.PageInSync branch key

theorem savedPage_iff {cache : SharedPageCache World Store Identity} {branch : CacheBranch Store}
    {key : PageKey} (aligned : Aligned key) :
    cache.SavedPage branch.store key ↔ cache.PageInSync branch key := by
  have ident : (viewOf World branch : LineageBranch Identity).ident (key.1, key.2) =
      identityOf World branch.store (key.1, key.2) := if_pos aligned
  constructor
  · intro saved length position known below page
    rw [seenByte, Lineage.byteAt, page, ident]
    cases resolved : identityOf World branch.store (key.1, key.2) with
    | none => rfl
    | some identity =>
      rw [Option.bind_some]
      cases resident : (lineageOf cache).pages identity with
      | none => rfl
      | some found =>
        have inPage := lt_pageOf_add position
        have start := pageOf_le position
        rw [page] at inPage start
        have stored := saved identity found length (position - key.2) resolved resident known
          (by omega) (by omega)
        rw [Nat.add_sub_cancel' start] at stored
        exact stored.symm
  · intro synced identity page length index resolved resident known inPage below
    have start : pageOf (key.2 + index) = key.2 :=
      pageOf_eq_of_mem aligned (Nat.le_add_right _ _) (by omega)
    have stored := synced length (key.2 + index) known below start
    have pages : (lineageOf cache).pages identity = some page := resident
    rw [seenByte, Lineage.byteAt, start, ident, show identityOf World branch.store (key.1, key.2) =
      some identity from resolved, Option.bind_some, pages, Nat.add_sub_cancel_left] at stored
    exact stored.symm

end SharedPageCache

variable [StoreLedger World Store]

namespace System

variable {system : System World Store Identity}

/-- A page that is mapped for writing and not marked has its bytes in the store. -/
def MappedInSync (system : System World Store Identity) (id : CacheBranchId)
    (branch : CacheBranch Store) (wanted : NodeId → Prop) : Prop :=
  ∀ holder mapping, (holder, mapping) ∈ system.held → mapping.branch = id → mapping.flags.write →
    wanted mapping.key.1 → ¬ branch.dirtyPages.IsDirty mapping.key →
    system.cache.PageInSync branch mapping.key

/-- A sync that succeeds puts exactly the marked pages in order. -/
theorem inSync_iff (consistent : Consistent system)
    {id : CacheBranchId} {branch : CacheBranch Store}
    (found : system.cache.branches[id]? = some branch) (wanted : NodeId → Bool)
    {after : SharedPageCache World Store Identity}
    (flushed : SharedPageCache.Flushed system.mappings id
      (branch.dirtyPages.collect fun key => wanted key.1) branch system.cache (.ok ()) after) :
    ∃ next, after.branches[id]? = some next ∧
      (after.InSync next (fun node => wanted node) ↔
        system.MappedInSync id branch fun node => wanted node) := by
  obtain ⟨origin, sound⟩ := consistent.good.sound
  obtain ⟨next, foundNext, written, -⟩ := flushed.store
  have foundView := SharedPageCache.branches_lineageOf found
  -- An unmarked page is as before, in the cache and in the store.
  have same : ∀ key, Aligned key → ¬ branch.dirtyPages.IsDirty key →
      (after.SavedPage next.store key ↔ system.cache.SavedPage branch.store key) := by
    intro key aligned unmarked
    have apart : ∀ index < pageSize, (key.1, pageOf (key.2 + index)) ∉
        branch.dirtyPages.collect fun key => wanted key.1 := by
      intro index inPage member
      rw [pageOf_eq_of_mem aligned (Nat.le_add_right _ _) (by omega)] at member
      exact unmarked (DirtyBranch.mem_collect.mp member).2
    unfold SharedPageCache.SavedPage
    rw [flushed.pages, flushed.contents, written.identities, written.lengths]
    refine forall_congr' fun identity => forall_congr' fun page => forall_congr' fun length =>
      forall_congr' fun index => forall_congr' fun _ => forall_congr' fun _ =>
      forall_congr' fun _ => forall_congr' fun inPage => ?_
    rw [written.others key.1 (key.2 + index) (apart index inPage)]
  refine ⟨next, foundNext, ?_, ?_⟩
  · intro synced holder mapping member owner _ asked unmarked
    have aligned := (sound.held_backed mapping (mem_mappings member)).1
    rw [← SharedPageCache.savedPage_iff aligned, ← same mapping.key aligned unmarked,
      SharedPageCache.savedPage_iff aligned]
    exact synced mapping.key aligned asked
  · intro mapped key aligned asked
    rw [← SharedPageCache.savedPage_iff aligned]
    by_cases marked : branch.dirtyPages.IsDirty key
    · have saved := written.flushed rfl key (DirtyBranch.mem_collect.mpr ⟨asked, marked⟩)
      unfold SharedPageCache.SavedPage at saved ⊢
      rw [flushed.pages, flushed.contents]
      exact saved
    · rw [same key aligned marked]
      by_cases writer : ∃ holder mapping, (holder, mapping) ∈ system.held ∧ mapping.branch = id ∧
          mapping.key = key ∧ mapping.flags.write
      · obtain ⟨holder, mapping, member, owner, rfl, write⟩ := writer
        rw [SharedPageCache.savedPage_iff aligned]
        exact mapped holder mapping member owner write asked marked
      · intro identity page length index resolved resident known inPage below
        refine sound.clean foundView aligned
          ((SharedPageCache.ident_viewOf aligned).trans resolved) resident marked ?_ length index
          known inPage below
        intro mapping member owner here write
        obtain ⟨⟨holder, same⟩, included, rfl⟩ := List.mem_map.mp member
        exact writer ⟨holder, same, included, owner, here, write⟩

theorem Consistent.resident_of_dirty (consistent : Consistent system) {id : CacheBranchId}
    {branch : CacheBranch Store} (found : system.cache.branches[id]? = some branch)
    {key : PageKey} (dirty : branch.dirtyPages.IsDirty key) :
    ∃ identity page, identityOf World branch.store key = some identity ∧
      system.cache.pages[identity]? = some page := by
  obtain ⟨origin, sound⟩ := consistent.good.sound
  obtain ⟨aligned, -, identity, page, resolved, resident⟩ :=
    sound.dirty_resident (SharedPageCache.branches_lineageOf found) dirty
  exact ⟨identity, page, (SharedPageCache.ident_viewOf aligned).symm.trans resolved, resident⟩

theorem Consistent.sync_current [LawfulForkableStore World Store Identity]
    (consistent : Consistent system) {id : CacheBranchId} {branch : CacheBranch Store}
    (found : system.cache.branches[id]? = some branch)
    (wanted : PageKey → Bool) :
    Ends (do
      let branch ← SharedPageCache.branchMut id
      SharedPageCache.syncPages id (branch.dirtyPages.collect wanted)) system.cache
      fun result _ => result ≠ .error .staleMapping := by
  refine (SharedPageCache.ends_syncWanted_flushed consistent.good found wanted).mono ?_
  intro result after flushed stale
  obtain ⟨next, -, written, -⟩ := flushed.store
  obtain ⟨key, member, gone⟩ := written.current stale
  obtain ⟨identity, page, resolved, resident⟩ :=
    consistent.resident_of_dirty found (DirtyBranch.mem_collect.mp member).2
  refine gone fun other resolvedOther absent => ?_
  obtain rfl : identity = other := Option.some.inj (resolved.symm.trans resolvedOther)
  rw [resident] at absent
  cases absent

variable [DecidableEq Identity]

theorem readOnly_of_failed (consistent : Consistent system) {thread : Thread}
    {call : Call DaxPageMapping} (active : system.calls[thread]? = some call)
    (taken : call.storing → system.cache.faults.head?.join = none) {error : CacheError}
    {after : SharedPageCache World Store Identity}
    (executed : call.advance.exec system.cache = (.error error, after))
    {mapping : DaxPageMapping} (holding : call.mapping? = some mapping) :
    ¬ mapping.flags.write := by
  obtain ⟨phase, failing⟩ := fault_of_failed consistent active executed holding
  obtain ⟨-, -, -, access⟩ := (consistent.calls thread call active).holds mapping holding
  cases job : call.job with
  | read capacity =>
    rw [access, job]
    exact Bool.false_ne_true
  | write data => exact absurd (taken (by rw [Call.storing, phase, job])) failing

theorem WritersHeld.step [FileMaker World Store] (consistent : Consistent system)
    (known : WritersHeld system) {action : Action} (kept : system.KeepsWriters action) :
    WritersHeld (system.step action).1 := by
  have attempted : ∀ {α : Type} (operation : SharedM World Store Identity α) (reply : α → Reply),
      WritersHeld (system.attempt operation reply).1 := by
    intro α operation reply
    unfold attempt
    split <;> exact known
  cases action with
  | mapPage branch node offset flags =>
    simp only [System.step, System.mapPage]
    split
    · intro lost member
      cases member with
      | tail _ older => exact known lost older
    · exact known
  | unmap branch mapping =>
    simp only [System.step, System.unmap]
    split
    next member =>
      split
      · exact fun lost older => known lost (List.mem_of_mem_erase older)
      next executed =>
        refine WritersHeld.abandon known fun write => ?_
        obtain rfl := kept member write
        cases ((SharedPageCache.ends_unmap consistent.good (mem_mappings member)).of_exec
          executed).1
    next => exact known
  | store mapping place data =>
    simp only [System.step, System.store]
    split <;> exact known
  | begin thread job branch node offset =>
    simp only [System.step, System.begin]
    split <;> exact known
  | advance thread =>
    simp only [System.step, System.advance]
    split
    next => exact known
    next call active =>
      split
      next => exact fun lost member => known lost (mem_of_nobody_passOn member)
      next => exact fun lost member => known lost (mem_of_nobody_passOn member)
      next error after executed =>
        unfold System.stop
        split
        next => exact known
        next mapping holding =>
          exact WritersHeld.abandon known
            (readOnly_of_failed consistent active (kept call active) executed holding)
  | fork | removeBranch | openNode | close | createFile | metadata | sync | syncAll | otherPages =>
    exact attempted _ _

end System

variable [Std.LawfulEqOrd Identity] [DecidableEq Identity]
  [LawfulForkableStore World Store Identity] [FileMaker World Store]
  [LawfulFileMaker World Store Identity]

/-- A sync that returns `Ok` makes the contents of a branch durable exactly when no page
that is mapped for writing, and not marked, had bytes that the store lacked. -/
theorem sync_is_durable_iff {world : World} {stores : List Store}
    (coherent : Coherent world stores) (id nextPageId : Nat) (faults : Faults)
    (actions : List Action) :
    let system := (System.new (SharedPageCache.ofStores id nextPageId world faults stores :
      SharedPageCache World Store Identity)).after actions
    ∀ owner branch, system.cache.branches[owner]? = some branch →
      (∀ node after, (SharedPageCache.sync owner node).exec system.cache = (.ok (), after) →
        ∃ next, after.branches[owner]? = some next ∧
          (after.InSync next (· = node) ↔ system.MappedInSync owner branch (· = node))) ∧
      ∀ after, (SharedPageCache.syncAll owner).exec system.cache = (.ok (), after) →
        ∃ next, after.branches[owner]? = some next ∧
          (after.InSync next (fun _ => True) ↔ system.MappedInSync owner branch fun _ => True) := by
  intro system owner branch found
  have consistent := (System.consistent_new coherent id nextPageId faults).after actions
  constructor
  · intro node after executed
    rw [SharedPageCache.sync_eq] at executed
    have flushed := (SharedPageCache.ends_syncWanted_flushed consistent.good found
      fun key => decide (key.1 = node)).of_exec executed
    simpa using System.inSync_iff consistent found (fun other => decide (other = node)) flushed
  · intro after executed
    have flushed := (SharedPageCache.ends_syncWanted_flushed consistent.good found
      fun _ => true).of_exec executed
    simpa using System.inSync_iff consistent found (fun _ => true) flushed

namespace MappedStore

open SharedPageCache

set_option maxRecDepth 4000 in
/-- A sync returns `Ok` and leaves the byte of a mapping that is still held. -/
theorem sync_misses_mapped_store :
    let outcome := (sync 1 2).exec (start.after actions).cache
    outcome.1 = .ok () ∧ ∃ next, outcome.2.branches[1]? = some next ∧
      ¬ outcome.2.InSync next (· = 2) := by
  intro outcome
  have returned : outcome.1 = .ok () := by decide +kernel
  have differs : ∃ next ∈ outcome.2.branches[1]?, FileView.fileLen next.store 2 = some 1 ∧
      FileView.fileByte next.store 2 0 ≠ outcome.2.seenByte next 2 0 := by decide +kernel
  clear_value outcome
  obtain ⟨next, found, length, different⟩ := differs
  exact ⟨returned, next, found, fun synced =>
    different (synced (2, 0) rfl rfl 1 0 length Nat.one_pos rfl)⟩

def unmapped : List Action := actions ++ [.unmap 1 mapping]

set_option maxRecDepth 4000 in
theorem sync_saves_unmapped_store : ∃ next,
    ((sync 1 2).exec (start.after unmapped).cache).2.branches[1]? = some next ∧
      ((sync 1 2).exec (start.after unmapped).cache).2.InSync next (· = 2) := by
  have closed : (start.after unmapped).held = [] := by decide +kernel
  have live : (start.after unmapped).cache.branches[1]?.isSome := by decide +kernel
  have returned : ((sync 1 2).exec (start.after unmapped).cache).1 = .ok () := by decide +kernel
  obtain ⟨branch, found⟩ := Option.isSome_iff_exists.mp live
  have durable := sync_is_durable_iff Redox.OneFile.coherent 1 1 [] unmapped
  rw [← start] at durable
  -- the run is evaluated above; what follows is about any state
  generalize start.after unmapped = system at durable closed found returned ⊢
  obtain ⟨next, foundNext, inSync⟩ := (durable 1 branch found).1 2 _ (Prod.ext returned rfl)
  refine ⟨next, foundNext, inSync.mpr fun holder mapping member => ?_⟩
  rw [closed] at member
  cases member

end MappedStore

/-!
## Where an unsynced page is recorded
-/

/-- In every state of a run that loses no writable mapping, a page that its store lacks is
marked or mapped for writing by somebody, and what is marked can be written back. -/
theorem dirty_tracking_is_complete {world : World} {stores : List Store}
    (coherent : Coherent world stores) (id nextPageId : Nat) (faults : Faults)
    (actions : List Action)
    (kept : Admitted (fun system action => (System.step system action).1) System.KeepsWriters
      (System.new (SharedPageCache.ofStores id nextPageId world faults stores :
        SharedPageCache World Store Identity)) actions) :
    let system := (System.new (SharedPageCache.ofStores id nextPageId world faults stores :
      SharedPageCache World Store Identity)).after actions
    ∀ owner branch, system.cache.branches[owner]? = some branch →
      (∀ key, Aligned key → ¬ system.cache.PageInSync branch key →
        branch.dirtyPages.IsDirty key ∨ ∃ holder mapping, (holder, mapping) ∈ system.held ∧
          holder ≠ .nobody ∧ mapping.branch = owner ∧ mapping.key = key ∧ mapping.flags.write) ∧
      (∀ key, branch.dirtyPages.IsDirty key → ∃ identity page,
        ForkableNodeStore.pageIdentity World branch.store key.1 key.2 = .ok identity ∧
        system.cache.pages[identity]? = some page) ∧
      (∀ node, ((SharedPageCache.sync owner node).exec system.cache).1 ≠ .error .staleMapping) ∧
      ((SharedPageCache.syncAll owner).exec system.cache).1 ≠ .error .staleMapping := by
  intro system owner branch found
  obtain ⟨consistent, writers⟩ : System.Consistent system ∧ system.WritersHeld :=
    run_invariant (fun system => System.Consistent system ∧ system.WritersHeld)
      (fun state action known careful => ⟨(System.simulated state known.1 action).1,
        known.2.step known.1 careful⟩)
      ⟨System.consistent_new coherent id nextPageId faults, (by rintro _ ⟨⟩)⟩ kept
  refine ⟨fun key aligned unsynced => ?_, fun key dirty => ?_,
    fun node => by rw [SharedPageCache.sync_eq]; exact consistent.sync_current found _,
    consistent.sync_current found _⟩
  · by_contra untracked
    obtain ⟨unmarked, unmapped⟩ := not_or.mp untracked
    obtain ⟨origin, sound⟩ := consistent.good.sound
    refine unsynced ((SharedPageCache.savedPage_iff aligned).mp ?_)
    intro identity page length index resolved resident known inPage below
    refine sound.clean (SharedPageCache.branches_lineageOf found) aligned
      ((SharedPageCache.ident_viewOf aligned).trans resolved) resident unmarked ?_ length index
      known inPage below
    intro mapping member own here write
    obtain ⟨⟨holder, same⟩, included, rfl⟩ := List.mem_map.mp member
    refine unmapped ⟨holder, same, included, ?_, own, here, write⟩
    intro lost
    rw [lost] at included
    exact writers same included write
  · obtain ⟨identity, page, resolved, resident⟩ := consistent.resident_of_dirty found dirty
    exact ⟨identity, page, SharedPageCache.identityOf_eq_some.mp resolved, resident⟩

set_option maxRecDepth 4000 in
theorem MappedStore.unmapped_page_is_marked : ∃ branch,
    (start.after unmapped).cache.branches[1]? = some branch ∧
      branch.dirtyPages.IsDirty (2, 0) := by
  have kept : Admitted (fun system action => (System.step system action).1) System.KeepsWriters
      start unmapped := by decide +kernel
  have closed : (start.after unmapped).held = [] := by decide +kernel
  have unsynced : ∃ branch ∈ (start.after unmapped).cache.branches[1]?,
      FileView.fileLen branch.store 2 = some 1 ∧ FileView.fileByte branch.store 2 0 ≠
        (start.after unmapped).cache.seenByte branch 2 0 := by decide +kernel
  obtain ⟨branch, found, length, different⟩ := unsynced
  have complete := dirty_tracking_is_complete Redox.OneFile.coherent 1 1 [] unmapped kept
  rw [← start] at complete
  generalize start.after unmapped = system at complete closed found different ⊢
  have tracked := (complete 1 branch found).1 (2, 0) rfl fun synced =>
    different (synced 1 0 length Nat.one_pos rfl)
  refine ⟨branch, found, tracked.resolve_right ?_⟩
  rintro ⟨holder, mapping, member, _⟩
  rw [closed] at member
  cases member

set_option maxRecDepth 4000 in
/-- The byte that a failed `write` left in the page is not in the store, not marked, and
nobody has the page mapped. -/
theorem TornWrite.stored_byte_is_untracked : ∃ branch,
    (start.after (actions.take 6)).cache.branches[1]? = some branch ∧
      ¬ (start.after (actions.take 6)).cache.PageInSync branch (2, 0) ∧
      ¬ branch.dirtyPages.IsDirty (2, 0) ∧
      ∀ entry ∈ (start.after (actions.take 6)).held, entry.1 = .nobody := by
  have lost : ∀ entry ∈ (start.after (actions.take 6)).held, entry.1 = .nobody := by decide +kernel
  have unsynced : ∃ branch ∈ (start.after (actions.take 6)).cache.branches[1]?,
      FileView.fileLen branch.store 2 = some 2 ∧ ¬ branch.dirtyPages.IsDirty (2, 0) ∧
      FileView.fileByte branch.store 2 0 ≠
        (start.after (actions.take 6)).cache.seenByte branch 2 0 := by decide +kernel
  generalize start.after (actions.take 6) = system at lost unsynced ⊢
  obtain ⟨branch, found, length, unmarked, different⟩ := unsynced
  exact ⟨branch, found, fun synced => different (synced 2 0 length Nat.two_pos rfl), unmarked, lost⟩

end Minidox.Cache
