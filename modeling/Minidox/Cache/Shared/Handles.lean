import Minidox.Cache.Shared.Branching
import Minidox.Cache.Shared.Frames

/-!
# Handles and forks

When `open` and `fork` of a shared cache succeed, and which open counts and exclusive pages they
leave.
-/

set_option autoImplicit false

namespace Minidox.Cache

open Foundation Attempt
open Std (ExtTreeMap ExtTreeSet)

namespace SharedPageCache

section Frames

variable {World Store Identity : Type} [Ord Identity] {α : Type}

structure OpenFrame (id : CacheBranchId) (node : NodeId)
    (before after : SharedPageCache World Store Identity) : Prop where
  opened : ∀ other otherNode, (other, otherNode) ≠ (id, node) →
    after.opened other otherNode = before.opened other otherNode
  owns : ∀ other key, before.Owns other key → after.Owns other key

variable {id : CacheBranchId} {node : NodeId}

instance : @Std.Refl (SharedPageCache World Store Identity) (OpenFrame id node) :=
  ⟨fun _ => ⟨fun _ _ _ => rfl, fun _ _ owned => owned⟩⟩

instance : IsTrans (SharedPageCache World Store Identity) (OpenFrame id node) where
  trans _ _ _ earlier later :=
    { opened := fun other otherNode different =>
        (later.opened other otherNode different).trans (earlier.opened other otherNode different)
      owns := fun other key owned => later.owns other key (earlier.owns other key owned) }

theorem Frame.openFrame {claim : CacheBranchId → PageKey → Prop}
    {before after : SharedPageCache World Store Identity} (frame : Frame claim before after) :
    OpenFrame id node before after :=
  ⟨fun other otherNode _ => frame.opened other otherNode, frame.owns⟩

theorem opened_modify (cache : SharedPageCache World Store Identity) (id : CacheBranchId)
    (change : CacheBranch Store → CacheBranch Store) (other : CacheBranchId) (node : NodeId) :
    ({ cache with branches := cache.branches.modify id change } :
      SharedPageCache World Store Identity).opened other node =
      if id = other then
        (cache.branches[id]?.map fun branch => (change branch).openCount node).getD 0
      else cache.opened other node := by
  unfold opened
  rw [ExtTreeMap.getElem?_modify]
  by_cases here : id = other
  · subst here
    rw [if_pos Std.compare_self, if_pos rfl, Option.map_map]
    rfl
  · rw [if_neg fun same => here (Std.LawfulEqOrd.compare_eq_iff_eq.mp same), if_neg here]

theorem openFrame_setCount (cache : SharedPageCache World Store Identity)
    {change : CacheBranch Store → CacheBranch Store}
    (others : ∀ branch otherNode, otherNode ≠ node →
      (change branch).openCount otherNode = branch.openCount otherNode)
    (owns : ∀ branch, (change branch).exclusivePages = branch.exclusivePages) :
    OpenFrame id node cache { cache with branches := cache.branches.modify id change } where
  opened other otherNode different := by
    rw [opened_modify]
    split
    next here =>
      have elsewhere : otherNode ≠ node := fun same => different (by rw [← here, same])
      simp only [others _ _ elsewhere, opened, here]
    next => rfl
  owns other key owned := by
    obtain ⟨branch, found, exclusive⟩ := owned
    by_cases here : id = other
    · subst here
      exact ⟨change branch, by simp [found], owns branch ▸ exclusive⟩
    · refine ⟨branch, ?_, exclusive⟩
      rw [ExtTreeMap.getElem?_modify,
        if_neg fun same => here (Std.LawfulEqOrd.compare_eq_iff_eq.mp same), found]

theorem openCount_insert (branch : CacheBranch Store) (node count other : Nat) :
    ({ branch with openNodes := branch.openNodes.insert node count } : CacheBranch Store).openCount
      other = if other = node then count else branch.openCount other := by
  simp only [CacheBranch.openCount, TreeMap.getElem?_insert_ite]
  split <;> rfl

theorem openCount_insertIfNew (branch : CacheBranch Store) (node other : Nat) :
    ({ branch with openNodes := branch.openNodes.insertIfNew node 0 } : CacheBranch Store).openCount
      other = branch.openCount other := by
  simp only [CacheBranch.openCount, ExtTreeMap.getElem?_insertIfNew]
  split
  next new =>
    obtain ⟨same, absent⟩ := new
    obtain rfl := Std.LawfulEqOrd.compare_eq_iff_eq.mp same
    rw [TreeMap.getElem?_eq_none absent]
    rfl
  next => rfl

theorem openFramed_of_framed {operation : SharedM World Store Identity α}
    (framed : Moves (Frame unclaimed) operation) :
    Moves (OpenFrame id node) operation :=
  fun cache => (framed cache).mono fun _ _ frame => frame.openFrame

structure Rebranched (before after : SharedPageCache World Store Identity) : Prop where
  rest : after = { before with branches := after.branches }
  store : ∀ id : CacheBranchId,
    after.branches[id]?.map CacheBranch.store = before.branches[id]?.map CacheBranch.store

instance : @Std.Refl (SharedPageCache World Store Identity) Rebranched :=
  ⟨fun _ => ⟨rfl, fun _ => rfl⟩⟩

instance : IsTrans (SharedPageCache World Store Identity) Rebranched where
  trans _ _ _ earlier later :=
    ⟨by rw [later.rest, earlier.rest], fun id => (later.store id).trans (earlier.store id)⟩

theorem opened_forked (cache : SharedPageCache World Store Identity) (source next : CacheBranchId)
    (store : Store) (marks : DirtyBranch) (change : CacheBranch Store → CacheBranch Store)
    (opens : ∀ branch, (change branch).openNodes = branch.openNodes)
    (clears : ∀ branch, (change branch).exclusivePages = ∅) :
    let after : SharedPageCache World Store Identity := { cache with
      nextBranch := next
      branches := (cache.branches.modify source change).insert cache.nextBranch
        { CacheBranch.new store with dirtyPages := marks } }
    (∀ id node, after.opened id node =
      if id = cache.nextBranch then 0 else cache.opened id node) ∧
    ∀ key, ¬ after.Owns source key := by
  intro after
  have lookup : ∀ id : CacheBranchId, after.branches[id]? =
      if id = cache.nextBranch then some { CacheBranch.new store with dirtyPages := marks }
      else if source = id then cache.branches[id]?.map change else cache.branches[id]? := by
    intro id
    simp only [after, TreeMap.getElem?_insert_ite, ExtTreeMap.getElem?_modify,
      Std.LawfulEqOrd.compare_eq_iff_eq]
    by_cases here : source = id <;> simp [here]
  constructor
  · intro id node
    rw [opened, lookup]
    by_cases new : id = cache.nextBranch
    · rw [if_pos new, if_pos new]
      simp [CacheBranch.openCount, CacheBranch.new]
    · rw [if_neg new, if_neg new, opened]
      split
      next =>
        rw [Option.map_map]
        simp only [Function.comp_def, CacheBranch.openCount, opens]
      next => rfl
  · rintro key ⟨branch, found, owned⟩
    rw [lookup, if_pos (rfl : source = source)] at found
    split at found
    next =>
      cases found
      exact ExtTreeSet.not_mem_empty owned
    next =>
      obtain ⟨old, -, rfl⟩ := Option.map_eq_some_iff.mp found
      rw [clears] at owned
      exact ExtTreeSet.not_mem_empty owned

theorem rebranched_unmap (id : CacheBranchId) (mapping : DaxPageMapping) :
    Moves Rebranched (unmap id mapping : SharedM World Store Identity Unit) := by
  refine moves_unmap_of (fun books => moves_modify fun cache => ⟨rfl, fun other => ?_⟩) mapping
  change (cache.branches.modify id _)[other]?.map CacheBranch.store = _
  rw [ExtTreeMap.getElem?_modify]
  split
  next here =>
    obtain rfl := Std.LawfulEqOrd.compare_eq_iff_eq.mp here
    simp only [Option.map_map, Function.comp_def, books.store]
  next => rfl

end Frames

section Stores

variable {World Store Identity : Type} [Ord Identity] [ForkableNodeStore World Store Identity]
  {cache : SharedPageCache World Store Identity}

/-- The store of the branch is not copied: the host fails the call, or the store does. -/
def RefusesCopy (cache : SharedPageCache World Store Identity) (id : CacheBranchId) : Prop :=
  cache.faults.head?.join ≠ none ∨ ∃ store, cache.branches[id]?.map CacheBranch.store = some store ∧
    Ends ForkableNodeStore.forkStore (cache.world, store) fun result _ =>
      ∃ error, result = .error error

theorem Rebranched.refusesCopy_iff {after : SharedPageCache World Store Identity}
    (rebranched : Rebranched cache after) (id : CacheBranchId) :
    after.RefusesCopy id ↔ cache.RefusesCopy id := by
  rw [RefusesCopy, RefusesCopy, rebranched.store id, rebranched.rest]

theorem ends_withStoreMut_copy {id : CacheBranchId} {branch : CacheBranch Store}
    (found : cache.branches[id]? = some branch) :
    Ends (withStoreMut id ForkableNodeStore.forkStore) cache fun result after =>
      after.nextBranch = cache.nextBranch ∧
      ((∃ error, result = .error error) ↔ cache.RefusesCopy id) := by
  simp only [withStoreMut, ends_bind]
  refine ends_branchMut_of found ?_
  simp only [probe, nextFault, ends_bind, ends_get, ends_set, ends_pure, RefusesCopy, found]
  cases cache.faults.head?.join with
  | some fault => exact ⟨rfl, iff_of_true ⟨_, rfl⟩ (.inl (by simp))⟩
  | none =>
    simp only [ends_pure, ends_within]
    refine (ends_self _ _ fun result _ => ∃ error, result = .error error).mono ?_
    refine fun copied after same => ⟨rfl, ?_⟩
    simp only [ne_eq, not_true_eq_false, false_or, Option.map_some, Option.some.injEq,
      exists_eq_left', same]
    cases copied with
    | error error => exact iff_of_true ⟨_, rfl⟩ ⟨_, rfl⟩
    | ok store => exact iff_of_false (by rintro ⟨_, ⟨⟩⟩) (by rintro ⟨_, ⟨⟩⟩)

theorem ends_openNode_closed {id : CacheBranchId} {branch : CacheBranch Store} {node : NodeId}
    (found : cache.branches[id]? = some branch) (closed : cache.opened id node = 0) :
    Ends (openNode id node) cache fun result _ => FailsOnlyByIo result := by
  rw [opened_of_found found] at closed
  simp only [openNode, ends_bind]
  refine ends_branchMut_of found ?_
  simp only [ends_modifyBranch, closed, onlyIf, if_true]
  refine ends_withStoreMut (fun _ _ => ends_of_forall ?_) failsOnlyByIo_io fun absent => ?_
  · intro told after
    cases told with
    | error error => exact failsOnlyByIo_io error
    | ok value => exact failsOnlyByIo_ok ()
  · simp [found] at absent

end Stores

/-!
## What the mappings tell
-/

section Mappings

variable {World Store Identity : Type} [Ord Identity] [Std.TransOrd Identity]
  [ForkableNodeStore World Store Identity] [FileView Store] [IdentityLedger World Identity]
  [StoreLedger World Store] {held : List DaxPageMapping}
  {cache : SharedPageCache World Store Identity}

theorem Good.owns (good : Good held cache) {mapping : DaxPageMapping} (member : mapping ∈ held)
    (write : mapping.flags.write) : cache.Owns mapping.branch mapping.key := by
  obtain ⟨origin, sound⟩ := good.sound
  obtain ⟨-, -, view, identity, found, -, -, exclusive⟩ := sound.held_backed mapping member
  obtain ⟨branch, foundBranch, rfl⟩ := Option.map_eq_some_iff.mp found
  exact ⟨branch, foundBranch, exclusive write⟩

theorem Good.idle_iff (good : Good held cache) {id : CacheBranchId} {branch : CacheBranch Store}
    (found : cache.branches[id]? = some branch) :
    branch.activePages.isEmpty ↔ ∀ mapping ∈ held, mapping.branch ≠ id := by
  obtain ⟨origin, sound⟩ := good.sound
  have counted := fun page => sound.active_count id _ page (branches_lineageOf found)
  rw [TreeMap.isEmpty_iff_getElem?]
  constructor
  · intro empty mapping member here
    have active := counted mapping.page
    rw [show (viewOf World branch).active mapping.page = none from empty mapping.page] at active
    split at active
    next idle => exact Lineage.holders_eq_zero.mp idle mapping member here rfl
    next => cases active
  · intro elsewhere page
    have active := counted page
    rw [if_pos (Lineage.holders_eq_zero.mpr fun mapping member here _ =>
      elsewhere mapping member here)] at active
    exact active

end Mappings

/-!
## Operations
-/

variable {World Store Identity : Type} [Ord Identity] [ForkableNodeStore World Store Identity]
  {cache : SharedPageCache World Store Identity} {α : Type}

theorem openFramed_openNode (id : CacheBranchId) (node : NodeId) :
    Moves (OpenFrame id node) (openNode id node : SharedM World Store Identity Unit) := by
  refine moves_bind (moves_branchMut id) fun state => ?_
  refine moves_bind (fun cache => ?_) fun _ => ?_
  · exact openFrame_setCount cache (fun branch other _ => openCount_insertIfNew branch node other)
      fun _ => rfl
  refine moves_bind (moves_onlyIf (openFramed_of_framed (framed_withStoreMut id _))) fun _ => ?_
  refine moves_bind (moves_orInvalid _ _) fun count cache => ?_
  refine openFrame_setCount cache (fun branch other different => ?_) fun _ => rfl
  rw [openCount_insert, if_neg different]

/-- When a branch can be forked, and which handles and exclusive pages there are then. -/
theorem ends_fork_handles {source : CacheBranchId} {branch : CacheBranch Store}
    (found : cache.branches[source]? = some branch) :
    Ends (fork source) cache fun result after =>
      ((∃ child, result = .ok child) ↔ branch.activePages.isEmpty ∧ ¬ cache.RefusesCopy source ∧
        cache.nextBranch + 1 < Word64.bound) ∧
      ∀ child, result = .ok child →
        (∀ id node, after.opened id node = if id = child then 0 else cache.opened id node) ∧
        ∀ key, ¬ after.Owns source key := by
  have framed : Moves (Frame unclaimed) (withStoreMut source ForkableNodeStore.forkStore :
      SharedM World Store Identity Store) := framed_withStoreMut source _
  simp only [fork, ends_bind, ends_require]
  refine ends_branchMut_of found ?_
  refine ⟨fun idle => ?_, fun busy =>
    ⟨iff_of_false (by rintro ⟨_, ⟨⟩⟩) fun all => busy all.1, not_ok⟩⟩
  rw [and_iff_right idle]
  refine ((ends_withStoreMut_copy found).and (framed cache)).mono fun result middle ends => ?_
  obtain ⟨⟨next, refused⟩, frame⟩ := ends
  cases result with
  | error error =>
    exact ⟨iff_of_false (by rintro ⟨_, ⟨⟩⟩) fun all => all.1 (refused.mp ⟨error, rfl⟩), not_ok⟩
  | ok store =>
    rw [and_iff_right (refused.not.mp (by rintro ⟨_, ⟨⟩⟩)), ← next]
    simp only [ends_modifyBranch, ends_get]
    cases added : Word64.checkedAdd middle.nextBranch 1 with
    | none =>
      refine ⟨iff_of_false (by rintro ⟨_, ⟨⟩⟩) fun fits => ?_, not_ok⟩
      rw [Word64.checkedAdd, if_pos fits] at added
      cases added
    | some value =>
      have fits := Word64.checkedAdd_lt added
      rw [Word64.checkedAdd_eq_some added] at fits
      obtain ⟨counts, cleared⟩ := opened_forked middle source value store
        branch.dirtyPages.fork.2 (fun branch =>
          { branch with dirtyPages := branch.dirtyPages.fork.1, exclusivePages := ∅ })
        (fun _ => rfl) fun _ => rfl
      refine ⟨iff_of_true ⟨_, rfl⟩ fits, fun child returned => ?_⟩
      cases returned
      refine ⟨fun id node => ?_, cleared⟩
      rw [← frame.opened id node]
      exact counts id node

end SharedPageCache

end Minidox.Cache
