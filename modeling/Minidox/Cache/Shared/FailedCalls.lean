import Minidox.Cache.Shared.Properties
import Minidox.Cache.Shared.WholeCalls

/-!
# Calls that fail

What a failing `read` or `write` leaves behind: the mappings that stay counted, and the bytes
that were already written.
-/

set_option autoImplicit false

namespace Minidox.Cache

open Foundation Attempt
open Std (ExtTreeMap)

variable {World Store Identity : Type} [Ord Identity]
  {before after cache : SharedPageCache World Store Identity} {held : List DaxPageMapping}

/-!
## Mappings that stay
-/

namespace SharedPageCache

def activePages (cache : SharedPageCache World Store Identity) (branch : CacheBranchId) :
    Option (ExtTreeMap Nat Nat) :=
  cache.branches[branch]?.map CacheBranch.activePages

variable [ForkableNodeStore World Store Identity]

theorem exec_measure_absent
    (call : Call DaxPageMapping) (absent : cache.branches[call.branch]? = none) :
    ∃ error, call.measure.exec cache = (.error error, cache) := by
  have ends : Ends call.measure cache fun result after =>
      (∃ error, result = .error error) ∧ after = cache := by
    have asks : ∀ {post : Except CacheError Nat → SharedPageCache World Store Identity → Prop},
        post (.error (.branchNotFound call.branch)) cache →
        Ends (askStore call.branch fun store =>
          NodeStore.len World store call.node) cache post := by
      intro post missing
      simp only [askStore, ends_bind]
      refine ends_branchMut (fun branch found => ?_) fun _ => missing
      rw [absent] at found
      cases found
    unfold Call.measure
    split
    next =>
      simp only [ends_bind]
      exact asks ⟨⟨_, rfl⟩, rfl⟩
    next =>
      simp only [ends_bind]
      exact ends_orInvalid (fun _ _ => asks ⟨⟨_, rfl⟩, rfl⟩) ⟨⟨_, rfl⟩, rfl⟩
  unfold Ends at ends
  cases executed : call.measure.exec cache with
  | mk result after =>
    rw [executed] at ends
    obtain ⟨⟨error, rfl⟩, rfl⟩ := ends
    exact ⟨error, rfl⟩

/-- The call leaves the mappings of the branch as they were, so that a branch without mappings
can be forked and removed after it. -/
def LeavesMappings [DecidableEq Identity] {α : Type} (operation : SharedM World Store Identity α)
    (cache : SharedPageCache World Store Identity) (branch : CacheBranchId) : Prop :=
  Ends operation cache fun _ after =>
    after.activePages branch = cache.activePages branch ∧
      (cache.activePages branch = some ∅ →
        Ends (fork branch) after (fun result _ => result ≠ .error .activeMappings) ∧
          Ends (removeBranch branch) after fun result _ => result ≠ .error .activeMappings)

theorem not_activeMappings [DecidableEq Identity] {branch : CacheBranchId}
    (idle : cache.activePages branch = some ∅) :
    Ends (fork branch) cache (fun result _ => result ≠ .error .activeMappings) ∧
      Ends (removeBranch branch) cache fun result _ => result ≠ .error .activeMappings := by
  obtain ⟨state, found, empty⟩ := Option.map_eq_some_iff.mp idle
  have unmapped : state.activePages.isEmpty := by rw [empty]; rfl
  have missing : cache.branches[branch]? ≠ none := by rw [found]; rintro ⟨⟩
  have only : ∀ other, cache.branches[branch]? = some other → other.activePages.isEmpty := by
    intro other same
    cases found.symm.trans same
    exact unmapped
  constructor
  · simp only [fork, ends_bind]
    refine ends_branchMut (fun other same => ?_) fun absent => absurd absent missing
    refine ends_require.mpr ⟨fun _ => ?_, fun used => absurd (only other same) used⟩
    refine ends_withStoreMut (fun _ _ => ?_) (fun _ => (by rintro ⟨⟩)) fun absent =>
      absurd absent missing
    refine ends_of_forall fun result after => ?_
    cases result with
    | error error => rintro ⟨⟩
    | ok child =>
      simp only [Except.mapError, ends_modifyBranch, ends_get]
      exact ends_orInvalid (fun _ _ => (by rintro ⟨⟩)) (by rintro ⟨⟩)
  · simp only [removeBranch, ends_bind]
    refine ends_branchMut (fun other same => ?_) fun absent => absurd absent missing
    exact ends_require.mpr ⟨fun _ => (by rintro ⟨⟩), fun used => absurd (only other same) used⟩

variable [Std.TransOrd Identity] [FileView Store] [IdentityLedger World Identity]

theorem live_of_outlived (outlived : Outlived before.copies after.copies) {id : CacheBranchId}
    {branch : CacheBranch Store} (found : before.branches[id]? = some branch) :
    ∃ later, after.branches[id]? = some later := by
  obtain ⟨files, live, -⟩ :=
    outlived id _ (Lineage.copies_of_found (branches_lineageOf found))
  exact found_of_live live

variable [StoreLedger World Store]

theorem Good.getElem?_activePages (good : Good held cache) {id : CacheBranchId}
    {branch : CacheBranch Store} (found : cache.branches[id]? = some branch) (page : Nat) :
    branch.activePages[page]? =
      if Lineage.holders held id page = 0 then none else some (Lineage.holders held id page) := by
  obtain ⟨origin, sound⟩ := good.sound
  exact sound.active_count id _ page (branches_lineageOf found)

theorem Good.activePages_eq (good : Good held before) (goodAfter : Good held after)
    {id : CacheBranchId} {old new : CacheBranch Store} (found : before.branches[id]? = some old)
    (foundAfter : after.branches[id]? = some new) :
    after.activePages id = before.activePages id := by
  rw [activePages, activePages, found, foundAfter, Option.map_some, Option.map_some]
  refine congrArg some (ExtTreeMap.ext_getElem? fun page => ?_)
  rw [good.getElem?_activePages found, goodAfter.getElem?_activePages foundAfter]

theorem Good.activePages_of_copies (good : Good held before) (goodAfter : Good held after)
    (copies : after.copies = before.copies) (id : CacheBranchId) :
    after.activePages id = before.activePages id := by
  cases found : before.branches[id]? with
  | some old =>
    cases foundAfter : after.branches[id]? with
    | some new => exact good.activePages_eq goodAfter found foundAfter
    | none =>
      rw [← copies_eq_none_iff, copies, copies_eq_none_iff, found] at foundAfter
      cases foundAfter
  | none =>
    have foundAfter := found
    rw [← copies_eq_none_iff, ← copies, copies_eq_none_iff] at foundAfter
    rw [activePages, activePages, found, foundAfter]

theorem Good.activePages_ne {mapping : DaxPageMapping} (good : Good held before)
    (goodAfter : Good (mapping :: held) after) {old new : CacheBranch Store}
    (found : before.branches[mapping.branch]? = some old)
    (foundAfter : after.branches[mapping.branch]? = some new) :
    after.activePages mapping.branch ≠ before.activePages mapping.branch := by
  intro same
  rw [activePages, activePages, found, foundAfter, Option.map_some, Option.map_some] at same
  have counted := congrArg (fun pages : ExtTreeMap Nat Nat => pages[mapping.page]?)
    (Option.some.inj same)
  have more : Lineage.holders (mapping :: held) mapping.branch mapping.page =
      Lineage.holders held mapping.branch mapping.page + 1 := by
    rw [Lineage.holders_cons, if_pos ⟨rfl, rfl⟩]
  rw [good.getElem?_activePages found, goodAfter.getElem?_activePages foundAfter, more,
    if_neg (Nat.succ_ne_zero _)] at counted
  split at counted
  next => cases counted
  next =>
    have := Option.some.inj counted
    omega

variable [Std.LawfulEqOrd Identity] [DecidableEq Identity]
  [LawfulForkableStore World Store Identity] [FileMaker World Store]
  [LawfulFileMaker World Store Identity]

/-- A whole call leaves the counts of its branch exactly when the page files serve it. -/
theorem ends_call_activePages (good : Good held cache) (job : Job) (branch : CacheBranchId)
    (node offset : Nat) :
    Ends ((Call.new job branch node offset).complete (Call.steps job)) cache fun _ after =>
      after.activePages branch = cache.activePages branch ↔
        (Call.new job branch node offset).Served (Call.steps job) cache := by
  cases found : cache.branches[branch]? with
  | some old =>
    refine (ends_call good job branch node offset).mono fun _ after ended => ?_
    obtain ⟨leaves, outlived⟩ := ended
    obtain ⟨new, foundAfter⟩ := live_of_outlived outlived found
    cases leaves with
    | inl kept => exact iff_of_true (good.activePages_eq kept.2 found foundAfter) kept.1
    | inr failed =>
      obtain ⟨unserved, mapping, rfl, goodAfter⟩ := failed
      exact iff_of_false (good.activePages_ne goodAfter found foundAfter) unserved
  | none =>
    have counted : Call.steps job = 3 * (job.length / pageSize + 2) + 1 := Nat.add_comm _ _
    obtain ⟨error, executed⟩ :=
      exec_measure_absent (Call.new job branch node offset) found
    have advanced : (Call.new job branch node offset).advance.exec cache =
        (.error error, cache) := executed
    rw [counted, Call.complete, Call.Served, ends_bind, Ends, advanced]
    exact iff_of_true rfl ⟨(by rintro ⟨⟩), trivial⟩

theorem leavesMappings_iff {α : Type} (good : Good held cache) (job : Job) (branch : CacheBranchId)
    (node offset : Nat) (value : Reply → α) :
    LeavesMappings (value <$> (Call.new job branch node offset).complete (Call.steps job)) cache
      branch ↔ (Call.new job branch node offset).Served (Call.steps job) cache := by
  have ended := ends_call_activePages good job branch node offset
  rw [LeavesMappings, ends_map]
  constructor
  · intro leaves
    have reached : Ends ((Call.new job branch node offset).complete (Call.steps job)) cache
        fun result after => exec ((Call.new job branch node offset).complete (Call.steps job))
          cache = (result, after) →
          (Call.new job branch node offset).Served (Call.steps job) cache :=
      (leaves.and ended).mono fun _ _ kept _ => kept.2.mp kept.1.1
    exact reached.elim
  · intro served
    refine ended.mono fun _ after same => ⟨same.mpr served, fun idle => ?_⟩
    exact not_activeMappings ((same.mpr served).trans idle)

end SharedPageCache

variable [Std.TransOrd Identity] [Std.LawfulEqOrd Identity] [DecidableEq Identity]
  [ForkableNodeStore World Store Identity] [FileView Store] [IdentityLedger World Identity]
  [StoreLedger World Store] [LawfulForkableStore World Store Identity] [FileMaker World Store]
  [LawfulFileMaker World Store Identity]

/-- In every state that a shared cache reaches, `read` and `write` leave the mappings of the
branch as they were exactly when no page file fails them while they copy. -/
theorem calls_leave_no_mapping_iff {world : World} {stores : List Store}
    (coherent : Coherent world stores) (id nextPageId : Nat) (faults : Faults)
    (actions : List Action) (branch : CacheBranchId) (node offset : Nat) :
    let cache := ((System.new (SharedPageCache.ofStores id nextPageId world faults stores :
      SharedPageCache World Store Identity)).after actions).cache
    (∀ capacity,
      SharedPageCache.LeavesMappings (SharedPageCache.read branch node offset capacity) cache
        branch ↔
      (Call.new (.read capacity) branch node offset).Served (Call.steps (.read capacity)) cache) ∧
    ∀ data,
      SharedPageCache.LeavesMappings (SharedPageCache.write branch node offset data) cache branch ↔
      (Call.new (.write data) branch node offset).Served (Call.steps (.write data)) cache := by
  intro cache
  have good := ((System.consistent_new coherent id nextPageId faults).after actions).good
  exact ⟨fun capacity => SharedPageCache.leavesMappings_iff good (.read capacity) branch node
    offset Reply.bytes, fun data => SharedPageCache.leavesMappings_iff good (.write data) branch
    node offset Reply.count⟩

/-!
A file of one byte, and a read of it whose page file fails.
-/

namespace FailedRead

open Redox

def faults : Faults := List.replicate 5 none ++ [some ⟨.os 5, 0⟩]

def start (faults : Faults) : System RedoxWorld (MountedBranch OneFile) RedoxPageIdentity :=
  System.new (SharedPageCache.ofStores 1 1 OneFile.world faults [OneFile.branch])

def actions : List Action := [.createFile 1 "a" 1, .openNode 1 2]

set_option maxRecDepth 4000 in
theorem read_leaves_no_mapping :
    SharedPageCache.LeavesMappings (SharedPageCache.read 1 2 0 1)
      ((start []).after actions).cache 1 :=
  ((calls_leave_no_mapping_iff OneFile.coherent 1 1 [] actions 1 2 0).1 1).mpr (by decide +kernel)

set_option maxRecDepth 4000 in
/-- The page stays counted after the failed read. -/
theorem read_leaks_mapping :
    ¬ SharedPageCache.LeavesMappings (SharedPageCache.read 1 2 0 1)
      ((start faults).after actions).cache 1 := by
  have before : (((start faults).after actions).cache.activePages 1).map ExtTreeMap.toList =
      some [] := by decide +kernel
  have after : ((((SharedPageCache.read 1 2 0 1).exec
      ((start faults).after actions).cache).2.activePages 1).map ExtTreeMap.toList) =
      some [(1, 1)] := by decide +kernel
  intro leaves
  have same := congrArg (Option.map ExtTreeMap.toList) leaves.1
  rw [before, after] at same
  cases same

end FailedRead

end Minidox.Cache
