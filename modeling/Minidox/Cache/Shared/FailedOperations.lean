import Minidox.Cache.Shared.FailedCalls
import Minidox.Cache.Shared.Frames

/-!
# Operations that fail

An operation that returns an error may have sealed the source of a fork, loaded or copied a page, or
given a page a new identity. None of this can be seen: the branches show the same files, have the
same dirty pages and count the same mappings.
-/

set_option autoImplicit false

namespace Minidox.Cache

open Foundation Attempt
open Std (ExtTreeMap)

variable {World Store Identity : Type} [Ord Identity] [Std.TransOrd Identity]
  [ForkableNodeStore World Store Identity] [FileView Store] [IdentityLedger World Identity]

namespace SharedPageCache

variable {α : Type} {cache : SharedPageCache World Store Identity}

/-!
## Dirty pages and counts
-/

def marks (cache : SharedPageCache World Store Identity) (id : CacheBranchId) :
    Option ((PageKey → Prop) × (Nat → Option Nat)) :=
  ((lineageOf cache).branches id).map fun view => (view.dirty, view.active)

def SameMarks (before after : SharedPageCache World Store Identity) : Prop :=
  after.marks = before.marks

instance : @Std.Refl (SharedPageCache World Store Identity) SameMarks := ⟨fun _ => rfl⟩

instance : IsTrans (SharedPageCache World Store Identity) SameMarks where
  trans _ _ _ earlier later := later.trans earlier

theorem marks_modify (cache : SharedPageCache World Store Identity) (id : CacheBranchId)
    {change : CacheBranch Store → CacheBranch Store}
    (dirty : ∀ branch, (change branch).dirtyPages.IsDirty = branch.dirtyPages.IsDirty)
    (active : ∀ branch, (change branch).activePages = branch.activePages) :
    SameMarks cache { cache with branches := cache.branches.modify id change } := by
  funext other
  simp only [marks, lineageOf, ExtTreeMap.getElem?_modify]
  split
  next same =>
    rw [Std.LawfulEqOrd.compare_eq_iff_eq.mp same]
    cases cache.branches[other]? with
    | none => rfl
    | some branch => simp [viewOf, dirty, active]
  next => rfl

theorem marks_of_branches {before after : SharedPageCache World Store Identity}
    (branches : after.branches = before.branches) : SameMarks before after := by
  funext id
  rw [marks, marks, lineageOf, lineageOf, branches]

instance : @OfBranches World Store Identity _ SameMarks where
  of_branches branches _ _ _ := marks_of_branches branches

theorem marks_withStoreMut (id : CacheBranchId) (operation : Attempt (World × Store) IoError α) :
    Moves SameMarks (withStoreMut id operation : SharedM World Store Identity α) := by
  intro cache
  refine ends_withStoreMut (fun _ _ => ends_of_forall fun _ after => ?_) (fun _ => rfl) fun _ => rfl
  exact marks_modify { cache with faults := cache.faults.tail } id (fun _ => rfl) fun _ => rfl

theorem marks_pageFor [DecidableEq Identity] (id : CacheBranchId) (key : PageKey)
    (identity : Identity) (page : Nat) (copies : Bool) :
    Moves SameMarks (pageFor id key identity page copies : SharedM World Store Identity Nat) := by
  unfold pageFor
  split
  next =>
    refine moves_bind (moves_duplicate page) fun newPage =>
      moves_bind (marks_withStoreMut id _) fun newIdentity => ?_
    refine moves_bind (moves_modify fun _ => rfl) fun _ => moves_bind (moves_modify fun cache => ?_)
      fun _ => moves_bind (fun cache => ?_) fun _ => moves_pure _
    · exact marks_of_branches (branches_dropHidden key identity cache)
    · exact marks_modify cache id (fun _ => rfl) fun _ => rfl
  next => exact moves_pure _

/-- The operation leaves everything as it is that can be seen. -/
structure Unchanged (before after : SharedPageCache World Store Identity) : Prop where
  copies : after.copies = before.copies
  marks : after.marks = before.marks

/-- Nothing can be seen of the operation when it fails. -/
def Neutral (operation : SharedM World Store Identity α)
    (cache : SharedPageCache World Store Identity) : Prop :=
  Ends operation cache fun result after => ∀ error, result = .error error → Unchanged cache after

theorem neutral_unmap (id : CacheBranchId) (mapping : DaxPageMapping) :
    Neutral (unmap id mapping) cache := by
  unfold Neutral
  simp only [unmap, ends_bind, ends_get, ends_require]
  refine ⟨fun _ => ends_branchMut (fun branch _ => ?_) fun _ _ _ => ⟨rfl, rfl⟩,
    fun _ _ _ => ⟨rfl, rfl⟩⟩
  dsimp only
  cases branch.activePages[mapping.page]? with
  | none => exact fun _ _ => ⟨rfl, rfl⟩
  | some count =>
    dsimp only [unmapCounted]
    cases Word64.checkedSub count 1 with
    | none => exact fun _ _ => ⟨rfl, rfl⟩
    | some left =>
      simp only [ends_bind, ends_modifyBranch, ends_onlyIf]
      exact ⟨fun _ => not_error, fun _ => not_error⟩

theorem neutral_removeBranch [DecidableEq Identity] (id : CacheBranchId) :
    Neutral (removeBranch id) cache := by
  unfold Neutral
  simp only [removeBranch, ends_bind, ends_require]
  refine ends_branchMut (fun branch _ => ⟨fun _ => not_error, fun _ _ _ => ⟨rfl, rfl⟩⟩)
    fun _ _ _ => ⟨rfl, rfl⟩

/-- A fork of the branch is a copy of it, and leaves it as it is. -/
def ForksCopy (source : CacheBranchId) (cache : SharedPageCache World Store Identity) : Prop :=
  Ends (fork source) cache fun result after => ∀ child, result = .ok child → ∃ files,
    cache.copies source = some files ∧ after.copies source = some files ∧
      after.copies child = some files

variable [StoreLedger World Store] {held : List DaxPageMapping}

theorem neutral_of_grown (good : Good held cache) {operation : SharedM World Store Identity α}
    (moves : Moves Grown operation) : Neutral operation cache :=
  (moves cache).mono fun _ _ grown _ _ => ⟨(grown.sameView good).copies, funext fun id =>
    congrArg (Option.map fun view : LineageBranch Identity => (view.dirty, view.active))
      (congrFun grown.2.1.branches id)⟩

variable [LawfulForkableStore World Store Identity]

theorem neutral_fork (good : Good held cache) (source : CacheBranchId) :
    Neutral (fork source) cache := by
  have marks : Ends (fork source) cache fun result after =>
      ∀ error, result = .error error → SameMarks cache after := by
    simp only [fork, ends_bind, ends_require]
    refine ends_branchMut (fun branch _ => ⟨fun _ => ?_, fun _ _ _ => rfl⟩) fun _ _ _ => rfl
    refine (marks_withStoreMut source _ cache).mono fun result middle same => ?_
    cases result with
    | error error => exact fun _ _ => same
    | ok store =>
      simp only [ends_modifyBranch, ends_get]
      refine ends_orInvalid (fun _ _ => not_error) ?_
      intro _ _
      refine IsTrans.trans _ _ _ same (marks_modify middle source (fun branch => ?_) fun _ => rfl)
      exact funext fun key => propext DirtyBranch.isDirty_pushMarks
  exact ((ends_fork good source).and marks).mono fun _ _ ended error failed =>
    ⟨(ended.1.2.1 error failed).copies, ended.2 error failed⟩

theorem forksCopy (good : Good held cache) (source : CacheBranchId) : ForksCopy source cache := by
  refine (ends_fork good source).mono fun _ _ ended child returned => ?_
  obtain ⟨-, -, copies, files, found⟩ := ended.2.2 child returned
  refine ⟨files, found, ?_, ?_⟩
  · rw [copies, Function.update_apply]
    split <;> exact found
  · rw [copies, Function.update_self, found]

theorem neutral_mapPage [Std.LawfulEqOrd Identity] [DecidableEq Identity] (good : Good held cache)
    (id : CacheBranchId) (node offset : Nat) (flags : MapFlags) :
    Neutral (mapPage id node offset flags) cache := by
  have marks : Ends (mapPage id node offset flags) cache fun result after =>
      ∀ error, result = .error error → SameMarks cache after := by
    simp only [mapPage, ends_bind, ends_require]
    refine ⟨fun _ => ⟨fun _ => ?_, fun _ _ _ => rfl⟩, fun _ _ _ => rfl⟩
    refine ends_branchMut (fun branch _ => ⟨fun _ => ?_, fun _ _ _ => rfl⟩) fun _ _ _ => rfl
    refine ends_orIo (fun identity _ => ?_) fun _ _ _ => rfl
    have loads : Moves SameMarks (loadPage id identity (node, offset) :
        SharedM World Store Identity Nat) :=
      moves_loadPage_of (fun _ => moves_modify fun _ => rfl) _
    refine (loads cache).mono fun result loaded same => ?_
    cases result with
    | error error => exact fun _ _ => same
    | ok page =>
      refine ⟨fun _ => ?_, fun _ _ _ => same⟩
      refine (marks_pageFor id (node, offset) identity page _ loaded).mono
        fun result copied more => ?_
      cases result with
      | error error => exact fun _ _ => IsTrans.trans _ _ _ same more
      | ok page => exact not_error
  exact ((ends_mapPage good id node offset flags).and marks).mono fun _ _ ended error failed =>
    ⟨ended.1.1.copies, ended.2 error failed⟩

end SharedPageCache

/-!
## RedoxFS stores
-/

section RedoxStores

open Redox SharedPageCache

variable {Mount : Type} [RedoxFs Mount] [RedoxFiles Mount] [LawfulRedoxFs Mount]

end RedoxStores

end Minidox.Cache
