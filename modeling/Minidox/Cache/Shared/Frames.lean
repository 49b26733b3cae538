import Minidox.Cache.Shared.Mapping
import Minidox.Cache.Shared.Sync

/-!
# What the operations leave, and what they refuse

Which open counts and exclusive pages the operations of a shared cache leave, and which pages
they refuse to map: those that a branch has mapped and does not own, and those that the host or
the store fails.
-/

set_option autoImplicit false

namespace Minidox.Cache

open Foundation Attempt
open Std (ExtTreeMap ExtTreeSet)

namespace SharedPageCache

section Frames

variable {World Store Identity : Type} [Ord Identity] {α : Type}

def opened (cache : SharedPageCache World Store Identity) (id : CacheBranchId) (node : NodeId) :
    Nat :=
  (cache.branches[id]?.map fun branch => branch.openCount node).getD 0

def Owns (cache : SharedPageCache World Store Identity) (id : CacheBranchId) (key : PageKey) :
    Prop :=
  ∃ branch, cache.branches[id]? = some branch ∧ key ∈ branch.exclusivePages

/-- An operation that opens and closes nothing, and makes no page exclusive but those that it
claims. -/
structure Frame (claim : CacheBranchId → PageKey → Prop)
    (before after : SharedPageCache World Store Identity) : Prop where
  opened : ∀ id node, after.opened id node = before.opened id node
  owns : ∀ id key, before.Owns id key → after.Owns id key
  claimed : ∀ id key, after.Owns id key → before.Owns id key ∨ claim id key

def unclaimed : CacheBranchId → PageKey → Prop := fun _ _ => False

variable {claim : CacheBranchId → PageKey → Prop}

instance : @Std.Refl (SharedPageCache World Store Identity) (Frame claim) :=
  ⟨fun _ => ⟨fun _ _ => rfl, fun _ _ owned => owned, fun _ _ owned => .inl owned⟩⟩

instance : IsTrans (SharedPageCache World Store Identity) (Frame claim) where
  trans first second third earlier later :=
    { opened := fun id node => (later.opened id node).trans (earlier.opened id node)
      owns := fun id key owned => later.owns id key (earlier.owns id key owned)
      claimed := fun id key owned => by
        cases later.claimed id key owned with
        | inl middle => exact earlier.claimed id key middle
        | inr new => exact .inr new }

theorem Frame.mono {before after : SharedPageCache World Store Identity}
    {more : CacheBranchId → PageKey → Prop} (frame : Frame claim before after)
    (included : ∀ id key, claim id key → more id key) : Frame more before after :=
  { frame with
    claimed := fun id key owned => (frame.claimed id key owned).imp_right (included id key) }

theorem frame_of_branches {before after : SharedPageCache World Store Identity}
    (branches : after.branches = before.branches) : Frame claim before after where
  opened id node := by rw [opened, opened, branches]
  owns id key owned := by rwa [Owns, branches]
  claimed id key owned := .inl (by rwa [Owns, branches] at owned)

theorem opened_modifyBranch (cache : SharedPageCache World Store Identity) (id : CacheBranchId)
    {change : CacheBranch Store → CacheBranch Store}
    (opens : ∀ branch, (change branch).openNodes = branch.openNodes) (other : CacheBranchId)
    (node : NodeId) :
    ({ cache with branches := cache.branches.modify id change } :
      SharedPageCache World Store Identity).opened other node = cache.opened other node := by
  unfold opened
  rw [ExtTreeMap.getElem?_modify]
  split
  next here =>
    obtain rfl := Std.LawfulEqOrd.compare_eq_iff_eq.mp here
    cases cache.branches[id]? with
    | none => rfl
    | some branch => simp only [Option.map_some, Option.getD_some, CacheBranch.openCount, opens]
  next => rfl

theorem frame_modifyBranch (cache : SharedPageCache World Store Identity) (id : CacheBranchId)
    {change : CacheBranch Store → CacheBranch Store}
    (opens : ∀ branch, (change branch).openNodes = branch.openNodes)
    (owns : ∀ branch key, key ∈ branch.exclusivePages → key ∈ (change branch).exclusivePages)
    (claims : ∀ branch key, key ∈ (change branch).exclusivePages →
      key ∈ branch.exclusivePages ∨ claim id key) :
    Frame claim cache { cache with branches := cache.branches.modify id change } where
  opened := opened_modifyBranch cache id opens
  owns other key owned := by
    obtain ⟨branch, found, exclusive⟩ := owned
    by_cases here : id = other
    · subst here
      exact ⟨change branch, by simp [found], owns branch key exclusive⟩
    · refine ⟨branch, ?_, exclusive⟩
      rw [ExtTreeMap.getElem?_modify,
        if_neg fun same => here (Std.LawfulEqOrd.compare_eq_iff_eq.mp same), found]
  claimed other key owned := by
    obtain ⟨branch, found, exclusive⟩ := owned
    rw [ExtTreeMap.getElem?_modify] at found
    split at found
    next here =>
      obtain rfl := Std.LawfulEqOrd.compare_eq_iff_eq.mp here
      obtain ⟨old, foundOld, rfl⟩ := Option.map_eq_some_iff.mp found
      exact (claims old key exclusive).imp_left fun kept => ⟨old, foundOld, kept⟩
    next => exact .inl ⟨branch, found, exclusive⟩

theorem framed_modify {change : SharedPageCache World Store Identity →
      SharedPageCache World Store Identity}
    (branches : ∀ cache, (change cache).branches = cache.branches) :
    Moves (Frame claim) (modify change : SharedM World Store Identity PUnit) :=
  moves_modify fun cache => frame_of_branches (branches cache)

theorem framed_modifyBranch (id : CacheBranchId) {change : CacheBranch Store → CacheBranch Store}
    (opens : ∀ branch, (change branch).openNodes = branch.openNodes)
    (owns : ∀ branch, (change branch).exclusivePages = branch.exclusivePages) :
    Moves (Frame claim) (modifyBranch id change : SharedM World Store Identity Unit) :=
  fun cache => frame_modifyBranch cache id opens (fun branch _ owned => owns branch ▸ owned)
    fun branch _ owned => .inl (owns branch ▸ owned)

theorem opened_of_found {cache : SharedPageCache World Store Identity} {id : CacheBranchId}
    {branch : CacheBranch Store} (found : cache.branches[id]? = some branch) (node : NodeId) :
    cache.opened id node = branch.openCount node := by
  rw [opened, found, Option.map_some, Option.getD_some]

instance : @OfBranches World Store Identity _ (Frame claim) where
  of_branches branches _ _ _ := frame_of_branches branches

theorem framed_withStoreMut (id : CacheBranchId) (operation : Attempt (World × Store) IoError α) :
    Moves (Frame claim) (withStoreMut id operation : SharedM World Store Identity α) := by
  intro cache
  refine ends_withStoreMut (fun branch _ => ends_of_forall fun _ after => ?_)
    (fun _ => OfBranches.tail cache) fun _ => Std.Refl.refl cache
  have stored : Frame claim { cache with faults := cache.faults.tail }
      { cache with
        faults := cache.faults.tail
        branches := cache.branches.modify id fun state => { state with store := after.2 } } :=
    frame_modifyBranch _ id (fun _ => rfl) (fun _ _ owned => owned) fun _ _ owned => .inl owned
  have world : Frame claim { cache with
        faults := cache.faults.tail
        branches := cache.branches.modify id fun state => { state with store := after.2 } }
      (setStore id after { cache with faults := cache.faults.tail }) :=
    frame_of_branches rfl
  exact IsTrans.trans _ _ _ (OfBranches.tail cache) (IsTrans.trans _ _ _ stored world)

theorem framed_unmap (id : CacheBranchId) (mapping : DaxPageMapping) :
    Moves (Frame claim) (unmap id mapping : SharedM World Store Identity Unit) :=
  moves_unmap_of (fun books => framed_modifyBranch id books.opens books.owns) mapping

/-- A page that the branch has mapped and does not own cannot be mapped for writing. -/
def Busy (held : List DaxPageMapping) (cache : SharedPageCache World Store Identity)
    (id : CacheBranchId) (key : PageKey) : Prop :=
  ¬ cache.Owns id key ∧ ∃ mapping ∈ held, mapping.branch = id ∧ mapping.key = key

end Frames

/-!
## Failures of the host and the stores
-/

section Io

variable {World Store Identity : Type} [Ord Identity] {α : Type}

/-- An error, if there is one, is of the host or a store. -/
def FailsOnlyByIo (result : Except CacheError α) : Prop :=
  ∀ error, result = .error error → ∃ io, error = .io io

theorem failsOnlyByIo_ok (value : α) : FailsOnlyByIo (.ok value) := fun _ => by rintro ⟨⟩

theorem failsOnlyByIo_io (io : IoError) :
    FailsOnlyByIo (.error (.io io) : Except CacheError α) := by
  rintro _ ⟨⟩
  exact ⟨io, rfl⟩

/-- The host and the stores have not failed the operation. -/
def NoIo (result : Except CacheError α) : Prop := ∀ io, result ≠ .error (.io io)

theorem noIo_ok (value : α) : NoIo (.ok value) := fun _ => by rintro ⟨⟩

theorem ends_fromBytes_io (bytes : ByteMap) (cache : SharedPageCache World Store Identity) :
    Ends (fromBytes bytes) cache fun result _ => FailsOnlyByIo result := by
  simp only [fromBytes, ends_bind]
  exact ends_probe (failsOnlyByIo_ok _) failsOnlyByIo_io

theorem ends_duplicate_io (page : Nat) (cache : SharedPageCache World Store Identity) :
    Ends (duplicate page) cache fun result _ => FailsOnlyByIo result := by
  simp only [duplicate, ends_bind]
  refine ends_probe ?_ failsOnlyByIo_io
  rw [ends_get]
  exact ends_fromBytes_io _ _

variable [Std.TransOrd Identity] [ForkableNodeStore World Store Identity]

theorem ends_loadPage_io {cache : SharedPageCache World Store Identity} {id : CacheBranchId}
    {branch : CacheBranch Store} (found : cache.branches[id]? = some branch) (identity : Identity)
    (key : PageKey) :
    Ends (loadPage id identity key) cache fun result _ => FailsOnlyByIo result := by
  simp only [loadPage, ends_bind, ends_get]
  cases cache.pages[identity]? with
  | some page => exact failsOnlyByIo_ok page
  | none =>
    simp only [ends_bind]
    refine ends_askStore (fun _ bytes _ _ => ?_) failsOnlyByIo_io fun absent => by
      rw [found] at absent
      cases absent
    refine (ends_fromBytes_io _ _).mono fun result after failed => ?_
    cases result with
    | error error => exact failed
    | ok page => exact failsOnlyByIo_ok page

variable [DecidableEq Identity]

theorem branches_dropHidden (key : PageKey) (identity : Identity)
    (cache : SharedPageCache World Store Identity) :
    (dropHidden key identity cache).branches = cache.branches := by
  unfold dropHidden
  split <;> rfl

theorem ends_mapPage_closed {cache : SharedPageCache World Store Identity} {id : CacheBranchId}
    {node : NodeId} (closed : cache.opened id node = 0) (offset : Nat)
    (flags : MapFlags) :
    Ends (mapPage id node offset flags) cache fun result _ => ∃ error, result = .error error := by
  simp only [mapPage, ends_bind]
  refine ends_require.mpr ⟨fun _ => ?_, fun _ => ⟨_, rfl⟩⟩
  refine ends_require.mpr ⟨fun _ => ?_, fun _ => ⟨_, rfl⟩⟩
  refine ends_branchMut (fun branch found => ?_) fun _ => ⟨_, rfl⟩
  rw [opened_of_found found] at closed
  exact ends_require.mpr ⟨fun counted => absurd closed counted, fun _ => ⟨_, rfl⟩⟩

end Io

/-!
## What the operations claim
-/

variable {World Store Identity : Type} [Ord Identity] [Std.TransOrd Identity]
  [ForkableNodeStore World Store Identity] {claim : CacheBranchId → PageKey → Prop}

theorem framed_loadPage (id : CacheBranchId) (identity : Identity) (key : PageKey) :
    Moves (Frame claim) (loadPage id identity key : SharedM World Store Identity Nat) :=
  moves_loadPage_of (fun _ => framed_modify fun _ => rfl) key

theorem framed_copyPage [DecidableEq Identity] (id : CacheBranchId) (key : PageKey)
    (identity : Identity) (page : Nat) :
    Moves (Frame fun other claimed => other = id ∧ claimed = key)
      (copyPage id key identity page : SharedM World Store Identity Nat) := by
  refine moves_bind (moves_duplicate page) fun newPage => ?_
  refine moves_bind (framed_withStoreMut id _) fun newIdentity => ?_
  refine moves_bind (framed_modify fun _ => rfl) fun _ => ?_
  refine moves_bind (framed_modify (branches_dropHidden key identity)) fun _ => ?_
  refine moves_bind (fun cache => ?_) fun _ => moves_pure _
  refine frame_modifyBranch cache id (fun _ => rfl) (fun _ _ owned => ?_) fun _ other owned => ?_
  · exact ExtTreeSet.mem_insert.mpr (.inr owned)
  · rw [ExtTreeSet.mem_insert, Std.LawfulEqOrd.compare_eq_iff_eq] at owned
    exact owned.symm.imp_right fun same => ⟨rfl, same.symm⟩

theorem framed_mapPage [DecidableEq Identity] (id : CacheBranchId) (node offset : Nat)
    (flags : MapFlags) :
    Moves (Frame fun other key => flags.write ∧ other = id ∧ key = (node, offset))
      (mapPage id node offset flags : SharedM World Store Identity DaxPageMapping) := by
  refine moves_bind moves_require fun _ => moves_bind moves_require fun _ => ?_
  refine moves_bind (moves_branchMut id) fun branch => moves_bind moves_require fun _ => ?_
  refine moves_bind (moves_orIo _) fun identity => ?_
  refine moves_bind (framed_loadPage id _ _) fun page => ?_
  refine moves_bind moves_require fun _ => moves_bind ?_ fun _ => ?_
  · unfold pageFor
    split
    next copies =>
      intro cache
      refine (framed_copyPage id (node, offset) identity page cache).mono fun _ _ frame => ?_
      exact frame.mono fun _ _ claimed => ⟨(Bool.and_eq_true_iff.mp copies).1, claimed⟩
    next => exact moves_pure _
  · refine moves_bind (framed_modify fun _ => rfl) fun _ => ?_
    refine moves_bind (framed_modifyBranch id (fun _ => rfl) fun _ => rfl) fun _ => ?_
    exact moves_bind moves_get fun _ => moves_pure _

/-!
## Busy pages
-/

variable [FileView Store] [IdentityLedger World Identity] [StoreLedger World Store]
  {held : List DaxPageMapping} {cache : SharedPageCache World Store Identity}
  {id : CacheBranchId} {branch : CacheBranch Store}

theorem activeCount_pos_iff (good : Good held cache) (found : cache.branches[id]? = some branch)
    {key : PageKey} (aligned : Aligned key) {identity : Identity}
    (resolved : identityOf World branch.store key = some identity) {page : Nat}
    (resident : cache.pages[identity]? = some page) :
    branch.activeCount page > 0 ↔ ∃ mapping ∈ held, mapping.branch = id ∧ mapping.key = key := by
  obtain ⟨origin, sound⟩ := good.sound
  have foundView := branches_lineageOf found
  have resolvedView : (viewOf World branch).ident key = some identity := by
    rw [ident_viewOf aligned, resolved]
  constructor
  · intro counted
    have holding : Lineage.holders held id page ≠ 0 := by
      intro idle
      have active := sound.active_count id _ page foundView
      rw [if_pos idle] at active
      rw [CacheBranch.activeCount, show branch.activePages[page]? = none from active] at counted
      exact absurd counted (Nat.lt_irrefl 0)
    simp only [ne_eq, Lineage.holders_eq_zero, not_forall, Decidable.not_not] at holding
    obtain ⟨mapping, member, rfl, rfl⟩ := holding
    obtain ⟨alignedMapping, -, view, other, foundOther, resolvedOther, residentOther, -⟩ :=
      sound.held_backed mapping member
    have same := sound.page_unique resident residentOther
    subst same
    refine ⟨mapping, member, rfl, ?_⟩
    exact (sound.ident_origin foundOther alignedMapping
      resolvedOther).1.symm.trans
      (sound.ident_origin foundView aligned resolvedView).1
  · rintro ⟨mapping, member, rfl, rfl⟩
    obtain ⟨-, -, view, other, foundOther, resolvedOther, residentOther, -⟩ :=
      sound.held_backed mapping member
    cases foundView.symm.trans foundOther
    cases resolvedView.symm.trans resolvedOther
    have samePage : page = mapping.page := Option.some.inj (resident.symm.trans residentOther)
    subst samePage
    refine Nat.pos_of_ne_zero fun idle => ?_
    exact Lineage.holders_eq_zero.mp (holders_eq_zero_of_activeCount good found idle) mapping
      member rfl rfl

theorem ends_pageFor_io [DecidableEq Identity] (found : cache.branches[id]? = some branch)
    (key : PageKey) (identity : Identity) (page : Nat) (copyOnWrite : Bool) :
    Ends (pageFor id key identity page copyOnWrite) cache fun result _ => FailsOnlyByIo result := by
  cases copyOnWrite with
  | false => exact ends_pure.mpr (failsOnlyByIo_ok page)
  | true =>
    change Ends (copyPage id key identity page) cache _
    simp only [copyPage, ends_bind]
    refine ((ends_duplicate_io page cache).and (ends_duplicate page cache)).mono ?_
    rintro result middle ⟨failed, -, branches, -⟩
    cases result with
    | error error => exact failed
    | ok newPage =>
      refine ends_withStoreMut (fun _ _ => ends_of_forall fun prepared after => ?_)
        failsOnlyByIo_io fun absent => by
          rw [branches, found] at absent
          cases absent
      cases prepared with
      | error error => exact failsOnlyByIo_io error
      | ok newIdentity => exact failsOnlyByIo_ok newPage

/-- What `map_page` answers for a page of an open file: the host or the store fails it, or the
page is busy, or the mapping is given. -/
inductive Answers (held : List DaxPageMapping) (cache : SharedPageCache World Store Identity)
    (id : CacheBranchId) (key : PageKey) (flags : MapFlags) :
    Except CacheError DaxPageMapping → Prop where
  | failed (io : IoError) : Answers held cache id key flags (.error (.io io))
  | refused (writes : flags.write) (busy : Busy held cache id key) :
      Answers held cache id key flags (.error .pageBusy)
  | given (free : ¬ (flags.write ∧ Busy held cache id key)) (mapping : DaxPageMapping) :
      Answers held cache id key flags (.ok mapping)

/-- Of an open file, only a busy page is refused, unless the host or the store fails. -/
theorem ends_mapPage_answers [Std.LawfulEqOrd Identity] [DecidableEq Identity]
    [LawfulForkableStore World Store Identity] (good : Good held cache)
    (found : cache.branches[id]? = some branch)
    {node offset : Nat} {flags : MapFlags} (aligned : offset % pageSize = 0)
    (access : flags.read || flags.write) (open' : cache.opened id node ≠ 0) :
    Ends (mapPage id node offset flags) cache fun result _ =>
      Answers held cache id (node, offset) flags result := by
  have counted : branch.openCount node ≠ 0 := opened_of_found found node ▸ open'
  have exclusive : cache.Owns id (node, offset) ↔
      branch.exclusivePages.contains (node, offset) = true := by
    rw [ExtTreeSet.contains_iff_mem]
    constructor
    · rintro ⟨same, foundSame, owned⟩
      cases found.symm.trans foundSame
      exact owned
    · exact fun owned => ⟨branch, found, owned⟩
  have alignedKey : Aligned (node, offset) := aligned
  simp only [mapPage, ends_bind]
  refine ends_require.mpr ⟨fun _ => ?_, fun unaligned => absurd aligned unaligned⟩
  refine ends_require.mpr ⟨fun _ => ?_, fun none => absurd access none⟩
  refine ends_branchMut_of found ?_
  refine ends_require.mpr ⟨fun _ => ?_, fun closed => absurd counted closed⟩
  refine ends_orIo (fun identity answered => ?_) .failed
  have resolved : identityOf World branch.store (node, offset) = some identity := by
    rw [identityOf, answered]
    rfl
  refine ((ends_loadPage_io found identity (node, offset)).and
    (ends_loadPage good found alignedKey resolved)).mono ?_
  rintro loaded middle ⟨failed, goodMiddle, -, branches, resident⟩
  cases loaded with
  | error error =>
    obtain ⟨io, rfl⟩ := failed error rfl
    exact .failed io
  | ok page =>
    have foundMiddle : middle.branches[id]? = some branch := by rw [branches, found]
    have mapped := activeCount_pos_iff goodMiddle foundMiddle alignedKey resolved
      (resident page rfl)
    have refused : (flags.write && !branch.exclusivePages.contains (node, offset)) = true ∧
        branch.activeCount page > 0 ↔ flags.write ∧ Busy held cache id (node, offset) := by
      rw [mapped, Busy, exclusive, Bool.and_eq_true_iff, Bool.not_eq_true', Bool.not_eq_true,
        and_assoc]
    refine ends_require.mpr ⟨fun idle => ?_, fun busy => ?_⟩
    · refine (ends_pageFor_io foundMiddle (node, offset) identity page _).mono ?_
      intro chosen after failed
      cases chosen with
      | error error =>
        obtain ⟨io, rfl⟩ := failed error rfl
        exact .failed io
      | ok newPage => exact .given (fun busy => idle (refused.mpr busy)) _
    · obtain ⟨writes, busy⟩ := refused.mp (Decidable.not_not.mp busy)
      exact .refused writes busy

end SharedPageCache

end Minidox.Cache
