import Minidox.Cache.Shared.LineageBranches

/-!
# Operations on lineages

The lineage that a shared cache stands for, and what each operation of the cache
does to it.
-/

set_option autoImplicit false

namespace Minidox.Cache.SharedPageCache

open Foundation Attempt
open Std (ExtTreeMap)

section AllRegistered

variable {World Store Identity : Type} [StoreLedger World Store] {world : World}
  {branches : ExtTreeMap CacheBranchId (CacheBranch Store)} {branch : CacheBranch Store}
  {change : CacheBranch Store → CacheBranch Store}

def AllRegistered (world : World) (branches : ExtTreeMap CacheBranchId (CacheBranch Store)) :
    Prop :=
  ∀ (id : CacheBranchId) (branch : CacheBranch Store), branches[id]? = some branch →
    StoreLedger.Registered world branch.store

theorem AllRegistered.modify (registered : AllRegistered world branches) (id : CacheBranchId)
    (same : ∀ branch, (change branch).store = branch.store) :
    AllRegistered world (branches.modify id change) := by
  intro other branch found
  rw [ExtTreeMap.getElem?_modify] at found
  split at found
  next =>
    obtain ⟨old, foundOld, rfl⟩ := Option.map_eq_some_iff.mp found
    rw [same old]
    exact registered id old foundOld
  next => exact registered other branch found

theorem AllRegistered.setStore [IdentityLedger World Identity]
    (registered : AllRegistered world branches) (id : CacheBranchId)
    {pair : World × Store} (advanced : Advanced Store Identity world pair.1)
    (known : StoreLedger.Registered pair.1 pair.2) :
    AllRegistered pair.1 (branches.modify id fun branch => { branch with store := pair.2 }) := by
  intro other branch found
  rw [ExtTreeMap.getElem?_modify] at found
  split at found
  next =>
    obtain ⟨old, foundOld, rfl⟩ := Option.map_eq_some_iff.mp found
    exact known
  next => exact advanced.registered branch.store (registered other branch found)

theorem AllRegistered.insert (registered : AllRegistered world branches) (id : CacheBranchId)
    (known : StoreLedger.Registered world branch.store) :
    AllRegistered world (branches.insert id branch) := by
  intro other found there
  rw [TreeMap.getElem?_insert_ite] at there
  split at there
  next =>
    cases there
    exact known
  next => exact registered other found there

theorem AllRegistered.erase (registered : AllRegistered world branches) (id : CacheBranchId) :
    AllRegistered world (branches.erase id) := by
  intro other found there
  rw [TreeMap.getElem?_erase_ite, Option.ite_none_left_eq_some] at there
  exact registered other found there.2

end AllRegistered

section View

variable {World Store Identity : Type} [ForkableNodeStore World Store Identity] [FileView Store]

def viewOf (World : Type) {Store Identity : Type} [ForkableNodeStore World Store Identity]
    [FileView Store] (branch : CacheBranch Store) : LineageBranch Identity where
  ident key := if key.2 % pageSize = 0 then identityOf World branch.store key else none
  len := FileView.fileLen branch.store
  byte := FileView.fileByte branch.store
  exclusive key := key ∈ branch.exclusivePages
  dirty := branch.dirtyPages.IsDirty
  active page := branch.activePages[page]?

theorem ident_viewOf {branch : CacheBranch Store} {key : PageKey} (aligned : Aligned key) :
    (viewOf World branch : LineageBranch Identity).ident key =
      identityOf World branch.store key :=
  if_pos aligned

end View

variable {World Store Identity : Type} [Ord Identity] {α : Type}
  {cache : SharedPageCache World Store Identity} {id : CacheBranchId} {branch : CacheBranch Store}
  {change : CacheBranch Store → CacheBranch Store}

theorem ends_probe {post : Except CacheError Unit → SharedPageCache World Store Identity → Prop}
    (passed : post (.ok ()) { cache with faults := cache.faults.tail })
    (failed : ∀ fault, post (.error (.io fault)) { cache with faults := cache.faults.tail }) :
    Ends probe cache post := by
  simp only [probe, nextFault, ends_bind, ends_get, ends_set, ends_pure]
  cases cache.faults.head?.join with
  | none => exact passed
  | some fault => exact failed fault.error

theorem ends_branchMut
    {post : Except CacheError (CacheBranch Store) → SharedPageCache World Store Identity → Prop}
    (present : ∀ branch, cache.branches[id]? = some branch → post (.ok branch) cache)
    (absent : cache.branches[id]? = none → post (.error (.branchNotFound id)) cache) :
    Ends (branchMut id) cache post := by
  simp only [branchMut, ends_bind, ends_get]
  cases found : cache.branches[id]? with
  | none => exact absent found
  | some branch => exact present branch found

theorem ends_branchMut_of (found : cache.branches[id]? = some branch)
    {post : Except CacheError (CacheBranch Store) → SharedPageCache World Store Identity → Prop}
    (present : post (.ok branch) cache) : Ends (branchMut id) cache post := by
  simp only [branchMut, ends_bind, ends_get, found]
  exact present

@[simp] theorem ends_modifyBranch {change : CacheBranch Store → CacheBranch Store}
    {post : Except CacheError Unit → SharedPageCache World Store Identity → Prop} :
    Ends (modifyBranch id change) cache post ↔
      post (.ok ()) { cache with branches := cache.branches.modify id change } := Iff.rfl

theorem ends_withStoreMut {operation : Attempt (World × Store) IoError α}
    {post : Except CacheError α → SharedPageCache World Store Identity → Prop}
    (called : ∀ branch, cache.branches[id]? = some branch →
      Ends operation (cache.world, branch.store) fun result after =>
        post (result.mapError CacheError.io)
          (setStore id after { cache with faults := cache.faults.tail }))
    (failed : ∀ fault, post (.error (.io fault)) { cache with faults := cache.faults.tail })
    (absent : cache.branches[id]? = none → post (.error (.branchNotFound id)) cache) :
    Ends (withStoreMut id operation) cache post := by
  simp only [withStoreMut, ends_bind]
  refine ends_branchMut (fun branch found => ?_) absent
  refine ends_probe ?_ failed
  simp only [ends_within]
  exact called branch found

theorem ends_askStore {question : Store → Except IoError α}
    {post : Except CacheError α → SharedPageCache World Store Identity → Prop}
    (returned : ∀ branch value, cache.branches[id]? = some branch →
      question branch.store = .ok value →
      post (.ok value) { cache with faults := cache.faults.tail })
    (failed : ∀ fault, post (.error (.io fault)) { cache with faults := cache.faults.tail })
    (absent : cache.branches[id]? = none → post (.error (.branchNotFound id)) cache) :
    Ends (askStore id question) cache post := by
  simp only [askStore, ends_bind]
  refine ends_branchMut (fun branch found => ?_) absent
  refine ends_probe ?_ failed
  exact ends_orIo (fun value answered => returned branch value found answered) failed

/-- A change of a branch that leaves its store, its open counts and its exclusive pages. -/
structure Bookkeeps (change : CacheBranch Store → CacheBranch Store) : Prop where
  store : ∀ branch, (change branch).store = branch.store
  opens : ∀ branch, (change branch).openNodes = branch.openNodes
  owns : ∀ branch, (change branch).exclusivePages = branch.exclusivePages

class OfBranches (relation : SharedPageCache World Store Identity →
    SharedPageCache World Store Identity → Prop) : Prop extends Std.Refl relation,
    IsTrans _ relation where
  of_branches : ∀ {before after : SharedPageCache World Store Identity},
    after.branches = before.branches → after.pages = before.pages →
      after.knownPages = before.knownPages → (∀ fault ∈ after.faults, fault ∈ before.faults) →
      relation before after

variable {relation : SharedPageCache World Store Identity →
  SharedPageCache World Store Identity → Prop}

theorem moves_branchMut [Std.Refl relation] (id : CacheBranchId) :
    Moves relation (branchMut id : SharedM World Store Identity (CacheBranch Store)) :=
  fun cache => ends_branchMut (fun _ _ => Std.Refl.refl cache) fun _ => Std.Refl.refl cache

theorem moves_unmap_of [Std.Refl relation] [IsTrans _ relation]
    (changes : ∀ {change}, Bookkeeps change →
      Moves relation (modifyBranch id change : SharedM World Store Identity Unit))
    (mapping : DaxPageMapping) :
    Moves relation (unmap id mapping : SharedM World Store Identity Unit) := by
  refine moves_bind moves_get fun _ => moves_bind moves_require fun _ => ?_
  refine moves_bind (moves_branchMut id) fun branch => ?_
  cases branch.activePages[mapping.page]? with
  | none => exact moves_throw _
  | some count =>
    change Moves relation (unmapCounted id mapping count)
    unfold unmapCounted
    cases Word64.checkedSub count 1 with
    | none => exact moves_throw _
    | some left =>
      exact moves_bind (changes ⟨fun _ => rfl, fun _ => rfl, fun _ => rfl⟩) fun _ =>
        moves_onlyIf (changes ⟨fun _ => rfl, fun _ => rfl, fun _ => rfl⟩)

variable [OfBranches relation]

theorem OfBranches.tail (cache : SharedPageCache World Store Identity) :
    relation cache { cache with faults := cache.faults.tail } :=
  OfBranches.of_branches rfl rfl rfl fun _ member => List.mem_of_mem_tail member

theorem moves_probe : Moves relation (probe : SharedM World Store Identity Unit) :=
  fun cache => ends_probe (OfBranches.tail cache) fun _ => OfBranches.tail cache

theorem moves_askStore (id : CacheBranchId) (question : Store → Except IoError α) :
    Moves relation (askStore id question : SharedM World Store Identity α) :=
  fun cache => ends_askStore (fun _ _ _ _ => OfBranches.tail cache) (fun _ => OfBranches.tail cache)
    fun _ => Std.Refl.refl cache

theorem moves_fromBytes (bytes : ByteMap) :
    Moves relation (fromBytes bytes : SharedM World Store Identity Nat) :=
  moves_bind moves_probe fun _ _ => OfBranches.of_branches rfl rfl rfl fun _ member => member

theorem moves_duplicate (page : Nat) :
    Moves relation (duplicate page : SharedM World Store Identity Nat) :=
  moves_bind moves_probe fun _ => moves_bind moves_get fun _ => moves_fromBytes _

theorem moves_writePage (page place : Nat) (data : List UInt8) :
    Moves relation (writePage page place data : SharedM World Store Identity Unit) := by
  intro cache
  simp only [writePage, nextFault, ends_bind, ends_get, ends_set, ends_pure]
  cases cache.faults.head?.join with
  | none => exact OfBranches.of_branches rfl rfl rfl fun _ member => List.mem_of_mem_tail member
  | some fault =>
    exact OfBranches.of_branches rfl rfl rfl fun _ member => List.mem_of_mem_tail member

variable [Std.TransOrd Identity] [ForkableNodeStore World Store Identity]

theorem moves_loadPage_of {identity : Identity} (enters : ∀ page,
      Moves relation (modify fun cache => { cache with pages := cache.pages.insert identity page } :
        SharedM World Store Identity PUnit)) (key : PageKey) :
    Moves relation (loadPage id identity key : SharedM World Store Identity Nat) := by
  refine moves_bind moves_get fun cache => ?_
  cases cache.pages[identity]? with
  | some page => exact moves_pure _
  | none =>
    refine moves_bind (moves_askStore id _) fun _ => moves_bind (moves_fromBytes _) fun page => ?_
    exact moves_bind (enters page) fun _ => moves_pure _

theorem moves_syncPages_of (changes : ∀ {change}, Bookkeeps change →
      Moves relation (modifyBranch id change : SharedM World Store Identity Unit))
    (writes : ∀ (node offset : Nat) (data : List UInt8), Moves relation
      (withStoreMut id (NodeStore.writeNode node offset data) : SharedM World Store Identity Nat))
    (keys : List PageKey) :
    Moves relation (syncPages id keys : SharedM World Store Identity Unit) := by
  have cleans : ∀ key, Moves relation (markClean id key : SharedM World Store Identity Unit) :=
    fun _ => changes ⟨fun _ => rfl, fun _ => rfl, fun _ => rfl⟩
  refine moves_forM fun key _ => moves_bind (moves_askStore id _) fun length => ?_
  refine moves_ite (cleans key) ?_
  refine moves_bind (moves_branchMut id) fun branch => moves_bind (moves_orIo _) fun identity => ?_
  refine moves_bind moves_get fun cache => ?_
  cases cache.pages[identity]? with
  | none => exact moves_throw _
  | some page =>
    refine moves_bind moves_probe fun _ => moves_bind (writes _ _ _) fun _ => ?_
    exact moves_bind moves_require fun _ => cleans key

variable [FileView Store] [IdentityLedger World Identity]

def lineageOf (cache : SharedPageCache World Store Identity) : Lineage Identity where
  nextBranch := cache.nextBranch
  branches id := cache.branches[id]?.map (viewOf World)
  pages identity := cache.pages[identity]?
  known key := key ∈ cache.knownPages
  contents := cache.contents
  nextPageId := cache.nextPageId
  issued := IdentityLedger.Issued cache.world

theorem branches_lineageOf (found : cache.branches[id]? = some branch) :
    (lineageOf cache).branches id = some (viewOf World branch) := by
  simp [lineageOf, found]

theorem lineageOf_modifyBranch (found : cache.branches[id]? = some branch)
    (change : CacheBranch Store → CacheBranch Store) :
    lineageOf { cache with branches := cache.branches.modify id change } =
      (lineageOf cache).setBranch id (viewOf World (change branch)) := by
  simp only [lineageOf, Lineage.setBranch, Lineage.mk.injEq, true_and, and_true]
  funext other
  rw [Function.update_apply, ExtTreeMap.getElem?_modify]
  by_cases here : other = id
  · simp [here, found]
  · simp [here, Ne.symm here]

theorem lineageOf_setStore (found : cache.branches[id]? = some branch) (pair : World × Store) :
    lineageOf (setStore id pair cache) =
      { (lineageOf cache).setBranch id (viewOf World { branch with store := pair.2 }) with
        issued := IdentityLedger.Issued pair.1 } := by
  have modified := lineageOf_modifyBranch found fun state => { state with store := pair.2 }
  exact congrArg (fun lineage => { lineage with issued := IdentityLedger.Issued pair.1 }) modified

theorem lineageOf_insertPage [Std.LawfulEqOrd Identity] [DecidableEq Identity]
    (cache : SharedPageCache World Store Identity) (identity : Identity) (page : Nat) :
    (lineageOf { cache with pages := cache.pages.insert identity page }).pages =
      Function.update (lineageOf cache).pages identity (some page) := by
  funext other
  simp only [lineageOf, Function.update_apply, ExtTreeMap.getElem?_insert]
  by_cases here : other = identity
  · simp [here]
  · have apart : ¬ compare identity other = .eq := by
      rw [Std.LawfulEqOrd.compare_eq_iff_eq]
      exact Ne.symm here
    simp [here, apart]

variable [StoreLedger World Store]

/-- The lineage is sound, the mappings are of this cache, and the stores know only
identities that were given out. -/
structure Good (held : List DaxPageMapping) (cache : SharedPageCache World Store Identity) :
    Prop where
  sound : (lineageOf cache).Sound held
  owner : ∀ mapping ∈ held, mapping.cacheId = cache.id
  registered : AllRegistered cache.world cache.branches

theorem Good.perm {held others : List DaxPageMapping}
    (good : Good held cache) (perm : held.Perm others) : Good others cache := by
  obtain ⟨origin, sound⟩ := good.sound
  exact ⟨⟨origin, sound.perm perm⟩, fun mapping member =>
    good.owner mapping (perm.mem_iff.mpr member), good.registered⟩

/-!
## Operations that nobody sees
-/

def Grown (before after : SharedPageCache World Store Identity) : Prop :=
  after.id = before.id ∧ (lineageOf before).Grows (lineageOf after) ∧
    (AllRegistered before.world before.branches → AllRegistered after.world after.branches)

instance : @Std.Refl (SharedPageCache World Store Identity) Grown :=
  ⟨fun cache => ⟨rfl, Lineage.grows_refl (lineageOf cache), fun registered => registered⟩⟩

instance : IsTrans (SharedPageCache World Store Identity) Grown :=
  ⟨fun _ _ _ before after => ⟨after.1.trans before.1, before.2.1.trans after.2.1,
    fun registered => after.2.2 (before.2.2 registered)⟩⟩

theorem Grown.good {held : List DaxPageMapping}
    {before after : SharedPageCache World Store Identity}
    (grown : Grown before after) (good : Good held before) : Good held after := by
  obtain ⟨origin, sound⟩ := good.sound
  exact ⟨⟨origin, sound.grow grown.2.1⟩, fun mapping member =>
    (good.owner mapping member).trans grown.1.symm, grown.2.2 good.registered⟩

theorem Grown.sameView {held : List DaxPageMapping}
    {before after : SharedPageCache World Store Identity} (grown : Grown before after)
    (good : Good held before) : (lineageOf before).SameView (lineageOf after) := by
  obtain ⟨origin, sound⟩ := good.sound
  exact sound.sameView_grow grown.2.1

theorem grown_faults (cache : SharedPageCache World Store Identity) (faults : Faults) :
    Grown cache { cache with faults } :=
  ⟨rfl, Lineage.grows_refl _, fun registered => registered⟩

theorem moves_otherPages (count : Nat) :
    Moves Grown (otherPages count : SharedM World Store Identity Unit) :=
  moves_modify fun cache => ⟨rfl, { Lineage.grows_refl (lineageOf cache) with
    nextPageId := Nat.le_add_right _ _ }, fun registered => registered⟩

theorem grown_modifyBranch (cache : SharedPageCache World Store Identity) (id : CacheBranchId)
    (same : ∀ branch, (viewOf World (change branch) : LineageBranch Identity) =
      viewOf World branch) (store : ∀ branch, (change branch).store = branch.store) :
    Grown cache { cache with branches := cache.branches.modify id change } := by
  refine ⟨rfl, { Lineage.grows_refl (lineageOf cache) with branches := ?_ },
    fun registered => registered.modify id store⟩
  funext other
  simp only [lineageOf, ExtTreeMap.getElem?_modify]
  by_cases here : id = other
  · subst here
    cases cache.branches[id]? with
    | none => simp
    | some branch => simp [same]
  · simp [here]

theorem grown_setStore (found : cache.branches[id]? = some branch)
    {after : World × Store} (files : SameFiles after.2 branch.store)
    (identities : ∀ key, Aligned key →
      identityOf World after.2 key = identityOf World branch.store key)
    (ledger : Advanced Store Identity cache.world after.1)
    (known : StoreLedger.Registered cache.world branch.store →
      StoreLedger.Registered after.1 after.2) :
    Grown cache (setStore id after cache) := by
  have same : (viewOf World { branch with store := after.2 } : LineageBranch Identity) =
      viewOf World branch := by
    simp only [viewOf, LineageBranch.mk.injEq, and_true]
    refine ⟨?_, files.1, files.2⟩
    funext key
    by_cases aligned : Aligned key
    · rw [identities key aligned]
    · exact (if_neg aligned).trans (if_neg aligned).symm
  refine ⟨rfl, ?_, fun registered =>
    registered.setStore id ledger (known (registered id branch found))⟩
  rw [lineageOf_setStore found, same]
  refine { Lineage.grows_refl (lineageOf cache) with branches := ?_, issued := ledger.issued }
  funext other
  simp only [Lineage.setBranch, Function.update_apply]
  by_cases here : other = id
  · rw [if_pos here, here, branches_lineageOf found]
  · rw [if_neg here]

theorem moves_modifyBranch (id : CacheBranchId)
    (same : ∀ branch, (viewOf World (change branch) : LineageBranch Identity) =
      viewOf World branch) (store : ∀ branch, (change branch).store = branch.store) :
    Moves Grown (modifyBranch id change : SharedM World Store Identity Unit) :=
  fun cache => grown_modifyBranch cache id same store

theorem moves_withStoreMut (id : CacheBranchId) {operation : Attempt (World × Store) IoError α}
    (untouched : ∀ world store, operation.Ends (world, store) fun _ after =>
      Untouched (world, store) after) :
    Moves Grown (withStoreMut id operation : SharedM World Store Identity α) := by
  intro cache
  refine ends_withStoreMut ?_ (fun _ => grown_faults cache _) fun _ => Std.Refl.refl cache
  intro branch found
  refine (untouched cache.world branch.store).mono ?_
  intro _ after kept
  exact IsTrans.trans _ _ _ (grown_faults cache cache.faults.tail) (grown_setStore found
    kept.files (fun key _ => kept.identities key) kept.ledger kept.registered)

variable [LawfulForkableStore World Store Identity]

theorem moves_openNode (id : CacheBranchId) (node : NodeId) :
    Moves Grown (openNode id node : SharedM World Store Identity Unit) := by
  refine moves_bind (moves_branchMut id) fun state => ?_
  refine moves_bind (moves_modifyBranch id (fun _ => rfl) fun _ => rfl) fun _ => ?_
  refine moves_bind (moves_onlyIf (moves_withStoreMut id
    (LawfulForkableStore.onOpenNode_untouched node))) fun _ => ?_
  exact moves_bind (moves_orInvalid _ _) fun count =>
    moves_modifyBranch id (fun _ => rfl) fun _ => rfl

theorem moves_close (id : CacheBranchId) (node : NodeId) :
    Moves Grown (close id node : SharedM World Store Identity Unit) := by
  refine moves_bind (moves_branchMut id) fun state => ?_
  cases state.openNodes[node]? with
  | none => exact moves_throw _
  | some count =>
    refine moves_bind (moves_orInvalid _ _) fun left => ?_
    refine moves_bind (moves_modifyBranch id (fun _ => rfl) fun _ => rfl) fun _ => ?_
    exact moves_onlyIf (moves_withStoreMut id (LawfulForkableStore.onCloseNode_untouched node))

end Minidox.Cache.SharedPageCache
