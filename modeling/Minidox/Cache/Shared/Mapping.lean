import Minidox.Cache.Shared.Operations

/-!
# Mapping a page

A page that a client maps is resident, and is a page of the branch alone when the
client may write.
-/

set_option autoImplicit false

namespace Minidox.Cache.SharedPageCache

open Foundation Attempt
open Std (ExtTreeMap ExtTreeSet)

variable {World Store Identity : Type} {held : List DaxPageMapping} {branch : CacheBranch Store}
  {id : CacheBranchId} {key : PageKey} {identity : Identity}

theorem getElem?_setActive (branch : CacheBranch Store) (page count other : Nat) :
    (branch.setActive page count).activePages[other]? =
      if other = page then (if count = 0 then none else some count)
      else branch.activePages[other]? := by
  unfold CacheBranch.setActive
  by_cases last : count = 0
  · by_cases here : other = page
    · simp [last, here]
    · simp [last, here, ExtTreeMap.getElem?_erase, Ne.symm here]
  · by_cases here : other = page
    · simp [last, here]
    · simp [last, here, ExtTreeMap.getElem?_insert, Ne.symm here]

section View

variable [ForkableNodeStore World Store Identity] [FileView Store]

theorem viewOf_ownPage {store : Store} (aligned : Aligned key)
    (files : SameFiles store branch.store) (others : ∀ other, Aligned other → other ≠ key →
      identityOf World store other = identityOf World branch.store other)
    (prepared : identityOf World store key = some identity) :
    (viewOf World
      { branch with store, exclusivePages := branch.exclusivePages.insert key } :
      LineageBranch Identity) =
      { viewOf World branch with
        ident := Function.update (viewOf World branch).ident key (some identity)
        exclusive := fun other => other = key ∨ (viewOf World branch).exclusive other } := by
  simp only [viewOf, LineageBranch.mk.injEq, and_true]
  refine ⟨?_, files.1, files.2, ?_⟩
  · funext other
    by_cases here : other = key
    · subst here
      rw [Function.update_self]
      exact (if_pos aligned).trans prepared
    · rw [Function.update_of_ne here]
      by_cases alignedOther : Aligned other
      · rw [others other alignedOther here]
      · exact (if_neg alignedOther).trans (if_neg alignedOther).symm
  · funext other
    rw [ExtTreeSet.mem_insert, Std.LawfulEqOrd.compare_eq_iff_eq, @eq_comm _ key]

end View

variable [Ord Identity] {cache : SharedPageCache World Store Identity}

theorem ends_unmap_other (cache : SharedPageCache World Store Identity) {mapping : DaxPageMapping}
    (other : mapping.branch ≠ id) :
    Ends (unmap id mapping) cache fun result after =>
      result = .error .staleMapping ∧ after = cache := by
  simp only [unmap, ends_bind, ends_get, ends_require]
  exact ⟨fun both => absurd both.2 other, fun _ => ⟨trivial, trivial⟩⟩

def takePage [Std.TransOrd Identity] (id : CacheBranchId) (key : PageKey) (identity : Identity)
    (page : Nat) (pair : World × Store) (cache : SharedPageCache World Store Identity) :
    SharedPageCache World Store Identity :=
  { setStore id pair cache with
    pages := cache.pages.insert identity page
    branches := (setStore id pair cache).branches.modify id fun state =>
      { state with exclusivePages := state.exclusivePages.insert key } }

theorem branches_takePage [Std.TransOrd Identity] (found : cache.branches[id]? = some branch)
    (key : PageKey) (identity : Identity) (page : Nat) (pair : World × Store)
    (other : CacheBranchId) :
    (takePage id key identity page pair cache).branches[other]? =
      if other = id then
        some { branch with store := pair.2, exclusivePages := branch.exclusivePages.insert key }
      else cache.branches[other]? := by
  simp only [takePage, setStore, ExtTreeMap.getElem?_modify]
  by_cases here : other = id
  · simp [here, found]
  · simp [here, Ne.symm here]

variable [ForkableNodeStore World Store Identity]

theorem identityIsVisible_iff [DecidableEq Identity] : cache.identityIsVisible key identity ↔
      ∃ (id : CacheBranchId) (branch : CacheBranch Store), cache.branches[id]? = some branch ∧
        identityOf World branch.store key = some identity := by
  simp only [identityIsVisible, List.any_eq_true, decide_eq_true_eq]
  constructor
  · rintro ⟨branch, member, resolved⟩
    obtain ⟨id, found⟩ := TreeMap.mem_values.mp member
    exact ⟨id, branch, found, resolved⟩
  · rintro ⟨id, branch, found, resolved⟩
    exact ⟨branch, TreeMap.mem_values.mpr ⟨id, found⟩, resolved⟩

theorem identityIsVisible_modify [DecidableEq Identity]
    (cache : SharedPageCache World Store Identity) (id : CacheBranchId)
    {change : CacheBranch Store → CacheBranch Store}
    (same : ∀ branch, (change branch).store = branch.store) (key : PageKey) (identity : Identity) :
    ({ cache with branches := cache.branches.modify id change } :
      SharedPageCache World Store Identity).identityIsVisible key identity =
      cache.identityIsVisible key identity := by
  rw [Bool.eq_iff_iff, identityIsVisible_iff, identityIsVisible_iff]
  simp only [ExtTreeMap.getElem?_modify]
  constructor
  · rintro ⟨other, branch, found, resolved⟩
    split at found
    next =>
      obtain ⟨old, foundOld, rfl⟩ := Option.map_eq_some_iff.mp found
      exact ⟨id, old, foundOld, by rw [← same old, resolved]⟩
    next => exact ⟨other, branch, found, resolved⟩
  · rintro ⟨other, branch, found, resolved⟩
    by_cases here : id = other
    · subst here
      exact ⟨id, change branch, by simp [found], by rw [same branch, resolved]⟩
    · exact ⟨other, branch, by simp [here, found], resolved⟩

variable [Std.TransOrd Identity]

/-- A branch resolves a key to a resident page, as its own one if it may write. -/
def Pinned (cache : SharedPageCache World Store Identity) (id : CacheBranchId) (key : PageKey)
    (write : Bool) (page : Nat) : Prop :=
  ∃ (branch : CacheBranch Store) (identity : Identity), cache.branches[id]? = some branch ∧
    identityOf World branch.store key = some identity ∧ cache.pages[identity]? = some page ∧
    (write → key ∈ branch.exclusivePages)

theorem modify_dropHidden [DecidableEq Identity]
    {cache dropped : SharedPageCache World Store Identity}
    (drop : dropped = dropHidden key identity cache) (id : CacheBranchId)
    (change : CacheBranch Store → CacheBranch Store)
    (same : ∀ branch, (change branch).store = branch.store) :
    { dropped with branches := dropped.branches.modify id change } =
      dropHidden key identity { cache with branches := cache.branches.modify id change } := by
  subst drop
  unfold dropHidden
  rw [identityIsVisible_modify cache id same]
  split <;> rfl

variable [FileView Store] [IdentityLedger World Identity]

theorem lineageOf_modifyBranch_twice (found : cache.branches[id]? = some branch)
    (first second : CacheBranch Store → CacheBranch Store) :
    lineageOf { cache with branches := (cache.branches.modify id first).modify id second } =
      (lineageOf cache).setBranch id (viewOf World (second (first branch))) := by
  have foundFirst : ({ cache with branches := cache.branches.modify id first } :
      SharedPageCache World Store Identity).branches[id]? = some (first branch) := by
    simp [found]
  refine (lineageOf_modifyBranch foundFirst second).trans ?_
  rw [lineageOf_modifyBranch found, Lineage.setBranch, Lineage.setBranch, Function.update_idem]
  rfl

theorem good_evictHidden [Std.LawfulEqOrd Identity] [DecidableEq Identity]
    {origin : Lineage.Origin Identity}
    (sound : Lineage.SoundFrom origin held (lineageOf cache)) (home : origin.home identity = key)
    (hidden : ¬ cache.identityIsVisible key identity) :
    (lineageOf { cache with pages := cache.pages.erase identity }).Sound held ∧
      (lineageOf cache).SameView
        (lineageOf { cache with pages := cache.pages.erase identity }) := by
  have subset : ∀ (other : Identity) page, (cache.pages.erase identity)[other]? = some page →
      cache.pages[other]? = some page := by
    intro other page kept
    rw [ExtTreeMap.getElem?_erase] at kept
    split at kept
    next => cases kept
    next => exact kept
  have dropped : ∀ (other : Identity) id branch otherKey,
      (cache.pages.erase identity)[other]? = none →
      (∃ page, cache.pages[other]? = some page) → (lineageOf cache).branches id = some branch →
      Aligned otherKey → branch.ident otherKey = some other →
        ¬ (lineageOf cache).known otherKey := by
    rintro other id branch otherKey missing ⟨page, resident⟩ found aligned resolved
    rw [ExtTreeMap.getElem?_erase] at missing
    split at missing
    next same =>
      obtain rfl := Std.LawfulEqOrd.compare_eq_iff_eq.mp same
      obtain ⟨homeKey, -⟩ := sound.ident_origin found aligned resolved
      obtain rfl : otherKey = key := homeKey.symm.trans home
      simp only [lineageOf, Option.map_eq_some_iff] at found
      obtain ⟨state, foundState, rfl⟩ := found
      refine absurd (identityIsVisible_iff.mpr ⟨id, state, foundState, ?_⟩) hidden
      rw [← ident_viewOf aligned, resolved]
    next =>
      rw [missing] at resident
      cases resident
  exact ⟨⟨_, sound.evict subset dropped⟩, sound.sameView_evict subset dropped⟩

/-!
## Holding a mapping and giving it back
-/

variable [StoreLedger World Store]

theorem ends_unmap (good : Good held cache) {mapping : DaxPageMapping} (member : mapping ∈ held) :
    Ends (unmap mapping.branch mapping) cache fun result after =>
      result = .ok () ∧ Good (held.erase mapping) after ∧
        (lineageOf cache).SameView (lineageOf after) := by
  obtain ⟨origin, sound⟩ := good.sound
  obtain ⟨-, -, view, identity, foundView, -, -, -⟩ := sound.held_backed mapping member
  obtain ⟨branch, found, rfl⟩ := Option.map_eq_some_iff.mp foundView
  have positive : Lineage.holders held mapping.branch mapping.page ≠ 0 := by
    intro none
    exact Lineage.holders_eq_zero.mp none mapping member rfl rfl
  have counted := sound.active_count mapping.branch _ mapping.page foundView
  rw [if_neg positive] at counted
  have subtracted : Word64.checkedSub (Lineage.holders held mapping.branch mapping.page) 1 =
      some (Lineage.holders held mapping.branch mapping.page - 1) :=
    if_pos (Nat.one_le_iff_ne_zero.mpr positive)
  simp only [unmap, ends_bind, ends_get, ends_require]
  refine ⟨fun _ => ?_, fun other => absurd ⟨good.owner mapping member, trivial⟩ other⟩
  refine ends_branchMut_of found ?_
  dsimp only
  rw [show branch.activePages[mapping.page]? = _ from counted]
  simp only [unmapCounted, subtracted, ends_bind, ends_modifyBranch, ends_onlyIf]
  have active : ∀ page, (branch.setActive mapping.page
      (Lineage.holders held mapping.branch mapping.page - 1)).activePages[page]? =
      if page = mapping.page then
        (if Lineage.holders held mapping.branch page = 1 then none
          else some (Lineage.holders held mapping.branch page - 1))
      else branch.activePages[page]? := by
    intro page
    rw [getElem?_setActive]
    by_cases here : page = mapping.page
    · simp only [here, if_true]
      exact if_congr (by omega) rfl rfl
    · simp only [here, if_false]
  have owners : ∀ other ∈ held.erase mapping, other.cacheId = cache.id :=
    fun other left => good.owner other (List.mem_of_mem_erase left)
  have registered := good.registered.modify mapping.branch fun state =>
    show (state.setActive mapping.page
      (Lineage.holders held mapping.branch mapping.page - 1)).store = state.store from rfl
  refine ⟨fun writable => ⟨trivial, ⟨⟨origin, ?_⟩, owners,
      registered.modify mapping.branch fun _ => rfl⟩, ?_⟩,
    fun readable => ⟨trivial, ⟨⟨origin, ?_⟩, owners, registered⟩, ?_⟩⟩
  · rw [lineageOf_modifyBranch_twice found]
    refine sound.release member foundView ⟨rfl, rfl, rfl, fun _ owned => owned⟩ rfl ?_ active
    intro key
    simp only [viewOf, DirtyBranch.isDirty_markDirty, CacheBranch.setActive, writable, true_and,
      @eq_comm _ key]
  · rw [lineageOf_modifyBranch_twice found]
    exact Lineage.sameView_setBranch foundView ⟨rfl, rfl, rfl, fun _ owned => owned⟩
  · rw [lineageOf_modifyBranch found]
    refine sound.release member foundView ⟨rfl, rfl, rfl, fun _ owned => owned⟩ rfl ?_ active
    intro key
    simp [viewOf, CacheBranch.setActive, readable]
  · rw [lineageOf_modifyBranch found]
    exact Lineage.sameView_setBranch foundView ⟨rfl, rfl, rfl, fun _ owned => owned⟩

theorem holders_eq_zero_of_activeCount (good : Good held cache)
    (found : cache.branches[id]? = some branch) {page : Nat} (idle : branch.activeCount page = 0) :
    Lineage.holders held id page = 0 := by
  obtain ⟨origin, sound⟩ := good.sound
  have counted := sound.active_count id _ page (branches_lineageOf found)
  change branch.activePages[page]? = _ at counted
  rw [CacheBranch.activeCount, counted] at idle
  by_contra held
  rw [if_neg held] at idle
  exact held idle

theorem good_hold (good : Good held cache) (mapping : DaxPageMapping)
    (owner : mapping.cacheId = cache.id) (aligned : Aligned mapping.key)
    (pinned : cache.Pinned mapping.branch mapping.key mapping.flags.write mapping.page) :
    Good (mapping :: held)
        { cache with
          knownPages := cache.knownPages.insert mapping.key
          branches := cache.branches.modify mapping.branch fun branch =>
            branch.addActive mapping.page } ∧
      (lineageOf cache).SameView
        (lineageOf { cache with
          knownPages := cache.knownPages.insert mapping.key
          branches := cache.branches.modify mapping.branch fun branch =>
            branch.addActive mapping.page }) := by
  obtain ⟨branch, identity, found, resolved, resident, exclusive⟩ := pinned
  obtain ⟨origin, sound⟩ := good.sound
  have known : lineageOf { cache with knownPages := cache.knownPages.insert mapping.key } =
      { lineageOf cache with
        known := fun other => other = mapping.key ∨ (lineageOf cache).known other } := by
    simp only [lineageOf, Lineage.mk.injEq, true_and, and_true]
    funext other
    rw [ExtTreeSet.mem_insert, Std.LawfulEqOrd.compare_eq_iff_eq, @eq_comm _ other]
  have foundKnown : ({ cache with knownPages := cache.knownPages.insert mapping.key } :
      SharedPageCache World Store Identity).branches[mapping.branch]? = some branch := found
  have counted := lineageOf_modifyBranch foundKnown fun branch => branch.addActive mapping.page
  have same : Lineage.SameStore (viewOf World branch : LineageBranch Identity)
      (viewOf World (branch.addActive mapping.page)) := ⟨rfl, rfl, rfl, fun _ owned => owned⟩
  have backed : ({ lineageOf cache with
      known := fun other => other = mapping.key ∨ (lineageOf cache).known other } :
      Lineage Identity).Backed mapping :=
    ⟨aligned, .inl rfl, viewOf World branch, identity, branches_lineageOf found,
      by rw [ident_viewOf aligned, resolved], resident, exclusive⟩
  have held := (sound.know mapping.key).hold (branches_lineageOf found) backed same rfl rfl
    (fun page => ?_)
  · refine ⟨⟨⟨origin, ?_⟩, ?_, good.registered.modify mapping.branch fun _ => rfl⟩, ?_⟩
    · rw [counted, known]
      exact held
    · intro other member
      rcases List.mem_cons.mp member with rfl | old
      · exact owner
      · exact good.owner other old
    · rw [counted, known]
      refine (Lineage.sameView_know _ _).trans (Lineage.sameView_setBranch ?_ same)
      exact branches_lineageOf found
  · simp only [viewOf, CacheBranch.addActive, CacheBranch.activeCount,
      ExtTreeMap.getElem?_insert, Std.LawfulEqOrd.compare_eq_iff_eq, @eq_comm _ page]
    split
    next here => rw [here]
    next => rfl

/-!
## Loading and copying
-/

theorem ends_fromBytes (bytes : ByteMap) (cache : SharedPageCache World Store Identity) :
    Ends (fromBytes bytes) cache fun result after => Grown cache after ∧
      (∀ fault, result = .error fault → after = { cache with faults := cache.faults.tail }) ∧
      ∀ page, result = .ok page → page = cache.nextPageId ∧ after =
        { cache with
          faults := cache.faults.tail
          nextPageId := cache.nextPageId + 1
          contents := Function.update cache.contents cache.nextPageId bytes } := by
  simp only [fromBytes, ends_bind]
  refine ends_probe ?_ fun fault => ⟨grown_faults cache _, fun _ _ => rfl, not_ok⟩
  change _ ∧ _ ∧ _
  refine ⟨⟨rfl, ?_, fun registered => registered⟩, not_error, fun page returned => ?_⟩
  · refine { Lineage.grows_refl (lineageOf cache) with
      contents := ?_, nextPageId := Nat.le_succ _ }
    intro page old
    exact Function.update_of_ne (Nat.ne_of_lt old) _ _
  · cases returned
    exact ⟨rfl, rfl⟩

theorem ends_duplicate (page : Nat) (cache : SharedPageCache World Store Identity) :
    Ends (duplicate page) cache fun result after => Grown cache after ∧
      after.branches = cache.branches ∧ after.pages = cache.pages ∧ after.world = cache.world ∧
      ∀ newPage, result = .ok newPage → newPage = cache.nextPageId ∧
        newPage < after.nextPageId ∧ after.contents newPage = cache.contents page := by
  simp only [duplicate, ends_bind]
  refine ends_probe ?_ fun _ =>
    ⟨grown_faults cache _, rfl, rfl, rfl, not_ok⟩
  rw [ends_get]
  refine (ends_fromBytes (cache.contents page) { cache with faults := cache.faults.tail }).mono ?_
  rintro result after ⟨grown, failed, made⟩
  refine ⟨IsTrans.trans _ _ _ (grown_faults cache cache.faults.tail) grown, ?_⟩
  cases result with
  | error error =>
    rw [failed error rfl]
    exact ⟨rfl, rfl, rfl, not_ok⟩
  | ok newPage =>
    obtain ⟨rfl, rfl⟩ := made newPage rfl
    refine ⟨rfl, rfl, rfl, fun _ returned => ?_⟩
    cases returned
    exact ⟨rfl, Nat.lt_succ_self _, Function.update_self ..⟩

variable [Std.LawfulEqOrd Identity] [DecidableEq Identity]
  {newIdentity : Identity} {page newPage : Nat} {pair : World × Store}

theorem grows_takePage (found : cache.branches[id]? = some branch) (page : Nat)
    {pair : World × Store} (aligned : Aligned key) (files : SameFiles pair.2 branch.store)
    (others : ∀ other, Aligned other → other ≠ key →
      identityOf World pair.2 other = identityOf World branch.store other)
    (prepared : identityOf World pair.2 key = some identity)
    (ledger : Advanced Store Identity cache.world pair.1)
    (issued : IdentityLedger.Issued pair.1 identity) :
    ((lineageOf cache).ownPage id (viewOf World branch) key identity page).Grows
      (lineageOf (takePage id key identity page pair cache)) where
  nextBranch := rfl
  branches := by
    funext other
    simp only [lineageOf, Lineage.ownPage, Lineage.setBranch, Function.update_apply,
      branches_takePage found]
    by_cases here : other = id
    · simp only [here, if_true, Option.map_some]
      rw [viewOf_ownPage aligned files others prepared]
    · simp [here]
  pages := lineageOf_insertPage cache identity page
  known := rfl
  contents _ _ := rfl
  nextPageId := Nat.le_refl _
  issued other given := by
    rcases given with rfl | old
    · exact issued
    · exact ledger.issued other old

theorem good_dropHidden (good : Good held cache) {origin : Lineage.Origin Identity}
    (sound : Lineage.SoundFrom origin held (lineageOf cache)) (home : origin.home identity = key) :
    Good held (dropHidden key identity cache) ∧
      (lineageOf cache).SameView (lineageOf (dropHidden key identity cache)) := by
  by_cases visible : cache.identityIsVisible key identity
  · rw [dropHidden, if_pos visible]
    exact ⟨good, Lineage.sameView_refl _⟩
  · obtain ⟨dropped, same⟩ := good_evictHidden sound home visible
    rw [dropHidden, if_neg visible]
    exact ⟨⟨dropped, good.owner, good.registered⟩, same⟩

theorem good_takePage (good : Good held cache) (found : cache.branches[id]? = some branch)
    (aligned : Aligned key) (resolved : identityOf World branch.store key = some identity)
    (resident : cache.pages[identity]? = some page) (unheld : Lineage.holders held id page = 0)
    (unissued : ¬ IdentityLedger.Issued cache.world newIdentity)
    (allocated : newPage < cache.nextPageId)
    (unused : ∀ other : Identity, cache.pages[other]? ≠ some newPage)
    (copied : cache.contents newPage = cache.contents page) (files : SameFiles pair.2 branch.store)
    (others : ∀ other, Aligned other → other ≠ key →
      identityOf World pair.2 other = identityOf World branch.store other)
    (prepared : identityOf World pair.2 key = some newIdentity)
    (ledger : Advanced Store Identity cache.world pair.1)
    (known : StoreLedger.Registered pair.1 pair.2)
    (issued : IdentityLedger.Issued pair.1 newIdentity) :
    Good held (dropHidden key identity (takePage id key newIdentity newPage pair cache)) ∧
      (lineageOf cache).SameView
        (lineageOf (dropHidden key identity (takePage id key newIdentity newPage pair cache))) ∧
      (dropHidden key identity (takePage id key newIdentity newPage pair cache)).Pinned
        id key true newPage := by
  obtain ⟨origin, sound⟩ := good.sound
  have resolvedView : (viewOf World branch).ident key = some identity := by
    rw [ident_viewOf aligned, resolved]
  have old : newIdentity ≠ identity := by
    rintro rfl
    exact unissued (sound.page_issued resident)
  have foundView := branches_lineageOf found
  have owned := sound.ownPage foundView aligned resolvedView resident unheld unissued allocated
    unused copied
  have grows := grows_takePage found newPage aligned files others prepared ledger issued
  have sameOwned := sound.sameView_ownPage foundView resolvedView resident unissued copied
  have goodTaken : Good held (takePage id key newIdentity newPage pair cache) :=
    ⟨⟨_, owned.grow grows⟩, good.owner,
      (good.registered.setStore id ledger known).modify id fun _ => rfl⟩
  have home : Function.update origin.home newIdentity key identity = key := by
    rw [Function.update_of_ne (Ne.symm old)]
    exact (sound.ident_origin foundView aligned resolvedView).1
  obtain ⟨kept, sameDropped⟩ := good_dropHidden goodTaken (owned.grow grows) home
  refine ⟨kept, (sameOwned.trans (owned.sameView_grow grows)).trans sameDropped, ?_⟩
  have foundTaken := branches_takePage found key newIdentity newPage pair id
  rw [if_pos rfl] at foundTaken
  refine ⟨{ branch with store := pair.2, exclusivePages := branch.exclusivePages.insert key },
    newIdentity, ?_, prepared, ?_, fun _ => ExtTreeSet.mem_insert_self⟩
  · unfold dropHidden
    split <;> exact foundTaken
  · have inserted : (takePage id key newIdentity newPage pair cache).pages[newIdentity]? =
        some newPage := ExtTreeMap.getElem?_insert_self
    unfold dropHidden
    split
    next => exact inserted
    next =>
      rw [ExtTreeMap.getElem?_erase, if_neg, inserted]
      rw [Std.LawfulEqOrd.compare_eq_iff_eq]
      exact Ne.symm old

variable [LawfulForkableStore World Store Identity]

theorem ends_loadPage (good : Good held cache) (found : cache.branches[id]? = some branch)
    (aligned : Aligned key) (resolved : identityOf World branch.store key = some identity) :
    Ends (loadPage id identity key) cache fun result after =>
      Good held after ∧ (lineageOf cache).SameView (lineageOf after) ∧
        after.branches = cache.branches ∧
        ∀ page, result = .ok page → after.pages[identity]? = some page := by
  simp only [loadPage, ends_bind, ends_get]
  cases cached : cache.pages[identity]? with
  | some page =>
    refine ⟨good, Lineage.sameView_refl _, rfl, fun _ returned => ?_⟩
    cases returned
    exact cached
  | none =>
    have quiet := grown_faults cache cache.faults.tail
    simp only [ends_bind]
    refine ends_askStore ?_
      (fun _ => ⟨quiet.good good, quiet.sameView good, rfl, not_ok⟩)
      fun absent => by rw [found] at absent; cases absent
    intro same bytes foundSame read
    obtain rfl : branch = same := Option.some.inj (found.symm.trans foundSame)
    refine (ends_fromBytes (ByteMap.ofList bytes) _).mono ?_
    rintro result middle ⟨-, failed, made⟩
    cases result with
    | error error =>
      rw [failed error rfl]
      have twice := grown_faults cache cache.faults.tail.tail
      exact ⟨twice.good good, twice.sameView good, rfl, not_ok⟩
    | ok page =>
      obtain ⟨rfl, rfl⟩ := made page rfl
      simp only [ends_modify, ends_pure]
      have agrees : (viewOf World branch : LineageBranch Identity).Agrees key
          (ByteMap.ofList bytes) := by
        intro length index known inPage below
        have stored : storedByte branch.store key.1 (key.2 + index) =
            FileView.fileByte branch.store key.1 (key.2 + index) := by
          rw [storedByte, show FileView.fileLen branch.store key.1 = some length from known]
          exact if_pos below
        exact (ofList_readNode read inPage).trans stored
      have resolvedView : (viewOf World branch).ident key = some identity := by
        rw [ident_viewOf aligned, resolved]
      obtain ⟨origin, sound⟩ := good.sound
      have loaded : lineageOf
          { cache with
            faults := cache.faults.tail.tail
            nextPageId := cache.nextPageId + 1
            contents := Function.update cache.contents cache.nextPageId (ByteMap.ofList bytes)
            pages := cache.pages.insert identity cache.nextPageId } =
          (lineageOf cache).load identity (ByteMap.ofList bytes) := by
        have pages := lineageOf_insertPage cache identity cache.nextPageId
        simp only [lineageOf, Lineage.load] at pages ⊢
        rw [pages]
      refine ⟨⟨⟨origin, ?_⟩, good.owner, good.registered⟩, ?_, trivial, fun _ returned => ?_⟩
      · rw [loaded]
        exact sound.load (branches_lineageOf found) aligned resolvedView cached agrees
      · rw [loaded]
        exact sound.sameView_load (branches_lineageOf found) aligned resolvedView cached agrees
      · cases returned
        simp

theorem ends_copyPage (good : Good held cache) (found : cache.branches[id]? = some branch)
    (aligned : Aligned key) (resolved : identityOf World branch.store key = some identity)
    {page : Nat} (resident : cache.pages[identity]? = some page)
    (idle : branch.activeCount page = 0) :
    Ends (copyPage id key identity page) cache fun result after =>
      Good held after ∧ (lineageOf cache).SameView (lineageOf after) ∧
        ∀ newPage, result = .ok newPage → after.Pinned id key true newPage := by
  simp only [copyPage, ends_bind]
  refine (ends_duplicate page cache).mono ?_
  rintro result middle ⟨grown, sameBranches, samePages, sameWorld, made⟩
  cases result with
  | error error =>
    exact ⟨grown.good good, grown.sameView good, not_ok⟩
  | ok newPage =>
    obtain ⟨rfl, allocated, copied⟩ := made newPage rfl
    have foundMiddle : middle.branches[id]? = some branch := by rw [sameBranches, found]
    have quiet := IsTrans.trans _ _ _ grown (grown_faults middle middle.faults.tail)
    refine ends_withStoreMut ?_
      (fun _ => ⟨quiet.good good, quiet.sameView good, not_ok⟩)
      fun absent => by rw [foundMiddle] at absent; cases absent
    intro same foundSame
    obtain rfl : branch = same := Option.some.inj (foundMiddle.symm.trans foundSame)
    have goodMiddle := quiet.good good
    refine (LawfulForkableStore.preparePageWrite_fresh key middle.world branch.store
      aligned (goodMiddle.registered id branch foundMiddle)).mono ?_
    rintro prepared pair ⟨files, ledger, known, others, kept, fresh⟩
    cases prepared with
    | error error =>
      have identities : ∀ other, Aligned other →
          identityOf World pair.2 other = identityOf World branch.store other := by
        intro other alignedOther
        by_cases here : other = key
        · rw [here, kept error rfl]
        · exact others other alignedOther here
      have foundQuiet :
          ({ middle with faults := middle.faults.tail } :
            SharedPageCache World Store Identity).branches[id]? = some branch := foundMiddle
      have stored := IsTrans.trans _ _ _ quiet
        (grown_setStore foundQuiet files identities ledger fun _ => known)
      exact ⟨stored.good good, stored.sameView good, not_ok⟩
    | ok newIdentity =>
      obtain ⟨resolvedNew, unissued, issued⟩ := fresh newIdentity rfl
      obtain ⟨origin, sound⟩ := good.sound
      have foundQuiet :
          ({ middle with faults := middle.faults.tail } :
            SharedPageCache World Store Identity).branches[id]? = some branch := foundMiddle
      have copiedOld : middle.contents cache.nextPageId = middle.contents page :=
        copied.trans (grown.2.1.contents page (sound.page_lt resident)).symm
      have unused : ∀ other : Identity, middle.pages[other]? ≠ some cache.nextPageId := by
        intro other used
        rw [samePages] at used
        exact absurd (sound.page_lt used) (Nat.lt_irrefl _)
      obtain ⟨goodTaken, sameTaken, pinned⟩ := good_takePage goodMiddle foundQuiet aligned
        resolved (by rw [← resident, ← samePages])
        (holders_eq_zero_of_activeCount good found idle) unissued allocated unused copiedOld
        files others resolvedNew ledger known issued
      simp only [Except.mapError, ends_modify, ends_modifyBranch, ends_pure]
      rw [modify_dropHidden rfl id (fun state =>
        { state with exclusivePages := state.exclusivePages.insert key }) fun _ => rfl]
      refine ⟨goodTaken, (quiet.sameView good).trans sameTaken, fun _ returned => ?_⟩
      cases returned
      exact pinned

/-!
## Handing out a mapping
-/

theorem ends_pageFor (good : Good held cache) (found : cache.branches[id]? = some branch)
    (aligned : Aligned key) (resolved : identityOf World branch.store key = some identity)
    {page : Nat} (resident : cache.pages[identity]? = some page) (write : Bool)
    (idle : ¬ ((write && !branch.exclusivePages.contains key) ∧ branch.activeCount page > 0)) :
    Ends (pageFor id key identity page (write && !branch.exclusivePages.contains key)) cache
      fun result after => Good held after ∧ (lineageOf cache).SameView (lineageOf after) ∧
        ∀ newPage, result = .ok newPage → after.Pinned id key write newPage := by
  rw [pageFor, ends_ite]
  refine ⟨fun copies => ?_, fun stays => ?_⟩
  · have unused : branch.activeCount page = 0 := by
      by_contra used
      exact idle ⟨copies, Nat.pos_of_ne_zero used⟩
    refine (ends_copyPage good found aligned resolved resident unused).mono ?_
    rintro result after ⟨goodAfter, same, pinned⟩
    refine ⟨goodAfter, same, fun newPage returned => ?_⟩
    obtain ⟨owner, own, foundOwner, resolvedOwn, residentOwn, exclusive⟩ := pinned newPage returned
    exact ⟨owner, own, foundOwner, resolvedOwn, residentOwn, fun _ => exclusive rfl⟩
  · refine ⟨good, Lineage.sameView_refl _, fun newPage returned => ?_⟩
    cases returned
    refine ⟨branch, identity, found, resolved, resident, fun writes => ?_⟩
    simpa [writes] using stays

theorem ends_mapPage
    (good : Good held cache) (id : CacheBranchId) (node offset : Nat) (flags : MapFlags) :
    Ends (mapPage id node offset flags) cache fun result after =>
      (lineageOf cache).SameView (lineageOf after) ∧
        (∀ error, result = .error error → Good held after) ∧
        ∀ mapping, result = .ok mapping → Good (mapping :: held) after ∧
          mapping.branch = id ∧ mapping.key = (node, offset) ∧ mapping.flags = flags := by
  have unchanged : (lineageOf cache).SameView (lineageOf cache) := Lineage.sameView_refl _
  simp only [mapPage, ends_bind, ends_require]
  refine ⟨fun (aligned : Aligned (node, offset)) => ?_, fun _ =>
    ⟨unchanged, fun _ _ => good, not_ok⟩⟩
  refine ⟨fun _ => ?_, fun _ => ⟨unchanged, fun _ _ => good, not_ok⟩⟩
  refine ends_branchMut (fun branch found => ?_)
    fun _ => ⟨unchanged, fun _ _ => good, not_ok⟩
  refine ⟨fun _ => ?_,
    fun _ => ⟨unchanged, fun _ _ => good, not_ok⟩⟩
  refine ends_orIo (fun identity answered => ?_)
    fun _ => ⟨unchanged, fun _ _ => good, not_ok⟩
  have resolved : identityOf World branch.store (node, offset) = some identity := by
    rw [identityOf, answered]
    rfl
  refine (ends_loadPage good found aligned resolved).mono ?_
  rintro loaded middle ⟨goodMiddle, sameMiddle, branches, resident⟩
  cases loaded with
  | error error => exact ⟨sameMiddle, fun _ _ => goodMiddle, not_ok⟩
  | ok page =>
    have foundMiddle : middle.branches[id]? = some branch := by rw [branches, found]
    refine ⟨fun idle => ?_,
      fun _ => ⟨sameMiddle, fun _ _ => goodMiddle, not_ok⟩⟩
    refine (ends_pageFor goodMiddle foundMiddle aligned resolved (resident page rfl) flags.write
      idle).mono ?_
    rintro chosen final ⟨goodFinal, sameFinal, pinned⟩
    have same := sameMiddle.trans sameFinal
    cases chosen with
    | error error => exact ⟨same, fun _ _ => goodFinal, not_ok⟩
    | ok newPage =>
      obtain ⟨goodHeld, sameHeld⟩ := good_hold goodFinal
        ⟨final.id, id, (node, offset), flags, newPage⟩ rfl aligned (pinned newPage rfl)
      refine ⟨same.trans sameHeld, not_error, fun mapping returned => ?_⟩
      cases returned
      exact ⟨goodHeld, rfl, rfl, rfl⟩

end Minidox.Cache.SharedPageCache
