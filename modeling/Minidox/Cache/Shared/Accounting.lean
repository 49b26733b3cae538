import Minidox.Cache.Shared.Residency

/-!
# Page accounting

`page_accounting` over all branches counts the entries of `pages`, and as shared those that two
branches or more can see. It counts ids, so that holds until the ids of the process come around.
-/

set_option autoImplicit false

namespace Minidox.Cache

open Foundation Attempt
open Std (ExtTreeMap ExtTreeSet)

namespace SharedPageCache

section References

structure Counts (references : ExtTreeMap Nat Nat) (count : Nat → Nat) : Prop where
  known : ∀ page : Nat, references[page]?.getD 0 = count page
  positive : ∀ page : Nat, references[page]? ≠ some 0

variable {references : ExtTreeMap Nat Nat} {count : Nat → Nat}

theorem Counts.getElem? (counts : Counts references count) (page : Nat) :
    references[page]? = if count page = 0 then none else some (count page) := by
  have known := counts.known page
  have positive := counts.positive page
  cases found : references[page]? with
  | none =>
    rw [found, Option.getD_none] at known
    rw [if_pos known.symm]
  | some number =>
    rw [found, Option.getD_some] at known
    rw [found] at positive
    rw [if_neg (by rintro none; exact positive (by rw [known, none])), known]

theorem counts_empty : Counts ∅ fun _ => 0 :=
  ⟨fun _ => by simp, fun _ => by simp⟩

theorem Counts.insert (counts : Counts references count) (page : Nat) :
    Counts (references.insert page (references[page]?.getD 0 + 1))
      fun other => count other + if other = page then 1 else 0 where
  known other := by
    rw [TreeMap.getElem?_insert_ite]
    by_cases here : other = page
    · rw [if_pos here, if_pos here, Option.getD_some, counts.known, here]
    · rw [if_neg here, if_neg here, counts.known, Nat.add_zero]
  positive other := by
    rw [TreeMap.getElem?_insert_ite]
    split
    next => exact fun zero => Nat.succ_ne_zero _ (Option.some.inj zero)
    next => exact counts.positive other

theorem counts_foldl (pages : List Nat) (counts : Counts references count) :
    Counts (pages.foldl (fun references page =>
      references.insert page (references[page]?.getD 0 + 1)) references)
      fun page => count page + pages.count page := by
  induction pages generalizing references count with
  | nil => exact counts
  | cons page rest ih =>
    have counted := ih (counts.insert page)
    rw [List.foldl_cons]
    refine ⟨fun other => (counted.known other).trans ?_, counted.positive⟩
    rw [List.count_cons]
    by_cases here : page = other
    · subst here
      simp
      omega
    · simp [here, Ne.symm here]

theorem counts_addReferences (counts : Counts references count) (pages : ExtTreeSet Nat) :
    Counts (addReferences references pages)
      fun page => count page + if page ∈ pages then 1 else 0 := by
  have counted := counts_foldl pages.toList counts
  refine ⟨fun page => (counted.known page).trans ?_, counted.positive⟩
  simp only [(TreeMap.toList_nodup pages).count, ExtTreeSet.mem_toList]

end References

section Viewers

variable {World Store Identity : Type} [Ord Identity] [DecidableEq Identity]
  [ForkableNodeStore World Store Identity] {cache : SharedPageCache World Store Identity}

def sees (cache : SharedPageCache World Store Identity) (identity : Identity)
    (branch : CacheBranch Store) : Bool :=
  cache.knownPages.toList.any fun key => identityOf World branch.store key = some identity

def viewers (cache : SharedPageCache World Store Identity) (identity : Identity) : Nat :=
  (TreeMap.values cache.branches).countP (cache.sees identity)

theorem viewers_pos {identity : Identity} : 0 < cache.viewers identity ↔ cache.Seen identity := by
  rw [viewers, List.countP_pos_iff]
  constructor
  · rintro ⟨branch, member, seen⟩
    obtain ⟨id, found⟩ := TreeMap.mem_values.mp member
    obtain ⟨key, known, resolved⟩ := List.any_eq_true.mp seen
    exact ⟨id, branch, found, key, ExtTreeSet.mem_toList.mp known, of_decide_eq_true resolved⟩
  · rintro ⟨id, branch, found, key, known, resolved⟩
    exact ⟨branch, TreeMap.mem_values.mpr ⟨id, found⟩, List.any_eq_true.mpr
      ⟨key, ExtTreeSet.mem_toList.mpr known, decide_eq_true resolved⟩⟩

end Viewers

section Labels

variable {World Store Identity : Type} [Ord Identity] [Std.TransOrd Identity]
  [ForkableNodeStore World Store Identity] {cache : SharedPageCache World Store Identity}

def Injective (cache : SharedPageCache World Store Identity) : Prop :=
  ∀ (left right : Identity) page other, cache.pages[left]? = some page →
    cache.pages[right]? = some other → pageId page = pageId other → left = right

def IsResident (cache : SharedPageCache World Store Identity) (label : Nat) : Prop :=
  ∃ (identity : Identity) (page : Nat), cache.pages[identity]? = some page ∧ pageId page = label

theorem isResident_of_mem_pagesInBranch {branch : CacheBranch Store} {label : Nat}
    (member : label ∈ cache.pagesInBranch branch) : cache.IsResident label := by
  rw [pagesInBranch, ExtTreeSet.mem_ofList, List.contains_iff_mem, List.mem_filterMap] at member
  obtain ⟨key, -, found⟩ := member
  obtain ⟨identity, -, named⟩ := Option.bind_eq_some_iff.mp found
  exact ⟨identity, Option.map_eq_some_iff.mp named⟩

def referencesIn (cache : SharedPageCache World Store Identity) (requested : List CacheBranchId)
    (label : Nat) : Nat :=
  requested.countP fun id => cache.branches[id]?.any fun branch =>
    label ∈ cache.pagesInBranch branch

theorem ends_countReferences (requested : List CacheBranchId)
    (live : ∀ id ∈ requested, id ∈ cache.branches) {references : ExtTreeMap Nat Nat}
    {count : Nat → Nat} (counts : Counts references count) :
    Ends (countReferences requested references) cache fun result after => after = cache ∧
      ∃ total, result = .ok total ∧
        Counts total fun page => count page + cache.referencesIn requested page := by
  induction requested generalizing references count with
  | nil => exact ⟨rfl, references, rfl, counts⟩
  | cons id rest ih =>
    simp only [countReferences, ends_bind]
    refine ends_branchMut (fun branch found => ?_) fun absent => ?_
    · simp only [ends_get]
      refine (ih (fun other member => live other (List.mem_cons_of_mem _ member))
        (counts_addReferences counts (cache.pagesInBranch branch))).mono ?_
      rintro result after ⟨same, total, returned, counted⟩
      refine ⟨same, total, returned, fun page => (counted.known page).trans ?_, counted.positive⟩
      simp only [referencesIn, List.countP_cons, found, Option.any_some, decide_eq_true_iff]
      omega
    · have missing := live id List.mem_cons_self
      rw [ExtTreeMap.mem_iff_isSome_getElem?, absent] at missing
      cases missing

theorem referencesIn_eq_zero {label : Nat} (requested : List CacheBranchId)
    (absent : ¬ cache.IsResident label) : cache.referencesIn requested label = 0 := by
  refine List.countP_eq_zero.mpr fun id _ => ?_
  rw [Option.any_eq_true]
  rintro ⟨branch, -, member⟩
  exact absent (isResident_of_mem_pagesInBranch (of_decide_eq_true member))

variable [DecidableEq Identity]

theorem mem_pagesInBranch (injective : cache.Injective) {identity : Identity} {page : Nat}
    (resident : cache.pages[identity]? = some page) (branch : CacheBranch Store) :
    pageId page ∈ cache.pagesInBranch branch ↔ cache.sees identity branch := by
  rw [pagesInBranch, ExtTreeSet.mem_ofList, List.contains_iff_mem, List.mem_filterMap, sees,
    List.any_eq_true]
  refine exists_congr fun key => and_congr_right fun _ => ?_
  rw [Option.bind_eq_some_iff, decide_eq_true_iff]
  constructor
  · rintro ⟨other, resolved, named⟩
    obtain ⟨otherPage, residentOther, same⟩ := Option.map_eq_some_iff.mp named
    rwa [injective other identity otherPage page residentOther resident same] at resolved
  · exact fun resolved => ⟨identity, resolved, by rw [resident, Option.map_some]⟩

theorem referencesIn_eq_viewers (injective : cache.Injective) {requested : List CacheBranchId}
    (distinct : requested.Nodup) (all : ∀ id, id ∈ requested ↔ id ∈ cache.branches)
    {identity : Identity} {page : Nat} (resident : cache.pages[identity]? = some page) :
    cache.referencesIn requested (pageId page) = cache.viewers identity := by
  have listed : requested.Perm (cache.branches.toList.map Prod.fst) := by
    refine (List.perm_ext_iff_of_nodup distinct (TreeMap.keys_nodup _)).mpr fun id => ?_
    rw [all, TreeMap.mem_keys, ExtTreeMap.mem_iff_isSome_getElem?, Option.isSome_iff_exists]
  rw [referencesIn, listed.countP_eq, viewers, TreeMap.values, List.countP_map, List.countP_map]
  refine List.countP_congr fun entry member => ?_
  rw [ExtTreeMap.mem_toList_iff_getElem?_eq_some] at member
  simp only [Function.comp_apply, member, Option.any_some, decide_eq_true_iff]
  exact mem_pagesInBranch injective resident entry.2

variable [Std.LawfulEqOrd Identity]

theorem ends_pageAccounting (injective : cache.Injective)
    (seen : ∀ (identity : Identity) page, cache.pages[identity]? = some page → cache.Seen identity)
    {requested : List CacheBranchId} (distinct : requested.Nodup)
    (all : ∀ id, id ∈ requested ↔ id ∈ cache.branches) :
    Ends (pageAccounting requested) cache fun result after => after = cache ∧
      result = .ok
        { residentPages := cache.pages.size
          sharedPages :=
            (cache.pages.filter fun identity _ => 1 < cache.viewers identity).size } := by
  simp only [pageAccounting, ends_bind]
  refine (ends_countReferences requested (fun id member => (all id).mp member) counts_empty).mono ?_
  rintro result after ⟨rfl, references, rfl, counts⟩
  have known : ∀ label, references[label]? = if after.referencesIn requested label = 0 then none
      else some (after.referencesIn requested label) := fun label => by
    rw [counts.getElem?, Nat.zero_add]
  have counted : ∀ (identity : Identity) page, after.pages[identity]? = some page →
      references[pageId page]? = some (after.viewers identity) := fun identity page resident => by
    have viewed := viewers_pos.mpr (seen identity page resident)
    rw [known, referencesIn_eq_viewers injective distinct all resident, if_neg (by omega)]
  have resident : ∀ label, label ∈ references ↔ after.IsResident label := by
    intro label
    constructor
    · intro member
      refine Classical.byContradiction fun absent => ?_
      rw [ExtTreeMap.mem_iff_isSome_getElem?, known, referencesIn_eq_zero requested absent]
        at member
      cases member
    · rintro ⟨identity, page, found, rfl⟩
      exact TreeMap.mem_of_getElem? (counted identity page found)
  refine ⟨rfl, congrArg Except.ok ?_⟩
  rw [TreeMap.size_eq_of_mem_iff pageId injective resident, CachePageAccounting.mk.injEq]
  refine ⟨rfl, TreeMap.size_eq_of_mem_iff pageId ?_ ?_⟩
  · intro left right page other foundLeft foundRight
    exact injective left right page other (TreeMap.getElem?_filter_iff.mp foundLeft).1
      (TreeMap.getElem?_filter_iff.mp foundRight).1
  · intro label
    rw [ExtTreeMap.mem_iff_isSome_getElem?, Option.isSome_iff_exists]
    constructor
    · rintro ⟨number, found⟩
      obtain ⟨found, shared⟩ := TreeMap.getElem?_filter_iff.mp found
      obtain ⟨identity, page, present, rfl⟩ := (resident label).mp (TreeMap.mem_of_getElem? found)
      obtain rfl : number = after.viewers identity :=
        Option.some.inj (found.symm.trans (counted identity page present))
      exact ⟨identity, page, TreeMap.getElem?_filter_iff.mpr ⟨present, shared⟩, rfl⟩
    · rintro ⟨identity, page, found, rfl⟩
      obtain ⟨present, shared⟩ := TreeMap.getElem?_filter_iff.mp found
      exact ⟨_, TreeMap.getElem?_filter_iff.mpr ⟨counted identity page present, shared⟩⟩

end Labels

/-!
## Shared pages
-/

section Loading

variable {World Store Identity : Type} [Ord Identity] [Std.TransOrd Identity]

def AddsOnce (before after : SharedPageCache World Store Identity) : Prop :=
  after.pages = before.pages ∨ ∃ (identity : Identity) (page : Nat),
    before.pages[identity]? = none ∧ after.pages = before.pages.insert identity page

structure Loads (before after : SharedPageCache World Store Identity) : Prop where
  pages : AddsOnce before after
  stores : ∀ id : CacheBranchId, after.branches[id]?.map CacheBranch.store =
    before.branches[id]?.map CacheBranch.store

theorem loads_of_branches {before after : SharedPageCache World Store Identity}
    (pages : after.pages = before.pages) (branches : after.branches = before.branches) :
    Loads before after :=
  ⟨.inl pages, fun id => by rw [branches]⟩

variable [ForkableNodeStore World Store Identity] [FileView Store] [IdentityLedger World Identity]
  [StoreLedger World Store]

theorem ends_loadPage_loads (id : CacheBranchId) (identity : Identity) (key : PageKey)
    (cache : SharedPageCache World Store Identity) :
    Ends (loadPage id identity key) cache fun _ after => Loads cache after := by
  simp only [loadPage, ends_bind, ends_get]
  cases cached : cache.pages[identity]? with
  | some page => exact loads_of_branches rfl rfl
  | none =>
    simp only [ends_bind]
    refine ends_askStore (fun branch bytes found read => ?_) (fun _ => loads_of_branches rfl rfl)
      fun _ => loads_of_branches rfl rfl
    refine (ends_fromBytes (ByteMap.ofList bytes) _).mono ?_
    rintro result middle ⟨-, failed, made⟩
    cases result with
    | error error =>
      rw [failed error rfl]
      exact loads_of_branches rfl rfl
    | ok page =>
      obtain ⟨rfl, rfl⟩ := made page rfl
      exact ⟨.inr ⟨identity, _, cached, rfl⟩, fun _ => rfl⟩

theorem ends_mapPage_loads [DecidableEq Identity] (id : CacheBranchId) (node offset : Nat)
    {flags : MapFlags}
    (reads : flags.write = false) (cache : SharedPageCache World Store Identity) :
    Ends (mapPage id node offset flags) cache fun _ after => Loads cache after := by
  have unchanged : Loads cache cache := loads_of_branches rfl rfl
  simp only [mapPage, ends_bind]
  refine ends_require.mpr ⟨fun _ => ?_, fun _ => unchanged⟩
  refine ends_require.mpr ⟨fun _ => ?_, fun _ => unchanged⟩
  refine ends_branchMut (fun branch found => ?_) fun _ => unchanged
  refine ends_require.mpr ⟨fun _ => ?_, fun _ => unchanged⟩
  refine ends_orIo (fun identity _ => ?_) fun _ => unchanged
  refine (ends_loadPage_loads id identity (node, offset) cache).mono fun loaded middle loads => ?_
  cases loaded with
  | error error => exact loads
  | ok page =>
    refine ends_require.mpr ⟨fun _ => ?_, fun _ => loads⟩
    simp only [reads, Bool.false_and, pageFor, Bool.false_eq_true, if_false, ends_pure,
      ends_modify, ends_modifyBranch, ends_get]
    refine ⟨loads.pages, fun other => Eq.trans ?_ (loads.stores other)⟩
    rw [ExtTreeMap.getElem?_modify]
    split
    next same =>
      rw [Std.LawfulEqOrd.compare_eq_iff_eq.mp same, Option.map_map]
      rfl
    next => rfl

end Loading

variable {World Store Identity : Type} [Ord Identity] [Std.TransOrd Identity]
  [ForkableNodeStore World Store Identity] [FileView Store] [IdentityLedger World Identity]
  [StoreLedger World Store] {cache : SharedPageCache World Store Identity}

/-- No id of the process has come around. -/
def IdsFresh (cache : SharedPageCache World Store Identity) : Prop :=
  cache.nextPageId ≤ Word64.bound

instance (cache : SharedPageCache World Store Identity) : Decidable cache.IdsFresh :=
  inferInstanceAs (Decidable (_ ≤ _))

theorem Good.injective {held : List DaxPageMapping} (good : Good held cache)
    (fresh : cache.IdsFresh) : cache.Injective := by
  obtain ⟨origin, sound⟩ := good.sound
  intro left right page other foundLeft foundRight same
  have bounded := Nat.lt_of_lt_of_le (sound.page_lt foundLeft) fresh
  have boundedOther := Nat.lt_of_lt_of_le (sound.page_lt foundRight) fresh
  rw [pageId, pageId, Nat.mod_eq_of_lt bounded, Nat.mod_eq_of_lt boundedOther] at same
  exact sound.page_unique foundLeft (same ▸ foundRight)

theorem Good.resident {held : List DaxPageMapping} (good : Good held cache)
    {mapping : DaxPageMapping} (member : mapping ∈ held) :
    ∃ (branch : CacheBranch Store) (identity : Identity),
      cache.branches[mapping.branch]? = some branch ∧
        identityOf World branch.store mapping.key = some identity ∧
        cache.pages[identity]? = some mapping.page := by
  obtain ⟨origin, sound⟩ := good.sound
  obtain ⟨aligned, -, view, identity, found, resolved, present, -⟩ :=
    sound.held_backed mapping member
  obtain ⟨branch, foundBranch, rfl⟩ := Option.map_eq_some_iff.mp found
  rw [ident_viewOf aligned] at resolved
  exact ⟨branch, identity, foundBranch, resolved, present⟩

variable [Std.LawfulEqOrd Identity] [DecidableEq Identity]
  [LawfulForkableStore World Store Identity]

/-- Two branches read a page through page files of one id exactly when they resolve it to one
identity. -/
theorem ends_mapPage_twice {held : List DaxPageMapping} (good : Good held cache)
    {left right : CacheBranchId} {leftBranch rightBranch : CacheBranch Store}
    (foundLeft : cache.branches[left]? = some leftBranch)
    (foundRight : cache.branches[right]? = some rightBranch) (node offset : Nat) :
    Ends (do
      let first ← mapPage left node offset .READ
      let second ← mapPage right node offset .READ
      pure (first, second)) cache fun result after =>
        ∀ mappings, result = .ok mappings → after.IdsFresh →
          (mappings.1.pageId = mappings.2.pageId ↔
            identityOf World leftBranch.store (node, offset) =
              identityOf World rightBranch.store (node, offset)) := by
  simp only [ends_bind]
  refine ((ends_mapPage good left node offset .READ).and
    (ends_mapPage_loads left node offset rfl cache)).mono ?_
  rintro first middle ⟨⟨-, -, mapped⟩, loads⟩
  cases first with
  | error error => exact fun _ => by rintro ⟨⟩
  | ok first =>
    obtain ⟨goodMiddle, branchFirst, keyFirst, -⟩ := mapped first rfl
    refine ((ends_mapPage goodMiddle right node offset .READ).and
      (ends_mapPage_loads right node offset rfl middle)).mono ?_
    rintro second after ⟨⟨-, -, mapped⟩, loadsAfter⟩
    cases second with
    | error error => exact fun _ => by rintro ⟨⟩
    | ok second =>
      obtain ⟨goodAfter, branchSecond, keySecond, -⟩ := mapped second rfl
      rintro _ ⟨⟩ fresh
      -- neither mapping changes a file, so both branches still resolve the page as before
      have stores : ∀ (id : CacheBranchId) (earlier later : CacheBranch Store),
          cache.branches[id]? = some earlier → after.branches[id]? = some later →
          later.store = earlier.store := by
        intro id earlier later foundEarlier foundLater
        have same := (loadsAfter.stores id).trans (loads.stores id)
        rw [foundEarlier, foundLater] at same
        exact Option.some.inj same
      obtain ⟨leftAfter, leftIdentity, foundFirst, resolvedFirst, pageFirst⟩ :=
        goodAfter.resident (List.mem_cons_of_mem _ List.mem_cons_self)
      obtain ⟨rightAfter, rightIdentity, foundSecond, resolvedSecond, pageSecond⟩ :=
        goodAfter.resident List.mem_cons_self
      rw [branchFirst] at foundFirst
      rw [branchSecond] at foundSecond
      rw [keyFirst, stores left _ _ foundLeft foundFirst] at resolvedFirst
      rw [keySecond, stores right _ _ foundRight foundSecond] at resolvedSecond
      rw [resolvedFirst, resolvedSecond, Option.some_inj]
      constructor
      · exact goodAfter.injective fresh _ _ _ _ pageFirst pageSecond
      · rintro rfl
        exact congrArg pageId (Option.some.inj (pageFirst.symm.trans pageSecond))

end SharedPageCache

variable {World Store Identity : Type} [Ord Identity] [Std.TransOrd Identity]
  [Std.LawfulEqOrd Identity] [DecidableEq Identity] [ForkableNodeStore World Store Identity]
  [FileView Store] [IdentityLedger World Identity] [StoreLedger World Store]
  [LawfulForkableStore World Store Identity] [FileMaker World Store]

namespace System

open SharedPageCache

variable {system : System World Store Identity}

def Shares (system : System World Store Identity) : Action → Prop
  | .fork _ => True
  | .mapPage _ _ _ flags => flags.write = false
  | .advance thread => ∃ call capacity, system.calls[thread]? = some call ∧
      call.job = .read capacity
  | _ => False

omit [Std.LawfulEqOrd Identity] [LawfulForkableStore World Store Identity]
  [FileMaker World Store] in
theorem ends_advance_addsOnce {call : Call DaxPageMapping} {capacity : Nat}
    (reads : call.job = .read capacity) (cache : SharedPageCache World Store Identity) :
    Ends call.advance cache fun _ after => AddsOnce cache after := by
  by_cases phase : call.phase = .map
  · have flags : call.job.flags.write = false := by rw [reads]; rfl
    simp only [Call.advance, phase, ends_bind]
    refine (ends_mapPage_loads _ _ _ flags cache).mono fun result after loads => ?_
    cases result with
    | error error => exact loads.pages
    | ok mapping => exact loads.pages
  · exact (keeping_advance phase cache).mono fun _ _ kept => .inl kept.pages

omit [Std.LawfulEqOrd Identity] in
theorem addsOnce_step (consistent : Consistent system) {action : Action}
    (shares : system.Shares action) : AddsOnce system.cache (system.step action).1.cache := by
  cases action with
  | fork source =>
    have kept := ends_fork_keeping consistent.good source
    simp only [step, attempt]
    unfold Ends at kept
    cases executed : (SharedPageCache.fork source).exec system.cache with
    | mk result cache =>
      rw [executed] at kept
      cases result with
      | ok child => exact .inl kept.pages
      | error error => exact .inl kept.pages
  | mapPage branch node offset flags =>
    have loads := ends_mapPage_loads branch node offset shares system.cache
    simp only [step, System.mapPage]
    unfold Ends at loads
    cases executed : (SharedPageCache.mapPage branch node offset flags).exec system.cache with
    | mk result cache =>
      rw [executed] at loads
      cases result with
      | ok mapping => exact loads.pages
      | error error => exact loads.pages
  | advance thread =>
    obtain ⟨call, capacity, active, reads⟩ := shares
    rw [cache_advance active]
    exact ends_advance_addsOnce reads system.cache
  | _ => exact shares.elim

/-- No page is there twice, or without a branch that sees it. -/
structure Accounted (system : System World Store Identity) : Prop where
  /-- Distinct identities hold pages of distinct ids. -/
  distinct : ∀ (left right : Identity) page other, system.cache.pages[left]? = some page →
    system.cache.pages[right]? = some other → pageId page = pageId other → left = right
  /-- Every resident identity is that of some known page in some live branch. -/
  seen : ∀ (identity : Identity) page, system.cache.pages[identity]? = some page →
    system.cache.Seen identity
  /-- `page_accounting` over all branches. -/
  counted : ∀ requested : List CacheBranchId, requested.Nodup →
    (∀ id, id ∈ requested ↔ id ∈ system.cache.branches) →
    Ends (pageAccounting requested) system.cache fun result _ => result = .ok
      { residentPages := system.cache.pages.size
        sharedPages :=
          (system.cache.pages.filter fun identity _ => 1 < system.cache.viewers identity).size }
  /-- Two branches read a page through page files of one id exactly when they resolve it to one
  identity, until an id comes around. -/
  shared : ∀ (left right : CacheBranchId) (leftBranch rightBranch : CacheBranch Store)
    (node offset : Nat), system.cache.branches[left]? = some leftBranch →
    system.cache.branches[right]? = some rightBranch →
    Ends (do
      let first ← SharedPageCache.mapPage left node offset .READ
      let second ← SharedPageCache.mapPage right node offset .READ
      pure (first, second)) system.cache fun result after =>
        ∀ mappings, result = .ok mappings → after.IdsFresh →
          (mappings.1.pageId = mappings.2.pageId ↔
            identityOf World leftBranch.store (node, offset) =
              identityOf World rightBranch.store (node, offset))
  /-- A fork or a read adds no page to an identity that has one. -/
  added : ∀ action, system.Shares action → AddsOnce system.cache (system.step action).1.cache

theorem accounted (consistent : Consistent system) (unleaked : system.cache.Unleaked)
    (fresh : system.cache.IdsFresh) : system.Accounted where
  distinct := consistent.good.injective fresh
  seen := unleaked.seen
  counted _ nodup all := (ends_pageAccounting (consistent.good.injective fresh) unleaked.seen nodup
    all).mono fun _ _ counted => counted.2
  shared _ _ _ _ node offset foundLeft foundRight :=
    ends_mapPage_twice consistent.good foundLeft foundRight node offset
  added _ shares := addsOnce_step consistent shares

end System

variable [LawfulFileMaker World Store Identity]

/-- After every run in which no host call fails and no page id comes around, no page is there
twice or for nobody. -/
theorem pages_accounted {world : World} {stores : List Store} (coherent : Coherent world stores)
    (id nextPageId : Nat) (faults : Faults) (actions : List Action)
    (served : Admitted (fun system action => (System.step system action).1) System.Served
      (System.new (SharedPageCache.ofStores id nextPageId world faults stores :
        SharedPageCache World Store Identity)) actions)
    (fresh : ((System.new (SharedPageCache.ofStores id nextPageId world faults stores :
      SharedPageCache World Store Identity)).after actions).cache.IdsFresh) :
    ((System.new (SharedPageCache.ofStores id nextPageId world faults stores :
      SharedPageCache World Store Identity)).after actions).Accounted := by
  have start : (SharedPageCache.ofStores id nextPageId world faults stores :
      SharedPageCache World Store Identity).Unleaked :=
    ⟨fun key member => absurd member ExtTreeSet.not_mem_empty,
      fun identity page resident => absurd resident (by
        rw [show (SharedPageCache.ofStores id nextPageId world faults stores :
          SharedPageCache World Store Identity).pages[identity]? = none from
            ExtTreeMap.getElem?_empty]
        rintro ⟨⟩)⟩
  have reached := run_invariant
    (fun system : System World Store Identity => system.Consistent ∧ system.cache.Unleaked)
    (fun system action held fine =>
      ⟨(System.simulated system held.1 action).1,
        System.unleaked_step held.1 held.2 action (by rw [fine]; rintro ⟨⟩)⟩)
    ⟨System.consistent_new coherent id nextPageId faults, start⟩ served
  exact System.accounted reached.1 reached.2 fresh

namespace SharedRun

open Redox

/-- A file of two pages. A branch and its child share one page and have a copy each of the
other. -/
def actions : List Action :=
  [.createFile 1 "a" 8192, .openNode 1 2, .mapPage 1 2 0 .READ, .mapPage 1 2 4096 .READ,
    .unmap 1 ⟨1, 1, (2, 0), .READ, 1⟩, .unmap 1 ⟨1, 1, (2, 4096), .READ, 2⟩, .fork 1,
    .openNode 2 2, .mapPage 2 2 0 .READ_WRITE]

def start : System RedoxWorld (MountedBranch OneFile) RedoxPageIdentity :=
  System.new (SharedPageCache.ofStores 1 1 OneFile.world [] [OneFile.branch])

/-- The three pages of the two branches, one of them shared. -/
theorem three_pages_accounted : (start.after actions).Accounted ∧
    (start.after actions).cache.pages.size = 3 := by
  have served : Admitted (fun system action => (System.step system action).1) System.Served
      start actions := by decide +kernel
  have fresh : (start.after actions).cache.IdsFresh := by decide +kernel
  exact ⟨pages_accounted OneFile.coherent 1 1 [] actions served fresh, by decide +kernel⟩

/-- A page of a file is read, other caches make all pages but one that there are ids for, and then
the second page is read. -/
def wrapped : List Action :=
  [.createFile 1 "a" 8192, .openNode 1 2, .mapPage 1 2 0 .READ, .otherPages (Word64.bound - 1),
    .mapPage 1 2 4096 .READ]

/-- Two pages are resident and have one id, so `page_accounting` counts one. -/
theorem wrapped_ids_are_not_accounted :
    Admitted (fun system action => (System.step system action).1) System.Served start wrapped ∧
      (start.after wrapped).cache.pages.size = 2 ∧
      ((SharedPageCache.pageAccounting [1]).exec (start.after wrapped).cache).1 =
        .ok { residentPages := 1, sharedPages := 0 } ∧
      ¬ (start.after wrapped).Accounted := by
  refine ⟨by decide +kernel, by decide +kernel, by decide +kernel, fun accounted => ?_⟩
  have first : (start.after wrapped).cache.pages[(⟨2, 0, 0⟩ : RedoxPageIdentity)]? = some 1 := by
    decide +kernel
  have second : (start.after wrapped).cache.pages[(⟨2, 1, 0⟩ : RedoxPageIdentity)]? =
      some (Word64.bound + 1) := by
    decide +kernel
  exact absurd (accounted.distinct _ _ _ _ first second (by decide)) (by decide)

end SharedRun

end Minidox.Cache
