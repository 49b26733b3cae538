import Minidox.Cache.Shared.Frames
import Minidox.Cache.Shared.Properties
import Minidox.Cache.Shared.WholeCalls

/-!
# Resident pages

A page stays in the cache while a branch resolves a known page to its identity. When no host
call fails, nothing else stays, and what `page_accounting` counts is what is there.
-/

set_option autoImplicit false

namespace Minidox.Cache

open Foundation Attempt
open Std (ExtTreeMap ExtTreeSet)

namespace SharedPageCache

variable {World Store Identity : Type} [Ord Identity] [ForkableNodeStore World Store Identity]
  {held : List DaxPageMapping} {cache : SharedPageCache World Store Identity} {α : Type}

def Seen (cache : SharedPageCache World Store Identity) (identity : Identity) : Prop :=
  ∃ (id : CacheBranchId) (branch : CacheBranch Store), cache.branches[id]? = some branch ∧
    ∃ key ∈ cache.knownPages, identityOf World branch.store key = some identity

structure Keeping (before after : SharedPageCache World Store Identity) : Prop where
  pages : after.pages = before.pages
  known : after.knownPages = before.knownPages
  branches : ∀ (id : CacheBranchId) (branch : CacheBranch Store),
    before.branches[id]? = some branch →
    ∃ later, after.branches[id]? = some later ∧ ∀ key identity, Aligned key →
      identityOf World branch.store key = some identity →
      identityOf World later.store key = some identity

instance : @Std.Refl (SharedPageCache World Store Identity) Keeping :=
  ⟨fun _ => ⟨rfl, rfl, fun _ branch found => ⟨branch, found, fun _ _ _ resolved => resolved⟩⟩⟩

instance : IsTrans (SharedPageCache World Store Identity) Keeping where
  trans first second third earlier later := by
    refine ⟨later.pages.trans earlier.pages, later.known.trans earlier.known, ?_⟩
    intro id branch found
    obtain ⟨middle, foundMiddle, seenMiddle⟩ := earlier.branches id branch found
    obtain ⟨last, foundLast, seenLast⟩ := later.branches id middle foundMiddle
    exact ⟨last, foundLast, fun key identity aligned resolved =>
      seenLast key identity aligned (seenMiddle key identity aligned resolved)⟩

theorem keeping_of_branches {before after : SharedPageCache World Store Identity}
    (pages : after.pages = before.pages) (known : after.knownPages = before.knownPages)
    (branches : after.branches = before.branches) : Keeping before after :=
  ⟨pages, known, fun id branch found => ⟨branch, by rw [branches, found],
    fun _ _ _ resolved => resolved⟩⟩

theorem keeping_modifyBranch (cache : SharedPageCache World Store Identity) (id : CacheBranchId)
    {change : CacheBranch Store → CacheBranch Store}
    (seen : ∀ branch, cache.branches[id]? = some branch → ∀ key identity, Aligned key →
      identityOf World branch.store key = some identity →
      identityOf World (change branch).store key = some identity) :
    Keeping cache { cache with branches := cache.branches.modify id change } := by
  refine ⟨rfl, rfl, fun other branch found => ?_⟩
  by_cases here : id = other
  · subst here
    exact ⟨change branch, by simp [found], seen branch found⟩
  · exact ⟨branch, by simp [ExtTreeMap.getElem?_modify, here, found],
      fun _ _ _ resolved => resolved⟩

instance : @OfBranches World Store Identity _ Keeping where
  of_branches branches pages known _ := keeping_of_branches pages known branches

theorem keeping_setStore (id : CacheBranchId) {branch : CacheBranch Store}
    (found : cache.branches[id]? = some branch) {after : World × Store}
    (seen : ∀ key identity, Aligned key → identityOf World branch.store key = some identity →
      identityOf World after.2 key = some identity) :
    Keeping cache (setStore id after { cache with faults := cache.faults.tail }) := by
  have stored : Keeping cache { cache with
      branches := cache.branches.modify id fun state => { state with store := after.2 } } := by
    refine keeping_modifyBranch cache id fun same foundSame => ?_
    obtain rfl : branch = same := Option.some.inj (found.symm.trans foundSame)
    exact seen
  exact IsTrans.trans _ _ _ stored (keeping_of_branches rfl rfl rfl)

theorem keeping_withStoreMut (id : CacheBranchId) {operation : Attempt (World × Store) IoError α}
    (kept : ∀ (world : World) (store : Store), operation.Ends (world, store) fun _ after =>
      ∀ key, identityOf World after.2 key = identityOf World store key) :
    Moves Keeping (withStoreMut id operation : SharedM World Store Identity α) := by
  intro cache
  refine ends_withStoreMut (fun branch found => ?_) (fun _ => keeping_of_branches rfl rfl rfl)
    fun _ => Std.Refl.refl cache
  refine (kept cache.world branch.store).mono fun _ after same => ?_
  exact keeping_setStore id found fun key identity _ resolved => (same key).trans resolved

theorem keeping_change (id : CacheBranchId) {change : CacheBranch Store → CacheBranch Store}
    (store : ∀ branch, (change branch).store = branch.store) :
    Moves Keeping (modifyBranch id change : SharedM World Store Identity Unit) :=
  fun cache => keeping_modifyBranch cache id fun branch _ key identity _ resolved => by
    rw [store branch]
    exact resolved

theorem keeping_unmap (id : CacheBranchId) (mapping : DaxPageMapping) :
    Moves Keeping (unmap id mapping : SharedM World Store Identity Unit) :=
  moves_unmap_of (fun books => keeping_change id books.store) mapping

theorem keeping_insertBranch {id : CacheBranchId} (fresh : cache.branches[id]? = none)
    (nextBranch : CacheBranchId) (child : CacheBranch Store) :
    Keeping cache { cache with nextBranch, branches := cache.branches.insert id child } := by
  refine ⟨rfl, rfl, fun other branch found => ⟨branch, ?_, fun _ _ _ resolved => resolved⟩⟩
  have older : other ≠ id := by
    rintro rfl
    rw [fresh] at found
    cases found
  rw [TreeMap.getElem?_insert_ite, if_neg older, found]

section Handles

variable [FileView Store] [IdentityLedger World Identity] [StoreLedger World Store]
  [LawfulForkableStore World Store Identity]

theorem keeping_openNode (id : CacheBranchId) (node : NodeId) :
    Moves Keeping (openNode id node : SharedM World Store Identity Unit) := by
  refine moves_bind (moves_branchMut id) fun state => ?_
  refine moves_bind (keeping_change id fun _ => rfl) fun _ => ?_
  refine moves_bind (moves_onlyIf (keeping_withStoreMut id fun world store =>
    (LawfulForkableStore.onOpenNode_untouched node world store).mono fun _ _ same =>
      same.identities)) fun _ => ?_
  exact moves_bind (moves_orInvalid _ _) fun count => keeping_change id fun _ => rfl

theorem keeping_close (id : CacheBranchId) (node : NodeId) :
    Moves Keeping (close id node : SharedM World Store Identity Unit) := by
  refine moves_bind (moves_branchMut id) fun state => ?_
  cases state.openNodes[node]? with
  | none => exact moves_throw _
  | some count =>
    refine moves_bind (moves_orInvalid _ _) fun left => ?_
    refine moves_bind (keeping_change id fun _ => rfl) fun _ => ?_
    exact moves_onlyIf (keeping_withStoreMut id fun world store =>
      (LawfulForkableStore.onCloseNode_untouched node world store).mono fun _ _ same =>
        same.identities)

end Handles

section Branches

variable [Std.TransOrd Identity] [FileView Store] [IdentityLedger World Identity]
  [StoreLedger World Store]

theorem Good.getElem?_nextBranch (good : Good held cache) :
    cache.branches[cache.nextBranch]? = none := by
  obtain ⟨origin, sound⟩ := good.sound
  cases found : cache.branches[cache.nextBranch]? with
  | none => rfl
  | some branch => exact absurd (sound.branch_lt (branches_lineageOf found)) (Nat.lt_irrefl _)

theorem ends_createFile_keeping [FileMaker World Store] [LawfulFileMaker World Store Identity]
    (good : Good held cache) (id : CacheBranchId) (name : String)
    (size : Nat) : Ends (createFile id name size) cache fun _ after => Keeping cache after := by
  refine ends_withStoreMut (fun branch found => ?_) (fun _ => keeping_of_branches rfl rfl rfl)
    fun _ => Std.Refl.refl cache
  refine (@LawfulFileMaker.createFile_fresh World Store Identity _ _ _ _ _ _ name size cache.world
    branch.store (good.registered id branch found)).mono ?_
  rintro result pair ⟨failed, created⟩
  refine keeping_setStore id found fun key identity _ resolved => ?_
  cases result with
  | error error => exact ((failed error rfl).identities key).trans resolved
  | ok node =>
    obtain ⟨-, -, -, -, unresolved, identities, -⟩ := created node rfl
    by_cases new : key.1 = node
    · rw [unresolved key new] at resolved
      cases resolved
    · exact (identities key new).trans resolved

variable [LawfulForkableStore World Store Identity]

theorem keeping_syncPages (id : CacheBranchId) (keys : List PageKey) :
    Moves Keeping (syncPages id keys : SharedM World Store Identity Unit) :=
  moves_syncPages_of (fun books => keeping_change id books.store) (fun _ _ _ =>
    keeping_withStoreMut id fun world store => (LawfulForkableStore.writeNode_identities _ _ _ world
      store).mono fun _ _ same => same.1) keys

theorem keeping_sync (id : CacheBranchId) (node : NodeId) :
    Moves Keeping (sync id node : SharedM World Store Identity Unit) :=
  moves_bind (moves_branchMut id) fun _ => keeping_syncPages id _

theorem keeping_syncAll (id : CacheBranchId) :
    Moves Keeping (syncAll id : SharedM World Store Identity Unit) :=
  moves_bind (moves_branchMut id) fun _ => keeping_syncPages id _

theorem ends_fork_keeping (good : Good held cache) (source : CacheBranchId) :
    Ends (fork source) cache fun _ after => Keeping cache after := by
  have fresh := good.getElem?_nextBranch
  simp only [fork, ends_bind]
  refine ends_branchMut (fun branch found => ?_) fun _ => Std.Refl.refl cache
  refine ends_require.mpr ⟨fun _ => ?_, fun _ => Std.Refl.refl cache⟩
  refine ends_withStoreMut (fun same foundSame => ?_) (fun _ => keeping_of_branches rfl rfl rfl)
    fun _ => Std.Refl.refl cache
  refine (LawfulForkableStore.forkStore_copy cache.world same.store).mono ?_
  rintro result pair ⟨untouched, -⟩
  have stored : Keeping cache (setStore source pair { cache with faults := cache.faults.tail }) :=
    keeping_setStore source foundSame fun key identity _ resolved =>
      (untouched.identities key).trans resolved
  cases result with
  | error error => exact stored
  | ok childStore =>
    have parted : Keeping cache
        { setStore source pair { cache with faults := cache.faults.tail } with
          branches := (setStore source pair
            { cache with faults := cache.faults.tail }).branches.modify source parentOf } :=
      IsTrans.trans _ _ _ stored
        (keeping_modifyBranch _ source fun _ _ _ _ _ resolved => resolved)
    simp only [Except.mapError, ends_modifyBranch, ends_get]
    refine ends_orInvalid (fun next _ => ?_) parted
    refine IsTrans.trans _ _ _ parted (keeping_insertBranch ?_ next _)
    have older : source ≠ cache.nextBranch := by
      intro same
      rw [same, fresh] at found
      cases found
    simp only [setStore, ExtTreeMap.getElem?_modify, fresh, Std.LawfulEqOrd.compare_eq_iff_eq,
      older, if_false]

end Branches

/-!
## Loading, copying and dropping
-/

variable [Std.TransOrd Identity] {id : CacheBranchId} {branch : CacheBranch Store} {key : PageKey}
  {identity : Identity}

structure Unleaked (cache : SharedPageCache World Store Identity) : Prop where
  aligned : ∀ key ∈ cache.knownPages, Aligned key
  seen : ∀ (identity : Identity) page, cache.pages[identity]? = some page → cache.Seen identity

theorem Keeping.unleaked {after : SharedPageCache World Store Identity}
    (keeps : Keeping cache after) (unleaked : cache.Unleaked) : after.Unleaked := by
  refine ⟨by rw [keeps.known]; exact unleaked.aligned, fun identity page resident => ?_⟩
  rw [keeps.pages] at resident
  obtain ⟨id, branch, found, key, known, resolved⟩ := unleaked.seen identity page resident
  obtain ⟨later, foundLater, kept⟩ := keeps.branches id branch found
  exact ⟨id, later, foundLater, key, by rw [keeps.known]; exact known,
    kept key identity (unleaked.aligned key known) resolved⟩

def UnleakedBut (cache : SharedPageCache World Store Identity) (identity : Identity) : Prop :=
  (∀ key ∈ cache.knownPages, Aligned key) ∧
    ∀ (other : Identity) page, cache.pages[other]? = some page → other ≠ identity → cache.Seen other

theorem Unleaked.but (unleaked : cache.Unleaked) (identity : Identity) :
    cache.UnleakedBut identity :=
  ⟨unleaked.aligned, fun other page resident _ => unleaked.seen other page resident⟩

def UnleakedWith (cache : SharedPageCache World Store Identity) (key : PageKey) : Prop :=
  ({ cache with knownPages := cache.knownPages.insert key } :
    SharedPageCache World Store Identity).Unleaked

theorem unleakedWith_of (aligned : Aligned key) (known : ∀ other ∈ cache.knownPages, Aligned other)
    (seen : ∀ (other : Identity) page, cache.pages[other]? = some page → cache.Seen other ∨
      ∃ (id : CacheBranchId) (branch : CacheBranch Store), cache.branches[id]? = some branch ∧
        identityOf World branch.store key = some other) :
    cache.UnleakedWith key := by
  have inserted : key ∈ cache.knownPages.insert key := by simp
  refine ⟨fun other member => ?_, fun other page resident => ?_⟩
  · cases ExtTreeSet.mem_insert.mp member with
    | inl same =>
      obtain rfl : key = other := by simpa using same
      exact aligned
    | inr older => exact known other older
  · cases seen other page resident with
    | inl before =>
      obtain ⟨id, branch, found, seenKey, older, resolved⟩ := before
      exact ⟨id, branch, found, seenKey, ExtTreeSet.mem_insert.mpr (.inr older), resolved⟩
    | inr now =>
      obtain ⟨id, branch, found, resolved⟩ := now
      exact ⟨id, branch, found, key, inserted, resolved⟩

theorem seen_takePage {pair : World × Store} {newIdentity other : Identity} {newPage : Nat}
    (found : cache.branches[id]? = some branch) (known : ∀ key ∈ cache.knownPages, Aligned key)
    (resolved : identityOf World branch.store key = some identity)
    (others : ∀ other, Aligned other → other ≠ key →
      identityOf World pair.2 other = identityOf World branch.store other)
    (different : other ≠ identity) (seen : cache.Seen other) :
    (takePage id key newIdentity newPage pair cache).Seen other := by
  obtain ⟨owner, state, foundState, seenKey, member, seen⟩ := seen
  have taken := branches_takePage found key newIdentity newPage pair owner
  by_cases here : owner = id
  · subst here
    cases found.symm.trans foundState
    rw [if_pos rfl] at taken
    refine ⟨owner, _, taken, seenKey, member, ?_⟩
    rw [← seen]
    refine others seenKey (known seenKey member) fun same => different ?_
    rw [same] at seen
    exact Option.some.inj (seen.symm.trans resolved)
  · rw [if_neg here] at taken
    exact ⟨owner, state, taken.trans foundState, seenKey, member, seen⟩

theorem ends_loadPage_unleaked [Std.LawfulEqOrd Identity] [FileView Store]
    [IdentityLedger World Identity] [StoreLedger World Store] (unleaked : cache.Unleaked)
    (id : CacheBranchId)
    (identity : Identity) (key : PageKey) :
    Ends (loadPage id identity key) cache fun result after =>
      after.branches = cache.branches ∧
        ((∀ page, result ≠ .ok page) → after.Unleaked) ∧ after.UnleakedBut identity := by
  have tail : ∀ faults, ({ cache with faults } : SharedPageCache World Store Identity).Unleaked :=
    fun faults => (keeping_of_branches rfl rfl rfl : Keeping cache { cache with faults }).unleaked
      unleaked
  simp only [loadPage, ends_bind, ends_get]
  cases cached : cache.pages[identity]? with
  | some page => exact ⟨rfl, fun _ => unleaked, unleaked.but identity⟩
  | none =>
    simp only [ends_bind]
    refine ends_askStore (fun branch bytes found read => ?_)
      (fun _ => ⟨rfl, fun _ => tail _, (tail _).but identity⟩)
      fun _ => ⟨rfl, fun _ => unleaked, unleaked.but identity⟩
    refine (ends_fromBytes (ByteMap.ofList bytes) _).mono ?_
    rintro result middle ⟨-, failed, made⟩
    cases result with
    | error error =>
      rw [failed error rfl]
      exact ⟨rfl, fun _ => tail _, (tail _).but identity⟩
    | ok page =>
      obtain ⟨rfl, rfl⟩ := made page rfl
      simp only [ends_modify, ends_pure]
      refine ⟨trivial, fun returned => absurd rfl (returned _), unleaked.aligned, ?_⟩
      intro other page resident different
      refine unleaked.seen other page ?_
      rwa [ExtTreeMap.getElem?_insert, if_neg] at resident
      simpa using different.symm

variable [DecidableEq Identity]

theorem UnleakedBut.know (unleaked : cache.UnleakedBut identity)
    (found : cache.branches[id]? = some branch) (aligned : Aligned key)
    (resolved : identityOf World branch.store key = some identity) : cache.UnleakedWith key := by
  refine unleakedWith_of aligned unleaked.1 fun other page resident => ?_
  by_cases here : other = identity
  · subst here
    exact .inr ⟨id, branch, found, resolved⟩
  · exact .inl (unleaked.2 other page resident here)

variable [Std.LawfulEqOrd Identity]

theorem unleakedWith_dropHidden (aligned : Aligned key)
    (known : ∀ other ∈ cache.knownPages, Aligned other)
    (seen : ∀ (other : Identity) page, cache.pages[other]? = some page → other ≠ identity →
      cache.Seen other ∨ ∃ (id : CacheBranchId) (branch : CacheBranch Store),
        cache.branches[id]? = some branch ∧ identityOf World branch.store key = some other) :
    (dropHidden key identity cache).UnleakedWith key := by
  unfold dropHidden
  split
  next visible =>
    refine unleakedWith_of aligned known fun other page resident => ?_
    by_cases here : other = identity
    · subst here
      exact .inr (identityIsVisible_iff.mp visible)
    · exact seen other page resident here
  next =>
    refine unleakedWith_of aligned known fun other page resident => ?_
    rw [TreeMap.getElem?_erase_ite, Option.ite_none_left_eq_some] at resident
    exact seen other page resident.2 resident.1

theorem ends_removeBranch_unleaked (unleaked : cache.Unleaked) (id : CacheBranchId) :
    Ends (removeBranch id) cache fun _ after => after.Unleaked := by
  simp only [removeBranch, ends_bind]
  refine ends_branchMut (fun branch found => ?_) fun _ => unleaked
  refine ends_require.mpr ⟨fun _ => ?_, fun _ => unleaked⟩
  simp only [ends_modify]
  refine ⟨unleaked.aligned, fun identity page resident => ?_⟩
  rw [TreeMap.getElem?_filter_key] at resident
  split at resident
  next visible =>
    obtain ⟨key, known, owner, state, foundState, resolved⟩ :=
      mem_visibleIdentities.mp (of_decide_eq_true visible)
    exact ⟨owner, state, foundState, key, known, resolved⟩
  next => cases resident

variable [FileView Store] [IdentityLedger World Identity] [StoreLedger World Store]
  [LawfulForkableStore World Store Identity]

theorem ends_copyPage_unleaked (good : Good held cache) (found : cache.branches[id]? = some branch)
    (aligned : Aligned key) (resolved : identityOf World branch.store key = some identity)
    (unleaked : cache.UnleakedBut identity) (page : Nat) :
    Ends (copyPage id key identity page) cache fun result after =>
      match result with
      | .ok _ => after.UnleakedWith key
      | .error error => ∃ io, error = .io io := by
  simp only [copyPage, ends_bind]
  have kept : Moves Keeping (duplicate page : SharedM World Store Identity Nat) := moves_duplicate _
  refine (((ends_duplicate page cache).and (kept cache)).and
    (ends_duplicate_io page cache)).mono ?_
  rintro result middle ⟨⟨⟨grown, branches, samePages, -⟩, keeps⟩, fails⟩
  cases result with
  | error error => exact fails error rfl
  | ok newPage =>
    have foundMiddle : middle.branches[id]? = some branch := by rw [branches, found]
    have goodMiddle := grown.good good
    refine ends_withStoreMut (fun same foundSame => ?_) (fun fault => ⟨fault, rfl⟩)
      fun absent => by rw [foundMiddle] at absent; cases absent
    obtain rfl : branch = same := Option.some.inj (foundMiddle.symm.trans foundSame)
    refine (LawfulForkableStore.preparePageWrite_fresh key middle.world branch.store
      aligned (goodMiddle.registered id branch foundMiddle)).mono ?_
    rintro prepared pair ⟨-, -, -, others, -, fresh⟩
    cases prepared with
    | error error => exact ⟨error, rfl⟩
    | ok newIdentity =>
      obtain ⟨resolvedNew, -, -⟩ := fresh newIdentity rfl
      simp only [Except.mapError, ends_modify, ends_modifyBranch, ends_pure]
      rw [modify_dropHidden rfl id (fun state =>
        { state with exclusivePages := state.exclusivePages.insert key }) fun _ => rfl]
      have known : ∀ other ∈ middle.knownPages, Aligned other := by
        rw [keeps.known]
        exact unleaked.1
      have foundQuiet : ({ middle with faults := middle.faults.tail } :
        SharedPageCache World Store Identity).branches[id]? = some branch := foundMiddle
      refine unleakedWith_dropHidden aligned known fun other page' resident different => ?_
      have taken := branches_takePage foundQuiet key newIdentity newPage pair id
      by_cases new : other = newIdentity
      · subst new
        rw [if_pos rfl] at taken
        exact .inr ⟨id, _, taken, resolvedNew⟩
      · refine .inl (seen_takePage foundQuiet known resolved others different ?_)
        have older : cache.pages[other]? = some page' := by
          rw [← samePages]
          change (middle.pages.insert newIdentity newPage)[other]? = some page' at resident
          rwa [TreeMap.getElem?_insert_ite, if_neg new] at resident
        obtain ⟨owner, state, foundState, seenKey, member, seen⟩ :=
          unleaked.2 other page' older different
        exact ⟨owner, state, by rw [← foundState, ← branches], seenKey,
          by rw [← keeps.known] at member; exact member, seen⟩

theorem ends_pageFor_unleaked (good : Good held cache) (found : cache.branches[id]? = some branch)
    (aligned : Aligned key) (resolved : identityOf World branch.store key = some identity)
    (unleaked : cache.UnleakedBut identity) (page : Nat) (copyOnWrite : Bool) :
    Ends (pageFor id key identity page copyOnWrite) cache fun result after =>
      match result with
      | .ok _ => after.UnleakedWith key
      | .error error => ∃ io, error = .io io := by
  cases copyOnWrite with
  | true => exact ends_copyPage_unleaked good found aligned resolved unleaked page
  | false => exact unleaked.know found aligned resolved

theorem ends_mapPage_unleaked (good : Good held cache) (unleaked : cache.Unleaked)
    (id : CacheBranchId) (node offset : Nat) (flags : MapFlags) :
    Ends (mapPage id node offset flags) cache fun result after =>
      (∀ error, result ≠ .error (.io error)) → after.Unleaked := by
  simp only [mapPage, ends_bind]
  refine ends_require.mpr ⟨fun aligned => ?_, fun _ _ => unleaked⟩
  have alignedKey : Aligned (node, offset) := aligned
  refine ends_require.mpr ⟨fun _ => ?_, fun _ _ => unleaked⟩
  refine ends_branchMut (fun branch found => ?_) fun _ _ => unleaked
  refine ends_require.mpr ⟨fun _ => ?_, fun _ _ => unleaked⟩
  refine ends_orIo (fun identity answered => ?_) fun error served => absurd rfl (served error)
  have resolved : identityOf World branch.store (node, offset) = some identity := by
    rw [identityOf, answered]
    rfl
  refine ((ends_loadPage_unleaked unleaked id identity (node, offset)).and
    (ends_loadPage good found alignedKey resolved)).mono ?_
  rintro loaded middle ⟨⟨branches, failed, but⟩, goodMiddle, -, -, resident⟩
  cases loaded with
  | error error => exact fun _ => failed fun _ => by rintro ⟨⟩
  | ok page =>
    have foundMiddle : middle.branches[id]? = some branch := by rw [branches, found]
    have mapped := activeCount_pos_iff goodMiddle foundMiddle alignedKey resolved
      (resident page rfl)
    refine ends_require.mpr ⟨fun _ => ?_, fun busy _ => ?_⟩
    · refine (ends_pageFor_unleaked goodMiddle foundMiddle alignedKey resolved but page _).mono
        fun chosen final seen => ?_
      cases chosen with
      | error error =>
        obtain ⟨io, rfl⟩ := seen
        exact fun served => absurd rfl (served io)
      | ok newPage =>
        simp only [ends_modify, ends_modifyBranch, ends_get, ends_pure]
        intro _
        have counted : Keeping { final with knownPages := final.knownPages.insert (node, offset) }
            { final with
              knownPages := final.knownPages.insert (node, offset)
              branches := final.branches.modify id fun branch => branch.addActive newPage } :=
          keeping_modifyBranch _ id fun _ _ _ _ _ resolved => resolved
        exact counted.unleaked seen
    · -- A page that is busy is mapped, so its key is known.
      obtain ⟨mapping, member, -, key⟩ := mapped.mp (Decidable.not_not.mp busy).2
      obtain ⟨origin, sound⟩ := goodMiddle.sound
      have known : (node, offset) ∈ middle.knownPages :=
        key ▸ (sound.held_backed mapping member).2.1
      refine ⟨but.1, fun other other' residentOther => ?_⟩
      by_cases here : other = identity
      · subst here
        exact ⟨id, branch, foundMiddle, (node, offset), known, resolved⟩
      · exact but.2 other other' residentOther here

end SharedPageCache

/-!
## Every run
-/

namespace System

open SharedPageCache

variable {World Store Identity : Type} [Ord Identity] [Std.TransOrd Identity]
  [ForkableNodeStore World Store Identity] {system : System World Store Identity}

theorem attempt_unleaked {α : Type} {operation : SharedM World Store Identity α}
    {reply : α → Reply} (kept : Ends operation system.cache fun _ after => after.Unleaked) :
    (system.attempt operation reply).1.cache.Unleaked := by
  unfold attempt
  unfold Ends at kept
  cases executed : operation.exec system.cache with
  | mk result cache =>
    rw [executed] at kept
    cases result with
    | ok value => exact kept
    | error error => exact kept

theorem attempt_keeping {α : Type} (unleaked : system.cache.Unleaked)
    {operation : SharedM World Store Identity α} {reply : α → Reply}
    (kept : Ends operation system.cache fun _ after => Keeping system.cache after) :
    (system.attempt operation reply).1.cache.Unleaked :=
  attempt_unleaked (kept.mono fun _ _ keeps => keeps.unleaked unleaked)

variable [DecidableEq Identity]

theorem keeping_advance {call : Call DaxPageMapping} (other : call.phase ≠ .map) :
    Moves Keeping (call.advance : SharedM World Store Identity (Progress DaxPageMapping)) := by
  unfold Call.advance
  cases phase : call.phase with
  | measure => exact call.moves_measure
  | map => exact absurd phase other
  | copy mapping => exact moves_bind (call.moves_copyChunk mapping) fun _ => moves_pure _
  | unmap mapping => exact moves_bind (keeping_unmap call.branch mapping) fun _ => moves_pure _

variable [Std.LawfulEqOrd Identity] [FileView Store] [IdentityLedger World Identity]
  [StoreLedger World Store] [LawfulForkableStore World Store Identity]

theorem ends_advance_unleaked (good : Good system.mappings system.cache)
    (unleaked : system.cache.Unleaked) (call : Call DaxPageMapping) :
    Ends call.advance system.cache fun result after =>
      (∀ error, result ≠ .error (.io error)) → after.Unleaked := by
  by_cases phase : call.phase = .map
  · simp only [Call.advance, phase, ends_bind]
    refine (ends_mapPage_unleaked good unleaked _ _ _ _).mono fun result after seen => ?_
    cases result with
    | error error =>
      exact fun served => seen fun io same => served io (by rw [Except.error.inj same])
    | ok mapping => exact fun _ => seen fun _ => by rintro ⟨⟩
  · exact (keeping_advance phase system.cache).mono fun _ _ kept _ => kept.unleaked unleaked

variable [FileMaker World Store] [LawfulFileMaker World Store Identity]

theorem unleaked_step (consistent : Consistent system) (unleaked : system.cache.Unleaked)
    (action : Action) (served : ¬ (system.step action).2.isIo) :
    (system.step action).1.cache.Unleaked := by
  cases action with
  | fork source => exact attempt_keeping unleaked (ends_fork_keeping consistent.good source)
  | removeBranch branch => exact attempt_unleaked (ends_removeBranch_unleaked unleaked branch)
  | openNode branch node => exact attempt_keeping unleaked (keeping_openNode branch node _)
  | close branch node => exact attempt_keeping unleaked (keeping_close branch node _)
  | createFile branch name size =>
    exact attempt_keeping unleaked (ends_createFile_keeping consistent.good branch name size)
  | metadata branch node => exact attempt_keeping unleaked (moves_askStore branch _ _)
  | sync branch node => exact attempt_keeping unleaked (keeping_sync branch node _)
  | syncAll branch => exact attempt_keeping unleaked (keeping_syncAll branch _)
  | otherPages count => exact attempt_keeping unleaked (keeping_of_branches rfl rfl rfl)
  | mapPage branch node offset flags =>
    have kept := ends_mapPage_unleaked consistent.good unleaked branch node offset flags
    unfold Ends at kept
    simp only [step, System.mapPage] at served ⊢
    cases executed : (SharedPageCache.mapPage branch node offset flags).exec system.cache with
    | mk result cache =>
      rw [executed] at kept served
      cases result with
      | ok mapping => exact kept fun _ => by rintro ⟨⟩
      | error error =>
        refine kept fun io same => served ?_
        cases same
        rfl
  | store mapping place data =>
    simp only [step, System.store]
    split
    next =>
      have kept : Keeping system.cache { system.cache with
          contents := Function.update system.cache.contents mapping.page
            ((system.cache.contents mapping.page).write place data) } :=
        keeping_of_branches rfl rfl rfl
      exact kept.unleaked unleaked
    next => exact unleaked
  | unmap branch mapping =>
    have kept := keeping_unmap branch mapping system.cache
    unfold Ends at kept
    simp only [step, System.unmap]
    split
    next =>
      cases executed : (SharedPageCache.unmap branch mapping).exec system.cache with
      | mk result cache =>
        rw [executed] at kept
        cases result with
        | ok done => exact kept.unleaked unleaked
        | error error => exact kept.unleaked unleaked
    next => exact unleaked
  | begin thread job branch node offset =>
    simp only [step, System.begin]
    split
    next => exact unleaked
    next => exact unleaked
  | advance thread =>
    cases active : system.calls[thread]? with
    | none =>
      simp only [step, System.advance, active]
      exact unleaked
    | some call =>
      have kept := ends_advance_unleaked consistent.good unleaked call
      rw [cache_advance active]
      simp only [step, System.advance, active] at served
      unfold Ends at kept
      refine kept fun io failed => served ?_
      cases executed : call.advance.exec system.cache with
      | mk result cache =>
        rw [executed] at failed
        subst failed
        simp only [Call.failure]
        split <;> rfl

end System

end Minidox.Cache
