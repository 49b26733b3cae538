import Minidox.Cache.Shared.Operations

/-!
# Syncing

A sync writes unsynced pages to the store of their branch. No branch sees it, and
a page whose mark is gone is held by the store. It writes the pages that it is asked
for and no others, whoever has them mapped.
-/

set_option autoImplicit false

namespace Minidox.Cache.SharedPageCache

open Foundation Attempt

variable {World Store Identity : Type} [Ord Identity] [Std.TransOrd Identity]
  [ForkableNodeStore World Store Identity] [FileView Store]
  {held : List DaxPageMapping} {cache : SharedPageCache World Store Identity}
  {id : CacheBranchId} {branch : CacheBranch Store} {key : PageKey}

/-- The store holds the bytes of the resident page, below the end of the file. -/
def SavedPage (cache : SharedPageCache World Store Identity) (store : Store) (key : PageKey) :
    Prop :=
  ∀ identity page length index, identityOf World store key = some identity →
    cache.pages[identity]? = some page → FileView.fileLen store key.1 = some length →
    index < pageSize → key.2 + index < length →
    cache.contents page index = FileView.fileByte store key.1 (key.2 + index)

def Resident (cache : SharedPageCache World Store Identity) (store : Store) (key : PageKey) :
    Prop :=
  ∀ identity, identityOf World store key = some identity → cache.pages[identity]? ≠ none

/-- What a sync of some pages does to the store of the branch. -/
structure StoreFlushed (cache : SharedPageCache World Store Identity) (keys : List PageKey)
    (result : Except CacheError Unit) (before after : Store) : Prop where
  identities : ∀ key, identityOf World after key = identityOf World before key
  lengths : FileView.fileLen after = FileView.fileLen before
  others : ∀ node position, (node, pageOf position) ∉ keys →
    FileView.fileByte after node position = FileView.fileByte before node position
  flushed : result = .ok () → ∀ key ∈ keys, cache.SavedPage after key
  current : result = .error .staleMapping → ∃ key ∈ keys, ¬ cache.Resident before key

theorem StoreFlushed.of_pages {other : SharedPageCache World Store Identity} {keys : List PageKey}
    {result : Except CacheError Unit} {before after : Store} (pages : other.pages = cache.pages)
    (contents : other.contents = cache.contents)
    (flushed : StoreFlushed other keys result before after) :
    StoreFlushed cache keys result before after where
  identities := flushed.identities
  lengths := flushed.lengths
  others := flushed.others
  flushed returned key member := by
    have saved := flushed.flushed returned key member
    unfold SavedPage at saved ⊢
    rw [← pages, ← contents]
    exact saved
  current stale := by
    obtain ⟨key, member, gone⟩ := flushed.current stale
    refine ⟨key, member, ?_⟩
    unfold Resident at gone ⊢
    rw [← pages]
    exact gone

theorem StoreFlushed.cons {rest : List PageKey} {result : Except CacheError Unit}
    {before middle after : Store} (single : key ∉ rest) (aligned : Aligned key)
    (first : StoreFlushed cache [key] (.ok ()) before middle)
    (second : StoreFlushed cache rest result middle after) :
    StoreFlushed cache (key :: rest) result before after where
  identities other := (second.identities other).trans (first.identities other)
  lengths := second.lengths.trans first.lengths
  others node position apart := by
    rw [List.mem_cons, not_or] at apart
    rw [second.others node position apart.2,
      first.others node position (by rw [List.mem_singleton]; exact apart.1)]
  flushed returned other member := by
    cases List.mem_cons.mp member with
    | inr later => exact second.flushed returned other later
    | inl here =>
      subst here
      have saved := first.flushed rfl other (List.mem_singleton_self other)
      intro identity page length index resolved resident known inPage below
      rw [second.identities] at resolved
      rw [second.lengths] at known
      have page' : pageOf (other.2 + index) = other.2 :=
        pageOf_eq_of_mem aligned (Nat.le_add_right _ _) (by omega)
      rw [second.others other.1 (other.2 + index) (by rw [page']; exact single)]
      exact saved identity page length index resolved resident known inPage below
  current stale := by
    obtain ⟨other, member, gone⟩ := second.current stale
    refine ⟨other, List.mem_cons_of_mem _ member, fun present => gone ?_⟩
    intro identity resolved
    rw [first.identities] at resolved
    exact present identity resolved

variable [IdentityLedger World Identity] [StoreLedger World Store]

/-- A sync of marked pages of a branch. No branch sees it, and it leaves the pages as they
are. -/
structure Flushed (held : List DaxPageMapping) (id : CacheBranchId) (keys : List PageKey)
    (branch : CacheBranch Store) (cache : SharedPageCache World Store Identity)
    (result : Except CacheError Unit) (after : SharedPageCache World Store Identity) : Prop where
  good : Good held after
  same : (lineageOf cache).SameView (lineageOf after)
  pages : after.pages = cache.pages
  contents : after.contents = cache.contents
  store : ∃ next, after.branches[id]? = some next ∧
    StoreFlushed cache keys result branch.store next.store ∧
    (result = .ok () → ∀ other, next.dirtyPages.IsDirty other ↔
      other ∉ keys ∧ branch.dirtyPages.IsDirty other)

theorem good_written (good : Good held cache) (found : cache.branches[id]? = some branch)
    (dirty : branch.dirtyPages.IsDirty key) {pair : World × Store}
    (lengths : FileView.fileLen pair.2 = FileView.fileLen branch.store)
    (inPage : Lineage.InPage key (FileView.fileByte branch.store) (FileView.fileByte pair.2))
    (identities : ∀ other, identityOf World pair.2 other = identityOf World branch.store other)
    (ledger : Advanced Store Identity cache.world pair.1)
    (known : StoreLedger.Registered cache.world branch.store →
      StoreLedger.Registered pair.1 pair.2) :
    Good held (setStore id pair cache) ∧
      (lineageOf cache).SameView (lineageOf (setStore id pair cache)) := by
  obtain ⟨origin, sound⟩ := good.sound
  have view : (viewOf World { branch with store := pair.2 } : LineageBranch Identity) =
      { viewOf World branch with byte := FileView.fileByte pair.2 } := by
    simp only [viewOf, LineageBranch.mk.injEq, and_true, identities, true_and]
    exact lengths
  have foundView := branches_lineageOf found
  have written := sound.writeBack foundView dirty inPage
  have grows : ((lineageOf cache).setBranch id
      { viewOf World branch with byte := FileView.fileByte pair.2 }).Grows
      (lineageOf (setStore id pair cache)) := by
    rw [lineageOf_setStore found, view]
    exact { Lineage.grows_refl _ with issued := ledger.issued }
  exact ⟨⟨⟨origin, written.grow grows⟩, good.owner,
      good.registered.setStore id ledger (known (good.registered id branch found))⟩,
    (sound.sameView_writeBack foundView dirty inPage).trans (written.sameView_grow grows)⟩

theorem Good.aligned_of_dirty (good : Good held cache) (found : cache.branches[id]? = some branch)
    (dirty : branch.dirtyPages.IsDirty key) : Aligned key := by
  obtain ⟨origin, sound⟩ := good.sound
  exact (sound.dirty_resident (branches_lineageOf found) dirty).1

theorem flushed_failed (good : Good held cache) (found : cache.branches[id]? = some branch)
    (faults : Faults) {error : CacheError} (fresh : error ≠ .staleMapping) :
    Flushed held id [key] branch cache (.error error) { cache with faults } where
  good := (grown_faults cache faults).good good
  same := (grown_faults cache faults).sameView good
  pages := rfl
  contents := rfl
  store := ⟨branch, found, ⟨fun _ => rfl, rfl, fun _ _ _ => rfl, (by rintro ⟨⟩),
    fun stale => absurd (Except.error.inj stale) fresh⟩, (by rintro ⟨⟩)⟩

theorem ends_markClean {now : SharedPageCache World Store Identity} {next : CacheBranch Store}
    (good : Good held now) (found : now.branches[id]? = some next)
    (marks : next.dirtyPages = branch.dirtyPages)
    (same : (lineageOf cache).SameView (lineageOf now)) (pages : now.pages = cache.pages)
    (contents : now.contents = cache.contents)
    (written : StoreFlushed cache [key] (.ok ()) branch.store next.store) :
    Ends (markClean id key) now (Flushed held id [key] branch cache) := by
  obtain ⟨origin, sound⟩ := good.sound
  have foundView := branches_lineageOf found
  have cleaned := lineageOf_modifyBranch found fun branch =>
    { branch with dirtyPages := branch.dirtyPages.markClean key }
  have sameStore : Lineage.SameStore (viewOf World next : LineageBranch Identity)
      (viewOf World { next with dirtyPages := next.dirtyPages.markClean key }) :=
    ⟨rfl, rfl, rfl, fun _ owned => owned⟩
  refine ⟨⟨⟨origin, ?_⟩, good.owner, good.registered.modify id fun _ => rfl⟩,
    same.trans (cleaned ▸ Lineage.sameView_setBranch foundView sameStore), pages, contents,
    { next with dirtyPages := next.dirtyPages.markClean key }, ?_, written, fun _ other => ?_⟩
  · refine cleaned ▸ sound.markClean foundView sameStore rfl rfl
      (fun other => DirtyBranch.isDirty_markClean) ?_
    intro identity page resolved resident size index known inPage short
    by_cases aligned : Aligned key
    · rw [ident_viewOf aligned] at resolved
      have saved := written.flushed rfl key (List.mem_singleton_self key)
      unfold SavedPage at saved
      rw [← pages, ← contents] at saved
      exact saved identity page size index resolved resident known inPage short
    · rw [show (viewOf World next : LineageBranch Identity).ident key = none from
        if_neg aligned] at resolved
      cases resolved
  · change (now.branches.modify id _)[id]? = _
    simp [found]
  · rw [DirtyBranch.isDirty_markClean, marks, List.mem_singleton, ne_comm]

variable [LawfulForkableStore World Store Identity]

theorem ends_writeBackPage (good : Good held cache) (found : cache.branches[id]? = some branch)
    (dirty : branch.dirtyPages.IsDirty key) {length : Nat}
    (known : FileView.fileLen branch.store key.1 = some length) (below : key.2 < length) :
    Ends (writeBackPage id key length) cache (Flushed held id [key] branch cache) := by
  simp only [writeBackPage, ends_bind]
  refine ends_branchMut_of found ?_
  refine ends_orIo (fun identity answered => ?_) fun _ => flushed_failed good found _ (by rintro ⟨⟩)
  have resolved : identityOf World branch.store key = some identity := by
    rw [identityOf, answered]
    rfl
  simp only [ends_get]
  cases resident : cache.pages[identity]? with
  | none =>
    refine ⟨good, Lineage.sameView_refl _, rfl, rfl, branch, found, ⟨fun _ => rfl, rfl,
      fun _ _ _ => rfl, (by rintro ⟨⟩), fun _ => ⟨key, List.mem_singleton_self key, ?_⟩⟩,
      (by rintro ⟨⟩)⟩
    exact fun present => present identity resolved resident
  | some page =>
    simp only [ends_bind]
    refine ends_probe ?_ fun _ => flushed_failed good found _ (by rintro ⟨⟩)
    refine ends_withStoreMut ?_ (fun _ => flushed_failed good found _ (by rintro ⟨⟩))
      fun absent => by rw [found] at absent; cases absent
    intro same foundSame
    obtain rfl : branch = same := Option.some.inj (found.symm.trans foundSame)
    have size : ((cache.contents page).read 0 (min (length - key.2) pageSize)).length =
        min (length - key.2) pageSize := ByteMap.length_read _ _ _
    refine ((LawfulNodeStore.writeNode_frame key.1 key.2
      ((cache.contents page).read 0 (min (length - key.2) pageSize)) cache.world branch.store
      length known (by omega)).and
      (LawfulForkableStore.writeNode_identities key.1 key.2 _ cache.world branch.store)).mono ?_
    rintro result pair ⟨⟨lengths, outside, inside⟩, identities, ledger, registered⟩
    have inPage : Lineage.InPage key (FileView.fileByte branch.store)
        (FileView.fileByte pair.2) := by
      intro node position apart
      refine outside node position fun within => apart ⟨within.1, within.2.1, ?_⟩
      have upper := within.2.2
      omega
    have others : ∀ node position, (node, pageOf position) ∉ [key] →
        FileView.fileByte pair.2 node position =
          FileView.fileByte branch.store node position := by
      intro node position apart
      refine inPage node position fun within => apart ?_
      obtain ⟨rfl, lower, upper⟩ := within
      rw [List.mem_singleton, pageOf_eq_of_mem (good.aligned_of_dirty found dirty) lower upper]
    have quiet := grown_faults cache cache.faults.tail.tail
    obtain ⟨goodWritten, sameWritten⟩ := good_written (quiet.good good) found dirty lengths inPage
      identities ledger registered
    have seen := (quiet.sameView good).trans sameWritten
    have there : (setStore id pair { cache with faults := cache.faults.tail.tail }).branches[id]? =
        some { branch with store := pair.2 } := by
      simp [setStore, found]
    have partly : ∀ error, error ≠ .staleMapping →
        Flushed held id [key] branch cache (.error error)
          (setStore id pair { cache with faults := cache.faults.tail.tail }) := fun error fresh =>
      ⟨goodWritten, seen, rfl, rfl, _, there, ⟨identities, lengths, others, (by rintro ⟨⟩),
        fun stale => absurd (Except.error.inj stale) fresh⟩, (by rintro ⟨⟩)⟩
    cases result with
    | error error => exact partly _ (by rintro ⟨⟩)
    | ok written =>
      simp only [Except.mapError, ends_require]
      refine ⟨fun whole => ?_, fun _ => partly _ (by rintro ⟨⟩)⟩
      refine ends_markClean goodWritten there rfl seen rfl rfl
        ⟨identities, lengths, others, fun _ => ?_, (by rintro ⟨⟩)⟩
      intro other member identity' page' length' index resolved' resident' known' inPage short
      rw [List.mem_singleton] at member
      subst member
      rw [identities, resolved] at resolved'
      cases resolved'
      rw [resident] at resident'
      cases resident'
      rw [lengths, known] at known'
      cases known'
      have stored := (inside written rfl).2 (other.2 + index) (Nat.le_add_right _ _) (by omega)
      rw [Nat.add_sub_cancel_left, ByteMap.getD_read _ (by omega), Nat.zero_add] at stored
      exact stored.symm

theorem ends_syncPage (good : Good held cache) (found : cache.branches[id]? = some branch)
    (dirty : branch.dirtyPages.IsDirty key) :
    Ends (syncPage id key) cache (Flushed held id [key] branch cache) := by
  have quiet := grown_faults cache cache.faults.tail
  simp only [syncPage, ends_bind]
  refine ends_askStore ?_ (fun _ => flushed_failed good found _ (by rintro ⟨⟩))
    fun absent => by rw [found] at absent; cases absent
  intro same length foundSame measured
  obtain rfl : branch = same := Option.some.inj (found.symm.trans foundSame)
  have known := LawfulNodeStore.len_ok measured
  simp only [ends_ite]
  constructor
  · intro past
    refine ends_markClean (quiet.good good) found rfl (quiet.sameView good) rfl rfl
      ⟨fun _ => rfl, rfl, fun _ _ _ => rfl, fun _ => ?_, (by rintro ⟨⟩)⟩
    -- No byte of the page is below the end of the file.
    intro other member identity page size index _ _ sized _ inside
    rw [List.mem_singleton] at member
    subst member
    rw [sized] at known
    cases known
    exact absurd inside (by omega)
  · intro short
    refine (ends_writeBackPage (quiet.good good) found dirty known (by omega)).mono ?_
    rintro result after ⟨goodAfter, same, pages, contents, next, foundNext, written, marks⟩
    refine ⟨goodAfter, (quiet.sameView good).trans same, pages, contents, next, foundNext,
      written.of_pages ?_ ?_, marks⟩
    · rfl
    · rfl

/-- A page is in the list at most once, so that it is still unsynced when its turn
comes. -/
theorem ends_syncPages {keys : List PageKey} (good : Good held cache)
    (found : cache.branches[id]? = some branch) (distinct : keys.Nodup)
    (dirty : ∀ key ∈ keys, branch.dirtyPages.IsDirty key) :
    Ends (syncPages id keys) cache (Flushed held id keys branch cache) := by
  induction keys generalizing cache branch with
  | nil =>
    exact ⟨good, Lineage.sameView_refl _, rfl, rfl, branch, found, ⟨fun _ => rfl, rfl,
      fun _ _ _ => rfl, fun _ _ => (by rintro ⟨⟩), (by rintro ⟨⟩)⟩, by simp⟩
  | cons key rest ih =>
    obtain ⟨single, distinctRest⟩ := List.nodup_cons.mp distinct
    have dirtyKey := dirty key List.mem_cons_self
    rw [syncPages, List.forM_cons, ends_bind]
    refine (ends_syncPage good found dirtyKey).mono ?_
    rintro result middle ⟨goodMiddle, same, pages, contents, next, foundNext, first, marks⟩
    cases result with
    | error error =>
      refine ⟨goodMiddle, same, pages, contents, next, foundNext, ⟨first.identities,
        first.lengths, ?_, (by rintro ⟨⟩), ?_⟩, (by rintro ⟨⟩)⟩
      · intro node position apart
        rw [List.mem_cons, not_or] at apart
        exact first.others node position (by rw [List.mem_singleton]; exact apart.1)
      · intro stale
        obtain ⟨other, member, gone⟩ := first.current stale
        exact ⟨other, List.mem_cons.mpr (.inl (List.mem_singleton.mp member)), gone⟩
    | ok value =>
      have dirtyRest : ∀ other ∈ rest, next.dirtyPages.IsDirty other := by
        intro other member
        refine (marks rfl other).mpr ⟨?_, dirty other (List.mem_cons_of_mem _ member)⟩
        rw [List.mem_singleton]
        rintro rfl
        exact single member
      refine (ih goodMiddle foundNext distinctRest dirtyRest).mono ?_
      rintro last after
        ⟨goodAfter, sameAfter, pagesAfter, contentsAfter, final, foundFinal, second, left⟩
      refine ⟨goodAfter, same.trans sameAfter, pagesAfter.trans pages,
        contentsAfter.trans contents, final, foundFinal,
        first.cons single (good.aligned_of_dirty found dirtyKey)
          (second.of_pages pages contents), fun returned other => ?_⟩
      simp only [left returned other, marks rfl other, List.mem_cons, not_or]
      tauto

theorem ends_syncWanted_flushed (good : Good held cache) {id : CacheBranchId}
    {branch : CacheBranch Store} (found : cache.branches[id]? = some branch)
    (wanted : PageKey → Bool) :
    Ends (do
      let branch ← branchMut id
      syncPages id (branch.dirtyPages.collect wanted)) cache
      (Flushed held id (branch.dirtyPages.collect wanted) branch cache) := by
  rw [ends_bind]
  refine ends_branchMut_of found ?_
  exact ends_syncPages good found (DirtyBranch.collect_nodup _ _) fun key member =>
    (DirtyBranch.mem_collect.mp member).2

theorem ends_syncWanted (good : Good held cache) (id : CacheBranchId) (wanted : PageKey → Bool) :
    Ends (do
      let branch ← branchMut id
      syncPages id (branch.dirtyPages.collect wanted)) cache fun _ after =>
      Good held after ∧ (lineageOf cache).SameView (lineageOf after) := by
  cases found : cache.branches[id]? with
  | none =>
    rw [ends_bind]
    refine ends_branchMut (fun branch present => ?_) fun _ => ⟨good, Lineage.sameView_refl _⟩
    rw [found] at present
    cases present
  | some branch =>
    exact (ends_syncWanted_flushed good found wanted).mono fun _ _ flushed =>
      ⟨flushed.good, flushed.same⟩

end Minidox.Cache.SharedPageCache
