import Minidox.Cache.Shared.Copies
import Minidox.Cache.Shared.Operations

/-!
# Forking, removing and creating

The operations after which the copies of a lineage are different ones.
-/

set_option autoImplicit false

namespace Minidox.Cache.SharedPageCache

open Foundation Attempt
open Std (ExtTreeMap ExtTreeSet)

variable {World Store Identity : Type} [ForkableNodeStore World Store Identity]

theorem mem_visibleIdentities [Ord Identity] {cache : SharedPageCache World Store Identity}
    {identity : Identity} :
    identity ∈ cache.visibleIdentities ↔ ∃ key ∈ cache.knownPages,
      ∃ (id : CacheBranchId) (branch : CacheBranch Store), cache.branches[id]? = some branch ∧
        identityOf World branch.store key = some identity := by
  simp only [visibleIdentities, List.mem_flatMap, List.mem_filterMap, ExtTreeSet.mem_toList,
    TreeMap.mem_values]
  constructor
  · rintro ⟨key, known, branch, ⟨id, found⟩, resolved⟩
    exact ⟨key, known, id, branch, found, resolved⟩
  · rintro ⟨key, known, id, branch, found, resolved⟩
    exact ⟨key, known, branch, ⟨id, found⟩, resolved⟩

variable [FileView Store] {branch : CacheBranch Store}

def parentOf (branch : CacheBranch Store) : CacheBranch Store :=
  { branch with dirtyPages := branch.dirtyPages.fork.1, exclusivePages := ∅ }

def childOf (branch : CacheBranch Store) (store : Store) : CacheBranch Store :=
  { CacheBranch.new store with dirtyPages := branch.dirtyPages.fork.2 }

theorem copyOf_parent (idle : ∀ page : Nat, branch.activePages[page]? = none) :
    Lineage.CopyOf (viewOf World branch : LineageBranch Identity)
      (viewOf World (parentOf branch)) where
  ident := rfl
  len := rfl
  byte := rfl
  dirty _ := DirtyBranch.isDirty_pushMarks
  exclusive _ := ExtTreeSet.not_mem_empty
  active := idle

theorem copyOf_child {store : Store} (files : SameFiles store branch.store)
    (identities : ∀ key, identityOf World store key = identityOf World branch.store key) :
    Lineage.CopyOf (viewOf World branch : LineageBranch Identity)
      (viewOf World (childOf branch store)) where
  ident := by
    funext key
    simp only [viewOf, childOf, CacheBranch.new, identities]
  len := files.1
  byte := files.2
  dirty _ := DirtyBranch.isDirty_child
  exclusive _ := ExtTreeSet.not_mem_empty
  active _ := ExtTreeMap.getElem?_empty

theorem newFile_viewOf {lineage : Lineage Identity}
    {pair : World × Store} {node : NodeId} {issued : Identity → Prop}
    (absent : FileView.fileLen branch.store node = none)
    (others : ∀ other, other ≠ node →
      FileView.fileLen pair.2 other = FileView.fileLen branch.store other ∧
        FileView.fileByte pair.2 other = FileView.fileByte branch.store other)
    (unresolved : ∀ key : PageKey, key.1 = node → identityOf World branch.store key = none)
    (identities : ∀ key : PageKey, key.1 ≠ node →
      identityOf World pair.2 key = identityOf World branch.store key)
    (fresh : ∀ key identity, Aligned key → key.1 = node →
      identityOf World pair.2 key = some identity → ¬ lineage.issued identity ∧ issued identity)
    (distinct : ∀ key other identity, Aligned key → Aligned other → key.1 = node →
      other.1 = node → identityOf World pair.2 key = some identity →
      identityOf World pair.2 other = some identity → key = other) :
    Lineage.NewFile lineage issued node (viewOf World branch : LineageBranch Identity)
      (viewOf World { branch with store := pair.2 }) where
  absent := absent
  unresolved key here := by simp only [viewOf, unresolved key here, ite_self]
  ident key there := by simp only [viewOf, identities key there]
  len other there := (others other there).1
  byte other there := (others other there).2
  exclusive := rfl
  dirty := rfl
  active := rfl
  fresh key identity aligned here resolved := by
    rw [ident_viewOf aligned] at resolved
    exact fresh key identity aligned here resolved
  distinct key other identity aligned alignedOther here there resolved resolvedOther := by
    rw [ident_viewOf aligned] at resolved
    rw [ident_viewOf alignedOther] at resolvedOther
    exact distinct key other identity aligned alignedOther here there resolved resolvedOther

variable [Ord Identity] [Std.TransOrd Identity] [IdentityLedger World Identity]
  {cache : SharedPageCache World Store Identity}

/-- What each branch of the cache sees. -/
def copies (cache : SharedPageCache World Store Identity) : CacheBranchId → Option Files :=
  (lineageOf cache).copies

theorem copies_eq_none_iff {id : CacheBranchId} :
    cache.copies id = none ↔ cache.branches[id]? = none :=
  Option.map_eq_none_iff.trans Option.map_eq_none_iff

theorem found_of_live {id : CacheBranchId} {files : Files} (live : cache.copies id = some files) :
    ∃ branch, cache.branches[id]? = some branch := by
  obtain ⟨view, seen, -⟩ := Option.map_eq_some_iff.mp live
  obtain ⟨branch, found, -⟩ := Option.map_eq_some_iff.mp seen
  exact ⟨branch, found⟩

theorem fileLen_of_copies {id : CacheBranchId} {node : NodeId} {branch : CacheBranch Store}
    {files : Files} {bytes : List UInt8} (found : cache.branches[id]? = some branch)
    (live : cache.copies id = some files) (present : files node = some bytes) :
    FileView.fileLen branch.store node = some bytes.length := by
  have same : cache.copies id = _ := Lineage.copies_of_found (branches_lineageOf found)
  cases live.symm.trans same
  obtain ⟨length, known, rfl⟩ := Option.map_eq_some_iff.mp present
  rw [ByteMap.length_read]
  exact known

variable {held : List DaxPageMapping} {source : CacheBranchId}

theorem lineageOf_fork (found : cache.branches[source]? = some branch) (store : Store) :
    lineageOf { cache with
      nextBranch := cache.nextBranch + 1
      branches := (cache.branches.modify source parentOf).insert cache.nextBranch
        (childOf branch store) } =
      (lineageOf cache).fork source (viewOf World (parentOf branch))
        (viewOf World (childOf branch store)) := by
  simp only [lineageOf, Lineage.fork, Lineage.mk.injEq, true_and, and_true]
  funext id
  rw [ExtTreeMap.getElem?_insert, ExtTreeMap.getElem?_modify]
  by_cases new : id = cache.nextBranch
  · simp [new]
  · by_cases here : id = source
    · subst here
      rw [Function.update_of_ne new, Function.update_self]
      simp [found, Ne.symm new]
    · simp [new, here, Ne.symm new, Ne.symm here]

variable [StoreLedger World Store]

theorem good_parentOf (good : Good held cache) (found : cache.branches[source]? = some branch)
    (idle : ∀ page : Nat, branch.activePages[page]? = none) :
    Good held { cache with branches := cache.branches.modify source parentOf } ∧
      (lineageOf cache).SameView
        (lineageOf { cache with branches := cache.branches.modify source parentOf }) := by
  obtain ⟨origin, sound⟩ := good.sound
  have foundView := branches_lineageOf found
  have copy : Lineage.CopyOf (viewOf World branch : LineageBranch Identity)
      (viewOf World (parentOf branch)) := copyOf_parent idle
  have same : Lineage.SameStore (viewOf World branch : LineageBranch Identity)
      (viewOf World (parentOf branch)) :=
    ⟨rfl, rfl, rfl, fun key owned => absurd owned (copy.exclusive key)⟩
  have changed := lineageOf_modifyBranch found parentOf
  refine ⟨⟨⟨origin, ?_⟩, good.owner, good.registered.modify source fun _ => rfl⟩, ?_⟩
  · rw [changed]
    exact sound.unclaim foundView idle same rfl copy.dirty
  · rw [changed]
    exact Lineage.sameView_setBranch foundView same

theorem good_forked (good : Good held cache) (found : cache.branches[source]? = some branch)
    (idle : ∀ page : Nat, branch.activePages[page]? = none) {store : Store}
    (files : SameFiles store branch.store)
    (identities : ∀ key, identityOf World store key = identityOf World branch.store key)
    (known : StoreLedger.Registered cache.world store)
    {forked : SharedPageCache World Store Identity}
    (result : forked = { cache with
      nextBranch := cache.nextBranch + 1
      branches := (cache.branches.modify source parentOf).insert cache.nextBranch
        (childOf branch store) }) :
    Good held forked ∧
      forked.copies = Function.update cache.copies cache.nextBranch (cache.copies source) ∧
      ∃ files, cache.copies source = some files := by
  obtain ⟨origin, sound⟩ := good.sound
  have foundView := branches_lineageOf found
  have parent : Lineage.CopyOf (viewOf World branch : LineageBranch Identity)
      (viewOf World (parentOf branch)) := copyOf_parent idle
  have child : Lineage.CopyOf (viewOf World branch : LineageBranch Identity)
      (viewOf World (childOf branch store)) := copyOf_child files identities
  have lineage := lineageOf_fork found store
  rw [← result] at lineage
  refine ⟨⟨⟨origin, ?_⟩, ?_, ?_⟩, ?_, _, Lineage.copies_of_found foundView⟩
  · rw [lineage]
    exact sound.fork foundView idle parent child
  · rw [result]
    exact good.owner
  · rw [result]
    have registeredParent := good.registered.modify source fun state =>
      show (parentOf state).store = state.store from rfl
    exact registeredParent.insert cache.nextBranch known
  · rw [copies, lineage]
    exact sound.copies_fork foundView parent child

theorem Good.copies_nextBranch (good : Good held cache) : cache.copies cache.nextBranch = none := by
  obtain ⟨origin, sound⟩ := good.sound
  cases found : (lineageOf cache).branches cache.nextBranch with
  | none => exact congrArg (Option.map _) found
  | some branch => exact absurd (sound.branch_lt found) (Nat.lt_irrefl _)

theorem ends_fork [LawfulForkableStore World Store Identity] (good : Good held cache)
    (source : CacheBranchId) :
    Ends (fork source) cache fun result after => Good held after ∧
      (∀ error, result = .error error → (lineageOf cache).SameView (lineageOf after)) ∧
      ∀ child, result = .ok child → child = cache.nextBranch ∧
        after.nextBranch = cache.nextBranch + 1 ∧
        after.copies = Function.update cache.copies child (cache.copies source) ∧
        ∃ files, cache.copies source = some files := by
  have unchanged : (lineageOf cache).SameView (lineageOf cache) := Lineage.sameView_refl _
  have quiet := grown_faults cache cache.faults.tail
  simp only [fork, ends_bind, ends_require]
  refine ends_branchMut (fun branch found => ?_)
    fun _ => ⟨good, fun _ _ => unchanged, not_ok⟩
  refine ⟨fun empty => ?_, fun _ => ⟨good, fun _ _ => unchanged, not_ok⟩⟩
  have idle := TreeMap.isEmpty_iff_getElem?.mp empty
  refine ends_withStoreMut ?_
    (fun _ => ⟨quiet.good good, fun _ _ => quiet.sameView good, not_ok⟩)
    fun absent => by rw [found] at absent; cases absent
  intro same foundSame
  obtain rfl : branch = same := Option.some.inj (found.symm.trans foundSame)
  refine (LawfulForkableStore.forkStore_copy cache.world branch.store).mono ?_
  rintro result pair ⟨untouched, copied⟩
  have foundQuiet : ({ cache with faults := cache.faults.tail } :
      SharedPageCache World Store Identity).branches[source]? = some branch := found
  have stored := IsTrans.trans _ _ _ quiet (grown_setStore foundQuiet untouched.files
    (fun key _ => untouched.identities key) untouched.ledger untouched.registered)
  cases result with
  | error error =>
    exact ⟨stored.good good, fun _ _ => stored.sameView good, not_ok⟩
  | ok childStore =>
    obtain ⟨files, identities, childKnown⟩ := copied childStore rfl
    have foundStored : (setStore source pair { cache with faults := cache.faults.tail }).branches[
        source]? = some { branch with store := pair.2 } := by
      simp [setStore, found]
    have childFiles : SameFiles childStore pair.2 :=
      ⟨files.1.trans untouched.files.1.symm, files.2.trans untouched.files.2.symm⟩
    have childIdentities : ∀ key, identityOf World childStore key = identityOf World pair.2 key :=
      fun key => (identities key).trans (untouched.identities key).symm
    have seen : (setStore source pair { cache with faults := cache.faults.tail }).copies =
        cache.copies := (stored.sameView good).copies
    obtain ⟨goodParent, sameParent⟩ := good_parentOf (stored.good good) foundStored idle
    obtain ⟨goodForked, copiesForked, live⟩ := good_forked (stored.good good) foundStored idle
      childFiles childIdentities (childKnown (good.registered source branch found)) rfl
    rw [seen] at copiesForked live
    simp only [Except.mapError, ends_modifyBranch, ends_get]
    refine ends_orInvalid (fun next added => ?_) ?_
    · obtain rfl := Word64.checkedAdd_eq_some added
      refine ⟨goodForked, not_error, fun child returned => ?_⟩
      cases returned
      exact ⟨rfl, rfl, copiesForked, live⟩
    · exact ⟨goodParent, fun _ _ => (stored.sameView good).trans sameParent,
        not_ok⟩

/-!
## Removing a branch
-/

theorem good_retain [Std.LawfulEqOrd Identity] [DecidableEq Identity] (good : Good held cache) :
    Good held { cache with
        pages := cache.pages.filter fun identity _ => identity ∈ cache.visibleIdentities } ∧
      (lineageOf cache).SameView (lineageOf { cache with
        pages := cache.pages.filter fun identity _ => identity ∈ cache.visibleIdentities }) := by
  obtain ⟨origin, sound⟩ := good.sound
  have kept : ∀ identity : Identity, (cache.pages.filter fun identity _ =>
      identity ∈ cache.visibleIdentities)[identity]? =
      if identity ∈ cache.visibleIdentities then cache.pages[identity]? else none := by
    intro identity
    rw [TreeMap.getElem?_filter_key]
    simp only [decide_eq_true_eq]
  have subset : ∀ (identity : Identity) page, (cache.pages.filter fun identity _ =>
      identity ∈ cache.visibleIdentities)[identity]? = some page →
      cache.pages[identity]? = some page := by
    intro identity page found
    rw [kept, Option.ite_none_right_eq_some] at found
    exact found.2
  have dropped : ∀ (identity : Identity) id branch key, (cache.pages.filter fun identity _ =>
      identity ∈ cache.visibleIdentities)[identity]? = none →
      (∃ page, cache.pages[identity]? = some page) → (lineageOf cache).branches id = some branch →
      Aligned key → branch.ident key = some identity → ¬ (lineageOf cache).known key := by
    rintro identity id view key missing ⟨page, resident⟩ foundView aligned resolved known
    obtain ⟨branch, found, rfl⟩ := Option.map_eq_some_iff.mp foundView
    rw [ident_viewOf aligned] at resolved
    rw [kept, if_pos (mem_visibleIdentities.mpr ⟨key, known, id, branch, found, resolved⟩),
      resident] at missing
    cases missing
  exact ⟨⟨⟨_, sound.evict subset dropped⟩, good.owner, good.registered⟩,
    sound.sameView_evict subset dropped⟩

theorem ends_removeBranch [Std.LawfulEqOrd Identity] [DecidableEq Identity]
    (good : Good held cache) (id : CacheBranchId) :
    Ends (removeBranch id) cache fun result after => Good held after ∧
      (∀ error, result = .error error → (lineageOf cache).SameView (lineageOf after)) ∧
      (result = .ok () → after.nextBranch = cache.nextBranch ∧
        after.copies = Function.update cache.copies id none ∧
        ∃ files, cache.copies id = some files) := by
  have unchanged : (lineageOf cache).SameView (lineageOf cache) := Lineage.sameView_refl _
  simp only [removeBranch, ends_bind, ends_require]
  refine ends_branchMut (fun branch found => ?_)
    fun _ => ⟨good, fun _ _ => unchanged, fun failed => by cases failed⟩
  refine ⟨fun empty => ?_, fun _ => ⟨good, fun _ _ => unchanged, fun failed => by cases failed⟩⟩
  have idle := TreeMap.isEmpty_iff_getElem?.mp empty
  obtain ⟨origin, sound⟩ := good.sound
  have foundView := branches_lineageOf found
  have removed : lineageOf { cache with branches := cache.branches.erase id } =
      (lineageOf cache).remove id := by
    simp only [lineageOf, Lineage.remove, Lineage.mk.injEq, true_and, and_true]
    funext other
    rw [ExtTreeMap.getElem?_erase]
    by_cases here : other = id
    · simp [here]
    · simp [here, Ne.symm here]
  have goodRemoved : Good held { cache with branches := cache.branches.erase id } :=
    ⟨⟨origin, removed ▸ sound.remove foundView idle⟩, good.owner, good.registered.erase id⟩
  obtain ⟨goodAfter, sameAfter⟩ := good_retain goodRemoved
  simp only [ends_modify]
  refine ⟨goodAfter, not_error, fun _ =>
    ⟨trivial, ?_, _, Lineage.copies_of_found foundView⟩⟩
  refine sameAfter.copies.trans ?_
  rw [removed]
  exact Lineage.copies_remove _ _

/-!
## Creating a file
-/

theorem ends_createFile [FileMaker World Store] [LawfulFileMaker World Store Identity]
    (good : Good held cache) (id : CacheBranchId) (name : String) (size : Nat) :
    Ends (createFile id name size) cache fun result after => Good held after ∧
      (∀ error, result = .error error → (lineageOf cache).SameView (lineageOf after)) ∧
      ∀ node, result = .ok node → after.nextBranch = cache.nextBranch ∧
        ∃ files, cache.copies id = some files ∧ files node = none ∧ after.copies =
          Function.update cache.copies id
            (some (Function.update files node (some (List.replicate size 0)))) := by
  have quiet := grown_faults cache cache.faults.tail
  refine ends_withStoreMut ?_
    (fun _ => ⟨quiet.good good, fun _ _ => quiet.sameView good, not_ok⟩)
    fun _ => ⟨good, fun _ _ => Lineage.sameView_refl _, not_ok⟩
  intro branch found
  refine (@LawfulFileMaker.createFile_fresh World Store Identity _ _ _ _ _ _ name size cache.world
    branch.store (good.registered id branch found)).mono ?_
  rintro result pair ⟨failed, created⟩
  have foundQuiet : ({ cache with faults := cache.faults.tail } :
      SharedPageCache World Store Identity).branches[id]? = some branch := found
  cases result with
  | error error =>
    have untouched := failed error rfl
    have stored := IsTrans.trans _ _ _ quiet (grown_setStore foundQuiet untouched.files
      (fun key _ => untouched.identities key) untouched.ledger untouched.registered)
    exact ⟨stored.good good, fun _ _ => stored.sameView good, not_ok⟩
  | ok node =>
    obtain ⟨absent, length, zero, others, unresolved, identities, ledger, known, fresh,
      distinct⟩ := created node rfl
    obtain ⟨origin, sound⟩ := (quiet.good good).sound
    have file : Lineage.NewFile (lineageOf { cache with faults := cache.faults.tail })
        (IdentityLedger.Issued pair.1) node (viewOf World branch : LineageBranch Identity)
        (viewOf World { branch with store := pair.2 }) :=
      newFile_viewOf absent others unresolved identities fresh distinct
    have foundView := branches_lineageOf foundQuiet
    have lineage := lineageOf_setStore foundQuiet pair
    refine ⟨⟨⟨_, lineage ▸ sound.newFile foundView file ledger.issued⟩, good.owner,
        good.registered.setStore id ledger known⟩,
      not_error, fun other returned => ?_⟩
    cases returned
    refine ⟨rfl, _, Lineage.copies_of_found (branches_lineageOf found), ?_, ?_⟩
    · simp only [Lineage.filesOf, viewOf, absent, Option.map_none]
    · rw [copies, lineage]
      exact sound.copies_newFile foundView file length zero

end Minidox.Cache.SharedPageCache
