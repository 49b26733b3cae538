import Minidox.Cache.Shared.Refinement
import Minidox.Redox.OneFile

/-!
# Properties of the shared cache

The states that a shared cache can start in, and what holds in every state that it
reaches from them.
-/

set_option autoImplicit false

namespace Minidox.Cache

open Foundation Attempt
open Std (ExtTreeMap ExtTreeSet)

variable {World Store Identity : Type}

namespace SharedPageCache

theorem identityOf_eq_some [ForkableNodeStore World Store Identity] {store : Store} {key : PageKey}
    {identity : Identity} :
    identityOf World store key = some identity ↔
      ForkableNodeStore.pageIdentity World store key.1 key.2 = .ok identity := by
  unfold identityOf
  cases ForkableNodeStore.pageIdentity World store key.1 key.2 with
  | ok answer => simp [Except.toOption]
  | error error => simp [Except.toOption]

theorem branches_ofStores [Ord Identity] (id nextPageId : Nat) (world : World) (faults : Faults)
    (stores : List Store) (branch : CacheBranchId) :
    (ofStores id nextPageId world faults stores :
      SharedPageCache World Store Identity).branches[branch]? =
      if branch = 0 then none else (stores[branch - 1]?).map CacheBranch.new := by
  refine (TreeMap.getElem?_ofList_mapIdx CacheBranch.new 1 branch).trans ?_
  simp only [Nat.lt_one_iff]

def Names (World : Type) {Store Identity : Type} [ForkableNodeStore World Store Identity]
    (stores : List Store) (identity : Identity) (source : Store × PageKey) : Prop :=
  source.1 ∈ stores ∧ Aligned source.2 ∧ identityOf World source.1 source.2 = some identity

open Classical in
/-- The page that an identity was given out for is that of any store that has it. -/
noncomputable def originOf (World : Type) {Store Identity : Type}
    [ForkableNodeStore World Store Identity] [FileView Store] (stores : List Store) :
    Lineage.Origin Identity where
  home identity := if named : ∃ source, Names World stores identity source then
    named.choose.2 else (0, 0)
  length identity := if named : ∃ source, Names World stores identity source then
    FileView.fileLen named.choose.1 named.choose.2.1 else none
  image identity := if named : ∃ source, Names World stores identity source then
    fun index => FileView.fileByte named.choose.1 named.choose.2.1 (named.choose.2.2 + index)
    else ByteMap.zero

end SharedPageCache

/-- The reference model of a new cache: each branch owns the files of its store. -/
def Reference.ofStores {Store : Type} [FileView Store] (stores : List Store) : Reference where
  copies branch := if branch = 0 then none else (stores[branch - 1]?).map fun store node =>
    (FileView.fileLen store node).map fun length => (FileView.fileByte store node).read 0 length
  calls _ := none

variable [Ord Identity] [Std.TransOrd Identity] [ForkableNodeStore World Store Identity]
  [FileView Store] [IdentityLedger World Identity]

theorem referenceOf_ofStores (id nextPageId : Nat) (world : World) (faults : Faults)
    (stores : List Store) :
    System.referenceOf (System.new (SharedPageCache.ofStores id nextPageId world faults stores :
      SharedPageCache World Store Identity)) = Reference.ofStores stores := by
  have unloaded : (SharedPageCache.lineageOf (SharedPageCache.ofStores id nextPageId world faults
      stores : SharedPageCache World Store Identity)).pages = fun _ => none :=
    funext fun _ => ExtTreeMap.getElem?_empty
  have files : ∀ store : Store, (SharedPageCache.lineageOf (SharedPageCache.ofStores id nextPageId
      world faults stores : SharedPageCache World Store Identity)).filesOf
      (SharedPageCache.viewOf World (CacheBranch.new store)) = fun node =>
        (FileView.fileLen store node).map fun length =>
          (FileView.fileByte store node).read 0 length := by
    intro store
    funext node
    refine congrArg (fun bytes => (FileView.fileLen store node).map fun length =>
      ByteMap.read bytes 0 length) (funext fun position => ?_)
    rw [Lineage.byteAt, unloaded, Option.bind_fun_none]
    rfl
  have copies : ∀ branch, (SharedPageCache.ofStores id nextPageId world faults stores :
      SharedPageCache World Store Identity).copies branch =
      (Reference.ofStores stores).copies branch := by
    intro branch
    rw [SharedPageCache.copies, Lineage.copies]
    change ((SharedPageCache.ofStores id nextPageId world faults stores :
      SharedPageCache World Store Identity).branches[branch]?.map _).map _ = _
    rw [SharedPageCache.branches_ofStores, Reference.ofStores]
    by_cases first : branch = 0
    · simp only [first, if_true]
      rfl
    · simp only [first, if_false, Option.map_map]
      refine congrArg (fun view => (stores[branch - 1]?).map view) (funext fun store => ?_)
      exact files store
  rw [System.referenceOf, Reference.ofStores, Reference.mk.injEq]
  refine ⟨funext copies, funext fun thread => ?_⟩
  rw [show (System.new (SharedPageCache.ofStores id nextPageId world faults stores :
    SharedPageCache World Store Identity)).calls[thread]? = none from ExtTreeMap.getElem?_empty]
  rfl

variable [StoreLedger World Store]

namespace SharedPageCache

theorem good_ofStores {world : World} {stores : List Store} (coherent : Coherent world stores)
    (id nextPageId : Nat) (faults : Faults) :
    Good [] (ofStores id nextPageId world faults stores :
      SharedPageCache World Store Identity) := by
  have views : ∀ branch view, (lineageOf (ofStores id nextPageId world faults stores :
      SharedPageCache World Store Identity)).branches branch = some view →
      ∃ store ∈ stores, view = viewOf World (CacheBranch.new store) ∧
        branch < stores.length + 1 := by
    intro branch view found
    obtain ⟨state, foundState, rfl⟩ := Option.map_eq_some_iff.mp found
    rw [branches_ofStores] at foundState
    split at foundState
    next => cases foundState
    next positive =>
      obtain ⟨store, located, rfl⟩ := Option.map_eq_some_iff.mp foundState
      obtain ⟨inside, -⟩ := List.getElem?_eq_some_iff.mp located
      exact ⟨store, List.mem_of_getElem? located, rfl, Nat.lt_succ_of_le (by omega)⟩
  have unloaded : ∀ identity page, (lineageOf (ofStores id nextPageId world faults stores :
      SharedPageCache World Store Identity)).pages identity ≠ some page := by
    intro identity page resident
    rw [show (lineageOf (ofStores id nextPageId world faults stores :
      SharedPageCache World Store Identity)).pages identity = none from
        ExtTreeMap.getElem?_empty] at resident
    cases resident
  refine ⟨⟨originOf World stores,
    { branch_lt := ?_
      page_lt := fun identity page resident => absurd resident (unloaded identity page)
      page_unique := fun left _ page resident => absurd resident (unloaded left page)
      page_issued := fun identity page resident => absurd resident (unloaded identity page)
      ident_issued := ?_
      ident_origin := ?_
      clean := fun _ _ _ identity page _ _ _ resident => absurd resident (unloaded identity page)
      dirty_resident := ?_
      exclusive_private := ?_
      exclusive_resolved := ?_
      held_backed := by rintro _ ⟨⟩
      active_count := ?_ }⟩, (by rintro _ ⟨⟩), ?_⟩
  · intro branch view found
    obtain ⟨-, -, -, older⟩ := views branch view found
    exact older
  · intro branch view key identity found aligned resolved
    obtain ⟨store, member, rfl, -⟩ := views branch view found
    rw [ident_viewOf aligned] at resolved
    exact coherent.issued store member key identity aligned resolved
  · intro branch view key identity found aligned resolved
    obtain ⟨store, member, rfl, -⟩ := views branch view found
    rw [ident_viewOf aligned] at resolved
    have named : ∃ source, Names World stores identity source :=
      ⟨(store, key), member, aligned, resolved⟩
    obtain ⟨memberSource, alignedSource, resolvedSource⟩ := named.choose_spec
    obtain ⟨same, length, bytes⟩ := coherent.agrees store member named.choose.1 memberSource key
      named.choose.2 identity aligned alignedSource resolved resolvedSource
    refine ⟨?_, ?_, fun _ size index known inPage below => ?_⟩
    · simp only [originOf, dif_pos named, ← same]
    · simp only [originOf, dif_pos named, ← same]
      exact length
    · simp only [originOf, dif_pos named, ← same]
      exact (bytes size index known inPage below).symm
  · intro branch view key found dirty
    obtain ⟨store, -, rfl, -⟩ := views branch view found
    exact absurd dirty (DirtyBranch.not_isDirty_new key)
  · intro branch view key _ _ _ _ found owned
    obtain ⟨store, -, rfl, -⟩ := views branch view found
    exact absurd owned ExtTreeSet.not_mem_empty
  · intro branch view key found owned
    obtain ⟨store, -, rfl, -⟩ := views branch view found
    exact absurd owned ExtTreeSet.not_mem_empty
  · intro branch view page found
    obtain ⟨store, -, rfl, -⟩ := views branch view found
    exact ExtTreeMap.getElem?_empty
  · intro branch state found
    change (ofStores id nextPageId world faults stores :
      SharedPageCache World Store Identity).branches[branch]? = _ at found
    rw [branches_ofStores, Option.ite_none_left_eq_some] at found
    obtain ⟨store, located, rfl⟩ := Option.map_eq_some_iff.mp found.2
    exact coherent.registered store (List.mem_of_getElem? located)

/-- No branch but one resolves a page to the identity. -/
def OwnIdentity (cache : SharedPageCache World Store Identity) (id : CacheBranchId)
    (identity : Identity) : Prop :=
  ∀ other branch node offset, other ≠ id → cache.branches[other]? = some branch →
    ForkableNodeStore.pageIdentity World branch.store node offset ≠ .ok identity

theorem ownIdentity_of_exclusive [PageGranular World Store] {held : List DaxPageMapping}
    {cache : SharedPageCache World Store Identity} (good : Good held cache) {id : CacheBranchId}
    {branch : CacheBranch Store} (found : cache.branches[id]? = some branch) {key : PageKey}
    (exclusive : key ∈ branch.exclusivePages) :
    ∃ identity, ForkableNodeStore.pageIdentity World branch.store key.1 key.2 = .ok identity ∧
      cache.OwnIdentity id identity := by
  obtain ⟨origin, sound⟩ := good.sound
  have foundView := branches_lineageOf found
  obtain ⟨aligned, identity, resolved⟩ := sound.exclusive_resolved foundView exclusive
  refine ⟨identity, identityOf_eq_some.mp ((ident_viewOf aligned).symm.trans resolved), ?_⟩
  intro other otherBranch node offset different foundOther answered
  rw [← PageGranular.pageIdentity_pageOf] at answered
  have alignedOther : Aligned (node, pageOf offset) := pageOf_mod offset
  refine different (sound.exclusive_private
    foundView exclusive aligned resolved (branches_lineageOf foundOther) alignedOther ?_)
  rw [ident_viewOf alignedOther]
  exact identityOf_eq_some.mpr answered

end SharedPageCache

/-!
## Every run
-/

namespace System

theorem consistent_new {world : World} {stores : List Store} (coherent : Coherent world stores)
    (id nextPageId : Nat) (faults : Faults) :
    Consistent (System.new (SharedPageCache.ofStores id nextPageId world faults stores :
      SharedPageCache World Store Identity)) where
  good := SharedPageCache.good_ofStores coherent id nextPageId faults
  calls thread call running := by
    rw [show (System.new (SharedPageCache.ofStores id nextPageId world faults stores :
      SharedPageCache World Store Identity)).calls[thread]? = none from
        ExtTreeMap.getElem?_empty] at running
    cases running

variable [DecidableEq Identity] [FileMaker World Store]

def after (system : System World Store Identity) (actions : List Action) :
    System World Store Identity :=
  run (fun system action => (system.step action).1) system actions

theorem Consistent.after [Std.LawfulEqOrd Identity] [LawfulForkableStore World Store Identity]
    [LawfulFileMaker World Store Identity] {system : System World Store Identity}
    (consistent : Consistent system) (actions : List Action) : Consistent (system.after actions) :=
  run_invariant_all Consistent (fun _ action held => (simulated _ held action).1) consistent actions

end System

variable [Std.LawfulEqOrd Identity] [DecidableEq Identity]
  [LawfulForkableStore World Store Identity] [FileMaker World Store]
  [LawfulFileMaker World Store Identity]

/-- Every run of a shared cache is one of private copies: each reply is one that the
reference model gives, and each `read` returns the bytes of the reference. -/
theorem shared_cache_refines_private_copies {world : World} {stores : List Store}
    (coherent : Coherent world stores) (id nextPageId : Nat) (faults : Faults)
    (actions : List Action) :
    ∃ final, Explains Reference.Step (Reference.ofStores stores)
      (replies System.step (System.new (SharedPageCache.ofStores id nextPageId world faults stores :
        SharedPageCache World Store Identity)) actions) final := by
  rw [← referenceOf_ofStores id nextPageId world faults stores]
  exact ⟨_, explains_replies System.Consistent System.referenceOf
    (fun system action held => (System.simulated system held action).1)
    (fun system action held => (System.simulated system held action).2)
    (System.consistent_new coherent id nextPageId faults) actions⟩

/-!
A write of two bytes whose page file takes one and then fails, and a read of both.
-/

namespace TornWrite

open Redox

def start : System RedoxWorld (MountedBranch OneFile) RedoxPageIdentity :=
  System.new (SharedPageCache.ofStores 1 1 OneFile.world
    (List.replicate 8 none ++ [some ⟨.os 28, 1⟩]) [OneFile.branch])

def actions : List Action :=
  [.createFile 1 "a" 2, .openNode 1 2, .begin 0 (.write [7, 8]) 1 2 0, .advance 0, .advance 0,
    .advance 0, .begin 0 (.read 2) 1 2 0, .advance 0, .advance 0, .advance 0, .advance 0]

theorem run_is_explained : ∃ final, Explains Reference.Step (Reference.ofStores [OneFile.branch])
    (replies System.step start actions) final :=
  shared_cache_refines_private_copies OneFile.coherent 1 1 _ actions

/-- What the run would show if a failed write counted only the chunks it completed. -/
def wholeChunks : Reply → Reply
  | .torn error _ => .torn error 0
  | reply => reply

def shown : List (Action × Reply) :=
  [(.createFile 1 "a" 2, .created 2), (.openNode 1 2, .done),
    (.begin 0 (.write [7, 8]) 1 2 0, .running), (.advance 0, .running), (.advance 0, .running),
    (.advance 0, .torn (.io (.os 28)) 0), (.begin 0 (.read 2) 1 2 0, .running),
    (.advance 0, .running), (.advance 0, .running), (.advance 0, .running),
    (.advance 0, .read [7, 0])]

set_option maxRecDepth 4000 in
theorem replies_wholeChunks :
    (replies System.step start actions).map (Prod.map id wholeChunks) = shown := by
  decide +kernel

/-- The byte of the failed chunk is read back, so whole chunks do not explain the run. -/
theorem wholeChunks_not_explained :
    ¬ ∃ final, Explains Reference.Step (Reference.ofStores [OneFile.branch])
      ((replies System.step start actions).map (Prod.map id wholeChunks)) final := by
  rw [replies_wholeChunks, shown]
  rintro ⟨final, explained⟩
  -- the replies leave the reference one way to go, to a copy of the file that is still zero
  have explained := explained.rest Reference.Step.deterministic (.created rfl rfl)
  have explained := explained.rest Reference.Step.deterministic (.quiet trivial)
  have explained := explained.rest Reference.Step.deterministic (.begun rfl)
  have explained := explained.rest Reference.Step.deterministic
    (.advanced rfl (.writeStarts rfl rfl rfl (by decide)))
  have explained := explained.rest Reference.Step.deterministic (.advanced rfl (.mapped rfl))
  have explained := explained.rest Reference.Step.deterministic
    (.advanced rfl (.torn _ rfl rfl (by decide)))
  have explained := explained.rest Reference.Step.deterministic (.begun rfl)
  have explained := explained.rest Reference.Step.deterministic
    (.advanced rfl (.readStarts rfl rfl rfl (by decide)))
  have explained := explained.rest Reference.Step.deterministic (.advanced rfl (.mapped rfl))
  have explained := explained.rest Reference.Step.deterministic
    (.advanced rfl (.fetched rfl rfl rfl))
  cases explained with
  | cons head tail =>
    generalize answer : Reply.read [7, 0] = reply at head
    cases head with
    | advanced active step =>
      cases Option.some.inj active
      cases step with
      | readNothing phase => cases phase
      | _ => cases answer
    | _ => cases answer

end TornWrite

/-!
## One writer
-/

/-- In every state that a shared cache reaches, a mapping that somebody holds is of
the page that its branch resolves its key to. A writable one is of a page that is
exclusive to its branch, and what is exclusive to a branch is seen by no other. -/
theorem held_mappings_are_current_and_exclusive [PageGranular World Store] {world : World}
    {stores : List Store} (coherent : Coherent world stores) (id nextPageId : Nat)
    (faults : Faults) (actions : List Action) :
    let system := (System.new (SharedPageCache.ofStores id nextPageId world faults stores :
      SharedPageCache World Store Identity)).after actions
    (∀ holder mapping, (holder, mapping) ∈ system.held → ∃ branch identity,
      system.cache.branches[mapping.branch]? = some branch ∧
      ForkableNodeStore.pageIdentity World branch.store mapping.key.1 mapping.key.2 = .ok identity ∧
      system.cache.pages[identity]? = some mapping.page ∧
      (mapping.flags.write → mapping.key ∈ branch.exclusivePages ∧
        system.cache.OwnIdentity mapping.branch identity)) ∧
    ∀ owner branch key, system.cache.branches[owner]? = some branch →
      key ∈ branch.exclusivePages → ∃ identity,
        ForkableNodeStore.pageIdentity World branch.store key.1 key.2 = .ok identity ∧
        system.cache.OwnIdentity owner identity := by
  intro system
  have good := ((System.consistent_new coherent id nextPageId faults).after actions).good
  refine ⟨?_, fun owner branch key found exclusive =>
    SharedPageCache.ownIdentity_of_exclusive good found exclusive⟩
  intro holder mapping member
  have included : mapping ∈ system.mappings := List.mem_map.mpr ⟨_, member, rfl⟩
  obtain ⟨origin, sound⟩ := good.sound
  obtain ⟨aligned, -, view, identity, foundView, resolved, resident, writable⟩ :=
    sound.held_backed mapping included
  obtain ⟨branch, found, rfl⟩ := Option.map_eq_some_iff.mp foundView
  rw [SharedPageCache.ident_viewOf aligned] at resolved
  have answered := SharedPageCache.identityOf_eq_some.mp resolved
  refine ⟨branch, identity, found, answered, resident, fun write => ⟨writable write, ?_⟩⟩
  obtain ⟨own, answeredOwn, alone⟩ :=
    SharedPageCache.ownIdentity_of_exclusive good found (writable write)
  obtain rfl : identity = own := Except.ok.inj (answered.symm.trans answeredOwn)
  exact alone

/-!
A client that maps the only page of a file and stores a byte.
-/

namespace MappedStore

open Redox

def start : System RedoxWorld (MountedBranch OneFile) RedoxPageIdentity :=
  System.new (SharedPageCache.ofStores 1 1 OneFile.world [] [OneFile.branch])

def mapping : DaxPageMapping := ⟨1, 1, (2, 0), .READ_WRITE, 2⟩

def actions : List Action :=
  [.createFile 1 "a" 1, .openNode 1 2, .mapPage 1 2 0 .READ_WRITE, .store mapping 0 [7]]

set_option maxRecDepth 4000 in
theorem mapping_is_exclusive : ∃ branch,
    (start.after actions).cache.branches[1]? = some branch ∧ (2, 0) ∈ branch.exclusivePages := by
  obtain ⟨branch, identity, found, -, -, writable⟩ :=
    (held_mappings_are_current_and_exclusive OneFile.coherent 1 1 [] actions).1 .client mapping
      (by decide +kernel)
  exact ⟨branch, found, (writable rfl).1⟩

end MappedStore

end Minidox.Cache
