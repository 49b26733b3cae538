import Minidox.Foundation.Overlay
import Minidox.Redox.Directory

/-!
# Page identities

`IdentityBranch` of `minidox-redoxfs/src/branching.rs`: which object a node is, and
which version of a page a branch sees. Both are looked up through a chain of
generations that branches share; a checkpoint flattens the chain, and a restore starts
again from the flat maps.
-/

set_option autoImplicit false

namespace Minidox.Redox

open Foundation Attempt
open Cache (IoError NodeId pageSize)
open Std (ExtTreeMap)

structure RedoxPageIdentity where
  object : Nat
  page : Nat
  version : Nat
  deriving DecidableEq, Repr

instance : Ord RedoxPageIdentity :=
  ⟨compareLex (compareOn RedoxPageIdentity.object)
    (compareLex (compareOn RedoxPageIdentity.page) (compareOn RedoxPageIdentity.version))⟩

instance : Std.TransOrd RedoxPageIdentity :=
  inferInstanceAs (Std.TransCmp (compareLex (compareOn RedoxPageIdentity.object)
    (compareLex (compareOn RedoxPageIdentity.page) (compareOn RedoxPageIdentity.version))))

instance : Std.LawfulEqOrd RedoxPageIdentity where
  compare_self := Std.ReflCmp.compare_self
  eq_of_compare {left right} same := by
    obtain ⟨object, page, version⟩ := left
    obtain ⟨otherObject, otherPage, otherVersion⟩ := right
    change compareLex _ (compareLex _ _) _ _ = _ at same
    rw [compareLex_eq_eq, compareLex_eq_eq] at same
    rw [RedoxPageIdentity.mk.injEq]
    exact ⟨Std.LawfulEqOrd.eq_of_compare same.1, Std.LawfulEqOrd.eq_of_compare same.2.1,
      Std.LawfulEqOrd.eq_of_compare same.2.2⟩

structure IdentityGeneration where
  files : ExtTreeMap NodeId Nat
  pages : ExtTreeMap (NodeId × Nat) Nat

/-- The newest generation comes first. -/
structure IdentityBranch where
  base : List IdentityGeneration
  files : ExtTreeMap NodeId Nat
  pages : ExtTreeMap (NodeId × Nat) Nat

structure RedoxFileIdentity where
  node : NodeId
  object : Nat
  deriving DecidableEq, Repr

structure RedoxPageVersion where
  node : NodeId
  page : Nat
  version : Nat
  deriving DecidableEq, Repr

/-- The identities of a `RedoxBranchState`. -/
structure IdentityState where
  files : List RedoxFileIdentity
  pages : List RedoxPageVersion
  deriving DecidableEq, Repr

/-- The identity counters are the two of the world. -/
abbrev IdentityM := Attempt (RedoxWorld × IdentityBranch) IoError

namespace IdentityBranch

def new : IdentityBranch := { base := [⟨∅, ∅⟩], files := ∅, pages := ∅ }

/-- What becomes of the branch, and its child. -/
def fork (branch : IdentityBranch) : IdentityBranch × IdentityBranch :=
  let base := if branch.files.isEmpty && branch.pages.isEmpty then branch.base
    else ⟨branch.files, branch.pages⟩ :: branch.base
  ({ base, files := ∅, pages := ∅ }, { base, files := ∅, pages := ∅ })

def object (branch : IdentityBranch) (node : NodeId) : Option Nat :=
  Overlay.lookup (branch.files :: branch.base.map IdentityGeneration.files) node

def pageVersion (branch : IdentityBranch) (key : NodeId × Nat) : Option Nat :=
  Overlay.lookup (branch.pages :: branch.base.map IdentityGeneration.pages) key

def pageIdentity (branch : IdentityBranch) (node offset : Nat) :
    Except IoError RedoxPageIdentity :=
  match branch.object node with
  | none => .error (.os Host.eio)
  | some object =>
    let page := offset / pageSize
    .ok { object, page, version := (branch.pageVersion (node, page)).getD 0 }

def createFile (node : NodeId) : IdentityM Unit :=
  modify fun (world, branch) =>
    ({ world with nextFileObjectId := Word64.wrappingAdd world.nextFileObjectId 1 },
      { branch with files := branch.files.insert node world.nextFileObjectId })

/-- A page gets the next version. -/
def stampPage (key : NodeId × Nat) : IdentityM Unit :=
  modify fun (world, branch) =>
    ({ world with nextPageVersion := Word64.wrappingAdd world.nextPageVersion 1 },
      { branch with pages := branch.pages.insert key world.nextPageVersion })

/-- The pages `first..=last` of a write. -/
def writtenPages (offset stop : Nat) : List Nat :=
  List.range' (offset / pageSize) ((stop - 1) / pageSize + 1 - offset / pageSize)

def recordWrite (node offset len : Nat) : IdentityM Unit :=
  onlyIf (len ≠ 0) do
    let stop ← orThrow (.os Host.eio) (Word64.checkedAdd offset len)
    forM (writtenPages offset stop) fun page => stampPage (node, page)

def preparePageWrite (node offset : Nat) : IdentityM RedoxPageIdentity := do
  stampPage (node, offset / pageSize)
  let (_, branch) ← get
  Attempt.ofExcept (branch.pageIdentity node offset)

def visibleFiles (branch : IdentityBranch) : ExtTreeMap NodeId Nat :=
  Overlay.flatten (branch.files :: branch.base.map IdentityGeneration.files)

def visiblePages (branch : IdentityBranch) : ExtTreeMap (NodeId × Nat) Nat :=
  Overlay.flatten (branch.pages :: branch.base.map IdentityGeneration.pages)

/-- The identities that `durable_state` returns. -/
def state (branch : IdentityBranch) : IdentityState where
  files := branch.visibleFiles.toList.map fun (node, object) => { node, object }
  pages := branch.visiblePages.toList.map fun ((node, page), version) => { node, page, version }

/-- The identities of a branch that `restore_lineage` returns. -/
def ofState (state : IdentityState) : IdentityBranch where
  base := [⟨∅, ∅⟩]
  files := ExtTreeMap.ofList (state.files.map fun identity => (identity.node, identity.object))
  pages := ExtTreeMap.ofList (state.pages.map fun page => ((page.node, page.page), page.version))

end IdentityBranch

/-- The counters move past all identities of the states. -/
def RedoxWorld.reserveIdentities (world : RedoxWorld) (states : List IdentityState) : RedoxWorld :=
  { world with
    nextFileObjectId := max world.nextFileObjectId (Word64.saturatingAdd
      ((states.flatMap fun state => state.files.map RedoxFileIdentity.object).foldr max 0) 1)
    nextPageVersion := max world.nextPageVersion (Word64.saturatingAdd
      ((states.flatMap fun state => state.pages.map RedoxPageVersion.version).foldr max 0) 1) }

/-!
## Lookups
-/

namespace IdentityBranch

variable {branch : IdentityBranch}

theorem lookup_fork (branch : IdentityBranch) :
    (branch.fork.1.object = branch.object ∧ branch.fork.1.pageVersion = branch.pageVersion) ∧
      branch.fork.2.object = branch.object ∧ branch.fork.2.pageVersion = branch.pageVersion := by
  have both : branch.fork.1.object = branch.object ∧
      branch.fork.1.pageVersion = branch.pageVersion := by
    unfold fork
    split
    next empty =>
      rw [Bool.and_eq_true] at empty
      refine ⟨funext fun node => ?_, funext fun key => ?_⟩
      · simp only [object, Overlay.lookup_cons, TreeMap.isEmpty_iff_getElem?.mp empty.1 node,
          ExtTreeMap.getElem?_empty]
      · simp only [pageVersion, Overlay.lookup_cons, TreeMap.isEmpty_iff_getElem?.mp empty.2 key,
          ExtTreeMap.getElem?_empty]
    next =>
      refine ⟨funext fun node => ?_, funext fun key => ?_⟩
      · simp only [object, List.map_cons, Overlay.lookup_empty_cons]
      · simp only [pageVersion, List.map_cons, Overlay.lookup_empty_cons]
  exact ⟨both, both⟩

theorem object_insert (branch : IdentityBranch) (node other object : Nat) :
    IdentityBranch.object { branch with files := branch.files.insert node object } other =
      if other = node then some object else branch.object other := by
  simp only [IdentityBranch.object, Overlay.lookup_cons, TreeMap.getElem?_insert_ite]
  by_cases here : other = node
  · simp [here]
  · simp [here]

theorem pageVersion_insert (branch : IdentityBranch) (key other : NodeId × Nat) (version : Nat) :
    pageVersion { branch with pages := branch.pages.insert key version } other =
      if other = key then some version else branch.pageVersion other := by
  simp only [pageVersion, Overlay.lookup_cons, TreeMap.getElem?_insert_ite]
  by_cases here : other = key
  · simp [here]
  · simp [here]

theorem lookup_ofState (branch : IdentityBranch) :
    (ofState branch.state).object = branch.object ∧
      (ofState branch.state).pageVersion = branch.pageVersion := by
  have files : (ofState branch.state).files = branch.visibleFiles := by
    simp only [ofState, state, List.map_map, Function.comp_def, List.map_id']
    exact TreeMap.ofList_toList _
  have pages : (ofState branch.state).pages = branch.visiblePages := by
    simp only [ofState, state, List.map_map, Function.comp_def, List.map_id']
    exact TreeMap.ofList_toList _
  constructor
  · funext node
    rw [object, files, Overlay.lookup_cons, visibleFiles, Overlay.getElem?_flatten]
    simp [object, ofState, Overlay.lookup]
  · funext key
    rw [pageVersion, pages, Overlay.lookup_cons, visiblePages, Overlay.getElem?_flatten]
    simp [pageVersion, ofState, Overlay.lookup]

theorem mem_state_files {node object : Nat} (found : branch.object node = some object) :
    object ∈ branch.state.files.map RedoxFileIdentity.object := by
  rw [IdentityBranch.object, ← Overlay.getElem?_flatten] at found
  have member := ExtTreeMap.mem_toList_iff_getElem?_eq_some.mpr found
  simp only [state, List.map_map]
  exact List.mem_map.mpr ⟨(node, object), member, rfl⟩

theorem mem_state_pages {key : NodeId × Nat} {version : Nat}
    (found : branch.pageVersion key = some version) :
    version ∈ branch.state.pages.map RedoxPageVersion.version := by
  rw [pageVersion, ← Overlay.getElem?_flatten] at found
  have member := ExtTreeMap.mem_toList_iff_getElem?_eq_some.mpr found
  simp only [state, List.map_map]
  exact List.mem_map.mpr ⟨(key, version), member, rfl⟩

end IdentityBranch

end Minidox.Redox
