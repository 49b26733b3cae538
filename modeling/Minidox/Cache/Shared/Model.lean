import Minidox.Cache.Shared.DirtyPages
import Minidox.Cache.Shared.Store

/-!
# The shared page cache

`SharedPageCache` of `minidox-cache/src/branching.rs`: the one cache of a
filesystem lineage. Page files are numbered in the order in which the process makes
them; their ids are these numbers as 64-bit words. The contents of the page files and
the counts of their mappings are kept by number, and the counters that the process
shares are part of the state. Each operation is one
critical section of the state mutex; `read` and `write` are several.
-/

set_option autoImplicit false

namespace Minidox.Cache

open Foundation Attempt
open Std (ExtTreeMap ExtTreeSet)

abbrev CacheBranchId := Nat

/-- `CachePage::id`. `NEXT_PAGE_ID` comes around. -/
def pageId (page : Nat) : Nat := page % Word64.bound

structure DaxPageMapping where
  cacheId : Nat
  branch : CacheBranchId
  key : PageKey
  flags : MapFlags
  page : Nat
  deriving DecidableEq, Repr

def DaxPageMapping.pageId (mapping : DaxPageMapping) : Nat := Cache.pageId mapping.page

structure CachePageAccounting where
  residentPages : Nat
  sharedPages : Nat
  deriving DecidableEq, Repr

structure CacheBranch (Store : Type) where
  store : Store
  openNodes : ExtTreeMap NodeId Nat
  activePages : ExtTreeMap Nat Nat
  exclusivePages : ExtTreeSet PageKey
  dirtyPages : DirtyBranch

namespace CacheBranch

variable {Store : Type}

def new (store : Store) : CacheBranch Store where
  store
  openNodes := ∅
  activePages := ∅
  exclusivePages := ∅
  dirtyPages := DirtyBranch.new

def openCount (branch : CacheBranch Store) (node : NodeId) : Nat := branch.openNodes[node]?.getD 0

def activeCount (branch : CacheBranch Store) (page : Nat) : Nat := branch.activePages[page]?.getD 0

def addActive (branch : CacheBranch Store) (page : Nat) : CacheBranch Store :=
  { branch with activePages := branch.activePages.insert page (branch.activeCount page + 1) }

/-- The count after an unmap; an entry that reaches zero is removed. -/
def setActive (branch : CacheBranch Store) (page count : Nat) : CacheBranch Store :=
  { branch with
    activePages :=
      if count = 0 then branch.activePages.erase page else branch.activePages.insert page count }

end CacheBranch

structure SharedPageCache (World Store Identity : Type) [Ord Identity] where
  id : Nat
  nextBranch : CacheBranchId
  branches : ExtTreeMap CacheBranchId (CacheBranch Store)
  pages : ExtTreeMap Identity Nat
  knownPages : ExtTreeSet PageKey
  contents : Nat → ByteMap
  nextPageId : Nat
  world : World
  faults : Faults

abbrev SharedM (World Store Identity : Type) [Ord Identity] :=
  Attempt (SharedPageCache World Store Identity) CacheError

namespace SharedPageCache

variable {World Store Identity : Type} [Ord Identity] {α : Type}

def ofStores (id nextPageId : Nat) (world : World) (faults : Faults) (stores : List Store) :
    SharedPageCache World Store Identity where
  id
  nextBranch := stores.length + 1
  branches :=
    ExtTreeMap.ofList (stores.mapIdx fun index store => (index + 1, CacheBranch.new store))
  pages := ∅
  knownPages := ∅
  contents := fun _ => ByteMap.zero
  nextPageId
  world
  faults

def new (id nextPageId : Nat) (world : World) (faults : Faults) (store : Store) :
    SharedPageCache World Store Identity × CacheBranchId :=
  (ofStores id nextPageId world faults [store], 1)

def restore (id nextPageId : Nat) (world : World) (faults : Faults) (stores : List Store) :
    Except CacheError (SharedPageCache World Store Identity × List CacheBranchId) :=
  if stores.isEmpty then
    .error (.invalidMapping "a filesystem lineage must contain at least one branch")
  else match Word64.checkedAdd stores.length 1 with
    | none => .error (.invalidMapping "cache branch identity overflow")
    | some _ => .ok (ofStores id nextPageId world faults stores,
        (List.range stores.length).map fun index => index + 1)

def nextFault : SharedM World Store Identity (Option Fault) := do
  let cache ← get
  set { cache with faults := cache.faults.tail }
  pure cache.faults.head?.join

def probe : SharedM World Store Identity Unit := do
  match ← nextFault with
  | none => pure ()
  | some fault => throw (.io fault.error)

def branchMut (branch : CacheBranchId) : SharedM World Store Identity (CacheBranch Store) := do
  let cache ← get
  match cache.branches[branch]? with
  | some state => pure state
  | none => throw (.branchNotFound branch)

def modifyBranch (branch : CacheBranchId) (change : CacheBranch Store → CacheBranch Store) :
    SharedM World Store Identity Unit :=
  modify fun cache => { cache with branches := cache.branches.modify branch change }

def setStore (branch : CacheBranchId) (pair : World × Store)
    (cache : SharedPageCache World Store Identity) : SharedPageCache World Store Identity :=
  { cache with
    world := pair.1
    branches := cache.branches.modify branch fun state => { state with store := pair.2 } }

def withStoreMut (branch : CacheBranchId) (operation : Attempt (World × Store) IoError α) :
    SharedM World Store Identity α := do
  let state ← branchMut branch
  probe
  within (fun cache : SharedPageCache World Store Identity => (cache.world, state.store))
    (setStore branch) CacheError.io operation

def askStore (branch : CacheBranchId) (question : Store → Except IoError α) :
    SharedM World Store Identity α := do
  let state ← branchMut branch
  probe
  orIo (question state.store)

/-- A file added through `with_store_mut`. -/
def createFile [FileMaker World Store] (branch : CacheBranchId) (name : String) (size : Nat) :
    SharedM World Store Identity NodeId :=
  withStoreMut branch (FileMaker.createFile name size)

def fromBytes (bytes : ByteMap) : SharedM World Store Identity Nat := do
  probe
  let cache ← get
  set { cache with
    nextPageId := cache.nextPageId + 1
    contents := Function.update cache.contents cache.nextPageId bytes }
  pure cache.nextPageId

/-- Other caches of the process make pages. -/
def otherPages (count : Nat) : SharedM World Store Identity Unit :=
  modify fun cache => { cache with nextPageId := cache.nextPageId + count }

def duplicate (page : Nat) : SharedM World Store Identity Nat := do
  probe
  let cache ← get
  fromBytes (cache.contents page)

/-- `write_all_at` on a page file: a failing call leaves the bytes it had already
written. -/
def writePage (page place : Nat) (data : List UInt8) : SharedM World Store Identity Unit := do
  match ← nextFault with
  | none =>
    modify fun cache => { cache with
      contents := Function.update cache.contents page ((cache.contents page).write place data) }
  | some fault =>
    modify fun cache => { cache with
      contents := Function.update cache.contents page
        ((cache.contents page).write place (data.take fault.progress)) }
    throw (.io fault.error)

section Operations

variable [ForkableNodeStore World Store Identity] [Std.TransOrd Identity] [DecidableEq Identity]

def fork (source : CacheBranchId) : SharedM World Store Identity CacheBranchId := do
  let branch ← branchMut source
  require branch.activePages.isEmpty .activeMappings
  let childStore ← withStoreMut source ForkableNodeStore.forkStore
  modifyBranch source fun branch =>
    { branch with dirtyPages := branch.dirtyPages.fork.1, exclusivePages := ∅ }
  let cache ← get
  let nextBranch ← orInvalid "cache branch identity overflow" (Word64.checkedAdd cache.nextBranch 1)
  set { cache with
    nextBranch
    branches := cache.branches.insert cache.nextBranch
      { CacheBranch.new childStore with dirtyPages := branch.dirtyPages.fork.2 } }
  pure cache.nextBranch

def visibleIdentities (cache : SharedPageCache World Store Identity) : List Identity :=
  cache.knownPages.toList.flatMap fun key =>
    (TreeMap.values cache.branches).filterMap fun branch => identityOf World branch.store key

def removeBranch (branch : CacheBranchId) : SharedM World Store Identity Unit := do
  let state ← branchMut branch
  require state.activePages.isEmpty .activeMappings
  modify fun cache => { cache with branches := cache.branches.erase branch }
  modify fun cache =>
    { cache with pages := cache.pages.filter fun identity _ => identity ∈ cache.visibleIdentities }

def openNode (branch : CacheBranchId) (node : NodeId) : SharedM World Store Identity Unit := do
  let state ← branchMut branch
  modifyBranch branch fun state =>
    { state with openNodes := state.openNodes.insertIfNew node 0 }
  onlyIf (state.openCount node = 0) (withStoreMut branch (NodeStore.onOpenNode node))
  let count ← orInvalid "open reference count overflow" (Word64.checkedAdd (state.openCount node) 1)
  modifyBranch branch fun state => { state with openNodes := state.openNodes.insert node count }

/-- The part of `close` for a node that has a count. -/
def closeCounted (branch : CacheBranchId) (node count : Nat) :
    SharedM World Store Identity Unit := do
  let count ← orInvalid "node is not open" (Word64.checkedSub count 1)
  modifyBranch branch fun state => { state with openNodes := state.openNodes.insert node count }
  onlyIf (count = 0) (withStoreMut branch (NodeStore.onCloseNode node))

def close (branch : CacheBranchId) (node : NodeId) : SharedM World Store Identity Unit := do
  let state ← branchMut branch
  match state.openNodes[node]? with
  | none => throw (.nodeNotOpen node)
  | some count => closeCounted branch node count

def loadPage (branch : CacheBranchId) (identity : Identity) (key : PageKey) :
    SharedM World Store Identity Nat := do
  let cache ← get
  match cache.pages[identity]? with
  | some page => pure page
  | none =>
    let bytes ← askStore branch fun store =>
      NodeStore.readNode World store key.1 key.2 pageSize
    let page ← fromBytes (ByteMap.ofList bytes)
    modify fun cache => { cache with pages := cache.pages.insert identity page }
    pure page

def identityIsVisible (cache : SharedPageCache World Store Identity) (key : PageKey)
    (identity : Identity) : Bool :=
  (TreeMap.values cache.branches).any fun branch =>
    identityOf World branch.store key = some identity

def dropHidden (key : PageKey) (identity : Identity)
    (cache : SharedPageCache World Store Identity) :
    SharedPageCache World Store Identity :=
  if cache.identityIsVisible key identity then cache
  else { cache with pages := cache.pages.erase identity }

/-- Copy on write: the branch gets a page of its own under a new identity. -/
def copyPage (branch : CacheBranchId) (key : PageKey) (identity : Identity) (page : Nat) :
    SharedM World Store Identity Nat := do
  let newPage ← duplicate page
  let newIdentity ← withStoreMut branch (ForkableNodeStore.preparePageWrite key.1 key.2)
  modify fun cache => { cache with pages := cache.pages.insert newIdentity newPage }
  modify (dropHidden key identity)
  modifyBranch branch fun state =>
    { state with exclusivePages := state.exclusivePages.insert key }
  pure newPage

def pageFor (branch : CacheBranchId) (key : PageKey) (identity : Identity) (page : Nat)
    (copyOnWrite : Bool) : SharedM World Store Identity Nat :=
  if copyOnWrite then copyPage branch key identity page else pure page

def mapPage (branchId : CacheBranchId) (node offset : Nat) (flags : MapFlags) :
    SharedM World Store Identity DaxPageMapping := do
  require (offset % pageSize = 0) (.invalidMapping "mapping offset must be page aligned")
  require (flags.read || flags.write) (.invalidMapping "mapping must be readable or writable")
  let branch ← branchMut branchId
  require (branch.openCount node ≠ 0) (.nodeNotOpen node)
  let identity ← orIo (ForkableNodeStore.pageIdentity World branch.store node offset)
  let loaded ← loadPage branchId identity (node, offset)
  let copyOnWrite := flags.write && !branch.exclusivePages.contains (node, offset)
  require (¬ (copyOnWrite ∧ branch.activeCount loaded > 0)) .pageBusy
  let page ← pageFor branchId (node, offset) identity loaded copyOnWrite
  modify fun cache => { cache with knownPages := cache.knownPages.insert (node, offset) }
  modifyBranch branchId fun branch => branch.addActive page
  let cache ← get
  pure { cacheId := cache.id, branch := branchId, key := (node, offset), flags, page }

/-- The part of `unmap` for a page that is counted. -/
def unmapCounted (branchId : CacheBranchId) (mapping : DaxPageMapping) (count : Nat) :
    SharedM World Store Identity Unit :=
  match Word64.checkedSub count 1 with
  | none => throw .staleMapping
  | some count => do
    modifyBranch branchId fun branch => branch.setActive mapping.page count
    onlyIf mapping.flags.write do
      modifyBranch branchId fun branch =>
        { branch with dirtyPages := branch.dirtyPages.markDirty mapping.key }

def unmap (branchId : CacheBranchId) (mapping : DaxPageMapping) :
    SharedM World Store Identity Unit := do
  let cache ← get
  require (mapping.cacheId = cache.id ∧ mapping.branch = branchId) .staleMapping
  let branch ← branchMut branchId
  match branch.activePages[mapping.page]? with
  | none => throw .staleMapping
  | some count => unmapCounted branchId mapping count

def markClean (branchId : CacheBranchId) (key : PageKey) : SharedM World Store Identity Unit :=
  modifyBranch branchId fun branch =>
    { branch with dirtyPages := branch.dirtyPages.markClean key }

/-- The part of `sync_pages` for a page that starts inside the file. -/
def writeBackPage (branchId : CacheBranchId) (key : PageKey) (fileLen : Nat) :
    SharedM World Store Identity Unit := do
  let branch ← branchMut branchId
  let identity ← orIo (ForkableNodeStore.pageIdentity World branch.store key.1 key.2)
  let cache ← get
  match cache.pages[identity]? with
  | none => throw .staleMapping
  | some page =>
    probe
    let written ← withStoreMut branchId (NodeStore.writeNode key.1 key.2
      ((cache.contents page).read 0 (min (fileLen - key.2) pageSize)))
    require (written = min (fileLen - key.2) pageSize)
      (.io (.writeZero "short filesystem write"))
    markClean branchId key

/-- One page of `sync_pages`. -/
def syncPage (branchId : CacheBranchId) (key : PageKey) : SharedM World Store Identity Unit := do
  let fileLen ← askStore branchId fun store => NodeStore.len World store key.1
  if key.2 ≥ fileLen then markClean branchId key else writeBackPage branchId key fileLen

def syncPages (branchId : CacheBranchId) (dirtyPages : List PageKey) :
    SharedM World Store Identity Unit :=
  forM dirtyPages (syncPage branchId)

def sync (branchId : CacheBranchId) (node : NodeId) : SharedM World Store Identity Unit := do
  let branch ← branchMut branchId
  syncPages branchId (branch.dirtyPages.pagesForNode node)

omit [DecidableEq Identity] in
theorem sync_eq (branchId : CacheBranchId) (node : NodeId) :
    (sync branchId node : SharedM World Store Identity Unit) = (do
      let branch ← branchMut branchId
      syncPages branchId (branch.dirtyPages.collect fun key => key.1 = node)) := by
  simp only [sync, DirtyBranch.pagesForNode_eq]

def syncAll (branchId : CacheBranchId) : SharedM World Store Identity Unit := do
  let branch ← branchMut branchId
  syncPages branchId branch.dirtyPages.pages

/-- The ids of the resident pages that a branch resolves the known pages to. -/
def pagesInBranch (cache : SharedPageCache World Store Identity) (branch : CacheBranch Store) :
    ExtTreeSet Nat :=
  ExtTreeSet.ofList (cache.knownPages.toList.filterMap fun key =>
    (identityOf World branch.store key).bind fun identity => cache.pages[identity]?.map pageId)

def addReferences (references : ExtTreeMap Nat Nat) (pages : ExtTreeSet Nat) : ExtTreeMap Nat Nat :=
  pages.toList.foldl
    (fun references page => references.insert page (references[page]?.getD 0 + 1)) references

def countReferences : List CacheBranchId → ExtTreeMap Nat Nat →
    SharedM World Store Identity (ExtTreeMap Nat Nat)
  | [], references => pure references
  | branchId :: rest, references => do
    let branch ← branchMut branchId
    let cache ← get
    countReferences rest (addReferences references (cache.pagesInBranch branch))

def pageAccounting (requested : List CacheBranchId) :
    SharedM World Store Identity CachePageAccounting := do
  let references ← countReferences requested ∅
  pure
    { residentPages := references.size
      sharedPages := (references.filter fun _ count => count > 1).size }

end Operations

end SharedPageCache

end Minidox.Cache
