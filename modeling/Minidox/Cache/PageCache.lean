import Minidox.Cache.Basic

/-!
# The single-branch page cache

`PageCache` of `minidox-cache/src/lib.rs`: one host-mappable backing file per
inode, shared by every mapping of the inode.
-/

set_option autoImplicit false

namespace Minidox.Cache

open Foundation Attempt
open Std (ExtTreeMap)

/-- A mapping source for a DAX window. Its backing is the backing file of `node`. -/
structure DaxMapping where
  cacheId : Nat
  node : NodeId
  offset : Nat
  len : Nat
  flags : MapFlags
  deriving DecidableEq, Repr

structure Fmap where
  rc : Nat
  flags : MapFlags
  version : Nat
  deriving DecidableEq, Repr

/-- `size` is the length of the backing file. -/
structure FileMmapInfo where
  backing : ByteMap
  size : Nat
  pages : ExtTreeMap Nat Fmap
  openFds : Nat
  version : Nat

namespace FileMmapInfo

def new : FileMmapInfo where
  backing := ByteMap.zero
  size := 0
  pages := ∅
  openFds := 0
  version := 0

def inUse (info : FileMmapInfo) : Bool :=
  info.openFds > 0 || info.pages.any fun _ fmap => fmap.rc > 0

/-- `map` must read the page from the store: it is not cached, or a write to the
file went past it. -/
def mustLoad (info : FileMmapInfo) (pageOffset : Nat) : Bool :=
  match info.pages[pageOffset]? with
  | none => true
  | some fmap => fmap.version != info.version

def rcOf (info : FileMmapInfo) (pageOffset : Nat) : Nat :=
  (info.pages[pageOffset]?.map Fmap.rc).getD 0

def readExactAt (info : FileMmapInfo) (offset count : Nat) : Except IoError (List UInt8) :=
  if offset + count ≤ info.size then .ok (info.backing.read offset count)
  else .error (.unexpectedEof "short DAX read")

def addMapping (info : FileMmapInfo) (pageOffset : Nat) (flags : MapFlags) : FileMmapInfo :=
  { info with
    pages := info.pages.alter pageOffset fun
      | some fmap =>
        some { rc := fmap.rc + 1, flags := fmap.flags.union flags, version := info.version }
      | none => some { rc := 1, flags, version := info.version } }

def setVersion (info : FileMmapInfo) (pageOffset : Nat) : FileMmapInfo :=
  { info with pages := info.pages.modify pageOffset fun fmap =>
      { fmap with version := info.version } }

def setRc (info : FileMmapInfo) (pageOffset rc : Nat) : FileMmapInfo :=
  { info with pages := info.pages.modify pageOffset fun fmap => { fmap with rc } }

end FileMmapInfo

structure PageCache (World Store : Type) where
  id : Nat
  world : World
  store : Store
  files : ExtTreeMap NodeId FileMmapInfo
  faults : Faults

abbrev PageCacheM (World Store : Type) := Attempt (PageCache World Store) CacheError

namespace PageCache

variable {World Store : Type} [NodeStore World Store] {α : Type}

def new (id : Nat) (world : World) (store : Store) (faults : Faults) : PageCache World Store :=
  { id, world, store, files := ∅, faults }

/-- The outcome of the next fallible call. -/
def nextFault : PageCacheM World Store (Option Fault) := do
  let cache ← get
  set { cache with faults := cache.faults.tail }
  pure cache.faults.head?.join

def probe : PageCacheM World Store Unit := do
  match ← nextFault with
  | none => pure ()
  | some fault => throw (.io fault.error)

def callStore (operation : Attempt (World × Store) IoError α) : PageCacheM World Store α := do
  probe
  within (fun cache : PageCache World Store => (cache.world, cache.store))
    (fun pair cache => { cache with world := pair.1, store := pair.2 }) CacheError.io operation

def askStore (question : Store → Except IoError α) : PageCacheM World Store α := do
  probe
  let cache ← get
  orIo (question cache.store)

def fileInfo (node : NodeId) : PageCacheM World Store FileMmapInfo := do
  let cache ← get
  match cache.files[node]? with
  | some info => pure info
  | none => throw (.nodeNotOpen node)

def modifyInfo (node : NodeId) (change : FileMmapInfo → FileMmapInfo) :
    PageCacheM World Store Unit :=
  modify fun cache => { cache with files := cache.files.modify node change }

/-- `write_all_at` on the backing file: a failing call leaves the bytes it had
already written. -/
def writeAllAt (node : NodeId) (offset count : Nat) (source : ByteMap) :
    PageCacheM World Store Unit := do
  match ← nextFault with
  | none =>
    modifyInfo node fun info =>
      { info with backing := info.backing.blit offset count source }
  | some fault =>
    modifyInfo node fun info =>
      { info with backing := info.backing.blit offset (min fault.progress count) source }
    throw (.io fault.error)

def ensureSize (node : NodeId) (size : Nat) : PageCacheM World Store Unit := do
  let info ← fileInfo node
  onlyIf (size > info.size) do
    probe
    modifyInfo node fun info => { info with size }

/-- The entry of `files` that `open` works on, made when it is vacant. -/
def entry (node : NodeId) : PageCacheM World Store FileMmapInfo := do
  let cache ← get
  match cache.files[node]? with
  | some info => pure info
  | none =>
    probe
    modify fun cache => { cache with files := cache.files.insert node FileMmapInfo.new }
    pure FileMmapInfo.new

def openNode (node : NodeId) : PageCacheM World Store Unit := do
  let info ← entry node
  onlyIf (!info.inUse) (callStore (NodeStore.onOpenNode node))
  let openFds ← orInvalid "open reference count overflow" (Word64.checkedAdd info.openFds 1)
  modifyInfo node fun info => { info with openFds }

def close (node : NodeId) : PageCacheM World Store Unit := do
  let info ← fileInfo node
  let openFds ← orInvalid "node is not open" (Word64.checkedSub info.openFds 1)
  modifyInfo node fun info => { info with openFds }
  onlyIf (!{ info with openFds }.inUse) (callStore (NodeStore.onCloseNode node))

def loadPage (node : NodeId) (offset : Nat) : PageCacheM World Store Unit := do
  let data ← askStore fun store => NodeStore.readNode World store node offset pageSize
  writeAllAt node offset pageSize (ByteMap.ofList data)

/-- One page of `map`. -/
def mapOne (node : NodeId) (flags : MapFlags) (pageOffset : Nat) :
    PageCacheM World Store Unit := do
  let info ← fileInfo node
  onlyIf (info.mustLoad pageOffset) (loadPage node pageOffset)
  modifyInfo node fun info => info.addMapping pageOffset flags

def map (node : NodeId) (offset len : Nat) (flags : MapFlags) :
    PageCacheM World Store DaxMapping := do
  require (len ≠ 0) (.invalidMapping "mapping length must be non-zero")
  require (offset % pageSize = 0) (.invalidMapping "mapping offset must be page aligned")
  require (flags.read || flags.write) (.invalidMapping "mapping must be readable or writable")
  let alignedLen ← orInvalid "mapping range overflow" (Word64.checkedNextMultipleOf len pageSize)
  let stop ← orInvalid "mapping range overflow" (Word64.checkedAdd offset alignedLen)
  ensureSize node stop
  forM (pageOffsets offset stop) (mapOne node flags)
  let cache ← get
  pure { cacheId := cache.id, node, offset, len := alignedLen, flags }

/-- The bytes that `read` leaves at the start of a buffer of `capacity` bytes. -/
def read (node : NodeId) (offset capacity : Nat) : PageCacheM World Store (List UInt8) := do
  let fileLen ← askStore fun store => NodeStore.len World store node
  if offset ≥ fileLen || capacity = 0 then
    pure []
  else
    let cache ← get
    match cache.files[node]? with
    | none =>
      askStore fun store =>
        NodeStore.readNode World store node offset (min (fileLen - offset) capacity)
    | some info =>
      let stop ← orInvalid "read range overflow"
        (Word64.checkedNextMultipleOf (offset + min (fileLen - offset) capacity) pageSize)
      if (pageOffsets (pageOf offset) stop).all fun page => !info.mustLoad page then
        probe
        orIo (info.readExactAt offset (min (fileLen - offset) capacity))
      else
        askStore fun store =>
          NodeStore.readNode World store node offset (min (fileLen - offset) capacity)

/-- One page of `update_cached_pages`. -/
def updateCachedPage (node : NodeId) (offset stop : Nat) (data : List UInt8) (pageOffset : Nat) :
    PageCacheM World Store Unit :=
  let overlapStart := max offset pageOffset
  let overlapEnd := min stop (pageOffset + pageSize)
  onlyIf (overlapStart < overlapEnd) do
    writeAllAt node overlapStart (overlapEnd - overlapStart)
      (ByteMap.ofList (data.drop (overlapStart - offset)))
    modifyInfo node fun info => info.setVersion pageOffset

def updateCachedPages (node : NodeId) (offset : Nat) (data : List UInt8) :
    PageCacheM World Store Unit := do
  let stop ← orInvalid "write range overflow" (Word64.checkedAdd offset data.length)
  let info ← fileInfo node
  forM info.pages.keys (updateCachedPage node offset stop data)

def write (node : NodeId) (offset : Nat) (data : List UInt8) : PageCacheM World Store Nat := do
  let written ← callStore (NodeStore.writeNode node offset data)
  let cache ← get
  match cache.files[node]? with
  | none => pure written
  | some _ =>
    modifyInfo node fun info => { info with version := Word64.wrappingAdd info.version 1 }
    updateCachedPages node offset (data.take written)
    pure written

/-- The part of `sync_page` for a page that starts inside the file. -/
def writeBackPage (node : NodeId) (offset count : Nat) : PageCacheM World Store Unit := do
  let info ← fileInfo node
  probe
  let page ← orIo (info.readExactAt offset count)
  let written ← callStore (NodeStore.writeNode node offset page)
  require (written = count) (.io (.writeZero "short filesystem write"))
  modifyInfo node fun info => info.setVersion offset

def syncPage (node : NodeId) (offset : Nat) : PageCacheM World Store Unit := do
  let fileLen ← askStore fun store => NodeStore.len World store node
  onlyIf (offset < fileLen) (writeBackPage node offset (min (fileLen - offset) pageSize))

def sync (node : NodeId) : PageCacheM World Store Unit := do
  let info ← fileInfo node
  forM (info.pages.toList.filterMap fun (offset, fmap) =>
    if fmap.flags.write then some offset else none) (syncPage node)

/-- One page of `unmap`. -/
def unmapOne (node : NodeId) (pageOffset : Nat) : PageCacheM World Store Unit := do
  let info ← fileInfo node
  match info.pages[pageOffset]? with
  | none => throw .staleMapping
  | some fmap =>
    onlyIf fmap.flags.write (syncPage node pageOffset)
    match Word64.checkedSub fmap.rc 1 with
    | none => throw .staleMapping
    | some rc => modifyInfo node fun info => info.setRc pageOffset rc

def unmap (mapping : DaxMapping) : PageCacheM World Store Unit := do
  let cache ← get
  require (mapping.cacheId = cache.id) .staleMapping
  let _ ← fileInfo mapping.node
  let stop ← orInvalid "mapping range overflow" (Word64.checkedAdd mapping.offset mapping.len)
  forM (pageOffsets mapping.offset stop) (unmapOne mapping.node)
  let info ← fileInfo mapping.node
  onlyIf (!info.inUse) (callStore (NodeStore.onCloseNode mapping.node))

end PageCache

end Minidox.Cache
