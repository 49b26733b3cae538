import Minidox.Cache.Shared.Model

/-!
# A shared cache and its clients

Clients call the cache from several threads, hold mappings, and store through the
writable ones without calling the cache. A step is one critical section of the
state mutex, or one copy between a page file and the buffer of a call: `read` and
`write` take several steps, between which other threads take theirs.
-/

set_option autoImplicit false

namespace Minidox.Cache

open Foundation Attempt
open Std (ExtTreeMap)

abbrev Thread := Nat

/-- `SharedPageCache::read` into a buffer of some capacity, or
`SharedPageCache::write` of a buffer. -/
inductive Job where
  | read (capacity : Nat)
  | write (data : List UInt8)
  deriving DecidableEq, Repr

/-- Where a call is: before it asks for the length of the file, or in the loop over
the pages, with the mapping of the current page once it has one. -/
inductive Phase (Mapping : Type) where
  | measure
  | map
  | copy (mapping : Mapping)
  | unmap (mapping : Mapping)
  deriving DecidableEq, Repr

/-- `collected` is the part of the buffer that a `read` has filled. -/
structure Call (Mapping : Type) where
  job : Job
  branch : CacheBranchId
  node : NodeId
  offset : Nat
  stop : Nat
  cursor : Nat
  collected : List UInt8
  phase : Phase Mapping
  deriving DecidableEq, Repr

/-- What the caller of an operation gets. `torn` is a `write` that failed while
copying, with the number of bytes of the chunk that were stored before. -/
inductive Reply where
  | done
  | refused
  | running
  | failed (error : CacheError)
  | torn (error : CacheError) (stored : Nat)
  | forked (child : CacheBranchId)
  | created (node : NodeId)
  | length (length : Nat)
  | mapped (mapping : DaxPageMapping)
  | read (bytes : List UInt8)
  | wrote (count : Nat)
  deriving DecidableEq, Repr

/-- The caller learns of a host call that failed. -/
def Reply.isIo : Reply → Bool
  | .failed (.io _) | .torn (.io _) _ => true
  | _ => false

inductive Progress (Mapping : Type) where
  | running (call : Call Mapping)
  | finished (reply : Reply)

namespace Job

def flags : Job → MapFlags
  | .read _ => .READ
  | .write _ => .READ_WRITE

def result (collected : List UInt8) : Job → Reply
  | .read _ => .read collected
  | .write data => .wrote data.length

end Job

namespace Call

variable {Mapping : Type}

def new (job : Job) (branch : CacheBranchId) (node offset : Nat) : Call Mapping :=
  { job, branch, node, offset, stop := offset, cursor := offset, collected := [],
    phase := .measure }

def withinPage (call : Call Mapping) : Nat := call.cursor - pageOf call.cursor

def chunkLen (call : Call Mapping) : Nat :=
  min (pageSize - call.withinPage) (call.stop - call.cursor)

def chunk (call : Call Mapping) (data : List UInt8) : List UInt8 :=
  (data.drop (call.cursor - call.offset)).take call.chunkLen

def loop (call : Call Mapping) : Progress Mapping :=
  if call.cursor < call.stop then .running { call with phase := .map }
  else .finished (call.job.result call.collected)

def mapping? (call : Call Mapping) : Option Mapping :=
  match call.phase with
  | .measure | .map => none
  | .copy mapping | .unmap mapping => some mapping

/-- The start of `read` and of `write`, up to the loop. -/
def measure {World Store Identity : Type} [Ord Identity] [NodeStore World Store]
    (call : Call Mapping) : SharedM World Store Identity (Progress Mapping) :=
  match call.job with
  | .read capacity => do
    let fileLen ← SharedPageCache.askStore call.branch fun store =>
      NodeStore.len World store call.node
    if call.offset ≥ fileLen ∨ capacity = 0 then
      pure (.finished (.read []))
    else
      let stop ← orInvalid "read range overflow"
        (Word64.checkedAdd call.offset (min (fileLen - call.offset) capacity))
      pure ({ call with stop }.loop)
  | .write data => do
    let stop ← orInvalid "write range overflow" (Word64.checkedAdd call.offset data.length)
    let fileLen ← SharedPageCache.askStore call.branch fun store =>
      NodeStore.len World store call.node
    require (stop ≤ fileLen) (.invalidMapping "write extends beyond file")
    pure ({ call with stop }.loop)

/-- Copy one chunk between the page file and the buffer; the filled buffer. -/
def copyChunk {World Store Identity : Type} [Ord Identity] (call : Call DaxPageMapping)
    (mapping : DaxPageMapping) : SharedM World Store Identity (List UInt8) :=
  match call.job with
  | .read _ => do
    SharedPageCache.probe
    let cache ← get
    pure (call.collected ++ (cache.contents mapping.page).read call.withinPage call.chunkLen)
  | .write data => do
    SharedPageCache.writePage mapping.page call.withinPage (call.chunk data)
    pure call.collected

def advance {World Store Identity : Type} [Ord Identity] [Std.TransOrd Identity]
    [DecidableEq Identity] [ForkableNodeStore World Store Identity] (call : Call DaxPageMapping) :
    SharedM World Store Identity (Progress DaxPageMapping) :=
  match call.phase with
  | .measure => call.measure
  | .map => do
    let mapping ← SharedPageCache.mapPage call.branch call.node (pageOf call.cursor) call.job.flags
    pure (.running { call with phase := .copy mapping })
  | .copy mapping => do
    let collected ← call.copyChunk mapping
    pure (.running { call with collected, phase := .unmap mapping })
  | .unmap mapping => do
    SharedPageCache.unmap call.branch mapping
    pure ({ call with cursor := call.cursor + call.chunkLen }.loop)

def failure (call : Call DaxPageMapping) (faults : Faults) (error : CacheError) : Reply :=
  match call.phase, call.job with
  | .copy _, .write data =>
    .torn error (min ((faults.head?.join.map Fault.progress).getD 0) (call.chunk data).length)
  | _, _ => .failed error

end Call

/-- Who holds a mapping: a client, a running call, or nobody any more. A mapping that
nobody holds was dropped without `unmap` and stays counted. -/
inductive Holder where
  | client
  | call (thread : Thread)
  | nobody
  deriving DecidableEq, Repr

structure System (World Store Identity : Type) [Ord Identity] where
  cache : SharedPageCache World Store Identity
  held : List (Holder × DaxPageMapping)
  calls : ExtTreeMap Thread (Call DaxPageMapping)

inductive Action where
  | fork (source : CacheBranchId)
  | removeBranch (branch : CacheBranchId)
  | openNode (branch : CacheBranchId) (node : NodeId)
  | close (branch : CacheBranchId) (node : NodeId)
  | createFile (branch : CacheBranchId) (name : String) (size : Nat)
  | metadata (branch : CacheBranchId) (node : NodeId)
  | mapPage (branch : CacheBranchId) (node offset : Nat) (flags : MapFlags)
  | store (mapping : DaxPageMapping) (place : Nat) (data : List UInt8)
  | unmap (branch : CacheBranchId) (mapping : DaxPageMapping)
  | sync (branch : CacheBranchId) (node : NodeId)
  | syncAll (branch : CacheBranchId)
  | begin (thread : Thread) (job : Job) (branch : CacheBranchId) (node offset : Nat)
  | advance (thread : Thread)
  | otherPages (count : Nat)
  deriving DecidableEq, Repr

namespace System

variable {World Store Identity : Type} [Ord Identity] {α : Type}

def new (cache : SharedPageCache World Store Identity) : System World Store Identity :=
  { cache, held := [], calls := ∅ }

def mappings (system : System World Store Identity) : List DaxPageMapping :=
  system.held.map Prod.snd

def abandon (system : System World Store Identity) (holder : Holder) (mapping : DaxPageMapping) :
    System World Store Identity :=
  { system with held := (.nobody, mapping) :: system.held.erase (holder, mapping) }

def attempt (system : System World Store Identity) (operation : SharedM World Store Identity α)
    (reply : α → Reply) : System World Store Identity × Reply :=
  match operation.exec system.cache with
  | (.ok value, cache) => ({ system with cache }, reply value)
  | (.error error, cache) => ({ system with cache }, .failed error)

/-- The mappings after a step of a thread, which had one of them and has another. -/
def passOn (thread : Thread) (held : List (Holder × DaxPageMapping)) :
    Option DaxPageMapping → Option DaxPageMapping → List (Holder × DaxPageMapping)
  | none, some mapping => (.call thread, mapping) :: held
  | some mapping, none => held.erase (.call thread, mapping)
  | none, none => held
  | some _, some _ => held

section Step

variable [ForkableNodeStore World Store Identity] [FileMaker World Store] [Std.TransOrd Identity]
  [DecidableEq Identity]

def mapPage (system : System World Store Identity) (branch : CacheBranchId) (node offset : Nat)
    (flags : MapFlags) : System World Store Identity × Reply :=
  match (SharedPageCache.mapPage branch node offset flags).exec system.cache with
  | (.ok mapping, cache) =>
    ({ system with cache, held := (.client, mapping) :: system.held }, .mapped mapping)
  | (.error error, cache) => ({ system with cache }, .failed error)

/-- `unmap` takes the mapping from the client also when it fails. -/
def unmap (system : System World Store Identity) (branch : CacheBranchId)
    (mapping : DaxPageMapping) : System World Store Identity × Reply :=
  if (.client, mapping) ∈ system.held then
    match (SharedPageCache.unmap branch mapping).exec system.cache with
    | (.ok _, cache) => ({ system with cache, held := system.held.erase (.client, mapping) }, .done)
    | (.error error, cache) => ({ system with cache }.abandon .client mapping, .failed error)
  else (system, .refused)

def store (system : System World Store Identity) (mapping : DaxPageMapping) (place : Nat)
    (data : List UInt8) : System World Store Identity × Reply :=
  if (.client, mapping) ∈ system.held ∧ mapping.flags.write ∧ place + data.length ≤ pageSize then
    ({ system with
      cache := { system.cache with
        contents := Function.update system.cache.contents mapping.page
          ((system.cache.contents mapping.page).write place data) } }, .done)
  else (system, .refused)

def begin (system : System World Store Identity) (thread : Thread) (job : Job)
    (branch : CacheBranchId) (node offset : Nat) : System World Store Identity × Reply :=
  match system.calls[thread]? with
  | some _ => (system, .refused)
  | none =>
    ({ system with calls := system.calls.insert thread (Call.new job branch node offset) },
      .running)

/-- A call that fails drops its mapping without `unmap`. -/
def stop (system : System World Store Identity) (thread : Thread) (call : Call DaxPageMapping) :
    System World Store Identity :=
  match call.mapping? with
  | none => { system with calls := system.calls.erase thread }
  | some mapping =>
    { system with calls := system.calls.erase thread }.abandon (.call thread) mapping

def advance (system : System World Store Identity) (thread : Thread) :
    System World Store Identity × Reply :=
  match system.calls[thread]? with
  | none => (system, .refused)
  | some call =>
    match call.advance.exec system.cache with
    | (.ok (.running next), cache) =>
      ({ cache
         held := passOn thread system.held call.mapping? next.mapping?
         calls := system.calls.insert thread next }, .running)
    | (.ok (.finished reply), cache) =>
      ({ cache
         held := passOn thread system.held call.mapping? none
         calls := system.calls.erase thread }, reply)
    | (.error error, cache) =>
      ({ system with cache }.stop thread call, call.failure system.cache.faults error)

def step (system : System World Store Identity) : Action → System World Store Identity × Reply
  | .fork source => system.attempt (SharedPageCache.fork source) .forked
  | .removeBranch branch => system.attempt (SharedPageCache.removeBranch branch) fun _ => .done
  | .openNode branch node => system.attempt (SharedPageCache.openNode branch node) fun _ => .done
  | .close branch node => system.attempt (SharedPageCache.close branch node) fun _ => .done
  | .createFile branch name size =>
    system.attempt (SharedPageCache.createFile branch name size) .created
  | .metadata branch node =>
    system.attempt (SharedPageCache.askStore branch fun store => NodeStore.len World store node)
      .length
  | .mapPage branch node offset flags => system.mapPage branch node offset flags
  | .store mapping place data => system.store mapping place data
  | .unmap branch mapping => system.unmap branch mapping
  | .sync branch node => system.attempt (SharedPageCache.sync branch node) fun _ => .done
  | .syncAll branch => system.attempt (SharedPageCache.syncAll branch) fun _ => .done
  | .begin thread job branch node offset => system.begin thread job branch node offset
  | .advance thread => system.advance thread
  | .otherPages count => system.attempt (SharedPageCache.otherPages count) fun _ => .done

/-- No call of the host or of a store fails in the action. -/
def Served (system : System World Store Identity) (action : Action) : Prop :=
  (system.step action).2.isIo = false

instance (system : System World Store Identity) (action : Action) :
    Decidable (system.Served action) :=
  inferInstanceAs (Decidable (_ = _))

variable {system : System World Store Identity} {thread : Thread} {call next : Call DaxPageMapping}
  {reply : Reply} {cache : SharedPageCache World Store Identity}

theorem step_running (active : system.calls[thread]? = some call)
    (executed : call.advance.exec system.cache = (.ok (.running next), cache)) :
    system.step (.advance thread) =
      ({ cache
         held := passOn thread system.held call.mapping? next.mapping?
         calls := system.calls.insert thread next }, .running) := by
  simp only [step, advance, active, executed]

theorem step_finished (active : system.calls[thread]? = some call)
    (executed : call.advance.exec system.cache = (.ok (.finished reply), cache)) :
    system.step (.advance thread) =
      ({ cache
         held := passOn thread system.held call.mapping? none
         calls := system.calls.erase thread }, reply) := by
  simp only [step, advance, active, executed]

end Step

end System

end Minidox.Cache
