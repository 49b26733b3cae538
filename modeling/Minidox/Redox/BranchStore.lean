import Minidox.Cache.Shared.Store
import Minidox.Redox.Branch
import Minidox.Redox.IdentityHistory
import Minidox.Redox.PrivateDisks

/-!
# RedoxFS branches as stores of a cache

A filesystem that keeps to its contract reads back what its disk says. While the host
serves the block writes of its transactions, its branches are the stores that a shared
cache assumes: a fork is an equal copy or changes nothing, whatever its host calls and the
reopening of the disk end with, a write touches its range only, and a prepared page gets
an identity that was never given out before. A block write that fails is excluded: it
leaves a disk that shows more than the filesystem in memory does.
-/

set_option autoImplicit false

namespace Minidox.Redox

open Foundation Attempt
open Cache

def applyWrites (writes : BlockWrites) (disk : ByteMap) : ByteMap :=
  writes.foldl (fun disk write => disk.write (write.1 * blockSize) write.2) disk

/-- What a mounted filesystem holds, for the statements about it: its files, to which the
directories do not belong. `Saved` says that the disk has what the filesystem has in memory. -/
class RedoxFiles (Mount : Type) where
  fileLen : Mount → ByteMap → NodeId → Option Nat
  fileByte : Mount → ByteMap → NodeId → ByteMap
  Saved : Nat → Mount → ByteMap → Prop

section Laws

variable {Mount : Type} [RedoxFiles Mount]

/-- A commit writes inside the disk, and loses no file. -/
structure Commits (size : Nat) (mount : Mount) (disk : ByteMap) (writes : BlockWrites)
    (next : Mount) : Prop where
  inside : ∀ write ∈ writes, InRange size write.1 write.2.length
  saved : RedoxFiles.Saved size next (applyWrites writes disk)
  kept : ∀ node, RedoxFiles.fileLen mount disk node ≠ none →
    RedoxFiles.fileLen next (applyWrites writes disk) node ≠ none

structure CommitsNothing (size : Nat) (mount : Mount) (disk : ByteMap) (writes : BlockWrites)
    (next : Mount) : Prop extends Commits size mount disk writes next where
  fileLen : RedoxFiles.fileLen next (applyWrites writes disk) = RedoxFiles.fileLen mount disk
  fileByte : RedoxFiles.fileByte next (applyWrites writes disk) = RedoxFiles.fileByte mount disk

end Laws

/-- The contract of the crate `redoxfs`. It may refuse any call. -/
class LawfulRedoxFs (Mount : Type) [RedoxFs Mount] [RedoxFiles Mount] : Prop where
  create_saved : ∀ {size : Nat} {writes : BlockWrites} {mount : Mount},
    RedoxFs.create size = .ok (writes, mount) →
    (∀ write ∈ writes, InRange size write.1 write.2.length) ∧
    RedoxFiles.Saved size mount (applyWrites writes ByteMap.zero)
  mount_saved : ∀ {size : Nat} {mount next : Mount} {disk : ByteMap},
    RedoxFiles.Saved size mount disk →
    RedoxFs.mount disk (RedoxFs.block mount) = .ok next →
    RedoxFiles.Saved size next disk ∧
    RedoxFiles.fileLen next disk = RedoxFiles.fileLen mount disk ∧
    RedoxFiles.fileByte next disk = RedoxFiles.fileByte mount disk
  len_file : ∀ {size : Nat} {mount : Mount} {disk : ByteMap} {node length answer : Nat},
    RedoxFiles.Saved size mount disk → RedoxFiles.fileLen mount disk node = some length →
    RedoxFs.len mount disk node = .ok answer → answer = length
  readNode_file : ∀ {size : Nat} {mount : Mount} {disk : ByteMap}
    {node offset count length : Nat} {data : List UInt8},
    RedoxFiles.Saved size mount disk → RedoxFiles.fileLen mount disk node = some length →
    RedoxFs.readNode mount disk node offset count = .ok data →
    data = (RedoxFiles.fileByte mount disk node).read offset (min count (length - offset))
  writeNode_commits : ∀ {size : Nat} {mount next : Mount} {disk : ByteMap}
    {node offset written length : Nat} {data : List UInt8} {writes : BlockWrites},
    RedoxFiles.Saved size mount disk → RedoxFiles.fileLen mount disk node = some length →
    RedoxFs.writeNode node offset data mount disk = .ok (writes, next, written) →
    Commits size mount disk writes next ∧
    (offset + data.length ≤ length →
      RedoxFiles.fileLen next (applyWrites writes disk) = RedoxFiles.fileLen mount disk ∧
      (∀ other position, ¬ (other = node ∧ offset ≤ position ∧
          position < offset + data.length) →
        RedoxFiles.fileByte next (applyWrites writes disk) other position =
          RedoxFiles.fileByte mount disk other position) ∧
      written ≤ data.length ∧ ∀ position, offset ≤ position → position < offset + written →
        RedoxFiles.fileByte next (applyWrites writes disk) node position =
          data.getD (position - offset) 0)
  createNode_commits : ∀ {size length : Nat} {mount next : Mount} {disk : ByteMap}
    {name : String} {node : NodeId} {writes : BlockWrites},
    RedoxFiles.Saved size mount disk →
    RedoxFs.createNode name length mount disk = .ok (writes, next, node) →
    Commits size mount disk writes next ∧
    node ≠ rootNode ∧ RedoxFiles.fileLen mount disk node = none ∧
    RedoxFiles.fileLen next (applyWrites writes disk) node = some length ∧
    RedoxFiles.fileByte next (applyWrites writes disk) node = ByteMap.zero ∧
    ∀ other, other ≠ node →
      RedoxFiles.fileLen next (applyWrites writes disk) other =
        RedoxFiles.fileLen mount disk other ∧
      RedoxFiles.fileByte next (applyWrites writes disk) other =
        RedoxFiles.fileByte mount disk other
  onOpenNode_commits : ∀ {size : Nat} {mount next : Mount} {disk : ByteMap} {node : NodeId}
    {writes : BlockWrites} {value : Unit}, RedoxFiles.Saved size mount disk →
    RedoxFs.onOpenNode node mount disk = .ok (writes, next, value) →
    CommitsNothing size mount disk writes next
  onCloseNode_commits : ∀ {size : Nat} {mount next : Mount} {disk : ByteMap} {node : NodeId}
    {writes : BlockWrites} {value : Unit}, RedoxFiles.Saved size mount disk →
    RedoxFs.onCloseNode node mount disk = .ok (writes, next, value) →
    CommitsNothing size mount disk writes next

/-!
## Calls of a branch
-/

namespace RedoxBranch

variable {Mount α : Type}

variable {writes : BlockWrites}

theorem ends_writeBlocks {world : RedoxWorld} {disk : CowDisk} (quiet : world.faults = [])
    (inside : ∀ write ∈ writes, InRange disk.size write.1 write.2.length) :
    Ends (writeBlocks writes) (world, disk) fun result after => result = .ok () ∧
      CowDisk.Left world disk (applyWrites writes disk.content) after ∧
      SameIdentityCounters world after.1 := by
  induction writes generalizing world disk with
  | nil => exact ⟨rfl, ⟨rfl, rfl, rfl, fun quiet => quiet⟩, rfl, rfl⟩
  | cons write rest ih =>
    obtain ⟨block, bytes⟩ := write
    have here := inside (block, bytes) List.mem_cons_self
    have counters : Moves (Behind SameIdentityCounters) (CowDisk.writeAt block bytes) :=
      CowDisk.frame_writeAt block bytes
    unfold writeBlocks
    rw [List.forM_cons, ends_bind, commitBlock, ends_bind]
    refine ((CowDisk.ends_writeAt_content block bytes world disk).and
      (counters (world, disk))).mono ?_
    intro result middle ended
    obtain ⟨middleWorld, middleDisk⟩ := middle
    obtain ⟨outside | ⟨-, rfl, left⟩ | ⟨-, -, failed, -⟩, same⟩ := ended
    · exact absurd here outside.1
    · simp only [ends_pure]
      refine (ih (left.quiet quiet) fun other member => ?_).mono ?_
      · rw [left.size]
        exact inside other (List.mem_cons_of_mem _ member)
      · intro result after further
        obtain ⟨rfl, rest, counted⟩ := further
        rw [left.content] at rest
        exact ⟨rfl, left.trans rest, IsTrans.trans (r := SameIdentityCounters) _ _ _ same counted⟩
    · exact absurd quiet failed.2

structure Committed (branch : RedoxBranch Mount) (world : RedoxWorld) (writes : BlockWrites)
    (next : Mount) (after : RedoxWorld × RedoxBranch Mount) : Prop where
  content : after.2.disk.content = applyWrites writes branch.disk.content
  size : after.2.disk.size = branch.disk.size
  mount : after.2.mount = next
  identities : after.2.identities = branch.identities
  counters : SameIdentityCounters world after.1

theorem ends_tx {transaction : Transaction Mount α} {world : RedoxWorld}
    {branch : RedoxBranch Mount} (quiet : world.faults = [])
    (inside : ∀ writes next value,
      transaction branch.mount branch.disk.content = .ok (writes, next, value) →
      ∀ write ∈ writes, InRange branch.disk.size write.1 write.2.length)
    {post : Except IoError α → RedoxWorld × RedoxBranch Mount → Prop}
    (refused : ∀ errno, transaction branch.mount branch.disk.content = .error errno →
      post (.error (.os errno)) (world, branch))
    (committed : ∀ writes next value after,
      transaction branch.mount branch.disk.content = .ok (writes, next, value) →
      branch.Committed world writes next after → post (.ok value) after) :
    Ends (tx transaction) (world, branch) post := by
  simp only [tx, ends_bind, ends_get]
  cases computed : transaction branch.mount branch.disk.content with
  | error errno => exact refused errno computed
  | ok outcome =>
    obtain ⟨writes, next, value⟩ := outcome
    simp only [orErrno, ends_pure, onDisk, ends_within]
    refine (ends_writeBlocks quiet (inside writes next value computed)).mono ?_
    intro result after ended
    obtain ⟨rfl, left, counters⟩ := ended
    exact committed writes next value _ computed
      ⟨left.content, left.size, rfl, rfl, counters⟩

variable [RedoxFiles Mount]

def fileLen (branch : RedoxBranch Mount) : NodeId → Option Nat :=
  RedoxFiles.fileLen branch.mount branch.disk.content

def fileByte (branch : RedoxBranch Mount) : NodeId → ByteMap :=
  RedoxFiles.fileByte branch.mount branch.disk.content

/-- The disk has what the filesystem has in memory, and only files that exist have an
identity, and the root. -/
structure Mounted (branch : RedoxBranch Mount) : Prop where
  saved : RedoxFiles.Saved branch.disk.size branch.mount branch.disk.content
  identified : ∀ node, node ≠ rootNode → branch.identities.object node ≠ none →
    branch.fileLen node ≠ none

variable {world : RedoxWorld} {branch : RedoxBranch Mount} {after : RedoxWorld × RedoxBranch Mount}

theorem Committed.mounted (mounted : branch.Mounted) {next : Mount}
    (commits : Commits branch.disk.size branch.mount branch.disk.content writes next)
    (committed : branch.Committed world writes next after) :
    after.2.Mounted where
  saved := by
    rw [committed.size, committed.mount, committed.content]
    exact commits.saved
  identified node inner present := by
    rw [committed.identities] at present
    rw [fileLen, committed.mount, committed.content]
    exact commits.kept node (mounted.identified node inner present)

theorem Committed.fileLen {next : Mount} (committed : branch.Committed world writes next after) :
    after.2.fileLen = RedoxFiles.fileLen next (applyWrites writes branch.disk.content) := by
  rw [RedoxBranch.fileLen, committed.mount, committed.content]

theorem Committed.fileByte {next : Mount} (committed : branch.Committed world writes next after) :
    after.2.fileByte = RedoxFiles.fileByte next (applyWrites writes branch.disk.content) := by
  rw [RedoxBranch.fileByte, committed.mount, committed.content]

/-- A branch stays mounted, and keeps its identities. -/
structure Stays (world : RedoxWorld) (branch : RedoxBranch Mount)
    (after : RedoxWorld × RedoxBranch Mount) : Prop where
  mounted : after.2.Mounted
  objects : after.2.identities.object = branch.identities.object
  versions : after.2.identities.pageVersion = branch.identities.pageVersion
  counters : SameIdentityCounters world after.1

/-- A branch also shows the files that it showed. -/
structure Unchanged (world : RedoxWorld) (branch : RedoxBranch Mount)
    (after : RedoxWorld × RedoxBranch Mount) : Prop extends Stays world branch after where
  fileLen : after.2.fileLen = branch.fileLen
  fileByte : after.2.fileByte = branch.fileByte

/-- What a write inside a file does, which may have stored less than its data. -/
def Overwrites (branch : RedoxBranch Mount) (node offset : Nat) (data : List UInt8)
    (result : Except IoError Nat) (after : RedoxBranch Mount) : Prop :=
  after.fileLen = branch.fileLen ∧
    (∀ other position, ¬ (other = node ∧ offset ≤ position ∧ position < offset + data.length) →
      after.fileByte other position = branch.fileByte other position) ∧
    ∀ written, result = .ok written → written ≤ data.length ∧
      ∀ position, offset ≤ position → position < offset + written →
        after.fileByte node position = data.getD (position - offset) 0

theorem Unchanged.refl (mounted : branch.Mounted) : Unchanged world branch (world, branch) :=
  ⟨⟨mounted, rfl, rfl, rfl, rfl⟩, rfl, rfl⟩

theorem Committed.stays (mounted : branch.Mounted) {next : Mount}
    (commits : Commits branch.disk.size branch.mount branch.disk.content writes next)
    (committed : branch.Committed world writes next after) :
    Stays world branch after :=
  ⟨committed.mounted mounted commits, by rw [committed.identities], by rw [committed.identities],
    committed.counters⟩

theorem unchanged_onDisk (mounted : branch.Mounted) {after : RedoxWorld × CowDisk}
    {identities : IdentityBranch}
    (left : CowDisk.Left world branch.disk branch.disk.content after)
    (counters : SameIdentityCounters world after.1)
    (objects : identities.object = branch.identities.object)
    (versions : identities.pageVersion = branch.identities.pageVersion) :
    Unchanged world branch (after.1, { branch with disk := after.2, identities }) := by
  have files : RedoxFiles.fileLen branch.mount after.2.content = branch.fileLen := by
    rw [left.content]
    rfl
  refine ⟨⟨⟨?_, fun node inner present => ?_⟩, objects, versions, counters⟩, files, ?_⟩
  · rw [left.size, left.content]
    exact mounted.saved
  · rw [objects] at present
    rw [fileLen, files]
    exact mounted.identified node inner present
  · rw [fileByte, left.content]
    rfl

theorem ends_preparePageWrite (mounted : branch.Mounted) (node offset : Nat)
    (room : world.nextPageVersion + 1 < Word64.bound) :
    Ends (preparePageWrite node offset) (world, branch) fun result after =>
      after.2.Mounted ∧ after.2.fileLen = branch.fileLen ∧ after.2.fileByte = branch.fileByte ∧
      result = after.2.identities.pageIdentity node offset ∧
      IdentityBranch.Stamped (· = (node, offset / pageSize)) (world, branch.identities)
        (after.1, after.2.identities) := by
  simp only [preparePageWrite, onIdentities, ends_within]
  refine (IdentityBranch.ends_preparePageWrite node offset room).mono ?_
  intro result after ended
  obtain ⟨rfl, stamped⟩ := ended
  refine ⟨⟨mounted.saved, fun other inner known => ?_⟩, rfl, rfl, ?_, stamped⟩
  · rw [stamped.files] at known
    exact mounted.identified other inner known
  · cases after.2.pageIdentity node offset <;> rfl

section Lawful

variable [RedoxFs Mount] [LawfulRedoxFs Mount]

section Quiet

variable (quiet : world.faults = []) (mounted : branch.Mounted)

include quiet mounted

theorem ends_writeNode {node length : Nat} (file : branch.fileLen node = some length) (offset : Nat)
    (data : List UInt8) :
    Ends (writeNode node offset data) (world, branch) fun result after =>
      Stays world branch after ∧ (offset + data.length ≤ length →
        branch.Overwrites node offset data result after.2) := by
  refine ends_tx quiet ?_ ?_ ?_
  · intro writes next value computed
    exact (LawfulRedoxFs.writeNode_commits mounted.saved file computed).1.inside
  · intro errno _
    exact ⟨(Unchanged.refl mounted).toStays, fun _ => ⟨rfl, fun _ _ _ => rfl, not_ok⟩⟩
  · intro writes next value after computed committed
    obtain ⟨commits, effect⟩ := LawfulRedoxFs.writeNode_commits mounted.saved file computed
    refine ⟨committed.stays mounted commits, fun inside => ?_⟩
    obtain ⟨lengths, outside, short, stored⟩ := effect inside
    rw [Overwrites, committed.fileLen, committed.fileByte]
    refine ⟨lengths, outside, fun written same => ?_⟩
    cases same
    exact ⟨short, stored⟩

omit [RedoxFs Mount] [LawfulRedoxFs Mount] in
theorem ends_notice {transaction : Transaction Mount Unit} (nothing : ∀ {writes next value},
      transaction branch.mount branch.disk.content = .ok (writes, next, value) →
      CommitsNothing branch.disk.size branch.mount branch.disk.content writes next) :
    Ends (tx transaction) (world, branch) fun _ after => Unchanged world branch after := by
  refine ends_tx quiet ?_ ?_ ?_
  · intro writes next value computed
    exact (nothing computed).inside
  · intro errno _
    exact .refl mounted
  · intro writes next value after computed committed
    refine ⟨committed.stays mounted (nothing computed).toCommits, ?_, ?_⟩
    · rw [committed.fileLen, (nothing computed).fileLen]
      rfl
    · rw [committed.fileByte, (nothing computed).fileByte]
      rfl

structure FileAdded (world : RedoxWorld) (branch : RedoxBranch Mount) (length : Nat) (node : NodeId)
    (after : RedoxWorld × RedoxBranch Mount) : Prop where
  inner : node ≠ rootNode
  absent : branch.fileLen node = none
  fileLen : after.2.fileLen node = some length
  fileByte : after.2.fileByte node = ByteMap.zero
  others : ∀ other, other ≠ node → after.2.fileLen other = branch.fileLen other ∧
    after.2.fileByte other = branch.fileByte other
  objects : ∀ other, after.2.identities.object other =
    if other = node then some world.nextFileObjectId else branch.identities.object other
  versions : after.2.identities.pageVersion = branch.identities.pageVersion
  objectIds : after.1.nextFileObjectId = world.nextFileObjectId + 1
  pageVersions : after.1.nextPageVersion = world.nextPageVersion

theorem ends_createFile (name : String) (length : Nat)
    (room : world.nextFileObjectId + 1 < Word64.bound) :
    Ends (createFile name length) (world, branch) fun result after =>
      after.2.Mounted ∧
      (∀ error, result = .error error → Unchanged world branch after) ∧
      ∀ node, result = .ok node → FileAdded world branch length node after := by
  simp only [createFile, ends_bind]
  refine ends_tx quiet ?_ ?_ ?_
  · intro writes next value computed
    exact (LawfulRedoxFs.createNode_commits mounted.saved computed).1.inside
  · intro errno _
    exact ⟨mounted, fun _ _ => .refl mounted, not_ok⟩
  · intro writes next node middle computed committed
    obtain ⟨commits, inner, absent, present, zero, others⟩ :=
      LawfulRedoxFs.createNode_commits mounted.saved computed
    have stays := committed.stays mounted commits
    have objects : ∀ other, IdentityBranch.object { middle.2.identities with
        files := middle.2.identities.files.insert node middle.1.nextFileObjectId } other =
        if other = node then some world.nextFileObjectId else branch.identities.object other := by
      intro other
      rw [IdentityBranch.object_insert, stays.counters.1, stays.objects]
    simp only [onIdentities, ends_within, IdentityBranch.createFile, ends_modify, Except.mapError]
    refine ⟨⟨stays.mounted.saved, fun other otherInner known => ?_⟩, not_error,
      fun added same => ?_⟩
    · replace known := (objects other).symm.trans_ne known
      change middle.2.fileLen other ≠ none
      by_cases new : other = node
      · rw [committed.fileLen, new, present]
        exact Option.some_ne_none length
      · rw [if_neg new, ← stays.objects] at known
        exact stays.mounted.identified other otherInner known
    · cases same
      refine ⟨inner, absent, ?_, ?_, fun other different => ?_, objects, stays.versions, ?_, ?_⟩
      · exact (congrFun committed.fileLen node).trans present
      · exact (congrFun committed.fileByte node).trans zero
      · exact ⟨(congrFun committed.fileLen other).trans (others other different).1,
          (congrFun committed.fileByte other).trans (others other different).2⟩
      · exact (congrArg (Word64.wrappingAdd · 1) stays.counters.1).trans
          (Word64.wrappingAdd_of_lt room)
      · exact stays.counters.2

end Quiet

section Mounted

variable (mounted : branch.Mounted)

include mounted

/-- A fork changes nothing that is seen, at whichever step it fails. -/
theorem ends_fork :
    Ends fork (world, branch) fun result after => Unchanged world branch after ∧
      ∀ child, result = .ok child → child.Mounted ∧ child.fileLen = branch.fileLen ∧
        child.fileByte = branch.fileByte ∧
        child.identities.object = branch.identities.object ∧
        child.identities.pageVersion = branch.identities.pageVersion := by
  have counters : Moves (Behind SameIdentityCounters) CowDisk.fork := CowDisk.frame_fork
  obtain ⟨⟨parentObject, parentVersion⟩, childObject, childVersion⟩ :=
    branch.identities.lookup_fork
  simp only [fork, ends_bind, onDisk, ends_within]
  refine ((CowDisk.ends_fork_content world branch.disk).and (counters (world, branch.disk))).mono ?_
  intro result after ended
  obtain ⟨⟨left, forked, -⟩, same⟩ := ended
  cases result with
  | error error => exact ⟨unchanged_onDisk mounted left same rfl rfl, not_ok⟩
  | ok childDisk =>
    obtain ⟨content, size, -⟩ := forked childDisk rfl
    have unchanged := unchanged_onDisk mounted left same parentObject parentVersion
    simp only [Except.mapError, ends_get, ends_modify, content]
    -- A refused reopening comes after the disk and the identities were sealed.
    cases opened : (RedoxFs.mount branch.disk.content (RedoxFs.block branch.mount) :
        Except Nat Mount) with
    | error errno => exact ⟨unchanged, not_ok⟩
    | ok next =>
      obtain ⟨nextSaved, nextFiles, nextBytes⟩ := LawfulRedoxFs.mount_saved mounted.saved opened
      refine ⟨unchanged, fun child returned => ?_⟩
      cases returned
      have childFiles : RedoxFiles.fileLen next childDisk.content = branch.fileLen := by
        rw [content, nextFiles]
        rfl
      refine ⟨⟨?_, fun node inner present => ?_⟩, childFiles, ?_, childObject, childVersion⟩
      · rw [size, content]
        exact nextSaved
      · rw [childObject] at present
        rw [fileLen, childFiles]
        exact mounted.identified node inner present
      · rw [fileByte, content, nextBytes]
        rfl

omit [LawfulRedoxFs Mount] in
theorem ends_durableState :
    Ends durableState (world, branch) fun _ after => Unchanged world branch after := by
  have counters : Moves (Behind SameIdentityCounters) CowDisk.durableState :=
    CowDisk.frame_durableState
  simp only [durableState, ends_bind, onDisk, ends_within]
  refine ((CowDisk.ends_durableState_content world branch.disk).and
    (counters (world, branch.disk))).mono ?_
  intro result after ended
  have unchanged := unchanged_onDisk mounted ended.1 ended.2 rfl rfl
  cases result with
  | error error => exact unchanged
  | ok state => exact unchanged

end Mounted

end Lawful

end RedoxBranch

/-!
## The stores of a cache

The calls as a cache makes them while the host serves the block writes of transactions, the
identity counters do not come around, and no directory is used as a file.
-/

namespace RedoxBranch

variable {Mount α : Type}

/-- The host serves the call. -/
def served (operation : BranchM Mount α) : BranchM Mount α :=
  within (fun pair => ({ pair.1 with faults := [] }, pair.2))
    (fun inner pair => ({ inner.1 with faults := pair.1.faults }, inner.2)) id operation

variable {world : RedoxWorld} {branch : RedoxBranch Mount} {after : RedoxWorld × RedoxBranch Mount}

theorem ends_served {operation : BranchM Mount α}
    {post : Except IoError α → RedoxWorld × RedoxBranch Mount → Prop}
    (ends : Ends operation ({ world with faults := [] }, branch) fun result after =>
      post result ({ after.1 with faults := world.faults }, after.2)) :
    Ends (served operation) (world, branch) post := by
  rw [served, ends_within]
  refine ends.mono fun result after held => ?_
  cases result with
  | ok value => exact held
  | error error => exact held

variable [RedoxFiles Mount]

theorem Stays.served {faults : Faults} (stays : Stays { world with faults := [] } branch after) :
    Stays world branch ({ after.1 with faults }, after.2) :=
  ⟨stays.mounted, stays.objects, stays.versions, stays.counters⟩

theorem Unchanged.served {faults : Faults}
    (unchanged : Unchanged { world with faults := [] } branch after) :
    Unchanged world branch ({ after.1 with faults }, after.2) :=
  ⟨unchanged.toStays.served, unchanged.fileLen, unchanged.fileByte⟩

variable [RedoxFs Mount]

/-- `EISDIR` for what is not a file. -/
def notFile : IoError := .os 21

def fileLength (branch : RedoxBranch Mount) (node : NodeId) : Except IoError Nat :=
  if (branch.fileLen node).isSome then branch.len node else .error notFile

def readFile (branch : RedoxBranch Mount) (node offset len : Nat) : Except IoError (List UInt8) :=
  if (branch.fileLen node).isSome then branch.read node offset len else .error notFile

def writeFile (node offset : Nat) (bytes : List UInt8) : BranchM Mount Nat := do
  let (_, branch) ← get
  require (branch.fileLen node).isSome notFile
  served (writeNode node offset bytes)

def makeFile (name : String) (size : Nat) : BranchM Mount NodeId := do
  let (world, _) ← get
  require (world.Roomy 1 0) (.os Host.eio)
  served (createFile name size)

def preparePage (node offset : Nat) : BranchM Mount RedoxPageIdentity := do
  let (world, _) ← get
  require (world.Roomy 0 1) (.os Host.eio)
  preparePageWrite node offset

section Served

variable [LawfulRedoxFs Mount] (mounted : branch.Mounted)

include mounted

theorem ends_writeFile (node offset : Nat) (data : List UInt8) :
    Ends (writeFile node offset data) (world, branch) fun result after =>
      Stays world branch after ∧
      ∀ length, branch.fileLen node = some length → offset + data.length ≤ length →
        branch.Overwrites node offset data result after.2 := by
  simp only [writeFile, ends_bind, ends_get, ends_require]
  refine ⟨fun file => ?_, fun _ =>
    ⟨(Unchanged.refl mounted).toStays, fun _ _ _ => ⟨rfl, fun _ _ _ => rfl, not_ok⟩⟩⟩
  obtain ⟨length, file⟩ := Option.isSome_iff_exists.mp file
  refine ends_served
    ((ends_writeNode rfl mounted file offset data).mono fun result after held => ?_)
  refine ⟨held.1.served, fun other known => ?_⟩
  cases file.symm.trans known
  exact held.2

theorem ends_openNode (node : NodeId) :
    Ends (served (onOpenNode node)) (world, branch) fun _ after => Unchanged world branch after :=
  ends_served ((ends_notice rfl mounted (LawfulRedoxFs.onOpenNode_commits mounted.saved)).mono
    fun _ _ unchanged => unchanged.served)

theorem ends_closeNode (node : NodeId) :
    Ends (served (onCloseNode node)) (world, branch) fun _ after => Unchanged world branch after :=
  ends_served ((ends_notice rfl mounted (LawfulRedoxFs.onCloseNode_commits mounted.saved)).mono
    fun _ _ unchanged => unchanged.served)

theorem ends_makeFile (name : String) (length : Nat) :
    Ends (makeFile name length) (world, branch) fun result after =>
      after.2.Mounted ∧
      (∀ error, result = .error error → Unchanged world branch after) ∧
      ∀ node, result = .ok node → FileAdded world branch length node after := by
  simp only [makeFile, ends_bind, ends_get, ends_require]
  refine ⟨fun roomy => ends_served ?_,
    fun _ => ⟨mounted, fun _ _ => .refl mounted, not_ok⟩⟩
  have room : ({ world with faults := [] } : RedoxWorld).nextFileObjectId + 1 < Word64.bound :=
    roomy.1
  refine (ends_createFile rfl mounted name length room).mono fun result after held =>
    ⟨held.1, fun error failed => (held.2.1 error failed).served, fun node returned => ?_⟩
  · have added := held.2.2 node returned
    exact ⟨added.inner, added.absent, added.fileLen, added.fileByte, added.others, added.objects,
      added.versions, added.objectIds, added.pageVersions⟩

omit [RedoxFs Mount] [LawfulRedoxFs Mount] in
theorem ends_preparePage (node offset : Nat) :
    Ends (preparePage node offset) (world, branch) fun result after =>
      (∃ error, result = .error error ∧ after = (world, branch)) ∨
      (after.2.Mounted ∧ after.2.fileLen = branch.fileLen ∧ after.2.fileByte = branch.fileByte ∧
        result = after.2.identities.pageIdentity node offset ∧
        IdentityBranch.Stamped (· = (node, offset / pageSize)) (world, branch.identities)
          (after.1, after.2.identities)) := by
  simp only [preparePage, ends_bind, ends_get, ends_require]
  exact ⟨fun roomy => (ends_preparePageWrite mounted node offset roomy.2).mono fun _ _ => .inr,
    fun _ => .inl ⟨_, rfl, trivial⟩⟩

end Served

end RedoxBranch

/-- A branch whose disk has what its filesystem has in memory. -/
abbrev MountedBranch (Mount : Type) [RedoxFiles Mount] :=
  { branch : RedoxBranch Mount // branch.Mounted }

namespace MountedBranch

variable {Mount α : Type} [RedoxFiles Mount]

/-- The call leaves every branch mounted. -/
def Keeps (operation : BranchM Mount α) : Prop :=
  ∀ {world branch}, branch.Mounted →
    Ends operation (world, branch) fun _ after => after.2.Mounted

def call (operation : BranchM Mount α) (kept : Keeps operation) :
    Attempt (RedoxWorld × MountedBranch Mount) IoError α :=
  ExceptT.mk fun state =>
    let ended := operation.exec (state.1, state.2.1)
    (ended.1, ended.2.1, ⟨ended.2.2, kept state.2.2⟩)

theorem ends_call {operation : BranchM Mount α} (kept : Keeps operation) {world : RedoxWorld}
    {branch : MountedBranch Mount}
    {post : Except IoError α → RedoxWorld × MountedBranch Mount → Prop}
    (ends : Ends operation (world, branch.1) fun result after =>
      ∀ mounted, post result (after.1, ⟨after.2, mounted⟩)) :
    Ends (call operation kept) (world, branch) post :=
  ends (kept branch.2)

instance : FileView (MountedBranch Mount) where
  fileLen branch := branch.1.fileLen
  fileByte branch := branch.1.fileByte

instance : IdentityLedger RedoxWorld RedoxPageIdentity where
  Issued world identity := identity.object < world.nextFileObjectId ∧
    identity.version < world.nextPageVersion

instance : StoreLedger RedoxWorld (MountedBranch Mount) where
  Registered world branch := 0 < world.nextPageVersion ∧
    (∀ node object, branch.1.identities.object node = some object →
      object < world.nextFileObjectId) ∧
    ∀ key version, branch.1.identities.pageVersion key = some version →
      version < world.nextPageVersion

theorem advanced {before after : RedoxWorld}
    (objects : before.nextFileObjectId ≤ after.nextFileObjectId)
    (versions : before.nextPageVersion ≤ after.nextPageVersion) :
    Advanced (MountedBranch Mount) RedoxPageIdentity before after where
  issued _ issued := ⟨Nat.lt_of_lt_of_le issued.1 objects, Nat.lt_of_lt_of_le issued.2 versions⟩
  registered _ registered := ⟨Nat.lt_of_lt_of_le registered.1 versions,
    fun node object found => Nat.lt_of_lt_of_le (registered.2.1 node object found) objects,
    fun key version found => Nat.lt_of_lt_of_le (registered.2.2 key version found) versions⟩

variable [RedoxFs Mount] [LawfulRedoxFs Mount]

theorem keeps_writeFile (node offset : Nat) (data : List UInt8) :
    Keeps (RedoxBranch.writeFile node offset data : BranchM Mount Nat) :=
  fun mounted => (RedoxBranch.ends_writeFile mounted node offset data).mono
    fun _ _ held => held.1.mounted

theorem keeps_openNode (node : NodeId) :
    Keeps (RedoxBranch.served (RedoxBranch.onOpenNode node) : BranchM Mount Unit) :=
  fun mounted => (RedoxBranch.ends_openNode mounted node).mono fun _ _ unchanged =>
    unchanged.mounted

theorem keeps_closeNode (node : NodeId) :
    Keeps (RedoxBranch.served (RedoxBranch.onCloseNode node) : BranchM Mount Unit) :=
  fun mounted => (RedoxBranch.ends_closeNode mounted node).mono fun _ _ unchanged =>
    unchanged.mounted

omit [RedoxFs Mount] [LawfulRedoxFs Mount] in
theorem keeps_preparePage (node offset : Nat) :
    Keeps (RedoxBranch.preparePage node offset : BranchM Mount RedoxPageIdentity) := by
  intro world branch mounted
  refine (RedoxBranch.ends_preparePage mounted node offset).mono fun result after held => ?_
  obtain ⟨error, -, rfl⟩ | ⟨sound, -⟩ := held
  · exact mounted
  · exact sound

theorem keeps_makeFile (name : String) (size : Nat) :
    Keeps (RedoxBranch.makeFile name size : BranchM Mount NodeId) :=
  fun mounted => (RedoxBranch.ends_makeFile mounted name size).mono fun _ _ held => held.1

omit [LawfulRedoxFs Mount] in
theorem keeps_durableState :
    Keeps (RedoxBranch.durableState : BranchM Mount RedoxBranchState) :=
  fun mounted => (RedoxBranch.ends_durableState mounted).mono fun _ _ unchanged => unchanged.mounted

def fork : Attempt (RedoxWorld × MountedBranch Mount) IoError (MountedBranch Mount) :=
  ExceptT.mk fun state =>
    let ended := (RedoxBranch.fork : BranchM Mount (RedoxBranch Mount)).exec (state.1, state.2.1)
    have held := RedoxBranch.ends_fork state.2.2
    (match found : ended.1 with
      | .ok child => .ok ⟨child, (held.2 child found).1⟩
      | .error error => .error error,
      ended.2.1, ⟨ended.2.2, held.1.mounted⟩)

theorem ends_fork {world : RedoxWorld} {branch : MountedBranch Mount}
    {post : Except IoError (MountedBranch Mount) → RedoxWorld × MountedBranch Mount → Prop}
    (ends : Ends RedoxBranch.fork (world, branch.1) fun result after =>
      ∀ mounted, (∀ child sound, result = .ok child →
          post (.ok ⟨child, sound⟩) (after.1, ⟨after.2, mounted⟩)) ∧
        ∀ error, result = .error error → post (.error error) (after.1, ⟨after.2, mounted⟩)) :
    Ends fork (world, branch) post := by
  have held : Ends RedoxBranch.fork (world, branch.1) _ := RedoxBranch.ends_fork branch.2
  obtain ⟨returned, failed⟩ := ends held.1.mounted
  change post (match found : (exec RedoxBranch.fork (world, branch.1)).1 with
      | .ok child => .ok ⟨child, (held.2 child found).1⟩
      | .error error => .error error) _
  split
  next child found => exact returned child _ found
  next error found => exact failed error found

instance : NodeStore RedoxWorld (MountedBranch Mount) where
  len branch node := branch.1.fileLength node
  readNode branch node offset count := branch.1.readFile node offset count
  writeNode node offset data :=
    call (RedoxBranch.writeFile node offset data) (keeps_writeFile node offset data)
  onOpenNode node := call (RedoxBranch.served (RedoxBranch.onOpenNode node)) (keeps_openNode node)
  onCloseNode node :=
    call (RedoxBranch.served (RedoxBranch.onCloseNode node)) (keeps_closeNode node)

instance : ForkableNodeStore RedoxWorld (MountedBranch Mount) RedoxPageIdentity where
  pageIdentity branch node offset := branch.1.identities.pageIdentity node offset
  preparePageWrite node offset :=
    call (RedoxBranch.preparePage node offset) (keeps_preparePage node offset)
  forkStore := fork

instance : FileMaker RedoxWorld (MountedBranch Mount) where
  createFile name size := call (RedoxBranch.makeFile name size) (keeps_makeFile name size)

theorem identityOf_eq (branch : MountedBranch Mount) (key : PageKey) :
    identityOf RedoxWorld branch key = (branch.1.identities.object key.1).map fun object =>
      { object, page := key.2 / pageSize,
        version := (branch.1.identities.pageVersion (key.1, key.2 / pageSize)).getD 0 } := by
  change (branch.1.identities.pageIdentity key.1 key.2).toOption = _
  unfold IdentityBranch.pageIdentity
  cases branch.1.identities.object key.1 with
  | none => rfl
  | some object => rfl

section Stays

variable {world : RedoxWorld} {branch : MountedBranch Mount}
  {after : RedoxWorld × RedoxBranch Mount} {mounted : after.2.Mounted}

theorem stays_identities (stays : RedoxBranch.Stays world branch.1 after) (key : PageKey) :
    identityOf RedoxWorld (⟨after.2, mounted⟩ : MountedBranch Mount) key =
      identityOf RedoxWorld branch key := by
  rw [identityOf_eq, identityOf_eq, stays.objects, stays.versions]

omit [RedoxFs Mount] [LawfulRedoxFs Mount] in
theorem stays_advanced (stays : RedoxBranch.Stays world branch.1 after) :
    Advanced (MountedBranch Mount) RedoxPageIdentity world after.1 :=
  advanced (Nat.le_of_eq stays.counters.1.symm) (Nat.le_of_eq stays.counters.2.symm)

omit [RedoxFs Mount] [LawfulRedoxFs Mount] in
theorem stays_registered (stays : RedoxBranch.Stays world branch.1 after)
    (registered : StoreLedger.Registered world branch) :
    StoreLedger.Registered after.1 (⟨after.2, mounted⟩ : MountedBranch Mount) := by
  have forward : Advanced (MountedBranch Mount) RedoxPageIdentity world after.1 :=
    stays_advanced stays
  have later := forward.registered branch registered
  refine ⟨later.1, ?_, ?_⟩
  · intro node object found
    exact later.2.1 node object (stays.objects ▸ found)
  · intro key version found
    exact later.2.2 key version (stays.versions ▸ found)

theorem untouched (unchanged : RedoxBranch.Unchanged world branch.1 after) :
    Untouched (world, branch) ((after.1, ⟨after.2, mounted⟩) :
      RedoxWorld × MountedBranch Mount) where
  files := ⟨unchanged.fileLen, unchanged.fileByte⟩
  identities := stays_identities unchanged.toStays
  ledger := stays_advanced unchanged.toStays
  registered := stays_registered unchanged.toStays

end Stays

theorem mapError_eq_ok {result : Except Nat α} {value : α} :
    result.mapError IoError.os = .ok value ↔ result = .ok value := by
  cases result with
  | ok found => simp [Except.mapError]
  | error errno => simp [Except.mapError]

theorem of_ite_ok {length : Option Nat} {answer : Except IoError α} {value : α}
    (found : (if length.isSome then answer else .error RedoxBranch.notFile) = .ok value) :
    (∃ known, length = some known) ∧ answer = .ok value := by
  cases length with
  | none => cases found
  | some known => exact ⟨⟨known, rfl⟩, found⟩

instance : LawfulNodeStore RedoxWorld (MountedBranch Mount) where
  len_ok {branch node answer} found := by
    change branch.1.fileLength node = .ok answer at found
    obtain ⟨⟨length, file⟩, answered⟩ := of_ite_ok found
    rw [LawfulRedoxFs.len_file branch.2.saved file (mapError_eq_ok.mp answered)]
    exact file
  readNode_ok {branch node offset count data} found := by
    change branch.1.readFile node offset count = .ok data at found
    obtain ⟨⟨length, file⟩, answered⟩ := of_ite_ok found
    exact ⟨length, file,
      LawfulRedoxFs.readNode_file branch.2.saved file (mapError_eq_ok.mp answered)⟩
  writeNode_frame node offset data _ branch length known inside :=
    ends_call (keeps_writeFile node offset data)
      ((RedoxBranch.ends_writeFile branch.2 node offset data).mono
        fun _ _ held _ => held.2 length known inside)
  onOpenNode_frame node _ branch :=
    ends_call (keeps_openNode node) ((RedoxBranch.ends_openNode branch.2 node).mono
      fun _ _ unchanged _ => ⟨unchanged.fileLen, unchanged.fileByte⟩)
  onCloseNode_frame node _ branch :=
    ends_call (keeps_closeNode node) ((RedoxBranch.ends_closeNode branch.2 node).mono
      fun _ _ unchanged _ => ⟨unchanged.fileLen, unchanged.fileByte⟩)

theorem aligned_eq {key other : PageKey} (aligned : Aligned key) (otherAligned : Aligned other)
    (node : key.1 = other.1) (page : key.2 / pageSize = other.2 / pageSize) : key = other := by
  refine Prod.ext node ?_
  unfold Aligned at aligned otherAligned
  rw [← Nat.div_add_mod key.2 pageSize, ← Nat.div_add_mod other.2 pageSize, aligned, otherAligned,
    page]

theorem preparePageWrite_fresh (key : PageKey) (world : RedoxWorld) (branch : MountedBranch Mount)
    (aligned : Aligned key) (registered : StoreLedger.Registered world branch) :
    (ForkableNodeStore.preparePageWrite key.1 key.2).Ends (world, branch) fun result after =>
      SameFiles after.2 branch ∧
      Advanced (MountedBranch Mount) RedoxPageIdentity world after.1 ∧
      StoreLedger.Registered after.1 after.2 ∧
      (∀ other, Aligned other → other ≠ key →
        identityOf RedoxWorld after.2 other = identityOf RedoxWorld branch other) ∧
      (∀ error, result = .error error →
        identityOf RedoxWorld after.2 key = identityOf RedoxWorld branch key) ∧
      ∀ identity, result = .ok identity → identityOf RedoxWorld after.2 key = some identity ∧
        ¬ IdentityLedger.Issued world identity ∧ IdentityLedger.Issued after.1 identity := by
  refine ends_call (keeps_preparePage key.1 key.2)
    ((RedoxBranch.ends_preparePage branch.2 key.1 key.2).mono ?_)
  intro result after held mounted
  obtain ⟨error, rfl, rfl⟩ | ⟨-, files, bytes, rfl, stamped⟩ := held
  · exact ⟨⟨rfl, rfl⟩, advanced le_rfl le_rfl, registered, fun _ _ _ => rfl, fun _ _ => rfl, not_ok⟩
  have objects : after.2.identities.object = branch.1.identities.object := stamped.files
  have forward : Advanced (MountedBranch Mount) RedoxPageIdentity world after.1 :=
    advanced (Nat.le_of_eq stamped.objectIds.symm) stamped.versions
  have later := forward.registered branch registered
  refine ⟨⟨files, bytes⟩, forward, ⟨later.1, ?_, ?_⟩, ?_, ?_, ?_⟩
  · intro node object found
    exact later.2.1 node object (objects ▸ found)
  · intro page version found
    by_cases here : page = (key.1, key.2 / pageSize)
    · obtain ⟨given, present, -, below⟩ := stamped.written page here
      rw [present] at found
      exact Option.some.inj found ▸ below
    · rw [stamped.unwritten page here] at found
      exact later.2.2 page version found
  · intro other otherAligned different
    rw [identityOf_eq, identityOf_eq, objects, stamped.unwritten _ fun same => different
      (aligned_eq otherAligned aligned (Prod.mk.inj same).1 (Prod.mk.inj same).2)]
  · intro error failed
    rw [identityOf_eq, identityOf_eq, objects]
    cases known : branch.1.identities.object key.1 with
    | none => rfl
    | some object =>
      rw [IdentityBranch.pageIdentity, objects, known] at failed
      cases failed
  · intro identity returned
    obtain ⟨version, present, low, high⟩ := stamped.written _ rfl
    refine ⟨congrArg Except.toOption returned, ?_⟩
    cases known : branch.1.identities.object key.1 with
    | none =>
      rw [IdentityBranch.pageIdentity, objects, known] at returned
      cases returned
    | some object =>
      rw [IdentityBranch.pageIdentity, objects, known] at returned
      cases returned
      rw [present]
      exact ⟨fun issued => absurd issued.2 (Nat.not_lt_of_le low), later.2.1 _ _ known, high⟩

theorem forkStore_copy (world : RedoxWorld) (branch : MountedBranch Mount) :
    (ForkableNodeStore.forkStore : Attempt (RedoxWorld × MountedBranch Mount) IoError _).Ends
      (world, branch) fun result after =>
      Untouched (world, branch) after ∧
      ∀ child, result = .ok child → SameFiles child branch ∧
        (∀ key, identityOf RedoxWorld child key = identityOf RedoxWorld branch key) ∧
        (StoreLedger.Registered world branch → StoreLedger.Registered after.1 child) := by
  refine ends_fork ((RedoxBranch.ends_fork branch.2).mono ?_)
  intro result after held mounted
  obtain ⟨unchanged, forked⟩ := held
  refine ⟨?_, fun error _ => ⟨untouched unchanged, not_ok⟩⟩
  intro child sound returned
  obtain ⟨-, childFiles, childBytes, childObjects, childVersions⟩ := forked child returned
  have same : RedoxBranch.Stays world branch.1 (after.1, child) :=
    ⟨sound, childObjects, childVersions, unchanged.counters⟩
  refine ⟨untouched unchanged, fun other equal => ?_⟩
  cases equal
  exact ⟨⟨childFiles, childBytes⟩, stays_identities same, stays_registered same⟩

instance : LawfulForkableStore RedoxWorld (MountedBranch Mount) RedoxPageIdentity where
  writeNode_identities node offset data _ branch :=
    ends_call (keeps_writeFile node offset data)
      ((RedoxBranch.ends_writeFile branch.2 node offset data).mono
        fun _ _ held _ =>
          ⟨stays_identities held.1, stays_advanced held.1, stays_registered held.1⟩)
  onOpenNode_untouched node _ branch :=
    ends_call (keeps_openNode node) ((RedoxBranch.ends_openNode branch.2 node).mono
      fun _ _ unchanged _ => untouched unchanged)
  onCloseNode_untouched node _ branch :=
    ends_call (keeps_closeNode node) ((RedoxBranch.ends_closeNode branch.2 node).mono
      fun _ _ unchanged _ => untouched unchanged)
  preparePageWrite_fresh := preparePageWrite_fresh
  forkStore_copy := forkStore_copy

instance : PageGranular RedoxWorld (MountedBranch Mount) where
  pageIdentity_pageOf branch node offset := by
    change branch.1.identities.pageIdentity node (pageOf offset) =
      branch.1.identities.pageIdentity node offset
    have page : pageOf offset / pageSize = offset / pageSize :=
      Nat.mul_div_cancel _ (by decide)
    unfold IdentityBranch.pageIdentity
    rw [page]

instance : LawfulFileMaker RedoxWorld (MountedBranch Mount) RedoxPageIdentity where
  createFile_fresh name size world branch registered := by
    refine ends_call (keeps_makeFile name size)
      ((RedoxBranch.ends_makeFile branch.2 name size).mono ?_)
    intro result after held mounted
    obtain ⟨-, failed, returned⟩ := held
    refine ⟨?_, ?_⟩
    · exact fun error same => untouched (failed error same)
    · intro node same
      have added := returned node same
      have forward : Advanced (MountedBranch Mount) RedoxPageIdentity world after.1 :=
        advanced (by rw [added.objectIds]; exact Nat.le_succ _)
          (Nat.le_of_eq added.pageVersions.symm)
      have later := forward.registered branch registered
      have unknown : branch.1.identities.object node = none := by
        by_contra known
        exact branch.2.identified node added.inner known added.absent
      have fresh : ∀ key : PageKey, key.1 = node →
          identityOf RedoxWorld (⟨after.2, mounted⟩ : MountedBranch Mount) key = some
            { object := world.nextFileObjectId, page := key.2 / pageSize,
              version := (branch.1.identities.pageVersion (key.1, key.2 / pageSize)).getD 0 } := by
        intro key here
        rw [identityOf_eq, added.objects, if_pos here, added.versions, Option.map_some]
      refine ⟨added.absent, added.fileLen, added.fileByte, added.others, ?_, ?_, forward,
        ⟨later.1, ?_, ?_⟩, ?_, ?_⟩
      · intro key here
        rw [identityOf_eq, here, unknown, Option.map_none]
      · intro key elsewhere
        rw [identityOf_eq, identityOf_eq, added.objects, if_neg elsewhere, added.versions]
      · intro other object found
        rw [added.objects] at found
        split at found
        next =>
          rw [← Option.some.inj found, added.objectIds]
          exact Nat.lt_succ_self _
        next => exact later.2.1 other object found
      · intro key version found
        exact later.2.2 key version (added.versions ▸ found)
      · intro key identity _ here resolved
        rw [fresh key here] at resolved
        cases resolved
        refine ⟨fun issued => Nat.lt_irrefl _ issued.1, ?_, ?_⟩
        · rw [added.objectIds]
          exact Nat.lt_succ_self _
        · rw [added.pageVersions]
          cases known : branch.1.identities.pageVersion (key.1, key.2 / pageSize) with
          | none => exact registered.1
          | some version => exact registered.2.2 _ version known
      · intro key other identity aligned otherAligned here there resolved otherResolved
        rw [fresh key here] at resolved
        rw [fresh other there] at otherResolved
        have equal := Option.some.inj (resolved.trans otherResolved.symm)
        rw [RedoxPageIdentity.mk.injEq] at equal
        exact aligned_eq aligned otherAligned (here.trans there.symm) equal.2.1

end MountedBranch

/-!
## The calls as they are
-/

section Plain

variable {Mount : Type} [RedoxFs Mount]

instance : NodeStore RedoxWorld (RedoxBranch Mount) where
  len branch node := branch.len node
  readNode branch node offset count := branch.read node offset count
  writeNode := RedoxBranch.writeNode
  onOpenNode := RedoxBranch.onOpenNode
  onCloseNode := RedoxBranch.onCloseNode

instance : ForkableNodeStore RedoxWorld (RedoxBranch Mount) RedoxPageIdentity where
  pageIdentity branch node offset := branch.identities.pageIdentity node offset
  preparePageWrite := RedoxBranch.preparePageWrite
  forkStore := RedoxBranch.fork

instance : FileMaker RedoxWorld (RedoxBranch Mount) where
  createFile := RedoxBranch.createFile

instance [RedoxFiles Mount] : FileView (RedoxBranch Mount) where
  fileLen branch := branch.fileLen
  fileByte branch := branch.fileByte

end Plain

/-!
## New branches
-/

namespace RedoxBranch

variable {Mount : Type} [RedoxFs Mount] [RedoxFiles Mount] [LawfulRedoxFs Mount]

theorem ends_format {world : RedoxWorld} (quiet : world.faults = [])
    (room : world.nextFileObjectId + 1 < Word64.bound) {disk : CowDisk}
    (empty : disk.content = ByteMap.zero) :
    Ends (format disk : HostM (RedoxBranch Mount)) world fun result after =>
      ∀ branch, result = .ok branch → branch.Mounted ∧
        (∀ node, branch.identities.object node =
          if node = rootNode then some world.nextFileObjectId else none) ∧
        (∀ key, branch.identities.pageVersion key = none) ∧
        after.nextFileObjectId = world.nextFileObjectId + 1 ∧
        after.nextPageVersion = world.nextPageVersion := by
  simp only [format, ends_bind]
  cases created : (RedoxFs.create disk.size : Except Nat (BlockWrites × Mount)) with
  | error errno => exact not_ok
  | ok outcome =>
    obtain ⟨writes, mount⟩ := outcome
    obtain ⟨inside, saved⟩ := LawfulRedoxFs.create_saved created
    simp only [orErrno, ends_pure, ends_withLocal]
    refine (ends_writeBlocks quiet inside).mono ?_
    intro result middle ended
    obtain ⟨rfl, left, counters⟩ := ended
    rw [empty] at left
    simp only [Except.map, IdentityBranch.createFile, ends_modify]
    intro branch same
    cases same
    have objects : ∀ node, IdentityBranch.object { IdentityBranch.new with
        files := IdentityBranch.new.files.insert rootNode middle.1.nextFileObjectId } node =
        if node = rootNode then some world.nextFileObjectId else none := by
      intro node
      rw [IdentityBranch.object_insert, counters.1]
      exact if_congr Iff.rfl rfl (by simp [IdentityBranch.new, IdentityBranch.object,
        Overlay.lookup])
    refine ⟨⟨?_, ?_⟩, objects, fun key => ?_, ?_, counters.2⟩
    · rw [left.size, left.content]
      exact saved
    · intro node inner known
      replace known := (objects node).symm.trans_ne known
      rw [if_neg inner] at known
      exact absurd rfl known
    · simp [IdentityBranch.new, IdentityBranch.pageVersion, Overlay.lookup]
    · exact (congrArg (Word64.wrappingAdd · 1) counters.1).trans (Word64.wrappingAdd_of_lt room)

theorem coherent_format {world after : RedoxWorld} (quiet : world.faults = [])
    (room : world.nextFileObjectId + 1 < Word64.bound) (counted : 0 < world.nextPageVersion)
    {disk : CowDisk} (empty : disk.content = ByteMap.zero)
    {branch : RedoxBranch Mount} (created : (format disk).exec world = (.ok branch, after)) :
    ∃ mounted : branch.Mounted, Coherent after [(⟨branch, mounted⟩ : MountedBranch Mount)] := by
  obtain ⟨mounted, objects, versions, objectIds, pageVersions⟩ :=
    (ends_format quiet room empty).of_exec created branch rfl
  have identities : ∀ (key : PageKey) (identity : RedoxPageIdentity),
      identityOf RedoxWorld (⟨branch, mounted⟩ : MountedBranch Mount) key = some identity →
      key.1 = rootNode ∧ identity = ⟨world.nextFileObjectId, key.2 / pageSize, 0⟩ := by
    intro key identity resolved
    rw [MountedBranch.identityOf_eq, objects, versions] at resolved
    split at resolved
    next root => exact ⟨root, (Option.some.inj resolved).symm⟩
    next => cases resolved
  refine ⟨mounted, ?_, ?_, ?_⟩
  · intro store member
    rw [List.mem_singleton] at member
    subst member
    refine ⟨pageVersions ▸ counted, ?_, ?_⟩
    · intro node object found
      rw [objects] at found
      split at found
      next =>
        rw [← Option.some.inj found, objectIds]
        exact Nat.lt_succ_self _
      next => cases found
    · intro key version found
      rw [versions] at found
      cases found
  · intro store member key identity _ resolved
    rw [List.mem_singleton] at member
    subst member
    obtain ⟨-, rfl⟩ := identities key identity resolved
    exact ⟨objectIds ▸ Nat.lt_succ_self _, pageVersions ▸ counted⟩
  · intro left leftMember right rightMember key other identity aligned otherAligned resolved
      otherResolved
    rw [List.mem_singleton] at leftMember rightMember
    subst leftMember rightMember
    obtain ⟨here, rfl⟩ := identities key identity resolved
    obtain ⟨there, same⟩ := identities other _ otherResolved
    rw [RedoxPageIdentity.mk.injEq] at same
    obtain rfl := MountedBranch.aligned_eq aligned otherAligned (here.trans there.symm) same.2.1
    exact ⟨rfl, rfl, fun _ _ _ _ _ => rfl⟩

end RedoxBranch

end Minidox.Redox
