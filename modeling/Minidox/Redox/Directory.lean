import Minidox.Cache.Basic
import Minidox.Foundation.TreeMap

/-!
# Layer directories

The host side of a durable RedoxFS branch: the process-wide counters of
`minidox-redoxfs/src/branching.rs`, and the directories that hold the numbered
overlay and layer files. A layer is a hard link to a file that was an overlay, so
names and file contents are kept apart.
-/

set_option autoImplicit false

namespace Minidox.Redox

open Foundation Attempt
open Cache (IoError Fault Faults)
open Std (ExtTreeMap)

abbrev Inode := Nat

/-- A directory path, by number. -/
abbrev DirectoryPath := Nat

inductive FileKind where
  | overlay
  | layer
  deriving DecidableEq, Repr

def FileKind.name : FileKind → String
  | .overlay => "overlay"
  | .layer => "layer"

/-- The files `overlay-N` and `layer-N` of a directory. -/
structure Directory where
  entries : FileKind → ExtTreeMap Nat Inode
  contents : Inode → List UInt8
  nextInode : Inode

namespace Directory

def empty : Directory where
  entries _ := ∅
  contents _ := []
  nextInode := 0

def create (directory : Directory) (kind : FileKind) (id : Nat) : Directory where
  entries := Function.update directory.entries kind
    ((directory.entries kind).insert id directory.nextInode)
  contents := Function.update directory.contents directory.nextInode []
  nextInode := directory.nextInode + 1

def link (directory : Directory) (kind : FileKind) (id : Nat) (inode : Inode) : Directory :=
  { directory with
    entries := Function.update directory.entries kind
      ((directory.entries kind).insert id inode) }

def append (directory : Directory) (inode : Inode) (data : List UInt8) : Directory :=
  { directory with
    contents := Function.update directory.contents inode (directory.contents inode ++ data) }

/-- A number above all that names of this kind use. -/
def limit (directory : Directory) (kind : FileKind) : Nat :=
  (directory.entries kind).keys.foldr max 0 + 1

theorem lt_limit {directory : Directory} {kind : FileKind} {id : Nat}
    (used : (directory.entries kind)[id]? ≠ none) : id < directory.limit kind := by
  have member : id ∈ (directory.entries kind).keys := by
    rw [ExtTreeMap.mem_keys, ExtTreeMap.mem_iff_isSome_getElem?]
    exact Option.isSome_iff_ne_none.mpr used
  exact Nat.lt_succ_of_le (le_foldr_max member)

theorem entries_create (directory : Directory) (kind other : FileKind) (id number : Nat) :
    ((directory.create kind id).entries other)[number]? =
      if other = kind ∧ number = id then some directory.nextInode
      else (directory.entries other)[number]? := by
  simp only [create, Function.update_apply]
  by_cases same : other = kind
  · subst same
    simp [TreeMap.getElem?_insert_ite]
  · simp [same]

theorem entries_link (directory : Directory) (kind other : FileKind) (id number : Nat)
    (inode : Inode) :
    ((directory.link kind id inode).entries other)[number]? =
      if other = kind ∧ number = id then some inode else (directory.entries other)[number]? := by
  simp only [link, Function.update_apply]
  by_cases same : other = kind
  · subst same
    simp [TreeMap.getElem?_insert_ite]
  · simp [same]

end Directory

/-- What the process shares: the counters of the module and its directories. Only the
number of the next layer is not a 64-bit word: a name that is taken is skipped anyway. -/
structure RedoxWorld where
  nextBlockId : Nat
  nextFileObjectId : Nat
  nextPageVersion : Nat
  nextDurableLayerId : Nat
  directories : DirectoryPath → Directory
  faults : Faults

namespace RedoxWorld

def setDirectory (world : RedoxWorld) (path : DirectoryPath) (directory : Directory) :
    RedoxWorld :=
  { world with directories := Function.update world.directories path directory }

@[simp] theorem setDirectory_self (world : RedoxWorld) (path : DirectoryPath)
    (directory : Directory) : (world.setDirectory path directory).directories path = directory :=
  Function.update_self ..

structure Became (path : DirectoryPath) (directory : Directory) (before after : RedoxWorld) :
    Prop where
  directory : after.directories path = directory
  others : ∀ other, other ≠ path → after.directories other = before.directories other
  quiet : before.faults = [] → after.faults = []
  numbers : before.nextDurableLayerId ≤ after.nextDurableLayerId
  blockIds : after.nextBlockId = before.nextBlockId

theorem Became.refl {world : RedoxWorld} {path : DirectoryPath} {directory : Directory}
    (here : world.directories path = directory) : Became path directory world world :=
  ⟨here, fun _ _ => rfl, id, Nat.le_refl _, rfl⟩

theorem Became.trans {before middle after : RedoxWorld} {path : DirectoryPath}
    {first second : Directory} (start : Became path first before middle)
    (next : Became path second middle after) : Became path second before after where
  directory := next.directory
  others other apart := (next.others other apart).trans (start.others other apart)
  quiet still := next.quiet (start.quiet still)
  numbers := Nat.le_trans start.numbers next.numbers
  blockIds := next.blockIds.trans start.blockIds

theorem became_setDirectory (world : RedoxWorld) (path : DirectoryPath) (directory : Directory) :
    Became path directory world (world.setDirectory path directory) :=
  ⟨setDirectory_self .., fun _ apart => Function.update_of_ne apart _ _, id, Nat.le_refl _, rfl⟩

end RedoxWorld

open RedoxWorld (Became)

abbrev HostM := Attempt RedoxWorld IoError

namespace Host

variable {α : Type}
variable {post : Except IoError Unit → RedoxWorld → Prop}

def eio : Nat := 5

def enoent : Nat := 2

def eexist : Nat := 17

/-- `io::ErrorKind::AlreadyExists`. -/
def isAlreadyExists : IoError → Bool
  | .os errno => errno == eexist
  | .alreadyExists _ => true
  | _ => false

def nextFault : HostM (Option Fault) := do
  let world ← get
  set { world with faults := world.faults.tail }
  pure world.faults.head?.join

def probe : HostM Unit := do
  match ← nextFault with
  | none => pure ()
  | some fault => throw fault.error

def modifyDirectory (path : DirectoryPath) (change : Directory → Directory) : HostM Unit :=
  modify fun world => world.setDirectory path (change (world.directories path))

def lookup (path : DirectoryPath) (kind : FileKind) (id : Nat) : HostM Inode := do
  probe
  let world ← get
  match ((world.directories path).entries kind)[id]? with
  | some inode => pure inode
  | none => throw (.os enoent)

/-- `create_new`: the name must be free. -/
def createNew (path : DirectoryPath) (kind : FileKind) (id : Nat) : HostM Inode := do
  probe
  let world ← get
  require (((world.directories path).entries kind)[id]? = none) (.os eexist)
  modifyDirectory path fun directory => directory.create kind id
  pure (world.directories path).nextInode

/-- `hard_link` of the overlay `source`. -/
def hardLink (path : DirectoryPath) (source : Nat) (kind : FileKind) (id : Nat) : HostM Unit := do
  let inode ← lookup path .overlay source
  let world ← get
  require (((world.directories path).entries kind)[id]? = none) (.os eexist)
  modifyDirectory path fun directory => directory.link kind id inode

/-- `write_all` on a file opened for appending: a failing call leaves the bytes it
had already written. -/
def writeAll (path : DirectoryPath) (inode : Inode) (data : List UInt8) : HostM Unit := do
  match ← nextFault with
  | none => modifyDirectory path fun directory => directory.append inode data
  | some fault =>
    modifyDirectory path fun directory => directory.append inode (data.take fault.progress)
    throw fault.error

def readFile (path : DirectoryPath) (kind : FileKind) (id : Nat) : HostM (List UInt8) := do
  let inode ← lookup path kind id
  let world ← get
  pure ((world.directories path).contents inode)

/-- Open a file by name and sync its data. -/
def syncFile (path : DirectoryPath) (kind : FileKind) (id : Nat) : HostM Unit := do
  let _ ← lookup path kind id
  probe

/-- `sync_directory`: open the directory and sync it. -/
def syncDirectory : HostM Unit := do
  probe
  probe

def nextDurableId : HostM Nat := do
  let world ← get
  set { world with nextDurableLayerId := world.nextDurableLayerId + 1 }
  pure world.nextDurableLayerId

/-- The loop of `create_numbered_file` and `link_numbered_file`: take numbers until one
is free. -/
def numbered (make : Nat → HostM α) : Nat → HostM (Nat × α)
  | 0 => throw (.other "no free number")
  | fuel + 1 => do
    let id ← nextDurableId
    match ← settle (make id) with
    | .ok made => pure (id, made)
    | .error error => if isAlreadyExists error then numbered make fuel else throw error

/-- Rounds that are enough for the loop: each one takes a number that is in use, or a
fault, or is the last. -/
def rounds (path : DirectoryPath) (kind : FileKind) : HostM Nat := do
  let world ← get
  pure ((world.directories path).limit kind + world.faults.length + 1)

def createNumberedFile (path : DirectoryPath) (kind : FileKind) : HostM (Nat × Inode) := do
  numbered (createNew path kind) (← rounds path kind)

def linkNumberedFile (path : DirectoryPath) (kind : FileKind) (source : Nat) : HostM Nat := do
  let (id, ()) ← numbered (hardLink path source kind) (← rounds path kind)
  pure id

/-!
## Calls on a quiet host
-/

section Quiet

variable {world : RedoxWorld} {path : DirectoryPath} {kind : FileKind}

theorem ends_readFile (quiet : world.faults = []) {id : Nat} {inode : Inode}
    (named : ((world.directories path).entries kind)[id]? = some inode)
    {post : Except IoError (List UInt8) → RedoxWorld → Prop}
    (read : post (.ok ((world.directories path).contents inode)) world) :
    Ends (readFile path kind id) world post := by
  obtain ⟨blocks, objects, versions, layers, directories, faults⟩ := world
  subst quiet
  simp only [readFile, lookup, probe, nextFault, ends_bind, ends_get, ends_set, ends_pure,
    List.head?_nil, Option.join_none, named]
  exact read

end Quiet

/-!
## Calls that may fail
-/

section Calls

variable {world : RedoxWorld} {path : DirectoryPath} {directory : Directory} {kind : FileKind}

/-- A call that fails has changed nothing, and there was a fault. -/
def Fails (path : DirectoryPath) (directory : Directory) (world : RedoxWorld)
    (post : Except IoError α → RedoxWorld → Prop) : Prop :=
  ∀ error after, world.faults ≠ [] → Became path directory world after → post (.error error) after

theorem Fails.since {post : Except IoError α → RedoxWorld → Prop} {after : RedoxWorld}
    (fails : Fails path directory world post) {next : Directory}
    (became : Became path next world after) : Fails path directory after post :=
  fun error last faulty failed => fails error last (fun quiet => faulty (became.quiet quiet))
    (became.trans failed)

variable {post : Except IoError Unit → RedoxWorld → Prop}

theorem ends_probe (here : world.directories path = directory)
    (passed : ∀ after, Became path directory world after → post (.ok ()) after)
    (failed : Fails path directory world post) : Ends probe world post := by
  have became : Became path directory world { world with faults := world.faults.tail } :=
    ⟨here, fun _ _ => rfl, fun quiet => congrArg List.tail quiet, Nat.le_refl _, rfl⟩
  simp only [probe, nextFault, ends_bind, ends_get, ends_set, ends_pure]
  cases head : world.faults.head?.join with
  | none => exact passed _ became
  | some fault =>
    refine failed _ _ (fun quiet => ?_) became
    rw [quiet] at head
    cases head

theorem ends_lookup (here : world.directories path = directory) {id : Nat} {inode : Inode}
    (named : (directory.entries kind)[id]? = some inode)
    {post : Except IoError Inode → RedoxWorld → Prop}
    (found : ∀ after, Became path directory world after → post (.ok inode) after)
    (failed : Fails path directory world post) : Ends (lookup path kind id) world post := by
  simp only [lookup, ends_bind]
  refine ends_probe here (fun after became => ?_) failed
  simp only [ends_get, became.directory, named]
  exact found after became

theorem ends_syncFile (here : world.directories path = directory) {id : Nat} {inode : Inode}
    (named : (directory.entries kind)[id]? = some inode)
    (passed : ∀ after, Became path directory world after → post (.ok ()) after)
    (failed : Fails path directory world post) : Ends (syncFile path kind id) world post := by
  simp only [syncFile, ends_bind]
  refine ends_lookup here named (fun middle became => ?_) failed
  exact ends_probe became.directory (fun after last => passed after (became.trans last))
    (failed.since became)

theorem ends_syncDirectory (here : world.directories path = directory)
    (passed : ∀ after, Became path directory world after → post (.ok ()) after)
    (failed : Fails path directory world post) : Ends syncDirectory world post := by
  simp only [syncDirectory, ends_bind]
  refine ends_probe here (fun middle became => ?_) failed
  exact ends_probe became.directory (fun after last => passed after (became.trans last))
    (failed.since became)

/-- What one round of the loop does: it takes a free name, or fails without a change. On a quiet
host it fails because the name is in use. -/
def Takes (path : DirectoryPath) (directory : Directory) (kind : FileKind)
    (change : Nat → Directory) (value : α) (make : Nat → HostM α) : Prop :=
  ∀ id world, world.directories path = directory → Ends (make id) world fun result after =>
    ((directory.entries kind)[id]? = none ∧ result = .ok value ∧
      Became path (change id) world after) ∨
    ∃ error, result = .error error ∧ Became path directory world after ∧
      (world.faults = [] → isAlreadyExists error ∧ (directory.entries kind)[id]? ≠ none)

/-- The loop takes the first free number, unless a fault stops it. -/
theorem ends_numbered {make : Nat → HostM α} {change : Nat → Directory} {value : α}
    (takes : Takes path directory kind change value make) (fuel : Nat)
    (here : world.directories path = directory) :
    Ends (numbered make fuel) world fun result after =>
      (∃ id, (directory.entries kind)[id]? = none ∧ result = .ok (id, value) ∧
        Became path (change id) world after) ∨
      ∃ error, result = .error error ∧ Became path directory world after ∧
        (world.faults = [] → fuel = 0 ∨
          world.nextDurableLayerId + fuel ≤ directory.limit kind) := by
  induction fuel generalizing world with
  | zero => exact .inr ⟨_, rfl, Became.refl here, fun _ => .inl rfl⟩
  | succ fuel ih =>
    simp only [numbered, nextDurableId, ends_bind, ends_get, ends_set, ends_pure, ends_settle]
    have numbered : Became path directory world
        { world with nextDurableLayerId := world.nextDurableLayerId + 1 } :=
      ⟨here, fun _ _ => rfl, id, Nat.le_succ _, rfl⟩
    refine (takes world.nextDurableLayerId _ numbered.directory).mono ?_
    rintro result middle (⟨free, rfl, became⟩ | ⟨error, rfl, became, busy⟩)
    · exact .inl ⟨_, free, rfl, numbered.trans became⟩
    · have unchanged := numbered.trans became
      rw [ends_ite]
      refine ⟨fun _ => (ih unchanged.directory).mono ?_, fun other => ?_⟩
      · rintro result after (⟨id, free, rfl, last⟩ | ⟨error, rfl, last, few⟩)
        · exact .inl ⟨id, free, rfl, unchanged.trans last⟩
        · refine .inr ⟨error, rfl, unchanged.trans last, fun quiet => .inr ?_⟩
          have below := Directory.lt_limit (busy quiet).2
          have passed := became.numbers
          have rest := few (unchanged.quiet quiet)
          dsimp only at passed
          omega
      · exact .inr ⟨error, rfl, unchanged, fun quiet => absurd (busy quiet).1 other⟩

theorem ends_createNumberedFile (here : world.directories path = directory) (kind : FileKind)
    {post : Except IoError (Nat × Inode) → RedoxWorld → Prop}
    (created : ∀ id after, (directory.entries kind)[id]? = none →
      Became path (directory.create kind id) world after →
      post (.ok (id, directory.nextInode)) after)
    (failed : Fails path directory world post) :
    Ends (createNumberedFile path kind) world post := by
  have takes : Takes path directory kind (directory.create kind) directory.nextInode
      (createNew path kind) := by
    rintro id world rfl
    simp only [createNew, ends_bind]
    refine ends_probe rfl (fun middle became => ?_) fun error after faulty became =>
      .inr ⟨error, rfl, became, fun quiet => absurd quiet faulty⟩
    simp only [ends_get, ends_require, became.directory]
    refine ⟨fun free => .inl ⟨free, rfl, ?_⟩, fun used =>
      .inr ⟨_, rfl, became, fun _ => ⟨rfl, used⟩⟩⟩
    exact became.trans (became.directory ▸ RedoxWorld.became_setDirectory middle path _)
  simp only [createNumberedFile, rounds, ends_bind, ends_get, ends_pure]
  refine (ends_numbered takes _ here).mono ?_
  rintro result after (⟨id, free, rfl, became⟩ | ⟨error, rfl, became, few⟩)
  · exact created id after free became
  · refine failed error after (fun quiet => ?_) became
    have rest := few quiet
    rw [here] at rest
    omega

theorem ends_linkNumberedFile (here : world.directories path = directory) (kind : FileKind)
    {source : Nat} {inode : Inode} (named : (directory.entries .overlay)[source]? = some inode)
    {post : Except IoError Nat → RedoxWorld → Prop}
    (linked : ∀ id after, (directory.entries kind)[id]? = none →
      Became path (directory.link kind id inode) world after → post (.ok id) after)
    (failed : Fails path directory world post) :
    Ends (linkNumberedFile path kind source) world post := by
  have takes : Takes path directory kind (fun id => directory.link kind id inode) ()
      (hardLink path source kind) := by
    intro id world here
    simp only [hardLink, ends_bind]
    refine ends_lookup here named (fun middle became => ?_) fun error after faulty became =>
      .inr ⟨error, rfl, became, fun quiet => absurd quiet faulty⟩
    simp only [ends_get, ends_require, became.directory]
    refine ⟨fun free => .inl ⟨free, rfl, ?_⟩, fun used =>
      .inr ⟨_, rfl, became, fun _ => ⟨rfl, used⟩⟩⟩
    exact became.trans (became.directory ▸ RedoxWorld.became_setDirectory middle path _)
  simp only [linkNumberedFile, rounds, ends_bind, ends_get, ends_pure]
  refine (ends_numbered takes _ here).mono ?_
  rintro result after (⟨id, free, rfl, became⟩ | ⟨error, rfl, became, few⟩)
  · exact linked id after free became
  · refine failed error after (fun quiet => ?_) became
    have rest := few quiet
    rw [here] at rest
    omega

end Calls

end Host

end Minidox.Redox
