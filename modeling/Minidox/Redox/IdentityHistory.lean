import Minidox.Foundation.Naming
import Minidox.Redox.DiskLineage
import Minidox.Redox.Identity

/-!
# Page identities are write histories

A lineage of branches with the events of each ancestry beside it. Events have
different times, so two branches agree on an event only when it happened in a common
ancestor. The identity that a branch gives to a page says which event created the file
and which one wrote the page last, also after the lineage went through a checkpoint and
a new process.
-/

set_option autoImplicit false

namespace Minidox.Redox

open Foundation Attempt
open Cache (IoError NodeId pageSize)
open Std (ExtTreeMap)

/-- A call on the identities of one branch. -/
inductive IdentityCall where
  | createFile (node : NodeId)
  | recordWrite (node offset len : Nat)
  | preparePageWrite (node offset : Nat)
  deriving DecidableEq, Repr

namespace IdentityCall

def perform : IdentityCall → IdentityM Unit
  | .createFile node => IdentityBranch.createFile node
  | .recordWrite node offset len => IdentityBranch.recordWrite node offset len
  | .preparePageWrite node offset => do
    let _ ← IdentityBranch.preparePageWrite node offset

def creates (node : NodeId) : IdentityCall → Bool
  | .createFile created => created == node
  | .recordWrite .. | .preparePageWrite .. => false

/-- The page overlaps the range of a recorded write, or holds the prepared offset. -/
def writes (key : NodeId × Nat) : IdentityCall → Bool
  | .createFile _ => false
  | .recordWrite node offset len => node == key.1 &&
      max (key.2 * pageSize) offset < min ((key.2 + 1) * pageSize) (offset + len)
  | .preparePageWrite node offset => node == key.1 && offset / pageSize == key.2

/-- The call was an event. A prepared write has its version even when the node turns out
to be unknown. -/
def happened : IdentityCall → Except IoError Unit → Bool
  | .preparePageWrite .., _ => true
  | .createFile _, result | .recordWrite .., result => result.toBool

/-- How many object ids the call may take. -/
def objects : IdentityCall → Nat
  | .createFile _ => 1
  | .recordWrite .. | .preparePageWrite .. => 0

/-- How many page versions the call may take. -/
def versions : IdentityCall → Nat
  | .createFile _ => 0
  | .recordWrite _ offset len => (IdentityBranch.writtenPages offset (offset + len)).length
  | .preparePageWrite .. => 1

end IdentityCall

structure IdentityEvent where
  time : Nat
  call : IdentityCall
  deriving DecidableEq, Repr

structure IdentityLineage where
  world : RedoxWorld
  nextBranch : Nat
  branches : ExtTreeMap Nat IdentityBranch
  /-- The events in the ancestry of each branch, the latest one first. -/
  ancestry : Nat → List IdentityEvent
  clock : Nat

inductive IdentityAction where
  | call (branch : Nat) (call : IdentityCall)
  | fork (branch : Nat)
  | drop (branch : Nat)
  /-- Other lineages of the process take object ids and page versions. -/
  | advance (objects versions : Nat)
  /-- `durable_state` on all branches, and `restore_lineage` in a new process. -/
  | restart
  deriving DecidableEq, Repr

namespace IdentityAction

def objects : IdentityAction → Nat
  | .call _ taken => taken.objects
  | .advance objects _ => objects
  | .fork _ | .drop _ | .restart => 0

def versions : IdentityAction → Nat
  | .call _ taken => taken.versions
  | .advance _ versions => versions
  | .fork _ | .drop _ | .restart => 0

end IdentityAction

/-- Neither identity counter comes around when so many object ids and page versions are taken. -/
def RedoxWorld.Roomy (world : RedoxWorld) (objects versions : Nat) : Prop :=
  world.nextFileObjectId + objects < Word64.bound ∧ world.nextPageVersion + versions < Word64.bound

instance (world : RedoxWorld) (objects versions : Nat) : Decidable (world.Roomy objects versions) :=
  inferInstanceAs (Decidable (_ ∧ _))

namespace IdentityLineage

def initial : IdentityLineage where
  world := RedoxWorld.initial
  nextBranch := 1
  branches := (∅ : ExtTreeMap Nat IdentityBranch).insert 0 IdentityBranch.new
  ancestry _ := []
  clock := 0

def call (lineage : IdentityLineage) (number : Nat) (call : IdentityCall) : IdentityLineage :=
  match lineage.branches[number]? with
  | none => lineage
  | some branch =>
    match call.perform.exec (lineage.world, branch) with
    | (result, world, after) =>
      { lineage with
        world
        branches := lineage.branches.insert number after
        ancestry := if call.happened result then
          Function.update lineage.ancestry number
            (⟨lineage.clock, call⟩ :: lineage.ancestry number)
          else lineage.ancestry
        clock := lineage.clock + 1 }

def fork (lineage : IdentityLineage) (number : Nat) : IdentityLineage :=
  match lineage.branches[number]? with
  | none => lineage
  | some branch =>
    { lineage with
      nextBranch := lineage.nextBranch + 1
      branches := (lineage.branches.insert number branch.fork.1).insert lineage.nextBranch
        branch.fork.2
      ancestry := Function.update lineage.ancestry lineage.nextBranch
        (lineage.ancestry number) }

def drop (lineage : IdentityLineage) (number : Nat) : IdentityLineage :=
  { lineage with
    branches := lineage.branches.erase number
    ancestry := Function.update lineage.ancestry number [] }

def restart (lineage : IdentityLineage) : IdentityLineage :=
  { lineage with
    world := lineage.world.restart.reserveIdentities
      ((TreeMap.values lineage.branches).map IdentityBranch.state)
    branches := lineage.branches.map fun _ branch => IdentityBranch.ofState branch.state }

def advance (lineage : IdentityLineage) (objects versions : Nat) : IdentityLineage :=
  { lineage with
    world := { lineage.world with
      nextFileObjectId := Word64.wrappingAdd lineage.world.nextFileObjectId objects
      nextPageVersion := Word64.wrappingAdd lineage.world.nextPageVersion versions } }

def step (lineage : IdentityLineage) : IdentityAction → IdentityLineage
  | .call number call => lineage.call number call
  | .fork number => lineage.fork number
  | .drop number => lineage.drop number
  | .advance objects versions => lineage.advance objects versions
  | .restart => lineage.restart

def object (lineage : IdentityLineage) (number : Nat) (node : NodeId) : Option Nat :=
  lineage.branches[number]?.bind fun branch => branch.object node

def pageVersion (lineage : IdentityLineage) (number : Nat) (key : NodeId × Nat) : Option Nat :=
  lineage.branches[number]?.bind fun branch => branch.pageVersion key

def pageIdentity (lineage : IdentityLineage) (number node offset : Nat) :
    Option RedoxPageIdentity :=
  lineage.branches[number]?.bind fun branch => (branch.pageIdentity node offset).toOption

/-- The latest event in the ancestry of a branch that created the node. -/
def latestCreate (lineage : IdentityLineage) (number : Nat) (node : NodeId) :
    Option IdentityEvent :=
  (lineage.ancestry number).find? fun event => event.call.creates node

/-- The latest event in the ancestry of a branch that wrote the page. -/
def latestWrite (lineage : IdentityLineage) (number : Nat) (key : NodeId × Nat) :
    Option IdentityEvent :=
  (lineage.ancestry number).find? fun event => event.call.writes key

end IdentityLineage

/-!
## What a call does to a branch
-/

structure IdentityCall.Done (call : IdentityCall) (before after : RedoxWorld × IdentityBranch) :
    Prop where
  objects : before.1.nextFileObjectId ≤ after.1.nextFileObjectId
  versions : before.1.nextPageVersion ≤ after.1.nextPageVersion
  created : ∀ node, call.creates node → ∃ object, after.2.object node = some object ∧
    before.1.nextFileObjectId ≤ object ∧ object < after.1.nextFileObjectId
  uncreated : ∀ node, ¬ call.creates node → after.2.object node = before.2.object node
  written : ∀ key, call.writes key → ∃ version, after.2.pageVersion key = some version ∧
    before.1.nextPageVersion ≤ version ∧ version < after.1.nextPageVersion
  unwritten : ∀ key, ¬ call.writes key → after.2.pageVersion key = before.2.pageVersion key

namespace IdentityBranch

structure Stamped (touched : NodeId × Nat → Prop) (before after : RedoxWorld × IdentityBranch) :
    Prop where
  objectIds : after.1.nextFileObjectId = before.1.nextFileObjectId
  versions : before.1.nextPageVersion ≤ after.1.nextPageVersion
  files : after.2.object = before.2.object
  written : ∀ key, touched key → ∃ version, after.2.pageVersion key = some version ∧
    before.1.nextPageVersion ≤ version ∧ version < after.1.nextPageVersion
  unwritten : ∀ key, ¬ touched key → after.2.pageVersion key = before.2.pageVersion key

theorem ends_stampPage (key : NodeId × Nat) {before : RedoxWorld × IdentityBranch}
    (room : before.1.nextPageVersion + 1 < Word64.bound) :
    Ends (stampPage key) before fun result after => result = .ok () ∧
      after.1.nextPageVersion = before.1.nextPageVersion + 1 ∧ Stamped (· = key) before after := by
  obtain ⟨world, branch⟩ := before
  have next : Word64.wrappingAdd world.nextPageVersion 1 = world.nextPageVersion + 1 :=
    Word64.wrappingAdd_of_lt room
  simp only [stampPage, ends_modify, next]
  refine ⟨trivial, trivial, rfl, Nat.le_succ _, rfl, ?_, ?_⟩
  · intro other same
    exact ⟨world.nextPageVersion, by rw [pageVersion_insert, if_pos same], le_rfl,
      Nat.lt_succ_self _⟩
  · intro other different
    rw [pageVersion_insert, if_neg different]

theorem ends_preparePageWrite (node offset : Nat) {before : RedoxWorld × IdentityBranch}
    (room : before.1.nextPageVersion + 1 < Word64.bound) :
    Ends (preparePageWrite node offset) before fun result after =>
      result = after.2.pageIdentity node offset ∧
        Stamped (· = (node, offset / pageSize)) before after := by
  simp only [preparePageWrite, ends_bind]
  refine (ends_stampPage (node, offset / pageSize) room).mono ?_
  intro result after ended
  obtain ⟨rfl, -, stamped⟩ := ended
  simp only [ends_get, ends_ofExcept]
  exact ⟨trivial, stamped⟩

theorem ends_stampPages (node : NodeId) (pages : List Nat) {before : RedoxWorld × IdentityBranch}
    (room : before.1.nextPageVersion + pages.length < Word64.bound) :
    Ends (forM pages fun page => stampPage (node, page)) before fun result after =>
      result = .ok () ∧ Stamped (fun key => key.1 = node ∧ key.2 ∈ pages) before after := by
  induction pages generalizing before with
  | nil => exact ⟨rfl, rfl, le_rfl, rfl, fun key touched => by simp at touched, fun _ _ => rfl⟩
  | cons page rest ih =>
    rw [List.length_cons] at room
    rw [List.forM_cons, ends_bind]
    refine (ends_stampPage (node, page) (by omega)).mono ?_
    intro result middle first
    obtain ⟨rfl, next, first⟩ := first
    refine (ih (by omega)).mono ?_
    intro result after second
    obtain ⟨rfl, second⟩ := second
    refine ⟨rfl, second.objectIds.trans first.objectIds,
      Nat.le_trans first.versions second.versions, second.files.trans first.files, ?_, ?_⟩
    · intro key touched
      by_cases later : key.1 = node ∧ key.2 ∈ rest
      · obtain ⟨version, found, low, high⟩ := second.written key later
        exact ⟨version, found, Nat.le_trans first.versions low, high⟩
      · have here : key = (node, page) := by
          refine Prod.ext touched.1 ?_
          cases List.mem_cons.mp touched.2 with
          | inl same => exact same
          | inr member => exact absurd ⟨touched.1, member⟩ later
        obtain ⟨version, found, low, high⟩ := first.written key here
        exact ⟨version, (second.unwritten key later).trans found, low,
          Nat.lt_of_lt_of_le high second.versions⟩
    · intro key untouched
      rw [second.unwritten key fun later =>
          untouched ⟨later.1, List.mem_cons_of_mem _ later.2⟩,
        first.unwritten key fun here => untouched (by rw [here]; simp)]

theorem mem_writtenPages {offset len page : Nat} (nonempty : len ≠ 0) :
    page ∈ writtenPages offset (offset + len) ↔
      max (page * pageSize) offset < min ((page + 1) * pageSize) (offset + len) := by
  unfold writtenPages pageSize
  rw [List.mem_range'_1]
  omega

end IdentityBranch

theorem IdentityBranch.Stamped.done {call : IdentityCall} {touched : NodeId × Nat → Prop}
    {before after : RedoxWorld × IdentityBranch} (stamped : Stamped touched before after)
    (exact : ∀ key, call.writes key ↔ touched key) (nothing : ∀ node, ¬ call.creates node) :
    call.Done before after where
  objects := Nat.le_of_eq stamped.objectIds.symm
  versions := stamped.versions
  created node created := absurd created (nothing node)
  uncreated node _ := congrFun stamped.files node
  written key written := stamped.written key ((exact key).mp written)
  unwritten key unwritten := stamped.unwritten key fun touched =>
    unwritten ((exact key).mpr touched)

namespace IdentityCall

section Done

variable {call : IdentityCall} {before after : RedoxWorld × IdentityBranch}

theorem Done.object_lt (done : call.Done before after) {node object : Nat}
    (bounded : before.2.object node = some object → object < before.1.nextFileObjectId)
    (found : after.2.object node = some object) : object < after.1.nextFileObjectId := by
  by_cases created : call.creates node
  · obtain ⟨given, present, -, high⟩ := done.created node created
    rw [present] at found
    exact Option.some.inj found ▸ high
  · rw [done.uncreated node created] at found
    exact Nat.lt_of_lt_of_le (bounded found) done.objects

theorem Done.version_lt (done : call.Done before after) {key : NodeId × Nat} {version : Nat}
    (counted : 0 < before.1.nextPageVersion)
    (bounded : before.2.pageVersion key = some version →
      0 < version ∧ version < before.1.nextPageVersion)
    (found : after.2.pageVersion key = some version) :
    0 < version ∧ version < after.1.nextPageVersion := by
  by_cases written : call.writes key
  · obtain ⟨given, present, low, high⟩ := done.written key written
    rw [present] at found
    cases found
    exact ⟨Nat.lt_of_lt_of_le counted low, high⟩
  · rw [done.unwritten key written] at found
    exact ⟨(bounded found).1, Nat.lt_of_lt_of_le (bounded found).2 done.versions⟩

end Done

theorem ends_perform (call : IdentityCall) (before : RedoxWorld × IdentityBranch)
    (roomy : before.1.Roomy call.objects call.versions) :
    Ends call.perform before fun result after =>
      (call.happened result → call.Done before after) ∧
        (¬ call.happened result → after = before) := by
  cases call with
  | createFile node =>
    obtain ⟨world, branch⟩ := before
    have next : Word64.wrappingAdd world.nextFileObjectId 1 = world.nextFileObjectId + 1 :=
      Word64.wrappingAdd_of_lt roomy.1
    simp only [perform, IdentityBranch.createFile, ends_modify, next]
    refine ⟨fun _ => ⟨Nat.le_succ _, le_rfl, ?_, ?_, ?_, fun _ _ => rfl⟩,
      fun silent => absurd rfl silent⟩
    · intro other created
      refine ⟨world.nextFileObjectId, ?_, le_rfl, Nat.lt_succ_self _⟩
      exact (IdentityBranch.object_insert ..).trans (if_pos (eq_of_beq created).symm)
    · intro other silent
      refine (IdentityBranch.object_insert ..).trans (if_neg ?_)
      exact fun same => silent (beq_iff_eq.mpr same.symm)
    · intro key written
      cases written
  | recordWrite node offset len =>
    change Ends (IdentityBranch.recordWrite node offset len) before _
    unfold IdentityBranch.recordWrite
    rw [ends_onlyIf]
    constructor
    · intro nonempty
      rw [ends_bind]
      refine ends_orThrow ?_ ?_
      · intro stop found
        rw [Word64.checkedAdd_eq_some found]
        refine (IdentityBranch.ends_stampPages node _ roomy.2).mono ?_
        intro result after ended
        obtain ⟨rfl, stamped⟩ := ended
        refine ⟨fun _ => stamped.done ?_ fun _ => Bool.false_ne_true,
          fun silent => absurd rfl silent⟩
        intro key
        rw [IdentityBranch.mem_writtenPages nonempty]
        simp only [writes, Bool.and_eq_true, beq_iff_eq, decide_eq_true_eq]
        exact and_congr_left' eq_comm
      · intro overflow
        exact ⟨fun happened => absurd happened Bool.false_ne_true, fun _ => rfl⟩
    · intro empty
      refine ⟨fun _ => ?_, fun _ => rfl⟩
      have stamped : IdentityBranch.Stamped (fun _ => False) before before :=
        ⟨rfl, le_rfl, rfl, fun _ none => none.elim, fun _ _ => rfl⟩
      refine stamped.done ?_ fun _ => Bool.false_ne_true
      intro key
      simp only [writes, Bool.and_eq_true, decide_eq_true_eq, iff_false, not_and]
      intro _
      omega
  | preparePageWrite node offset =>
    change Ends (IdentityBranch.preparePageWrite node offset >>= fun _ => pure ()) before _
    rw [ends_bind]
    refine (IdentityBranch.ends_preparePageWrite node offset roomy.2).mono ?_
    intro result after ended
    have stamped := ended.2
    have done : Done (.preparePageWrite node offset) before after := by
      refine stamped.done ?_ fun _ => Bool.false_ne_true
      intro key
      simp only [writes, Bool.and_eq_true, beq_iff_eq, Prod.ext_iff]
      exact and_congr eq_comm eq_comm
    cases result with
    | ok identity => exact ⟨fun _ => done, fun silent => absurd rfl silent⟩
    | error error => exact ⟨fun _ => done, fun silent => absurd rfl silent⟩

end IdentityCall

/-!
## Rows of the lineage
-/

namespace IdentityLineage

section Rows

variable {κ α : Type} (branches : ExtTreeMap Nat IdentityBranch)
  (find : IdentityBranch → κ → Option α)

theorem row_insert (number : Nat) (branch : IdentityBranch) :
    (fun (other : Nat) key => (branches.insert number branch)[other]?.bind fun branch =>
      find branch key) =
      Function.update (fun (other : Nat) key => branches[other]?.bind fun branch =>
        find branch key) number
        (find branch) := by
  funext other key
  rw [TreeMap.getElem?_insert_ite]
  by_cases same : other = number
  · rw [if_pos same, same, Function.update_self, Option.bind_some]
  · rw [if_neg same, Function.update_of_ne same]

theorem row_erase (number : Nat) :
    (fun (other : Nat) key => (branches.erase number)[other]?.bind fun branch => find branch key) =
      Function.update (fun (other : Nat) key => branches[other]?.bind fun branch =>
        find branch key) number
        fun _ => none := by
  funext other key
  rw [TreeMap.getElem?_erase_ite]
  by_cases same : other = number
  · rw [if_pos same, same, Function.update_self, Option.bind_none]
  · rw [if_neg same, Function.update_of_ne same]

theorem row_map (change : IdentityBranch → IdentityBranch)
    (same : ∀ branch, find (change branch) = find branch) :
    (fun (other : Nat) key =>
      (branches.map fun _ branch => change branch)[other]?.bind fun branch =>
        find branch key) =
      fun (other : Nat) key => branches[other]?.bind fun branch => find branch key := by
  funext other key
  rw [ExtTreeMap.getElem?_map]
  cases branches[other]? with
  | none => rfl
  | some branch => exact congrFun (same branch) key

theorem row_find (ancestry : Nat → List IdentityEvent) (matching : κ → IdentityEvent → Bool)
    (number : Nat) (events : List IdentityEvent) :
    (fun (other : Nat) key => (Function.update ancestry number events other).find? (matching key)) =
      Function.update (fun (other : Nat) key => (ancestry other).find? (matching key)) number
        fun key => events.find? (matching key) := by
  funext other key
  by_cases same : other = number
  · rw [same, Function.update_self, Function.update_self]
  · rw [Function.update_of_ne same, Function.update_of_ne same]

theorem known_update {rows changed : Nat → κ → Option α} {number : Nat} {row : κ → Option α}
    (updated : changed = Function.update rows number row) {known : α → Prop}
    (here : ∀ key value, row key = some value → known value)
    (elsewhere : ∀ other key value, rows other key = some value → known value) :
    ∀ other key value, changed other key = some value → known value := by
  intro other key value present
  rw [updated, Function.update_apply] at present
  split at present
  next => exact here key value present
  next => exact elsewhere other key value present

theorem timed_update {ancestry : Nat → List IdentityEvent} {clock : Nat}
    (timed : ∀ number, ∀ event ∈ ancestry number, event.time < clock) (number : Nat)
    {events : List IdentityEvent} (early : ∀ event ∈ events, event.time < clock) :
    ∀ other, ∀ event ∈ Function.update ancestry number events other, event.time < clock := by
  intro other
  by_cases same : other = number
  · rw [same, Function.update_self]
    exact early
  · rw [Function.update_of_ne same]
    exact timed other

end Rows

/-- Values are below the counters, and events before the clock. -/
structure Named (lineage : IdentityLineage) : Prop where
  objects : Faithful lineage.object lineage.latestCreate
  versions : Faithful lineage.pageVersion lineage.latestWrite
  object_lt : ∀ number node object, lineage.object number node = some object →
    object < lineage.world.nextFileObjectId
  version_lt : ∀ number key version, lineage.pageVersion number key = some version →
    0 < version ∧ version < lineage.world.nextPageVersion
  counted : 0 < lineage.world.nextPageVersion
  timed : ∀ number, ∀ event ∈ lineage.ancestry number, event.time < lineage.clock

variable {lineage : IdentityLineage}

theorem rows_of_found {number : Nat} {branch : IdentityBranch}
    (found : lineage.branches[number]? = some branch) :
    lineage.object number = branch.object ∧ lineage.pageVersion number = branch.pageVersion := by
  constructor
  · funext node
    rw [object, found, Option.bind_some]
  · funext key
    rw [pageVersion, found, Option.bind_some]

theorem Named.initial : IdentityLineage.initial.Named := by
  have objects : IdentityLineage.initial.object = fun _ _ => none := by
    refine (row_insert ∅ IdentityBranch.object 0 IdentityBranch.new).trans ?_
    funext number node
    rw [Function.update_apply]
    split <;> simp [IdentityBranch.new, IdentityBranch.object, Overlay.lookup]
  have versions : IdentityLineage.initial.pageVersion = fun _ _ => none := by
    refine (row_insert ∅ IdentityBranch.pageVersion 0 IdentityBranch.new).trans ?_
    funext number node
    rw [Function.update_apply]
    split <;> simp [IdentityBranch.new, IdentityBranch.pageVersion, Overlay.lookup]
  refine ⟨?_, ?_, ?_, ?_, by decide, fun _ event member => by cases member⟩
  · rw [objects]
    exact ⟨fun _ _ => iff_of_true rfl rfl, fun _ _ _ => iff_of_true rfl rfl⟩
  · rw [versions]
    exact ⟨fun _ _ => iff_of_true rfl rfl, fun _ _ _ => iff_of_true rfl rfl⟩
  · intro number node object found
    rw [objects] at found
    cases found
  · intro number key version found
    rw [versions] at found
    cases found

theorem Named.forward {next : IdentityLineage} (named : lineage.Named)
    (objects : next.object = lineage.object) (versions : next.pageVersion = lineage.pageVersion)
    (ancestry : next.ancestry = lineage.ancestry)
    (objectIds : lineage.world.nextFileObjectId ≤ next.world.nextFileObjectId)
    (pageVersions : lineage.world.nextPageVersion ≤ next.world.nextPageVersion)
    (clock : lineage.clock ≤ next.clock) : next.Named where
  objects := by
    unfold latestCreate
    rw [objects, ancestry]
    exact named.objects
  versions := by
    unfold latestWrite
    rw [versions, ancestry]
    exact named.versions
  object_lt number node object found :=
    Nat.lt_of_lt_of_le (named.object_lt number node object (objects ▸ found)) objectIds
  version_lt number key version found :=
    have bounded := named.version_lt number key version (versions ▸ found)
    ⟨bounded.1, Nat.lt_of_lt_of_le bounded.2 pageVersions⟩
  counted := Nat.lt_of_lt_of_le named.counted pageVersions
  timed number event member :=
    Nat.lt_of_lt_of_le (named.timed number event (ancestry ▸ member)) clock

theorem Named.fresh_event (named : lineage.Named) {matching : IdentityEvent → Bool}
    {call : IdentityCall} (number : Nat) :
    (lineage.ancestry number).find? matching ≠ some ⟨lineage.clock, call⟩ := by
  intro found
  exact Nat.lt_irrefl _ (named.timed number _ (List.mem_of_find?_eq_some found))

theorem Named.call (named : lineage.Named) (number : Nat) {call : IdentityCall}
    (roomy : lineage.world.Roomy call.objects call.versions) :
    (lineage.call number call).Named := by
  unfold IdentityLineage.call
  cases found : lineage.branches[number]? with
  | none => exact named
  | some branch =>
    refine Ends.elim ((call.ends_perform (lineage.world, branch) roomy).mono ?_)
    intro result after held executed
    obtain ⟨world, next⟩ := after
    simp only [executed]
    obtain ⟨objectRow, versionRow⟩ := rows_of_found found
    have objects := row_insert lineage.branches IdentityBranch.object number next
    have versions := row_insert lineage.branches IdentityBranch.pageVersion number next
    by_cases happened : call.happened result
    · have done := held.1 happened
      simp only [happened, if_true]
      have creates := row_find lineage.ancestry (fun node event => event.call.creates node) number
        (⟨lineage.clock, call⟩ :: lineage.ancestry number)
      have writes := row_find lineage.ancestry (fun key event => event.call.writes key) number
        (⟨lineage.clock, call⟩ :: lineage.ancestry number)
      refine ⟨(congrArg₂ Faithful objects creates).mpr ?_,
        (congrArg₂ Faithful versions writes).mpr ?_, ?_, ?_, ?_, ?_⟩
      · refine named.objects.stamp number (fun node => call.creates node) ?_ ?_
        · intro node created
          obtain ⟨object, present, low, -⟩ := done.created node created
          refine ⟨object, ⟨lineage.clock, call⟩, present, List.find?_cons_of_pos created, ?_,
            fun other => named.fresh_event other⟩
          intro other taken
          exact absurd (named.object_lt other node object taken) (Nat.not_lt_of_le low)
        · intro node uncreated
          exact ⟨(done.uncreated node uncreated).trans (congrFun objectRow node).symm,
            List.find?_cons_of_neg uncreated⟩
      · refine named.versions.stamp number (fun key => call.writes key) ?_ ?_
        · intro key written
          obtain ⟨version, present, low, -⟩ := done.written key written
          refine ⟨version, ⟨lineage.clock, call⟩, present, List.find?_cons_of_pos written, ?_,
            fun other => named.fresh_event other⟩
          intro other taken
          exact absurd (named.version_lt other key version taken).2 (Nat.not_lt_of_le low)
        · intro key unwritten
          exact ⟨(done.unwritten key unwritten).trans (congrFun versionRow key).symm,
            List.find?_cons_of_neg unwritten⟩
      · refine known_update objects (fun node object present => ?_) fun other node object present =>
          Nat.lt_of_lt_of_le (named.object_lt other node object present) done.objects
        refine done.object_lt (fun before => named.object_lt number node object ?_) present
        rw [objectRow, before]
      · refine known_update versions (fun key version present => ?_)
          fun other key version present => (named.version_lt other key version present).imp_right
            (Nat.lt_of_lt_of_le · done.versions)
        refine done.version_lt named.counted (fun before => named.version_lt number key version ?_)
          present
        rw [versionRow, before]
      · exact Nat.lt_of_lt_of_le named.counted done.versions
      · refine timed_update (fun other event member =>
          Nat.lt_succ_of_lt (named.timed other event member)) number ?_
        intro event member
        cases List.mem_cons.mp member with
        | inl now => exact now ▸ Nat.lt_succ_self _
        | inr past => exact Nat.lt_succ_of_lt (named.timed number event past)
    · cases held.2 happened
      simp only [happened]
      refine named.forward ?_ ?_ rfl le_rfl le_rfl (Nat.le_succ _)
      · refine objects.trans ?_
        rw [← objectRow]
        exact Function.update_eq_self number lineage.object
      · refine versions.trans ?_
        rw [← versionRow]
        exact Function.update_eq_self number lineage.pageVersion

theorem Named.fork (named : lineage.Named) (number : Nat) : (lineage.fork number).Named := by
  unfold IdentityLineage.fork
  cases found : lineage.branches[number]? with
  | none => exact named
  | some branch =>
    obtain ⟨⟨parentObject, parentVersion⟩, childObject, childVersion⟩ := branch.lookup_fork
    obtain ⟨objectRow, versionRow⟩ := rows_of_found found
    -- The parent keeps its row, and the child has a copy of it.
    have objects : (fun (other : Nat) node => ((lineage.branches.insert number branch.fork.1).insert
          lineage.nextBranch branch.fork.2)[other]?.bind fun branch => branch.object node) =
        Function.update lineage.object lineage.nextBranch (lineage.object number) := by
      rw [row_insert, row_insert, parentObject, childObject, ← objectRow]
      exact congrArg (Function.update · _ _) (Function.update_eq_self number lineage.object)
    have versions : (fun (other : Nat) key => ((lineage.branches.insert number branch.fork.1).insert
          lineage.nextBranch branch.fork.2)[other]?.bind fun branch => branch.pageVersion key) =
        Function.update lineage.pageVersion lineage.nextBranch (lineage.pageVersion number) := by
      rw [row_insert, row_insert, parentVersion, childVersion, ← versionRow]
      exact congrArg (Function.update · _ _) (Function.update_eq_self number lineage.pageVersion)
    exact ⟨(congrArg₂ Faithful objects (row_find ..)).mpr (named.objects.copy ..),
      (congrArg₂ Faithful versions (row_find ..)).mpr (named.versions.copy ..),
      known_update objects (named.object_lt number) named.object_lt,
      known_update versions (named.version_lt number) named.version_lt, named.counted,
      timed_update named.timed lineage.nextBranch (named.timed number)⟩

theorem Named.drop (named : lineage.Named) (number : Nat) : (lineage.drop number).Named := by
  have objects := row_erase lineage.branches IdentityBranch.object number
  have versions := row_erase lineage.branches IdentityBranch.pageVersion number
  exact ⟨(congrArg₂ Faithful objects (row_find ..)).mpr (named.objects.clear number),
    (congrArg₂ Faithful versions (row_find ..)).mpr (named.versions.clear number),
    known_update objects (by rintro _ _ ⟨⟩) named.object_lt,
    known_update versions (by rintro _ _ ⟨⟩) named.version_lt, named.counted,
    timed_update named.timed number fun event member => by cases member⟩

/-- The counters of the new process are above everything that was restored. -/
theorem Named.restart (named : lineage.Named) (roomy : lineage.world.Roomy 0 0) :
    lineage.restart.Named := by
  have objects := row_map lineage.branches IdentityBranch.object
    (fun branch => IdentityBranch.ofState branch.state) fun branch => branch.lookup_ofState.1
  have versions := row_map lineage.branches IdentityBranch.pageVersion
    (fun branch => IdentityBranch.ofState branch.state) fun branch => branch.lookup_ofState.2
  refine ⟨(congrArg₂ Faithful objects rfl).mpr named.objects,
    (congrArg₂ Faithful versions rfl).mpr named.versions, ?_, ?_, ?_, named.timed⟩
  · intro number node object present
    replace present := (congrFun (congrFun objects number) node).symm.trans present
    obtain ⟨branch, found, value⟩ := Option.bind_eq_some_iff.mp present
    refine Nat.lt_of_lt_of_le (Word64.lt_saturatingAdd_one (le_foldr_max ?_)
      (Nat.lt_of_le_of_lt (named.object_lt number node object present) roomy.1))
      (Nat.le_max_right _ _)
    exact List.mem_flatMap.mpr ⟨branch.state, List.mem_map_of_mem (TreeMap.mem_values.mpr
      ⟨number, found⟩), IdentityBranch.mem_state_files value⟩
  · intro number key version present
    replace present := (congrFun (congrFun versions number) key).symm.trans present
    have bounded := named.version_lt number key version present
    refine ⟨bounded.1, ?_⟩
    obtain ⟨branch, found, value⟩ := Option.bind_eq_some_iff.mp present
    refine Nat.lt_of_lt_of_le (Word64.lt_saturatingAdd_one (le_foldr_max ?_)
      (Nat.lt_of_le_of_lt bounded.2 roomy.2)) (Nat.le_max_right _ _)
    exact List.mem_flatMap.mpr ⟨branch.state, List.mem_map_of_mem (TreeMap.mem_values.mpr
      ⟨number, found⟩), IdentityBranch.mem_state_pages value⟩
  · exact Nat.lt_of_lt_of_le Nat.one_pos (Nat.le_max_left _ _)

/-- The identity counters do not come around in the action. -/
def HasRoom (lineage : IdentityLineage) (action : IdentityAction) : Prop :=
  lineage.world.Roomy action.objects action.versions

instance (lineage : IdentityLineage) (action : IdentityAction) :
    Decidable (lineage.HasRoom action) :=
  inferInstanceAs (Decidable (RedoxWorld.Roomy ..))

theorem Named.step (named : lineage.Named) {action : IdentityAction}
    (roomy : lineage.HasRoom action) : (lineage.step action).Named := by
  cases action with
  | call number call => exact named.call number roomy
  | fork number => exact named.fork number
  | drop number => exact named.drop number
  | advance objects versions =>
    exact named.forward rfl rfl rfl (Word64.le_wrappingAdd roomy.1) (Word64.le_wrappingAdd roomy.2)
      le_rfl
  | restart => exact named.restart roomy

theorem named_run {actions : List IdentityAction} (roomy : Admitted step HasRoom initial actions) :
    (run step initial actions).Named :=
  run_invariant Named (fun _ _ named => named.step) Named.initial roomy

/-!
## Identities against histories
-/

theorem nextPageVersion_step {action : IdentityAction} (same : action ≠ .restart)
    (roomy : lineage.HasRoom action) :
    lineage.world.nextPageVersion ≤ (lineage.step action).world.nextPageVersion := by
  cases action with
  | call number call =>
    simp only [step, IdentityLineage.call]
    cases lineage.branches[number]? with
    | none => exact le_rfl
    | some branch =>
      refine Ends.elim ((call.ends_perform (lineage.world, branch) roomy).mono ?_)
      intro result after held executed
      simp only [executed]
      by_cases happened : call.happened result
      · exact (held.1 happened).versions
      · exact held.2 happened ▸ le_rfl
  | fork number =>
    simp only [step, IdentityLineage.fork]
    cases lineage.branches[number]? with
    | none => exact le_rfl
    | some branch => exact le_rfl
  | drop number => exact le_rfl
  | advance objects versions => exact Word64.le_wrappingAdd roomy.2
  | restart => exact absurd rfl same

theorem nextPageVersion_run {actions : List IdentityAction} (same : .restart ∉ actions)
    (roomy : Admitted step HasRoom lineage actions) :
    lineage.world.nextPageVersion ≤ (run step lineage actions).world.nextPageVersion := by
  induction actions generalizing lineage with
  | nil => exact le_rfl
  | cons action rest ih =>
    rw [List.mem_cons, not_or] at same
    exact Nat.le_trans (nextPageVersion_step (Ne.symm same.1) roomy.1) (ih same.2 roomy.2)

theorem pageIdentity_eq (lineage : IdentityLineage) (number node offset : Nat) :
    lineage.pageIdentity number node offset = (lineage.object number node).map fun object =>
      { object, page := offset / pageSize,
        version := (lineage.pageVersion number (node, offset / pageSize)).getD 0 } := by
  unfold pageIdentity object pageVersion IdentityBranch.pageIdentity
  cases lineage.branches[number]? with
  | none => rfl
  | some branch =>
    simp only [Option.bind_some]
    cases branch.object node with
    | none => rfl
    | some object => rfl

theorem Named.getD_version (named : lineage.Named) {left right : Nat} {key : NodeId × Nat} :
    (lineage.pageVersion left key).getD 0 = (lineage.pageVersion right key).getD 0 ↔
      lineage.pageVersion left key = lineage.pageVersion right key := by
  cases first : lineage.pageVersion left key with
  | none =>
    cases second : lineage.pageVersion right key with
    | none => exact iff_of_true rfl rfl
    | some version =>
      have positive := (named.version_lt right key version second).1
      exact iff_of_false (Nat.ne_of_lt positive) (by simp)
  | some version =>
    have positive := (named.version_lt left key version first).1
    cases second : lineage.pageVersion right key with
    | none => exact iff_of_false (Nat.ne_of_gt positive) (by simp)
    | some other => simp

theorem Named.same_identity (named : lineage.Named) (left right node offset : Nat) :
    (∃ identity, lineage.pageIdentity left node offset = some identity ∧
        lineage.pageIdentity right node offset = some identity) ↔
      (∃ event, lineage.latestCreate left node = some event ∧
        lineage.latestCreate right node = some event) ∧
      lineage.latestWrite left (node, offset / pageSize) =
        lineage.latestWrite right (node, offset / pageSize) := by
  rw [pageIdentity_eq, pageIdentity_eq, ← named.versions.same_iff, ← named.getD_version]
  have objects := named.objects.same_iff left right node
  have absent := named.objects.none_iff left node
  cases first : lineage.object left node with
  | none =>
    rw [absent.mp first]
    simp
  | some object =>
    rw [first] at objects absent
    obtain ⟨event, created⟩ := Option.ne_none_iff_exists'.mp fun missing =>
      Option.some_ne_none object (absent.mpr missing)
    rw [created] at objects ⊢
    constructor
    · intro given
      obtain ⟨identity, here, there⟩ := given
      obtain ⟨other, found, same⟩ := Option.map_eq_some_iff.mp there
      rw [Option.map_some, Option.some.injEq, ← same, RedoxPageIdentity.mk.injEq] at here
      exact ⟨⟨event, rfl, (objects.mp (by rw [found, here.1])).symm⟩, here.2.2⟩
    · intro given
      obtain ⟨⟨shared, here, there⟩, version⟩ := given
      refine ⟨_, rfl, ?_⟩
      rw [← objects.mpr (here.trans there.symm), ← version, Option.map_some]

theorem Named.version_call (named : lineage.Named) {number : Nat} {call : IdentityCall}
    (roomy : lineage.world.Roomy call.objects call.versions) {key : NodeId × Nat}
    (latest : (lineage.call number call).latestWrite number key = some ⟨lineage.clock, call⟩) :
    ∃ version, (lineage.call number call).pageVersion number key = some version ∧
      lineage.world.nextPageVersion ≤ version := by
  unfold IdentityLineage.call at latest ⊢
  cases found : lineage.branches[number]? with
  | none =>
    simp only [found] at latest
    exact absurd latest (named.fresh_event number)
  | some branch =>
    simp only [found] at latest ⊢
    refine Ends.elim ((call.ends_perform (lineage.world, branch) roomy).mono ?_)
    intro result after held executed
    simp only [executed] at latest ⊢
    by_cases happened : call.happened result
    · simp only [happened, if_true, latestWrite, Function.update_self] at latest
      by_cases written : call.writes key
      · obtain ⟨version, present, low, -⟩ := (held.1 happened).written key written
        refine ⟨version, ?_, low⟩
        rw [pageVersion, ExtTreeMap.getElem?_insert_self, Option.bind_some, present]
      · rw [List.find?_cons] at latest
        simp only [written] at latest
        exact absurd latest (named.fresh_event number)
    · simp only [happened] at latest
      exact absurd latest (named.fresh_event number)

/-- A write gives no identity that some branch gave before, while the counters only move
forward. -/
theorem Named.fresh_identity {old : IdentityLineage} (oldNamed : old.Named) (named : lineage.Named)
    (forward : old.world.nextPageVersion ≤ lineage.world.nextPageVersion)
    {number node offset : Nat} {call : IdentityCall} {identity : RedoxPageIdentity}
    (roomy : lineage.world.Roomy call.objects call.versions)
    (latest : (lineage.call number call).latestWrite number (node, offset / pageSize) =
      some ⟨lineage.clock, call⟩)
    (given : (lineage.call number call).pageIdentity number node offset = some identity)
    (other otherNode place : Nat) : old.pageIdentity other otherNode place ≠ some identity := by
  intro same
  obtain ⟨version, present, low⟩ := named.version_call roomy latest
  rw [pageIdentity_eq] at given same
  obtain ⟨object, -, rfl⟩ := Option.map_eq_some_iff.mp given
  obtain ⟨otherObject, -, equal⟩ := Option.map_eq_some_iff.mp same
  rw [RedoxPageIdentity.mk.injEq, present, Option.getD_some] at equal
  have below : (old.pageVersion other (otherNode, place / pageSize)).getD 0 <
      old.world.nextPageVersion := by
    cases before : old.pageVersion other (otherNode, place / pageSize) with
    | none => exact oldNamed.counted
    | some known => exact (oldNamed.version_lt _ _ _ before).2
  omega

/-- Two branches give a page the same identity. -/
def SameIdentity (lineage : IdentityLineage) (left right node offset : Nat) : Prop :=
  ∃ identity, lineage.pageIdentity left node offset = some identity ∧
    lineage.pageIdentity right node offset = some identity

/-- The ancestries of two branches agree on the event that created the file last and on the one
that wrote the page last. -/
def SameHistory (lineage : IdentityLineage) (left right node offset : Nat) : Prop :=
  (∃ event, lineage.latestCreate left node = some event ∧
    lineage.latestCreate right node = some event) ∧
  lineage.latestWrite left (node, offset / pageSize) =
    lineage.latestWrite right (node, offset / pageSize)

/-- As long as the counters do not come around, two live branches give a page the same identity
exactly when they share its history. In particular a write in a new process gives no identity
that was restored. -/
theorem identity_is_write_history {actions : List IdentityAction}
    (roomy : Admitted step HasRoom initial actions) :
    (∀ left right node offset : Nat,
      (run step initial actions).SameIdentity left right node offset ↔
        (run step initial actions).SameHistory left right node offset) ∧
      ∀ (later : List IdentityAction) (writer : Nat) (call : IdentityCall), .restart ∉ later →
        Admitted step HasRoom initial (actions ++ .restart :: (later ++ [.call writer call])) →
        ∀ (node offset : Nat) (identity : RedoxPageIdentity),
          let before := run step initial (actions ++ .restart :: later)
          let after := before.step (.call writer call)
          after.latestWrite writer (node, offset / pageSize) = some ⟨before.clock, call⟩ →
          after.pageIdentity writer node offset = some identity →
          ∀ restored other place : Nat,
            (run step initial (actions ++ [.restart])).pageIdentity restored other place ≠
              some identity := by
  constructor
  · intro left right node offset
    exact (named_run roomy).same_identity left right node offset
  · intro later writer call same whole node offset identity before after latest given
    have split : before = run step (run step initial (actions ++ [.restart])) later := by
      rw [← run_append, List.append_assoc, List.singleton_append]
    rw [← List.singleton_append, ← List.append_assoc, ← List.append_assoc, admitted_append,
      admitted_append] at whole
    obtain ⟨⟨restarted, onward⟩, last, -⟩ := whole
    rw [run_append, ← split] at last
    have named : before.Named :=
      split ▸ run_invariant Named (fun _ _ named => named.step) (named_run restarted) onward
    refine (named_run restarted).fresh_identity named ?_ last latest given
    rw [split]
    exact nextPageVersion_run same onward

/-- A page that two branches share is written by one of them after a restart. -/
theorem identity_is_write_history_restarted :
    (run step initial ([.call 0 (.createFile 5), .call 0 (.recordWrite 5 0 1), .fork 0] ++
        [.restart])).pageIdentity 1 5 0 ≠ some ⟨1, 0, 2⟩ ∧
      (run step initial ([.call 0 (.createFile 5), .call 0 (.recordWrite 5 0 1), .fork 0] ++
        .restart :: [.call 0 (.preparePageWrite 5 0)])).pageIdentity 0 5 0 = some ⟨1, 0, 2⟩ :=
  ⟨(identity_is_write_history (by decide +kernel)).2
    [] 0 (.preparePageWrite 5 0) (by decide) (by decide +kernel) 5 0 ⟨1, 0, 2⟩ (by decide +kernel)
    (by decide +kernel) 1 5 0, by decide +kernel⟩

/-- The version of a page is zero when it is written after the counter has come around, as if it
had never been written. -/
theorem wrapped_version_is_unwritten :
    (run step initial [.call 0 (.createFile 5), .fork 0, .advance 0 (2 ^ 64 - 1),
        .call 0 (.recordWrite 5 0 1)]).SameIdentity 0 1 5 0 ∧
      ¬ (run step initial [.call 0 (.createFile 5), .fork 0, .advance 0 (2 ^ 64 - 1),
        .call 0 (.recordWrite 5 0 1)]).SameHistory 0 1 5 0 :=
  ⟨⟨⟨1, 0, 0⟩, by decide +kernel, by decide +kernel⟩,
    fun same => absurd same.2 (by decide +kernel)⟩

end IdentityLineage

end Minidox.Redox
