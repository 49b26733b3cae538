import Minidox.Cache.Shared.Properties

/-!
# A branch that nobody writes

Branches share pages, and a page is copied when one of them writes it. A branch that
is not written keeps every byte of its files, whatever the other branches do and
whatever fails, and a fork of it starts with those bytes.
-/

set_option autoImplicit false

namespace Minidox.Cache

open Foundation
open Std (ExtTreeMap)

/-- The actions that can change what a branch holds. A `write` is named by its start:
the steps that follow belong to the call. -/
def Action.writes (branch : CacheBranchId) : Action → Bool
  | .removeBranch other | .createFile other _ _ | .begin _ (.write _) other _ _ => other = branch
  | .store mapping _ _ => mapping.branch = branch
  | _ => false

namespace Reference

/-- A branch holds these files, and the calls that run on it are reads. -/
structure Frozen (branch : CacheBranchId) (files : Files) (reference : Reference) : Prop where
  copy : reference.copies branch = some files
  reads : ∀ thread call, reference.calls thread = some call → call.branch = branch →
    call.job.flags.write = false

variable {reference after : Reference} {branch : CacheBranchId} {files : Files} {thread : Thread}
  {call : Call Unit} {reply : Reply}

theorem Frozen.setCopy (frozen : Frozen branch files reference) {other : CacheBranchId}
    (different : other ≠ branch) (changed : Option Files) :
    Frozen branch files (reference.setCopy other changed) where
  copy := (Function.update_of_ne different.symm _ _).trans frozen.copy
  reads := frozen.reads

theorem Frozen.setCall (frozen : Frozen branch files reference) {next : Option (Call Unit)}
    (reads : ∀ call ∈ next, call.branch = branch → call.job.flags.write = false) :
    Frozen branch files (reference.setCall thread next) where
  copy := frozen.copy
  reads other running active own := by
    by_cases same : other = thread
    · subst same
      rw [calls_setCall] at active
      exact reads running active own
    · exact frozen.reads other running ((Function.update_of_ne same _ _).symm.trans active) own

theorem Frozen.callStep (frozen : Frozen branch files reference)
    (active : reference.calls thread = some call)
    (step : CallStep reference thread call reply after) : Frozen branch files after := by
  have reads := frozen.reads thread call active
  -- a call that patches a copy is a `write`, so the copy is that of another branch
  have elsewhere : ∀ data, call.job = .write data → call.branch ≠ branch := by
    intro data job own
    have reading := reads own
    rw [job] at reading
    cases reading
  cases step with
  | stopped | readNothing | writeNothing | finished => exact frozen.setCall (by simp)
  | patched _ job => exact (frozen.setCopy (elsewhere _ job) _).setCall (by simpa using reads)
  | torn _ _ job => exact (frozen.setCopy (elsewhere _ job) _).setCall (by simp)
  | _ => exact frozen.setCall (by simpa using reads)

theorem Frozen.step (frozen : Frozen branch files reference) {action : Action}
    (kept : action.writes branch = false) (step : Step reference action reply after) :
    Frozen branch files after := by
  cases step with
  | refused | failed | quiet | measured | mapped => exact frozen
  | forked live fresh =>
    apply frozen.setCopy
    -- a fork never takes the name of a branch that there is
    intro same
    rw [same, frozen.copy] at fresh
    cases fresh
  | removed | created | stored => exact frozen.setCopy (of_decide_eq_false kept) _
  | @begun thread job owner node offset =>
    apply frozen.setCall
    intro call begun own
    cases begun
    cases job with
    | read capacity => rfl
    | write data => exact absurd own (of_decide_eq_false kept)
  | advanced active step => exact frozen.callStep active step

end Reference

namespace System

variable {World Store Identity : Type} [Ord Identity] [Std.TransOrd Identity]
  [Std.LawfulEqOrd Identity] [DecidableEq Identity] [ForkableNodeStore World Store Identity]
  [FileView Store] [IdentityLedger World Identity] [StoreLedger World Store]
  [LawfulForkableStore World Store Identity]
  [FileMaker World Store] [LawfulFileMaker World Store Identity]
variable {system : System World Store Identity} {branch : CacheBranchId} {files : Files}

def Freezes (branch : CacheBranchId) (files : Files) (system : System World Store Identity) :
    Prop :=
  Consistent system ∧ (referenceOf system).Frozen branch files

theorem Freezes.after (frozen : Freezes branch files system) {actions : List Action}
    (unwritten : ∀ action ∈ actions, action.writes branch = false) :
    Freezes branch files (system.after actions) := by
  induction actions generalizing system with
  | nil => exact frozen
  | cons action rest ih =>
    obtain ⟨consistent, simulates⟩ := simulated system frozen.1 action
    exact ih ⟨consistent, frozen.2.step (unwritten action List.mem_cons_self) simulates⟩
      fun later member => unwritten later (List.mem_cons_of_mem _ member)

theorem Freezes.fork (frozen : Freezes branch files system) {child : CacheBranchId}
    (answer : (system.step (.fork branch)).2 = .forked child) :
    (system.step (.fork branch)).1.cache.copies child = some files := by
  have simulates := (simulated system frozen.1 (.fork branch)).2
  rw [answer] at simulates
  generalize same : referenceOf (system.step (.fork branch)).1 = after at simulates
  cases simulates with
  | forked live fresh =>
    cases live.symm.trans frozen.2.copy
    exact (congrArg (Reference.copies · child) same).trans (Function.update_self _ _ _)

/-- As long as nothing writes a branch, its files stay the same to the byte, whatever
the other branches write, fork, drop or sync, in any interleaving and whatever
fails. A fork of the branch has the same files. -/
theorem unwritten_branch_keeps_its_files {world : World} {stores : List Store}
    (coherent : Coherent world stores) (id nextPageId : Nat) (faults : Faults)
    (earlier later : List Action) (branch : CacheBranchId) :
    let start : System World Store Identity :=
      System.new (SharedPageCache.ofStores id nextPageId world faults stores)
    let before := start.after earlier
    branch ∈ before.cache.branches →
    (∀ running ∈ before.calls.toList, running.2.branch = branch →
      running.2.job.flags.write = false) →
    (∀ action ∈ later, action.writes branch = false) →
    let system := start.after (earlier ++ later)
    system.cache.copies branch = before.cache.copies branch ∧
      ∀ child, (system.step (.fork branch)).2 = .forked child →
        (system.step (.fork branch)).1.cache.copies child = before.cache.copies branch := by
  intro start before live reads unwritten
  obtain ⟨files, copy⟩ : ∃ files, before.cache.copies branch = some files := by
    rw [← Option.ne_none_iff_exists', ne_eq, SharedPageCache.copies_eq_none_iff, ← ne_eq,
      ← Option.isSome_iff_ne_none, ExtTreeMap.isSome_getElem?_iff_mem]
    exact live
  have frozen : Freezes branch files before := by
    refine ⟨(consistent_new coherent id nextPageId faults).after earlier, copy, ?_⟩
    intro thread call active own
    obtain ⟨running, found, rfl⟩ := Option.map_eq_some_iff.mp active
    exact reads (thread, running) (ExtTreeMap.mem_toList_iff_getElem?_eq_some.mpr found) own
  have frozen := frozen.after unwritten
  rw [show before.after later = start.after (earlier ++ later) from (run_append _ _ _ _).symm]
    at frozen
  rw [copy]
  exact ⟨frozen.2.copy, fun _ => frozen.fork⟩

end System

/-!
A file of one byte is forked, and then written in the source while the fork reads it.
-/

namespace WrittenSource

open Redox MappedStore

def earlier : List Action :=
  [.createFile 1 "a" 1, .openNode 1 2, .fork 1, .openNode 2 2, .begin 1 (.read 1) 2 2 0, .advance 1]

def later : List Action :=
  [.begin 0 (.write [7]) 1 2 0, .advance 0, .advance 0, .advance 0, .advance 0, .advance 1,
    .advance 1]

theorem fork_keeps_its_files :
    (start.after (earlier ++ later)).cache.copies 2 = (start.after earlier).cache.copies 2 ∧
      ((start.after (earlier ++ later)).step (.advance 1)).2 = .read [0] :=
  ⟨(System.unwritten_branch_keeps_its_files OneFile.coherent 1 1 [] earlier later 2
    (by decide +kernel) (by decide +kernel) (by decide)).1, by decide +kernel⟩

end WrittenSource

end Minidox.Cache
